import Oboromi.Analysis.ShaderEmission

/-!
# The ids a decoder uses

Behind the scalar types every declaration of `init` uses an id: the pointer type and the
registers use ids that `init` obtained, the vector types use table entries that nothing sets.
So whether a run uses only ids of its own is decided by what these entries held before
(`UnsetEntriesObtained`); and as the ids of the vector types are dropped, the entries never hold
them afterwards.
-/

set_option autoImplicit false

namespace Oboromi.Analysis.Sm86

open Oboromi.Lib
open Oboromi.Model.Spirv
open Oboromi.Model.Sm86
open Oboromi.Interface.Spirv
open Oboromi.Interface.Sm86

/-! ## Streams -/

/-- The results of the first instructions are known to the others. -/
theorem usesKnown_append (known : List UInt32) (as bs : List Inst) :
    UsesKnown known (as ++ bs) ↔
      UsesKnown known as ∧ UsesKnown (known ++ as.filterMap resultId) bs := by
  induction as generalizing known with
  | nil => simp [UsesKnown]
  | cons i as ih =>
    have hresults : (i :: as).filterMap resultId =
        (resultId i).toList ++ as.filterMap resultId := by
      cases hresult : resultId i with
      | none => simp [hresult]
      | some r => simp [hresult]
    rw [List.cons_append, UsesKnown, UsesKnown, ih, and_assoc, hresults, List.append_assoc]

/-- The ids of `k` declarations. -/
def obtained (next : UInt32) (k : ℕ) : List UInt32 := (List.range k).map (idAt next)

/-- The ids of the first `k` declarations. -/
theorem mem_obtained_iff {next : UInt32} {k : ℕ} {id : UInt32} :
    id ∈ obtained next k ↔ ∃ j < k, id = idAt next j := by
  simp [obtained, eq_comm]

/-- The next declaration takes the next id. -/
theorem obtained_succ (next : UInt32) (k : ℕ) :
    obtained next (k + 1) = obtained next k ++ [idAt next k] := by
  simp [obtained, List.range_succ]

/-! ## Declarations -/

/-- Declarations that take their own id as their result and use some fixed ids. -/
structure Declaration.Uses (c : Declaration) (ids : List UInt32) : Prop where
  result : ∀ id, resultId (c.inst id) = some id
  used : ∀ id, usedIds (c.inst id) = ids

/-- The scalar types use no id. -/
theorem scalars_uses {c : Declaration} (hc : c ∈ scalars) : c.Uses [] := by
  simp only [scalars, List.mem_cons, List.not_mem_nil, or_false] at hc
  rcases hc with rfl | rfl | rfl | rfl | rfl | rfl | rfl | rfl | rfl | rfl | rfl | rfl | rfl
  all_goals exact ⟨fun _ => rfl, fun _ => rfl⟩

/-- A vector type uses its table's entry. -/
theorem vector_uses (i : Fin 5) (types : TypeIds) : (vector i types).Uses [types.get i] :=
  ⟨fun _ => rfl, fun _ => rfl⟩

/-- The pointer type uses its pointee. -/
theorem pointer_uses (u32 : UInt32) : (pointer u32).Uses [u32] := ⟨fun _ => rfl, fun _ => rfl⟩

/-- A register uses the pointer type. -/
theorem register_uses (ptr : UInt32) (r : Fin MAX_REG_COUNT) : (register ptr r).Uses [ptr] :=
  ⟨fun _ => rfl, fun _ => rfl⟩

/-- Declarations behind `k` others use only ids that these or earlier ones of them obtained. -/
def KnownFrom (next : UInt32) (k : ℕ) (cs : List Declaration) : Prop :=
  UsesKnown (obtained next k) (declared (idAt next k) cs)

/-- The first declaration uses ids from before it, and the others may use its own too. -/
theorem knownFrom_cons {next : UInt32} {k : ℕ} {c : Declaration} {cs : List Declaration}
    {ids : List UInt32} (hc : c.Uses ids) :
    KnownFrom next k (c :: cs) ↔
      (∀ id ∈ ids, ∃ j < k, id = idAt next j) ∧ KnownFrom next (k + 1) cs := by
  have hnext : idAt next k + 1 = idAt next (k + 1) := idAt_add next k 1
  unfold KnownFrom
  rw [declared, UsesKnown, hc.used, hc.result, hnext, obtained_succ]
  simp only [mem_obtained_iff]
  rfl

/-- The ids of the first declarations are known to the others. -/
theorem knownFrom_append {next : UInt32} {k : ℕ} {as bs : List Declaration}
    (h : ∀ c ∈ as, ∃ ids, c.Uses ids) :
    KnownFrom next k (as ++ bs) ↔ KnownFrom next k as ∧ KnownFrom next (k + as.length) bs := by
  induction as generalizing k with
  | nil => simp [KnownFrom, declared, UsesKnown]
  | cons c as ih =>
    obtain ⟨ids, hc⟩ := h c List.mem_cons_self
    have hrest := ih (k := k + 1) fun c' hc' => h c' (List.mem_cons_of_mem c hc')
    rw [List.cons_append, knownFrom_cons hc, knownFrom_cons hc, hrest, and_assoc,
      List.length_cons, Nat.add_right_comm, Nat.add_assoc]

/-- Declarations that use one id each. -/
theorem knownFrom_map {next : UInt32} {k : ℕ} {α : Type} {g : α → Declaration} {f : α → UInt32}
    (hg : ∀ a, (g a).Uses [f a]) (l : List α) :
    KnownFrom next k (l.map g) ↔ ∀ t a, l[t]? = some a → ∃ j < k + t, f a = idAt next j := by
  induction l generalizing k with
  | nil => simp [KnownFrom, declared, UsesKnown]
  | cons b l ih =>
    rw [List.map_cons, knownFrom_cons (hg b), ih, List.forall_mem_singleton]
    constructor
    · rintro ⟨hhead, htail⟩ t a ht
      cases t with
      | zero =>
        cases ht
        exact hhead
      | succ t =>
        have hrest := htail t a ht
        rw [Nat.add_right_comm] at hrest
        exact hrest
    · intro h
      refine ⟨h 0 b rfl, ?_⟩
      intro t a ht
      have hrest := h (t + 1) a ht
      rw [← Nat.add_assoc, Nat.add_right_comm] at hrest
      exact hrest

/-- The declarations that use no id. -/
theorem knownFrom_of_uses_none {next : UInt32} {k : ℕ} {cs : List Declaration}
    (h : ∀ c ∈ cs, c.Uses []) : KnownFrom next k cs := by
  induction cs generalizing k with
  | nil => simp [KnownFrom, declared, UsesKnown]
  | cons c cs ih =>
    rw [knownFrom_cons (h c List.mem_cons_self)]
    exact ⟨by simp, ih fun c' hc' => h c' (List.mem_cons_of_mem c hc')⟩

section Initialised

variable (d₀ : Decoder)

/-- Every declaration of `init` uses some fixed ids. -/
theorem initDecls_uses {c : Declaration} (hc : c ∈ initDecls d₀) : ∃ ids, c.Uses ids := by
  rcases List.mem_append.mp hc with hscalar | hlater
  · exact ⟨[], scalars_uses hscalar⟩
  · rcases laterDecls_cases hlater with ⟨i, -, types, -, rfl⟩ | ⟨u32, rfl⟩ | ⟨ptr, r, rfl⟩
    · exact ⟨_, vector_uses i types⟩
    · exact ⟨_, pointer_uses u32⟩
    · exact ⟨_, register_uses ptr r⟩

/-- Every id that `init` took is a result. -/
theorem mem_results_declarations {k : ℕ} (hk : k < 304) :
    idAt d₀.ir.nextId k ∈ (declarations d₀).filterMap resultId := by
  rw [← initDecls_length d₀] at hk
  obtain ⟨ids, huses⟩ := initDecls_uses d₀ (List.getElem_mem hk)
  have hat : (declarations d₀)[k]? = some ((initDecls d₀)[k].inst (idAt d₀.ir.nextId k)) := by
    unfold declarations
    rw [getElem?_declared, List.getElem?_eq_getElem hk, Option.map_some]
  exact List.mem_filterMap.mpr ⟨_, List.mem_of_getElem? hat, huses.result _⟩

/-- Whether `init` uses only ids it obtained is up to the entries of the tables that nothing
sets: the pointee of the pointer type and the type of the registers are its own. -/
theorem declarations_known_iff :
    UsesKnown [] (declarations d₀) ↔ UnsetEntriesObtained d₀ := by
  have hscalars : ∀ c ∈ scalars, ∃ ids, c.Uses ids := fun c hc => ⟨[], scalars_uses hc⟩
  have hvectors : ∀ i : Fin 5, ∀ c ∈ (typeTables d₀).map (vector i), ∃ ids, c.Uses ids := by
    intro i c hc
    obtain ⟨types, -, rfl⟩ := List.mem_map.mp hc
    exact ⟨_, vector_uses i types⟩
  have hpointer : ∃ j < 49, idAt d₀.ir.nextId 3 = idAt d₀.ir.nextId j := ⟨3, by simp, rfl⟩
  have hregisters : KnownFrom d₀.ir.nextId 50
      ((List.finRange MAX_REG_COUNT).map (register (idAt d₀.ir.nextId 49))) := by
    rw [knownFrom_map (register_uses (idAt d₀.ir.nextId 49))]
    intro t r _
    exact ⟨49, by omega, rfl⟩
  have hlist : initDecls d₀ = scalars ++ ((typeTables d₀).map (vector 2) ++
      ((typeTables d₀).map (vector 3) ++ ((typeTables d₀).map (vector 4) ++
        pointer (idAt d₀.ir.nextId 3) ::
          (List.finRange MAX_REG_COUNT).map (register (idAt d₀.ir.nextId 49))))) := by
    simp [initDecls, laterDecls, vectors, vectorEntries_eq]
  have hlength : ∀ i : Fin 5, ((typeTables d₀).map (vector i)).length = 12 := fun _ => rfl
  have hparts : KnownFrom d₀.ir.nextId 0 (initDecls d₀) ↔
      KnownFrom d₀.ir.nextId 13 ((typeTables d₀).map (vector 2)) ∧
        KnownFrom d₀.ir.nextId 25 ((typeTables d₀).map (vector 3)) ∧
        KnownFrom d₀.ir.nextId 37 ((typeTables d₀).map (vector 4)) := by
    rw [hlist, knownFrom_append hscalars, knownFrom_append (hvectors 2),
      knownFrom_append (hvectors 3), knownFrom_append (hvectors 4),
      knownFrom_cons (pointer_uses (idAt d₀.ir.nextId 3)), List.forall_mem_singleton, hlength,
      hlength, hlength, and_iff_right (knownFrom_of_uses_none fun c hc => scalars_uses hc)]
    exact and_congr_right fun _ => and_congr_right fun _ =>
      and_iff_left ⟨hpointer, hregisters⟩
  have hentries : ∀ n : Fin 5, 2 ≤ n.val → n = 2 ∨ n = 3 ∨ n = 4 := by decide
  refine hparts.trans ?_
  rw [knownFrom_map (vector_uses 2), knownFrom_map (vector_uses 3), knownFrom_map (vector_uses 4)]
  simp only [idAt_eq]
  constructor
  · rintro ⟨htwo, hthree, hfour⟩ t types n htypes hn
    rcases hentries n hn with rfl | rfl | rfl
    · exact htwo t types htypes
    · exact hthree t types htypes
    · exact hfour t types htypes
  · intro h
    exact ⟨fun t types htypes => h t types 2 htypes (by simp),
      fun t types htypes => h t types 3 htypes (by simp),
      fun t types htypes => h t types 4 htypes (by simp)⟩

/-- A table after `init` still holds what it held behind its scalar type. -/
theorem typeTables_later {types : TypeIds} (h : types ∈ typeTables d₀) :
    ∃ types' ∈ typeTables (initialised d₀),
      ∀ i : Fin 5, 2 ≤ i.val → types'.get i = types.get i := by
  obtain ⟨t, ht⟩ := List.mem_iff_getElem?.mp h
  have hlt : t < 12 := (List.getElem?_eq_some_iff.mp ht).1
  have hentry : (typeTables (initialised d₀))[t]? =
      some (put types 1 (idAt d₀.ir.nextId (t + 1))) := by
    rw [typeTables_initialised]
    exact List.getElem?_zipWith_eq_some.mpr ⟨types, t, ht, List.getElem?_range hlt, rfl⟩
  refine ⟨_, List.mem_of_getElem? hentry, ?_⟩
  intro i hi
  apply get_put_of_ne
  rintro rfl
  simp at hi

/-- A vector type that `init` declares has an id behind those of the scalar types, and its
components are of an entry that nothing sets. -/
theorem mem_declarations_vector {id component count : UInt32}
    (h : ⟨23, [id, component, count]⟩ ∈ declarations d₀) :
    (∃ k, 13 ≤ k ∧ k < 304 ∧ id = idAt d₀.ir.nextId k) ∧
      ∃ types ∈ typeTables d₀, ∃ i : Fin 5, 2 ≤ i.val ∧ component = types.get i := by
  obtain ⟨k, hk⟩ := List.mem_iff_getElem?.mp h
  unfold declarations at hk
  rw [getElem?_declared] at hk
  obtain ⟨c, hc, hinst⟩ := Option.map_eq_some_iff.mp hk
  have hlt : k < 304 := by
    rw [← initDecls_length d₀]
    exact (List.getElem?_eq_some_iff.mp hc).1
  have hop : (c.inst (idAt d₀.ir.nextId k)).opcode = 23 := congrArg Inst.opcode hinst
  have hscalars : scalars.length = 13 := rfl
  have hlarge : 13 ≤ k := by
    by_contra hsmall
    unfold initDecls at hc
    rw [List.getElem?_append_left (by omega)] at hc
    have hscalar := (scalars_opcode (List.mem_of_getElem? hc) (idAt d₀.ir.nextId k)).1
    simp [hop] at hscalar
  unfold initDecls at hc
  rw [List.getElem?_append_right (by omega)] at hc
  rcases laterDecls_cases (List.mem_of_getElem? hc) with
    ⟨i, hi, types, htypes, rfl⟩ | ⟨u32, rfl⟩ | ⟨ptr, r, rfl⟩
  · simp only [vector, Inst.mk.injEq, List.cons.injEq, true_and, and_true] at hinst
    obtain ⟨hid, hcomponent, -⟩ := hinst
    exact ⟨⟨k, hlarge, hlt, hid.symm⟩, types, htypes, i, hi, hcomponent.symm⟩
  · simp [pointer] at hop
  · simp [register] at hop

/-- The vector types never get into the tables: an entry that held one before would be the
component type of another, which is a scalar type. -/
theorem not_tablesFilled : ¬ TablesFilled (initialised d₀) (declarations d₀) := by
  intro h
  have hu8 : put d₀.typeU8 scalarEntry (idAt d₀.ir.nextId 1) ∈ typeTables (initialised d₀) := by
    rw [typeTables_initialised]
    exact List.mem_cons_self
  obtain ⟨-, types, htypes, i, hi, hcomponent⟩ :=
    mem_declarations_vector d₀ (h _ hu8 2 (by simp))
  rw [get_put_self] at hcomponent
  obtain ⟨types', htypes', hsame⟩ := typeTables_later d₀ htypes
  obtain ⟨⟨k, hlarge, hsmall, hid⟩, -⟩ := mem_declarations_vector d₀ (h _ htypes' i hi)
  rw [hsame i hi, ← hcomponent] at hid
  have hone := idAt_injOn (by omega) (by omega) hid
  omega

end Initialised

/-! ## The translation -/

section Translated

variable {u32 : UInt32} {vars : Vector UInt32 MAX_REG_COUNT} {known : List UInt32}

/-- The integer type and the register variables are known. -/
structure KnowsRegisters (known : List UInt32) (u32 : UInt32)
    (vars : Vector UInt32 MAX_REG_COUNT) : Prop where
  integer : u32 ∈ known
  register : ∀ r : Fin MAX_REG_COUNT, vars.get r ∈ known

/-- More known ids do not hurt. -/
theorem KnowsRegisters.append (h : KnowsRegisters known u32 vars) (more : List UInt32) :
    KnowsRegisters (known ++ more) u32 vars :=
  ⟨List.mem_append_left more h.integer, fun r => List.mem_append_left more (h.register r)⟩

/-- A load uses the integer type and the register's variable. -/
theorem loadInst_known (h : KnowsRegisters known u32 vars) (reg : ℕ) (r : UInt32) :
    ∀ id ∈ usedIds (loadInst u32 vars reg r), id ∈ known := by
  unfold loadInst
  by_cases hreg : reg < MAX_REG_COUNT
  · have hvar : vars[reg] ∈ known := h.register ⟨reg, hreg⟩
    have hused : usedIds ⟨61, [u32, r, vars[reg]]⟩ = [u32, vars[reg]] := rfl
    rw [dif_pos hreg, hused]
    simp [h.integer, hvar]
  · have hused : usedIds ⟨43, [u32, r, 0]⟩ = [u32] := rfl
    rw [dif_neg hreg, hused]
    simp [h.integer]

/-- A store uses the register's variable and the value. -/
theorem storeInsts_known (h : KnowsRegisters known u32 vars) (reg : ℕ) {val : UInt32}
    (hval : val ∈ known) : UsesKnown known (storeInsts vars reg val) := by
  unfold storeInsts
  by_cases hreg : reg < MAX_REG_COUNT
  · have hvar : vars[reg] ∈ known := h.register ⟨reg, hreg⟩
    have hused : usedIds ⟨62, [vars[reg], val]⟩ = [vars[reg], val] := rfl
    rw [dif_pos hreg, UsesKnown, hused]
    simp [UsesKnown, hvar, hval]
  · rw [dif_neg hreg]
    trivial

/-- One `al2p` uses the integer type, the variables of its registers and its own ids. -/
theorem al2pInsts_known (h : KnowsRegisters known u32 vars) (next : UInt32) (inst : BitVec 128) :
    UsesKnown known (al2pInsts u32 vars next inst) := by
  have hconst : usedIds ⟨43, [u32, next + 1, UInt32.ofNat (field inst 40 11)]⟩ = [u32] := rfl
  have hconstResult : resultId ⟨43, [u32, next + 1, UInt32.ofNat (field inst 40 11)]⟩ =
      some (next + 1) := rfl
  have hadd : usedIds ⟨128, [u32, next + 1 + 1, next, next + 1]⟩ = [u32, next, next + 1] := rfl
  have haddResult : resultId ⟨128, [u32, next + 1 + 1, next, next + 1]⟩ =
      some (next + 1 + 1) := rfl
  have hsum : next + 1 + 1 ∈ known ++ [next] ++ [next + 1] ++ [next + 1 + 1] := by simp
  have hstore := storeInsts_known (((h.append [next]).append [next + 1]).append [next + 1 + 1])
    (field inst 16 8) hsum
  unfold al2pInsts
  simp only [List.cons_append, List.nil_append, UsesKnown, resultId_loadInst, hconst, hconstResult,
    hadd, haddResult, Option.toList_some]
  exact ⟨loadInst_known h _ _, by simp [h.integer], by simp [h.integer], hstore⟩

/-- One instruction uses only ids of `init` and its own. -/
theorem emittedBy_known (h : KnowsRegisters known u32 vars) (next : UInt32) (inst : BitVec 128) :
    UsesKnown known (emittedBy u32 vars next inst) := by
  have hkill : usedIds ⟨252, []⟩ = [] := rfl
  have hnop : usedIds ⟨0, []⟩ = [] := rfl
  unfold emittedBy
  split
  · exact al2pInsts_known h next inst
  · simp [UsesKnown, hkill]
  · simp [UsesKnown, hnop]

/-- So does a whole translation: by induction over its instructions. -/
theorem translated_known (h : KnowsRegisters known u32 vars) (next : UInt32)
    (insts : List (BitVec 128)) : UsesKnown known (translated u32 vars next insts) := by
  induction insts generalizing known next with
  | nil => trivial
  | cons inst insts ih =>
    rw [translated, usesKnown_append]
    exact ⟨emittedBy_known h next inst, ih (h.append _) _⟩

end Translated

/-- After `init` the translation finds its integer type and register variables declared. -/
theorem translation_known (d₀ : Decoder) (insts : List (BitVec 128)) :
    UsesKnown ((declarations d₀).filterMap resultId) (translation d₀ insts) := by
  refine translated_known ⟨mem_results_declarations d₀ (by omega), ?_⟩ _ insts
  intro r
  have hr : r.val < 254 := r.isLt
  rw [regs_initialised]
  exact mem_results_declarations d₀ (by omega)

/-- The ids a run that returns uses, as `init` alone decides. -/
theorem run_known_iff {build : Build} {d₀ d d' : Decoder} {insts : List (BitVec 128)}
    (h : ∀ inst ∈ insts, Translatable inst) (hinit : (init build).run d₀ = (.ok (), d))
    (htranslate : (translateAll build insts).run d = (.ok (), d')) :
    ∃ emitted, appended d₀ d' = some emitted ∧
      (UsesKnown [] emitted ↔ UnsetEntriesObtained d₀) := by
  obtain ⟨-, hemitted⟩ := appended_run h hinit htranslate
  refine ⟨_, hemitted, ?_⟩
  rw [usesKnown_append, declarations_known_iff]
  exact and_iff_left (translation_known d₀ insts)

/-- `init` never fills the tables, so no run uses only its own ids and fills them. -/
theorem not_usesOwnIds (build : Build) (d₀ : Decoder) (insts : List (BitVec 128)) :
    ¬ UsesOwnIds build d₀ insts := by
  rintro ⟨d, -, declared, -, hinit, -, hdeclared, -, hfilled, -⟩
  obtain ⟨-, -, rfl⟩ := (init_returns d₀ build () d).mp hinit
  rw [appended_initialised] at hdeclared
  cases hdeclared
  exact not_tablesFilled d₀ hfilled

/-- **No run uses only its own ids and fills the tables.**  `init` never fills them; and a run
that returns uses only ids it obtained exactly when the entries that nothing sets already held,
by accident, ids that were taken by the time `init` reads them.
SOURCE: core/src/gpu/sm86.rs:207-284 -/
theorem own_ids_never (build : Build) (d₀ : Decoder) {insts : List (BitVec 128)}
    (h : ∀ inst ∈ insts, Translatable inst) :
    ¬ UsesOwnIds build d₀ insts ∧
      ∀ d d', (init build).run d₀ = (.ok (), d) → (translateAll build insts).run d = (.ok (), d') →
        ∃ emitted, appended d₀ d' = some emitted ∧
          (UsesKnown [] emitted ↔ UnsetEntriesObtained d₀) :=
  ⟨not_usesOwnIds build d₀ insts, fun _ _ hinit htranslate => run_known_iff h hinit htranslate⟩

/-- `%r0 := %r0 + 0` over a fresh emitter. -/
theorem own_ids_never_sample : ¬ UsesOwnIds .debug (Decoder.zeroed Emitter.new) [0x920] := by
  refine (own_ids_never .debug (Decoder.zeroed Emitter.new) ?_).1
  intro inst hinst
  rw [List.mem_singleton.mp hinst]
  exact .inl (.inl ⟨rfl, by decide, .inl (by decide), .inl (by decide)⟩)

/-- Over a fresh emitter the first vector type, of two 8-bit integers, has component type 0, and
the table of 8-bit integers still holds 0 at 2. -/
theorem vector_of_unset_type :
    (∃ d declared, (init .debug).run (Decoder.zeroed Emitter.new) = (.ok (), d) ∧
      appended (Decoder.zeroed Emitter.new) d = some declared ∧
      declared[13]? = some ⟨23, [14, 0, 2]⟩ ∧ d.typeU8.get 2 = 0 ∧ ¬ UsesKnown [] declared) ∧
      ¬ UsesOwnIds .debug (Decoder.zeroed Emitter.new) [] := by
  have hinit := (init_returns (Decoder.zeroed Emitter.new) .debug).run (.inr (by decide))
  have hvector : (declarations (Decoder.zeroed Emitter.new))[13]? = some ⟨23, [14, 0, 2]⟩ := rfl
  have hu8 : (initialised (Decoder.zeroed Emitter.new)).typeU8 = put (Vector.replicate 5 0) 1 2 :=
    (List.cons.inj (typeTables_initialised (Decoder.zeroed Emitter.new))).1
  refine ⟨⟨_, _, hinit, appended_initialised _, hvector, ?_, ?_⟩, not_usesOwnIds _ _ _⟩
  · rw [hu8]
    rfl
  rw [declarations_known_iff]
  intro hall
  obtain ⟨j, hj, hid⟩ := hall 0 (Vector.replicate 5 0) 2 rfl (by simp)
  have hnext : (Decoder.zeroed Emitter.new).ir.nextId.toNat = 1 := rfl
  have hentry : ((Vector.replicate 5 0 : TypeIds).get 2).toNat = 0 := rfl
  rw [hid, ← idAt_eq, toNat_idAt, hnext] at hentry
  simp at hj
  omega

end Oboromi.Analysis.Sm86
