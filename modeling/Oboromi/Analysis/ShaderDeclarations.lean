import Oboromi.Analysis.DecoderIds
import Oboromi.Analysis.ModuleReading
import Oboromi.Analysis.ShaderTranslation
import Oboromi.Interface.ShaderModule

/-!
# What a reader makes of a shader's declarations

A module's reader runs the setup, which changes nothing; 13 scalar types; 36 vector types and the
pointer type, which rest on the scalar ones; and a variable for each register.  `Ready` is carried
through all of them: everything defined is below the next id, and the ids still to come are below
the bound.  Of the types only the components of the vectors are not the module's own doing, so
whether a strict reader goes on is up to what the type tables held (`componentsTyped_of_run`).
-/

set_option autoImplicit false

namespace Oboromi.Analysis.Sm86

open Oboromi.Lib
open Oboromi.Model.Spirv
open Oboromi.Model.Sm86
open Oboromi.Interface.Spirv
open Oboromi.Interface.Sm86
open Oboromi.Analysis.Spirv

/-! ## Running instructions -/

/-- What a list of instructions decodes to, as far as it does. -/
def decoded (insts : List Inst) : List Instruction := insts.filterMap decodeInst

/-- Decoding goes instruction by instruction. -/
theorem decoded_append (as bs : List Inst) : decoded (as ++ bs) = decoded as ++ decoded bs :=
  List.filterMap_append

/-- When every instruction is known, all of them are decoded. -/
theorem mapM_decodeInst {insts : List Inst} (h : ∀ i ∈ insts, (decodeInst i).isSome) :
    insts.mapM decodeInst = some (decoded insts) := by
  induction insts with
  | nil => rfl
  | cons i insts ih =>
    obtain ⟨instruction, hi⟩ := Option.isSome_iff_exists.mp (h i List.mem_cons_self)
    have hrest := ih fun j hj => h j (List.mem_cons_of_mem i hj)
    unfold decoded at hrest ⊢
    rw [List.filterMap_cons_some hi]
    exact mapM_cons_eq_some_iff.mpr ⟨hi, hrest⟩

section Runs

variable {strict : Bool} {bound : UInt32} {initial : ℕ → UInt32} {s s' : Shader}

/-- A shader that has ended runs no further. -/
theorem run_of_ended (h : s.ended = true) (l : List Instruction) :
    Shader.run strict bound initial l s = some s := by
  cases l with
  | nil => rfl
  | cons i l =>
    rw [Shader.run, h]
    rfl

/-- A run is a step and the rest. -/
theorem run_cons (h : s.ended = false) (i : Instruction) (l : List Instruction) :
    Shader.run strict bound initial (i :: l) s =
      (s.step strict bound initial i).bind (Shader.run strict bound initial l) := by
  rw [Shader.run, h]
  rfl

/-- A run over two lists is a run over one after the other. -/
theorem run_append (l l' : List Instruction) (s : Shader) :
    Shader.run strict bound initial (l ++ l') s =
      (Shader.run strict bound initial l s).bind (Shader.run strict bound initial l') := by
  induction l generalizing s with
  | nil => rfl
  | cons i l ih =>
    cases hended : s.ended with
    | true => rw [run_of_ended hended, run_of_ended hended, Option.bind_some, run_of_ended hended]
    | false =>
      rw [List.cons_append, run_cons hended, run_cons hended, Option.bind_assoc]
      exact Option.bind_congr fun s₁ _ => ih s₁

/-- One instruction, and then others. -/
theorem run_decoded_cons {i : Inst} {instruction : Instruction} {insts : List Inst}
    (hi : decodeInst i = some instruction) (h : s.ended = false)
    (hstep : s.step strict bound initial instruction = some s') :
    Shader.run strict bound initial (decoded (i :: insts)) s =
      Shader.run strict bound initial (decoded insts) s' := by
  unfold decoded
  rw [List.filterMap_cons_some hi, run_cons h, hstep, Option.bind_some]

end Runs

/-! ## Ids to come -/

/-- The shader runs, everything it defined is below the next id, and `room` ids from there on are
below the bound. -/
structure Ready (bound next : UInt32) (room : ℕ) (s : Shader) : Prop where
  positive : 0 < next.toNat
  room : next.toNat + room ≤ bound.toNat
  types : ∀ id, s.types id ≠ none → id < next
  machine : ∀ id, s.machine.Defines id → id < next
  running : s.ended = false

section Ready

variable {bound next : UInt32} {room : ℕ} {s : Shader}

/-- With room left the next id does not wrap. -/
theorem Ready.succ (h : Ready bound next (room + 1) s) : (next + 1).toNat = next.toNat + 1 := by
  have hroom := h.room
  have hbound := bound.toNat_lt
  exact toNat_succ (by omega)

/-- With room left the next id grows. -/
theorem Ready.lt_succ (h : Ready bound next (room + 1) s) : next < next + 1 := by
  rw [UInt32.lt_iff_toNat_lt, h.succ]
  exact Nat.lt_succ_self _

/-- With room left the next id is fresh. -/
theorem Ready.fresh (h : Ready bound next (room + 1) s) : s.Fresh bound next := by
  have hroom := h.room
  have hirrefl : ¬ next < next := UInt32.lt_irrefl next
  refine ⟨UInt32.lt_iff_toNat_lt.mpr h.positive, UInt32.lt_iff_toNat_lt.mpr (by omega), ?_, ?_⟩
  · by_contra htype
    exact hirrefl (h.types next htype)
  · exact fun hdefined => hirrefl (h.machine next hdefined)

/-- The next id was defined. -/
theorem Ready.define (h : Ready bound next (room + 1) s) {s' : Shader}
    (htypes : ∀ id, s'.types id ≠ none → id = next ∨ s.types id ≠ none)
    (hmachine : ∀ id, s'.machine.Defines id → id = next ∨ s.machine.Defines id)
    (hrunning : s'.ended = false) : Ready bound (next + 1) room s' := by
  have hroom := h.room
  have hsucc := h.succ
  refine ⟨by omega, by omega, ?_, ?_, hrunning⟩
  · intro id hid
    rcases htypes id hid with rfl | hbefore
    · exact h.lt_succ
    · exact UInt32.lt_trans (h.types id hbefore) h.lt_succ
  · intro id hid
    rcases hmachine id hid with rfl | hbefore
    · exact h.lt_succ
    · exact UInt32.lt_trans (h.machine id hbefore) h.lt_succ

end Ready

/-! ## Setting up -/

section Setup

variable {limit : ℕ}

/-- A call that sets the module up emits an instruction that changes nothing. -/
theorem setup_step {call : EmitCall} (h : IsSetup limit call)
    (hnul : ∀ t ∈ call.strings, NulFree t) (next : UInt32) :
    ∃ i instruction, call.effect = .plain i ∧ decodeInst i = some instruction ∧
      (∀ strict bound initial s, Shader.step strict bound initial s instruction = some s) ∧
      ∀ id ∈ target instruction, 0 < id.toNat ∧ id.toNat < limit := by
  cases call
  case emitName id name =>
    refine ⟨_, _, rfl, @decodeInst_emitted _ _ next _ rfl rfl hnul trivial,
      fun _ _ _ _ => rfl, ?_⟩
    rintro _ ⟨⟩
    exact h
  case emitDecorate id deco literals =>
    refine ⟨_, _, rfl, @decodeInst_emitted _ _ next _ rfl rfl hnul trivial,
      fun _ _ _ _ => rfl, ?_⟩
    rintro _ ⟨⟩
    exact h
  all_goals first
    | exact h.elim
    | exact ⟨_, _, rfl, @decodeInst_emitted _ _ next _ rfl rfl hnul trivial,
        fun _ _ _ _ => rfl, fun id hid => by cases hid⟩

/-- A setup call allocates no id. -/
theorem setup_next {call : EmitCall} (h : IsSetup limit call) (next : UInt32) :
    call.effect.next next = next := by
  cases call
  all_goals first
    | exact h.elim
    | rfl

/-- Setup calls allocate no id and pass the emitter's assertions. -/
theorem setup_allocations {calls : List EmitCall} (h : ∀ call ∈ calls, IsSetup limit call) :
    allocations calls = 0 ∧ ∀ call ∈ calls, call.asserts = true := by
  have hplain (call : EmitCall) (hcall : IsSetup limit call) :
      call.effect.allocates = false ∧ call.asserts = true := by
    cases call
    all_goals first
      | exact hcall.elim
      | exact ⟨rfl, rfl⟩
  refine ⟨?_, fun call hcall => (hplain call (h call hcall)).2⟩
  unfold allocations
  rw [List.countP_eq_zero]
  intro call hcall
  rw [(hplain call (h call hcall)).1]
  exact Bool.false_ne_true

/-- The setup takes no id. -/
theorem setup_ids {calls : List EmitCall} (h : ∀ call ∈ calls, IsSetup limit call) (next : UInt32) :
    idAfter next calls = next := by
  induction calls with
  | nil => rfl
  | cons call calls ih =>
    rw [idAfter, List.foldl_cons, setup_next (h call List.mem_cons_self)]
    exact ih fun c hc => h c (List.mem_cons_of_mem call hc)

/-- The setup is read back, leaves every running shader as it is, and names ids below the bound:
by induction over the calls. -/
theorem run_setup {calls : List EmitCall} (h : ∀ call ∈ calls, IsSetup limit call)
    (hnul : ∀ call ∈ calls, ∀ t ∈ call.strings, NulFree t) (next : UInt32) :
    (∀ i ∈ (log next calls).filterMap Entry.emitted, (decodeInst i).isSome) ∧
    (∀ (strict : Bool) (bound : UInt32) (initial : ℕ → UInt32) (s : Shader), s.ended = false →
      Shader.run strict bound initial (decoded ((log next calls).filterMap Entry.emitted)) s =
        some s) ∧
    ∀ id ∈ (decoded ((log next calls).filterMap Entry.emitted)).filterMap target,
      0 < id.toNat ∧ id.toNat < limit := by
  induction calls with
  | nil =>
    exact ⟨fun i hi => (List.not_mem_nil hi).elim, fun _ _ _ _ _ => rfl,
      fun id hid => (List.not_mem_nil hid).elim⟩
  | cons call calls ih =>
    have hcall := h call List.mem_cons_self
    obtain ⟨hdecode, hrun, htargets⟩ := ih (fun c hc => h c (List.mem_cons_of_mem call hc))
      fun c hc => hnul c (List.mem_cons_of_mem call hc)
    obtain ⟨i, instruction, heffect, hi, hstep, htarget⟩ :=
      setup_step hcall (hnul call List.mem_cons_self) next
    have hlog : (log next (call :: calls)).filterMap Entry.emitted =
        i :: (log next calls).filterMap Entry.emitted := by
      rw [log, setup_next hcall next, heffect]
      rfl
    rw [hlog]
    refine ⟨List.forall_mem_cons.mpr ⟨Option.isSome_iff_exists.mpr ⟨_, hi⟩, hdecode⟩, ?_, ?_⟩
    · intro strict bound initial s hrunning
      rw [run_decoded_cons hi hrunning (hstep strict bound initial s)]
      exact hrun strict bound initial s hrunning
    · unfold decoded at htargets ⊢
      rw [List.filterMap_cons_some hi]
      intro id hid
      obtain ⟨j, hj, hnames⟩ := List.mem_filterMap.mp hid
      rcases List.mem_cons.mp hj with rfl | hj
      · exact htarget id hnames
      · exact htargets id (List.mem_filterMap.mpr ⟨j, hj, hnames⟩)

end Setup

/-! ## Types -/

/-- A declaration declares a type of a shape, whatever its id. -/
def DeclaresType (c : Declaration) (shape : TypeShape) : Prop :=
  ∀ id, ∃ instruction, decodeInst (c.inst id) = some instruction ∧
    ∀ strict bound initial s, Shader.step strict bound initial s instruction =
      s.declareType strict bound (some id) shape

/-- The shapes of the scalar types. -/
def scalarShapes : List TypeShape :=
  [.void, .int 8 0, .int 16 0, .int 32 0, .int 64 0, .int 8 1, .int 16 1, .int 32 1, .int 64 1,
    .float 16, .float 32, .float 64, .bool]

/-- The shapes of the vector types. -/
def vectorShapes (tables : List TypeIds) : List TypeShape :=
  vectorEntries.flatMap fun n : Fin 5 =>
    tables.map fun types => .vector (types.get n) (UInt32.ofNat n)

/-- The scalar declarations declare the scalar shapes. -/
theorem scalars_declare : List.Forall₂ DeclaresType scalars scalarShapes := by
  unfold scalars scalarShapes
  repeat
    refine .cons (fun _ => ⟨_, rfl, fun _ _ _ _ => rfl⟩) ?_
  exact .nil

/-- The vector declarations declare the vector shapes. -/
theorem vectors_declare (tables : List TypeIds) :
    List.Forall₂ DeclaresType (vectors tables) (vectorShapes tables) := by
  have hentry (n : Fin 5) : List.Forall₂ DeclaresType (tables.map (vector n))
      (tables.map fun types => .vector (types.get n) (UInt32.ofNat n)) := by
    rw [List.forall₂_map_left_iff, List.forall₂_map_right_iff, List.forall₂_same]
    exact fun types _ _ => ⟨_, rfl, fun _ _ _ _ => rfl⟩
  unfold vectors vectorShapes
  rw [vectorEntries_eq]
  simp only [List.flatMap_cons, List.flatMap_nil, List.append_nil]
  exact List.rel_append (hentry 2) (List.rel_append (hentry 3) (hentry 4))

/-- The pointer declaration declares the pointer shape. -/
theorem pointer_declares (u32 : UInt32) : DeclaresType (pointer u32) (.pointer 7 u32) :=
  fun _ => ⟨_, rfl, fun _ _ _ _ => rfl⟩

/-- A vector shape takes its component from one of the tables. -/
theorem mem_vectorShapes {tables : List TypeIds} {shape : TypeShape}
    (h : shape ∈ vectorShapes tables) :
    ∃ types ∈ tables, ∃ n : Fin 5, 2 ≤ n.val ∧
      shape = .vector (types.get n) (UInt32.ofNat n) := by
  obtain ⟨n, hn, hshape⟩ := List.mem_flatMap.mp h
  obtain ⟨types, htypes, rfl⟩ := List.mem_map.mp hshape
  have hentries : ∀ n ∈ vectorEntries, 2 ≤ n.val := by decide
  exact ⟨types, htypes, n, hentries n hn, rfl⟩

/-- Every table has its vectors of two to four components. -/
theorem vector_mem_vectorShapes {tables : List TypeIds} {types : TypeIds} {n : Fin 5}
    (htypes : types ∈ tables) (hn : 2 ≤ n.val) :
    .vector (types.get n) (UInt32.ofNat n) ∈ vectorShapes tables := by
  have hentries : ∀ n : Fin 5, 2 ≤ n.val → n ∈ vectorEntries := by decide
  exact List.mem_flatMap.mpr ⟨n, hentries n hn, List.mem_map.mpr ⟨types, htypes, rfl⟩⟩

/-- What may be declared behind some types may be declared behind more. -/
theorem wellFormed_mono {strict : Bool} {types types' : UInt32 → Option TypeShape}
    {shape : TypeShape} (h : ∀ id declared, types id = some declared → types' id = some declared)
    (hshape : shape.WellFormed strict types) : shape.WellFormed strict types' := by
  cases shape
  case vector component count =>
    obtain ⟨hlow, hhigh, hcomponent⟩ := hshape
    refine ⟨hlow, hhigh, fun hstrict => ?_⟩
    obtain ⟨declared, hdeclared, hscalar⟩ := (Option.any_eq_true ..).mp (hcomponent hstrict)
    exact (Option.any_eq_true ..).mpr ⟨declared, h component declared hdeclared, hscalar⟩
  case pointer storageClass pointee =>
    obtain ⟨declared, hdeclared⟩ := Option.isSome_iff_exists.mp hshape
    exact Option.isSome_iff_exists.mpr ⟨declared, h pointee declared hdeclared⟩
  all_goals exact trivial

section Types

variable {strict : Bool} {bound next : UInt32} {s : Shader}

/-- A shader with one more type. -/
def withType (s : Shader) (id : UInt32) (shape : TypeShape) : Shader :=
  { s with types := fun k => if k = id then some shape else s.types k }

/-- A well-formed type at a fresh id is accepted. -/
theorem declareType_of_fresh {shape : TypeShape} (h : s.Fresh bound next)
    (hshape : shape.WellFormed strict s.types) :
    s.declareType strict bound (some next) shape = some (withType s next shape) :=
  if_pos ⟨h, hshape⟩

/-- A type that is accepted is well formed and recorded. -/
theorem declareType_eq_some {s' : Shader} {shape : TypeShape}
    (h : s.declareType strict bound (some next) shape = some s') :
    shape.WellFormed strict s.types ∧ s' = withType s next shape := by
  obtain ⟨⟨-, hshape⟩, heq⟩ := Option.ite_none_right_eq_some.mp h
  exact ⟨hshape, (Option.some.inj heq).symm⟩

/-- The types of a shader are still there when it has one more. -/
theorem withType_types (h : s.Fresh bound next) (shape : TypeShape) (id : UInt32)
    (declared : TypeShape) (hid : s.types id = some declared) :
    (withType s next shape).types id = some declared := by
  have hne : id ≠ next := by
    rintro rfl
    rw [h.2.2.1] at hid
    cases hid
  exact (if_neg hne).trans hid

/-- Recording a type takes one place of the room left. -/
theorem Ready.withType {room : ℕ} (h : Ready bound next (room + 1) s) (shape : TypeShape) :
    Ready bound (next + 1) room (withType s next shape) := by
  refine h.define ?_ (fun id hid => .inr hid) h.running
  intro id hid
  by_cases hsame : id = next
  · exact .inl hsame
  · exact .inr (by simpa [Sm86.withType, hsame] using hid)

/-- Types that may be declared are declared one after another: by induction over the
declarations. -/
theorem run_types (initial : ℕ → UInt32) {cs : List Declaration} {shapes : List TypeShape}
    {room : ℕ} (h : List.Forall₂ DeclaresType cs shapes)
    (hready : Ready bound next (room + cs.length) s)
    (hshapes : ∀ shape ∈ shapes, shape.WellFormed strict s.types) :
    ∃ types, Shader.run strict bound initial (decoded (declared next cs)) s =
        some { s with types := types } ∧
      Ready bound (idAt next cs.length) room { s with types := types } ∧
      (∀ id, id < next → types id = s.types id) ∧
      ∀ (k : ℕ) (shape : TypeShape), shapes[k]? = some shape →
        types (idAt next k) = some shape := by
  induction h generalizing next s with
  | nil =>
    refine ⟨s.types, rfl, hready, fun _ _ => rfl, ?_⟩
    intro k shape hk
    cases hk
  | @cons c shape cs shapes hc hcs ih =>
    obtain ⟨instruction, hi, hstep⟩ := hc next
    obtain ⟨hshape, hrest⟩ := List.forall_mem_cons.mp hshapes
    have hstep := hstep strict bound initial s
    rw [declareType_of_fresh hready.fresh hshape] at hstep
    have hgrown := withType_types hready.fresh shape
    obtain ⟨types, hrun, hready', hbefore, hshapes⟩ := ih (hready.withType shape)
      fun shape' hshape' => wellFormed_mono hgrown (hrest shape' hshape')
    refine ⟨types, ?_, hready', ?_, ?_⟩
    · rw [declared, run_decoded_cons hi hready.running hstep]
      exact hrun
    · intro id hid
      rw [hbefore id (UInt32.lt_trans hid hready.lt_succ)]
      exact if_neg fun heq : id = next => UInt32.lt_irrefl next (heq ▸ hid)
    · intro k shape' hk
      cases k with
      | zero =>
        cases hk
        rw [idAt, hbefore next hready.lt_succ]
        exact if_pos rfl
      | succ k => exact hshapes k shape' hk

/-- A reader that declares vector types found each of them well formed before the first: by
induction over the declarations, since a vector type is not scalar. -/
theorem wellFormed_of_run {initial : ℕ → UInt32} {cs : List Declaration} {shapes : List TypeShape}
    (h : List.Forall₂ DeclaresType cs shapes)
    (hvectors : ∀ shape ∈ shapes, ∃ component count, shape = .vector component count)
    (hrunning : s.ended = false)
    (hrun : (Shader.run strict bound initial (decoded (declared next cs)) s).isSome) :
    ∀ shape ∈ shapes, shape.WellFormed strict s.types := by
  induction h generalizing next s with
  | nil => exact fun shape hshape => (List.not_mem_nil hshape).elim
  | @cons c shape cs shapes hc hcs ih =>
    obtain ⟨instruction, hi, hstep⟩ := hc next
    have hrest := fun shape' hshape' => hvectors shape' (List.mem_cons_of_mem shape hshape')
    obtain ⟨component, count, rfl⟩ := hvectors shape List.mem_cons_self
    unfold decoded at hrun
    rw [declared, List.filterMap_cons_some hi, run_cons hrunning, hstep] at hrun
    obtain ⟨s', hs'⟩ := Option.isSome_iff_exists.mp hrun
    obtain ⟨s₁, hdeclared, hlater⟩ := Option.bind_eq_some_iff.mp hs'
    obtain ⟨hshape, rfl⟩ := declareType_eq_some hdeclared
    have hbehind := ih (s := withType s next (.vector component count)) hrest hrunning
      (Option.isSome_iff_exists.mpr ⟨s', hlater⟩)
    refine List.forall_mem_cons.mpr ⟨hshape, ?_⟩
    intro shape' hshape'
    obtain ⟨component', count', rfl⟩ := hrest shape' hshape'
    obtain ⟨hlow, hhigh, hcomponent⟩ := hbehind _ hshape'
    refine ⟨hlow, hhigh, fun hstrict => ?_⟩
    have hscalar := hcomponent hstrict
    by_cases hnew : component' = next
    · rw [show (withType s next (.vector component count)).types component' =
        some (.vector component count) from if_pos hnew] at hscalar
      cases hscalar
    · rwa [show (withType s next (.vector component count)).types component' =
        s.types component' from if_neg hnew] at hscalar

end Types

/-! ## Variables -/

section Variables

variable {strict : Bool} {bound next : UInt32} {initial : ℕ → UInt32} {s : Shader}

/-- A variable at a fresh id is accepted. -/
theorem declareVariable_of_fresh (h : s.Fresh bound next) :
    s.declareVariable bound initial (some next) =
      some { s with
        machine := s.machine.setVariable next (initial s.vars.length)
        vars := s.vars ++ [next] } := if_pos h

/-- A register's declaration adds one variable. -/
theorem step_register (initial : ℕ → UInt32) (ptr : UInt32) (r : Fin MAX_REG_COUNT)
    (hptr : s.IsUintPointer ptr) (h : s.Fresh bound next) :
    ∃ instruction, decodeInst ((register ptr r).inst next) = some instruction ∧
      s.step strict bound initial instruction =
        some { s with
          machine := s.machine.setVariable next (initial s.vars.length)
          vars := s.vars ++ [next] } := by
  refine ⟨⟨.opVariable, some ptr, some next, [.literal 7]⟩, rfl, ?_⟩
  change (if (7 : UInt32) = 7 ∧ s.IsUintPointer ptr then _ else none) = _
  rw [if_pos ⟨rfl, hptr⟩]
  exact declareVariable_of_fresh h

/-- The variables are declared one after another, and hold what they hold at first: by induction
over the registers. -/
theorem run_registers (initial : ℕ → UInt32) {ptr : UInt32} {rs : List (Fin MAX_REG_COUNT)}
    {room : ℕ} (hptr : s.IsUintPointer ptr) (hready : Ready bound next (room + rs.length) s) :
    ∃ m, Shader.run strict bound initial (decoded (declared next (rs.map (register ptr)))) s =
        some { s with machine := m, vars := s.vars ++ (List.range rs.length).map (idAt next) } ∧
      Ready bound (idAt next rs.length) room
        { s with machine := m, vars := s.vars ++ (List.range rs.length).map (idAt next) } ∧
      (∀ id, id < next → m.contents id = s.machine.contents id) ∧
      ∀ k < rs.length, m.contents (idAt next k) = some (initial (s.vars.length + k)) := by
  induction rs generalizing next s with
  | nil =>
    refine ⟨s.machine, ?_⟩
    simp only [List.length_nil, List.range_zero, List.map_nil, List.append_nil]
    exact ⟨rfl, hready, fun _ _ => trivial, fun k hk => (Nat.not_lt_zero k hk).elim⟩
  | cons r rs ih =>
    obtain ⟨instruction, hi, hstep⟩ := step_register initial ptr r hptr hready.fresh
    have hready₁ : Ready bound (next + 1) (room + rs.length)
        { s with
          machine := s.machine.setVariable next (initial s.vars.length)
          vars := s.vars ++ [next] } := by
      refine hready.define (fun id hid => .inr hid) ?_ hready.running
      intro id hid
      by_cases hsame : id = next
      · exact .inl hsame
      · exact .inr (by simpa [Machine.Defines, Machine.setVariable, hsame] using hid)
    obtain ⟨m, hrun, hready', hbefore, hcontents⟩ := ih (by exact hptr) hready₁
    have hvars : (s.vars ++ [next]) ++ (List.range rs.length).map (idAt (next + 1)) =
        s.vars ++ (List.range (r :: rs).length).map (idAt next) := by
      rw [List.length_cons, List.range_succ_eq_map, List.map_cons, List.map_map, List.append_assoc]
      rfl
    dsimp only at hrun hready' hbefore hcontents
    rw [hvars] at hrun hready'
    refine ⟨m, ?_, hready', ?_, ?_⟩
    · rw [List.map_cons, declared, run_decoded_cons hi hready.running hstep]
      exact hrun
    · intro id hid
      rw [hbefore id (UInt32.lt_trans hid hready.lt_succ)]
      exact if_neg fun heq : id = next => UInt32.lt_irrefl next (heq ▸ hid)
    · intro k hk
      cases k with
      | zero =>
        rw [idAt, hbefore next hready.lt_succ]
        exact if_pos rfl
      | succ k =>
        have hlater := hcontents k (Nat.lt_of_succ_lt_succ hk)
        rw [List.length_append, List.length_singleton, Nat.add_assoc, Nat.add_comm 1 k] at hlater
        exact hlater

end Variables

/-! ## What `init` declares -/

/-- Declarations take their ids in order. -/
theorem declared_append (next : UInt32) (as bs : List Declaration) :
    declared next (as ++ bs) = declared next as ++ declared (idAt next as.length) bs := by
  induction as generalizing next with
  | nil => rfl
  | cons c as ih => exact congrArg (c.inst next :: ·) (ih (next + 1))

section Declarations

variable (d : Decoder)

/-- There are three vector declarations a table. -/
theorem length_vectors (tables : List TypeIds) : (vectors tables).length = 3 * tables.length := by
  simp [vectors, vectorEntries_eq]
  omega

/-- The types that rest on the scalar ones are 37. -/
theorem length_laterTypes (next : UInt32) :
    (vectors (typeTables d) ++ [pointer (idAt next 3)]).length = 37 := by
  rw [List.length_append, length_vectors]
  rfl

/-- The scalar types, the types that rest on them, and the registers, in a module of their own. -/
theorem declarations_eq (hone : d.ir.nextId = 1) :
    declarations d = declared 1 scalars ++
      (declared (idAt 1 13) (vectors (typeTables d) ++ [pointer (idAt 1 3)]) ++
        declared (idAt 1 50) ((List.finRange MAX_REG_COUNT).map (register (idAt 1 49)))) := by
  have hsplit : initDecls d = scalars ++ ((vectors (typeTables d) ++ [pointer (idAt 1 3)]) ++
      (List.finRange MAX_REG_COUNT).map (register (idAt 1 49))) := by
    unfold initDecls laterDecls
    rw [hone, List.append_assoc]
    rfl
  unfold declarations
  rw [hone, hsplit, declared_append, declared_append, length_laterTypes, idAt_add]
  rfl

/-- The vectors and the pointer declare their shapes in order. -/
theorem laterTypes_declare (next : UInt32) (tables : List TypeIds) :
    List.Forall₂ DeclaresType (vectors tables ++ [pointer (idAt next 3)])
      (vectorShapes tables ++ [.pointer 7 (idAt next 3)]) :=
  List.rel_append (vectors_declare tables) (.cons (pointer_declares _) .nil)

/-- The pointer type is behind the 36 vector types. -/
theorem getElem?_laterShapes (next : UInt32) :
    (vectorShapes (typeTables d) ++ [TypeShape.pointer 7 (idAt next 3)])[36]? =
      some (.pointer 7 (idAt next 3)) := by
  have hlength : (vectorShapes (typeTables d)).length = 36 := rfl
  rw [List.getElem?_append_right (by omega), hlength]
  rfl

/-- What the reader has behind the scalar types: nothing but them where it started with no types
and the first id. -/
structure HasScalars (types : UInt32 → Option TypeShape) : Prop where
  declared : ∀ (k : ℕ) (shape : TypeShape), scalarShapes[k]? = some shape →
    types (idAt 1 k) = some shape
  zero : types 0 = none
  below : ∀ id, types id ≠ none → id < 14

/-- The scalar ids are those from 2 to 13. -/
theorem any_isScalar_iff {types : UInt32 → Option TypeShape} (h : HasScalars types)
    (id : UInt32) : (types id).any TypeShape.isScalar = true ↔ 2 ≤ id ∧ id ≤ 13 := by
  constructor
  · intro hscalar
    have hne : types id ≠ none := by
      intro hnone
      rw [hnone] at hscalar
      cases hscalar
    have hlt := UInt32.lt_iff_toNat_lt.mp (h.below id hne)
    have hzero : id ≠ 0 := by
      rintro rfl
      exact hne h.zero
    have hone : id ≠ 1 := by
      rintro rfl
      rw [show types 1 = some .void from h.declared 0 .void rfl] at hscalar
      cases hscalar
    have hzero' : id.toNat ≠ 0 := fun heq => hzero (UInt32.toNat_inj.mp heq)
    have hone' : id.toNat ≠ 1 := fun heq => hone (UInt32.toNat_inj.mp heq)
    have hlast : (14 : UInt32).toNat = 14 := rfl
    have hbounds : (2 : UInt32).toNat = 2 ∧ (13 : UInt32).toNat = 13 := ⟨rfl, rfl⟩
    rw [UInt32.le_iff_toNat_le, UInt32.le_iff_toNat_le]
    omega
  · rintro ⟨hlow, hhigh⟩
    rw [UInt32.le_iff_toNat_le] at hlow hhigh
    have hbounds : (2 : UInt32).toNat = 2 ∧ (13 : UInt32).toNat = 13 := ⟨rfl, rfl⟩
    have hid : id = idAt 1 (id.toNat - 1) := by
      rw [idAt_eq]
      apply UInt32.toNat_inj.mp
      have hone : (1 : UInt32).toNat = 1 := rfl
      rw [UInt32.toNat_add, UInt32.toNat_ofNat', hone]
      omega
    have hscalars : ∀ k < 13, 0 < k → (scalarShapes[k]?).any TypeShape.isScalar = true := by
      decide
    have hscalar := hscalars (id.toNat - 1) (by omega) (by omega)
    obtain ⟨shape, hshape, hisScalar⟩ := (Option.any_eq_true ..).mp hscalar
    rw [hid, h.declared _ shape hshape]
    exact hisScalar

/-- A vector has between two and four components. -/
theorem shape_count_bounds {n : Fin 5} (hn : 2 ≤ n.val) :
    2 ≤ UInt32.ofNat n ∧ UInt32.ofNat n ≤ 4 := by
  have hcounts : ∀ n : Fin 5, 2 ≤ n.val → 2 ≤ UInt32.ofNat n ∧ UInt32.ofNat n ≤ 4 := by decide
  exact hcounts n hn

/-- Whether a strict reader takes the vector types is up to the entries of the tables. -/
theorem vectorShapes_wellFormed_iff {types : UInt32 → Option TypeShape} (h : HasScalars types) :
    (∀ shape ∈ vectorShapes (typeTables d), shape.WellFormed true types) ↔
      ComponentsTyped d := by
  constructor
  · intro hshapes tables htables n hn
    obtain ⟨-, -, hcomponent⟩ := hshapes _ (vector_mem_vectorShapes htables hn)
    exact (any_isScalar_iff h _).mp (hcomponent rfl)
  · intro hcomponents shape hshape
    obtain ⟨tables, htables, n, hn, rfl⟩ := mem_vectorShapes hshape
    obtain ⟨hlow, hhigh⟩ := shape_count_bounds hn
    exact ⟨hlow, hhigh, fun _ => (any_isScalar_iff h _).mpr (hcomponents tables htables n hn)⟩

/-- A reader that is not strict takes any vector types; either kind takes the pointer type. -/
theorem laterShapes_wellFormed {strict : Bool} {types : UInt32 → Option TypeShape}
    (h : HasScalars types) (hcomponents : strict = true → ComponentsTyped d) :
    ∀ shape ∈ vectorShapes (typeTables d) ++ [.pointer 7 (idAt 1 3)],
      shape.WellFormed strict types := by
  intro shape hshape
  rcases List.mem_append.mp hshape with hvector | hpointer
  · cases strict with
    | true => exact (vectorShapes_wellFormed_iff d h).mpr (hcomponents rfl) shape hvector
    | false =>
      obtain ⟨tables, -, n, hn, rfl⟩ := mem_vectorShapes hvector
      obtain ⟨hlow, hhigh⟩ := shape_count_bounds hn
      exact ⟨hlow, hhigh, fun hstrict => absurd hstrict Bool.false_ne_true⟩
  · rw [List.mem_singleton.mp hpointer]
    have hint : types (idAt 1 3) = some (.int 32 0) := h.declared 3 _ rfl
    exact Option.isSome_iff_exists.mpr ⟨_, hint⟩

variable {strict : Bool} {bound : UInt32} {initial : ℕ → UInt32} {s : Shader} {room : ℕ}

/-- A reader that starts with no types has the scalar types next. -/
theorem run_scalars (initial : ℕ → UInt32) (hready : Ready bound 1 (room + 13) s)
    (hnone : ∀ id, s.types id = none) :
    ∃ types, Shader.run strict bound initial (decoded (declared 1 scalars)) s =
        some { s with types := types } ∧
      Ready bound (idAt 1 13) room { s with types := types } ∧ HasScalars types := by
  have hshapes : ∀ shape ∈ scalarShapes, shape.WellFormed strict s.types := by
    simp only [scalarShapes, List.forall_mem_cons]
    exact ⟨trivial, trivial, trivial, trivial, trivial, trivial, trivial, trivial, trivial,
      trivial, trivial, trivial, trivial, fun shape hshape => (List.not_mem_nil hshape).elim⟩
  obtain ⟨types, hrun, hready', hbefore, htypes⟩ :=
    run_types initial scalars_declare hready hshapes
  refine ⟨types, hrun, hready', htypes, ?_, hready'.types⟩
  rw [hbefore 0 (by decide)]
  exact hnone 0

/-- A reader that runs what `init` wrote has the integer type and a variable for each register. -/
theorem run_declarations (initial : ℕ → UInt32) (hone : d.ir.nextId = 1)
    (hready : Ready bound 1 (room + 304) s) (hnone : ∀ id, s.types id = none)
    (hvars : s.vars = []) (hcomponents : strict = true → ComponentsTyped d) :
    ∃ s', Shader.run strict bound initial (decoded (declarations d)) s = some s' ∧
      Ready bound (idAt 1 304) room s' ∧ s'.IsUint (idAt 1 3) ∧
      s'.vars = (List.finRange MAX_REG_COUNT).map (initialised d).regs.get ∧
      ∀ r : Fin MAX_REG_COUNT, s'.machine.contents ((initialised d).regs.get r) =
        some (initial r) := by
  have hlength : (List.finRange MAX_REG_COUNT).length = 254 := List.length_finRange
  have hready₀ : Ready bound 1 ((room + 291) + 13) s := hready
  obtain ⟨scalarTypes, hrun₀, hready₁, hscalars⟩ := run_scalars initial hready₀ hnone
  have hready₁ : Ready bound (idAt 1 13)
      ((room + 254) + (vectors (typeTables d) ++ [pointer (idAt 1 3)]).length)
      { s with types := scalarTypes } := by
    rw [length_laterTypes]
    exact hready₁
  obtain ⟨types, hrun₁, hready₂, hbefore, htypes⟩ := run_types initial
    (laterTypes_declare 1 (typeTables d)) hready₁ (laterShapes_wellFormed d hscalars hcomponents)
  rw [length_laterTypes, idAt_add, ← hlength] at hready₂
  have hint : types (idAt 1 3) = some (.int 32 0) := by
    rw [hbefore (idAt 1 3) (by decide)]
    exact hscalars.declared 3 _ rfl
  have hptr : Shader.IsUintPointer { s with types := types } (idAt 1 49) := by
    refine ⟨idAt 1 3, ?_, hint⟩
    have hshape := htypes 36 _ (getElem?_laterShapes d 1)
    rw [idAt_add] at hshape
    change _ ∈ (types (idAt 1 49)).bind _
    rw [hshape]
    rfl
  obtain ⟨m, hrun₂, hready₃, -, hcontents⟩ := run_registers initial hptr hready₂
  dsimp only at hrun₂ hready₃ hcontents
  rw [hlength, hvars, List.nil_append] at hrun₂ hready₃
  rw [hlength, hvars] at hcontents
  rw [idAt_add] at hready₃
  have hids : (List.range 254).map (idAt (idAt 1 50)) =
      (List.finRange MAX_REG_COUNT).map (initialised d).regs.get := by
    have hrange : List.range 254 = (List.finRange MAX_REG_COUNT).map Fin.val :=
      (List.map_coe_finRange_eq_range).symm
    rw [hrange, List.map_map]
    apply List.map_congr_left
    intro r _
    rw [regs_initialised, hone, ← idAt_add]
    rfl
  refine ⟨_, ?_, hready₃, hint, hids, ?_⟩
  · rw [declarations_eq d hone, decoded_append, run_append, hrun₀, Option.bind_some,
      decoded_append, run_append, hrun₁, Option.bind_some, hvars, hrun₂]
  · intro r
    have hr := hcontents r r.isLt
    rw [idAt_add, ← hone, ← regs_initialised] at hr
    have hzero : initial (([] : List UInt32).length + r.val) = initial r.val :=
      congrArg initial (Nat.zero_add _)
    rw [← hzero]
    exact hr

/-- A strict reader that gets behind what `init` wrote found every component of a vector among the
scalar types. -/
theorem componentsTyped_of_run (hone : d.ir.nextId = 1) (hready : Ready bound 1 (room + 304) s)
    (hnone : ∀ id, s.types id = none)
    (hrun : (Shader.run true bound initial (decoded (declarations d)) s).isSome) :
    ComponentsTyped d := by
  have hready₀ : Ready bound 1 ((room + 291) + 13) s := hready
  obtain ⟨types, hrun₀, hready₁, hscalars⟩ := run_scalars initial hready₀ hnone
  obtain ⟨s', hs'⟩ := Option.isSome_iff_exists.mp hrun
  rw [declarations_eq d hone, decoded_append, run_append, hrun₀, Option.bind_some, declared_append,
    decoded_append, decoded_append, run_append, run_append] at hs'
  obtain ⟨s₂, hlater, -⟩ := Option.bind_eq_some_iff.mp hs'
  obtain ⟨s₁, hvectors, -⟩ := Option.bind_eq_some_iff.mp hlater
  have hshapes := wellFormed_of_run (vectors_declare (typeTables d)) ?_ hready₁.running
    (Option.isSome_iff_exists.mpr ⟨s₁, hvectors⟩)
  · exact (vectorShapes_wellFormed_iff d hscalars).mp hshapes
  · intro shape hshape
    obtain ⟨tables, -, n, -, rfl⟩ := mem_vectorShapes hshape
    exact ⟨_, _, rfl⟩

/-! ## What the reader sees of an instruction -/

/-- The instruction is read back with the result of its layout, and names nothing. -/
def Plain (i : Inst) : Prop :=
  ∃ instruction, decodeInst i = some instruction ∧ instruction.result = resultId i ∧
    target instruction = none

/-- A declaration is read back with its result, and names nothing. -/
theorem plain_declarations : ∀ i ∈ declarations d, Plain i := by
  intro i hi
  obtain ⟨k, hk⟩ := List.mem_iff_getElem?.mp hi
  unfold declarations at hk
  rw [getElem?_declared] at hk
  obtain ⟨c, hc, rfl⟩ := Option.map_eq_some_iff.mp hk
  rcases List.mem_append.mp (List.mem_of_getElem? hc) with hscalar | hlater
  · simp only [scalars, List.mem_cons, List.not_mem_nil, or_false] at hscalar
    rcases hscalar with rfl | rfl | rfl | rfl | rfl | rfl | rfl | rfl | rfl | rfl | rfl | rfl | rfl
    all_goals exact ⟨_, rfl, rfl, rfl⟩
  · rcases laterDecls_cases hlater with ⟨n, -, types, -, rfl⟩ | ⟨u32, rfl⟩ | ⟨ptr, r, rfl⟩
    all_goals exact ⟨_, rfl, rfl, rfl⟩

end Declarations

/-- What plain instructions define is what the reader sees defined, and they name nothing. -/
theorem decoded_plain {insts : List Inst} (h : ∀ i ∈ insts, Plain i) :
    (decoded insts).filterMap Instruction.result = insts.filterMap resultId ∧
      (decoded insts).filterMap target = [] := by
  induction insts with
  | nil => exact ⟨rfl, rfl⟩
  | cons i insts ih =>
    obtain ⟨hresults, htargets⟩ := ih fun j hj => h j (List.mem_cons_of_mem i hj)
    obtain ⟨instruction, hi, hresult, htarget⟩ := h i List.mem_cons_self
    unfold decoded at hresults htargets ⊢
    rw [List.filterMap_cons_some hi, List.filterMap_cons_none htarget]
    refine ⟨?_, htargets⟩
    rw [List.filterMap_cons, List.filterMap_cons, hresult, hresults]

end Oboromi.Analysis.Sm86
