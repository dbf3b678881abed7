import Oboromi.Analysis.ShaderDeclarations

/-!
# The bytes of a shader run as the shader

The reader of a shader's module runs the translated instructions behind the declarations: their
execution on the machine (`exec_emittedBy`) is the reader's run of them (`run_of_exec`), up to the
first `kill`.
-/

set_option autoImplicit false

namespace Oboromi.Analysis.Sm86

open Oboromi.Lib
open Oboromi.Model.Spirv
open Oboromi.Model.Sm86
open Oboromi.Interface.Spirv
open Oboromi.Interface.Sm86
open Oboromi.Analysis.Spirv

/-! ## Translated instructions -/

section Translated

variable {strict : Bool} {bound : UInt32} {initial : ℕ → UInt32} {s : Shader} {m' : Machine}
  {u32 : UInt32}

/-- A defined result of the unsigned type is accepted. -/
theorem setResult_of_define {id v : UInt32} (hu : s.IsUint u32)
    (hfresh : 0 < id ∧ id < bound ∧ s.types id = none) (h : s.machine.define id v = some m') :
    s.setResult bound u32 (some id) v = some { s with machine := m' } := by
  obtain ⟨hnew, rfl⟩ := define_eq_some h
  exact if_pos ⟨hu, hfresh.1, hfresh.2.1, hfresh.2.2, hnew⟩

/-- A step of the machine is a step of the reader, on the instruction as it is decoded. -/
theorem step_of_machine (initial : ℕ → UInt32) {i : Inst} (hu : s.IsUint u32)
    (hstep : step u32 s.machine i = some m')
    (hfresh : ∀ id, resultId i = some id → 0 < id ∧ id < bound ∧ s.types id = none) :
    ∃ instruction, decodeInst i = some instruction ∧
      s.step strict bound initial instruction = some { s with machine := m' } := by
  unfold step at hstep
  split at hstep
  · next hop hoperands =>
    cases hstep
    rw [eq_of_opcode hop hoperands]
    exact ⟨_, rfl, rfl⟩
  · next ty result literal hop hoperands =>
    rw [eq_of_opcode hop hoperands] at hfresh ⊢
    split at hstep
    · next hty =>
      subst hty
      exact ⟨_, rfl, setResult_of_define hu (hfresh result rfl) hstep⟩
    · cases hstep
  · next ty result pointer hop hoperands =>
    rw [eq_of_opcode hop hoperands] at hfresh ⊢
    split at hstep
    · next hty =>
      subst hty
      obtain ⟨v, hv, hdefine⟩ := Option.bind_eq_some_iff.mp hstep
      refine ⟨_, rfl, ?_⟩
      change (s.machine.contents pointer).bind _ = _
      rw [hv]
      exact setResult_of_define hu (hfresh result rfl) hdefine
    · cases hstep
  · next pointer object hop hoperands =>
    rw [eq_of_opcode hop hoperands]
    obtain ⟨v, hv, hstore⟩ := Option.bind_eq_some_iff.mp hstep
    split at hstore
    · next hpointer =>
      cases hstore
      refine ⟨_, rfl, ?_⟩
      change (s.machine.values object).bind _ = _
      rw [hv]
      exact if_pos hpointer
    · cases hstore
  · next ty result a b hop hoperands =>
    rw [eq_of_opcode hop hoperands] at hfresh ⊢
    split at hstep
    · next hty =>
      subst hty
      obtain ⟨x, hx, hrest⟩ := Option.bind_eq_some_iff.mp hstep
      obtain ⟨y, hy, hdefine⟩ := Option.bind_eq_some_iff.mp hrest
      refine ⟨_, rfl, ?_⟩
      change (s.machine.values a).bind (fun x => (s.machine.values b).bind _) = _
      rw [hx, Option.bind_some, hy]
      exact setResult_of_define hu (hfresh result rfl) hdefine
    · cases hstep
  · cases hstep

/-- A run of the machine is a run of the reader: by induction over the instructions. -/
theorem run_of_exec {insts : List Inst} (hu : s.IsUint u32) (hrunning : s.ended = false)
    (hexec : exec u32 insts s.machine = some m')
    (hfresh : ∀ id ∈ insts.filterMap resultId, 0 < id ∧ id < bound ∧ s.types id = none) :
    Shader.run strict bound initial (decoded insts) s = some { s with machine := m' } := by
  induction insts generalizing s with
  | nil =>
    cases hexec
    rfl
  | cons i insts ih =>
    rw [exec_cons] at hexec
    obtain ⟨m₁, hstep, hrest⟩ := Option.bind_eq_some_iff.mp hexec
    have hhead : ∀ id, resultId i = some id → 0 < id ∧ id < bound ∧ s.types id = none := by
      intro id hid
      exact hfresh id (List.mem_filterMap.mpr ⟨i, List.mem_cons_self, hid⟩)
    obtain ⟨instruction, hi, hstep'⟩ := step_of_machine initial hu hstep hhead
    have htail : ∀ id ∈ insts.filterMap resultId, 0 < id ∧ id < bound ∧ s.types id = none := by
      intro id hid
      obtain ⟨j, hj, hresult⟩ := List.mem_filterMap.mp hid
      exact hfresh id (List.mem_filterMap.mpr ⟨j, List.mem_cons_of_mem i hj, hresult⟩)
    have hrun := @ih { s with machine := m₁ } hu hrunning hrest htail
    rw [run_decoded_cons hi hrunning hstep', hrun]

end Translated

/-! ## Translated shaders -/

section Shaders

variable {strict : Bool} {bound next u32 : UInt32} {initial : ℕ → UInt32} {s : Shader}
  {vars : Vector UInt32 MAX_REG_COUNT} {regs : Registers}

/-- The ids of one instruction are fresh. -/
theorem Ready.results {room : ℕ} {inst : BitVec 128}
    (h : Ready bound next (room + idCost inst) s) :
    ∀ id ∈ (emittedBy u32 vars next inst).filterMap resultId,
      0 < id ∧ id < bound ∧ s.types id = none := by
  intro id hid
  rw [results_emittedBy] at hid
  obtain ⟨k, hrange, rfl⟩ := List.mem_map.mp hid
  have hk := List.mem_range.mp hrange
  have hpos := h.positive
  have hroom := h.room
  have hbound := bound.toNat_lt
  have hnat : (idAt next k).toNat = next.toNat + k := by
    rw [toNat_idAt]
    exact Nat.mod_eq_of_lt (by omega)
  refine ⟨UInt32.lt_iff_toNat_lt.mpr (by rw [hnat]; exact Nat.add_pos_left hpos k),
    UInt32.lt_iff_toNat_lt.mpr (by omega), ?_⟩
  by_contra htype
  have hlt := UInt32.lt_iff_toNat_lt.mp (h.types _ htype)
  omega

/-- One implemented instruction, from its bytes. -/
theorem run_emittedBy (initial : ℕ → UInt32) {room : ℕ} {inst : BitVec 128}
    (himpl : Implemented inst) (hready : Ready bound next (room + idCost inst) s)
    (hu : s.IsUint u32) (hvars : Function.Injective vars.get)
    (hcontents : ∀ r : Fin MAX_REG_COUNT, s.machine.contents (vars.get r) = some (regs r)) :
    ∃ m, Shader.run strict bound initial (decoded (emittedBy u32 vars next inst)) s =
        some { s with machine := m } ∧
      Ready bound (idAfterInst next inst) room { s with machine := m } ∧
      ∀ r : Fin MAX_REG_COUNT, m.contents (vars.get r) = some (stepRegisters regs inst r) := by
  have hroom := hready.room
  have hbound := bound.toNat_lt
  have hrepr : Represents vars next s.machine regs := ⟨hcontents, hready.machine⟩
  obtain ⟨m, hexec, hdone⟩ := exec_emittedBy u32 hrepr hvars himpl (by omega)
  have hnext : (idAfterInst next inst).toNat = next.toNat + idCost inst := by
    rw [idAfterInst_eq, toNat_idAt]
    exact Nat.mod_eq_of_lt (by omega)
  have hrun : Shader.run strict bound initial (decoded (emittedBy u32 vars next inst)) s =
      some { s with machine := m } :=
    run_of_exec hu hready.running hexec hready.results
  refine ⟨m, hrun, ?_, hdone.contents⟩
  refine ⟨?_, ?_, ?_, hdone.fresh, hready.running⟩
  · have hpos := hready.positive
    omega
  · omega
  · intro id hid
    have hlt := UInt32.lt_iff_toNat_lt.mp (hready.types id hid)
    exact UInt32.lt_iff_toNat_lt.mpr (by omega)

/-- A translated instruction is read back with its result, and names nothing. -/
theorem plain_translated {insts : List (BitVec 128)} (next : UInt32) :
    ∀ i ∈ translated u32 vars next insts, Plain i := by
  induction insts generalizing next with
  | nil =>
    intro i hi
    cases hi
  | cons inst insts ih =>
    intro i hi
    rcases List.mem_append.mp hi with hfirst | hrest
    · unfold emittedBy at hfirst
      split at hfirst
      · unfold al2pInsts loadInst storeInsts at hfirst
        split at hfirst <;> split at hfirst
        all_goals
          simp only [List.cons_append, List.nil_append, List.append_nil, List.mem_cons,
            List.not_mem_nil, or_false] at hfirst
          rcases hfirst with rfl | rfl | rfl | rfl
          all_goals exact ⟨_, rfl, rfl, rfl⟩
      · rw [List.mem_singleton.mp hfirst]
        exact ⟨_, rfl, rfl, rfl⟩
      · rw [List.mem_singleton.mp hfirst]
        exact ⟨_, rfl, rfl, rfl⟩
    · exact ih _ i hrest

/-- Every id that a translation took is a result. -/
theorem mem_results_translated {insts : List (BitVec 128)} {k : ℕ}
    (hk : k < 3 * al2pCount insts) :
    idAt next k ∈ (translated u32 vars next insts).filterMap resultId := by
  induction insts generalizing next k with
  | nil => exact (Nat.not_lt_zero k hk).elim
  | cons inst insts ih =>
    rw [translated, List.filterMap_append, results_emittedBy, idAfterInst_eq]
    rw [al2pCount_cons] at hk
    by_cases hfirst : k < idCost inst
    · exact List.mem_append_left _ (List.mem_map.mpr ⟨k, List.mem_range.mpr hfirst, rfl⟩)
    · have hlater := @ih (idAt next (idCost inst)) (k - idCost inst) (by omega)
      rw [idAt_add, Nat.add_sub_cancel' (by omega)] at hlater
      exact List.mem_append_right _ hlater

/-- A translated shader runs as the shader: by induction over its instructions, until one of them
is a `kill`. -/
theorem run_translated (initial : ℕ → UInt32) {insts : List (BitVec 128)}
    (h : ∀ inst ∈ insts, Translatable inst)
    (hready : Ready bound next (3 * al2pCount insts) s) (hu : s.IsUint u32)
    (hvars : Function.Injective vars.get)
    (hcontents : ∀ r : Fin MAX_REG_COUNT, s.machine.contents (vars.get r) = some (regs r)) :
    ∃ s', Shader.run strict bound initial (decoded (translated u32 vars next insts)) s = some s' ∧
      s'.vars = s.vars ∧
      ∀ r : Fin MAX_REG_COUNT,
        s'.machine.contents (vars.get r) = some (runToKill insts regs r) := by
  induction insts generalizing next s regs with
  | nil => exact ⟨s, rfl, rfl, hcontents⟩
  | cons inst insts ih =>
    rw [translated, decoded_append, run_append]
    by_cases hkill : dispatch (opcode inst) = some .kill
    · have hemitted : emittedBy u32 vars next inst = [⟨252, []⟩] := by
        unfold emittedBy
        rw [hkill]
      have hend : Shader.run strict bound initial (decoded [⟨252, []⟩]) s =
          some { s with ended := true } := by
        rw [run_decoded_cons rfl hready.running rfl]
        rfl
      refine ⟨{ s with ended := true }, ?_, rfl, ?_⟩
      · rw [hemitted, hend, Option.bind_some]
        exact run_of_ended rfl _
      · rw [runToKill, if_pos hkill]
        exact hcontents
    · have himpl : Implemented inst := (h inst List.mem_cons_self).resolve_right hkill
      rw [al2pCount_cons, Nat.add_comm] at hready
      obtain ⟨m, hrun, hready', hcontents'⟩ :=
        run_emittedBy initial himpl hready hu hvars hcontents
      obtain ⟨s', hrest, hvars', hdone⟩ := ih (fun i hi => h i (List.mem_cons_of_mem inst hi))
        hready' (by exact hu) hcontents'
      refine ⟨s', ?_, hvars', ?_⟩
      · rw [hrun, Option.bind_some]
        exact hrest
      · rw [runToKill, if_neg hkill]
        exact hdone

/-- The variables are read in order. -/
theorem mapM_contents {m : Machine}
    (h : ∀ r : Fin MAX_REG_COUNT, m.contents (vars.get r) = some (regs r))
    (rs : List (Fin MAX_REG_COUNT)) :
    (rs.map vars.get).mapM m.contents = some (rs.map regs) := by
  induction rs with
  | nil => rfl
  | cons r rs ih =>
    rw [List.map_cons, List.mapM_cons, h, ih]
    rfl

end Shaders

/-! ## Whole modules -/

/-- A module that is read, and names its own results, is run from the start. -/
theorem runModule_of_read {strict : Bool} (initial : ℕ → UInt32) {bytes : List UInt8}
    {m : ModuleListing} (hread : readModule bytes = some m)
    (htargets : TargetsDefined m.instructions) :
    runModule strict initial bytes =
      (Shader.run strict m.bound initial m.instructions Shader.start).bind
        fun s => s.vars.mapM s.machine.contents := by
  unfold runModule
  rw [hread]
  exact if_pos htargets

/-- Words appended to a module extend its instructions. -/
theorem moduleWords_extend (bound : UInt32) (as bs : List Inst) :
    moduleWords bound as ++ (bs.map Inst.words).flatten = moduleWords bound (as ++ bs) := by
  unfold moduleWords
  rw [List.map_append, List.flatten_append, List.append_assoc]

/-- Appending instructions keeps the words framed. -/
theorem framed_extend {d : Decoder} {bound : UInt32} {insts : List Inst}
    (h : Framed d.ir bound insts) (more : List Inst) (next : UInt32) :
    Framed (extend d more next).ir bound (insts ++ more) := by
  refine ⟨?_, h.boundIdx⟩
  rw [← moduleWords_extend]
  exact congrArg (· ++ _) h.words

/-- `init` keeps the words framed. -/
theorem framed_initialised {d : Decoder} {bound : UInt32} {insts : List Inst}
    (h : Framed d.ir bound insts) :
    Framed (initialised d).ir bound (insts ++ declarations d) := by
  have hframed := framed_extend h (declarations d) (idAt d.ir.nextId (initDecls d).length)
  unfold initialised
  rw [declareAll_ir]
  exact hframed

section Modules

variable {build : Build} {setup : List EmitCall} {d₀ : Decoder} {insts : List (BitVec 128)}
  {limit : ℕ}

/-- The instructions of a shader's module. -/
def moduleInsts (setup : List EmitCall) (d : Decoder) (insts : List (BitVec 128)) : List Inst :=
  (log 1 setup).filterMap Entry.emitted ++ declarations d ++ translation d insts

/-- What a shader's module is: it is emitted while there are ids, and its bound is the next. -/
theorem shaderModule_stream (hnew : d₀.ir = Emitter.new)
    (hsetup : ∀ call ∈ setup, IsSetup limit call) (hinsts : ∀ inst ∈ insts, Translatable inst)
    (hids : 305 + 3 * al2pCount insts < 2 ^ 32) :
    ∃ d₁ d, (shaderModule build setup insts).run d₀ = (.ok (), d) ∧ d₁.ir.nextId = 1 ∧
      typeTables d₁ = typeTables d₀ ∧ d.ir.words =
        moduleWords (idAt 1 (304 + 3 * al2pCount insts)) (moduleInsts setup d₁ insts) := by
  obtain ⟨e₀, hheader, hframed, hone⟩ := emitHeader_framed
  obtain ⟨hallocations, hasserts⟩ := setup_allocations hsetup
  have hroom : build = .release ∨ (∀ call ∈ setup, call.asserts = true) ∧
      e₀.nextId.toNat + allocations setup < 2 ^ 32 := by
    rw [hallocations]
    exact .inr ⟨hasserts, e₀.nextId.toNat_lt⟩
  obtain ⟨results, e₁, hcalls⟩ := runCalls_returns hroom
  obtain ⟨-, hnext, bound, hstream⟩ := runCalls_framed hcalls hframed
  rw [hone] at hnext hstream
  rw [setup_ids hsetup] at hnext
  -- The decoder that `init` starts from.
  let d₁ : Decoder := { d₀ with ir := e₁ }
  have hstart : (onIr emitHeader).run d₀ = (.ok (), { d₀ with ir := e₀ }) := by
    rw [← hnew] at hheader
    exact onIr_run_ok hheader
  have hsetup₁ : (onIr (runCalls build setup)).run { d₀ with ir := e₀ } = (.ok results, d₁) :=
    onIr_run_ok hcalls
  have hnext₁ : d₁.ir.nextId = 1 := hnext
  have hall : Room build d₁.ir.nextId (304 + 3 * al2pCount insts) := by
    have hnat : (1 : UInt32).toNat = 1 := rfl
    rw [hnext₁]
    exact .inr (by omega)
  obtain ⟨hfirst, hrest⟩ := room_add_iff.mp hall
  rw [← nextId_initialised] at hrest
  have hinit := (init_returns d₁ build).run hfirst
  have htranslate := (translateAll_returns build hinsts (initialised d₁)).run hrest
  let d₂ := extend (initialised d₁)
    (translated (initialised d₁).u32 (initialised d₁).regs (initialised d₁).ir.nextId insts)
    (idAt (initialised d₁).ir.nextId (3 * al2pCount insts))
  have hdone := patched_framed (framed_extend (@framed_initialised d₁ _ _ hstream)
    (translated (initialised d₁).u32 (initialised d₁).regs (initialised d₁).ir.nextId insts)
    (idAt (initialised d₁).ir.nextId (3 * al2pCount insts)))
  refine ⟨d₁, { d₂ with ir := patched d₂.ir }, ?_, hnext₁, rfl, ?_⟩
  · unfold shaderModule
    rw [Sys.run_bind_ok hstart, Sys.run_bind_ok hsetup₁, Sys.run_bind_ok hinit,
      Sys.run_bind_ok htranslate]
    exact onIr_run_ok (finalize_run _)
  · refine hdone.words.trans ?_
    have hbound : idAt (initialised d₁).ir.nextId (3 * al2pCount insts) =
        idAt 1 (304 + 3 * al2pCount insts) := by
      rw [nextId_initialised, idAt_add, hnext₁]
    unfold moduleInsts translation
    rw [← hbound, ← u32_initialised, ← nextId_initialised]
    rfl

/-- What a shader's module names is a result of it: the setup names ids below the bound, and the
declarations and the translation define all of them. -/
theorem targetsDefined_module {d₁ : Decoder} (hone : d₁.ir.nextId = 1)
    (hsetup : ∀ call ∈ setup, IsSetup (305 + 3 * al2pCount insts) call)
    (hnul : ∀ call ∈ setup, ∀ t ∈ call.strings, NulFree t) :
    TargetsDefined (decoded (moduleInsts setup d₁ insts)) := by
  obtain ⟨-, -, htargets⟩ := run_setup hsetup hnul 1
  obtain ⟨hdeclared, hnone⟩ := decoded_plain (plain_declarations d₁)
  have hplain : ∀ i ∈ translation d₁ insts, Plain i := plain_translated _
  obtain ⟨htranslated, hnone'⟩ := decoded_plain hplain
  unfold TargetsDefined moduleInsts
  simp only [decoded_append, List.filterMap_append, hdeclared, hnone, htranslated, hnone',
    List.append_nil]
  intro id hid
  obtain ⟨hpos, hlt⟩ := htargets id hid
  have hid : id = idAt 1 (id.toNat - 1) := by
    apply UInt32.toNat_inj.mp
    have hid := id.toNat_lt
    have hnat : (1 : UInt32).toNat = 1 := rfl
    rw [toNat_idAt, hnat]
    omega
  rw [hid]
  by_cases hfirst : id.toNat - 1 < 304
  · have hmem := mem_results_declarations d₁ hfirst
    rw [hone] at hmem
    exact List.mem_append_left _ (List.mem_append_right _ hmem)
  · have hlater : 304 ≤ id.toNat - 1 := Nat.le_of_not_lt hfirst
    have hmem := @mem_results_translated (idAt d₁.ir.nextId 304) (idAt d₁.ir.nextId 3)
      (initialised d₁).regs insts (id.toNat - 1 - 304) (by omega)
    rw [idAt_add, hone, Nat.add_sub_cancel' hlater] at hmem
    unfold translation
    rw [hone]
    exact List.mem_append_right _ hmem

/-- The module of a shader: it is emitted, it validates, and a reader of its bytes runs its
instructions from the start. -/
theorem shaderModule_read (hnew : d₀.ir = Emitter.new)
    (hsetup : ∀ call ∈ setup, IsSetup (305 + 3 * al2pCount insts) call)
    (hnul : ∀ call ∈ setup, ∀ t ∈ call.strings, NulFree t)
    (hsize : ∀ i ∈ emittedInsts setup, i.operands.length ≤ 65534)
    (hinsts : ∀ inst ∈ insts, Translatable inst) (hids : 305 + 3 * al2pCount insts < 2 ^ 32) :
    ∃ d₁ d, (shaderModule build setup insts).run d₀ = (.ok (), d) ∧ d.ir.validate = .ok () ∧
      d₁.ir.nextId = 1 ∧ typeTables d₁ = typeTables d₀ ∧
      ∀ (strict : Bool) (initial : ℕ → UInt32), runModule strict initial d.ir.toBytes =
        (Shader.run strict (idAt 1 (304 + 3 * al2pCount insts)) initial
          (decoded (declarations d₁) ++ decoded (translation d₁ insts)) Shader.start).bind
          fun s => s.vars.mapM s.machine.contents := by
  obtain ⟨d₁, d, hrun, hone, htables, hwords⟩ := shaderModule_stream hnew hsetup hinsts hids
  have hencodable : ∀ i ∈ moduleInsts setup d₁ insts, Encodable i := by
    intro i hi
    rcases List.mem_append.mp hi with hi | htranslated
    · rcases List.mem_append.mp hi with hsetup | hdeclared
      · exact emittedInsts_encodable hsize i hsetup
      · exact declared_encodable _ d₁ i hdeclared
    · exact translated_encodable _ _ _ _ i htranslated
  obtain ⟨hdecodeSetup, hrunSetup, -⟩ := run_setup hsetup hnul 1
  have hdecode : (moduleInsts setup d₁ insts).mapM decodeInst =
      some (decoded (moduleInsts setup d₁ insts)) := by
    apply mapM_decodeInst
    intro i hi
    rcases List.mem_append.mp hi with hi | htranslated
    · rcases List.mem_append.mp hi with hsetup | hdeclared
      · exact hdecodeSetup i hsetup
      · obtain ⟨instruction, hdecoded, -⟩ := plain_declarations d₁ i hdeclared
        exact Option.isSome_iff_exists.mpr ⟨instruction, hdecoded⟩
    · obtain ⟨instruction, hdecoded, -⟩ := plain_translated _ i htranslated
      exact Option.isSome_iff_exists.mpr ⟨instruction, hdecoded⟩
  have hread := readModule_toBytes hwords hencodable
  rw [hdecode] at hread
  refine ⟨d₁, d, hrun, validate_moduleWords hwords hencodable, hone, htables, ?_⟩
  intro strict initial
  have hsplit : Shader.run strict (idAt 1 (304 + 3 * al2pCount insts)) initial
      (decoded (moduleInsts setup d₁ insts)) Shader.start =
      Shader.run strict (idAt 1 (304 + 3 * al2pCount insts)) initial
        (decoded (declarations d₁) ++ decoded (translation d₁ insts)) Shader.start := by
    unfold moduleInsts
    rw [decoded_append, decoded_append, List.append_assoc, run_append,
      hrunSetup strict _ initial Shader.start rfl, Option.bind_some]
  rw [← hsplit]
  exact runModule_of_read initial hread (targetsDefined_module hone hsetup hnul)

end Modules

/-- Nothing is defined at the start, and the ids of a shader's module fit. -/
theorem ready_start {n : ℕ} (h : 305 + n < 2 ^ 32) :
    Ready (idAt 1 (304 + n)) 1 (n + 304) Shader.start := by
  have hone : (1 : UInt32).toNat = 1 := rfl
  have hbound : (idAt 1 (304 + n)).toNat = 305 + n := by
    rw [toNat_idAt, hone]
    omega
  refine ⟨by decide, by omega, fun id hid => absurd rfl hid, ?_, rfl⟩
  rintro id (hid | hid)
  · cases hid
  · cases hid

section Running

variable {strict : Bool} {insts : List (BitVec 128)} {d : Decoder}

/-- What is read of a shader's module ends with the registers of the shader. -/
theorem run_module_insts (regs : Registers) (hone : d.ir.nextId = 1)
    (hinsts : ∀ inst ∈ insts, Translatable inst) (hids : 305 + 3 * al2pCount insts < 2 ^ 32)
    (hcomponents : strict = true → ComponentsTyped d) :
    (Shader.run strict (idAt 1 (304 + 3 * al2pCount insts)) regs.initial
      (decoded (declarations d) ++ decoded (translation d insts)) Shader.start).bind
      (fun s => s.vars.mapM s.machine.contents) = some (List.ofFn (runToKill insts regs)) := by
  obtain ⟨s₁, hrunInit, hready₁, hu, hvars₁, hcontents⟩ :=
    run_declarations d regs.initial hone (ready_start hids) (fun _ => rfl) rfl hcomponents
  have hregs : ∀ r : Fin MAX_REG_COUNT,
      s₁.machine.contents ((initialised d).regs.get r) = some (regs r) := by
    intro r
    rw [hcontents r]
    exact congrArg some (dif_pos r.isLt)
  obtain ⟨s₂, hrunInsts, hvars₂, hdone⟩ :=
    run_translated regs.initial hinsts hready₁ hu (regs_injective d) hregs
  have htranslation : translation d insts =
      translated (idAt 1 3) (initialised d).regs (idAt 1 304) insts := by
    unfold translation
    rw [hone]
  rw [htranslation, run_append, hrunInit, Option.bind_some, hrunInsts, Option.bind_some, hvars₂,
    hvars₁, List.ofFn_eq_map]
  exact mapM_contents hdone (List.finRange MAX_REG_COUNT)

/-- A strict reader that ends found every component of a vector among the scalar types. -/
theorem componentsTyped_of_module {initial : ℕ → UInt32} {values : List UInt32}
    (hone : d.ir.nextId = 1) (hids : 305 + 3 * al2pCount insts < 2 ^ 32)
    (hrun : (Shader.run true (idAt 1 (304 + 3 * al2pCount insts)) initial
      (decoded (declarations d) ++ decoded (translation d insts)) Shader.start).bind
      (fun s => s.vars.mapM s.machine.contents) = some values) : ComponentsTyped d := by
  obtain ⟨s, hs, -⟩ := Option.bind_eq_some_iff.mp hrun
  rw [run_append] at hs
  obtain ⟨s₁, hdeclared, -⟩ := Option.bind_eq_some_iff.mp hs
  exact componentsTyped_of_run d hone (ready_start hids) (fun _ => rfl)
    (Option.isSome_iff_exists.mpr ⟨s₁, hdeclared⟩)

end Running

/-- **The bytes of a shader run as the shader.**  For every setup, every list of translatable
instructions whose ids fit, and whatever the decoder's tables held: the module is emitted, it
validates, and its bytes, read back and run from any register contents, end with the registers
that the shader's instructions leave, up to the first `kill`.  A reader that also checks the
components of the vector types runs them so exactly when the entries of the tables that nothing
sets hold ids of scalar types.
SOURCE: core/src/gpu/sm86.rs:207-284, 2385-2394, core/src/gpu/spirv.rs:193-258, 1090-1128 -/
theorem shader_bytes_run (build : Build) (setup : List EmitCall) (d₀ : Decoder)
    (insts : List (BitVec 128)) (hnew : d₀.ir = Emitter.new)
    (hsetup : ∀ call ∈ setup, IsSetup (305 + 3 * al2pCount insts) call)
    (hnul : ∀ call ∈ setup, ∀ t ∈ call.strings, NulFree t)
    (hsize : ∀ i ∈ emittedInsts setup, i.operands.length ≤ 65534)
    (hinsts : ∀ inst ∈ insts, Translatable inst)
    (hids : 305 + 3 * al2pCount insts < 2 ^ 32) :
    RunsAsShader false build setup d₀ insts ∧
      (RunsAsShader true build setup d₀ insts ↔ ComponentsTyped d₀) := by
  obtain ⟨d₁, d, hrun, hvalid, hone, htables, hread⟩ :=
    shaderModule_read hnew hsetup hnul hsize hinsts hids
  have hcomponents : ComponentsTyped d₁ ↔ ComponentsTyped d₀ := by
    unfold ComponentsTyped
    rw [htables]
  have hruns (strict : Bool) (h : strict = true → ComponentsTyped d₀) :
      RunsAsShader strict build setup d₀ insts := by
    refine ⟨d, hrun, hvalid, fun regs => (hread strict regs.initial).trans ?_⟩
    exact run_module_insts regs hone hinsts hids fun hstrict => hcomponents.mpr (h hstrict)
  refine ⟨hruns false fun hstrict => absurd hstrict Bool.false_ne_true, ?_,
    fun h => hruns true fun _ => h⟩
  rintro ⟨d', hrun', -, hvalues⟩
  obtain rfl : d = d' := congrArg Prod.snd (hrun.symm.trans hrun')
  have hdone := hvalues fun _ => 0
  rw [hread] at hdone
  exact hcomponents.mp (componentsTyped_of_module hone hids hdone)

/-- A decoder whose tables hold the id of the 32-bit integer type wherever nothing sets them. -/
def uniformDecoder (ir : Emitter) : Decoder :=
  let table := Vector.replicate 5 4
  { Decoder.zeroed ir with
    typeU8 := table, typeU16 := table, typeU32 := table, typeU64 := table
    typeS8 := table, typeS16 := table, typeS32 := table, typeS64 := table
    typeF16 := table, typeF32 := table, typeF64 := table, typeBool := table }

/-- All entries of its tables hold that id. -/
theorem componentsTyped_uniformDecoder (ir : Emitter) : ComponentsTyped (uniformDecoder ir) := by
  intro types htypes n _
  have htable : types = Vector.replicate 5 4 := by
    simpa [typeTables, uniformDecoder] using htypes
  have hentry : types.get n = 4 := by
    rw [htable]
    exact Vector.getElem_replicate n.isLt
  rw [hentry]
  exact ⟨by decide, by decide⟩

/-- A setup that names the integer type and the first register. -/
def namingSetup : List EmitCall :=
  [.emitCapability 1, .emitMemoryModel 0 1, .emitName 4 "u32", .emitName 51 "r0"]

/-- `%r1 := %r2 + 4`, a `kill`, and `%r1 := %r1 + 8`, which is not run, in a module that names its
integer type and its first register: both kinds of reader run it. -/
theorem shader_bytes_run_sample :
    RunsAsShader false .debug namingSetup (uniformDecoder Emitter.new)
        [0x40002010920, 0x95B, 0x80001010920] ∧
      RunsAsShader true .debug namingSetup (uniformDecoder Emitter.new)
        [0x40002010920, 0x95B, 0x80001010920] := by
  have hruns := shader_bytes_run .debug namingSetup (uniformDecoder Emitter.new)
    [0x40002010920, 0x95B, 0x80001010920] rfl
    (by
      simp only [namingSetup, List.forall_mem_cons, IsSetup]
      exact ⟨trivial, trivial, by decide, by decide, fun _ hcall => (List.not_mem_nil hcall).elim⟩)
    (by simp [namingSetup, EmitCall.strings, NulFree]) (by decide)
    (by
      intro inst hinst
      simp only [List.mem_cons, List.not_mem_nil, or_false] at hinst
      rcases hinst with rfl | rfl | rfl
      · exact .inl (.inl ⟨rfl, by decide, .inl (by decide), .inl (by decide)⟩)
      · exact .inr rfl
      · exact .inl (.inl ⟨rfl, by decide, .inl (by decide), .inl (by decide)⟩))
    (by decide)
  exact ⟨hruns.1, hruns.2.mpr (componentsTyped_uniformDecoder Emitter.new)⟩

end Oboromi.Analysis.Sm86
