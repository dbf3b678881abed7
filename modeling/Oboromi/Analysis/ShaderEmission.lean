import Oboromi.Analysis.DecoderInit
import Oboromi.Analysis.ModuleFraming

/-!
# What the translation emits

A list of instructions that translate appends a list of SPIR-V instructions that depends only
on the next free id and on the ids `init` left (`translated`).  Each `al2p` takes three ids, so
a run returns exactly when there are ids for `init` and for all of them (`translateAll_returns`).
-/

set_option autoImplicit false

namespace Oboromi.Analysis.Sm86

open Oboromi.Lib
open Oboromi.Model.Spirv
open Oboromi.Model.Sm86
open Oboromi.Interface.Spirv
open Oboromi.Interface.Sm86
open Oboromi.Analysis.Spirv

/-! ## Fields of an instruction word -/

/-- The source's shift and mask read the bits of a field. -/
theorem mask_eq_field (inst mask : BitVec 128) (pos len : ℕ) (hmask : mask.toNat = 2 ^ len - 1) :
    ((inst >>> pos) &&& mask).toNat = field inst pos len := by
  unfold field
  rw [BitVec.toNat_and, BitVec.toNat_ushiftRight, hmask, Nat.and_two_pow_sub_one_eq_mod,
    BitVec.extractLsb'_toNat]

/-! ## The emitted instructions -/

section Instructions

/- The integer type and the register variables that `init` left. -/
variable (u32 : UInt32) (vars : Vector UInt32 MAX_REG_COUNT)

/-- A register is loaded from its variable, the zero register is a constant. -/
def loadInst (reg : ℕ) (r : UInt32) : Inst :=
  if h : reg < MAX_REG_COUNT then ⟨61, [u32, r, vars[reg]]⟩ else ⟨43, [u32, r, 0]⟩

/-- A register is stored to its variable, a write to the zero register is dropped. -/
def storeInsts (reg : ℕ) (val : UInt32) : List Inst :=
  if h : reg < MAX_REG_COUNT then [⟨62, [vars[reg], val]⟩] else []

/-- The instructions of one `al2p`. -/
def al2pInsts (next : UInt32) (inst : BitVec 128) : List Inst :=
  [loadInst u32 vars (field inst 24 8) next,
    ⟨43, [u32, next + 1, UInt32.ofNat (field inst 40 11)]⟩,
    ⟨128, [u32, next + 1 + 1, next, next + 1]⟩] ++
  storeInsts vars (field inst 16 8) (next + 1 + 1)

/-- The instructions of one instruction that translates. -/
def emittedBy (next : UInt32) (inst : BitVec 128) : List Inst :=
  match dispatch (opcode inst) with
  | some .al2p => al2pInsts u32 vars next inst
  | some .kill => [⟨252, []⟩]
  | _ => [⟨0, []⟩]

/-- The next free id after one instruction. -/
def idAfterInst (next : UInt32) (inst : BitVec 128) : UInt32 :=
  match dispatch (opcode inst) with
  | some .al2p => next + 1 + 1 + 1
  | _ => next

/-- The instructions of a list. -/
def translated (next : UInt32) : List (BitVec 128) → List Inst
  | [] => []
  | inst :: insts => emittedBy u32 vars next inst ++ translated (idAfterInst next inst) insts

end Instructions

/-- A load or constant has the result id it was given. -/
theorem resultId_loadInst (u32 : UInt32) (vars : Vector UInt32 MAX_REG_COUNT) (reg : ℕ)
    (r : UInt32) : resultId (loadInst u32 vars reg r) = some r := by
  unfold loadInst
  split
  · rfl
  · rfl

/-! ## One instruction -/

section Emission

variable (build : Build) (d : Decoder)

/-- A register number other than 255 is within the file. -/
theorem lt_of_isRegister {reg : ℕ} (hreg : IsRegister reg) (hne : reg ≠ 255) :
    reg < MAX_REG_COUNT := Nat.lt_succ_of_le (hreg.resolve_right hne)

/-- A number that is no register is past the file. -/
theorem not_lt_of_not_isRegister {reg : ℕ} (hreg : ¬ IsRegister reg) :
    reg ≠ 255 ∧ ¬ reg < MAX_REG_COUNT :=
  ⟨fun hzero => hreg (.inr hzero), fun hlt => hreg (.inl (Nat.le_of_lt_succ hlt))⟩

/-- Loading what is no register panics. -/
theorem loadReg_panics {reg : ℕ} (hreg : ¬ IsRegister reg) :
    (loadReg build reg).run d = (.error .panic, d) := by
  obtain ⟨hne, hlt⟩ := not_lt_of_not_isRegister hreg
  unfold loadReg
  simp only [if_neg hne, dif_neg hlt]
  rfl

/-- A register is loaded exactly when it exists. -/
theorem loadReg_returns (reg : ℕ) :
    (loadReg build reg).Returns d (IsRegister reg ∧ Room build d.ir.nextId 1) d.ir.nextId
      (extend d [loadInst d.u32 d.regs reg d.ir.nextId] (d.ir.nextId + 1)) := by
  by_cases hreg : IsRegister reg
  · refine Sys.Returns.of_iff ?_ (and_iff_right hreg)
    unfold loadReg
    by_cases hzero : reg = 255
    · subst hzero
      have hload : loadInst d.u32 d.regs 255 d.ir.nextId = ⟨43, [d.u32, d.ir.nextId, 0]⟩ :=
        dif_neg (by decide)
      rw [hload]
      exact onIr_emitResult_returns build (fun r => ⟨43, [d.u32, r, 0]⟩) d
    · have hlt := lt_of_isRegister hreg hzero
      have hload : loadInst d.u32 d.regs reg d.ir.nextId =
          ⟨61, [d.u32, d.ir.nextId, d.regs[reg]]⟩ :=
        dif_pos hlt
      simp only [if_neg hzero, dif_pos hlt]
      rw [hload]
      exact onIr_emitResult_returns build (fun r => ⟨61, [d.u32, r, d.regs[reg]]⟩) d
  · exact Sys.returns_of_error (loadReg_panics build d hreg) fun h => hreg h.1

/-- Storing to what is no register panics. -/
theorem storeReg_panics {reg : ℕ} (hreg : ¬ IsRegister reg) (val : UInt32) :
    (storeReg reg val).run d = (.error .panic, d) := by
  obtain ⟨hne, hlt⟩ := not_lt_of_not_isRegister hreg
  unfold storeReg
  simp only [if_neg hne, dif_neg hlt]
  rfl

/-- A register is stored exactly when it exists. -/
theorem storeReg_returns (reg : ℕ) (val : UInt32) :
    (storeReg reg val).Returns d (IsRegister reg) ()
      (extend d (storeInsts d.regs reg val) d.ir.nextId) := by
  by_cases hreg : IsRegister reg
  · refine Sys.Returns.of_iff ?_ (iff_true_intro hreg)
    unfold storeReg
    by_cases hzero : reg = 255
    · subst hzero
      have hdropped : storeInsts d.regs 255 val = [] := dif_neg (by decide)
      rw [hdropped, extend_nil]
      exact Sys.returns_of_run rfl trivial
    · have hlt := lt_of_isRegister hreg hzero
      have hstore : storeInsts d.regs reg val = [⟨62, [d.regs[reg], val]⟩] := dif_pos hlt
      simp only [if_neg hzero, dif_pos hlt]
      rw [hstore]
      exact onIr_inst_returns ⟨62, [d.regs[reg], val]⟩ d
  · exact Sys.returns_of_error (storeReg_panics d hreg val) hreg

/-- `al2p` up to the store, after its own checks. -/
def al2pSum (inst : BitVec 128) : Sys Decoder UInt32 := do
  let base ← loadReg build (field inst 24 8)
  let d ← Sys.get
  let offset ← onIr (emitConstantTyped build d.u32 (UInt32.ofNat (field inst 40 11)))
  onIr (emitIadd build d.u32 base offset)

/-- The three instructions that compute the sum. -/
def sumInsts (u32 : UInt32) (vars : Vector UInt32 MAX_REG_COUNT) (next : UInt32)
    (inst : BitVec 128) : List Inst :=
  [loadInst u32 vars (field inst 24 8) next,
    ⟨43, [u32, next + 1, UInt32.ofNat (field inst 40 11)]⟩,
    ⟨128, [u32, next + 1 + 1, next, next + 1]⟩]

/-- The decoder behind the sum. -/
def summed (inst : BitVec 128) : Decoder :=
  extend d (sumInsts d.u32 d.regs d.ir.nextId inst) (d.ir.nextId + 1 + 1 + 1)

/-- The sum of `al2p` is emitted when its source is a register and there is room for three ids. -/
theorem al2pSum_returns (inst : BitVec 128) :
    (al2pSum build inst).Returns d (IsRegister (field inst 24 8) ∧ Room build d.ir.nextId 3)
      (d.ir.nextId + 1 + 1) (summed d inst) := by
  -- The three ids and the decoders they leave.
  let u32 := d.u32
  let n := d.ir.nextId
  let loaded := extend d [loadInst u32 d.regs (field inst 24 8) n] (n + 1)
  let added := extend loaded [⟨43, [u32, n + 1, UInt32.ofNat (field inst 40 11)]⟩] (n + 1 + 1)
  have hload : (loadReg build (field inst 24 8)).Returns d
      (IsRegister (field inst 24 8) ∧ Room build n 1) n loaded :=
    loadReg_returns build d (field inst 24 8)
  have hconst : (onIr (emitConstantTyped build u32 (UInt32.ofNat (field inst 40 11)))).Returns
      loaded (Room build (n + 1) 1) (n + 1) added :=
    onIr_emitResult_returns build
      (fun r => ⟨43, [u32, r, UInt32.ofNat (field inst 40 11)]⟩) loaded
  have hadd : (onIr (emitIadd build u32 n (n + 1))).Returns added (Room build (n + 1 + 1) 1)
      (n + 1 + 1) (extend added [⟨128, [u32, n + 1 + 1, n, n + 1]⟩] (n + 1 + 1 + 1)) :=
    onIr_emitResult_returns build (fun r => ⟨128, [u32, r, n, n + 1]⟩) added
  have hroom : Room build n 3 ↔
      Room build n 1 ∧ Room build (n + 1) 1 ∧ Room build (n + 1 + 1) 1 := by
    have hthree : Room build n 3 ↔ Room build n 1 ∧ Room build (n + 1) 2 :=
      room_add_iff (j := 1) (k := 2)
    have htwo : Room build (n + 1) 2 ↔ Room build (n + 1) 1 ∧ Room build (n + 1 + 1) 1 :=
      room_add_iff (j := 1) (k := 1)
    rw [hthree, htwo]
  have hdone : summed d inst =
      extend added [⟨128, [u32, n + 1 + 1, n, n + 1]⟩] (n + 1 + 1 + 1) := by
    rw [extend_extend, extend_extend]
    rfl
  rw [hdone]
  refine Sys.Returns.of_iff ?_ ((and_congr_right' hroom).trans and_assoc.symm)
  exact Sys.Returns.bind hload (Sys.returns_get (Sys.Returns.bind hconst hadd))

/-- The field of the source register has eight bits: what the register check lets through
is every value it can have. -/
theorem source_check_passes (inst : BitVec 128) :
    field inst 24 8 ≤ MAX_REG_COUNT ∨ field inst 24 8 = 255 := by
  have hlt : field inst 24 8 < 2 ^ 8 := (inst.extractLsb' 24 8).isLt
  by_cases hle : field inst 24 8 ≤ MAX_REG_COUNT
  · exact .inl hle
  · refine .inr ?_
    unfold MAX_REG_COUNT at hle
    omega

/-- What `al2p` does behind the register check. -/
theorem al2p_eq (inst : BitVec 128) :
    (al2p build inst).run d =
      (Sys.assert (field inst 74 2 = 0) >>= fun _ => al2pSum build inst >>= fun dstVal =>
        storeReg (field inst 16 8) dstVal).run d := by
  unfold al2p
  dsimp only
  rw [mask_eq_field inst 0xff 16 8 rfl, mask_eq_field inst 0xff 24 8 rfl,
    mask_eq_field inst 0x7ff 40 11 rfl, mask_eq_field inst 0x3 74 2 rfl,
    Sys.run_bind_ok (Sys.run_assert (source_check_passes inst) d)]
  simp only [al2pSum, Sys.bind_assoc]

/-- **`al2p` returns exactly when it works on 32 bits, both registers exist and three ids
are left.** -/
theorem al2p_returns (inst : BitVec 128) :
    (al2p build inst).Returns d
      (field inst 74 2 = 0 ∧ (IsRegister (field inst 24 8) ∧ Room build d.ir.nextId 3) ∧
        IsRegister (field inst 16 8))
      () (extend d (al2pInsts d.u32 d.regs d.ir.nextId inst) (d.ir.nextId + 1 + 1 + 1)) := by
  have hdone : extend d (al2pInsts d.u32 d.regs d.ir.nextId inst) (d.ir.nextId + 1 + 1 + 1) =
      extend (summed d inst) (storeInsts d.regs (field inst 16 8) (d.ir.nextId + 1 + 1))
        (d.ir.nextId + 1 + 1 + 1) := by
    unfold summed
    rw [extend_extend]
    rfl
  have hstore := storeReg_returns (summed d inst) (field inst 16 8) (d.ir.nextId + 1 + 1)
  intro b t
  rw [al2p_eq, hdone]
  exact Sys.Returns.bind (Sys.returns_assert d) (Sys.Returns.bind (al2pSum_returns build d inst)
    hstore) b t

/-- A nop is always emitted. -/
theorem nop_returns : nop.Returns d True () (extend d [⟨0, []⟩] d.ir.nextId) :=
  onIr_inst_returns ⟨0, []⟩ d

/-- The ids an instruction takes. -/
def idCost (inst : BitVec 128) : ℕ := if dispatch (opcode inst) = some .al2p then 3 else 0

/-- A translatable instruction is emitted when there is room for its ids. -/
theorem translate_returns {inst : BitVec 128} (h : Translatable inst) :
    (translate build inst).Returns d (Room build d.ir.nextId (idCost inst)) ()
      (extend d (emittedBy d.u32 d.regs d.ir.nextId inst) (idAfterInst d.ir.nextId inst)) := by
  unfold Model.Sm86.translate emittedBy idAfterInst idCost
  rcases h with (⟨hdispatch, hbop, hrd, hra⟩ | hdispatch) | hdispatch
  · rw [hdispatch, if_pos rfl]
    refine (al2p_returns build d inst).of_iff ?_
    exact ⟨fun hroom => ⟨hbop, ⟨hra, hroom⟩, hrd⟩, fun h => h.2.1.2⟩
  · rw [hdispatch]
    exact (nop_returns d).of_iff (iff_true_intro (room_zero build _))
  · rw [hdispatch]
    exact (onIr_inst_returns ⟨252, []⟩ d).of_iff (iff_true_intro (room_zero build _))

end Emission

/-! ## A list of instructions -/

/-- The ids of a list are counted instruction by instruction. -/
theorem al2pCount_cons (inst : BitVec 128) (insts : List (BitVec 128)) :
    3 * al2pCount (inst :: insts) = idCost inst + 3 * al2pCount insts := by
  unfold al2pCount idCost
  rw [List.countP_cons]
  by_cases hdispatch : dispatch (opcode inst) = some .al2p
  · simp only [hdispatch, beq_self_eq_true, if_true]
    omega
  · have hfalse : (dispatch (opcode inst) == some Handler.al2p) = false := by
      simpa using hdispatch
    rw [hfalse, if_neg hdispatch]
    simp

/-- An instruction moves the next id by its cost. -/
theorem idAfterInst_eq (next : UInt32) (inst : BitVec 128) :
    idAfterInst next inst = idAt next (idCost inst) := by
  unfold idAfterInst idCost
  split
  · next hdispatch =>
    rw [if_pos hdispatch]
    rfl
  · next hother =>
    rw [if_neg hother]
    rfl

/-- A list of instructions appends its instructions; nothing else of the decoder but the next
free id changes. -/
theorem translateAll_returns (build : Build) {insts : List (BitVec 128)}
    (h : ∀ inst ∈ insts, Translatable inst) (d : Decoder) :
    (translateAll build insts).Returns d (Room build d.ir.nextId (3 * al2pCount insts)) ()
      (extend d (translated d.u32 d.regs d.ir.nextId insts)
        (idAt d.ir.nextId (3 * al2pCount insts))) := by
  induction insts generalizing d with
  | nil =>
    have hnone : extend d (translated d.u32 d.regs d.ir.nextId []) d.ir.nextId = d := extend_nil d
    have hrun : (translateAll build []).run d = _ := congrArg (Prod.mk _) hnone.symm
    exact Sys.returns_of_run hrun (room_zero build _)
  | cons inst insts ih =>
    have hhead := translate_returns build d (h inst List.mem_cons_self)
    have htail := ih (fun i hi => h i (List.mem_cons_of_mem inst hi))
      (extend d (emittedBy d.u32 d.regs d.ir.nextId inst) (idAfterInst d.ir.nextId inst))
    have hroom : Room build d.ir.nextId (3 * al2pCount (inst :: insts)) ↔
        Room build d.ir.nextId (idCost inst) ∧
          Room build (idAfterInst d.ir.nextId inst) (3 * al2pCount insts) := by
      rw [al2pCount_cons, room_add_iff, idAfterInst_eq]
    have hnext : idAt d.ir.nextId (3 * al2pCount (inst :: insts)) =
        idAt (idAfterInst d.ir.nextId inst) (3 * al2pCount insts) := by
      rw [al2pCount_cons, idAfterInst_eq, idAt_add]
    have hboth : (translate build inst >>= fun _ => translateAll build insts).Returns d _ () _ :=
      Sys.Returns.bind hhead htail
    rw [extend_extend] at hboth
    rw [hnext]
    exact hboth.of_iff hroom

/-! ## The appended instructions -/

/-- An opcode in range with few enough operands can be encoded. -/
theorem encodable_of_opcode {opcode : UInt32} {operands : List UInt32}
    (hop : opcode.toNat < 2 ^ 16) (hpos : opcode ≠ 0) (hlen : operands.length ≤ 65534) :
    Encodable ⟨opcode, operands⟩ := ⟨hop, hlen, fun hzero => absurd hzero hpos⟩

/-- A load can be encoded. -/
theorem loadInst_encodable (u32 : UInt32) (vars : Vector UInt32 MAX_REG_COUNT) (reg : ℕ)
    (r : UInt32) : Encodable (loadInst u32 vars reg r) := by
  unfold loadInst
  split
  · exact encodable_of_opcode (by decide) (by decide) (by simp)
  · exact encodable_of_opcode (by decide) (by decide) (by simp)

/-- A store can be encoded. -/
theorem storeInsts_encodable (vars : Vector UInt32 MAX_REG_COUNT) (reg : ℕ) (val : UInt32) :
    ∀ i ∈ storeInsts vars reg val, Encodable i := by
  intro i hi
  unfold storeInsts at hi
  split at hi
  · rw [List.mem_singleton.mp hi]
    exact encodable_of_opcode (by decide) (by decide) (by simp)
  · cases hi

/-- What an instruction is translated to can be encoded. -/
theorem emittedBy_encodable (u32 : UInt32) (vars : Vector UInt32 MAX_REG_COUNT) (next : UInt32)
    (inst : BitVec 128) : ∀ i ∈ emittedBy u32 vars next inst, Encodable i := by
  intro i hi
  unfold emittedBy at hi
  split at hi
  · unfold al2pInsts at hi
    rcases List.mem_append.mp hi with hfixed | hstore
    · simp only [List.mem_cons, List.not_mem_nil, or_false] at hfixed
      rcases hfixed with rfl | rfl | rfl
      · exact loadInst_encodable u32 vars _ _
      · exact encodable_of_opcode (by decide) (by decide) (by simp)
      · exact encodable_of_opcode (by decide) (by decide) (by simp)
    · exact storeInsts_encodable vars _ _ i hstore
  · rw [List.mem_singleton.mp hi]
    exact encodable_of_opcode (by decide) (by decide) (by simp)
  · rw [List.mem_singleton.mp hi]
    exact ⟨by decide, by simp, fun _ => rfl⟩

/-- What a program is translated to can be encoded. -/
theorem translated_encodable (u32 : UInt32) (vars : Vector UInt32 MAX_REG_COUNT)
    (next : UInt32) (insts : List (BitVec 128)) :
    ∀ i ∈ translated u32 vars next insts, Encodable i := by
  induction insts generalizing next with
  | nil =>
    intro i hi
    cases hi
  | cons inst insts ih =>
    intro i hi
    rcases List.mem_append.mp hi with hhead | htail
    · exact emittedBy_encodable u32 vars next inst i hhead
    · exact ih _ i htail

/-- The declarations can be encoded. -/
theorem declared_encodable (next : UInt32) (d : Decoder) :
    ∀ i ∈ declared next (initDecls d), Encodable i := by
  intro i hi
  obtain ⟨c, hc, id, rfl⟩ := mem_declared hi
  obtain ⟨hop, hlen⟩ := initDecls_opcode d hc id
  have hsmall : ∀ op ∈ ([19, 20, 21, 22, 23, 32, 59] : List UInt32),
      op.toNat < 2 ^ 16 ∧ op ≠ 0 := by
    simp
  exact encodable_of_opcode (hsmall _ hop).1 (hsmall _ hop).2 (hlen.trans (by decide))

/-- The stream gains exactly the emitted instructions. -/
theorem appended_of_words {d d' : Decoder} {insts : List Inst}
    (hwords : d'.ir.words = d.ir.words ++ (insts.map Inst.words).flatten)
    (h : ∀ i ∈ insts, Encodable i) : appended d d' = some insts := by
  unfold appended
  rw [hwords, List.drop_left, Framing.unframe_flatten (frames_of_encodable h), Option.map_some,
    map_ofFrame_words h]

/-- What was appended is read back. -/
theorem appended_extend (d : Decoder) (next : UInt32) {insts : List Inst}
    (h : ∀ i ∈ insts, Encodable i) : appended d (extend d insts next) = some insts :=
  appended_of_words rfl h

/-! ## A whole run -/

/-- What `init` emits. -/
def declarations (d₀ : Decoder) : List Inst := declared d₀.ir.nextId (initDecls d₀)

/-- What a list emits behind `init`. -/
def translation (d₀ : Decoder) (insts : List (BitVec 128)) : List Inst :=
  translated (idAt d₀.ir.nextId 3) (initialised d₀).regs (idAt d₀.ir.nextId 304) insts

/-- The words after `init` end with the declarations. -/
theorem words_initialised (d₀ : Decoder) :
    (initialised d₀).ir.words =
      d₀.ir.words ++ ((declarations d₀).map Inst.words).flatten := by
  unfold initialised
  rw [declareAll_ir]
  rfl

/-- `init` appends the declarations. -/
theorem appended_initialised (d₀ : Decoder) :
    appended d₀ (initialised d₀) = some (declarations d₀) :=
  appended_of_words (words_initialised d₀) (declared_encodable _ d₀)

/-- A run returns while there are ids for `init` and for every `al2p`. -/
theorem run_returns {build : Build} {d₀ : Decoder} {insts : List (BitVec 128)}
    (h : ∀ inst ∈ insts, Translatable inst)
    (hroom : Room build d₀.ir.nextId (304 + 3 * al2pCount insts)) :
    ∃ d d', (init build).run d₀ = (.ok (), d) ∧
      (translateAll build insts).run d = (.ok (), d') := by
  obtain ⟨hinit, hinsts⟩ := room_add_iff.mp hroom
  rw [← nextId_initialised] at hinsts
  exact ⟨_, _, (init_returns d₀ build).run hinit,
    (translateAll_returns build h (initialised d₀)).run hinsts⟩

/-- The run lemma: a run that returns emitted the declarations and then the translation. -/
theorem appended_run {build : Build} {d₀ d d' : Decoder} {insts : List (BitVec 128)}
    (h : ∀ inst ∈ insts, Translatable inst) (hinit : (init build).run d₀ = (.ok (), d))
    (htranslate : (translateAll build insts).run d = (.ok (), d')) :
    d = initialised d₀ ∧ appended d₀ d' = some (declarations d₀ ++ translation d₀ insts) := by
  obtain ⟨-, -, rfl⟩ := (init_returns d₀ build () d).mp hinit
  obtain ⟨-, -, rfl⟩ := (translateAll_returns build h _ () d').mp htranslate
  refine ⟨rfl, appended_of_words ?_ ?_⟩
  · unfold translation
    rw [← u32_initialised, ← nextId_initialised, List.map_append, List.flatten_append,
      ← List.append_assoc, ← words_initialised]
    rfl
  · intro i hi
    rcases List.mem_append.mp hi with hdeclared | htranslated
    · exact declared_encodable _ d₀ i hdeclared
    · exact translated_encodable _ _ _ _ i htranslated

end Oboromi.Analysis.Sm86
