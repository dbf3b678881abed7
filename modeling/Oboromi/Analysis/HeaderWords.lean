import Oboromi.Analysis.ModuleFraming
import Oboromi.Analysis.StringOperands

/-!
# The word count in a header

The count of an instruction's words is shifted into the upper half of its header and keeps 16
bits there.  Only an instruction that holds a string or a list can outgrow them, so whether the
header of a call is right can be told from the sizes of its arguments.
-/

set_option autoImplicit false

namespace Oboromi.Analysis.Spirv

open Oboromi.Lib
open Oboromi.Model.Spirv
open Oboromi.Interface.Spirv

/-! ## The operands of a call -/

/-- The operand words of a call that takes a string or a list; of any other call, none of its
few operands is counted. -/
def growingOperands : EmitCall → ℕ
  | .emitExtension name => stringWords name
  | .emitExtInstImport name => 1 + stringWords name
  | .emitEntryPoint _ _ name interfaces => 2 + stringWords name + interfaces.length
  | .emitExecutionMode _ _ literals => 2 + literals.length
  | .emitName _ name => 1 + stringWords name
  | .emitMemberName _ _ name => 2 + stringWords name
  | .emitDecorate _ _ literals => 2 + literals.length
  | .emitMemberDecorate _ _ _ literals => 3 + literals.length
  | .emitGroupDecorate _ targets => 1 + targets.length
  | .emitTypeStruct members => 1 + members.length
  | .emitTypeFunction _ params => 2 + params.length
  | .emitConstant _ valueWords => 2 + valueWords.length
  | @EmitCall.emitConstantTyped _ _ _ value => 2 + (Literal.toWords value).length
  | .emitConstantComposite _ constituents => 2 + constituents.length
  | @EmitCall.emitConstantCompositeTyped _ _ _ constituents =>
    2 + (constituents.map fun c => (Literal.toWords c).length).sum
  | .emitSpecConstant _ valueWords => 2 + valueWords.length
  | .emitAccessChain _ _ indexes => 3 + indexes.length
  | .emitInBoundsAccessChain _ _ indexes => 3 + indexes.length
  | .emitFunctionCall _ _ args => 3 + args.length
  | .emitVectorShuffle _ _ _ components => 4 + components.length
  | .emitCompositeConstruct _ constituents => 2 + constituents.length
  | .emitCompositeExtract _ _ indexes => 3 + indexes.length
  | .emitCompositeInsert _ _ _ indexes => 4 + indexes.length
  | .emitPhi _ sources => 2 + 2 * sources.length
  | .emitSwitch _ _ targets => 2 + 2 * targets.length
  | .emitExtInst _ _ _ operands => 4 + operands.length
  | .emitImageSampleImplicitLod _ _ _ operands => 4 + operands.length
  | .emitImageSampleExplicitLod _ _ _ _ operands => 5 + operands.length
  | .emitImageFetch _ _ _ operands => 4 + operands.length
  | .emitImageRead _ _ _ operands => 4 + operands.length
  | .emitImageWrite _ _ _ operands => 3 + operands.length
  | _ => 0

/-- The call's words fit the 16 bits of a word count, its header included. -/
def Representable (call : EmitCall) : Prop := growingOperands call ≤ 65534

instance (call : EmitCall) : Decidable (Representable call) :=
  inferInstanceAs (Decidable (growingOperands call ≤ 65534))

/-- The opcode a call emits. -/
def opcodeOf (call : EmitCall) : Option UInt32 := (call.effect.entry 0).emitted.map Inst.opcode

/-- A call that emits an instruction pushed a header with the opcode and the count of all words
it pushed. -/
def HeaderIsRight (call : EmitCall) (e e' : Emitter) : Prop :=
  ∀ opcode, opcodeOf call = some opcode →
    ∃ header operands, e'.words = e.words ++ header :: operands ∧
      wordCount header = 1 + operands.length ∧ header &&& 0xFFFF = opcode

/-! ## Counting them -/

/-- A pair has two words. -/
theorem length_pairWords (pairs : List (UInt32 × UInt32)) :
    (pairWords pairs).length = 2 * pairs.length := by
  induction pairs with
  | nil => rfl
  | cons pair pairs ih =>
    unfold pairWords at ih ⊢
    rw [List.flatMap_cons, List.length_append, ih, List.length_cons]
    simp only [List.length_cons, List.length_nil]
    omega

/-- An instruction has the counted operands, or it has at most eight. -/
theorem length_operands {call : EmitCall} {next : UInt32} {i : Inst}
    (hemit : (call.effect.entry next).emitted = some i) :
    i.operands.length = growingOperands call ∨
      growingOperands call = 0 ∧ i.operands.length ≤ 8 := by
  cases call
  case allocId => cases hemit
  case finalize => cases hemit
  all_goals cases hemit
  all_goals first
    | exact .inr ⟨rfl, Nat.le_of_ble_eq_true rfl⟩
    | left
      simp only [growingOperands, List.length_append, List.length_cons, List.length_nil,
        length_packedString, length_pairWords, List.length_flatMap]

/-- The opcode of a call does not depend on the id it takes. -/
theorem opcodeOf_eq (call : EmitCall) (next : UInt32) :
    opcodeOf call = (call.effect.entry next).emitted.map Inst.opcode := by
  unfold opcodeOf
  cases call <;> rfl

/-- A call's instruction can be counted in its header when it has at most 65534 operand words. -/
theorem representable_iff {call : EmitCall} {next : UInt32} {i : Inst}
    (hemit : (call.effect.entry next).emitted = some i) :
    Representable call ↔ i.operands.length ≤ 65534 := by
  unfold Representable
  rcases length_operands hemit with hlen | ⟨hnone, hfew⟩
  · rw [hlen]
  · omega

/-- A call that emits nothing takes no lists. -/
theorem representable_of_none {call : EmitCall} {next : UInt32}
    (hemit : (call.effect.entry next).emitted = none) : Representable call := by
  cases call
  case allocId => exact Nat.zero_le _
  case finalize => exact Nat.zero_le _
  all_goals cases hemit

/-! ## The header of a call -/

/-- The header of an instruction counts its words exactly when they fit 16 bits. -/
theorem headerIsRight_iff {call : EmitCall} {e e' : Emitter} {i : Inst}
    (hemit : (call.effect.entry e.nextId).emitted = some i)
    (hwords : e'.words = e.words ++ i.words) :
    HeaderIsRight call e e' ↔ i.operands.length ≤ 65534 := by
  have hopcode : opcodeOf call = some i.opcode := by
    rw [opcodeOf_eq call e.nextId, hemit]
    rfl
  have hop := (emitted_opcode call e.nextId i hemit).1
  have hcount := wordCount_headerWord_mod i.operands hop
  constructor
  · intro h
    obtain ⟨header, operands, hsplit, hheader, -⟩ := h i.opcode hopcode
    have hcons : i.words = header :: operands :=
      List.append_cancel_left (hwords.symm.trans hsplit)
    obtain ⟨rfl, rfl⟩ := List.cons.inj hcons
    rw [hcount] at hheader
    omega
  · intro hlen opcode hopcode'
    have heq : i.opcode = opcode := Option.some.inj (hopcode.symm.trans hopcode')
    refine ⟨headerWord i.opcode i.operands, i.operands, hwords, ?_, ?_⟩
    · rw [hcount]
      omega
    · rw [opcode_headerWord i.operands hop, heq]

/-- **The header that a call pushes is right exactly when its instruction has at most 65534
operand words.**
SOURCE: core/src/gpu/spirv.rs:208-215 -/
theorem header_word_count_iff (build : Build) (call : EmitCall) (e e' : Emitter)
    (result : Option UInt32) (hrun : (execCall build call).run e = (.ok result, e')) :
    HeaderIsRight call e e' ↔ Representable call := by
  obtain ⟨-, rfl⟩ := execCall_eq_ok hrun
  cases hemit : (call.effect.entry e.nextId).emitted with
  | none =>
    refine iff_of_true ?_ (representable_of_none hemit)
    intro opcode hopcode
    rw [opcodeOf_eq call e.nextId, hemit] at hopcode
    cases hopcode
  | some i =>
    rw [headerIsRight_iff hemit (after_words hemit), representable_iff hemit]

/-- A name of eight bytes on an id. -/
theorem header_word_count_iff_name :
    ∃ e', (execCall .debug (.emitName 7 "fragment")).run Emitter.new = (.ok none, e') ∧
      HeaderIsRight (.emitName 7 "fragment") Emitter.new e' := by
  refine ⟨_, rfl, ?_⟩
  exact (header_word_count_iff .debug (.emitName 7 "fragment") Emitter.new _ none rfl).mpr
    (by decide)

/-- The header of a struct with 65534 members announces no words at all. -/
theorem wide_struct_truncated :
    ∃ e', (execCall .release (.emitTypeStruct (List.replicate 65534 1))).run Emitter.new =
        (.ok (some 1), e') ∧
      e'.words.head? = some 0x0000001E ∧
      ¬ HeaderIsRight (.emitTypeStruct (List.replicate 65534 1)) Emitter.new e' := by
  have hlen (n : ℕ) : ([1] ++ List.replicate n (1 : UInt32)).length = n + 1 := by simp
  refine ⟨_, execCall_run (.inl rfl), ?_, ?_⟩
  · have hheader : headerWord 30 ([1] ++ List.replicate 65534 1) = 0x0000001E := by
      unfold headerWord
      rw [hlen]
      rfl
    exact congrArg some hheader
  · rw [headerIsRight_iff rfl rfl]
    show ¬ ([1] ++ List.replicate 65534 (1 : UInt32)).length ≤ 65534
    rw [hlen]
    omega

end Oboromi.Analysis.Spirv
