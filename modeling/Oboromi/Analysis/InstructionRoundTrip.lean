import Oboromi.Analysis.ModuleFraming
import Oboromi.Analysis.StringOperands
import Oboromi.Interface.SpirvInstructions

/-!
# Decoding what a method emits

Read by the operand table, the instruction a method emits is the one in its name
(`decodeInst_emitted`), with three exceptions.  `emit_spec_constant` writes the opcode of
`OpSpecConstantTrue`, `emit_constant_composite_typed` writes literals where
`OpConstantComposite` has ids, and a constant without a word of value is none.  Strings
survive because `encode_string` packs them as the format does (`encodeString_eq`), so that
their end is found whatever follows.
-/

set_option autoImplicit false

namespace Oboromi.Analysis.Spirv

open Oboromi.Lib
open Oboromi.Model.Spirv
open Oboromi.Interface.Spirv

/-! ## Strings -/

/-- A string operand is read back, and the operands behind it are left. -/
theorem decodeOperands_string {s : String} (hs : NulFree s) (op : Op) (rest : Rest)
    (kinds : List Operand) (ws : List UInt32) :
    decodeOperands op rest (.string :: kinds) (packedString s ++ ws) =
      (decodeOperands op rest kinds ws).map (Instruction.cons (.string s)) := by
  rw [packedString, decodeOperands,
    unpackString_packString (utf8Bytes_ne_zero hs)]
  simp [ofUtf8Bytes_utf8Bytes]

/-- A string that ends the instruction. -/
theorem decodeOperands_lastString {s : String} (hs : NulFree s) (op : Op) :
    decodeOperands op .nothing [.string] (packedString s) =
      some ⟨op, none, none, [.string s]⟩ := by
  have hdecode := decodeOperands_string hs op .nothing [] []
  rw [List.append_nil] at hdecode
  exact hdecode

/-! ## Literals -/

/-- The words of a 64-bit literal, low-order word first, determine it. -/
theorem toWords_uInt64_injective : Function.Injective (Literal.toWords : UInt64 → List UInt32) := by
  intro v w h
  simp only [Literal.toWords, List.cons.injEq, and_true] at h
  obtain ⟨hlow, hhigh⟩ := h
  have hlow := congrArg UInt32.toNat hlow
  have hhigh := congrArg UInt32.toNat hhigh
  simp only [UInt64.toNat_toUInt32, UInt64.toNat_shiftRight] at hlow hhigh
  apply UInt64.toNat_inj.mp
  have h32 : (32 : UInt64).toNat % 64 = 32 := rfl
  rw [h32, Nat.shiftRight_eq_div_pow, Nat.shiftRight_eq_div_pow] at hhigh
  have hv := v.toNat_lt
  have hw := w.toNat_lt
  omega

/-- The literal of `emit_constant_typed` can be read back at every type that has an encoding.
SOURCE: core/src/gpu/spirv.rs:30-69 -/
theorem literal_words_determine_value :
    Function.Injective (Literal.toWords : UInt8 → List UInt32) ∧
    Function.Injective (Literal.toWords : Int8 → List UInt32) ∧
    Function.Injective (Literal.toWords : UInt16 → List UInt32) ∧
    Function.Injective (Literal.toWords : Int16 → List UInt32) ∧
    Function.Injective (Literal.toWords : UInt32 → List UInt32) ∧
    Function.Injective (Literal.toWords : Int32 → List UInt32) ∧
    Function.Injective (Literal.toWords : F32 → List UInt32) ∧
    Function.Injective (Literal.toWords : UInt64 → List UInt32) ∧
    Function.Injective (Literal.toWords : Int64 → List UInt32) ∧
    Function.Injective (Literal.toWords : F64 → List UInt32) := by
  have h8 : Function.Injective UInt8.toUInt32 := by
    intro v w h
    simpa using congrArg UInt32.toUInt8 h
  have h16 : Function.Injective UInt16.toUInt32 := by
    intro v w h
    simpa using congrArg UInt32.toUInt16 h
  have hint8 : Function.Injective Int8.toUInt8 := by
    intro v w h
    simpa using congrArg UInt8.toInt8 h
  have hint16 : Function.Injective Int16.toUInt16 := by
    intro v w h
    simpa using congrArg UInt16.toInt16 h
  have hint32 : Function.Injective Int32.toUInt32 := by
    intro v w h
    simpa using congrArg UInt32.toInt32 h
  have hint64 : Function.Injective Int64.toUInt64 := by
    intro v w h
    simpa using congrArg UInt64.toInt64 h
  have hf32 : Function.Injective F32.toBits := by
    rintro ⟨v⟩ ⟨w⟩ rfl
    rfl
  have hf64 : Function.Injective F64.toBits := by
    rintro ⟨v⟩ ⟨w⟩ rfl
    rfl
  have hone : Function.Injective fun w : UInt32 => [w] := List.singleton_injective
  exact ⟨hone.comp h8, hone.comp (h8.comp hint8), hone.comp h16, hone.comp (h16.comp hint16), hone,
    hone.comp hint32, hone.comp hf32, toWords_uInt64_injective,
    toWords_uInt64_injective.comp hint64, toWords_uInt64_injective.comp hf64⟩

/-! ## One instruction -/

/-- The targets of a switch are read back. -/
theorem decodeTargets_pairWords (targets : List (UInt32 × UInt32)) :
    decodeTargets (pairWords targets) = some (targetArgs targets) := by
  induction targets with
  | nil => rfl
  | cons target targets ih =>
    have hwords : pairWords (target :: targets) = target.1 :: target.2 :: pairWords targets := rfl
    rw [hwords, decodeTargets, ih]
    rfl

/-- The sources of a phi are read back. -/
theorem map_id_pairWords (sources : List (UInt32 × UInt32)) :
    (pairWords sources).map Arg.id = sourceArgs sources := by
  simp [pairWords, sourceArgs, List.map_flatMap]

/-- The methods whose instruction is the one in their name: not `emit_spec_constant`, the constants
only if their value has a word, and `emit_constant_composite_typed` only if it writes no
literals. -/
def EncodesItsName : EmitCall → Prop
  | .emitSpecConstant _ _ => False
  | .emitConstant _ valueWords => valueWords ≠ []
  | @EmitCall.emitConstantTyped _ _ _ value => Literal.toWords value ≠ []
  | @EmitCall.emitConstantCompositeTyped _ _ _ constituents =>
    constituents.flatMap Literal.toWords = []
  | _ => True

/-- A constant of some words. -/
theorem decodeInst_constant {ty r : UInt32} {valueWords : List UInt32} (h : valueWords ≠ []) :
    decodeInst ⟨43, [ty, r] ++ valueWords⟩ =
      some ⟨.opConstant, some ty, some r, valueWords.map Arg.literal⟩ := by
  cases valueWords with
  | nil => exact absurd rfl h
  | cons w ws => rfl

/-- The one place where every method is compared with the instruction it names. -/
theorem decodeInst_emitted {call : EmitCall} {instruction : Option UInt32 → Instruction}
    {next : UInt32} {i : Inst} (hnamed : call.named = some instruction)
    (hemit : (call.effect.entry next).emitted = some i) (hnul : ∀ s ∈ call.strings, NulFree s)
    (hname : EncodesItsName call) :
    decodeInst i = some (instruction (call.effect.entry next).returned) := by
  cases call
  -- Strings.
  case emitExtension name =>
    cases hnamed
    cases hemit
    exact decodeOperands_lastString (hnul name List.mem_cons_self) .opExtension
  case emitExtInstImport name =>
    have hlast := decodeOperands_lastString (hnul name List.mem_cons_self) .opExtInstImport
    cases hnamed
    cases hemit
    exact congrArg (Option.map fun i => { i with result := some next }) hlast
  case emitEntryPoint execModel func name interfaces =>
    have hname := decodeOperands_string (hnul name List.mem_cons_self) .opEntryPoint .ids []
      interfaces
    cases hnamed
    cases hemit
    exact congrArg (Option.map (Instruction.cons (.literal execModel)))
      (congrArg (Option.map (Instruction.cons (.id func))) hname)
  case emitName target name =>
    have hlast := decodeOperands_lastString (hnul name List.mem_cons_self) .opName
    cases hnamed
    cases hemit
    exact congrArg (Option.map (Instruction.cons (.id target))) hlast
  case emitMemberName ty member name =>
    have hlast := decodeOperands_lastString (hnul name List.mem_cons_self) .opMemberName
    cases hnamed
    cases hemit
    exact congrArg (Option.map (Instruction.cons (.id ty)))
      (congrArg (Option.map (Instruction.cons (.literal member))) hlast)
  -- Pairs.
  case emitPhi ty sources =>
    cases hnamed
    cases hemit
    rw [← map_id_pairWords]
    rfl
  case emitSwitch selector default targets =>
    cases hnamed
    cases hemit
    have htargets : (Rest.literalLabelPairs.decode (pairWords targets)).map
        (fun operands => Instruction.mk .opSwitch none none operands) =
          some ⟨.opSwitch, none, none, targetArgs targets⟩ := by
      rw [Rest.decode, decodeTargets_pairWords]
      rfl
    exact congrArg (Option.map (Instruction.cons (.id selector)))
      (congrArg (Option.map (Instruction.cons (.id default))) htargets)
  -- The ones that may fail.
  case emitSpecConstant => exact hname.elim
  case emitConstant ty valueWords =>
    cases hnamed
    cases hemit
    exact decodeInst_constant hname
  case emitConstantTyped T lit ty value =>
    cases hnamed
    cases hemit
    exact decodeInst_constant hname
  case emitConstantCompositeTyped T lit ty constituents =>
    cases hnamed
    cases hemit
    have hempty : constituents.flatMap Literal.toWords = [] := hname
    rw [hempty]
    rfl
  case allocId => cases hnamed
  case finalize => cases hnamed
  all_goals
    cases hnamed
    cases hemit
    rfl

/-- The methods that miss their name do so whatever else their arguments are. -/
theorem decodeInst_emitted_ne {call : EmitCall} {instruction : Option UInt32 → Instruction}
    {next : UInt32} {i : Inst} (hnamed : call.named = some instruction)
    (hemit : (call.effect.entry next).emitted = some i) (hname : ¬ EncodesItsName call) :
    decodeInst i ≠ some (instruction (call.effect.entry next).returned) := by
  intro hdecode
  cases call
  case emitSpecConstant ty valueWords =>
    cases hnamed
    cases hemit
    -- The opcode is that of an instruction without operands.
    cases valueWords with
    | nil => cases hdecode
    | cons w ws => cases hdecode
  case emitConstant ty valueWords =>
    cases hnamed
    cases hemit
    rw [Decidable.not_not.mp hname] at hdecode
    cases hdecode
  case emitConstantTyped T lit ty value =>
    cases hnamed
    cases hemit
    rw [Decidable.not_not.mp hname] at hdecode
    cases hdecode
  case emitConstantCompositeTyped T lit ty constituents =>
    cases hnamed
    cases hemit
    have hargs := congrArg (Option.map Instruction.operands) hdecode
    have hkinds : (constituents.flatMap Literal.toWords).map Arg.id =
        (constituents.flatMap Literal.toWords).map Arg.literal := Option.some.inj hargs
    cases hwords : constituents.flatMap Literal.toWords with
    | nil => exact hname hwords
    | cons w ws =>
      rw [hwords] at hkinds
      cases hkinds
  case allocId => cases hnamed
  case finalize => cases hnamed
  all_goals exact hname trivial

/-! ## One call -/

/-- A call that names an instruction emits one. -/
theorem exists_emitted_of_named {call : EmitCall} {instruction : Option UInt32 → Instruction}
    (hnamed : call.named = some instruction) (next : UInt32) :
    ∃ i, (call.effect.entry next).emitted = some i := by
  cases call
  case allocId => cases hnamed
  case finalize => cases hnamed
  all_goals exact ⟨_, rfl⟩

/-- An instruction is read back from its words. -/
theorem decode_words {i : Inst} (hi : Encodable i) : decode i.words = decodeInst i := by
  have hcount := wordCount_headerWord hi.opcode hi.operands
  have hframe := hi.ofFrame_words
  unfold Inst.words at hframe ⊢
  rw [decode, if_pos hcount, hframe]

/-- **Instruction round trip.**  For every `emit_*` method and arguments with which it returns,
whose strings hold no NUL and whose words fit the 16-bit word count: the words it appends decode
to the instruction in its name, with its arguments and the returned id as the result, exactly
when it is not `emit_spec_constant`, if it is a constant its value has a word, and if it is
`emit_constant_composite_typed` its constituents have none.
SOURCE: core/src/gpu/spirv.rs:75-86, 193-236, 264-1083 -/
theorem emit_decodes_as_named_iff (build : Build) (call : EmitCall) (e e' : Emitter)
    (returned : Option UInt32) (instruction : Option UInt32 → Instruction)
    (hnamed : call.named = some instruction)
    (hrun : (execCall build call).run e = (.ok returned, e'))
    (hnul : ∀ s ∈ call.strings, NulFree s) (hsize : e'.words.length < e.words.length + 2 ^ 16) :
    DecodesAsNamed instruction returned e e' ↔ EncodesItsName call := by
  obtain ⟨hreturned, hafter⟩ := execCall_eq_ok hrun
  obtain ⟨i, hemit⟩ := exists_emitted_of_named hnamed e.nextId
  have hwords : e'.words = e.words ++ i.words := by
    rw [hafter]
    exact after_words hemit
  have hencodable : Encodable i := by
    obtain ⟨hopcode, hnop⟩ := emitted_opcode call e.nextId i hemit
    rw [hwords, List.length_append] at hsize
    have hlength : i.words.length = i.operands.length + 1 := rfl
    exact ⟨hopcode, by omega, hnop⟩
  have hdecode : decode i.words = decodeInst i := decode_words hencodable
  rw [hreturned]
  constructor
  · rintro ⟨appended, happended, hnames⟩
    by_contra hname
    have heq : i.words = appended := List.append_cancel_left (hwords.symm.trans happended)
    rw [heq] at hdecode
    exact decodeInst_emitted_ne hnamed hemit hname (hdecode.symm.trans hnames)
  · intro hname
    refine ⟨i.words, hwords, ?_⟩
    rw [hdecode]
    exact decodeInst_emitted hnamed hemit hnul hname

/-- An entry point with a name of four bytes, whose terminator takes a word of its own. -/
theorem emit_decodes_as_named_iff_main :
    ∃ e' : Emitter,
      (execCall .debug (.emitEntryPoint 5 4 "main" [7])).run Emitter.new = (.ok none, e') ∧
      decode e'.words =
        some ⟨.opEntryPoint, none, none, [.literal 5, .id 4, .string "main", .id 7]⟩ := by
  refine ⟨_, rfl, ?_⟩
  have hnul : ∀ s ∈ (EmitCall.emitEntryPoint 5 4 "main" [7]).strings, NulFree s := by
    simp [EmitCall.strings, NulFree]
  have hiff := emit_decodes_as_named_iff .debug (.emitEntryPoint 5 4 "main" [7]) Emitter.new _ none
    _ rfl rfl hnul (by decide)
  obtain ⟨appended, happended, hdecode⟩ := hiff.mpr trivial
  rw [happended]
  exact hdecode

/-- A specialization constant with value 7: the words are those of an `OpSpecConstantTrue` with
one operand too many, and do not decode. -/
theorem spec_constant_misses_its_name :
    ∃ (instruction : Option UInt32 → Instruction) (e' : Emitter),
      (EmitCall.emitSpecConstant 1 [7]).named = some instruction ∧
      (execCall .debug (.emitSpecConstant 1 [7])).run Emitter.new = (.ok (some 1), e') ∧
      e'.words.length < Emitter.new.words.length + 2 ^ 16 ∧
      ¬ DecodesAsNamed instruction (some 1) Emitter.new e' := by
  refine ⟨_, _, rfl, rfl, by decide, ?_⟩
  rintro ⟨appended, happended, hdecode⟩
  have hwords : appended = [0x00040030, 1, 1, 7] := happended.symm
  rw [hwords] at hdecode
  cases hdecode

end Oboromi.Analysis.Spirv
