import Oboromi.Analysis.EmitterRuns
import Oboromi.Analysis.ModuleValidation

/-!
# Framing of emitted modules

Every instruction of the log fits its header word (`Encodable`) once its operands do: the
opcodes of the emitter are 16-bit, and only `OpNop` has opcode 0.  A header word is then read
back exactly, so the stream of a run is a concatenation of frames, which `validate` walks to
its end and which `walk` cuts into the instructions of the log.
-/

set_option autoImplicit false

namespace Oboromi.Analysis.Spirv

open Oboromi.Lib
open Oboromi.Model.Spirv
open Oboromi.Interface.Spirv

/-! ## Instructions that fit their header -/

/-- The instruction's header word can be read back, and `validate` accepts it. -/
structure Encodable (i : Inst) : Prop where
  opcode : i.opcode.toNat < 2 ^ 16
  operands : i.operands.length ≤ 65534
  nop : i.opcode = 0 → i.operands = []

/-- An emitted opcode fits 16 bits, and opcode zero carries no operands. -/
theorem emitted_opcode (call : EmitCall) (next : UInt32) (i : Inst)
    (h : (call.effect.entry next).emitted = some i) :
    i.opcode.toNat < 2 ^ 16 ∧ (i.opcode = 0 → i.operands = []) := by
  cases call
  case emitNop =>
    cases h
    exact ⟨by decide, fun _ => rfl⟩
  all_goals cases h
  all_goals dsimp only
  all_goals exact ⟨by decide, fun hzero => absurd hzero (by decide)⟩

/-- Short enough emitted instructions can be encoded. -/
theorem emittedInsts_encodable {calls : List EmitCall}
    (hsize : ∀ i ∈ emittedInsts calls, i.operands.length ≤ 65534) :
    ∀ i ∈ emittedInsts calls, Encodable i := by
  intro i hi
  obtain ⟨call, -, id, -, hemit⟩ := mem_emittedInsts hi
  obtain ⟨hopcode, hnop⟩ := emitted_opcode call id i hemit
  exact ⟨hopcode, hsize i hi, hnop⟩

/-! ## Reading a header word back -/

/-- The word count keeps its low 16 bits only, and the opcode is untouched by it. -/
theorem headerWord_toNat {opcode : UInt32} (operands : List UInt32)
    (hop : opcode.toNat < 2 ^ 16) :
    (headerWord opcode operands).toNat =
      (1 + operands.length) % 2 ^ 16 * 2 ^ 16 + opcode.toNat := by
  have hmask : opcode.toNat &&& (0xFFFF : UInt32).toNat = opcode.toNat := by
    have hones : (0xFFFF : UInt32).toNat = 2 ^ 16 - 1 := rfl
    rw [hones, Nat.and_two_pow_sub_one_eq_mod, Nat.mod_eq_of_lt hop]
  have hcount : (UInt32.ofNat (1 + operands.length)).toNat = (1 + operands.length) % 2 ^ 32 :=
    UInt32.toNat_ofNat'
  have hshift : (UInt32.ofNat (1 + operands.length)).toNat <<< ((16 : UInt32).toNat % 32) % 2 ^ 32 =
      ((1 + operands.length) % 2 ^ 16) <<< 16 := by
    rw [hcount]
    change ((1 + operands.length) % 2 ^ 32) <<< 16 % 2 ^ 32 = _
    rw [Nat.shiftLeft_eq, Nat.shiftLeft_eq]
    omega
  unfold headerWord
  dsimp only
  rw [UInt32.toNat_or, UInt32.toNat_shiftLeft, UInt32.toNat_and, hmask, hshift,
    ← Nat.shiftLeft_add_eq_or_of_lt hop, Nat.shiftLeft_eq]

/-- The word count a header announces. -/
theorem wordCount_headerWord_mod {opcode : UInt32} (operands : List UInt32)
    (hop : opcode.toNat < 2 ^ 16) :
    wordCount (headerWord opcode operands) = (1 + operands.length) % 2 ^ 16 := by
  unfold wordCount
  rw [UInt32.toNat_shiftRight, headerWord_toNat operands hop]
  change (_ + _) >>> 16 = _
  rw [Nat.shiftRight_eq_div_pow]
  omega

/-- The header word carries the word count when it fits. -/
theorem wordCount_headerWord {opcode : UInt32} {operands : List UInt32}
    (hop : opcode.toNat < 2 ^ 16) (hlen : operands.length ≤ 65534) :
    wordCount (headerWord opcode operands) = operands.length + 1 := by
  rw [wordCount_headerWord_mod operands hop]
  omega

/-- The header word carries the opcode in its low half. -/
theorem opcode_headerWord {opcode : UInt32} (operands : List UInt32)
    (hop : opcode.toNat < 2 ^ 16) : headerWord opcode operands &&& 0xFFFF = opcode := by
  apply UInt32.toNat_inj.mp
  have hones : (0xFFFF : UInt32).toNat = 2 ^ 16 - 1 := rfl
  rw [UInt32.toNat_and, headerWord_toNat operands hop, hones, Nat.and_two_pow_sub_one_eq_mod]
  omega

/-- The words of an encodable instruction form one frame. -/
theorem Encodable.isFrame {i : Inst} (h : Encodable i) : Framing.IsFrame wordCount i.words := by
  refine ⟨_, _, rfl, ?_⟩
  rw [wordCount_headerWord h.opcode h.operands]
  rfl

/-- An encodable instruction is read back from its words. -/
theorem Encodable.ofFrame_words {i : Inst} (h : Encodable i) : Inst.ofFrame i.words = i := by
  have hopcode := opcode_headerWord i.operands h.opcode
  unfold Inst.words Inst.ofFrame
  dsimp only
  rw [hopcode]

/-- The words of encodable instructions are frames. -/
theorem frames_of_encodable {insts : List Inst} (h : ∀ i ∈ insts, Encodable i) :
    ∀ f ∈ insts.map Inst.words, Framing.IsFrame wordCount f := by
  intro f hf
  obtain ⟨i, hi, rfl⟩ := List.mem_map.mp hf
  exact (h i hi).isFrame

/-- Reading the frames of encodable instructions gives them back. -/
theorem map_ofFrame_words {insts : List Inst} (h : ∀ i ∈ insts, Encodable i) :
    (insts.map Inst.words).map Inst.ofFrame = insts := by
  calc (insts.map Inst.words).map Inst.ofFrame
      = insts.map fun i => Inst.ofFrame i.words := List.map_map
    _ = insts.map id := List.map_congr_left fun i hi => (h i hi).ofFrame_words
    _ = insts := List.map_id insts

/-! ## Walking the stream -/

/-- Walking the stream of a module gives its instructions back. -/
theorem walk_moduleWords {insts : List Inst} (h : ∀ i ∈ insts, Encodable i) (bound : UInt32) :
    walk (moduleWords bound insts) = some insts := by
  have hbody : (moduleWords bound insts).drop 5 = (insts.map Inst.words).flatten := rfl
  rw [walk, hbody, Framing.unframe_flatten (frames_of_encodable h), Option.map_some,
    map_ofFrame_words h]

/-- In encodable instructions every nop stands alone. -/
theorem nopsAlone_of_encodable {insts : List Inst} (h : ∀ i ∈ insts, Encodable i) :
    NopsAlone (insts.map Inst.words) := by
  intro header operands hmem hzero
  obtain ⟨i, hi, hwords⟩ := List.mem_map.mp hmem
  obtain ⟨rfl, rfl⟩ := List.cons.inj hwords
  rw [opcode_headerWord i.operands (h i hi).opcode] at hzero
  exact (h i hi).nop hzero

/-- The stream of a module with encodable instructions is valid. -/
theorem validate_moduleWords {e : Emitter} {insts : List Inst} {bound : UInt32}
    (hwords : e.words = moduleWords bound insts) (h : ∀ i ∈ insts, Encodable i) :
    e.validate = .ok () := by
  have hlength : 5 ≤ e.words.length := by
    rw [hwords, moduleWords, List.length_append]
    exact Nat.le_add_right 5 _
  have hbody : e.words.drop 5 = (insts.map Inst.words).flatten := by
    rw [hwords]
    rfl
  have hmagic : e.words[0]? = some MAGIC := by
    rw [hwords]
    rfl
  have hcut : CutsInto e.words (insts.map Inst.words) :=
    ⟨hbody, frames_of_encodable h, nopsAlone_of_encodable h⟩
  exact (validate_ok_iff e).mpr ⟨hlength, hmagic, _, hcut⟩

/-! ## Bytes -/

/-- Four little-endian bytes are read as the word they came from. -/
theorem readWords_toLeBytes (w : UInt32) (bytes : List UInt8) :
    readWords (toLeBytes w ++ bytes) = w :: readWords bytes := by
  have hw := w.toNat_lt
  have h₁ : (w >>> 8).toUInt8.toNat = w.toNat / 2 ^ 8 % 2 ^ 8 := by
    rw [UInt32.toNat_toUInt8, UInt32.toNat_shiftRight]
    exact congrArg (· % 2 ^ 8) (Nat.shiftRight_eq_div_pow _ _)
  have h₂ : (w >>> 16).toUInt8.toNat = w.toNat / 2 ^ 16 % 2 ^ 8 := by
    rw [UInt32.toNat_toUInt8, UInt32.toNat_shiftRight]
    exact congrArg (· % 2 ^ 8) (Nat.shiftRight_eq_div_pow _ _)
  have h₃ : (w >>> 24).toUInt8.toNat = w.toNat / 2 ^ 24 % 2 ^ 8 := by
    rw [UInt32.toNat_toUInt8, UInt32.toNat_shiftRight]
    exact congrArg (· % 2 ^ 8) (Nat.shiftRight_eq_div_pow _ _)
  have hsum : UInt32.ofNat (w.toUInt8.toNat + 2 ^ 8 * (w >>> 8).toUInt8.toNat +
      2 ^ 16 * (w >>> 16).toUInt8.toNat + 2 ^ 24 * (w >>> 24).toUInt8.toNat) = w := by
    apply UInt32.toNat_inj.mp
    rw [UInt32.toNat_ofNat', h₁, h₂, h₃, UInt32.toNat_toUInt8]
    omega
  rw [toLeBytes, List.cons_append, List.cons_append, List.cons_append, List.cons_append,
    List.nil_append, readWords, hsum]

/-- The bytes of an emitter are its words in little-endian order. -/
theorem toBytes_eq_flatMap (e : Emitter) : e.toBytes = e.words.flatMap toLeBytes := by
  have hfold (words : List UInt32) (out : List UInt8) :
      words.foldl (fun out w => out ++ toLeBytes w) out = out ++ words.flatMap toLeBytes := by
    induction words generalizing out with
    | nil => simp
    | cons w words ih => rw [List.foldl_cons, ih, List.flatMap_cons, List.append_assoc]
  exact hfold e.words []

/-- Reading the bytes back as little-endian words gives the stream. -/
theorem readWords_toBytes (e : Emitter) : readWords e.toBytes = e.words := by
  rw [toBytes_eq_flatMap]
  induction e.words with
  | nil => rfl
  | cons w words ih => rw [List.flatMap_cons, readWords_toLeBytes, ih]

/-! ## Modules -/

/-- **Framing round trip.**  For every list of calls whose instructions have at most 65534
operand words: a module that is emitted validates, walking it gives exactly the emitted
instructions in order, and its bytes read back as its words.  A release build always emits the
module; a debug build does when its argument checks pass and it does not run out of ids.
SOURCE: core/src/gpu/spirv.rs:211-258, 1090-1128 -/
theorem emitModule_round_trips (build : Build) (calls : List EmitCall)
    (hsize : ∀ i ∈ emittedInsts calls, i.operands.length ≤ 65534) :
    (∀ results e, (emitModule build calls).run Emitter.new = (.ok results, e) →
      e.validate = .ok () ∧ walk e.words = some (emittedInsts calls) ∧
        readWords e.toBytes = e.words) ∧
    (build = .release ∨
        (∀ call ∈ calls, call.asserts = true) ∧ allocations calls < 2 ^ 32 - 1 →
      ∃ results e, (emitModule build calls).run Emitter.new = (.ok results, e)) := by
  refine ⟨?_, emitModule_returns⟩
  intro results e hrun
  have hencodable := emittedInsts_encodable hsize
  obtain ⟨-, hwords⟩ := emitModule_stream hrun
  refine ⟨validate_moduleWords hwords hencodable, ?_, readWords_toBytes e⟩
  rw [hwords]
  exact walk_moduleWords hencodable _

/-- The minimal compute module of the source's own test. -/
theorem emitModule_round_trips_minimal :
    ∃ results e,
      (emitModule .debug [.emitCapability 1, .emitExtInstImport "GLSL.std.450",
        .emitMemoryModel 0 1, .emitTypeVoid, .emitTypeFunction 2 [], .emitFunction 2 0 3,
        .emitEntryPoint 5 4 "main" [], .emitExecutionMode 4 17 [64, 1, 1], .emitLabel,
        .emitReturn, .emitFunctionEnd]).run Emitter.new = (.ok results, e) ∧
      e.validate = .ok () := by
  have hmodule := emitModule_round_trips .debug [.emitCapability 1,
    .emitExtInstImport "GLSL.std.450", .emitMemoryModel 0 1, .emitTypeVoid,
    .emitTypeFunction 2 [], .emitFunction 2 0 3, .emitEntryPoint 5 4 "main" [],
    .emitExecutionMode 4 17 [64, 1, 1], .emitLabel, .emitReturn, .emitFunctionEnd] (by decide)
  obtain ⟨hvalid, hreturns⟩ := hmodule
  obtain ⟨results, e, hrun⟩ := hreturns (.inr ⟨by simp [EmitCall.asserts], by decide⟩)
  exact ⟨results, e, hrun, (hvalid results e hrun).1⟩

end Oboromi.Analysis.Spirv
