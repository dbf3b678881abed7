import Oboromi.Lib.Framing
import Oboromi.Model.Spirv

/-!
# The operand grammar of SPIR-V

What a word of an instruction stands for, by the instruction's opcode: the operand table of
the SPIR-V core grammar for the instructions the emitter's methods write or name, independent
of the emitter's code.  `idOperands` collects the words at `<id>` positions and `resultId` the
word at the `Result <id>` position.  Optional memory operands, which no method writes, are left
out, and the literal of an `OpSwitch` target is one word, as it is for a selector of at most 32
bits.
-/

set_option autoImplicit false

namespace Oboromi.Interface.Spirv

open Oboromi.Lib
open Oboromi.Model.Spirv

/-- An instruction: its opcode and its operand words. -/
structure Inst where
  opcode : UInt32
  operands : List UInt32
  deriving DecidableEq, Repr

/-- The words of an instruction in the stream. -/
def Inst.words (i : Inst) : List UInt32 := headerWord i.opcode i.operands :: i.operands

/-! ## The stream of a module -/

/-- The five header words, with the given bound. -/
def headerWords (bound : UInt32) : List UInt32 := [MAGIC, VERSION, 0, bound, 0]

/-- The stream of a module: the header, then the instructions one after another. -/
def moduleWords (bound : UInt32) (insts : List Inst) : List UInt32 :=
  headerWords bound ++ (insts.map Inst.words).flatten

/-- The word count in a header's upper 16 bits. -/
def wordCount (header : UInt32) : ℕ := (header >>> 16).toNat

/-- The instruction a frame of the stream holds. -/
def Inst.ofFrame : List UInt32 → Inst
  | [] => ⟨0, []⟩
  | header :: operands => ⟨header &&& 0xFFFF, operands⟩

/-- Walk a stream from word 5 by the word count in each header. -/
def walk (words : List UInt32) : Option (List Inst) :=
  (Framing.unframe wordCount (words.drop 5)).map fun frames => frames.map Inst.ofFrame

/-- Read little-endian 32-bit words. -/
def readWords : List UInt8 → List UInt32
  | b₀ :: b₁ :: b₂ :: b₃ :: bytes =>
    UInt32.ofNat (b₀.toNat + 2 ^ 8 * b₁.toNat + 2 ^ 16 * b₂.toNat + 2 ^ 24 * b₃.toNat) ::
      readWords bytes
  | _ => []

/-! ## Operands -/

/-- What one operand of an instruction is. -/
inductive Operand where
  | resultType
  | result
  | id
  | literal
  | string
  deriving DecidableEq, Repr

/-- What follows the required operands of an instruction. -/
inductive Rest where
  | nothing
  | optionalId
  | ids
  | literals
  /-- An image operands mask, then the ids its bits announce. -/
  | imageOperands
  /-- The targets of a switch: a literal and a label each. -/
  | literalLabelPairs
  deriving DecidableEq, Repr

/-- The operands of an opcode. -/
structure Layout where
  required : List Operand
  rest : Rest
  deriving DecidableEq, Repr

/-- The operands of an opcode that has a result type and a result. -/
def typed (required : List Operand) (rest : Rest) : Layout :=
  ⟨.resultType :: .result :: required, rest⟩

/-- Miscellaneous, debug, extension, mode-setting and type instructions. -/
def moduleLayout : ℕ → Layout
  -- OpUndef
  | 1 => typed [] .nothing
  -- OpName, OpMemberName
  | 5 => ⟨[.id, .string], .nothing⟩
  | 6 => ⟨[.id, .literal, .string], .nothing⟩
  -- OpExtension, OpExtInstImport, OpExtInst
  | 10 => ⟨[.string], .nothing⟩
  | 11 => ⟨[.result, .string], .nothing⟩
  | 12 => typed [.id, .literal] .ids
  -- OpMemoryModel, OpEntryPoint, OpExecutionMode, OpCapability
  | 14 => ⟨[.literal, .literal], .nothing⟩
  | 15 => ⟨[.literal, .id, .string], .ids⟩
  | 16 => ⟨[.id, .literal], .literals⟩
  | 17 => ⟨[.literal], .nothing⟩
  -- OpTypeVoid, OpTypeBool, OpTypeInt, OpTypeFloat, OpTypeVector, OpTypeMatrix
  | 19 | 20 => ⟨[.result], .nothing⟩
  | 21 => ⟨[.result, .literal, .literal], .nothing⟩
  | 22 => ⟨[.result, .literal], .literals⟩
  | 23 | 24 => ⟨[.result, .id, .literal], .nothing⟩
  -- OpTypeImage, OpTypeSampler, OpTypeSampledImage
  | 25 =>
    ⟨[.result, .id, .literal, .literal, .literal, .literal, .literal, .literal], .literals⟩
  | 26 => ⟨[.result], .nothing⟩
  | 27 => ⟨[.result, .id], .nothing⟩
  -- OpTypeArray, OpTypeRuntimeArray, OpTypeStruct, OpTypePointer, OpTypeFunction
  | 28 => ⟨[.result, .id, .id], .nothing⟩
  | 29 => ⟨[.result, .id], .nothing⟩
  | 30 => ⟨[.result], .ids⟩
  | 32 => ⟨[.result, .literal, .id], .nothing⟩
  | 33 => ⟨[.result, .id], .ids⟩
  -- OpNop
  | _ => ⟨[], .nothing⟩

/-- Constants, functions, memory, annotations and composites. -/
def memoryLayout : ℕ → Layout
  -- OpConstantTrue, OpConstantFalse, OpConstant, OpConstantComposite
  | 41 | 42 => typed [] .nothing
  | 43 => typed [.literal] .literals
  | 44 => typed [] .ids
  -- OpSpecConstantTrue, OpSpecConstant
  | 48 => typed [] .nothing
  | 50 => typed [.literal] .literals
  -- OpFunction, OpFunctionParameter, OpFunctionCall
  | 54 => typed [.literal, .id] .nothing
  | 55 => typed [] .nothing
  | 57 => typed [.id] .ids
  -- OpVariable, OpLoad, OpStore, OpCopyMemory
  | 59 => typed [.literal] .optionalId
  | 61 => typed [.id] .nothing
  | 62 | 63 => ⟨[.id, .id], .nothing⟩
  -- OpAccessChain, OpInBoundsAccessChain
  | 65 | 66 => typed [.id] .ids
  -- OpDecorate, OpMemberDecorate, OpDecorationGroup, OpGroupDecorate
  | 71 => ⟨[.id, .literal], .literals⟩
  | 72 => ⟨[.id, .literal, .literal], .literals⟩
  | 73 => ⟨[.result], .nothing⟩
  | 74 => ⟨[.id], .ids⟩
  -- OpVectorShuffle, OpCompositeConstruct, OpCompositeExtract, OpCompositeInsert, OpCopyObject
  | 79 => typed [.id, .id] .literals
  | 80 => typed [] .ids
  | 81 => typed [.id] .literals
  | 82 => typed [.id, .id] .literals
  | 83 => typed [.id] .nothing
  -- OpFunctionEnd
  | _ => ⟨[], .nothing⟩

/-- Images, conversions and negations. -/
def imageLayout : ℕ → Layout
  -- OpSampledImage, OpImageSampleImplicitLod, OpImageSampleExplicitLod
  | 86 => typed [.id, .id] .nothing
  | 87 | 88 => typed [.id, .id] .imageOperands
  -- OpImageFetch, OpImageRead, OpImageWrite, OpImageQuerySizeLod
  | 95 | 98 => typed [.id, .id] .imageOperands
  | 99 => ⟨[.id, .id, .id], .imageOperands⟩
  | 103 => typed [.id, .id] .nothing
  -- OpImage, OpImageQuerySize, OpConvertFToU .. OpFConvert, OpBitcast, OpSNegate, OpFNegate
  | _ => typed [.id] .nothing

/-- Arithmetic, bits, relations and logic. -/
def arithmeticLayout : ℕ → Layout
  -- OpIsNan, OpIsInf, OpLogicalNot, OpNot, OpBitReverse, OpBitCount
  | 156 | 157 | 168 | 200 | 204 | 205 => typed [.id] .nothing
  -- OpSelect, OpBitFieldSExtract, OpBitFieldUExtract, OpBitFieldInsert
  | 169 | 202 | 203 => typed [.id, .id, .id] .nothing
  | 201 => typed [.id, .id, .id, .id] .nothing
  -- OpIAdd .. OpFMod, OpLogicalEqual .. OpLogicalAnd, OpIEqual .. OpFUnordGreaterThanEqual,
  -- OpShiftRightLogical .. OpBitwiseAnd
  | _ => typed [.id, .id] .nothing

/-- Derivatives, barriers and atomics. -/
def atomicLayout : ℕ → Layout
  -- OpControlBarrier, OpMemoryBarrier: scopes and memory semantics are ids
  | 224 => ⟨[.id, .id, .id], .nothing⟩
  | 225 => ⟨[.id, .id], .nothing⟩
  -- OpAtomicLoad, OpAtomicStore, OpAtomicExchange, OpAtomicCompareExchange
  | 227 => typed [.id, .id, .id] .nothing
  | 228 => ⟨[.id, .id, .id, .id], .nothing⟩
  | 229 => typed [.id, .id, .id, .id] .nothing
  | 230 => typed [.id, .id, .id, .id, .id, .id] .nothing
  -- OpAtomicIAdd .. OpAtomicXor
  | 234 | 235 | 236 | 237 | 238 | 239 | 240 | 241 | 242 =>
    typed [.id, .id, .id, .id] .nothing
  -- OpDPdx .. OpFwidthCoarse
  | _ => typed [.id] .nothing

/-- Control flow. -/
def controlLayout : ℕ → Layout
  -- OpPhi, OpLoopMerge, OpSelectionMerge, OpLabel
  | 245 => typed [] .ids
  | 246 => ⟨[.id, .id, .literal], .literals⟩
  | 247 => ⟨[.id, .literal], .nothing⟩
  | 248 => ⟨[.result], .nothing⟩
  -- OpBranch, OpBranchConditional, OpSwitch, OpReturnValue
  | 249 => ⟨[.id], .nothing⟩
  | 250 => ⟨[.id, .id, .id], .literals⟩
  | 251 => ⟨[.id, .id], .literalLabelPairs⟩
  | 254 => ⟨[.id], .nothing⟩
  -- OpKill, OpReturn, OpUnreachable
  | _ => ⟨[], .nothing⟩

/-- Non-uniform group operations. -/
def groupLayout : ℕ → Layout
  -- OpGroupNonUniformElect, Broadcast, BroadcastFirst, Ballot, Shuffle, ShuffleXor
  | 333 => typed [.id] .nothing
  | 337 | 345 | 346 => typed [.id, .id, .id] .nothing
  | 338 | 339 => typed [.id, .id] .nothing
  -- OpGroupNonUniformIAdd .. OpGroupNonUniformBitwiseXor: scope, group operation, value
  | _ => typed [.id, .literal, .id] .optionalId

/-- The operand table. -/
def layout (opcode : UInt32) : Layout :=
  let op := opcode.toNat
  if op ≤ 33 then moduleLayout op
  else if op ≤ 83 then memoryLayout op
  else if op ≤ 127 then imageLayout op
  else if op ≤ 205 then arithmeticLayout op
  else if op ≤ 242 then atomicLayout op
  else if op ≤ 255 then controlLayout op
  else groupLayout op

/-- Whether one of the four bytes of a word is the null terminator. -/
def hasNul (w : UInt32) : Bool := (toLeBytes w).any (· == 0)

/-- Skip a string operand: it ends with the first word that holds its null terminator. -/
def skipString : List UInt32 → List UInt32
  | [] => []
  | w :: ws => if hasNul w then ws else skipString ws

/-- Every second word, the labels of a switch's targets. -/
def labels : List UInt32 → List UInt32
  | _ :: label :: ws => label :: labels ws
  | _ => []

/-- The words at `<id>` positions behind the required operands. -/
def Rest.idWords : Rest → List UInt32 → List UInt32
  | .nothing, _ => []
  | .optionalId, ws => ws.take 1
  | .ids, ws => ws
  | .literals, _ => []
  | .imageOperands, ws => ws.drop 1
  | .literalLabelPairs, ws => labels ws

/-- The words at `<id>` positions, the result included. -/
def idsFrom (rest : Rest) : List Operand → List UInt32 → List UInt32
  | [], ws => rest.idWords ws
  | .string :: ks, ws => idsFrom rest ks (skipString ws)
  | .literal :: ks, _ :: ws => idsFrom rest ks ws
  | .resultType :: ks, w :: ws => w :: idsFrom rest ks ws
  | .result :: ks, w :: ws => w :: idsFrom rest ks ws
  | .id :: ks, w :: ws => w :: idsFrom rest ks ws
  | _ :: _, [] => []

/-- The words of an instruction that stand at `<id>` operand positions. -/
def idOperands (i : Inst) : List UInt32 :=
  idsFrom (layout i.opcode).rest (layout i.opcode).required i.operands

/-- The id an instruction defines: the word at its `Result <id>` position. -/
def resultId (i : Inst) : Option UInt32 := do
  let position ← (layout i.opcode).required.idxOf? .result
  i.operands[position]?

end Oboromi.Interface.Spirv
