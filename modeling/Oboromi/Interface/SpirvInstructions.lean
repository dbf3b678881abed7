import Oboromi.Interface.EmitterCalls
import Oboromi.Lib.WordString

/-!
# SPIR-V instructions

The instructions the emitter's methods name, one `Op` for each, with the opcode numbers of
SPIR-V 1.5.  `decode` reads the words of one instruction by its operand layout: ids, literals
and strings, the result apart.  Parameters that a mask or an enumerant announces (of image
operands, execution modes, decorations and loop controls) are the rest of the instruction, as
the instruction tables of the format print them, and a literal number takes all words that are
left, one at least, since its width is the type's.

`EmitCall.named` says in the words of SPIR-V what a method promises: the instruction in its
name, with the method's arguments in order and the returned id as its result.
-/

set_option autoImplicit false

namespace Oboromi.Interface.Spirv

open Oboromi.Lib
open Oboromi.Model.Spirv

/-! ## Opcodes -/

/-- The instructions of SPIR-V that a method names, and `OpSpecConstantTrue`. -/
inductive Op where
  | opNop | opUndef | opName | opMemberName | opExtension | opExtInstImport | opExtInst
  | opMemoryModel | opEntryPoint | opExecutionMode | opCapability | opTypeVoid | opTypeBool
  | opTypeInt | opTypeFloat | opTypeVector | opTypeMatrix | opTypeImage | opTypeSampler
  | opTypeSampledImage | opTypeArray | opTypeRuntimeArray | opTypeStruct | opTypePointer
  | opTypeFunction
  | opConstantTrue | opConstantFalse | opConstant | opConstantComposite | opSpecConstantTrue
  | opSpecConstant | opFunction | opFunctionParameter | opFunctionEnd | opFunctionCall
  | opVariable | opLoad | opStore | opCopyMemory | opAccessChain | opInBoundsAccessChain
  | opDecorate | opMemberDecorate | opDecorationGroup | opGroupDecorate | opVectorShuffle
  | opCompositeConstruct | opCompositeExtract | opCompositeInsert | opCopyObject
  | opSampledImage | opImageSampleImplicitLod | opImageSampleExplicitLod | opImageFetch
  | opImageRead | opImageWrite | opImage | opImageQuerySizeLod | opImageQuerySize | opConvertFToU
  | opConvertFToS | opConvertSToF | opConvertUToF | opUConvert | opSConvert | opFConvert
  | opBitcast | opSNegate | opFNegate
  | opIAdd | opFAdd | opISub | opFSub | opIMul | opFMul | opUDiv | opSDiv | opFDiv | opUMod
  | opSRem | opSMod | opFRem | opFMod | opIsNan | opIsInf | opLogicalEqual | opLogicalNotEqual
  | opLogicalOr | opLogicalAnd | opLogicalNot | opSelect | opIEqual | opINotEqual
  | opUGreaterThan | opSGreaterThan | opUGreaterThanEqual | opSGreaterThanEqual | opULessThan
  | opSLessThan | opULessThanEqual | opSLessThanEqual | opFOrdEqual | opFUnordEqual
  | opFOrdNotEqual | opFUnordNotEqual | opFOrdLessThan | opFUnordLessThan | opFOrdGreaterThan
  | opFUnordGreaterThan | opFOrdLessThanEqual | opFUnordLessThanEqual | opFOrdGreaterThanEqual
  | opFUnordGreaterThanEqual | opShiftRightLogical | opShiftRightArithmetic | opShiftLeftLogical
  | opBitwiseOr | opBitwiseXor | opBitwiseAnd | opNot | opBitFieldInsert | opBitFieldSExtract
  | opBitFieldUExtract | opBitReverse | opBitCount
  | opDPdx | opDPdy | opFwidth | opDPdxFine | opDPdyFine | opFwidthFine | opDPdxCoarse
  | opDPdyCoarse | opFwidthCoarse | opControlBarrier | opMemoryBarrier | opAtomicLoad
  | opAtomicStore | opAtomicExchange | opAtomicCompareExchange | opAtomicIAdd | opAtomicISub
  | opAtomicSMin | opAtomicUMin | opAtomicSMax | opAtomicUMax | opAtomicAnd | opAtomicOr
  | opAtomicXor
  | opPhi | opLoopMerge | opSelectionMerge | opLabel | opBranch | opBranchConditional | opSwitch
  | opKill | opReturn | opReturnValue | opUnreachable
  | opGroupNonUniformElect | opGroupNonUniformBroadcast | opGroupNonUniformBroadcastFirst
  | opGroupNonUniformBallot | opGroupNonUniformShuffle | opGroupNonUniformShuffleXor
  | opGroupNonUniformIAdd | opGroupNonUniformFAdd | opGroupNonUniformSMin | opGroupNonUniformUMin
  | opGroupNonUniformFMin | opGroupNonUniformSMax | opGroupNonUniformUMax | opGroupNonUniformFMax
  | opGroupNonUniformBitwiseAnd | opGroupNonUniformBitwiseOr | opGroupNonUniformBitwiseXor
  deriving DecidableEq, Repr

/-- Miscellaneous, debug, extension, mode-setting and type instructions. -/
def moduleOp : ℕ → Option Op
  | 0 => some .opNop
  | 1 => some .opUndef
  | 5 => some .opName
  | 6 => some .opMemberName
  | 10 => some .opExtension
  | 11 => some .opExtInstImport
  | 12 => some .opExtInst
  | 14 => some .opMemoryModel
  | 15 => some .opEntryPoint
  | 16 => some .opExecutionMode
  | 17 => some .opCapability
  | 19 => some .opTypeVoid
  | 20 => some .opTypeBool
  | 21 => some .opTypeInt
  | 22 => some .opTypeFloat
  | 23 => some .opTypeVector
  | 24 => some .opTypeMatrix
  | 25 => some .opTypeImage
  | 26 => some .opTypeSampler
  | 27 => some .opTypeSampledImage
  | 28 => some .opTypeArray
  | 29 => some .opTypeRuntimeArray
  | 30 => some .opTypeStruct
  | 32 => some .opTypePointer
  | 33 => some .opTypeFunction
  | _ => none

/-- Constants, functions, memory, annotations and composites. -/
def memoryOp : ℕ → Option Op
  | 41 => some .opConstantTrue
  | 42 => some .opConstantFalse
  | 43 => some .opConstant
  | 44 => some .opConstantComposite
  | 48 => some .opSpecConstantTrue
  | 50 => some .opSpecConstant
  | 54 => some .opFunction
  | 55 => some .opFunctionParameter
  | 56 => some .opFunctionEnd
  | 57 => some .opFunctionCall
  | 59 => some .opVariable
  | 61 => some .opLoad
  | 62 => some .opStore
  | 63 => some .opCopyMemory
  | 65 => some .opAccessChain
  | 66 => some .opInBoundsAccessChain
  | 71 => some .opDecorate
  | 72 => some .opMemberDecorate
  | 73 => some .opDecorationGroup
  | 74 => some .opGroupDecorate
  | 79 => some .opVectorShuffle
  | 80 => some .opCompositeConstruct
  | 81 => some .opCompositeExtract
  | 82 => some .opCompositeInsert
  | 83 => some .opCopyObject
  | _ => none

/-- Images, conversions and negations. -/
def imageOp : ℕ → Option Op
  | 86 => some .opSampledImage
  | 87 => some .opImageSampleImplicitLod
  | 88 => some .opImageSampleExplicitLod
  | 95 => some .opImageFetch
  | 98 => some .opImageRead
  | 99 => some .opImageWrite
  | 100 => some .opImage
  | 103 => some .opImageQuerySizeLod
  | 104 => some .opImageQuerySize
  | 109 => some .opConvertFToU
  | 110 => some .opConvertFToS
  | 111 => some .opConvertSToF
  | 112 => some .opConvertUToF
  | 113 => some .opUConvert
  | 114 => some .opSConvert
  | 115 => some .opFConvert
  | 124 => some .opBitcast
  | 126 => some .opSNegate
  | 127 => some .opFNegate
  | _ => none

/-- Arithmetic, bits, relations and logic. -/
def arithmeticOp : ℕ → Option Op
  | 128 => some .opIAdd
  | 129 => some .opFAdd
  | 130 => some .opISub
  | 131 => some .opFSub
  | 132 => some .opIMul
  | 133 => some .opFMul
  | 134 => some .opUDiv
  | 135 => some .opSDiv
  | 136 => some .opFDiv
  | 137 => some .opUMod
  | 138 => some .opSRem
  | 139 => some .opSMod
  | 140 => some .opFRem
  | 141 => some .opFMod
  | 156 => some .opIsNan
  | 157 => some .opIsInf
  | 164 => some .opLogicalEqual
  | 165 => some .opLogicalNotEqual
  | 166 => some .opLogicalOr
  | 167 => some .opLogicalAnd
  | 168 => some .opLogicalNot
  | 169 => some .opSelect
  | 170 => some .opIEqual
  | 171 => some .opINotEqual
  | 172 => some .opUGreaterThan
  | 173 => some .opSGreaterThan
  | 174 => some .opUGreaterThanEqual
  | 175 => some .opSGreaterThanEqual
  | 176 => some .opULessThan
  | 177 => some .opSLessThan
  | 178 => some .opULessThanEqual
  | 179 => some .opSLessThanEqual
  | 180 => some .opFOrdEqual
  | 181 => some .opFUnordEqual
  | 182 => some .opFOrdNotEqual
  | 183 => some .opFUnordNotEqual
  | 184 => some .opFOrdLessThan
  | 185 => some .opFUnordLessThan
  | 186 => some .opFOrdGreaterThan
  | 187 => some .opFUnordGreaterThan
  | 188 => some .opFOrdLessThanEqual
  | 189 => some .opFUnordLessThanEqual
  | 190 => some .opFOrdGreaterThanEqual
  | 191 => some .opFUnordGreaterThanEqual
  | 194 => some .opShiftRightLogical
  | 195 => some .opShiftRightArithmetic
  | 196 => some .opShiftLeftLogical
  | 197 => some .opBitwiseOr
  | 198 => some .opBitwiseXor
  | 199 => some .opBitwiseAnd
  | 200 => some .opNot
  | 201 => some .opBitFieldInsert
  | 202 => some .opBitFieldSExtract
  | 203 => some .opBitFieldUExtract
  | 204 => some .opBitReverse
  | 205 => some .opBitCount
  | _ => none

/-- Derivatives, barriers and atomics. -/
def atomicOp : ℕ → Option Op
  | 207 => some .opDPdx
  | 208 => some .opDPdy
  | 209 => some .opFwidth
  | 210 => some .opDPdxFine
  | 211 => some .opDPdyFine
  | 212 => some .opFwidthFine
  | 213 => some .opDPdxCoarse
  | 214 => some .opDPdyCoarse
  | 215 => some .opFwidthCoarse
  | 224 => some .opControlBarrier
  | 225 => some .opMemoryBarrier
  | 227 => some .opAtomicLoad
  | 228 => some .opAtomicStore
  | 229 => some .opAtomicExchange
  | 230 => some .opAtomicCompareExchange
  | 234 => some .opAtomicIAdd
  | 235 => some .opAtomicISub
  | 236 => some .opAtomicSMin
  | 237 => some .opAtomicUMin
  | 238 => some .opAtomicSMax
  | 239 => some .opAtomicUMax
  | 240 => some .opAtomicAnd
  | 241 => some .opAtomicOr
  | 242 => some .opAtomicXor
  | _ => none

/-- Control flow. -/
def controlOp : ℕ → Option Op
  | 245 => some .opPhi
  | 246 => some .opLoopMerge
  | 247 => some .opSelectionMerge
  | 248 => some .opLabel
  | 249 => some .opBranch
  | 250 => some .opBranchConditional
  | 251 => some .opSwitch
  | 252 => some .opKill
  | 253 => some .opReturn
  | 254 => some .opReturnValue
  | 255 => some .opUnreachable
  | _ => none

/-- Non-uniform group operations. -/
def groupOp : ℕ → Option Op
  | 333 => some .opGroupNonUniformElect
  | 337 => some .opGroupNonUniformBroadcast
  | 338 => some .opGroupNonUniformBroadcastFirst
  | 339 => some .opGroupNonUniformBallot
  | 345 => some .opGroupNonUniformShuffle
  | 346 => some .opGroupNonUniformShuffleXor
  | 349 => some .opGroupNonUniformIAdd
  | 350 => some .opGroupNonUniformFAdd
  | 353 => some .opGroupNonUniformSMin
  | 354 => some .opGroupNonUniformUMin
  | 355 => some .opGroupNonUniformFMin
  | 356 => some .opGroupNonUniformSMax
  | 357 => some .opGroupNonUniformUMax
  | 358 => some .opGroupNonUniformFMax
  | 359 => some .opGroupNonUniformBitwiseAnd
  | 360 => some .opGroupNonUniformBitwiseOr
  | 361 => some .opGroupNonUniformBitwiseXor
  | _ => none

/-- The instruction of an opcode number. -/
def Op.ofOpcode (opcode : UInt32) : Option Op :=
  let op := opcode.toNat
  if op ≤ 33 then moduleOp op
  else if op ≤ 83 then memoryOp op
  else if op ≤ 127 then imageOp op
  else if op ≤ 205 then arithmeticOp op
  else if op ≤ 242 then atomicOp op
  else if op ≤ 255 then controlOp op
  else groupOp op

/-! ## Decoding -/

/-- An operand that is neither the result nor its type. -/
inductive Arg where
  | id (id : UInt32)
  | literal (word : UInt32)
  | string (s : String)
  deriving DecidableEq, Repr

/-- An instruction, whatever the order of its words. -/
structure Instruction where
  op : Op
  resultType : Option UInt32
  result : Option UInt32
  operands : List Arg
  deriving DecidableEq, Repr

/-- Put an operand before those an instruction has. -/
def Instruction.cons (arg : Arg) (i : Instruction) : Instruction :=
  { i with operands := arg :: i.operands }

/-- Image operands: a mask, then ids. -/
def imageArgs : List UInt32 → List Arg
  | [] => []
  | mask :: ids => .literal mask :: ids.map Arg.id

/-- The targets of a switch: a literal and a label each. -/
def decodeTargets : List UInt32 → Option (List Arg)
  | [] => some []
  | [_] => none
  | literal :: label :: ws =>
    (decodeTargets ws).map fun args => .literal literal :: .id label :: args

/-- What follows the required operands. -/
def Rest.decode : Rest → List UInt32 → Option (List Arg)
  | .nothing, [] => some []
  | .nothing, _ :: _ => none
  | .optionalId, [] => some []
  | .optionalId, [w] => some [.id w]
  | .optionalId, _ :: _ :: _ => none
  | .ids, ws => some (ws.map Arg.id)
  | .literals, ws => some (ws.map Arg.literal)
  | .imageOperands, ws => some (imageArgs ws)
  | .literalLabelPairs, ws => decodeTargets ws

/-- Read operand words by their kinds. -/
def decodeOperands (op : Op) (rest : Rest) : List Operand → List UInt32 → Option Instruction
  | [], ws => (rest.decode ws).map fun operands => ⟨op, none, none, operands⟩
  | .resultType :: kinds, w :: ws =>
    (decodeOperands op rest kinds ws).map fun i => { i with resultType := some w }
  | .result :: kinds, w :: ws =>
    (decodeOperands op rest kinds ws).map fun i => { i with result := some w }
  | .id :: kinds, w :: ws => (decodeOperands op rest kinds ws).map (Instruction.cons (.id w))
  | .literal :: kinds, w :: ws =>
    (decodeOperands op rest kinds ws).map (Instruction.cons (.literal w))
  | .string :: kinds, ws => do
    let unpacked ← unpackString ws
    let s ← ofUtf8Bytes unpacked.1
    (decodeOperands op rest kinds unpacked.2).map (Instruction.cons (.string s))
  | _ :: _, [] => none

/-- Read the operands of an opcode. -/
def decodeInst (i : Inst) : Option Instruction := do
  let op ← Op.ofOpcode i.opcode
  decodeOperands op (layout i.opcode).rest (layout i.opcode).required i.operands

/-- Read one instruction that takes up all of the words. -/
def decode : List UInt32 → Option Instruction
  | [] => none
  | header :: operands =>
    if wordCount header = operands.length + 1 then decodeInst (Inst.ofFrame (header :: operands))
    else none

/-! ## What the methods promise -/

/-- An instruction without a type, given the id a method returned. -/
def names (op : Op) (operands : List Arg) : Option (Option UInt32 → Instruction) :=
  some fun returned => ⟨op, none, returned, operands⟩

/-- An instruction with a type, given the id a method returned. -/
def namesTyped (op : Op) (ty : UInt32) (operands : List Arg) :
    Option (Option UInt32 → Instruction) :=
  some fun returned => ⟨op, some ty, returned, operands⟩

/-- The operands for the sources of a phi: a value and the block it comes from. -/
def sourceArgs (sources : List (UInt32 × UInt32)) : List Arg :=
  sources.flatMap fun source => [.id source.1, .id source.2]

/-- The operands for the targets of a switch. -/
def targetArgs (targets : List (UInt32 × UInt32)) : List Arg :=
  targets.flatMap fun target => [.literal target.1, .id target.2]

/-- The instruction an `emit_*` method names, as a function of the id it returned.  Values of
a Rust type are literals, also where the instruction wants ids. -/
def EmitCall.named : EmitCall → Option (Option UInt32 → Instruction)
  | .allocId | .finalize => none
  | .emitCapability cap => names .opCapability [.literal cap]
  | .emitExtension name => names .opExtension [.string name]
  | .emitExtInstImport name => names .opExtInstImport [.string name]
  | .emitMemoryModel addressing memory =>
    names .opMemoryModel [.literal addressing, .literal memory]
  | .emitEntryPoint execModel func name interfaces =>
    names .opEntryPoint ([.literal execModel, .id func, .string name] ++ interfaces.map Arg.id)
  | .emitExecutionMode entry mode literals =>
    names .opExecutionMode ([.id entry, .literal mode] ++ literals.map Arg.literal)
  | .emitName target name => names .opName [.id target, .string name]
  | .emitMemberName ty member name => names .opMemberName [.id ty, .literal member, .string name]
  | .emitDecorate target deco literals =>
    names .opDecorate ([.id target, .literal deco] ++ literals.map Arg.literal)
  | .emitMemberDecorate structType member deco literals =>
    names .opMemberDecorate ([.id structType, .literal member, .literal deco] ++ literals.map
      Arg.literal)
  | .emitDecorationGroup => names .opDecorationGroup []
  | .emitGroupDecorate group targets => names .opGroupDecorate ([.id group] ++ targets.map Arg.id)
  | .emitTypeVoid => names .opTypeVoid []
  | .emitTypeBool => names .opTypeBool []
  | .emitTypeInt width sign => names .opTypeInt [.literal width, .literal sign]
  | .emitTypeFloat width => names .opTypeFloat [.literal width]
  | .emitTypeVector componentType count => names .opTypeVector [.id componentType, .literal count]
  | .emitTypeMatrix columnType columns => names .opTypeMatrix [.id columnType, .literal columns]
  | .emitTypeImage sampledType dim depth arrayed ms sampled format =>
    names .opTypeImage [.id sampledType, .literal dim, .literal depth, .literal arrayed, .literal
      ms, .literal sampled, .literal format]
  | .emitTypeSampler => names .opTypeSampler []
  | .emitTypeSampledImage imageType => names .opTypeSampledImage [.id imageType]
  | .emitTypeArray elementType length => names .opTypeArray [.id elementType, .id length]
  | .emitTypeRuntimeArray elementType => names .opTypeRuntimeArray [.id elementType]
  | .emitTypeStruct members => names .opTypeStruct (members.map Arg.id)
  | .emitTypePointer storageClass pointeeType =>
    names .opTypePointer [.literal storageClass, .id pointeeType]
  | .emitTypeFunction returnType params =>
    names .opTypeFunction ([.id returnType] ++ params.map Arg.id)
  | .emitConstantTrue ty => namesTyped .opConstantTrue ty []
  | .emitConstantFalse ty => namesTyped .opConstantFalse ty []
  | .emitConstant ty valueWords => namesTyped .opConstant ty (valueWords.map Arg.literal)
  | @EmitCall.emitConstantTyped _ _ ty value =>
    namesTyped .opConstant ty ((Literal.toWords value).map Arg.literal)
  | .emitConstantComposite ty constituents =>
    namesTyped .opConstantComposite ty (constituents.map Arg.id)
  | @EmitCall.emitConstantCompositeTyped _ _ ty constituents =>
    namesTyped .opConstantComposite ty ((constituents.flatMap Literal.toWords).map Arg.literal)
  | .emitSpecConstant ty valueWords => namesTyped .opSpecConstant ty (valueWords.map Arg.literal)
  | .emitVariable ty storageClass => namesTyped .opVariable ty [.literal storageClass]
  | .emitVariableInit ty storageClass initializer =>
    namesTyped .opVariable ty [.literal storageClass, .id initializer]
  | .emitLoad ty pointer => namesTyped .opLoad ty [.id pointer]
  | .emitStore pointer value => names .opStore [.id pointer, .id value]
  | .emitAccessChain ty base indexes =>
    namesTyped .opAccessChain ty ([.id base] ++ indexes.map Arg.id)
  | .emitInBoundsAccessChain ty base indexes =>
    namesTyped .opInBoundsAccessChain ty ([.id base] ++ indexes.map Arg.id)
  | .emitCopyMemory target source => names .opCopyMemory [.id target, .id source]
  | .emitFunction returnType control funcType =>
    namesTyped .opFunction returnType [.literal control, .id funcType]
  | .emitFunctionParameter ty => namesTyped .opFunctionParameter ty []
  | .emitFunctionEnd => names .opFunctionEnd []
  | .emitFunctionCall resultType function args =>
    namesTyped .opFunctionCall resultType ([.id function] ++ args.map Arg.id)
  | .emitVectorShuffle ty v1 v2 components =>
    namesTyped .opVectorShuffle ty ([.id v1, .id v2] ++ components.map Arg.literal)
  | .emitCompositeConstruct ty constituents =>
    namesTyped .opCompositeConstruct ty (constituents.map Arg.id)
  | .emitCompositeExtract ty composite indexes =>
    namesTyped .opCompositeExtract ty ([.id composite] ++ indexes.map Arg.literal)
  | .emitCompositeInsert ty object composite indexes =>
    namesTyped .opCompositeInsert ty ([.id object, .id composite] ++ indexes.map Arg.literal)
  | .emitCopyObject ty operand => namesTyped .opCopyObject ty [.id operand]
  | .emitConvertFToU ty val => namesTyped .opConvertFToU ty [.id val]
  | .emitConvertFToS ty val => namesTyped .opConvertFToS ty [.id val]
  | .emitConvertSToF ty val => namesTyped .opConvertSToF ty [.id val]
  | .emitConvertUToF ty val => namesTyped .opConvertUToF ty [.id val]
  | .emitUConvert ty val => namesTyped .opUConvert ty [.id val]
  | .emitSConvert ty val => namesTyped .opSConvert ty [.id val]
  | .emitFConvert ty val => namesTyped .opFConvert ty [.id val]
  | .emitBitcast ty val => namesTyped .opBitcast ty [.id val]
  | .emitSnegate ty a => namesTyped .opSNegate ty [.id a]
  | .emitFnegate ty a => namesTyped .opFNegate ty [.id a]
  | .emitIadd ty a b => namesTyped .opIAdd ty [.id a, .id b]
  | .emitFadd ty a b => namesTyped .opFAdd ty [.id a, .id b]
  | .emitIsub ty a b => namesTyped .opISub ty [.id a, .id b]
  | .emitFsub ty a b => namesTyped .opFSub ty [.id a, .id b]
  | .emitImul ty a b => namesTyped .opIMul ty [.id a, .id b]
  | .emitFmul ty a b => namesTyped .opFMul ty [.id a, .id b]
  | .emitUdiv ty a b => namesTyped .opUDiv ty [.id a, .id b]
  | .emitSdiv ty a b => namesTyped .opSDiv ty [.id a, .id b]
  | .emitFdiv ty a b => namesTyped .opFDiv ty [.id a, .id b]
  | .emitUmod ty a b => namesTyped .opUMod ty [.id a, .id b]
  | .emitSrem ty a b => namesTyped .opSRem ty [.id a, .id b]
  | .emitSmod ty a b => namesTyped .opSMod ty [.id a, .id b]
  | .emitFrem ty a b => namesTyped .opFRem ty [.id a, .id b]
  | .emitFmod ty a b => namesTyped .opFMod ty [.id a, .id b]
  | .emitLogicalEqual ty a b => namesTyped .opLogicalEqual ty [.id a, .id b]
  | .emitLogicalNotEqual ty a b => namesTyped .opLogicalNotEqual ty [.id a, .id b]
  | .emitLogicalOr ty a b => namesTyped .opLogicalOr ty [.id a, .id b]
  | .emitLogicalAnd ty a b => namesTyped .opLogicalAnd ty [.id a, .id b]
  | .emitLogicalNot ty a => namesTyped .opLogicalNot ty [.id a]
  | .emitSelect ty cond a b => namesTyped .opSelect ty [.id cond, .id a, .id b]
  | .emitIequal ty a b => namesTyped .opIEqual ty [.id a, .id b]
  | .emitInotEqual ty a b => namesTyped .opINotEqual ty [.id a, .id b]
  | .emitUgreaterThan ty a b => namesTyped .opUGreaterThan ty [.id a, .id b]
  | .emitSgreaterThan ty a b => namesTyped .opSGreaterThan ty [.id a, .id b]
  | .emitUgreaterThanEqual ty a b => namesTyped .opUGreaterThanEqual ty [.id a, .id b]
  | .emitSgreaterThanEqual ty a b => namesTyped .opSGreaterThanEqual ty [.id a, .id b]
  | .emitUlessThan ty a b => namesTyped .opULessThan ty [.id a, .id b]
  | .emitSlessThan ty a b => namesTyped .opSLessThan ty [.id a, .id b]
  | .emitUlessThanEqual ty a b => namesTyped .opULessThanEqual ty [.id a, .id b]
  | .emitSlessThanEqual ty a b => namesTyped .opSLessThanEqual ty [.id a, .id b]
  | .emitFordEqual ty a b => namesTyped .opFOrdEqual ty [.id a, .id b]
  | .emitFunordEqual ty a b => namesTyped .opFUnordEqual ty [.id a, .id b]
  | .emitFordNotEqual ty a b => namesTyped .opFOrdNotEqual ty [.id a, .id b]
  | .emitFunordNotEqual ty a b => namesTyped .opFUnordNotEqual ty [.id a, .id b]
  | .emitFordLessThan ty a b => namesTyped .opFOrdLessThan ty [.id a, .id b]
  | .emitFunordLessThan ty a b => namesTyped .opFUnordLessThan ty [.id a, .id b]
  | .emitFordGreaterThan ty a b => namesTyped .opFOrdGreaterThan ty [.id a, .id b]
  | .emitFunordGreaterThan ty a b => namesTyped .opFUnordGreaterThan ty [.id a, .id b]
  | .emitFordLessThanEqual ty a b => namesTyped .opFOrdLessThanEqual ty [.id a, .id b]
  | .emitFunordLessThanEqual ty a b => namesTyped .opFUnordLessThanEqual ty [.id a, .id b]
  | .emitFordGreaterThanEqual ty a b => namesTyped .opFOrdGreaterThanEqual ty [.id a, .id b]
  | .emitFunordGreaterThanEqual ty a b => namesTyped .opFUnordGreaterThanEqual ty [.id a, .id b]
  | .emitFIsNan ty a => namesTyped .opIsNan ty [.id a]
  | .emitFIsInf ty a => namesTyped .opIsInf ty [.id a]
  | .emitIsNan ty a => namesTyped .opIsNan ty [.id a]
  | .emitIsInf ty a => namesTyped .opIsInf ty [.id a]
  | .emitShiftRightLogical ty base shift => namesTyped .opShiftRightLogical ty [.id base, .id shift]
  | .emitShiftRightArithmetic ty base shift =>
    namesTyped .opShiftRightArithmetic ty [.id base, .id shift]
  | .emitShiftLeftLogical ty base shift => namesTyped .opShiftLeftLogical ty [.id base, .id shift]
  | .emitBitwiseOr ty a b => namesTyped .opBitwiseOr ty [.id a, .id b]
  | .emitBitwiseXor ty a b => namesTyped .opBitwiseXor ty [.id a, .id b]
  | .emitBitwiseAnd ty a b => namesTyped .opBitwiseAnd ty [.id a, .id b]
  | .emitNot ty a => namesTyped .opNot ty [.id a]
  | .emitBitFieldInsert ty base insert offset count =>
    namesTyped .opBitFieldInsert ty [.id base, .id insert, .id offset, .id count]
  | .emitBitFieldSExtract ty base offset count =>
    namesTyped .opBitFieldSExtract ty [.id base, .id offset, .id count]
  | .emitBitFieldUExtract ty base offset count =>
    namesTyped .opBitFieldUExtract ty [.id base, .id offset, .id count]
  | .emitBitReverse ty a => namesTyped .opBitReverse ty [.id a]
  | .emitBitCount ty a => namesTyped .opBitCount ty [.id a]
  | .emitPhi ty sources => namesTyped .opPhi ty (sourceArgs sources)
  | .emitLoopMerge mergeBlock continueTarget control =>
    names .opLoopMerge [.id mergeBlock, .id continueTarget, .literal control]
  | .emitSelectionMerge mergeBlock control =>
    names .opSelectionMerge [.id mergeBlock, .literal control]
  | .emitLabel => names .opLabel []
  | .emitBranch target => names .opBranch [.id target]
  | .emitBranchConditional cond trueLabel falseLabel =>
    names .opBranchConditional [.id cond, .id trueLabel, .id falseLabel]
  | .emitSwitch selector default targets =>
    names .opSwitch ([.id selector, .id default] ++ targetArgs targets)
  | .emitReturn => names .opReturn []
  | .emitReturnValue value => names .opReturnValue [.id value]
  | .emitUnreachable => names .opUnreachable []
  | .emitControlBarrier execution memory semantics =>
    names .opControlBarrier [.id execution, .id memory, .id semantics]
  | .emitMemoryBarrier memory semantics => names .opMemoryBarrier [.id memory, .id semantics]
  | .emitExtInst ty set instruction operands =>
    namesTyped .opExtInst ty ([.id set, .literal instruction] ++ operands.map Arg.id)
  | .emitSampledImage ty image sampler => namesTyped .opSampledImage ty [.id image, .id sampler]
  | .emitImageSampleImplicitLod ty sampledImage coord operands =>
    namesTyped .opImageSampleImplicitLod ty ([.id sampledImage, .id coord] ++ imageArgs operands)
  | .emitImageSampleExplicitLod ty sampledImage coord imageOps operands =>
    namesTyped .opImageSampleExplicitLod ty ([.id sampledImage, .id coord, .literal imageOps] ++
      operands.map Arg.id)
  | .emitImageFetch ty image coord operands =>
    namesTyped .opImageFetch ty ([.id image, .id coord] ++ imageArgs operands)
  | .emitImageRead ty image coord operands =>
    namesTyped .opImageRead ty ([.id image, .id coord] ++ imageArgs operands)
  | .emitImageWrite image coord texel operands =>
    names .opImageWrite ([.id image, .id coord, .id texel] ++ imageArgs operands)
  | .emitImage ty sampledImage => namesTyped .opImage ty [.id sampledImage]
  | .emitImageQuerySizeLod ty image lod => namesTyped .opImageQuerySizeLod ty [.id image, .id lod]
  | .emitImageQuerySize ty image => namesTyped .opImageQuerySize ty [.id image]
  | .emitAtomicLoad ty pointer scope semantics =>
    namesTyped .opAtomicLoad ty [.id pointer, .id scope, .id semantics]
  | .emitAtomicStore pointer scope semantics value =>
    names .opAtomicStore [.id pointer, .id scope, .id semantics, .id value]
  | .emitAtomicExchange ty pointer scope semantics value =>
    namesTyped .opAtomicExchange ty [.id pointer, .id scope, .id semantics, .id value]
  | .emitAtomicCompareExchange ty pointer scope equalSem unequalSem value comparator =>
    namesTyped .opAtomicCompareExchange ty [.id pointer, .id scope, .id equalSem, .id unequalSem,
      .id value, .id comparator]
  | .emitAtomicIadd ty pointer scope semantics value =>
    namesTyped .opAtomicIAdd ty [.id pointer, .id scope, .id semantics, .id value]
  | .emitAtomicIsub ty pointer scope semantics value =>
    namesTyped .opAtomicISub ty [.id pointer, .id scope, .id semantics, .id value]
  | .emitAtomicSmin ty pointer scope semantics value =>
    namesTyped .opAtomicSMin ty [.id pointer, .id scope, .id semantics, .id value]
  | .emitAtomicUmin ty pointer scope semantics value =>
    namesTyped .opAtomicUMin ty [.id pointer, .id scope, .id semantics, .id value]
  | .emitAtomicSmax ty pointer scope semantics value =>
    namesTyped .opAtomicSMax ty [.id pointer, .id scope, .id semantics, .id value]
  | .emitAtomicUmax ty pointer scope semantics value =>
    namesTyped .opAtomicUMax ty [.id pointer, .id scope, .id semantics, .id value]
  | .emitAtomicAnd ty pointer scope semantics value =>
    namesTyped .opAtomicAnd ty [.id pointer, .id scope, .id semantics, .id value]
  | .emitAtomicOr ty pointer scope semantics value =>
    namesTyped .opAtomicOr ty [.id pointer, .id scope, .id semantics, .id value]
  | .emitAtomicXor ty pointer scope semantics value =>
    namesTyped .opAtomicXor ty [.id pointer, .id scope, .id semantics, .id value]
  | .emitDpdx ty p => namesTyped .opDPdx ty [.id p]
  | .emitDpdy ty p => namesTyped .opDPdy ty [.id p]
  | .emitFwidth ty p => namesTyped .opFwidth ty [.id p]
  | .emitDpdxFine ty p => namesTyped .opDPdxFine ty [.id p]
  | .emitDpdyFine ty p => namesTyped .opDPdyFine ty [.id p]
  | .emitFwidthFine ty p => namesTyped .opFwidthFine ty [.id p]
  | .emitDpdxCoarse ty p => namesTyped .opDPdxCoarse ty [.id p]
  | .emitDpdyCoarse ty p => namesTyped .opDPdyCoarse ty [.id p]
  | .emitFwidthCoarse ty p => namesTyped .opFwidthCoarse ty [.id p]
  | .emitGroupNonUniformElect ty scope => namesTyped .opGroupNonUniformElect ty [.id scope]
  | .emitGroupNonUniformBroadcast ty scope value id =>
    namesTyped .opGroupNonUniformBroadcast ty [.id scope, .id value, .id id]
  | .emitGroupNonUniformBroadcastFirst ty scope value =>
    namesTyped .opGroupNonUniformBroadcastFirst ty [.id scope, .id value]
  | .emitGroupNonUniformBallot ty scope predicate =>
    namesTyped .opGroupNonUniformBallot ty [.id scope, .id predicate]
  | .emitGroupNonUniformShuffle ty scope value id =>
    namesTyped .opGroupNonUniformShuffle ty [.id scope, .id value, .id id]
  | .emitGroupNonUniformShuffleXor ty scope value mask =>
    namesTyped .opGroupNonUniformShuffleXor ty [.id scope, .id value, .id mask]
  | .emitGroupNonUniformIadd ty scope op value =>
    namesTyped .opGroupNonUniformIAdd ty [.id scope, .literal op, .id value]
  | .emitGroupNonUniformFadd ty scope op value =>
    namesTyped .opGroupNonUniformFAdd ty [.id scope, .literal op, .id value]
  | .emitGroupNonUniformSmin ty scope op value =>
    namesTyped .opGroupNonUniformSMin ty [.id scope, .literal op, .id value]
  | .emitGroupNonUniformUmin ty scope op value =>
    namesTyped .opGroupNonUniformUMin ty [.id scope, .literal op, .id value]
  | .emitGroupNonUniformFmin ty scope op value =>
    namesTyped .opGroupNonUniformFMin ty [.id scope, .literal op, .id value]
  | .emitGroupNonUniformSmax ty scope op value =>
    namesTyped .opGroupNonUniformSMax ty [.id scope, .literal op, .id value]
  | .emitGroupNonUniformUmax ty scope op value =>
    namesTyped .opGroupNonUniformUMax ty [.id scope, .literal op, .id value]
  | .emitGroupNonUniformFmax ty scope op value =>
    namesTyped .opGroupNonUniformFMax ty [.id scope, .literal op, .id value]
  | .emitGroupNonUniformBitwiseAnd ty scope op value =>
    namesTyped .opGroupNonUniformBitwiseAnd ty [.id scope, .literal op, .id value]
  | .emitGroupNonUniformBitwiseOr ty scope op value =>
    namesTyped .opGroupNonUniformBitwiseOr ty [.id scope, .literal op, .id value]
  | .emitGroupNonUniformBitwiseXor ty scope op value =>
    namesTyped .opGroupNonUniformBitwiseXor ty [.id scope, .literal op, .id value]
  | .emitNop => names .opNop []
  | .emitUndef ty => namesTyped .opUndef ty []
  | .emitKill => names .opKill []

/-- The strings among the arguments of a call. -/
def EmitCall.strings : EmitCall → List String
  | .emitExtension name | .emitExtInstImport name | .emitEntryPoint _ _ name _
  | .emitName _ name | .emitMemberName _ _ name => [name]
  | _ => []

/-- The words a call appends decode to the instruction it names, with its arguments and the
returned id. -/
def DecodesAsNamed (instruction : Option UInt32 → Instruction) (returned : Option UInt32)
    (e e' : Emitter) : Prop :=
  ∃ appended, e'.words = e.words ++ appended ∧ decode appended = some (instruction returned)

end Oboromi.Interface.Spirv
