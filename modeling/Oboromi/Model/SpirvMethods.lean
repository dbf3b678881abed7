import Oboromi.Model.Spirv

/-!
# The emit methods

One definition for each `emit_*` method of the emitter, in the order of the source.  The
operand list of an instruction is written as the source builds it: a literal slice, or a
vector extended by a slice, a string, a literal's words or the pairs of a list.
-/

set_option autoImplicit false

namespace Oboromi.Model.Spirv

open Oboromi.Lib

/-- Push both halves of every pair, as the loops of `emit_phi` and `emit_switch` do. -/
def pushPairs (data : List UInt32) (pairs : List (UInt32 × UInt32)) : List UInt32 :=
  pairs.foldl (fun data (first, second) => data ++ [first] ++ [second]) data

variable (build : Build)

/-! ## Capability, extension, mode

SOURCE: core/src/gpu/spirv.rs:264-297 -/

def emitCapability (cap : UInt32) : Sys Emitter Unit := inst 17 [cap]

def emitExtension (name : String) : Sys Emitter Unit := inst 10 (encodeString [] name)

def emitExtInstImport (name : String) : Sys Emitter UInt32 := do
  let r ← allocId build
  inst 11 (encodeString [r] name)
  return r

def emitMemoryModel (addressing memory : UInt32) : Sys Emitter Unit := inst 14 [addressing, memory]

def emitEntryPoint (execModel func : UInt32) (name : String) (interfaces : List UInt32) :
    Sys Emitter Unit :=
  inst 15 (encodeString [execModel, func] name ++ interfaces)

def emitExecutionMode (entry mode : UInt32) (literals : List UInt32) : Sys Emitter Unit :=
  inst 16 ([entry, mode] ++ literals)

/-! ## Debug

SOURCE: core/src/gpu/spirv.rs:303-313 -/

def emitName (target : UInt32) (name : String) : Sys Emitter Unit :=
  inst 5 (encodeString [target] name)

def emitMemberName (ty member : UInt32) (name : String) : Sys Emitter Unit :=
  inst 6 (encodeString [ty, member] name)

/-! ## Annotations

SOURCE: core/src/gpu/spirv.rs:319-341 -/

def emitDecorate (target deco : UInt32) (literals : List UInt32) : Sys Emitter Unit :=
  inst 71 ([target, deco] ++ literals)

def emitMemberDecorate (structType member deco : UInt32) (literals : List UInt32) :
    Sys Emitter Unit :=
  inst 72 ([structType, member, deco] ++ literals)

def emitDecorationGroup : Sys Emitter UInt32 := do
  let r ← allocId build
  inst 73 [r]
  return r

def emitGroupDecorate (group : UInt32) (targets : List UInt32) : Sys Emitter Unit :=
  inst 74 ([group] ++ targets)

/-! ## Types

SOURCE: core/src/gpu/spirv.rs:347-441 -/

def emitTypeVoid : Sys Emitter UInt32 := do
  let r ← allocId build
  inst 19 [r]
  return r

def emitTypeBool : Sys Emitter UInt32 := do
  let r ← allocId build
  inst 20 [r]
  return r

def emitTypeInt (width sign : UInt32) : Sys Emitter UInt32 := do
  debugAssert build (decide (width = 8 ∨ width = 16 ∨ width = 32 ∨ width = 64))
  debugAssert build (decide (sign ≤ 1))
  let r ← allocId build
  inst 21 [r, width, sign]
  return r

def emitTypeFloat (width : UInt32) : Sys Emitter UInt32 := do
  debugAssert build (decide (width = 16 ∨ width = 32 ∨ width = 64))
  let r ← allocId build
  inst 22 [r, width]
  return r

def emitTypeVector (componentType count : UInt32) : Sys Emitter UInt32 := do
  debugAssert build (decide (count ≥ 2 ∧ count ≤ 16))
  let r ← allocId build
  inst 23 [r, componentType, count]
  return r

def emitTypeMatrix (columnType columns : UInt32) : Sys Emitter UInt32 := do
  debugAssert build (decide (columns ≥ 2))
  let r ← allocId build
  inst 24 [r, columnType, columns]
  return r

def emitTypeImage (sampledType dim depth arrayed ms sampled format : UInt32) :
    Sys Emitter UInt32 := do
  let r ← allocId build
  inst 25 [r, sampledType, dim, depth, arrayed, ms, sampled, format]
  return r

def emitTypeSampler : Sys Emitter UInt32 := do
  let r ← allocId build
  inst 26 [r]
  return r

def emitTypeSampledImage (imageType : UInt32) : Sys Emitter UInt32 := do
  let r ← allocId build
  inst 27 [r, imageType]
  return r

def emitTypeArray (elementType length : UInt32) : Sys Emitter UInt32 := do
  let r ← allocId build
  inst 28 [r, elementType, length]
  return r

def emitTypeRuntimeArray (elementType : UInt32) : Sys Emitter UInt32 := do
  let r ← allocId build
  inst 29 [r, elementType]
  return r

def emitTypeStruct (members : List UInt32) : Sys Emitter UInt32 := do
  let r ← allocId build
  inst 30 ([r] ++ members)
  return r

def emitTypePointer (storageClass pointeeType : UInt32) : Sys Emitter UInt32 := do
  let r ← allocId build
  inst 32 [r, storageClass, pointeeType]
  return r

def emitTypeFunction (returnType : UInt32) (params : List UInt32) : Sys Emitter UInt32 := do
  let r ← allocId build
  inst 33 ([r, returnType] ++ params)
  return r

/-! ## Constants

SOURCE: core/src/gpu/spirv.rs:447-499 -/

def emitConstantTrue (ty : UInt32) : Sys Emitter UInt32 := do
  let r ← allocId build
  inst 41 [ty, r]
  return r

def emitConstantFalse (ty : UInt32) : Sys Emitter UInt32 := do
  let r ← allocId build
  inst 42 [ty, r]
  return r

def emitConstant (ty : UInt32) (valueWords : List UInt32) : Sys Emitter UInt32 := do
  let r ← allocId build
  inst 43 ([ty, r] ++ valueWords)
  return r

def emitConstantTyped {T : Type} [Literal T] (ty : UInt32) (value : T) : Sys Emitter UInt32 := do
  let r ← allocId build
  inst 43 ([ty, r] ++ Literal.toWords value)
  return r

def emitConstantComposite (ty : UInt32) (constituents : List UInt32) : Sys Emitter UInt32 := do
  let r ← allocId build
  inst 44 ([ty, r] ++ constituents)
  return r

def emitConstantCompositeTyped {T : Type} [Literal T] (ty : UInt32) (constituents : List T) :
    Sys Emitter UInt32 := do
  let r ← allocId build
  inst 44 (constituents.foldl (fun data e => data ++ Literal.toWords e) [ty, r])
  return r

def emitSpecConstant (ty : UInt32) (valueWords : List UInt32) : Sys Emitter UInt32 := do
  let r ← allocId build
  inst 48 ([ty, r] ++ valueWords)
  return r

/-! ## Memory

SOURCE: core/src/gpu/spirv.rs:505-545 -/

def emitVariable (ty storageClass : UInt32) : Sys Emitter UInt32 := do
  let r ← allocId build
  inst 59 [ty, r, storageClass]
  return r

def emitVariableInit (ty storageClass initializer : UInt32) : Sys Emitter UInt32 := do
  let r ← allocId build
  inst 59 [ty, r, storageClass, initializer]
  return r

def emitLoad (ty pointer : UInt32) : Sys Emitter UInt32 := do
  let r ← allocId build
  inst 61 [ty, r, pointer]
  return r

def emitStore (pointer value : UInt32) : Sys Emitter Unit := inst 62 [pointer, value]

def emitAccessChain (ty base : UInt32) (indexes : List UInt32) : Sys Emitter UInt32 := do
  let r ← allocId build
  inst 65 ([ty, r, base] ++ indexes)
  return r

def emitInBoundsAccessChain (ty base : UInt32) (indexes : List UInt32) : Sys Emitter UInt32 := do
  let r ← allocId build
  inst 66 ([ty, r, base] ++ indexes)
  return r

def emitCopyMemory (target source : UInt32) : Sys Emitter Unit := inst 63 [target, source]

/-! ## Functions

SOURCE: core/src/gpu/spirv.rs:551-573 -/

def emitFunction (returnType control funcType : UInt32) : Sys Emitter UInt32 := do
  let r ← allocId build
  inst 54 [returnType, r, control, funcType]
  return r

def emitFunctionParameter (ty : UInt32) : Sys Emitter UInt32 := do
  let r ← allocId build
  inst 55 [ty, r]
  return r

def emitFunctionEnd : Sys Emitter Unit := inst 56 []

def emitFunctionCall (resultType function : UInt32) (args : List UInt32) : Sys Emitter UInt32 := do
  let r ← allocId build
  inst 57 ([resultType, r, function] ++ args)
  return r

/-! ## Composite

SOURCE: core/src/gpu/spirv.rs:579-613 -/

def emitVectorShuffle (ty v1 v2 : UInt32) (components : List UInt32) : Sys Emitter UInt32 := do
  let r ← allocId build
  inst 79 ([ty, r, v1, v2] ++ components)
  return r

def emitCompositeConstruct (ty : UInt32) (constituents : List UInt32) : Sys Emitter UInt32 := do
  let r ← allocId build
  inst 80 ([ty, r] ++ constituents)
  return r

def emitCompositeExtract (ty composite : UInt32) (indexes : List UInt32) : Sys Emitter UInt32 := do
  let r ← allocId build
  inst 81 ([ty, r, composite] ++ indexes)
  return r

def emitCompositeInsert (ty object composite : UInt32) (indexes : List UInt32) :
    Sys Emitter UInt32 := do
  let r ← allocId build
  inst 82 ([ty, r, object, composite] ++ indexes)
  return r

def emitCopyObject (ty operand : UInt32) : Sys Emitter UInt32 := typedUn build 83 ty operand

/-! ## Conversion

SOURCE: core/src/gpu/spirv.rs:619-634 -/

def emitConvertFToU (ty val : UInt32) : Sys Emitter UInt32 := typedUn build 109 ty val

def emitConvertFToS (ty val : UInt32) : Sys Emitter UInt32 := typedUn build 110 ty val

def emitConvertSToF (ty val : UInt32) : Sys Emitter UInt32 := typedUn build 111 ty val

def emitConvertUToF (ty val : UInt32) : Sys Emitter UInt32 := typedUn build 112 ty val

def emitUConvert (ty val : UInt32) : Sys Emitter UInt32 := typedUn build 113 ty val

def emitSConvert (ty val : UInt32) : Sys Emitter UInt32 := typedUn build 114 ty val

def emitFConvert (ty val : UInt32) : Sys Emitter UInt32 := typedUn build 115 ty val

def emitBitcast (ty val : UInt32) : Sys Emitter UInt32 := typedUn build 124 ty val

/-! ## Arithmetic

SOURCE: core/src/gpu/spirv.rs:640-655 -/

def emitSnegate (ty a : UInt32) : Sys Emitter UInt32 := typedUn build 126 ty a

def emitFnegate (ty a : UInt32) : Sys Emitter UInt32 := typedUn build 127 ty a

def emitIadd (ty a b : UInt32) : Sys Emitter UInt32 := typedBin build 128 ty a b

def emitFadd (ty a b : UInt32) : Sys Emitter UInt32 := typedBin build 129 ty a b

def emitIsub (ty a b : UInt32) : Sys Emitter UInt32 := typedBin build 130 ty a b

def emitFsub (ty a b : UInt32) : Sys Emitter UInt32 := typedBin build 131 ty a b

def emitImul (ty a b : UInt32) : Sys Emitter UInt32 := typedBin build 132 ty a b

def emitFmul (ty a b : UInt32) : Sys Emitter UInt32 := typedBin build 133 ty a b

def emitUdiv (ty a b : UInt32) : Sys Emitter UInt32 := typedBin build 134 ty a b

def emitSdiv (ty a b : UInt32) : Sys Emitter UInt32 := typedBin build 135 ty a b

def emitFdiv (ty a b : UInt32) : Sys Emitter UInt32 := typedBin build 136 ty a b

def emitUmod (ty a b : UInt32) : Sys Emitter UInt32 := typedBin build 137 ty a b

def emitSrem (ty a b : UInt32) : Sys Emitter UInt32 := typedBin build 138 ty a b

def emitSmod (ty a b : UInt32) : Sys Emitter UInt32 := typedBin build 139 ty a b

def emitFrem (ty a b : UInt32) : Sys Emitter UInt32 := typedBin build 140 ty a b

def emitFmod (ty a b : UInt32) : Sys Emitter UInt32 := typedBin build 141 ty a b

/-! ## Logical

SOURCE: core/src/gpu/spirv.rs:661-666 -/

def emitLogicalEqual (ty a b : UInt32) : Sys Emitter UInt32 := typedBin build 164 ty a b

def emitLogicalNotEqual (ty a b : UInt32) : Sys Emitter UInt32 := typedBin build 165 ty a b

def emitLogicalOr (ty a b : UInt32) : Sys Emitter UInt32 := typedBin build 166 ty a b

def emitLogicalAnd (ty a b : UInt32) : Sys Emitter UInt32 := typedBin build 167 ty a b

def emitLogicalNot (ty a : UInt32) : Sys Emitter UInt32 := typedUn build 168 ty a

def emitSelect (ty cond a b : UInt32) : Sys Emitter UInt32 := typedTri build 169 ty cond a b

/-! ## Integer comparison

SOURCE: core/src/gpu/spirv.rs:672-681 -/

def emitIequal (ty a b : UInt32) : Sys Emitter UInt32 := typedBin build 170 ty a b

def emitInotEqual (ty a b : UInt32) : Sys Emitter UInt32 := typedBin build 171 ty a b

def emitUgreaterThan (ty a b : UInt32) : Sys Emitter UInt32 := typedBin build 172 ty a b

def emitSgreaterThan (ty a b : UInt32) : Sys Emitter UInt32 := typedBin build 173 ty a b

def emitUgreaterThanEqual (ty a b : UInt32) : Sys Emitter UInt32 := typedBin build 174 ty a b

def emitSgreaterThanEqual (ty a b : UInt32) : Sys Emitter UInt32 := typedBin build 175 ty a b

def emitUlessThan (ty a b : UInt32) : Sys Emitter UInt32 := typedBin build 176 ty a b

def emitSlessThan (ty a b : UInt32) : Sys Emitter UInt32 := typedBin build 177 ty a b

def emitUlessThanEqual (ty a b : UInt32) : Sys Emitter UInt32 := typedBin build 178 ty a b

def emitSlessThanEqual (ty a b : UInt32) : Sys Emitter UInt32 := typedBin build 179 ty a b

/-! ## Float comparison

SOURCE: core/src/gpu/spirv.rs:687-702 -/

def emitFordEqual (ty a b : UInt32) : Sys Emitter UInt32 := typedBin build 180 ty a b

def emitFunordEqual (ty a b : UInt32) : Sys Emitter UInt32 := typedBin build 181 ty a b

def emitFordNotEqual (ty a b : UInt32) : Sys Emitter UInt32 := typedBin build 182 ty a b

def emitFunordNotEqual (ty a b : UInt32) : Sys Emitter UInt32 := typedBin build 183 ty a b

def emitFordLessThan (ty a b : UInt32) : Sys Emitter UInt32 := typedBin build 184 ty a b

def emitFunordLessThan (ty a b : UInt32) : Sys Emitter UInt32 := typedBin build 185 ty a b

def emitFordGreaterThan (ty a b : UInt32) : Sys Emitter UInt32 := typedBin build 186 ty a b

def emitFunordGreaterThan (ty a b : UInt32) : Sys Emitter UInt32 := typedBin build 187 ty a b

def emitFordLessThanEqual (ty a b : UInt32) : Sys Emitter UInt32 := typedBin build 188 ty a b

def emitFunordLessThanEqual (ty a b : UInt32) : Sys Emitter UInt32 := typedBin build 189 ty a b

def emitFordGreaterThanEqual (ty a b : UInt32) : Sys Emitter UInt32 := typedBin build 190 ty a b

def emitFunordGreaterThanEqual (ty a b : UInt32) : Sys Emitter UInt32 := typedBin build 191 ty a b

def emitFIsNan (ty a : UInt32) : Sys Emitter UInt32 := typedUn build 156 ty a

def emitFIsInf (ty a : UInt32) : Sys Emitter UInt32 := typedUn build 157 ty a

def emitIsNan (ty a : UInt32) : Sys Emitter UInt32 := typedUn build 156 ty a

def emitIsInf (ty a : UInt32) : Sys Emitter UInt32 := typedUn build 157 ty a

/-! ## Bitwise and shifts

SOURCE: core/src/gpu/spirv.rs:708-724 -/

def emitShiftRightLogical (ty base shift : UInt32) : Sys Emitter UInt32 :=
  typedBin build 194 ty base shift

def emitShiftRightArithmetic (ty base shift : UInt32) : Sys Emitter UInt32 :=
  typedBin build 195 ty base shift

def emitShiftLeftLogical (ty base shift : UInt32) : Sys Emitter UInt32 :=
  typedBin build 196 ty base shift

def emitBitwiseOr (ty a b : UInt32) : Sys Emitter UInt32 := typedBin build 197 ty a b

def emitBitwiseXor (ty a b : UInt32) : Sys Emitter UInt32 := typedBin build 198 ty a b

def emitBitwiseAnd (ty a b : UInt32) : Sys Emitter UInt32 := typedBin build 199 ty a b

def emitNot (ty a : UInt32) : Sys Emitter UInt32 := typedUn build 200 ty a

def emitBitFieldInsert (ty base insert offset count : UInt32) : Sys Emitter UInt32 := do
  let r ← allocId build
  inst 201 [ty, r, base, insert, offset, count]
  return r

def emitBitFieldSExtract (ty base offset count : UInt32) : Sys Emitter UInt32 :=
  typedTri build 202 ty base offset count

def emitBitFieldUExtract (ty base offset count : UInt32) : Sys Emitter UInt32 :=
  typedTri build 203 ty base offset count

def emitBitReverse (ty a : UInt32) : Sys Emitter UInt32 := typedUn build 204 ty a

def emitBitCount (ty a : UInt32) : Sys Emitter UInt32 := typedUn build 205 ty a

/-! ## Control flow

SOURCE: core/src/gpu/spirv.rs:730-782 -/

def emitPhi (ty : UInt32) (sources : List (UInt32 × UInt32)) : Sys Emitter UInt32 := do
  let r ← allocId build
  inst 245 (pushPairs [ty, r] sources)
  return r

def emitLoopMerge (mergeBlock continueTarget control : UInt32) : Sys Emitter Unit :=
  inst 246 [mergeBlock, continueTarget, control]

def emitSelectionMerge (mergeBlock control : UInt32) : Sys Emitter Unit :=
  inst 247 [mergeBlock, control]

def emitLabel : Sys Emitter UInt32 := do
  let r ← allocId build
  inst 248 [r]
  return r

def emitBranch (target : UInt32) : Sys Emitter Unit := inst 249 [target]

def emitBranchConditional (cond trueLabel falseLabel : UInt32) : Sys Emitter Unit :=
  inst 250 [cond, trueLabel, falseLabel]

def emitSwitch (selector default : UInt32) (targets : List (UInt32 × UInt32)) :
    Sys Emitter Unit :=
  inst 251 (pushPairs [selector, default] targets)

def emitReturn : Sys Emitter Unit := inst 253 []

def emitReturnValue (value : UInt32) : Sys Emitter Unit := inst 254 [value]

def emitUnreachable : Sys Emitter Unit := inst 255 []

/-! ## Barrier

SOURCE: core/src/gpu/spirv.rs:789-795 -/

def emitControlBarrier (execution memory semantics : UInt32) : Sys Emitter Unit :=
  inst 224 [execution, memory, semantics]

def emitMemoryBarrier (memory semantics : UInt32) : Sys Emitter Unit := inst 225 [memory, semantics]

/-! ## Extended instruction

SOURCE: core/src/gpu/spirv.rs:801-807 -/

def emitExtInst (ty set instruction : UInt32) (operands : List UInt32) : Sys Emitter UInt32 := do
  let r ← allocId build
  inst 12 ([ty, r, set, instruction] ++ operands)
  return r

/-! ## Image

SOURCE: core/src/gpu/spirv.rs:813-865 -/

def emitSampledImage (ty image sampler : UInt32) : Sys Emitter UInt32 :=
  typedBin build 86 ty image sampler

def emitImageSampleImplicitLod (ty sampledImage coord : UInt32) (operands : List UInt32) :
    Sys Emitter UInt32 := do
  let r ← allocId build
  inst 87 ([ty, r, sampledImage, coord] ++ operands)
  return r

def emitImageSampleExplicitLod (ty sampledImage coord imageOps : UInt32) (operands : List UInt32) :
    Sys Emitter UInt32 := do
  let r ← allocId build
  inst 88 ([ty, r, sampledImage, coord, imageOps] ++ operands)
  return r

def emitImageFetch (ty image coord : UInt32) (operands : List UInt32) : Sys Emitter UInt32 := do
  let r ← allocId build
  inst 95 ([ty, r, image, coord] ++ operands)
  return r

def emitImageRead (ty image coord : UInt32) (operands : List UInt32) : Sys Emitter UInt32 := do
  let r ← allocId build
  inst 98 ([ty, r, image, coord] ++ operands)
  return r

def emitImageWrite (image coord texel : UInt32) (operands : List UInt32) : Sys Emitter Unit :=
  inst 99 ([image, coord, texel] ++ operands)

def emitImage (ty sampledImage : UInt32) : Sys Emitter UInt32 := typedUn build 100 ty sampledImage

def emitImageQuerySizeLod (ty image lod : UInt32) : Sys Emitter UInt32 :=
  typedBin build 103 ty image lod

def emitImageQuerySize (ty image : UInt32) : Sys Emitter UInt32 := typedUn build 104 ty image

/-! ## Atomic

SOURCE: core/src/gpu/spirv.rs:871-945 -/

def emitAtomicLoad (ty pointer scope semantics : UInt32) : Sys Emitter UInt32 := do
  let r ← allocId build
  inst 227 [ty, r, pointer, scope, semantics]
  return r

def emitAtomicStore (pointer scope semantics value : UInt32) : Sys Emitter Unit :=
  inst 228 [pointer, scope, semantics, value]

def emitAtomicExchange (ty pointer scope semantics value : UInt32) : Sys Emitter UInt32 := do
  let r ← allocId build
  inst 229 [ty, r, pointer, scope, semantics, value]
  return r

def emitAtomicCompareExchange (ty pointer scope equalSem unequalSem value comparator : UInt32) :
    Sys Emitter UInt32 := do
  let r ← allocId build
  inst 230 [ty, r, pointer, scope, equalSem, unequalSem, value, comparator]
  return r

def emitAtomicIadd (ty pointer scope semantics value : UInt32) : Sys Emitter UInt32 := do
  let r ← allocId build
  inst 234 [ty, r, pointer, scope, semantics, value]
  return r

def emitAtomicIsub (ty pointer scope semantics value : UInt32) : Sys Emitter UInt32 := do
  let r ← allocId build
  inst 235 [ty, r, pointer, scope, semantics, value]
  return r

def emitAtomicSmin (ty pointer scope semantics value : UInt32) : Sys Emitter UInt32 := do
  let r ← allocId build
  inst 236 [ty, r, pointer, scope, semantics, value]
  return r

def emitAtomicUmin (ty pointer scope semantics value : UInt32) : Sys Emitter UInt32 := do
  let r ← allocId build
  inst 237 [ty, r, pointer, scope, semantics, value]
  return r

def emitAtomicSmax (ty pointer scope semantics value : UInt32) : Sys Emitter UInt32 := do
  let r ← allocId build
  inst 238 [ty, r, pointer, scope, semantics, value]
  return r

def emitAtomicUmax (ty pointer scope semantics value : UInt32) : Sys Emitter UInt32 := do
  let r ← allocId build
  inst 239 [ty, r, pointer, scope, semantics, value]
  return r

def emitAtomicAnd (ty pointer scope semantics value : UInt32) : Sys Emitter UInt32 := do
  let r ← allocId build
  inst 240 [ty, r, pointer, scope, semantics, value]
  return r

def emitAtomicOr (ty pointer scope semantics value : UInt32) : Sys Emitter UInt32 := do
  let r ← allocId build
  inst 241 [ty, r, pointer, scope, semantics, value]
  return r

def emitAtomicXor (ty pointer scope semantics value : UInt32) : Sys Emitter UInt32 := do
  let r ← allocId build
  inst 242 [ty, r, pointer, scope, semantics, value]
  return r

/-! ## Derivative

SOURCE: core/src/gpu/spirv.rs:951-959 -/

def emitDpdx (ty p : UInt32) : Sys Emitter UInt32 := typedUn build 207 ty p

def emitDpdy (ty p : UInt32) : Sys Emitter UInt32 := typedUn build 208 ty p

def emitFwidth (ty p : UInt32) : Sys Emitter UInt32 := typedUn build 209 ty p

def emitDpdxFine (ty p : UInt32) : Sys Emitter UInt32 := typedUn build 210 ty p

def emitDpdyFine (ty p : UInt32) : Sys Emitter UInt32 := typedUn build 211 ty p

def emitFwidthFine (ty p : UInt32) : Sys Emitter UInt32 := typedUn build 212 ty p

def emitDpdxCoarse (ty p : UInt32) : Sys Emitter UInt32 := typedUn build 213 ty p

def emitDpdyCoarse (ty p : UInt32) : Sys Emitter UInt32 := typedUn build 214 ty p

def emitFwidthCoarse (ty p : UInt32) : Sys Emitter UInt32 := typedUn build 215 ty p

/-! ## Group and subgroup

SOURCE: core/src/gpu/spirv.rs:965-1065 -/

def emitGroupNonUniformElect (ty scope : UInt32) : Sys Emitter UInt32 := do
  let r ← allocId build
  inst 333 [ty, r, scope]
  return r

def emitGroupNonUniformBroadcast (ty scope value id : UInt32) : Sys Emitter UInt32 := do
  let r ← allocId build
  inst 337 [ty, r, scope, value, id]
  return r

def emitGroupNonUniformBroadcastFirst (ty scope value : UInt32) : Sys Emitter UInt32 := do
  let r ← allocId build
  inst 338 [ty, r, scope, value]
  return r

def emitGroupNonUniformBallot (ty scope predicate : UInt32) : Sys Emitter UInt32 := do
  let r ← allocId build
  inst 339 [ty, r, scope, predicate]
  return r

def emitGroupNonUniformShuffle (ty scope value id : UInt32) : Sys Emitter UInt32 := do
  let r ← allocId build
  inst 345 [ty, r, scope, value, id]
  return r

def emitGroupNonUniformShuffleXor (ty scope value mask : UInt32) : Sys Emitter UInt32 := do
  let r ← allocId build
  inst 346 [ty, r, scope, value, mask]
  return r

def emitGroupNonUniformIadd (ty scope op value : UInt32) : Sys Emitter UInt32 := do
  let r ← allocId build
  inst 349 [ty, r, scope, op, value]
  return r

def emitGroupNonUniformFadd (ty scope op value : UInt32) : Sys Emitter UInt32 := do
  let r ← allocId build
  inst 350 [ty, r, scope, op, value]
  return r

def emitGroupNonUniformSmin (ty scope op value : UInt32) : Sys Emitter UInt32 := do
  let r ← allocId build
  inst 353 [ty, r, scope, op, value]
  return r

def emitGroupNonUniformUmin (ty scope op value : UInt32) : Sys Emitter UInt32 := do
  let r ← allocId build
  inst 354 [ty, r, scope, op, value]
  return r

def emitGroupNonUniformFmin (ty scope op value : UInt32) : Sys Emitter UInt32 := do
  let r ← allocId build
  inst 355 [ty, r, scope, op, value]
  return r

def emitGroupNonUniformSmax (ty scope op value : UInt32) : Sys Emitter UInt32 := do
  let r ← allocId build
  inst 356 [ty, r, scope, op, value]
  return r

def emitGroupNonUniformUmax (ty scope op value : UInt32) : Sys Emitter UInt32 := do
  let r ← allocId build
  inst 357 [ty, r, scope, op, value]
  return r

def emitGroupNonUniformFmax (ty scope op value : UInt32) : Sys Emitter UInt32 := do
  let r ← allocId build
  inst 358 [ty, r, scope, op, value]
  return r

def emitGroupNonUniformBitwiseAnd (ty scope op value : UInt32) : Sys Emitter UInt32 := do
  let r ← allocId build
  inst 359 [ty, r, scope, op, value]
  return r

def emitGroupNonUniformBitwiseOr (ty scope op value : UInt32) : Sys Emitter UInt32 := do
  let r ← allocId build
  inst 360 [ty, r, scope, op, value]
  return r

def emitGroupNonUniformBitwiseXor (ty scope op value : UInt32) : Sys Emitter UInt32 := do
  let r ← allocId build
  inst 361 [ty, r, scope, op, value]
  return r

/-! ## Miscellaneous

SOURCE: core/src/gpu/spirv.rs:1071-1083 -/

def emitNop : Sys Emitter Unit := inst 0 []

def emitUndef (ty : UInt32) : Sys Emitter UInt32 := do
  let r ← allocId build
  inst 1 [ty, r]
  return r

def emitKill : Sys Emitter Unit := inst 252 []

end Oboromi.Model.Spirv
