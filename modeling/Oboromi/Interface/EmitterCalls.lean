import Oboromi.Interface.SpirvGrammar
import Oboromi.Lib.WordString
import Oboromi.Model.SpirvMethods

/-!
# Runs of the emitter

`EmitCall` has one constructor for each call a client makes on an emitter, `execCall` runs
the method behind it and `emitModule` a whole module: a header, the calls in order, `finalize`.

What a call does is said a second time in the vocabulary of SPIR-V: the instruction it emits
as a function of the result id (`effect`), and the arguments it takes in `<id>` positions
(`idArgs`).  `log` follows a list of calls with nothing but the next free id.
-/

set_option autoImplicit false

namespace Oboromi.Interface.Spirv

open Oboromi.Lib
open Oboromi.Model.Spirv

/-- A call on the emitter, with its arguments. -/
inductive EmitCall : Type 1 where
  | allocId
  | finalize
  | emitCapability (cap : UInt32)
  | emitExtension (name : String)
  | emitExtInstImport (name : String)
  | emitMemoryModel (addressing memory : UInt32)
  | emitEntryPoint (execModel func : UInt32) (name : String) (interfaces : List UInt32)
  | emitExecutionMode (entry mode : UInt32) (literals : List UInt32)
  | emitName (target : UInt32) (name : String)
  | emitMemberName (ty member : UInt32) (name : String)
  | emitDecorate (target deco : UInt32) (literals : List UInt32)
  | emitMemberDecorate (structType member deco : UInt32) (literals : List UInt32)
  | emitDecorationGroup
  | emitGroupDecorate (group : UInt32) (targets : List UInt32)
  | emitTypeVoid
  | emitTypeBool
  | emitTypeInt (width sign : UInt32)
  | emitTypeFloat (width : UInt32)
  | emitTypeVector (componentType count : UInt32)
  | emitTypeMatrix (columnType columns : UInt32)
  | emitTypeImage (sampledType dim depth arrayed ms sampled format : UInt32)
  | emitTypeSampler
  | emitTypeSampledImage (imageType : UInt32)
  | emitTypeArray (elementType length : UInt32)
  | emitTypeRuntimeArray (elementType : UInt32)
  | emitTypeStruct (members : List UInt32)
  | emitTypePointer (storageClass pointeeType : UInt32)
  | emitTypeFunction (returnType : UInt32) (params : List UInt32)
  | emitConstantTrue (ty : UInt32)
  | emitConstantFalse (ty : UInt32)
  | emitConstant (ty : UInt32) (valueWords : List UInt32)
  | emitConstantTyped {T : Type} [Literal T] (ty : UInt32) (value : T)
  | emitConstantComposite (ty : UInt32) (constituents : List UInt32)
  | emitConstantCompositeTyped {T : Type} [Literal T] (ty : UInt32) (constituents : List T)
  | emitSpecConstant (ty : UInt32) (valueWords : List UInt32)
  | emitVariable (ty storageClass : UInt32)
  | emitVariableInit (ty storageClass initializer : UInt32)
  | emitLoad (ty pointer : UInt32)
  | emitStore (pointer value : UInt32)
  | emitAccessChain (ty base : UInt32) (indexes : List UInt32)
  | emitInBoundsAccessChain (ty base : UInt32) (indexes : List UInt32)
  | emitCopyMemory (target source : UInt32)
  | emitFunction (returnType control funcType : UInt32)
  | emitFunctionParameter (ty : UInt32)
  | emitFunctionEnd
  | emitFunctionCall (resultType function : UInt32) (args : List UInt32)
  | emitVectorShuffle (ty v1 v2 : UInt32) (components : List UInt32)
  | emitCompositeConstruct (ty : UInt32) (constituents : List UInt32)
  | emitCompositeExtract (ty composite : UInt32) (indexes : List UInt32)
  | emitCompositeInsert (ty object composite : UInt32) (indexes : List UInt32)
  | emitCopyObject (ty operand : UInt32)
  | emitConvertFToU (ty val : UInt32)
  | emitConvertFToS (ty val : UInt32)
  | emitConvertSToF (ty val : UInt32)
  | emitConvertUToF (ty val : UInt32)
  | emitUConvert (ty val : UInt32)
  | emitSConvert (ty val : UInt32)
  | emitFConvert (ty val : UInt32)
  | emitBitcast (ty val : UInt32)
  | emitSnegate (ty a : UInt32)
  | emitFnegate (ty a : UInt32)
  | emitIadd (ty a b : UInt32)
  | emitFadd (ty a b : UInt32)
  | emitIsub (ty a b : UInt32)
  | emitFsub (ty a b : UInt32)
  | emitImul (ty a b : UInt32)
  | emitFmul (ty a b : UInt32)
  | emitUdiv (ty a b : UInt32)
  | emitSdiv (ty a b : UInt32)
  | emitFdiv (ty a b : UInt32)
  | emitUmod (ty a b : UInt32)
  | emitSrem (ty a b : UInt32)
  | emitSmod (ty a b : UInt32)
  | emitFrem (ty a b : UInt32)
  | emitFmod (ty a b : UInt32)
  | emitLogicalEqual (ty a b : UInt32)
  | emitLogicalNotEqual (ty a b : UInt32)
  | emitLogicalOr (ty a b : UInt32)
  | emitLogicalAnd (ty a b : UInt32)
  | emitLogicalNot (ty a : UInt32)
  | emitSelect (ty cond a b : UInt32)
  | emitIequal (ty a b : UInt32)
  | emitInotEqual (ty a b : UInt32)
  | emitUgreaterThan (ty a b : UInt32)
  | emitSgreaterThan (ty a b : UInt32)
  | emitUgreaterThanEqual (ty a b : UInt32)
  | emitSgreaterThanEqual (ty a b : UInt32)
  | emitUlessThan (ty a b : UInt32)
  | emitSlessThan (ty a b : UInt32)
  | emitUlessThanEqual (ty a b : UInt32)
  | emitSlessThanEqual (ty a b : UInt32)
  | emitFordEqual (ty a b : UInt32)
  | emitFunordEqual (ty a b : UInt32)
  | emitFordNotEqual (ty a b : UInt32)
  | emitFunordNotEqual (ty a b : UInt32)
  | emitFordLessThan (ty a b : UInt32)
  | emitFunordLessThan (ty a b : UInt32)
  | emitFordGreaterThan (ty a b : UInt32)
  | emitFunordGreaterThan (ty a b : UInt32)
  | emitFordLessThanEqual (ty a b : UInt32)
  | emitFunordLessThanEqual (ty a b : UInt32)
  | emitFordGreaterThanEqual (ty a b : UInt32)
  | emitFunordGreaterThanEqual (ty a b : UInt32)
  | emitFIsNan (ty a : UInt32)
  | emitFIsInf (ty a : UInt32)
  | emitIsNan (ty a : UInt32)
  | emitIsInf (ty a : UInt32)
  | emitShiftRightLogical (ty base shift : UInt32)
  | emitShiftRightArithmetic (ty base shift : UInt32)
  | emitShiftLeftLogical (ty base shift : UInt32)
  | emitBitwiseOr (ty a b : UInt32)
  | emitBitwiseXor (ty a b : UInt32)
  | emitBitwiseAnd (ty a b : UInt32)
  | emitNot (ty a : UInt32)
  | emitBitFieldInsert (ty base insert offset count : UInt32)
  | emitBitFieldSExtract (ty base offset count : UInt32)
  | emitBitFieldUExtract (ty base offset count : UInt32)
  | emitBitReverse (ty a : UInt32)
  | emitBitCount (ty a : UInt32)
  | emitPhi (ty : UInt32) (sources : List (UInt32 × UInt32))
  | emitLoopMerge (mergeBlock continueTarget control : UInt32)
  | emitSelectionMerge (mergeBlock control : UInt32)
  | emitLabel
  | emitBranch (target : UInt32)
  | emitBranchConditional (cond trueLabel falseLabel : UInt32)
  | emitSwitch (selector default : UInt32) (targets : List (UInt32 × UInt32))
  | emitReturn
  | emitReturnValue (value : UInt32)
  | emitUnreachable
  | emitControlBarrier (execution memory semantics : UInt32)
  | emitMemoryBarrier (memory semantics : UInt32)
  | emitExtInst (ty set instruction : UInt32) (operands : List UInt32)
  | emitSampledImage (ty image sampler : UInt32)
  | emitImageSampleImplicitLod (ty sampledImage coord : UInt32) (operands : List UInt32)
  | emitImageSampleExplicitLod (ty sampledImage coord imageOps : UInt32) (operands : List UInt32)
  | emitImageFetch (ty image coord : UInt32) (operands : List UInt32)
  | emitImageRead (ty image coord : UInt32) (operands : List UInt32)
  | emitImageWrite (image coord texel : UInt32) (operands : List UInt32)
  | emitImage (ty sampledImage : UInt32)
  | emitImageQuerySizeLod (ty image lod : UInt32)
  | emitImageQuerySize (ty image : UInt32)
  | emitAtomicLoad (ty pointer scope semantics : UInt32)
  | emitAtomicStore (pointer scope semantics value : UInt32)
  | emitAtomicExchange (ty pointer scope semantics value : UInt32)
  | emitAtomicCompareExchange (ty pointer scope equalSem unequalSem value comparator : UInt32)
  | emitAtomicIadd (ty pointer scope semantics value : UInt32)
  | emitAtomicIsub (ty pointer scope semantics value : UInt32)
  | emitAtomicSmin (ty pointer scope semantics value : UInt32)
  | emitAtomicUmin (ty pointer scope semantics value : UInt32)
  | emitAtomicSmax (ty pointer scope semantics value : UInt32)
  | emitAtomicUmax (ty pointer scope semantics value : UInt32)
  | emitAtomicAnd (ty pointer scope semantics value : UInt32)
  | emitAtomicOr (ty pointer scope semantics value : UInt32)
  | emitAtomicXor (ty pointer scope semantics value : UInt32)
  | emitDpdx (ty p : UInt32)
  | emitDpdy (ty p : UInt32)
  | emitFwidth (ty p : UInt32)
  | emitDpdxFine (ty p : UInt32)
  | emitDpdyFine (ty p : UInt32)
  | emitFwidthFine (ty p : UInt32)
  | emitDpdxCoarse (ty p : UInt32)
  | emitDpdyCoarse (ty p : UInt32)
  | emitFwidthCoarse (ty p : UInt32)
  | emitGroupNonUniformElect (ty scope : UInt32)
  | emitGroupNonUniformBroadcast (ty scope value id : UInt32)
  | emitGroupNonUniformBroadcastFirst (ty scope value : UInt32)
  | emitGroupNonUniformBallot (ty scope predicate : UInt32)
  | emitGroupNonUniformShuffle (ty scope value id : UInt32)
  | emitGroupNonUniformShuffleXor (ty scope value mask : UInt32)
  | emitGroupNonUniformIadd (ty scope op value : UInt32)
  | emitGroupNonUniformFadd (ty scope op value : UInt32)
  | emitGroupNonUniformSmin (ty scope op value : UInt32)
  | emitGroupNonUniformUmin (ty scope op value : UInt32)
  | emitGroupNonUniformFmin (ty scope op value : UInt32)
  | emitGroupNonUniformSmax (ty scope op value : UInt32)
  | emitGroupNonUniformUmax (ty scope op value : UInt32)
  | emitGroupNonUniformFmax (ty scope op value : UInt32)
  | emitGroupNonUniformBitwiseAnd (ty scope op value : UInt32)
  | emitGroupNonUniformBitwiseOr (ty scope op value : UInt32)
  | emitGroupNonUniformBitwiseXor (ty scope op value : UInt32)
  | emitNop
  | emitUndef (ty : UInt32)
  | emitKill

/-! ## What a call does to the emitter -/

/-- A call that returns nothing. -/
def voidCall (x : Sys Emitter Unit) : Sys Emitter (Option UInt32) := do
  x
  return none

/-- A call that returns an id. -/
def idCall (x : Sys Emitter UInt32) : Sys Emitter (Option UInt32) := do
  let id ← x
  return some id

/-- The method behind a call. -/
def execCall (build : Build) : EmitCall → Sys Emitter (Option UInt32)
  | .allocId => idCall (allocId build)
  | .finalize => voidCall finalize
  | .emitCapability cap => voidCall (emitCapability cap)
  | .emitExtension name => voidCall (emitExtension name)
  | .emitExtInstImport name => idCall (emitExtInstImport build name)
  | .emitMemoryModel addressing memory => voidCall (emitMemoryModel addressing memory)
  | .emitEntryPoint execModel func name interfaces =>
    voidCall (emitEntryPoint execModel func name interfaces)
  | .emitExecutionMode entry mode literals => voidCall (emitExecutionMode entry mode literals)
  | .emitName target name => voidCall (emitName target name)
  | .emitMemberName ty member name => voidCall (emitMemberName ty member name)
  | .emitDecorate target deco literals => voidCall (emitDecorate target deco literals)
  | .emitMemberDecorate structType member deco literals =>
    voidCall (emitMemberDecorate structType member deco literals)
  | .emitDecorationGroup => idCall (emitDecorationGroup build)
  | .emitGroupDecorate group targets => voidCall (emitGroupDecorate group targets)
  | .emitTypeVoid => idCall (emitTypeVoid build)
  | .emitTypeBool => idCall (emitTypeBool build)
  | .emitTypeInt width sign => idCall (emitTypeInt build width sign)
  | .emitTypeFloat width => idCall (emitTypeFloat build width)
  | .emitTypeVector componentType count => idCall (emitTypeVector build componentType count)
  | .emitTypeMatrix columnType columns => idCall (emitTypeMatrix build columnType columns)
  | .emitTypeImage sampledType dim depth arrayed ms sampled format =>
    idCall (emitTypeImage build sampledType dim depth arrayed ms sampled format)
  | .emitTypeSampler => idCall (emitTypeSampler build)
  | .emitTypeSampledImage imageType => idCall (emitTypeSampledImage build imageType)
  | .emitTypeArray elementType length => idCall (emitTypeArray build elementType length)
  | .emitTypeRuntimeArray elementType => idCall (emitTypeRuntimeArray build elementType)
  | .emitTypeStruct members => idCall (emitTypeStruct build members)
  | .emitTypePointer storageClass pointeeType =>
    idCall (emitTypePointer build storageClass pointeeType)
  | .emitTypeFunction returnType params => idCall (emitTypeFunction build returnType params)
  | .emitConstantTrue ty => idCall (emitConstantTrue build ty)
  | .emitConstantFalse ty => idCall (emitConstantFalse build ty)
  | .emitConstant ty valueWords => idCall (emitConstant build ty valueWords)
  | @EmitCall.emitConstantTyped _ _ ty value => idCall (emitConstantTyped build ty value)
  | .emitConstantComposite ty constituents => idCall (emitConstantComposite build ty constituents)
  | @EmitCall.emitConstantCompositeTyped _ _ ty constituents =>
    idCall (emitConstantCompositeTyped build ty constituents)
  | .emitSpecConstant ty valueWords => idCall (emitSpecConstant build ty valueWords)
  | .emitVariable ty storageClass => idCall (emitVariable build ty storageClass)
  | .emitVariableInit ty storageClass initializer =>
    idCall (emitVariableInit build ty storageClass initializer)
  | .emitLoad ty pointer => idCall (emitLoad build ty pointer)
  | .emitStore pointer value => voidCall (emitStore pointer value)
  | .emitAccessChain ty base indexes => idCall (emitAccessChain build ty base indexes)
  | .emitInBoundsAccessChain ty base indexes =>
    idCall (emitInBoundsAccessChain build ty base indexes)
  | .emitCopyMemory target source => voidCall (emitCopyMemory target source)
  | .emitFunction returnType control funcType =>
    idCall (emitFunction build returnType control funcType)
  | .emitFunctionParameter ty => idCall (emitFunctionParameter build ty)
  | .emitFunctionEnd => voidCall emitFunctionEnd
  | .emitFunctionCall resultType function args =>
    idCall (emitFunctionCall build resultType function args)
  | .emitVectorShuffle ty v1 v2 components => idCall (emitVectorShuffle build ty v1 v2 components)
  | .emitCompositeConstruct ty constituents => idCall (emitCompositeConstruct build ty constituents)
  | .emitCompositeExtract ty composite indexes =>
    idCall (emitCompositeExtract build ty composite indexes)
  | .emitCompositeInsert ty object composite indexes =>
    idCall (emitCompositeInsert build ty object composite indexes)
  | .emitCopyObject ty operand => idCall (emitCopyObject build ty operand)
  | .emitConvertFToU ty val => idCall (emitConvertFToU build ty val)
  | .emitConvertFToS ty val => idCall (emitConvertFToS build ty val)
  | .emitConvertSToF ty val => idCall (emitConvertSToF build ty val)
  | .emitConvertUToF ty val => idCall (emitConvertUToF build ty val)
  | .emitUConvert ty val => idCall (emitUConvert build ty val)
  | .emitSConvert ty val => idCall (emitSConvert build ty val)
  | .emitFConvert ty val => idCall (emitFConvert build ty val)
  | .emitBitcast ty val => idCall (emitBitcast build ty val)
  | .emitSnegate ty a => idCall (emitSnegate build ty a)
  | .emitFnegate ty a => idCall (emitFnegate build ty a)
  | .emitIadd ty a b => idCall (emitIadd build ty a b)
  | .emitFadd ty a b => idCall (emitFadd build ty a b)
  | .emitIsub ty a b => idCall (emitIsub build ty a b)
  | .emitFsub ty a b => idCall (emitFsub build ty a b)
  | .emitImul ty a b => idCall (emitImul build ty a b)
  | .emitFmul ty a b => idCall (emitFmul build ty a b)
  | .emitUdiv ty a b => idCall (emitUdiv build ty a b)
  | .emitSdiv ty a b => idCall (emitSdiv build ty a b)
  | .emitFdiv ty a b => idCall (emitFdiv build ty a b)
  | .emitUmod ty a b => idCall (emitUmod build ty a b)
  | .emitSrem ty a b => idCall (emitSrem build ty a b)
  | .emitSmod ty a b => idCall (emitSmod build ty a b)
  | .emitFrem ty a b => idCall (emitFrem build ty a b)
  | .emitFmod ty a b => idCall (emitFmod build ty a b)
  | .emitLogicalEqual ty a b => idCall (emitLogicalEqual build ty a b)
  | .emitLogicalNotEqual ty a b => idCall (emitLogicalNotEqual build ty a b)
  | .emitLogicalOr ty a b => idCall (emitLogicalOr build ty a b)
  | .emitLogicalAnd ty a b => idCall (emitLogicalAnd build ty a b)
  | .emitLogicalNot ty a => idCall (emitLogicalNot build ty a)
  | .emitSelect ty cond a b => idCall (emitSelect build ty cond a b)
  | .emitIequal ty a b => idCall (emitIequal build ty a b)
  | .emitInotEqual ty a b => idCall (emitInotEqual build ty a b)
  | .emitUgreaterThan ty a b => idCall (emitUgreaterThan build ty a b)
  | .emitSgreaterThan ty a b => idCall (emitSgreaterThan build ty a b)
  | .emitUgreaterThanEqual ty a b => idCall (emitUgreaterThanEqual build ty a b)
  | .emitSgreaterThanEqual ty a b => idCall (emitSgreaterThanEqual build ty a b)
  | .emitUlessThan ty a b => idCall (emitUlessThan build ty a b)
  | .emitSlessThan ty a b => idCall (emitSlessThan build ty a b)
  | .emitUlessThanEqual ty a b => idCall (emitUlessThanEqual build ty a b)
  | .emitSlessThanEqual ty a b => idCall (emitSlessThanEqual build ty a b)
  | .emitFordEqual ty a b => idCall (emitFordEqual build ty a b)
  | .emitFunordEqual ty a b => idCall (emitFunordEqual build ty a b)
  | .emitFordNotEqual ty a b => idCall (emitFordNotEqual build ty a b)
  | .emitFunordNotEqual ty a b => idCall (emitFunordNotEqual build ty a b)
  | .emitFordLessThan ty a b => idCall (emitFordLessThan build ty a b)
  | .emitFunordLessThan ty a b => idCall (emitFunordLessThan build ty a b)
  | .emitFordGreaterThan ty a b => idCall (emitFordGreaterThan build ty a b)
  | .emitFunordGreaterThan ty a b => idCall (emitFunordGreaterThan build ty a b)
  | .emitFordLessThanEqual ty a b => idCall (emitFordLessThanEqual build ty a b)
  | .emitFunordLessThanEqual ty a b => idCall (emitFunordLessThanEqual build ty a b)
  | .emitFordGreaterThanEqual ty a b => idCall (emitFordGreaterThanEqual build ty a b)
  | .emitFunordGreaterThanEqual ty a b => idCall (emitFunordGreaterThanEqual build ty a b)
  | .emitFIsNan ty a => idCall (emitFIsNan build ty a)
  | .emitFIsInf ty a => idCall (emitFIsInf build ty a)
  | .emitIsNan ty a => idCall (emitIsNan build ty a)
  | .emitIsInf ty a => idCall (emitIsInf build ty a)
  | .emitShiftRightLogical ty base shift => idCall (emitShiftRightLogical build ty base shift)
  | .emitShiftRightArithmetic ty base shift => idCall (emitShiftRightArithmetic build ty base shift)
  | .emitShiftLeftLogical ty base shift => idCall (emitShiftLeftLogical build ty base shift)
  | .emitBitwiseOr ty a b => idCall (emitBitwiseOr build ty a b)
  | .emitBitwiseXor ty a b => idCall (emitBitwiseXor build ty a b)
  | .emitBitwiseAnd ty a b => idCall (emitBitwiseAnd build ty a b)
  | .emitNot ty a => idCall (emitNot build ty a)
  | .emitBitFieldInsert ty base insert offset count =>
    idCall (emitBitFieldInsert build ty base insert offset count)
  | .emitBitFieldSExtract ty base offset count =>
    idCall (emitBitFieldSExtract build ty base offset count)
  | .emitBitFieldUExtract ty base offset count =>
    idCall (emitBitFieldUExtract build ty base offset count)
  | .emitBitReverse ty a => idCall (emitBitReverse build ty a)
  | .emitBitCount ty a => idCall (emitBitCount build ty a)
  | .emitPhi ty sources => idCall (emitPhi build ty sources)
  | .emitLoopMerge mergeBlock continueTarget control =>
    voidCall (emitLoopMerge mergeBlock continueTarget control)
  | .emitSelectionMerge mergeBlock control => voidCall (emitSelectionMerge mergeBlock control)
  | .emitLabel => idCall (emitLabel build)
  | .emitBranch target => voidCall (emitBranch target)
  | .emitBranchConditional cond trueLabel falseLabel =>
    voidCall (emitBranchConditional cond trueLabel falseLabel)
  | .emitSwitch selector default targets => voidCall (emitSwitch selector default targets)
  | .emitReturn => voidCall emitReturn
  | .emitReturnValue value => voidCall (emitReturnValue value)
  | .emitUnreachable => voidCall emitUnreachable
  | .emitControlBarrier execution memory semantics =>
    voidCall (emitControlBarrier execution memory semantics)
  | .emitMemoryBarrier memory semantics => voidCall (emitMemoryBarrier memory semantics)
  | .emitExtInst ty set instruction operands =>
    idCall (emitExtInst build ty set instruction operands)
  | .emitSampledImage ty image sampler => idCall (emitSampledImage build ty image sampler)
  | .emitImageSampleImplicitLod ty sampledImage coord operands =>
    idCall (emitImageSampleImplicitLod build ty sampledImage coord operands)
  | .emitImageSampleExplicitLod ty sampledImage coord imageOps operands =>
    idCall (emitImageSampleExplicitLod build ty sampledImage coord imageOps operands)
  | .emitImageFetch ty image coord operands => idCall (emitImageFetch build ty image coord operands)
  | .emitImageRead ty image coord operands => idCall (emitImageRead build ty image coord operands)
  | .emitImageWrite image coord texel operands =>
    voidCall (emitImageWrite image coord texel operands)
  | .emitImage ty sampledImage => idCall (emitImage build ty sampledImage)
  | .emitImageQuerySizeLod ty image lod => idCall (emitImageQuerySizeLod build ty image lod)
  | .emitImageQuerySize ty image => idCall (emitImageQuerySize build ty image)
  | .emitAtomicLoad ty pointer scope semantics =>
    idCall (emitAtomicLoad build ty pointer scope semantics)
  | .emitAtomicStore pointer scope semantics value =>
    voidCall (emitAtomicStore pointer scope semantics value)
  | .emitAtomicExchange ty pointer scope semantics value =>
    idCall (emitAtomicExchange build ty pointer scope semantics value)
  | .emitAtomicCompareExchange ty pointer scope equalSem unequalSem value comparator =>
    idCall (emitAtomicCompareExchange build ty pointer scope equalSem unequalSem value comparator)
  | .emitAtomicIadd ty pointer scope semantics value =>
    idCall (emitAtomicIadd build ty pointer scope semantics value)
  | .emitAtomicIsub ty pointer scope semantics value =>
    idCall (emitAtomicIsub build ty pointer scope semantics value)
  | .emitAtomicSmin ty pointer scope semantics value =>
    idCall (emitAtomicSmin build ty pointer scope semantics value)
  | .emitAtomicUmin ty pointer scope semantics value =>
    idCall (emitAtomicUmin build ty pointer scope semantics value)
  | .emitAtomicSmax ty pointer scope semantics value =>
    idCall (emitAtomicSmax build ty pointer scope semantics value)
  | .emitAtomicUmax ty pointer scope semantics value =>
    idCall (emitAtomicUmax build ty pointer scope semantics value)
  | .emitAtomicAnd ty pointer scope semantics value =>
    idCall (emitAtomicAnd build ty pointer scope semantics value)
  | .emitAtomicOr ty pointer scope semantics value =>
    idCall (emitAtomicOr build ty pointer scope semantics value)
  | .emitAtomicXor ty pointer scope semantics value =>
    idCall (emitAtomicXor build ty pointer scope semantics value)
  | .emitDpdx ty p => idCall (emitDpdx build ty p)
  | .emitDpdy ty p => idCall (emitDpdy build ty p)
  | .emitFwidth ty p => idCall (emitFwidth build ty p)
  | .emitDpdxFine ty p => idCall (emitDpdxFine build ty p)
  | .emitDpdyFine ty p => idCall (emitDpdyFine build ty p)
  | .emitFwidthFine ty p => idCall (emitFwidthFine build ty p)
  | .emitDpdxCoarse ty p => idCall (emitDpdxCoarse build ty p)
  | .emitDpdyCoarse ty p => idCall (emitDpdyCoarse build ty p)
  | .emitFwidthCoarse ty p => idCall (emitFwidthCoarse build ty p)
  | .emitGroupNonUniformElect ty scope => idCall (emitGroupNonUniformElect build ty scope)
  | .emitGroupNonUniformBroadcast ty scope value id =>
    idCall (emitGroupNonUniformBroadcast build ty scope value id)
  | .emitGroupNonUniformBroadcastFirst ty scope value =>
    idCall (emitGroupNonUniformBroadcastFirst build ty scope value)
  | .emitGroupNonUniformBallot ty scope predicate =>
    idCall (emitGroupNonUniformBallot build ty scope predicate)
  | .emitGroupNonUniformShuffle ty scope value id =>
    idCall (emitGroupNonUniformShuffle build ty scope value id)
  | .emitGroupNonUniformShuffleXor ty scope value mask =>
    idCall (emitGroupNonUniformShuffleXor build ty scope value mask)
  | .emitGroupNonUniformIadd ty scope op value =>
    idCall (emitGroupNonUniformIadd build ty scope op value)
  | .emitGroupNonUniformFadd ty scope op value =>
    idCall (emitGroupNonUniformFadd build ty scope op value)
  | .emitGroupNonUniformSmin ty scope op value =>
    idCall (emitGroupNonUniformSmin build ty scope op value)
  | .emitGroupNonUniformUmin ty scope op value =>
    idCall (emitGroupNonUniformUmin build ty scope op value)
  | .emitGroupNonUniformFmin ty scope op value =>
    idCall (emitGroupNonUniformFmin build ty scope op value)
  | .emitGroupNonUniformSmax ty scope op value =>
    idCall (emitGroupNonUniformSmax build ty scope op value)
  | .emitGroupNonUniformUmax ty scope op value =>
    idCall (emitGroupNonUniformUmax build ty scope op value)
  | .emitGroupNonUniformFmax ty scope op value =>
    idCall (emitGroupNonUniformFmax build ty scope op value)
  | .emitGroupNonUniformBitwiseAnd ty scope op value =>
    idCall (emitGroupNonUniformBitwiseAnd build ty scope op value)
  | .emitGroupNonUniformBitwiseOr ty scope op value =>
    idCall (emitGroupNonUniformBitwiseOr build ty scope op value)
  | .emitGroupNonUniformBitwiseXor ty scope op value =>
    idCall (emitGroupNonUniformBitwiseXor build ty scope op value)
  | .emitNop => voidCall emitNop
  | .emitUndef ty => idCall (emitUndef build ty)
  | .emitKill => voidCall emitKill

/-- A list of calls in order, with what each of them returned. -/
def runCalls (build : Build) : List EmitCall → Sys Emitter (List (Option UInt32))
  | [] => return []
  | call :: calls => do
    let result ← execCall build call
    let results ← runCalls build calls
    return result :: results

/-- A whole module: the header, the calls, the bound. -/
def emitModule (build : Build) (calls : List EmitCall) : Sys Emitter (List (Option UInt32)) := do
  emitHeader
  let results ← runCalls build calls
  finalize
  return results

/-- The argument checks that `debug_assert!` makes in a debug build. -/
def EmitCall.asserts : EmitCall → Bool
  | .emitTypeInt width sign =>
    decide (width = 8 ∨ width = 16 ∨ width = 32 ∨ width = 64) && decide (sign ≤ 1)
  | .emitTypeFloat width => decide (width = 16 ∨ width = 32 ∨ width = 64)
  | .emitTypeVector _ count => decide (count ≥ 2 ∧ count ≤ 16)
  | .emitTypeMatrix _ columns => decide (columns ≥ 2)
  | _ => true

/-! ## What a call emits -/

/-- The words of a list of pairs. -/
def pairWords (pairs : List (UInt32 × UInt32)) : List UInt32 :=
  pairs.flatMap fun (first, second) => [first, second]

/-- A string operand, terminator and padding included. -/
def packedString (s : String) : List UInt32 := packString (utf8Bytes s)

/-- The effect of a call: the instruction it emits, if any, and whether it takes an id. -/
inductive Effect where
  | plain (i : Inst)
  | result (i : UInt32 → Inst)
  | alloc
  | patch

/-- The effect of each call. -/
def EmitCall.effect : EmitCall → Effect
  | .allocId => .alloc
  | .finalize => .patch
  | .emitCapability cap => .plain ⟨17, [cap]⟩
  | .emitExtension name => .plain ⟨10, packedString name⟩
  | .emitExtInstImport name => .result fun r => ⟨11, [r] ++ packedString name⟩
  | .emitMemoryModel addressing memory => .plain ⟨14, [addressing, memory]⟩
  | .emitEntryPoint execModel func name interfaces =>
    .plain ⟨15, [execModel, func] ++ packedString name ++ interfaces⟩
  | .emitExecutionMode entry mode literals => .plain ⟨16, [entry, mode] ++ literals⟩
  | .emitName target name => .plain ⟨5, [target] ++ packedString name⟩
  | .emitMemberName ty member name => .plain ⟨6, [ty, member] ++ packedString name⟩
  | .emitDecorate target deco literals => .plain ⟨71, [target, deco] ++ literals⟩
  | .emitMemberDecorate structType member deco literals =>
    .plain ⟨72, [structType, member, deco] ++ literals⟩
  | .emitDecorationGroup => .result fun r => ⟨73, [r]⟩
  | .emitGroupDecorate group targets => .plain ⟨74, [group] ++ targets⟩
  | .emitTypeVoid => .result fun r => ⟨19, [r]⟩
  | .emitTypeBool => .result fun r => ⟨20, [r]⟩
  | .emitTypeInt width sign => .result fun r => ⟨21, [r, width, sign]⟩
  | .emitTypeFloat width => .result fun r => ⟨22, [r, width]⟩
  | .emitTypeVector componentType count => .result fun r => ⟨23, [r, componentType, count]⟩
  | .emitTypeMatrix columnType columns => .result fun r => ⟨24, [r, columnType, columns]⟩
  | .emitTypeImage sampledType dim depth arrayed ms sampled format =>
    .result fun r => ⟨25, [r, sampledType, dim, depth, arrayed, ms, sampled, format]⟩
  | .emitTypeSampler => .result fun r => ⟨26, [r]⟩
  | .emitTypeSampledImage imageType => .result fun r => ⟨27, [r, imageType]⟩
  | .emitTypeArray elementType length => .result fun r => ⟨28, [r, elementType, length]⟩
  | .emitTypeRuntimeArray elementType => .result fun r => ⟨29, [r, elementType]⟩
  | .emitTypeStruct members => .result fun r => ⟨30, [r] ++ members⟩
  | .emitTypePointer storageClass pointeeType =>
    .result fun r => ⟨32, [r, storageClass, pointeeType]⟩
  | .emitTypeFunction returnType params => .result fun r => ⟨33, [r, returnType] ++ params⟩
  | .emitConstantTrue ty => .result fun r => ⟨41, [ty, r]⟩
  | .emitConstantFalse ty => .result fun r => ⟨42, [ty, r]⟩
  | .emitConstant ty valueWords => .result fun r => ⟨43, [ty, r] ++ valueWords⟩
  | @EmitCall.emitConstantTyped _ _ ty value =>
    .result fun r => ⟨43, [ty, r] ++ Literal.toWords value⟩
  | .emitConstantComposite ty constituents => .result fun r => ⟨44, [ty, r] ++ constituents⟩
  | @EmitCall.emitConstantCompositeTyped _ _ ty constituents =>
    .result fun r => ⟨44, [ty, r] ++ constituents.flatMap Literal.toWords⟩
  | .emitSpecConstant ty valueWords => .result fun r => ⟨48, [ty, r] ++ valueWords⟩
  | .emitVariable ty storageClass => .result fun r => ⟨59, [ty, r, storageClass]⟩
  | .emitVariableInit ty storageClass initializer =>
    .result fun r => ⟨59, [ty, r, storageClass, initializer]⟩
  | .emitLoad ty pointer => .result fun r => ⟨61, [ty, r, pointer]⟩
  | .emitStore pointer value => .plain ⟨62, [pointer, value]⟩
  | .emitAccessChain ty base indexes => .result fun r => ⟨65, [ty, r, base] ++ indexes⟩
  | .emitInBoundsAccessChain ty base indexes => .result fun r => ⟨66, [ty, r, base] ++ indexes⟩
  | .emitCopyMemory target source => .plain ⟨63, [target, source]⟩
  | .emitFunction returnType control funcType =>
    .result fun r => ⟨54, [returnType, r, control, funcType]⟩
  | .emitFunctionParameter ty => .result fun r => ⟨55, [ty, r]⟩
  | .emitFunctionEnd => .plain ⟨56, []⟩
  | .emitFunctionCall resultType function args =>
    .result fun r => ⟨57, [resultType, r, function] ++ args⟩
  | .emitVectorShuffle ty v1 v2 components => .result fun r => ⟨79, [ty, r, v1, v2] ++ components⟩
  | .emitCompositeConstruct ty constituents => .result fun r => ⟨80, [ty, r] ++ constituents⟩
  | .emitCompositeExtract ty composite indexes =>
    .result fun r => ⟨81, [ty, r, composite] ++ indexes⟩
  | .emitCompositeInsert ty object composite indexes =>
    .result fun r => ⟨82, [ty, r, object, composite] ++ indexes⟩
  | .emitCopyObject ty operand => .result fun r => ⟨83, [ty, r, operand]⟩
  | .emitConvertFToU ty val => .result fun r => ⟨109, [ty, r, val]⟩
  | .emitConvertFToS ty val => .result fun r => ⟨110, [ty, r, val]⟩
  | .emitConvertSToF ty val => .result fun r => ⟨111, [ty, r, val]⟩
  | .emitConvertUToF ty val => .result fun r => ⟨112, [ty, r, val]⟩
  | .emitUConvert ty val => .result fun r => ⟨113, [ty, r, val]⟩
  | .emitSConvert ty val => .result fun r => ⟨114, [ty, r, val]⟩
  | .emitFConvert ty val => .result fun r => ⟨115, [ty, r, val]⟩
  | .emitBitcast ty val => .result fun r => ⟨124, [ty, r, val]⟩
  | .emitSnegate ty a => .result fun r => ⟨126, [ty, r, a]⟩
  | .emitFnegate ty a => .result fun r => ⟨127, [ty, r, a]⟩
  | .emitIadd ty a b => .result fun r => ⟨128, [ty, r, a, b]⟩
  | .emitFadd ty a b => .result fun r => ⟨129, [ty, r, a, b]⟩
  | .emitIsub ty a b => .result fun r => ⟨130, [ty, r, a, b]⟩
  | .emitFsub ty a b => .result fun r => ⟨131, [ty, r, a, b]⟩
  | .emitImul ty a b => .result fun r => ⟨132, [ty, r, a, b]⟩
  | .emitFmul ty a b => .result fun r => ⟨133, [ty, r, a, b]⟩
  | .emitUdiv ty a b => .result fun r => ⟨134, [ty, r, a, b]⟩
  | .emitSdiv ty a b => .result fun r => ⟨135, [ty, r, a, b]⟩
  | .emitFdiv ty a b => .result fun r => ⟨136, [ty, r, a, b]⟩
  | .emitUmod ty a b => .result fun r => ⟨137, [ty, r, a, b]⟩
  | .emitSrem ty a b => .result fun r => ⟨138, [ty, r, a, b]⟩
  | .emitSmod ty a b => .result fun r => ⟨139, [ty, r, a, b]⟩
  | .emitFrem ty a b => .result fun r => ⟨140, [ty, r, a, b]⟩
  | .emitFmod ty a b => .result fun r => ⟨141, [ty, r, a, b]⟩
  | .emitLogicalEqual ty a b => .result fun r => ⟨164, [ty, r, a, b]⟩
  | .emitLogicalNotEqual ty a b => .result fun r => ⟨165, [ty, r, a, b]⟩
  | .emitLogicalOr ty a b => .result fun r => ⟨166, [ty, r, a, b]⟩
  | .emitLogicalAnd ty a b => .result fun r => ⟨167, [ty, r, a, b]⟩
  | .emitLogicalNot ty a => .result fun r => ⟨168, [ty, r, a]⟩
  | .emitSelect ty cond a b => .result fun r => ⟨169, [ty, r, cond, a, b]⟩
  | .emitIequal ty a b => .result fun r => ⟨170, [ty, r, a, b]⟩
  | .emitInotEqual ty a b => .result fun r => ⟨171, [ty, r, a, b]⟩
  | .emitUgreaterThan ty a b => .result fun r => ⟨172, [ty, r, a, b]⟩
  | .emitSgreaterThan ty a b => .result fun r => ⟨173, [ty, r, a, b]⟩
  | .emitUgreaterThanEqual ty a b => .result fun r => ⟨174, [ty, r, a, b]⟩
  | .emitSgreaterThanEqual ty a b => .result fun r => ⟨175, [ty, r, a, b]⟩
  | .emitUlessThan ty a b => .result fun r => ⟨176, [ty, r, a, b]⟩
  | .emitSlessThan ty a b => .result fun r => ⟨177, [ty, r, a, b]⟩
  | .emitUlessThanEqual ty a b => .result fun r => ⟨178, [ty, r, a, b]⟩
  | .emitSlessThanEqual ty a b => .result fun r => ⟨179, [ty, r, a, b]⟩
  | .emitFordEqual ty a b => .result fun r => ⟨180, [ty, r, a, b]⟩
  | .emitFunordEqual ty a b => .result fun r => ⟨181, [ty, r, a, b]⟩
  | .emitFordNotEqual ty a b => .result fun r => ⟨182, [ty, r, a, b]⟩
  | .emitFunordNotEqual ty a b => .result fun r => ⟨183, [ty, r, a, b]⟩
  | .emitFordLessThan ty a b => .result fun r => ⟨184, [ty, r, a, b]⟩
  | .emitFunordLessThan ty a b => .result fun r => ⟨185, [ty, r, a, b]⟩
  | .emitFordGreaterThan ty a b => .result fun r => ⟨186, [ty, r, a, b]⟩
  | .emitFunordGreaterThan ty a b => .result fun r => ⟨187, [ty, r, a, b]⟩
  | .emitFordLessThanEqual ty a b => .result fun r => ⟨188, [ty, r, a, b]⟩
  | .emitFunordLessThanEqual ty a b => .result fun r => ⟨189, [ty, r, a, b]⟩
  | .emitFordGreaterThanEqual ty a b => .result fun r => ⟨190, [ty, r, a, b]⟩
  | .emitFunordGreaterThanEqual ty a b => .result fun r => ⟨191, [ty, r, a, b]⟩
  | .emitFIsNan ty a => .result fun r => ⟨156, [ty, r, a]⟩
  | .emitFIsInf ty a => .result fun r => ⟨157, [ty, r, a]⟩
  | .emitIsNan ty a => .result fun r => ⟨156, [ty, r, a]⟩
  | .emitIsInf ty a => .result fun r => ⟨157, [ty, r, a]⟩
  | .emitShiftRightLogical ty base shift => .result fun r => ⟨194, [ty, r, base, shift]⟩
  | .emitShiftRightArithmetic ty base shift => .result fun r => ⟨195, [ty, r, base, shift]⟩
  | .emitShiftLeftLogical ty base shift => .result fun r => ⟨196, [ty, r, base, shift]⟩
  | .emitBitwiseOr ty a b => .result fun r => ⟨197, [ty, r, a, b]⟩
  | .emitBitwiseXor ty a b => .result fun r => ⟨198, [ty, r, a, b]⟩
  | .emitBitwiseAnd ty a b => .result fun r => ⟨199, [ty, r, a, b]⟩
  | .emitNot ty a => .result fun r => ⟨200, [ty, r, a]⟩
  | .emitBitFieldInsert ty base insert offset count =>
    .result fun r => ⟨201, [ty, r, base, insert, offset, count]⟩
  | .emitBitFieldSExtract ty base offset count =>
    .result fun r => ⟨202, [ty, r, base, offset, count]⟩
  | .emitBitFieldUExtract ty base offset count =>
    .result fun r => ⟨203, [ty, r, base, offset, count]⟩
  | .emitBitReverse ty a => .result fun r => ⟨204, [ty, r, a]⟩
  | .emitBitCount ty a => .result fun r => ⟨205, [ty, r, a]⟩
  | .emitPhi ty sources => .result fun r => ⟨245, [ty, r] ++ pairWords sources⟩
  | .emitLoopMerge mergeBlock continueTarget control =>
    .plain ⟨246, [mergeBlock, continueTarget, control]⟩
  | .emitSelectionMerge mergeBlock control => .plain ⟨247, [mergeBlock, control]⟩
  | .emitLabel => .result fun r => ⟨248, [r]⟩
  | .emitBranch target => .plain ⟨249, [target]⟩
  | .emitBranchConditional cond trueLabel falseLabel =>
    .plain ⟨250, [cond, trueLabel, falseLabel]⟩
  | .emitSwitch selector default targets => .plain ⟨251, [selector, default] ++ pairWords targets⟩
  | .emitReturn => .plain ⟨253, []⟩
  | .emitReturnValue value => .plain ⟨254, [value]⟩
  | .emitUnreachable => .plain ⟨255, []⟩
  | .emitControlBarrier execution memory semantics => .plain ⟨224, [execution, memory, semantics]⟩
  | .emitMemoryBarrier memory semantics => .plain ⟨225, [memory, semantics]⟩
  | .emitExtInst ty set instruction operands =>
    .result fun r => ⟨12, [ty, r, set, instruction] ++ operands⟩
  | .emitSampledImage ty image sampler => .result fun r => ⟨86, [ty, r, image, sampler]⟩
  | .emitImageSampleImplicitLod ty sampledImage coord operands =>
    .result fun r => ⟨87, [ty, r, sampledImage, coord] ++ operands⟩
  | .emitImageSampleExplicitLod ty sampledImage coord imageOps operands =>
    .result fun r => ⟨88, [ty, r, sampledImage, coord, imageOps] ++ operands⟩
  | .emitImageFetch ty image coord operands =>
    .result fun r => ⟨95, [ty, r, image, coord] ++ operands⟩
  | .emitImageRead ty image coord operands =>
    .result fun r => ⟨98, [ty, r, image, coord] ++ operands⟩
  | .emitImageWrite image coord texel operands => .plain ⟨99, [image, coord, texel] ++ operands⟩
  | .emitImage ty sampledImage => .result fun r => ⟨100, [ty, r, sampledImage]⟩
  | .emitImageQuerySizeLod ty image lod => .result fun r => ⟨103, [ty, r, image, lod]⟩
  | .emitImageQuerySize ty image => .result fun r => ⟨104, [ty, r, image]⟩
  | .emitAtomicLoad ty pointer scope semantics =>
    .result fun r => ⟨227, [ty, r, pointer, scope, semantics]⟩
  | .emitAtomicStore pointer scope semantics value =>
    .plain ⟨228, [pointer, scope, semantics, value]⟩
  | .emitAtomicExchange ty pointer scope semantics value =>
    .result fun r => ⟨229, [ty, r, pointer, scope, semantics, value]⟩
  | .emitAtomicCompareExchange ty pointer scope equalSem unequalSem value comparator =>
    .result fun r => ⟨230, [ty, r, pointer, scope, equalSem, unequalSem, value, comparator]⟩
  | .emitAtomicIadd ty pointer scope semantics value =>
    .result fun r => ⟨234, [ty, r, pointer, scope, semantics, value]⟩
  | .emitAtomicIsub ty pointer scope semantics value =>
    .result fun r => ⟨235, [ty, r, pointer, scope, semantics, value]⟩
  | .emitAtomicSmin ty pointer scope semantics value =>
    .result fun r => ⟨236, [ty, r, pointer, scope, semantics, value]⟩
  | .emitAtomicUmin ty pointer scope semantics value =>
    .result fun r => ⟨237, [ty, r, pointer, scope, semantics, value]⟩
  | .emitAtomicSmax ty pointer scope semantics value =>
    .result fun r => ⟨238, [ty, r, pointer, scope, semantics, value]⟩
  | .emitAtomicUmax ty pointer scope semantics value =>
    .result fun r => ⟨239, [ty, r, pointer, scope, semantics, value]⟩
  | .emitAtomicAnd ty pointer scope semantics value =>
    .result fun r => ⟨240, [ty, r, pointer, scope, semantics, value]⟩
  | .emitAtomicOr ty pointer scope semantics value =>
    .result fun r => ⟨241, [ty, r, pointer, scope, semantics, value]⟩
  | .emitAtomicXor ty pointer scope semantics value =>
    .result fun r => ⟨242, [ty, r, pointer, scope, semantics, value]⟩
  | .emitDpdx ty p => .result fun r => ⟨207, [ty, r, p]⟩
  | .emitDpdy ty p => .result fun r => ⟨208, [ty, r, p]⟩
  | .emitFwidth ty p => .result fun r => ⟨209, [ty, r, p]⟩
  | .emitDpdxFine ty p => .result fun r => ⟨210, [ty, r, p]⟩
  | .emitDpdyFine ty p => .result fun r => ⟨211, [ty, r, p]⟩
  | .emitFwidthFine ty p => .result fun r => ⟨212, [ty, r, p]⟩
  | .emitDpdxCoarse ty p => .result fun r => ⟨213, [ty, r, p]⟩
  | .emitDpdyCoarse ty p => .result fun r => ⟨214, [ty, r, p]⟩
  | .emitFwidthCoarse ty p => .result fun r => ⟨215, [ty, r, p]⟩
  | .emitGroupNonUniformElect ty scope => .result fun r => ⟨333, [ty, r, scope]⟩
  | .emitGroupNonUniformBroadcast ty scope value id =>
    .result fun r => ⟨337, [ty, r, scope, value, id]⟩
  | .emitGroupNonUniformBroadcastFirst ty scope value =>
    .result fun r => ⟨338, [ty, r, scope, value]⟩
  | .emitGroupNonUniformBallot ty scope predicate =>
    .result fun r => ⟨339, [ty, r, scope, predicate]⟩
  | .emitGroupNonUniformShuffle ty scope value id =>
    .result fun r => ⟨345, [ty, r, scope, value, id]⟩
  | .emitGroupNonUniformShuffleXor ty scope value mask =>
    .result fun r => ⟨346, [ty, r, scope, value, mask]⟩
  | .emitGroupNonUniformIadd ty scope op value =>
    .result fun r => ⟨349, [ty, r, scope, op, value]⟩
  | .emitGroupNonUniformFadd ty scope op value =>
    .result fun r => ⟨350, [ty, r, scope, op, value]⟩
  | .emitGroupNonUniformSmin ty scope op value =>
    .result fun r => ⟨353, [ty, r, scope, op, value]⟩
  | .emitGroupNonUniformUmin ty scope op value =>
    .result fun r => ⟨354, [ty, r, scope, op, value]⟩
  | .emitGroupNonUniformFmin ty scope op value =>
    .result fun r => ⟨355, [ty, r, scope, op, value]⟩
  | .emitGroupNonUniformSmax ty scope op value =>
    .result fun r => ⟨356, [ty, r, scope, op, value]⟩
  | .emitGroupNonUniformUmax ty scope op value =>
    .result fun r => ⟨357, [ty, r, scope, op, value]⟩
  | .emitGroupNonUniformFmax ty scope op value =>
    .result fun r => ⟨358, [ty, r, scope, op, value]⟩
  | .emitGroupNonUniformBitwiseAnd ty scope op value =>
    .result fun r => ⟨359, [ty, r, scope, op, value]⟩
  | .emitGroupNonUniformBitwiseOr ty scope op value =>
    .result fun r => ⟨360, [ty, r, scope, op, value]⟩
  | .emitGroupNonUniformBitwiseXor ty scope op value =>
    .result fun r => ⟨361, [ty, r, scope, op, value]⟩
  | .emitNop => .plain ⟨0, []⟩
  | .emitUndef ty => .result fun r => ⟨1, [ty, r]⟩
  | .emitKill => .plain ⟨252, []⟩

/-- The arguments a call takes in `<id>` positions: types, operands, labels and targets. -/
def EmitCall.idArgs : EmitCall → List UInt32
  | .emitEntryPoint _ func _ interfaces => [func] ++ interfaces
  | .emitExecutionMode x _ _ | .emitName x _ | .emitMemberName x _ _ | .emitDecorate x _ _
  | .emitMemberDecorate x _ _ _ | .emitTypeVector x _ | .emitTypeMatrix x _
  | .emitTypeImage x _ _ _ _ _ _ | .emitTypeSampledImage x | .emitTypeRuntimeArray x
  | .emitTypePointer _ x | .emitConstantTrue x | .emitConstantFalse x | .emitConstant x _
  | @EmitCall.emitConstantTyped _ _ x _ | .emitSpecConstant x _ | .emitVariable x _
  | .emitFunctionParameter x | .emitSelectionMerge x _ | .emitBranch x | .emitReturnValue x
  | .emitUndef x => [x]
  | .emitGroupDecorate group targets => [group] ++ targets
  | .emitTypeArray x y | .emitVariableInit x _ y | .emitLoad x y | .emitStore x y
  | .emitCopyMemory x y | .emitFunction x _ y | .emitCompositeExtract x y _
  | .emitCopyObject x y | .emitConvertFToU x y | .emitConvertFToS x y | .emitConvertSToF x y
  | .emitConvertUToF x y | .emitUConvert x y | .emitSConvert x y | .emitFConvert x y
  | .emitBitcast x y | .emitSnegate x y | .emitFnegate x y | .emitLogicalNot x y
  | .emitFIsNan x y | .emitFIsInf x y | .emitIsNan x y | .emitIsInf x y | .emitNot x y
  | .emitBitReverse x y | .emitBitCount x y | .emitLoopMerge x y _ | .emitMemoryBarrier x y
  | .emitImage x y | .emitImageQuerySize x y | .emitDpdx x y | .emitDpdy x y | .emitFwidth x y
  | .emitDpdxFine x y | .emitDpdyFine x y | .emitFwidthFine x y | .emitDpdxCoarse x y
  | .emitDpdyCoarse x y | .emitFwidthCoarse x y | .emitGroupNonUniformElect x y => [x, y]
  | .emitTypeStruct members => members
  | .emitTypeFunction returnType params => [returnType] ++ params
  | .emitConstantComposite ty constituents => [ty] ++ constituents
  | @EmitCall.emitConstantCompositeTyped _ _ ty _ => [ty]
  | .emitAccessChain ty base indexes => [ty, base] ++ indexes
  | .emitInBoundsAccessChain ty base indexes => [ty, base] ++ indexes
  | .emitFunctionCall resultType function args => [resultType, function] ++ args
  | .emitVectorShuffle x y z _ | .emitCompositeInsert x y z _ | .emitIadd x y z
  | .emitFadd x y z | .emitIsub x y z | .emitFsub x y z | .emitImul x y z | .emitFmul x y z
  | .emitUdiv x y z | .emitSdiv x y z | .emitFdiv x y z | .emitUmod x y z | .emitSrem x y z
  | .emitSmod x y z | .emitFrem x y z | .emitFmod x y z | .emitLogicalEqual x y z
  | .emitLogicalNotEqual x y z | .emitLogicalOr x y z | .emitLogicalAnd x y z
  | .emitIequal x y z | .emitInotEqual x y z | .emitUgreaterThan x y z
  | .emitSgreaterThan x y z | .emitUgreaterThanEqual x y z | .emitSgreaterThanEqual x y z
  | .emitUlessThan x y z | .emitSlessThan x y z | .emitUlessThanEqual x y z
  | .emitSlessThanEqual x y z | .emitFordEqual x y z | .emitFunordEqual x y z
  | .emitFordNotEqual x y z | .emitFunordNotEqual x y z | .emitFordLessThan x y z
  | .emitFunordLessThan x y z | .emitFordGreaterThan x y z | .emitFunordGreaterThan x y z
  | .emitFordLessThanEqual x y z | .emitFunordLessThanEqual x y z
  | .emitFordGreaterThanEqual x y z | .emitFunordGreaterThanEqual x y z
  | .emitShiftRightLogical x y z | .emitShiftRightArithmetic x y z
  | .emitShiftLeftLogical x y z | .emitBitwiseOr x y z | .emitBitwiseXor x y z
  | .emitBitwiseAnd x y z | .emitBranchConditional x y z | .emitControlBarrier x y z
  | .emitSampledImage x y z | .emitImageQuerySizeLod x y z
  | .emitGroupNonUniformBroadcastFirst x y z | .emitGroupNonUniformBallot x y z
  | .emitGroupNonUniformIadd x y _ z | .emitGroupNonUniformFadd x y _ z
  | .emitGroupNonUniformSmin x y _ z | .emitGroupNonUniformUmin x y _ z
  | .emitGroupNonUniformFmin x y _ z | .emitGroupNonUniformSmax x y _ z
  | .emitGroupNonUniformUmax x y _ z | .emitGroupNonUniformFmax x y _ z
  | .emitGroupNonUniformBitwiseAnd x y _ z | .emitGroupNonUniformBitwiseOr x y _ z
  | .emitGroupNonUniformBitwiseXor x y _ z => [x, y, z]
  | .emitCompositeConstruct ty constituents => [ty] ++ constituents
  | .emitSelect x y z u | .emitBitFieldSExtract x y z u | .emitBitFieldUExtract x y z u
  | .emitAtomicLoad x y z u | .emitAtomicStore x y z u | .emitGroupNonUniformBroadcast x y z u
  | .emitGroupNonUniformShuffle x y z u | .emitGroupNonUniformShuffleXor x y z u => [x, y, z, u]
  | .emitBitFieldInsert x y z u v | .emitAtomicExchange x y z u v | .emitAtomicIadd x y z u v
  | .emitAtomicIsub x y z u v | .emitAtomicSmin x y z u v | .emitAtomicUmin x y z u v
  | .emitAtomicSmax x y z u v | .emitAtomicUmax x y z u v | .emitAtomicAnd x y z u v
  | .emitAtomicOr x y z u v | .emitAtomicXor x y z u v => [x, y, z, u, v]
  | .emitPhi ty sources => [ty] ++ pairWords sources
  | .emitSwitch selector default targets => [selector, default] ++ targets.map Prod.snd
  | .emitExtInst ty set _ operands => [ty, set] ++ operands
  | .emitImageSampleImplicitLod ty sampledImage coord operands =>
    [ty, sampledImage, coord] ++ operands.drop 1
  | .emitImageSampleExplicitLod ty sampledImage coord _ operands =>
    [ty, sampledImage, coord] ++ operands
  | .emitImageFetch ty image coord operands => [ty, image, coord] ++ operands.drop 1
  | .emitImageRead ty image coord operands => [ty, image, coord] ++ operands.drop 1
  | .emitImageWrite image coord texel operands => [image, coord, texel] ++ operands.drop 1
  | .emitAtomicCompareExchange x y z u v w s => [x, y, z, u, v, w, s]
  | _ => []

/-- The words a call writes for arguments that are not ids, at positions that the grammar of
its opcode reads as ids.  Constituents are ids to `OpConstantComposite`, and a name that holds
a null terminator ends there, so its remaining words are read as interface ids. -/
def EmitCall.strayWords : EmitCall → List UInt32
  | @EmitCall.emitConstantCompositeTyped _ _ _ constituents => constituents.flatMap Literal.toWords
  | .emitEntryPoint _ _ name _ => skipString (packedString name)
  | _ => []

/-! ## The log of a run -/

/-- What one call left behind: the id it returned and the instruction it emitted. -/
structure Entry where
  returned : Option UInt32
  emitted : Option Inst

/-- The entry of an effect, given the next free id. -/
def Effect.entry (next : UInt32) : Effect → Entry
  | .plain i => ⟨none, some i⟩
  | .result i => ⟨some next, some (i next)⟩
  | .alloc => ⟨some next, none⟩
  | .patch => ⟨none, none⟩

/-- The next free id after an effect. -/
def Effect.next (next : UInt32) : Effect → UInt32
  | .plain _ | .patch => next
  | .result _ | .alloc => next + 1

/-- Whether an effect takes an id. -/
def Effect.allocates : Effect → Bool
  | .plain _ | .patch => false
  | .result _ | .alloc => true

/-- The entries of a list of calls, from the next free id on. -/
def log (next : UInt32) : List EmitCall → List Entry
  | [] => []
  | call :: calls => call.effect.entry next :: log (call.effect.next next) calls

/-- The number of ids a list of calls takes. -/
def allocations (calls : List EmitCall) : ℕ := calls.countP fun call => call.effect.allocates

/-- The instructions a module's calls emit, in order. -/
def emittedInsts (calls : List EmitCall) : List Inst :=
  (log 1 calls).filterMap Entry.emitted

/-! ## What a run guarantees -/

/-- The ids that the calls of a run returned. -/
def returnedIds (results : List (Option UInt32)) : List UInt32 := results.filterMap id

/-- The result ids of a run are in order: distinct, positive, each in the result position of
the instruction its call emitted, defined once, and all below the bound in word 3, which is
one more than the largest of them. -/
structure IdDiscipline (calls : List EmitCall) (results : List (Option UInt32)) (e : Emitter) :
    Prop where
  distinct : (returnedIds results).Nodup
  positive : ∀ id ∈ returnedIds results, 1 ≤ id
  carried : ∀ (k : ℕ) (entry : Entry), (log 1 calls)[k]? = some entry →
    results[k]? = some entry.returned ∧ ∀ i, entry.emitted = some i → resultId i = entry.returned
  definedOnce : ((emittedInsts calls).filterMap resultId).Nodup
  stream : ∃ bound, e.words = moduleWords bound (emittedInsts calls) ∧ e.words[3]? = some bound ∧
    (∀ id ∈ returnedIds results, id < bound) ∧
    (returnedIds results = [] ∧ bound = 1 ∨
      ∃ largest ∈ returnedIds results, (∀ id ∈ returnedIds results, id ≤ largest) ∧
        bound.toNat = largest.toNat + 1)

/-- Every argument that a call takes in an `<id>` position was returned by an earlier call. -/
def IdArgsReturned (calls : List EmitCall) (results : List (Option UInt32)) : Prop :=
  ∀ (k : ℕ) (call : EmitCall), calls[k]? = some call →
    ∀ w ∈ call.idArgs, ∃ j < k, results[j]? = some (some w)

/-- Every word of the stream at an `<id>` position was returned by a call of the run, is not
zero and is below the bound in word 3. -/
def IdOperandsDefined (calls : List EmitCall) (results : List (Option UInt32)) (e : Emitter) :
    Prop :=
  ∃ bound, e.words = moduleWords bound (emittedInsts calls) ∧ e.words[3]? = some bound ∧
    ∀ i ∈ emittedInsts calls, ∀ w ∈ idOperands i, w ∈ returnedIds results ∧ w ≠ 0 ∧ w < bound

end Oboromi.Interface.Spirv
