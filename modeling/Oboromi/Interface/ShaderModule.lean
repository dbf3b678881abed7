import Oboromi.Interface.ModuleListing
import Oboromi.Interface.ShaderStream

/-!
# Running the bytes of a shader

A client translates a shader into a module of its own: the header, calls that set the module
up, the decoder's `init`, the translated instructions, `finalize`.  `runModule` starts from the
bytes: it reads the module, declares its types and variables and runs it to the end or to the
`OpKill`.  What the variables hold at first is not the module's, so it is a parameter.

Of the ids in a module the reader checks that a result is defined once and below the bound, that
a pointee is a declared type, that a result type, the pointer of a variable, the pointer of a load
or store and the operands of an addition are what the instruction asks for, and that what is named
or decorated is a result of the module.  A strict reader also checks that the components of a
vector type are of a declared scalar type; execution never looks at them.  Capabilities, the order
of the sections of a module and the uniqueness of types are not looked at: a module here
declares neither entry point nor function.
-/

set_option autoImplicit false

namespace Oboromi.Interface.Sm86

open Oboromi.Lib
open Oboromi.Model.Spirv
open Oboromi.Model.Sm86
open Oboromi.Interface.Spirv

/-! ## The module -/

/-- The calls that set a module up: its capabilities, extensions and memory model, and the names
and decorations of ids below the bound.  They take no id. -/
def IsSetup (bound : ℕ) : EmitCall → Prop
  | .emitCapability _ | .emitExtension _ | .emitMemoryModel _ _ => True
  | .emitName target _ | .emitDecorate target _ _ => 0 < target.toNat ∧ target.toNat < bound
  | _ => False

/-- Translate a shader into a module of its own. -/
def shaderModule (build : Build) (setup : List EmitCall) (insts : List (BitVec 128)) :
    Sys Decoder Unit := do
  onIr emitHeader
  let _ ← onIr (runCalls build setup)
  init build
  translateAll build insts
  onIr finalize

/-- Run a shader: it ends with its last instruction or with the first `kill`. -/
def runToKill : List (BitVec 128) → Registers → Registers
  | [], regs => regs
  | inst :: insts, regs =>
    if dispatch (opcode inst) = some .kill then regs
    else runToKill insts (stepRegisters regs inst)

/-! ## Running a module -/

/-- What a type id stands for. -/
inductive TypeShape where
  | void
  | bool
  | int (width sign : UInt32)
  | float (width : UInt32)
  | vector (component count : UInt32)
  | pointer (storageClass pointee : UInt32)
  deriving DecidableEq, Repr

namespace TypeShape

/-- The types a vector can be of. -/
def isScalar : TypeShape → Bool
  | .bool | .int _ _ | .float _ => true
  | _ => false

/-- A type may be declared behind others; only a strict reader looks at a component. -/
def WellFormed (strict : Bool) (types : UInt32 → Option TypeShape) : TypeShape → Prop
  | .vector component count =>
    2 ≤ count ∧ count ≤ 4 ∧ (strict = true → (types component).any isScalar = true)
  | .pointer _ pointee => (types pointee).isSome = true
  | _ => True

instance (strict : Bool) (types : UInt32 → Option TypeShape) (shape : TypeShape) :
    Decidable (shape.WellFormed strict types) :=
  match shape with
  | .vector _ _ => inferInstanceAs (Decidable (_ ∧ _ ∧ (_ → _)))
  | .pointer _ _ => inferInstanceAs (Decidable (_ = _))
  | .void | .bool | .int _ _ | .float _ => .isTrue trivial

end TypeShape

/-- A shader as it runs: the types it declared, its variables and values, and the variables in
the order of their declarations. -/
structure Shader where
  types : UInt32 → Option TypeShape
  machine : Machine
  vars : List UInt32
  ended : Bool

namespace Shader

def start : Shader where
  types _ := none
  machine := ⟨fun _ => none, fun _ => none⟩
  vars := []
  ended := false

/-- The type of 32-bit unsigned integers. -/
def IsUint (s : Shader) (ty : UInt32) : Prop := s.types ty = some (.int 32 0)

/-- The type of pointers to such, in the storage class of functions. -/
def IsUintPointer (s : Shader) (ty : UInt32) : Prop :=
  ∃ pointee ∈ (s.types ty).bind fun
    | .pointer storageClass pointee => if storageClass = 7 then some pointee else none
    | _ => none, s.IsUint pointee

instance (s : Shader) (ty : UInt32) : Decidable (s.IsUint ty) :=
  inferInstanceAs (Decidable (s.types ty = some (.int 32 0)))

instance (s : Shader) (ty : UInt32) : Decidable (s.IsUintPointer ty) :=
  inferInstanceAs (Decidable (∃ _ ∈ _, _))

/-- A result may have the id. -/
def Fresh (bound : UInt32) (s : Shader) (id : UInt32) : Prop :=
  0 < id ∧ id < bound ∧ s.types id = none ∧ ¬ s.machine.Defines id

instance (bound : UInt32) (s : Shader) (id : UInt32) : Decidable (s.Fresh bound id) :=
  inferInstanceAs (Decidable (_ ∧ _ ∧ _ ∧ _))

section Step

variable (strict : Bool) (bound : UInt32) (initial : ℕ → UInt32)

/-- Declare a type. -/
def declareType (s : Shader) (result : Option UInt32) (shape : TypeShape) : Option Shader := do
  let id ← result
  if s.Fresh bound id ∧ shape.WellFormed strict s.types then
    some { s with types := fun k => if k = id then some shape else s.types k }
  else none

/-- Declare a variable, with the contents it has before it is written. -/
def declareVariable (s : Shader) (result : Option UInt32) : Option Shader := do
  let id ← result
  if s.Fresh bound id then
    some { s with
      machine := s.machine.setVariable id (initial s.vars.length)
      vars := s.vars ++ [id] }
  else none

/-- Give a result its value. -/
def setResult (s : Shader) (ty : UInt32) (result : Option UInt32) (v : UInt32) :
    Option Shader := do
  let id ← result
  if s.IsUint ty ∧ s.Fresh bound id then some { s with machine := s.machine.setValue id v }
  else none

/-- The instructions that set a module up. -/
def setupOps : List Op := [.opCapability, .opExtension, .opMemoryModel, .opName, .opDecorate]

/-- Execute one instruction. -/
def step (s : Shader) (i : Instruction) : Option Shader :=
  match i.op, i.resultType, i.operands with
  | .opTypeInt, none, [.literal width, .literal sign] =>
    s.declareType strict bound i.result (.int width sign)
  | .opTypePointer, none, [.literal storageClass, .id pointee] =>
    s.declareType strict bound i.result (.pointer storageClass pointee)
  | .opTypeVoid, none, [] => s.declareType strict bound i.result .void
  | .opTypeBool, none, [] => s.declareType strict bound i.result .bool
  | .opTypeFloat, none, [.literal width] => s.declareType strict bound i.result (.float width)
  | .opTypeVector, none, [.id component, .literal count] =>
    s.declareType strict bound i.result (.vector component count)
  | .opVariable, some ty, [.literal storageClass] =>
    if storageClass = 7 ∧ s.IsUintPointer ty then s.declareVariable bound initial i.result
    else none
  | .opConstant, some ty, [.literal v] => s.setResult bound ty i.result v
  | .opLoad, some ty, [.id pointer] => do
    let v ← s.machine.contents pointer
    s.setResult bound ty i.result v
  | .opStore, none, [.id pointer, .id object] => do
    let v ← s.machine.values object
    if (s.machine.contents pointer).isSome then
      some { s with machine := s.machine.setVariable pointer v }
    else none
  | .opIAdd, some ty, [.id a, .id b] => do
    let x ← s.machine.values a
    let y ← s.machine.values b
    s.setResult bound ty i.result (x + y)
  | .opNop, none, [] => some s
  | .opKill, none, [] => some { s with ended := true }
  | op, none, _ => if op ∈ setupOps then some s else none
  | _, _, _ => none

/-- Execute instructions until one ends the shader. -/
def run : List Instruction → Shader → Option Shader
  | [], s => some s
  | i :: rest, s => if s.ended then some s else (s.step strict bound initial i).bind (run rest)

end Step

end Shader

/-- The id that an instruction names or decorates. -/
def target (i : Instruction) : Option UInt32 :=
  match i.op, i.operands with
  | .opName, .id id :: _ | .opDecorate, .id id :: _ => some id
  | _, _ => none

/-- What is named or decorated is a result of the module. -/
def TargetsDefined (instructions : List Instruction) : Prop :=
  ∀ id ∈ instructions.filterMap target, id ∈ instructions.filterMap Instruction.result

instance (instructions : List Instruction) : Decidable (TargetsDefined instructions) :=
  List.decidableBAll _ _

/-- Run the bytes of a module, and read its variables at the end. -/
def runModule (strict : Bool) (initial : ℕ → UInt32) (bytes : List UInt8) :
    Option (List UInt32) := do
  let m ← readModule bytes
  if TargetsDefined m.instructions then
    let s ← Shader.run strict m.bound initial m.instructions Shader.start
    s.vars.mapM s.machine.contents
  else none

/-- What the register variables hold at first. -/
def Registers.initial (regs : Registers) (r : ℕ) : UInt32 := regs.read r

/-- The bytes of a shader's module run as the shader does. -/
def RunsAsShader (strict : Bool) (build : Build) (setup : List EmitCall) (d₀ : Decoder)
    (insts : List (BitVec 128)) : Prop :=
  ∃ d, (shaderModule build setup insts).run d₀ = (.ok (), d) ∧ d.ir.validate = .ok () ∧
    ∀ regs : Registers,
      runModule strict regs.initial d.ir.toBytes = some (List.ofFn (runToKill insts regs))

/-- The entries of the type tables that nothing sets hold ids that `init` gives, as the first of
a module, to its scalar types: 1 is `void`, 2 to 13 are the others. -/
def ComponentsTyped (d : Decoder) : Prop :=
  ∀ types ∈ typeTables d, ∀ n : Fin 5, 2 ≤ n.val → 2 ≤ types.get n ∧ types.get n ≤ 13

end Oboromi.Interface.Sm86
