import Oboromi.Interface.SpirvGrammar

/-!
# Executing SPIR-V

The meaning of the straight-line instructions the shader decoder emits, on two environments:
the contents of variables, by the id of the variable, and the values of result ids.  An id is
defined once: an instruction whose result id already stands for something is stuck, and so is
one that reads what is not there, or whose type is not the 32-bit integer type.
-/

set_option autoImplicit false

namespace Oboromi.Interface.Spirv

/-- The contents of variables and the values of result ids. -/
structure Machine where
  contents : UInt32 → Option UInt32
  values : UInt32 → Option UInt32

namespace Machine

/-- The id stands for a variable or a value. -/
def Defines (m : Machine) (id : UInt32) : Prop :=
  (m.contents id).isSome = true ∨ (m.values id).isSome = true

instance (m : Machine) (id : UInt32) : Decidable (m.Defines id) :=
  inferInstanceAs (Decidable (_ ∨ _))

/-- Give a value to an id. -/
def setValue (m : Machine) (id v : UInt32) : Machine :=
  { m with values := fun k => if k = id then some v else m.values k }

/-- Change the contents of a variable. -/
def setVariable (m : Machine) (id v : UInt32) : Machine :=
  { m with contents := fun k => if k = id then some v else m.contents k }

/-- Define a result id. -/
def define (m : Machine) (id v : UInt32) : Option Machine :=
  if m.Defines id then none else some (m.setValue id v)

end Machine

/-- Execute one instruction; `u32` is the id of the 32-bit integer type. -/
def step (u32 : UInt32) (m : Machine) (i : Inst) : Option Machine :=
  match i.opcode.toNat, i.operands with
  -- OpNop
  | 0, [] => some m
  -- OpConstant
  | 43, [ty, result, literal] => if ty = u32 then m.define result literal else none
  -- OpLoad
  | 61, [ty, result, pointer] =>
    if ty = u32 then do
      let v ← m.contents pointer
      m.define result v
    else none
  -- OpStore
  | 62, [pointer, object] => do
    let v ← m.values object
    if (m.contents pointer).isSome then some (m.setVariable pointer v) else none
  -- OpIAdd
  | 128, [ty, result, a, b] =>
    if ty = u32 then do
      let x ← m.values a
      let y ← m.values b
      m.define result (x + y)
    else none
  | _, _ => none

/-- Execute a list of instructions. -/
def exec (u32 : UInt32) (insts : List Inst) (m : Machine) : Option Machine :=
  insts.foldlM (step u32) m

end Oboromi.Interface.Spirv
