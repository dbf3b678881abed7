import Oboromi.Interface.EmitterCalls
import Oboromi.Interface.SpirvInstructions

/-!
# Reading a module back from its bytes

`readModule` is a reader of the binary format, written from the format and not from the
emitter: whole little-endian words, the magic number, the rest of the header, and instructions
that fill the module, each by the operands of its opcode.  `listing` is what a client that made
a list of calls, and kept the ids it was given, expects to read.
-/

set_option autoImplicit false

namespace Oboromi.Interface.Spirv

open Oboromi.Lib
open Oboromi.Model.Spirv

/-- A module, as its reader has it. -/
structure ModuleListing where
  version : UInt32
  generator : UInt32
  bound : UInt32
  schema : UInt32
  instructions : List Instruction
  deriving DecidableEq, Repr

/-- Read the words of a module. -/
def readListing : List UInt32 → Option ModuleListing
  | magic :: version :: generator :: bound :: schema :: body =>
    if magic = MAGIC then do
      let frames ← Framing.unframe wordCount body
      let instructions ← frames.mapM decode
      some ⟨version, generator, bound, schema, instructions⟩
    else none
  | _ => none

/-- Read a module from its bytes. -/
def readModule (bytes : List UInt8) : Option ModuleListing :=
  if bytes.length % 4 = 0 then readListing (readWords bytes) else none

/-- The instructions that calls name, given the ids they returned. -/
def listing : List EmitCall → List (Option UInt32) → List Instruction
  | call :: calls, returned :: results =>
    (call.named.map fun instruction => instruction returned).toList ++ listing calls results
  | _, _ => []

end Oboromi.Interface.Spirv
