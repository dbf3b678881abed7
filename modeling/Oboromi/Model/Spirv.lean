import Oboromi.Lib.LittleEndian
import Oboromi.Lib.Machine

/-!
# The SPIR-V emitter

The emitter is a growing list of 32-bit words, the next free id and the position of the
header word that `finalize` patches.  Every `emit_*` method allocates at most one id and
then appends one instruction with `inst`; the methods themselves are in `SpirvMethods`.
-/

set_option autoImplicit false

namespace Oboromi.Model.Spirv

open Oboromi.Lib

/-! ## Literal encoding -/

/-- An `f32`, as its bit pattern. -/
structure F32 where
  toBits : UInt32
  deriving DecidableEq, Repr

/-- An `f64`, as its bit pattern. -/
structure F64 where
  toBits : UInt64
  deriving DecidableEq, Repr

/-- SOURCE: core/src/gpu/spirv.rs:25-28 -/
class Literal (T : Type) where
  toWords : T → List UInt32

instance : Literal UInt8 where
  toWords v := [v.toUInt32]

instance : Literal Int8 where
  toWords v := [v.toUInt8.toUInt32]

instance : Literal UInt16 where
  toWords v := [v.toUInt32]

instance : Literal Int16 where
  toWords v := [v.toUInt16.toUInt32]

instance : Literal UInt32 where
  toWords v := [v]

instance : Literal Int32 where
  toWords v := [v.toUInt32]

instance : Literal F32 where
  toWords v := [v.toBits]

instance : Literal UInt64 where
  toWords v := [v.toUInt32, (v >>> 32).toUInt32]

instance : Literal Int64 where
  toWords v := Literal.toWords v.toUInt64

instance : Literal F64 where
  toWords v := Literal.toWords v.toBits

/-! ## String encoding -/

/-- One byte of `encode_string`: or it into the word under construction, and push the word
when this was its fourth byte. -/
def encodeByte (acc : List UInt32 × UInt32) (b : UInt8 × ℕ) : List UInt32 × UInt32 :=
  let word := acc.2 ||| (b.1.toUInt32 <<< UInt32.ofNat (b.2 % 4 * 8))
  if b.2 % 4 = 3 then (acc.1 ++ [word], 0) else (acc.1, word)

/-- SOURCE: core/src/gpu/spirv.rs:75-86 -/
def encodeString (buf : List UInt32) (s : String) : List UInt32 :=
  let bytes := s.toUTF8.data.toList
  let (buf, word) := bytes.zipIdx.foldl encodeByte (buf, 0)
  -- The final word includes the null terminator (zero-padded).
  buf ++ [word]

/-! ## The emitter -/

/-- SOURCE: core/src/gpu/spirv.rs:171-176 -/
structure Emitter where
  words : List UInt32
  nextId : UInt32
  boundIdx : ℕ
  deriving DecidableEq, Repr

/-- IDs are 1-based; 0 is reserved.
SOURCE: core/src/gpu/spirv.rs:183-189 -/
def Emitter.new : Emitter where
  words := []
  nextId := 1
  boundIdx := 0

/-- `debug_assert!`. -/
def debugAssert (build : Build) (c : Bool) : Except Fault Unit :=
  if build = .debug ∧ c = false then .error .panic else .ok ()

section Primitives

variable (build : Build)

/-- Allocate a fresh result id.
SOURCE: core/src/gpu/spirv.rs:193-197 -/
def allocId : Sys Emitter UInt32 := do
  let id := (← Sys.get).nextId
  let next ← build.addU32 id 1
  Sys.modify fun e => { e with nextId := next }
  return id

/-- The header word of an instruction: its word count over its opcode. -/
def headerWord (opcode : UInt32) (operands : List UInt32) : UInt32 :=
  let wc := UInt32.ofNat (1 + operands.length)
  (wc <<< 16) ||| (opcode &&& 0xFFFF)

/-- SOURCE: core/src/gpu/spirv.rs:211-215 -/
def inst (opcode : UInt32) (operands : List UInt32) : Sys Emitter Unit :=
  Sys.modify fun e => { e with words := e.words ++ [headerWord opcode operands] ++ operands }

/-- SOURCE: core/src/gpu/spirv.rs:218-222 -/
def typedUn (op ty a : UInt32) : Sys Emitter UInt32 := do
  let r ← allocId build
  inst op [ty, r, a]
  return r

/-- SOURCE: core/src/gpu/spirv.rs:225-229 -/
def typedBin (op ty a b : UInt32) : Sys Emitter UInt32 := do
  let r ← allocId build
  inst op [ty, r, a, b]
  return r

/-- SOURCE: core/src/gpu/spirv.rs:232-236 -/
def typedTri (op ty a b c : UInt32) : Sys Emitter UInt32 := do
  let r ← allocId build
  inst op [ty, r, a, b, c]
  return r

end Primitives

/-! ## Header -/

/-- The magic number of a SPIR-V module. -/
def MAGIC : UInt32 := 0x07230203

/-- The version word, SPIR-V 1.5. -/
def VERSION : UInt32 := 0x00010500

/-- SOURCE: core/src/gpu/spirv.rs:244-251 -/
def emitHeader : Sys Emitter Unit :=
  Sys.modify fun e =>
    { e with
      words := e.words ++ [MAGIC, VERSION, 0, 0, 0]
      boundIdx := e.words.length + 3 }

/-- Patch the id bound in the header.
SOURCE: core/src/gpu/spirv.rs:254-258 -/
def finalize : Sys Emitter Unit :=
  Sys.modify fun e =>
    if e.boundIdx < e.words.length then { e with words := e.words.set e.boundIdx e.nextId } else e

/-! ## Validation and serialisation -/

/-- The loop of `validate`: walk the instructions from `pos`. -/
def validateFrom (words : List UInt32) (pos : ℕ) : Except String Unit :=
  if hpos : pos < words.length then
    let header := words[pos]
    let wc := (header >>> 16).toNat
    let opcode := header &&& 0xFFFF
    if hzero : wc = 0 then .error "Instruction with zero word count"
    else if hend : words.length < pos + wc then .error "Instruction extends beyond module end"
    else if opcode = 0 ∧ wc ≠ 1 then .error "OpNop must have word count 1"
    else validateFrom words (pos + wc)
  else if pos ≠ words.length then .error "Trailing data after last instruction"
  else .ok ()
termination_by words.length - pos
decreasing_by
  have hwc : 0 < wc := Nat.pos_of_ne_zero hzero
  exact Nat.sub_lt_sub_left hpos (Nat.lt_add_of_pos_right hwc)

/-- Basic structural validation of the emitted module.
SOURCE: core/src/gpu/spirv.rs:1090-1119 -/
def Emitter.validate (e : Emitter) : Except String Unit :=
  if h : e.words.length < 5 then .error "Module too short for valid header"
  else if e.words[0] ≠ MAGIC then .error "Invalid SPIR-V magic number"
  else validateFrom e.words 5

/-- SOURCE: core/src/gpu/spirv.rs:1122-1128 -/
def Emitter.toBytes (e : Emitter) : List UInt8 :=
  e.words.foldl (fun out w => out ++ toLeBytes w) []

end Oboromi.Model.Spirv
