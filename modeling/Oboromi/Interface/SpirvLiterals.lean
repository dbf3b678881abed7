import Oboromi.Interface.EmitterCalls
import Oboromi.Lib.WordString

/-!
# Literal numbers and strings

How SPIR-V reads literals back from their words.  Of a number the low word comes first, and one
that is narrower than its words is extended to them, with its sign where the type is signed and
with zeros where it is not; a float is the number its bits spell.  A string is its bytes up to
the first NUL, and the word of the NUL is filled up with zeros.
-/

set_option autoImplicit false

namespace Oboromi.Interface.Spirv

open Oboromi.Lib
open Oboromi.Model.Spirv

/-! ## Numbers -/

/-- A value of one of the types with a literal encoding. -/
inductive LiteralValue where
  | u8 (v : UInt8)
  | i8 (v : Int8)
  | u16 (v : UInt16)
  | i16 (v : Int16)
  | u32 (v : UInt32)
  | i32 (v : Int32)
  | f32 (v : F32)
  | u64 (v : UInt64)
  | i64 (v : Int64)
  | f64 (v : F64)

namespace LiteralValue

/-- The words the value is encoded in. -/
def toWords : LiteralValue → List UInt32
  | .u8 v => Literal.toWords v
  | .i8 v => Literal.toWords v
  | .u16 v => Literal.toWords v
  | .i16 v => Literal.toWords v
  | .u32 v => Literal.toWords v
  | .i32 v => Literal.toWords v
  | .f32 v => Literal.toWords v
  | .u64 v => Literal.toWords v
  | .i64 v => Literal.toWords v
  | .f64 v => Literal.toWords v

/-- The call that emits the value as a constant of a type. -/
def emitConstantTyped (ty : UInt32) : LiteralValue → EmitCall
  | .u8 v => .emitConstantTyped ty v
  | .i8 v => .emitConstantTyped ty v
  | .u16 v => .emitConstantTyped ty v
  | .i16 v => .emitConstantTyped ty v
  | .u32 v => .emitConstantTyped ty v
  | .i32 v => .emitConstantTyped ty v
  | .f32 v => .emitConstantTyped ty v
  | .u64 v => .emitConstantTyped ty v
  | .i64 v => .emitConstantTyped ty v
  | .f64 v => .emitConstantTyped ty v

/-- The number of bits of the value's type. -/
def width : LiteralValue → ℕ
  | .u8 _ | .i8 _ => 8
  | .u16 _ | .i16 _ => 16
  | .u32 _ | .i32 _ | .f32 _ => 32
  | .u64 _ | .i64 _ | .f64 _ => 64

/-- Whether the value's type is a signed integer. -/
def signed : LiteralValue → Bool
  | .i8 _ | .i16 _ | .i32 _ | .i64 _ => true
  | .u8 _ | .u16 _ | .u32 _ | .f32 _ | .u64 _ | .f64 _ => false

/-- The value as a number. -/
def number : LiteralValue → ℤ
  | .u8 v => v.toNat
  | .i8 v => v.toInt
  | .u16 v => v.toNat
  | .i16 v => v.toInt
  | .u32 v => v.toNat
  | .i32 v => v.toInt
  | .f32 v => v.toBits.toNat
  | .u64 v => v.toNat
  | .i64 v => v.toInt
  | .f64 v => v.toBits.toNat

end LiteralValue

/-- The bits of words, low word first. -/
def bitsOf : List UInt32 → ℕ
  | [] => 0
  | w :: ws => w.toNat + 2 ^ 32 * bitsOf ws

/-- The numbers of a type. -/
def InRange (width : ℕ) (signed : Bool) (n : ℤ) : Prop :=
  if signed then -2 ^ width ≤ 2 * n ∧ 2 * n < 2 ^ width else 0 ≤ n ∧ n < 2 ^ width

instance (width : ℕ) (signed : Bool) (n : ℤ) : Decidable (InRange width signed n) :=
  inferInstanceAs (Decidable (if signed then _ else _))

/-- Read a number of a type from its words.  The words as a whole hold the number, so whatever
is above its own bits has to be their extension. -/
def readNumber (width : ℕ) (signed : Bool) (words : List UInt32) : Option ℤ :=
  let bits : ℤ := bitsOf words
  let n := if signed then bits.bmod (2 ^ (32 * words.length)) else bits
  if words.length = (width + 31) / 32 ∧ InRange width signed n then some n else none

/-! ## Strings -/

/-- The words a string takes up: four bytes to a word, and its NUL. -/
def stringWords (s : String) : ℕ := s.utf8ByteSize / 4 + 1

/-- The words hold a string and then the rest: the bytes up to the first NUL are the string, all
others in the word of the NUL are zero, and the next word is the first of the rest. -/
structure ReadsString (words : List UInt32) (s : String) (rest : List UInt32) : Prop where
  text : ofUtf8Bytes ((wordBytes words).takeWhile (· != 0)) = some s
  terminated : (wordBytes words)[s.utf8ByteSize]? = some 0
  padding : ∀ b ∈ ((wordBytes words).take (4 * stringWords s)).drop s.utf8ByteSize, b = 0
  rest : words.drop (stringWords s) = rest

/-- Where a call puts a string: the operands before it, the string, and the operands behind. -/
def EmitCall.stringOperand : EmitCall → Option (ℕ × String × List UInt32)
  | .emitExtension name => some (0, name, [])
  | .emitExtInstImport name => some (1, name, [])
  | .emitEntryPoint _ _ name interfaces => some (2, name, interfaces)
  | .emitName _ name => some (1, name, [])
  | .emitMemberName _ _ name => some (2, name, [])
  | _ => none

end Oboromi.Interface.Spirv
