import Oboromi.Interface.GeneratedDecoder

/-!
# The dump of instruction encodings

The text that the generator reads: headings, the opcodes of a class, and its encodings, one line
each.  An encoding line gives fields one value; a field names its bit ranges, the most
significant first, behind the number of its bits.  What a dump says is said a second time without
text (`DumpLine.apply`): the heading decides which lines count, an encoding belongs to the last
instruction before it, and names of pipes are no instructions.
-/

set_option autoImplicit false

namespace Oboromi.Interface.DecoderGenerator

open Oboromi.Lib
open Oboromi.Model.DecoderGenerator

/-- A field of an encoding line. -/
structure DumpField where
  ranges : List (UInt64 × UInt64)
  name : List Char
  deriving DecidableEq, Repr

/-- What an encoding line gives its fields: a number, or something that depends on the operands. -/
inductive DumpValue where
  | number (n : UInt64)
  | operand (text : List Char)
  deriving DecidableEq, Repr

/-- A line of a dump. -/
inductive DumpLine where
  | opcodes
  | encodings
  | cls
  | opcode (name : List Char) (op : UInt64)
  | encoding (first : DumpField) (others : List DumpField) (value : DumpValue)
  | other (text : List Char)
  deriving DecidableEq, Repr

/-! ## The text -/

/-- The number of bits of a field. -/
def DumpField.totalBits (f : DumpField) : ℕ := (f.ranges.map width).sum

/-- The pieces of a field, between underscores: its bits, the ends of its ranges, its name. -/
def DumpField.pieces (f : DumpField) : List (List Char) :=
  Nat.toDigits 10 f.totalBits ::
    (f.ranges.flatMap fun r => [Nat.toDigits 10 r.2.toNat, Nat.toDigits 10 r.1.toNat]) ++
    Text.split '_' f.name

def DumpField.text (f : DumpField) : List Char :=
  "BITS_".toList ++ ['_'].intercalate f.pieces

def DumpValue.text : DumpValue → List Char
  | .number n => Nat.toDigits 10 n.toNat
  | .operand text => text

namespace DumpLine

def text : DumpLine → List Char
  | .opcodes => "OPCODES".toList
  | .encodings => "ENCODING".toList
  | .cls => "CLASS".toList
  | .opcode name op =>
    "        ".toList ++ name ++ " = 0b".toList ++ Nat.toDigits 2 op.toNat ++ [';']
  | .encoding first others value =>
    [','].intercalate ((first :: others).map DumpField.text) ++ '=' :: value.text
  | .other text => text

end DumpLine

/-- The text of a dump. -/
def dumpText (lines : List DumpLine) : List Char := lines.flatMap fun line => line.text ++ ['\n']

/-! ## What it says -/

/-- The number of a value. -/
def DumpValue.number? : DumpValue → Option UInt64
  | .number n => some n
  | .operand _ => none

/-- An instruction with a field of an encoding line; the value of its opcode field is its
opcode. -/
def DumpField.addTo (lower : List Char → List Char) (value : DumpValue) (inst : ParserInst)
    (f : DumpField) : ParserInst :=
  let name := lower f.name
  let value := if name = "opcode".toList then some inst.op else value.number?
  let field : ParserField :=
    ⟨Text.replaceChar '.' '_' name, UInt64.ofNat f.totalBits, f.ranges, value⟩
  if value.isSome then { inst with fixedFields := inst.fixedFields ++ [field] }
  else { inst with fields := inst.fields ++ [field] }

/-- The name of a pipe. -/
def IsPipe (name : List Char) : Prop := ∃ suffix ∈ pipeSuffixes, suffix <:+ name

instance (name : List Char) : Decidable (IsPipe name) := List.decidableBEx _ _

namespace DumpLine

/-- What a line adds to what was collected: an encoding without an instruction before it is
refused. -/
def apply (lower : List Char → List Char) (c : Collected) : DumpLine → Except Fault Collected
  | .opcodes => .ok { c with state := .opcodes }
  | .encodings => .ok { c with state := .encoding }
  | .cls => .ok { c with state := .cls }
  | .opcode name op =>
    if c.state = .opcodes ∧ ¬ IsPipe name then
      .ok { c with instructions := c.instructions ++ [⟨name, op, [], []⟩] }
    else .ok c
  | .encoding first others value =>
    if c.state = .encoding then
      match c.instructions.getLast? with
      | none => .error .panic
      | some inst =>
        .ok { c with
          instructions := c.instructions.dropLast ++
            [(first :: others).foldl (DumpField.addTo lower value) inst] }
    else .ok c
  | .other _ => .ok c

/-- The state in which the next line is read. -/
def nextState (state : ParserState) : DumpLine → ParserState
  | .opcodes => .opcodes
  | .encodings => .encoding
  | .cls => .cls
  | _ => state

end DumpLine

/-- The instructions of a dump. -/
def readDump (lower : List Char → List Char) (lines : List DumpLine) :
    Except Fault (List ParserInst) :=
  (lines.foldlM (DumpLine.apply lower) ⟨.none, []⟩).map Collected.instructions

/-! ## Dumps that can be written -/

/-- Text without the characters that separate. -/
def Plain (separators : List Char) (text : List Char) : Prop :=
  ∀ c ∈ text, c ∉ separators ∧ c ≠ '\n' ∧ c ≠ '\r'

/-- The text does not end in white space. -/
def EndsPlain (text : List Char) : Prop := ∀ c ∈ text.getLast?, Text.isWhitespace c = false

/-- A field that can be written: ordered ranges with a number of bits, and a name. -/
structure DumpField.Writable (f : DumpField) : Prop where
  ordered : ∀ r ∈ f.ranges, r.1 ≤ r.2
  total : f.totalBits < 2 ^ 64
  name : Plain [',', '='] f.name
  nameEnd : EndsPlain f.name

namespace DumpLine

/-- A line that can be written where the reader has the state: other text is no heading, and
nothing the reader takes for an opcode or an encoding there. -/
def Writable (state : ParserState) : DumpLine → Prop
  | .opcode name _ =>
    Plain ['='] name ∧ EndsPlain name ∧ ∀ c ∈ name.head?, Text.isWhitespace c = false
  | .encoding first others value =>
    (∀ f ∈ first :: others, f.Writable) ∧
      match value with
      | .number _ => True
      | .operand text => Plain [] text ∧ parseUsize text = none
  | .other text =>
    Plain [] text ∧
      text ∉ ["OPCODES".toList, "ENCODING".toList, "CLASS".toList] ∧
      (state = .opcodes → ¬ "        ".toList.isPrefixOf text) ∧
      (state = .encoding → ¬ "BITS".toList.isPrefixOf text)
  | _ => True

end DumpLine

/-- A dump that can be written. -/
def WritableDump : ParserState → List DumpLine → Prop
  | _, [] => True
  | state, line :: lines => line.Writable state ∧ WritableDump (line.nextState state) lines

end Oboromi.Interface.DecoderGenerator
