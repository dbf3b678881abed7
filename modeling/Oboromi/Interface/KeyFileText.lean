import Mathlib.Data.Nat.Digits.Defs
import Oboromi.Interface.KeyLines
import Oboromi.Lib.TextRendering

/-!
# Key files as they are written

The lines a key dumper writes: the header key, the keys of the four tables under a name that ends
in the generation in hexadecimal, other keys under names of their own, comments and blank lines.
The text of a file is its lines one after another, and a reader of it must find these keys
(`HoldsKeys`); the tables are dense, so where no line gave a key below a table's largest index
there are zeros.
-/

set_option autoImplicit false

namespace Oboromi.Interface

open Oboromi.Lib Oboromi.Model

/-- A character of a key's name: an ASCII letter in lower case, a digit or an underscore. -/
def NameChar (c : Char) : Prop := c.isLower ∨ c.isDigit ∨ c = '_'

/-- The name of a key that is only recorded: not the header key's, and of no entry of a table. -/
structure RawName where
  chars : List Char
  chars_ne_nil : chars ≠ []
  nameChar : ∀ c ∈ chars, NameChar c
  ne_header : chars ≠ "header_key".toList
  not_addresses : ∀ t idx, ¬ Addresses chars t idx

/-- A line of a key file. -/
inductive KeyFileLine where
  | headerKey (key : Vector UInt8 32)
  | tableKey (t : KeyTable) (index : UInt64) (key : Key)
  | rawKey (name : RawName) (bytes : List UInt8)
  | comment (text : List Char)
  | blank (spaces : ℕ)

/-- The digits of an index, lowest first, and at least two of them. -/
def indexDigits (n : ℕ) : List ℕ :=
  Nat.digits 16 n ++ List.replicate (2 - (Nat.digits 16 n).length) 0

/-- An index in hexadecimal. -/
def indexText (index : UInt64) : List Char :=
  Text.digitText Nat.digitChar (indexDigits index.toNat)

namespace KeyFileLine

/-- The name and the bytes a line gives. -/
def entry : KeyFileLine → Option (List Char × List UInt8)
  | .headerKey key => some ("header_key".toList, key.toList)
  | .tableKey t index key => some (t.namePrefix ++ indexText index, key.toList)
  | .rawKey name bytes => some (name.chars, bytes)
  | .comment _ => none
  | .blank _ => none

/-- The characters of a line.  A comment cannot have a line break in it. -/
def text : KeyFileLine → List Char
  | .comment text => ';' :: ' ' :: text.filter fun c => c != '\n' && c != '\r'
  | .blank spaces => List.replicate spaces ' '
  | line =>
    match line.entry with
    | some (name, bytes) => name ++ ' ' :: '=' :: ' ' :: renderHex bytes
    | none => []

/-- The header key of a line. -/
def header : KeyFileLine → Option (Vector UInt8 32)
  | .headerKey key => some key
  | _ => none

/-- The key of a line for an index of a table. -/
def keyAt (t : KeyTable) (g : UInt64) : KeyFileLine → Option Key
  | .tableKey t' index key => if t' = t ∧ index = g then some key else none
  | _ => none

/-- The bytes of a line under a name. -/
def bytesAt (name : List Char) (line : KeyFileLine) : Option (List UInt8) :=
  line.entry.bind fun (n, bytes) => if n = name then some bytes else none

end KeyFileLine

/-- The text of a key file. -/
def keyFileText (lines : List KeyFileLine) : List Char :=
  lines.flatMap fun line => line.text ++ ['\n']

/-- The key set holds what the lines say: the last header key; a table up to its largest index,
at every index the last key that was written there or zeros; and under every name the last bytes. -/
structure HoldsKeys (lines : List KeyFileLine) (ks : KeySet) : Prop where
  header : ks.headerKey = lastSome KeyFileLine.header lines
  length : ∀ (t : KeyTable) (g : ℕ), g < (t.keys ks).length ↔
    ∃ index key, KeyFileLine.tableKey t index key ∈ lines ∧ g ≤ index.toNat
  key : ∀ (t : KeyTable) (g : UInt64), g.toNat < (t.keys ks).length →
    (t.keys ks)[g.toNat]? =
      some ((lastSome (KeyFileLine.keyAt t g) lines).getD (Vector.replicate 16 0))
  raw : ∀ name, ks.raw.get name = lastSome (KeyFileLine.bytesAt name) lines

/-- Lower-casing leaves the names of keys alone. -/
def KeepsLowerCase (lower : List Char → List Char) : Prop :=
  ∀ name : List Char, (∀ c ∈ name, NameChar c) → lower name = name

end Oboromi.Interface
