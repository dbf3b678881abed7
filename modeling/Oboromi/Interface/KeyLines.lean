import Oboromi.Lib.Reorder
import Oboromi.Interface.KeyFile

/-!
# The lines of a key file, one by one

A name addresses an entry of one of the four tables (`Addresses`).  Reading a value two bytes at
a time ends in one of three ways (`PairsEnd`), of which the third cuts a character in two.
`ParsesSafely` is what a parser of untrusted text owes its caller, `LineSound` the condition on a
line.  Two lines are `Dependent` when they have the same name or address the same entry of a
table, and a line assigns a key to an entry by what it spells (`AssignsEntry`).
-/

set_option autoImplicit false

namespace Oboromi.Interface

open Oboromi.Lib Oboromi.Model

/-! ## Names and tables -/

/-- The four tables of a key set. -/
inductive KeyTable where
  | application
  | system
  | ocean
  | titleKek
  deriving DecidableEq, Repr

/-- The start of the names of a table's keys. -/
def KeyTable.namePrefix : KeyTable → List Char
  | .application => "key_area_key_application_".toList
  | .system => "key_area_key_system_".toList
  | .ocean => "key_area_key_ocean_".toList
  | .titleKek => "title_kek_".toList

def KeyTable.keys (ks : KeySet) : KeyTable → List Key
  | .application => ks.keyAreaKeyApplication
  | .system => ks.keyAreaKeySystem
  | .ocean => ks.keyAreaKeyOcean
  | .titleKek => ks.titleKek

/-- A key set with another table. -/
def KeyTable.withKeys (ks : KeySet) (v : List Key) : KeyTable → KeySet
  | .application => { ks with keyAreaKeyApplication := v }
  | .system => { ks with keyAreaKeySystem := v }
  | .ocean => { ks with keyAreaKeyOcean := v }
  | .titleKek => { ks with titleKek := v }

/-- The name addresses an index of a table. -/
def Addresses (name : List Char) (t : KeyTable) (idx : UInt64) : Prop :=
  NamesIndex t.namePrefix name idx

/-- A table can be made long enough to have the index. -/
def Usable (idx : UInt64) : Prop := (idx.toNat + 1) * 16 < 2 ^ 63

/-- Every table is one that can be allocated. -/
def Allocated (ks : KeySet) : Prop := ∀ t : KeyTable, (t.keys ks).length * 16 < 2 ^ 63

/-! ## Values -/

/-- How reading a value two bytes at a time ends. -/
inductive PairsEnd where
  /-- every pair is a number -/
  | whole
  /-- two whole characters, or one of two bytes, that are no number -/
  | refused
  /-- a pair that ends inside a character -/
  | cut
  deriving DecidableEq, Repr

def pairsEnd : List Char → PairsEnd
  | [] => .whole
  | [c] => if 2 < c.utf8Size then .cut else .refused
  | c :: d :: rest =>
    if c.utf8Size = 1 then
      if d.utf8Size = 1 then
        if (Text.fromStrRadix16 256 [c, d]).isSome then pairsEnd rest else .refused
      else .cut
    else if c.utf8Size = 2 then .refused
    else .cut

def IsAscii (s : List Char) : Prop := ∀ c ∈ s, c.toNat < 128

/-- Bytes in hexadecimal, the high half of each first. -/
def renderHex (bytes : List UInt8) : List Char :=
  bytes.flatMap fun v => [Nat.digitChar (v.toNat / 16), Nat.digitChar (v.toNat % 16)]

/-- A hexadecimal string of even length is accepted, with its value, and nothing else is. -/
structure AcceptsExactly (s : List Char) : Prop where
  accepts : ∀ bytes, decodeHex s = .ok (some bytes) ↔ IsHexText s ∧ bytes = hexBytes s
  rejects : ¬ IsHexText s → decodeHex s = .ok none

/-! ## Totality -/

/-- The line has no influence on what is read, whatever was read before. -/
def Skipped (b : Build) (lower : List Char → List Char) (line : List Char) : Prop :=
  ∀ ks, KeySet.parseLine b lower ks line = .ok ks

/-- The line only leaves its bytes under its own name. -/
def OnlyRecorded (b : Build) (lower : List Char → List Char) (line name : List Char) : Prop :=
  ∀ ks, Allocated ks → ∃ ks', KeySet.parseLine b lower ks line = .ok ks' ∧
    ks'.headerKey = ks.headerKey ∧ (∀ t : KeyTable, t.keys ks' = t.keys ks) ∧
    ∀ n ≠ name, ks'.raw.get n = ks.raw.get n

/-- Parsing a text returns, and the lines it cannot use are skipped. -/
structure ParsesSafely (b : Build) (lower : List Char → List Char) (text : List Char) :
    Prop where
  returns : ∃ ks, KeySet.parse b lower text = .ok ks
  /-- a value that is no hexadecimal string of even length -/
  value : ∀ line ∈ Text.lines text, ∀ name value, lineEntry lower line = some (name, value) →
    ¬ IsHexText value → Skipped b lower line
  /-- a suffix that is no index of a table -/
  suffix : ∀ line ∈ Text.lines text, ∀ name value, lineEntry lower line = some (name, value) →
    ∀ t : KeyTable, t.namePrefix <+: name → (∀ idx, Addresses name t idx → ¬ Usable idx) →
      OnlyRecorded b lower line name

/-- The condition on a line: its value is refused before a character is cut, or it is a
hexadecimal string and the index is one a table can have.  The last `usize` is no such
index; the release build still gets past it when the value is not a key. -/
def LineSound (b : Build) (lower : List Char → List Char) (line : List Char) : Prop :=
  ∀ name value, lineEntry lower line = some (name, value) →
    Text.byteLen value % 2 = 1 ∨ pairsEnd value = .refused ∨
      (IsHexText value ∧ ∀ t idx, Addresses name t idx → Usable idx ∨
        (b = .release ∧ idx.toNat + 1 = 2 ^ 64 ∧ value.length ≠ 32))

/-! ## Order -/

/-- Two lines with the same name, or that address the same entry of a table. -/
def Dependent (lower : List Char → List Char) (line line' : List Char) : Prop :=
  ∃ entry entry', lineEntry lower line = some entry ∧ lineEntry lower line' = some entry' ∧
    (entry.1 = entry'.1 ∨ ∃ t idx, Addresses entry.1 t idx ∧ Addresses entry'.1 t idx)

/-- Two key sets with the same header key, tables and raw entries. -/
structure SameKeys (ks ks' : KeySet) : Prop where
  header : ks'.headerKey = ks.headerKey
  tables : ∀ t : KeyTable, t.keys ks' = t.keys ks
  raw : ∀ name, ks'.raw.get name = ks.raw.get name

/-- The line assigns a key to an entry of a table: its name addresses the entry and its value
spells the key. -/
def AssignsEntry (lower : List Char → List Char) (t : KeyTable) (idx : UInt64) (k : Key)
    (line : List Char) : Prop :=
  ∃ name value, lineEntry lower line = some (name, value) ∧ Addresses name t idx ∧
    IsValue value ∧ hexBytes value = k.toList

/-- The line gives a header key. -/
def GivesHeader (lower : List Char → List Char) (k : Vector UInt8 32) (line : List Char) : Prop :=
  ∃ value, lineEntry lower line = some ("header_key".toList, value) ∧ IsValue value ∧
    hexBytes value = k.toList

/-- Of the lines that give a key this way, the last one gives `k`. -/
def LastGives {α : Type} (gives : α → List Char → Prop) (lines : List (List Char)) (k : α) :
    Prop :=
  ∃ before line after, lines = before ++ line :: after ∧ gives k line ∧
    ∀ l ∈ after, ∀ k', ¬ gives k' l

end Oboromi.Interface
