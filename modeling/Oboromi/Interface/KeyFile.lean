import Oboromi.Model.Nca

/-!
# What a key file says

A key file says which key belongs to which generation of which type, line by line and
nothing more (`Assigns`).  What a line says is settled by its text alone: it has a name and a
value (`lineEntry`), the name may end in an index (`NamesIndex`), and the value spells bytes, two
characters each (`IsValue`, `hexBytes`).  A lookup is faithful when it returns only what the file
says (`Faithful`).
-/

set_option autoImplicit false

namespace Oboromi.Interface

open Oboromi.Lib Oboromi.Model

/-- The start of the names of a type's keys. -/
def keyPrefix : KeyAreaType → List Char
  | .application => "key_area_key_application_".toList
  | .system => "key_area_key_system_".toList
  | .ocean => "key_area_key_ocean_".toList

/-! ## Lines -/

/-- The name and the value of a line, when it has the form of an entry. -/
def lineEntry (lower : List Char → List Char) (line : List Char) :
    Option (List Char × List Char) :=
  let line := Text.trim line
  if line = [] ∨ line.head? = some ';' ∨ line.head? = some '#' then none
  else (Text.splitOnce '=' line).map fun (name, value) =>
    (lower (Text.trim name), (Text.trim value).filter (· ≠ ' '))

/-- A name that is a prefix with an index behind it: hexadecimal digits in either case, with any
zeros in front of them, perhaps after a plus sign. -/
def NamesIndex (keyPrefix name : List Char) (idx : UInt64) : Prop :=
  ∃ digits, (name = keyPrefix ++ digits ∨ name = keyPrefix ++ '+' :: digits) ∧ digits ≠ [] ∧
    (∀ c ∈ digits, (Text.hexDigit c).isSome) ∧ Text.hexNumber digits = idx.toNat

/-- A hexadecimal string of even length. -/
def IsHexText (s : List Char) : Prop :=
  s.length % 2 = 0 ∧ ∀ c ∈ s, (Text.hexDigit c).isSome

/-- Every pair is two digits, or a plus sign and a digit, and there is a plus sign. -/
structure TakesSign (s : List Char) : Prop where
  even : s.length % 2 = 0
  pairs : ∀ (i : ℕ) (c : Char), s[i]? = some c →
    (Text.hexDigit c).isSome ∨ (i % 2 = 0 ∧ c = '+')
  sign : '+' ∈ s

/-- The values that spell bytes.  That a plus sign may stand for the high digit of a byte is
what `decode_hex` makes of it. -/
def IsValue (s : List Char) : Prop := IsHexText s ∨ TakesSign s

/-- The value of a hexadecimal string, two digits at a time; a plus sign counts as a zero. -/
def hexBytes : List Char → List UInt8
  | c :: d :: rest =>
    UInt8.ofNat (16 * (Text.hexDigit c).getD 0 + (Text.hexDigit d).getD 0) :: hexBytes rest
  | _ => []

/-! ## Files -/

/-- A line that gives bytes for an index of a type's table. -/
def Gives (lower : List Char → List Char) (line : List Char) (t : KeyAreaType) (idx : UInt64)
    (bytes : List UInt8) : Prop :=
  ∃ name value, lineEntry lower line = some (name, value) ∧ NamesIndex (keyPrefix t) name idx ∧
    IsValue value ∧ hexBytes value = bytes

/-- Some line assigns the key to a generation of a type. -/
def Assigns (lower : List Char → List Char) (lines : List (List Char)) (t : KeyAreaType)
    (g : UInt64) (k : Key) : Prop :=
  ∃ line ∈ lines, Gives lower line t g k.toList

/-- Some line names the type with an index from the generation on; the last index there is
has no successor and does not count. -/
def Reaches (lower : List Char → List Char) (lines : List (List Char)) (t : KeyAreaType)
    (g : UInt64) : Prop :=
  ∃ line ∈ lines, ∃ idx bytes, Gives lower line t idx bytes ∧
    idx.toNat + 1 < 2 ^ 64 ∧ g.toNat ≤ idx.toNat

/-- The key set answers for a generation of a type as the key file does. -/
structure Faithful (lower : List Char → List Char) (text : List Char) (ks : KeySet)
    (t : KeyAreaType) (g : UInt64) : Prop where
  /-- a key that is found was assigned -/
  found : ∀ k, ks.keyAreaKey t g = some k → Assigns lower (Text.lines text) t g k
  /-- nothing is found where nothing was assigned -/
  absent : (¬ ∃ k, Assigns lower (Text.lines text) t g k) → ks.keyAreaKey t g = none
  /-- and no key area is decrypted there -/
  undecrypted : ∀ (decryptBlock : Key → Key → Key) (h : NcaHeader),
    KeyAreaType.fromIndex h.keyAreaKeyIndex = t → h.keyGeneration.toUInt64 = g →
    (¬ ∃ k, Assigns lower (Text.lines text) t g k) → h.decryptKeyArea decryptBlock ks = none

end Oboromi.Interface
