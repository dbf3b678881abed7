import Oboromi.Lib.HashMap
import Oboromi.Lib.Text

/-!
# Key files

`KeySet.parse` reads a key file line by line; a generation's key is an index into a dense
table, which `ensureLen` grows when a line names an index past its end; the allocation is
taken to succeed up to `isize::MAX` bytes.  `usize` is 64 bits wide.  Lower-casing a name is
the host's (`lower`, any function of the name).
-/

set_option autoImplicit false

namespace Oboromi.Model

open Oboromi.Lib

/-- A 128-bit key. -/
abbrev Key := Vector UInt8 16

/-- Decoded key set parsed from a `prod.keys` file.
SOURCE: core/src/fs/keys.rs:10-30 -/
structure KeySet where
  headerKey : Option (Vector UInt8 32)
  keyAreaKeyApplication : List Key
  keyAreaKeySystem : List Key
  keyAreaKeyOcean : List Key
  titleKek : List Key
  raw : HashMap (List Char) (List UInt8)

/-- The derived `Default`. -/
def KeySet.default : KeySet where
  headerKey := none
  keyAreaKeyApplication := []
  keyAreaKeySystem := []
  keyAreaKeyOcean := []
  titleKek := []
  raw := HashMap.empty

/-- Which key_area_key table to use for a given NCA.
SOURCE: core/src/fs/keys.rs:125-129 -/
inductive KeyAreaType where
  | application
  | system
  | ocean
  deriving DecidableEq, Repr

/-- SOURCE: core/src/fs/keys.rs:132-139 -/
def KeyAreaType.fromIndex (idx : UInt8) : KeyAreaType :=
  if idx = 0 then .application
  else if idx = 1 then .ocean
  else if idx = 2 then .system
  else .application

/-! ## Helpers -/

/-- The loop of `decode_hex` over the positions of the pairs.  `none` is the `Err` of the
source; it stops the loop before later pairs are sliced. -/
def decodePairs (s : List Char) : List ℕ → Except Fault (Option (List UInt8))
  | [] => return some []
  | i :: is => do
    let pair ← Text.byteSlice s i (i + 2)
    match Text.fromStrRadix16 256 pair with
    | none => return none
    | some v => do
      let rest ← decodePairs s is
      return rest.map (UInt8.ofNat v :: ·)

/-- SOURCE: core/src/fs/keys.rs:144-152 -/
def decodeHex (s : List Char) : Except Fault (Option (List UInt8)) :=
  if Text.byteLen s % 2 ≠ 0 then return none
  else decodePairs s ((List.range (Text.byteLen s / 2)).map (2 * ·))

/-- Parse the trailing hex number in a key name like `key_area_key_system_0a`.
SOURCE: core/src/fs/keys.rs:155-158 -/
def parseHexSuffix (name keyPrefix : List Char) : Option UInt64 := do
  let suffix ← keyPrefix.isPrefixOf? name
  let n ← Text.fromStrRadix16 (2 ^ 64) suffix
  return UInt64.ofNat n

/-- Push zero keys while the table is shorter than `len`.  A table of more than `isize::MAX` bytes
cannot be allocated; up to there the host is taken to have the memory.
SOURCE: core/src/fs/keys.rs:160-164 -/
def ensureLen (v : List Key) (len : UInt64) : Except Fault (List Key) :=
  if len.toNat ≤ v.length then return v
  else if len.toNat * 16 < 2 ^ 63 then
    return v ++ List.replicate (len.toNat - v.length) (Vector.replicate 16 0)
  else .error .panic

/-! ## Parsing -/

namespace KeySet

/-- The name and the bytes a line gives, if it gives any.
SOURCE: core/src/fs/keys.rs:50-61 -/
def readLine (lower : List Char → List Char) (line : List Char) :
    Except Fault (Option (List Char × List UInt8)) :=
  let line := Text.trim line
  if line = [] ∨ line.head? = some ';' ∨ line.head? = some '#' then return none
  else match Text.splitOnce '=' line with
    | none => return none
    | some (name, value) => do
      let name := lower (Text.trim name)
      let hex := (Text.trim value).filter (· ≠ ' ')
      match ← decodeHex hex with
      | none => return none
      | some bytes => return some (name, bytes)

/-- Put a key at its index of a table: the body of the four table arms.
SOURCE: core/src/fs/keys.rs:75-78 -/
def putKey (b : Build) (table : List Key) (idx : UInt64) (bytes : List UInt8) :
    Except Fault (List Key) := do
  let len ← b.addU64 idx 1
  let table ← ensureLen table len
  if h : bytes.length = 16 then
    if idx.toNat < table.length then
      return table.set idx.toNat ⟨bytes.toArray, by simpa using h⟩
    else .error .panic
  else return table

/-- SOURCE: core/src/fs/keys.rs:63-106 -/
def storeKey (b : Build) (ks : KeySet) (name : List Char) (bytes : List UInt8) :
    Except Fault KeySet :=
  let ks := { ks with raw := ks.raw.insert name bytes }
  if name = "header_key".toList then
    if h : bytes.length = 32 then
      return { ks with headerKey := some ⟨bytes.toArray, by simpa using h⟩ }
    else return ks
  else if "key_area_key_application_".toList.isPrefixOf name then
    match parseHexSuffix name "key_area_key_application_".toList with
    | none => return ks
    | some idx => do
      let table ← putKey b ks.keyAreaKeyApplication idx bytes
      return { ks with keyAreaKeyApplication := table }
  else if "key_area_key_system_".toList.isPrefixOf name then
    match parseHexSuffix name "key_area_key_system_".toList with
    | none => return ks
    | some idx => do
      let table ← putKey b ks.keyAreaKeySystem idx bytes
      return { ks with keyAreaKeySystem := table }
  else if "key_area_key_ocean_".toList.isPrefixOf name then
    match parseHexSuffix name "key_area_key_ocean_".toList with
    | none => return ks
    | some idx => do
      let table ← putKey b ks.keyAreaKeyOcean idx bytes
      return { ks with keyAreaKeyOcean := table }
  else if "title_kek_".toList.isPrefixOf name then
    match parseHexSuffix name "title_kek_".toList with
    | none => return ks
    | some idx => do
      let table ← putKey b ks.titleKek idx bytes
      return { ks with titleKek := table }
  else return ks

/-- The body of the loop over the lines.
SOURCE: core/src/fs/keys.rs:49-107 -/
def parseLine (b : Build) (lower : List Char → List Char) (ks : KeySet) (line : List Char) :
    Except Fault KeySet := do
  match ← readLine lower line with
  | none => return ks
  | some (name, bytes) => ks.storeKey b name bytes

/-- Parse key file text.
SOURCE: core/src/fs/keys.rs:46-110 -/
def parse (b : Build) (lower : List Char → List Char) (text : List Char) :
    Except Fault KeySet :=
  (Text.lines text).foldlM (parseLine b lower) KeySet.default

/-- The table of a type. -/
def table (ks : KeySet) : KeyAreaType → List Key
  | .application => ks.keyAreaKeyApplication
  | .system => ks.keyAreaKeySystem
  | .ocean => ks.keyAreaKeyOcean

/-- Return the key_area_key for a given type and generation, or None.
SOURCE: core/src/fs/keys.rs:113-120 -/
def keyAreaKey (ks : KeySet) (keyType : KeyAreaType) (generation : UInt64) : Option Key :=
  (ks.table keyType)[generation.toNat]?

end KeySet

end Oboromi.Model
