import Oboromi.Model.Nca
import Oboromi.Model.Xts

/-!
# Opening an NCA file

The path from the files on disk to the keys of a title: a key file is read into a key set, the
header of an NCA is decrypted with the set's header key and parsed, and the key area the header
holds is decrypted with the key its fields select.  What the host reads from a path is given: the
bytes or an error.
-/

set_option autoImplicit false

namespace Oboromi.Model

open Oboromi.Lib

/-- Parse a `prod.keys` (or `title.keys`) file, whose text the host has read or not.
SOURCE: core/src/fs/keys.rs:40-43 -/
def KeySet.load (b : Build) (lower : List Char → List Char) (file : Except IoError (List Char)) :
    Except Fault KeySet := do
  let text ← file.mapError Fault.io
  KeySet.parse b lower text

/-- Whether this NCA uses title-key encryption (rights_id != all zeros).
SOURCE: core/src/fs/nca.rs:218-220 -/
def NcaHeader.isTitleKeyEncrypted (h : NcaHeader) : Bool := h.rightsId.any (· != 0)

/-- `ok_or_else` with an I/O error. -/
def okOr {α : Type} (value : Option α) (e : IoError) : Except Fault α :=
  match value with
  | some a => .ok a
  | none => .error (.io e)

/-- Open an NCA file, decrypt the header, and return parsed metadata.
SOURCE: core/src/fs/nca.rs:239-253 -/
def openNca (debugMagic : Vector UInt8 4 → String) (cipher : BlockCipher)
    (file : Except IoError (List UInt8)) (keys : KeySet) : Except Fault NcaHeader := do
  let headerKey ← okOr keys.headerKey ⟨.notFound, "header_key missing from key set"⟩
  let fileBytes ← file.mapError Fault.io
  if fileBytes.length < HEADER_SIZE then
    .error (.io ⟨.invalidData, "file too small to be an NCA"⟩)
  else do
    let header ← Slice.range fileBytes 0 HEADER_SIZE
    NcaHeader.fromDecrypted debugMagic (Xts.xtsDecryptHeader cipher headerKey header)

end Oboromi.Model
