import Oboromi.Interface.HeaderLayout
import Oboromi.Interface.XtsCipher
import Oboromi.Model.NcaFile

/-!
# NCA files and what they are made from

An NCA is made from contents in the clear: the header key encrypts the header, a key of the key
set the key area in it, and the sections follow.  The image says which bytes that gives; reading
an image must give back the contents, and nothing but images may be accepted.
-/

set_option autoImplicit false

namespace Oboromi.Interface

open Oboromi.Lib Oboromi.Model

/-- A block cipher whose two directions undo each other. -/
structure Invertible (cipher : BlockCipher) : Prop where
  decrypt_encrypt : ∀ k p, cipher.decryptBlock k (cipher.encryptBlock k p) = p
  encrypt_decrypt : ∀ k p, cipher.encryptBlock k (cipher.decryptBlock k p) = p

/-- What an NCA is made from: the fields of the header with the key area in the clear, what the
header holds between its fields, and the bytes after it. -/
structure NcaContents where
  fields : HeaderFields
  filler : List UInt8
  body : List UInt8
  length_filler : filler.length = HEADER_SIZE

namespace NcaContents

/-- The fields with the key area encrypted. -/
def sealedFields (cipher : BlockCipher) (keyAreaKey : Key) (c : NcaContents) : HeaderFields :=
  { c.fields with keyArea := c.fields.keyArea.map (cipher.encryptBlock keyAreaKey) }

/-- The bytes of the file. -/
noncomputable def image (cipher : BlockCipher) (headerKey : Vector UInt8 32) (keyAreaKey : Key)
    (c : NcaContents) : List UInt8 :=
  xtsEncryptHeader cipher headerKey ((c.sealedFields cipher keyAreaKey).layIn c.filler) ++ c.body

end NcaContents

/-- A key set from which an NCA with these fields can be read: it has the header key, and the key
the fields select is the key area key. -/
structure HasKeys (keys : KeySet) (f : HeaderFields) (headerKey : Vector UInt8 32)
    (keyAreaKey : Key) : Prop where
  header : keys.headerKey = some headerKey
  keyArea : keys.keyAreaKey (KeyAreaType.fromIndex f.keyAreaKeyIndex)
    f.header.keyGeneration.toUInt64 = some keyAreaKey

/-- Section `i` lies in the body. -/
structure InBody (c : NcaContents) (i : Fin 4) : Prop where
  ordered : (c.fields.sections.get i).mediaOffsetStart ≤ (c.fields.sections.get i).mediaOffsetEnd
  after : HEADER_SIZE ≤ (c.fields.sections.get i).mediaOffsetStart.toNat * MEDIA_UNIT
  fits : (c.fields.sections.get i).mediaOffsetEnd.toNat * MEDIA_UNIT ≤ HEADER_SIZE + c.body.length

/-- The bytes of section `i`. -/
def NcaContents.sectionBytes (c : NcaContents) (i : Fin 4) : List UInt8 :=
  let s := c.fields.sections.get i
  segment c.body (s.mediaOffsetStart.toNat * MEDIA_UNIT - HEADER_SIZE)
    ((s.mediaOffsetEnd.toNat - s.mediaOffsetStart.toNat) * MEDIA_UNIT)

/-- Opening an NCA accepts exactly the files that begin with an encrypted header, and otherwise
reports an error.  It does not panic. -/
structure OpensExactly (debugMagic : Vector UInt8 4 → String) (cipher : BlockCipher) : Prop where
  accepts : ∀ file keys header, openNca debugMagic cipher file keys = .ok header ↔
    ∃ headerKey bytes f filler, keys.headerKey = some headerKey ∧ file = .ok bytes ∧
      filler.length = HEADER_SIZE ∧ HEADER_SIZE ≤ bytes.length ∧
      bytes.take HEADER_SIZE = xtsEncryptHeader cipher headerKey (HeaderFields.layIn f filler) ∧
      header = f.header
  refuses : ∀ file keys fault, openNca debugMagic cipher file keys = .error fault →
    ∃ e, fault = .io e ∧ (e.kind = .notFound ∧ keys.headerKey = none ∨ file = .error e ∨
      e.kind = .invalidData)

/-- What was read from an NCA is what it was made from: the header, the key area in the clear,
whether a title key is needed, and the bytes of every section in the body. -/
structure ReadsBack (b : Build) (cipher : BlockCipher) (keys : KeySet) (c : NcaContents)
    (file : List UInt8) (header : NcaHeader) : Prop where
  fields : { header with keyArea := c.fields.keyArea } = c.fields.header
  keyArea : header.decryptKeyArea cipher.decryptBlock keys = some c.fields.keyArea
  titleKey : header.isTitleKeyEncrypted = false ↔ c.fields.rightsId = Vector.replicate 16 0
  sections : ∀ i, InBody c i → ∀ opened : HostFile, opened.contents = file →
    readSection b (.ok opened) (header.sections.get i) = .ok (c.sectionBytes i)

end Oboromi.Interface
