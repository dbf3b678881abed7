import Oboromi.Lib.FixedArray
import Oboromi.Lib.HostFile
import Oboromi.Lib.LittleEndian
import Oboromi.Lib.Slice
import Oboromi.Model.Keys

/-!
# NCA headers

A decrypted header is read field by field at fixed offsets.  Its section entries say where
in the file a section lies, its key area is decrypted with a key that two of its fields
select.  The block cipher is the host's (`decryptBlock`, any function of key and block), and
so is the text that quotes a wrong magic (`debugMagic`, any function of it).
-/

set_option autoImplicit false

namespace Oboromi.Model

open Oboromi.Lib

/-- SOURCE: core/src/fs/nca.rs:10 -/
abbrev HEADER_SIZE : ℕ := 0xC00

/-- Type of content stored in an NCA.
SOURCE: core/src/fs/nca.rs:42-50 -/
inductive ContentType where
  | program
  | metadata
  | control
  | manual
  | data
  | publicData
  | unknown (v : UInt8)
  deriving DecidableEq, Repr

/-- SOURCE: core/src/fs/nca.rs:53-63 -/
def ContentType.fromU8 (v : UInt8) : ContentType :=
  match v.toNat with
  | 0 => .program
  | 1 => .metadata
  | 2 => .control
  | 3 => .manual
  | 4 => .data
  | 5 => .publicData
  | _ => .unknown v

/-- One entry in the NCA section table; the offsets count media units of 0x200 bytes.
SOURCE: core/src/fs/nca.rs:67-74 -/
structure NcaSectionEntry where
  mediaOffsetStart : UInt32
  mediaOffsetEnd : UInt32
  enabled : Bool

/-- The derived `Default`. -/
def NcaSectionEntry.default : NcaSectionEntry where
  mediaOffsetStart := 0
  mediaOffsetEnd := 0
  enabled := false

/-- Filesystem type of an NCA section.
SOURCE: core/src/fs/nca.rs:88-93 -/
inductive FsType where
  | romFs
  | pfs0
  | unknown (v : UInt8)
  deriving DecidableEq, Repr

def FsType.fromU8 (v : UInt8) : FsType :=
  match v.toNat with
  | 0 => .romFs
  | 1 => .pfs0
  | _ => .unknown v

/-- Hash type used in a section.
SOURCE: core/src/fs/nca.rs:96-103 -/
inductive HashType where
  | auto
  | none
  | hierarchicalSha256
  | hierarchicalIntegrity
  | unknown (v : UInt8)
  deriving DecidableEq, Repr

def HashType.fromU8 (v : UInt8) : HashType :=
  match v.toNat with
  | 0 => .auto
  | 1 => .none
  | 2 => .hierarchicalSha256
  | 3 => .hierarchicalIntegrity
  | _ => .unknown v

/-- Parsed section filesystem header.
SOURCE: core/src/fs/nca.rs:106-115 -/
structure NcaSectionHeader where
  fsType : Option FsType
  hashType : Option HashType
  pfs0Offset : UInt64
  pfs0Size : UInt64
  enabled : Bool

/-- The derived `Default`. -/
def NcaSectionHeader.default : NcaSectionHeader where
  fsType := .none
  hashType := .none
  pfs0Offset := 0
  pfs0Size := 0
  enabled := false

/-- A parsed NCA header.
SOURCE: core/src/fs/nca.rs:15-38 -/
structure NcaHeader where
  magic : Vector UInt8 4
  distributionType : UInt8
  contentType : ContentType
  keyGeneration : UInt8
  keyAreaKeyIndex : UInt8
  contentSize : UInt64
  programId : UInt64
  rightsId : Vector UInt8 16
  sections : Vector NcaSectionEntry 4
  keyArea : Vector Key 4
  sectionHeaders : Vector NcaSectionHeader 4

/-! ## Parsing -/

/-- The bytes "NCA" and a digit. -/
def ncaMagic (digit : UInt8) : Vector UInt8 4 := #v[0x4E, 0x43, 0x41, digit]

/-- A stretch of the buffer as an array. -/
def readArray (n : ℕ) (data : List UInt8) (start stop : ℕ) : Except Fault (Vector UInt8 n) := do
  let bytes ← Slice.range data start stop
  Slice.intoArray n bytes

/-- `u32::from_le_bytes`. -/
def readU32 (data : List UInt8) (start stop : ℕ) : Except Fault UInt32 := do
  let bytes ← readArray 4 data start stop
  return UInt32.ofNat (leNat bytes.toList)

/-- `u64::from_le_bytes`. -/
def readU64 (data : List UInt8) (start stop : ℕ) : Except Fault UInt64 := do
  let bytes ← readArray 8 data start stop
  return UInt64.ofNat (leNat bytes.toList)

namespace NcaHeader

/-- Effective key generation (combines old and new field, takes the max).
SOURCE: core/src/fs/nca.rs:119-121 -/
def keyGen (old new : UInt8) : UInt8 := if new = 0xFF then old else max new old

/-- SOURCE: core/src/fs/nca.rs:129 -/
def readMagic (data : List UInt8) : Except Fault (Vector UInt8 4) := do
  let b₀ ← Slice.index data 0x200
  let b₁ ← Slice.index data 0x201
  let b₂ ← Slice.index data 0x202
  let b₃ ← Slice.index data 0x203
  return #v[b₀, b₁, b₂, b₃]

/-- Section entries (4 × 0x10 bytes at 0x240).
SOURCE: core/src/fs/nca.rs:149-156 -/
def readSections (data : List UInt8) : Except Fault (Vector NcaSectionEntry 4) :=
  (List.finRange 4).foldlM (fun sections i => do
    let base := 0x240 + i.val * 0x10
    let start ← readU32 data base (base + 4)
    let stop ← readU32 data (base + 4) (base + 8)
    return put sections i {
      mediaOffsetStart := start
      mediaOffsetEnd := stop
      enabled := start ≠ 0 || stop ≠ 0 })
    (Vector.replicate 4 NcaSectionEntry.default)

/-- Key area (4 × 16 bytes at 0x300), still encrypted at this stage.
SOURCE: core/src/fs/nca.rs:159-162 -/
def readKeyArea (data : List UInt8) : Except Fault (Vector Key 4) :=
  (List.finRange 4).foldlM (fun keyArea i => do
    let key ← readArray 16 data (0x300 + i.val * 16) (0x300 + (i.val + 1) * 16)
    return put keyArea i key)
    (Vector.replicate 4 (Vector.replicate 16 0))

/-- The body of the loop over the section headers.
SOURCE: core/src/fs/nca.rs:174-199 -/
def readSectionHeader (secData : List UInt8) (enabled : Bool) (sh : NcaSectionHeader) :
    Except Fault NcaSectionHeader := do
  -- Version (u16) at +0
  let _ ← Slice.index secData 0
  let _ ← Slice.index secData 1
  let fsType ← Slice.index secData 2
  let hashType ← Slice.index secData 3
  let sh := { sh with
    enabled := enabled
    fsType := some (FsType.fromU8 fsType)
    hashType := some (HashType.fromU8 hashType) }
  if hashType = 2 then do
    -- The superblock; level 2 is the PFS0 itself.
    let hd ← Slice.range secData 0x8 secData.length
    if 0x48 ≤ hd.length then do
      let pfs0Offset ← readU64 hd 0x38 0x40
      let pfs0Size ← readU64 hd 0x40 0x48
      return { sh with pfs0Offset := pfs0Offset, pfs0Size := pfs0Size }
    else return sh
  else return sh

/-- Section headers at 0x400, 0x600, 0x800, 0xA00; the first that is not complete ends the
loop.
SOURCE: core/src/fs/nca.rs:171-200 -/
def readSectionHeaders (data : List UInt8) (sections : Vector NcaSectionEntry 4) :
    List (Fin 4) → Vector NcaSectionHeader 4 → Except Fault (Vector NcaSectionHeader 4)
  | [], headers => return headers
  | i :: is, headers => do
    let base := 0x400 + i.val * 0x200
    if data.length < base + 0x200 then return headers
    else do
      let secData ← Slice.range data base (base + 0x200)
      let sh ← readSectionHeader secData (sections.get i).enabled (headers.get i)
      readSectionHeaders data sections is (put headers i sh)

/-- Parse a decrypted 0xC00-byte header buffer.
SOURCE: core/src/fs/nca.rs:124-215 -/
def fromDecrypted (debugMagic : Vector UInt8 4 → String) (data : List UInt8) :
    Except Fault NcaHeader :=
  if data.length < HEADER_SIZE then .error (.io ⟨.invalidData, "header too short"⟩)
  else do
    let magic ← readMagic data
    if magic ≠ ncaMagic 0x33 ∧ magic ≠ ncaMagic 0x32 ∧ magic ≠ ncaMagic 0x31 ∧
        magic ≠ ncaMagic 0x30 then
      .error (.io ⟨.invalidData, "invalid NCA magic: " ++ debugMagic magic⟩)
    else do
      let distributionType ← Slice.index data 0x204
      let contentType ← Slice.index data 0x205
      let keyGenOld ← Slice.index data 0x206
      let keyAreaKeyIndex ← Slice.index data 0x207
      let contentSize ← readU64 data 0x208 0x210
      let programId ← readU64 data 0x210 0x218
      let keyGenNew ← Slice.index data 0x220
      let rightsId ← readArray 16 data 0x230 0x240
      let sections ← readSections data
      let keyArea ← readKeyArea data
      let sectionHeaders ← readSectionHeaders data sections (List.finRange 4)
        (Vector.replicate 4 NcaSectionHeader.default)
      return {
        magic := magic
        distributionType := distributionType
        contentType := ContentType.fromU8 contentType
        keyGeneration := keyGen keyGenOld keyGenNew
        keyAreaKeyIndex := keyAreaKeyIndex
        contentSize := contentSize
        programId := programId
        rightsId := rightsId
        sections := sections
        keyArea := keyArea
        sectionHeaders := sectionHeaders }

/-- Decrypt the key area using the appropriate key_area_key from `keys`.
SOURCE: core/src/fs/nca.rs:224-235 -/
def decryptKeyArea (decryptBlock : Key → Key → Key) (h : NcaHeader) (keys : KeySet) :
    Option (Vector Key 4) := do
  let kakType := KeyAreaType.fromIndex h.keyAreaKeyIndex
  let kak ← keys.keyAreaKey kakType h.keyGeneration.toUInt64
  return h.keyArea.map (decryptBlock kak)

end NcaHeader

/-! ## Sections -/

namespace NcaSectionEntry

/-- Byte offset of this section within the NCA file.
SOURCE: core/src/fs/nca.rs:78-80 -/
def byteOffset (b : Build) (entry : NcaSectionEntry) : Except Fault UInt64 :=
  b.mulU64 entry.mediaOffsetStart.toUInt64 0x200

/-- Byte length of this section.  The subtraction is on `u32`.
SOURCE: core/src/fs/nca.rs:82-84 -/
def byteSize (b : Build) (entry : NcaSectionEntry) : Except Fault UInt64 := do
  let units ← b.subU32 entry.mediaOffsetEnd entry.mediaOffsetStart
  b.mulU64 units.toUInt64 0x200

end NcaSectionEntry

/-- `vec![0u8; n]` reserves its capacity, which is at most `isize::MAX` bytes. -/
def reserve (n : UInt64) : Except Fault Unit :=
  if n.toNat < 2 ^ 63 then return () else .error .panic

/-- Read a section's raw bytes from an NCA file on disk, which the host has opened or not.
SOURCE: core/src/fs/nca.rs:259-269 -/
def readSection (b : Build) (opened : Except IoError HostFile) (entry : NcaSectionEntry) :
    Except Fault (List UInt8) := do
  let f ← opened.mapError Fault.io
  let offset ← entry.byteOffset b
  let sought := f.seek offset.toNat
  sought.1
  let size ← entry.byteSize b
  reserve size
  -- An empty buffer is filled without reading.
  if size = 0 then return []
  else (sought.2.readExact size.toNat).1

end Oboromi.Model
