import Oboromi.Model.Nca

/-!
# The layout of an NCA header

What a header says (`HeaderFields`), where each of its fields lies (`placements`), and the
header a reader of the layout must see (`HeaderFields.header`).  A header is laid into a
buffer by writing its fields over whatever the buffer held.

The second half is about sections: an entry's geometry is safe when its size is the distance
of its offsets and reading it gives the bytes between them or an error.
-/

set_option autoImplicit false

namespace Oboromi.Interface

open Oboromi.Lib Oboromi.Model

/-! ## Fields -/

/-- The offsets of a section, in media units. -/
structure SectionFields where
  mediaOffsetStart : UInt32
  mediaOffsetEnd : UInt32

/-- The header of a section's file system. -/
structure SectionHeaderFields where
  fsType : UInt8
  hashType : UInt8
  pfs0Offset : UInt64
  pfs0Size : UInt64

/-- The fields of a header; the magic is "NCA" and a digit from 0 to 3. -/
structure HeaderFields where
  version : Fin 4
  distributionType : UInt8
  contentType : UInt8
  keyGenOld : UInt8
  keyAreaKeyIndex : UInt8
  contentSize : UInt64
  programId : UInt64
  keyGenNew : UInt8
  rightsId : Vector UInt8 16
  sections : Vector SectionFields 4
  keyArea : Vector Key 4
  sectionHeaders : Vector SectionHeaderFields 4

/-- The magic of a version. -/
def versionMagic (version : Fin 4) : Vector UInt8 4 :=
  #v[0x4E, 0x43, 0x41, 0x30 + UInt8.ofNat version.val]

/-! ## Offsets -/

namespace HeaderFields

variable (f : HeaderFields)

/-- The fields before the tables. -/
def scalarPlacements : List (ℕ × List UInt8) :=
  [(0x200, (versionMagic f.version).toList), (0x204, [f.distributionType]),
    (0x205, [f.contentType]), (0x206, [f.keyGenOld]), (0x207, [f.keyAreaKeyIndex]),
    (0x208, leDigits 8 f.contentSize.toNat), (0x210, leDigits 8 f.programId.toNat),
    (0x220, [f.keyGenNew]), (0x230, f.rightsId.toList)]

/-- The entry of a section: four entries of 16 bytes from 0x240. -/
def sectionPlacements (i : Fin 4) : List (ℕ × List UInt8) :=
  let s := f.sections.get i
  [(0x240 + 0x10 * i.val, leDigits 4 s.mediaOffsetStart.toNat),
    (0x244 + 0x10 * i.val, leDigits 4 s.mediaOffsetEnd.toNat)]

/-- The header of a section: four headers of 0x200 bytes from 0x400. -/
def sectionHeaderPlacements (i : Fin 4) : List (ℕ × List UInt8) :=
  let sh := f.sectionHeaders.get i
  [(0x402 + 0x200 * i.val, [sh.fsType]), (0x403 + 0x200 * i.val, [sh.hashType]),
    (0x440 + 0x200 * i.val, leDigits 8 sh.pfs0Offset.toNat),
    (0x448 + 0x200 * i.val, leDigits 8 sh.pfs0Size.toNat)]

/-- Where the fields lie, and as which bytes. -/
def placements : List (ℕ × List UInt8) :=
  f.scalarPlacements ++ (List.finRange 4).flatMap f.sectionPlacements ++
    (List.finRange 4).map (fun i => (0x300 + 0x10 * i.val, (f.keyArea.get i).toList)) ++
    (List.finRange 4).flatMap f.sectionHeaderPlacements

/-- A buffer with the fields laid over it. -/
def layIn (data : List UInt8) : List UInt8 := patchAll data f.placements

end HeaderFields

/-! ## Values -/

/-- The value a byte stands for: one of a table, or unknown. -/
def named {α : Type} (table : List α) (unknown : UInt8 → α) (v : UInt8) : α :=
  table.getD v.toNat (unknown v)

def contentTypes : List ContentType := [.program, .metadata, .control, .manual, .data, .publicData]

def fsTypes : List FsType := [.romFs, .pfs0]

def hashTypes : List HashType := [.auto, .none, .hierarchicalSha256, .hierarchicalIntegrity]

/-- The key generations a header gives: the new field is absent when it is 0xFF. -/
def generations (old new : UInt8) : List UInt8 := old :: if new = 0xFF then [] else [new]

/-- The entry of a section that has an offset is enabled. -/
def SectionFields.entry (s : SectionFields) : NcaSectionEntry where
  mediaOffsetStart := s.mediaOffsetStart
  mediaOffsetEnd := s.mediaOffsetEnd
  enabled := decide (s.mediaOffsetStart ≠ 0 ∨ s.mediaOffsetEnd ≠ 0)

/-- The offset and the size of a PFS0 belong to hash type 2. -/
def SectionHeaderFields.sectionHeader (sh : SectionHeaderFields) (enabled : Bool) :
    NcaSectionHeader where
  fsType := some (named fsTypes .unknown sh.fsType)
  hashType := some (named hashTypes .unknown sh.hashType)
  pfs0Offset := if sh.hashType = 2 then sh.pfs0Offset else 0
  pfs0Size := if sh.hashType = 2 then sh.pfs0Size else 0
  enabled := enabled

/-- The header with these fields; the effective key generation is the greatest. -/
def HeaderFields.header (f : HeaderFields) : NcaHeader where
  magic := versionMagic f.version
  distributionType := f.distributionType
  contentType := named contentTypes .unknown f.contentType
  keyGeneration := (generations f.keyGenOld f.keyGenNew).foldl max 0
  keyAreaKeyIndex := f.keyAreaKeyIndex
  contentSize := f.contentSize
  programId := f.programId
  rightsId := f.rightsId
  sections := f.sections.map SectionFields.entry
  keyArea := f.keyArea
  sectionHeaders := Vector.ofFn fun i =>
    (f.sectionHeaders.get i).sectionHeader (f.sections.get i).entry.enabled

/-! ## Sections -/

/-- A media unit. -/
abbrev MEDIA_UNIT : ℕ := 0x200

/-- The size of a section is the distance of its offsets, and reading it gives the bytes
between them or an error; offsets in the wrong order give an error. -/
structure GeometrySafe (b : Build) (entry : NcaSectionEntry) : Prop where
  size : ∃ size, entry.byteSize b = .ok size ∧
    entry.mediaOffsetStart.toNat * MEDIA_UNIT + size.toNat = entry.mediaOffsetEnd.toNat * MEDIA_UNIT
  read : ∀ opened, (∃ e, readSection b opened entry = .error (.io e)) ∨
    ∃ f bytes, opened = .ok f ∧ readSection b opened entry = .ok bytes ∧
      bytes = segment f.contents (entry.mediaOffsetStart.toNat * MEDIA_UNIT) bytes.length ∧
      entry.mediaOffsetStart.toNat * MEDIA_UNIT + bytes.length =
        entry.mediaOffsetEnd.toNat * MEDIA_UNIT
  reversed : entry.mediaOffsetEnd < entry.mediaOffsetStart →
    ∀ opened, ∃ e, readSection b opened entry = .error (.io e)

/-- The offsets of a section as a header buffer gives them. -/
def mediaStart (data : List UInt8) (i : Fin 4) : ℕ := leNat (segment data (0x240 + 0x10 * i.val) 4)

def mediaEnd (data : List UInt8) (i : Fin 4) : ℕ := leNat (segment data (0x244 + 0x10 * i.val) 4)

end Oboromi.Interface
