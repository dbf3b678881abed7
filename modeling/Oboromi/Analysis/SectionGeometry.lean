import Oboromi.Analysis.HeaderRoundTrip

/-!
# The geometry of a section

Nothing between the parser and the allocation relates the two offsets of a section.  When
they are in order the size is their distance and a read is confined to it; when they are
not, the 32-bit subtraction panics (`byteSize_debug_reversed`) or wraps.
-/

set_option autoImplicit false

namespace Oboromi.Analysis

open Oboromi.Lib Oboromi.Model Oboromi.Interface

/-! ## Offsets and sizes -/

section Entry

variable (b : Build) (entry : NcaSectionEntry)

/-- Media units of 32 bits are bytes of 41. -/
theorem mulU64_media (units : UInt32) :
    b.mulU64 units.toUInt64 0x200 = .ok (units.toUInt64 * 0x200) ∧
      (units.toUInt64 * 0x200).toNat = units.toNat * MEDIA_UNIT := by
  have hunits : units.toUInt64.toNat = units.toNat := UInt32.toNat_toUInt64 units
  have hmedia : (0x200 : UInt64).toNat = MEDIA_UNIT := rfl
  have hlt := units.toNat_lt
  have hfits : units.toUInt64.toNat * (0x200 : UInt64).toNat < 2 ^ 64 := by
    rw [hunits, hmedia]
    unfold MEDIA_UNIT
    omega
  refine ⟨Build.mulU64_of_fits hfits, ?_⟩
  rw [toNat_mul_of_fits hfits, hunits, hmedia]

/-- The byte offset is the media offset in bytes, in either build. -/
theorem byteOffset_eq : ∃ offset, entry.byteOffset b = .ok offset ∧
    offset.toNat = entry.mediaOffsetStart.toNat * MEDIA_UNIT := by
  obtain ⟨hrun, hvalue⟩ := mulU64_media b entry.mediaOffsetStart
  exact ⟨_, hrun, hvalue⟩

/-- The size of a section whose offsets are in order. -/
theorem byteSize_of_le (h : entry.mediaOffsetStart.toNat ≤ entry.mediaOffsetEnd.toNat) :
    ∃ size, entry.byteSize b = .ok size ∧
      size.toNat = (entry.mediaOffsetEnd.toNat - entry.mediaOffsetStart.toNat) * MEDIA_UNIT := by
  obtain ⟨hrun, hvalue⟩ := mulU64_media b (entry.mediaOffsetEnd - entry.mediaOffsetStart)
  refine ⟨(entry.mediaOffsetEnd - entry.mediaOffsetStart).toUInt64 * 0x200, ?_, ?_⟩
  · unfold NcaSectionEntry.byteSize
    rw [Build.subU32_of_fits h, ok_bind]
    exact hrun
  · have hsub : (entry.mediaOffsetEnd - entry.mediaOffsetStart).toNat =
        entry.mediaOffsetEnd.toNat - entry.mediaOffsetStart.toNat :=
      UInt32.toNat_sub_of_le _ _ (UInt32.le_iff_toNat_le.mpr h)
    rw [hvalue, hsub]

/-- Offsets in the wrong order: a debug build stops at the subtraction. -/
theorem byteSize_debug_reversed (h : entry.mediaOffsetEnd.toNat < entry.mediaOffsetStart.toNat) :
    entry.byteSize .debug = .error .panic := by
  unfold NcaSectionEntry.byteSize Build.subU32
  rw [decide_eq_false (Nat.not_le.mpr h)]
  rfl

/-! ## Reading -/

section Opened

variable {b} {entry} {f : HostFile} {offset size : UInt64}

/-- A section beyond the file's limit gives an i/o error. -/
theorem readSection_seek (hoffset : entry.byteOffset b = .ok offset)
    (hlimit : f.limit < offset.toNat) : ∃ e, readSection b (.ok f) entry = .error (.io e) := by
  have hopened : Except.mapError Fault.io (.ok f : Except IoError HostFile) = .ok f := rfl
  unfold readSection
  rw [hopened, ok_bind, hoffset, ok_bind]
  dsimp only
  rw [HostFile.seek_of_gt hlimit]
  exact ⟨_, rfl⟩

/-- A section that is not empty is read in one piece at its offset. -/
theorem readSection_opened (hoffset : entry.byteOffset b = .ok offset)
    (hlimit : offset.toNat ≤ f.limit) (hsize : entry.byteSize b = .ok size)
    (hfits : size.toNat < 2 ^ 63) :
    readSection b (.ok f) entry =
      if size = 0 then .ok []
      else (HostFile.readExact { f with pos := offset.toNat } size.toNat).1 := by
  have hopened : Except.mapError Fault.io (.ok f : Except IoError HostFile) = .ok f := rfl
  have hreserve : reserve size = .ok () := if_pos hfits
  unfold readSection
  rw [hopened, ok_bind, hoffset, ok_bind]
  dsimp only
  rw [HostFile.seek_of_le hlimit, ok_bind, hsize, ok_bind, hreserve, ok_bind]
  rfl

end Opened

/-- Reading a section whose offsets are in order. -/
theorem readSection_of_le (h : entry.mediaOffsetStart.toNat ≤ entry.mediaOffsetEnd.toNat)
    (opened : Except IoError HostFile) :
    (∃ e, readSection b opened entry = .error (.io e)) ∨
      ∃ f bytes, opened = .ok f ∧ readSection b opened entry = .ok bytes ∧
        bytes = segment f.contents (entry.mediaOffsetStart.toNat * MEDIA_UNIT) bytes.length ∧
        entry.mediaOffsetStart.toNat * MEDIA_UNIT + bytes.length =
          entry.mediaOffsetEnd.toNat * MEDIA_UNIT := by
  obtain ⟨offset, hoffset, hoffsetNat⟩ := byteOffset_eq b entry
  obtain ⟨size, hsize, hsizeNat⟩ := byteSize_of_le b entry h
  have hstop := entry.mediaOffsetEnd.toNat_lt
  have hfits : size.toNat < 2 ^ 63 := by
    rw [hsizeNat]
    unfold MEDIA_UNIT
    omega
  have htotal : entry.mediaOffsetStart.toNat * MEDIA_UNIT + size.toNat =
      entry.mediaOffsetEnd.toNat * MEDIA_UNIT := by
    rw [hsizeNat, ← Nat.add_mul, Nat.add_sub_cancel' h]
  cases opened with
  | error e => exact .inl ⟨e, rfl⟩
  | ok f =>
      by_cases hlimit : offset.toNat ≤ f.limit
      · have hread := readSection_opened hoffset hlimit hsize hfits
        by_cases hempty : size = 0
        · rw [if_pos hempty] at hread
          refine .inr ⟨f, [], rfl, hread, (segment_zero _ _).symm, ?_⟩
          rw [← htotal, hempty]
          rfl
        · rw [if_neg hempty] at hread
          unfold HostFile.readExact at hread
          by_cases hfile : offset.toNat + size.toNat ≤ f.contents.length
          · rw [if_pos hfile] at hread
            have hlen : (segment f.contents offset.toNat size.toNat).length = size.toNat :=
              length_segment hfile
            refine .inr ⟨f, _, rfl, hread, ?_, ?_⟩
            · rw [hlen, hoffsetNat]
            · rw [hlen, htotal]
          · rw [if_neg hfile] at hread
            exact .inl ⟨_, hread⟩
      · exact .inl (readSection_seek hoffset (Nat.not_le.mp hlimit))

/-- An entry is safe exactly when its offsets are in order. -/
theorem geometrySafe_iff :
    GeometrySafe b entry ↔ entry.mediaOffsetStart.toNat ≤ entry.mediaOffsetEnd.toNat := by
  constructor
  · intro h
    obtain ⟨size, -, htotal⟩ := h.size
    unfold MEDIA_UNIT at htotal
    omega
  · intro h
    refine ⟨?_, readSection_of_le b entry h, ?_⟩
    · obtain ⟨size, hsize, hvalue⟩ := byteSize_of_le b entry h
      refine ⟨size, hsize, ?_⟩
      rw [hvalue, ← Nat.add_mul, Nat.add_sub_cancel' h]
    · intro hreversed
      exact absurd (UInt32.lt_iff_toNat_lt.mp hreversed) (Nat.not_lt.mpr h)

end Entry

/-! ## The sections of a header -/

/-- A 32-bit read denotes its four bytes in little-endian order. -/
theorem toNat_u32At (data : List UInt8) (o : ℕ) :
    (u32At data o).toNat = leNat (segment data o 4) := by
  have hlen : (segment data o 4).length ≤ 4 := List.length_take_le _ _
  have hlt : leNat (segment data o 4) < 2 ^ 32 :=
    (leNat_lt _).trans_le (Nat.pow_le_pow_right (by decide) hlen)
  exact UInt32.toNat_ofNat_of_lt' hlt

/-- **The geometry of each section of an accepted header is safe exactly when its end does
not lie before its start.**
SOURCE: core/src/fs/nca.rs:76-85, 149-156, 255-269 -/
theorem section_geometry_safe_iff (b : Build) (debugMagic : Vector UInt8 4 → String)
    (data : List UInt8) (header : NcaHeader)
    (hparse : NcaHeader.fromDecrypted debugMagic data = .ok header) (i : Fin 4) :
    GeometrySafe b (header.sections.get i) ↔ mediaStart data i ≤ mediaEnd data i := by
  have hentry : header.sections.get i = sectionAt data i := by
    rw [(eq_parsed_of_fromDecrypted debugMagic hparse).2]
    exact get_ofFn _ i
  rw [hentry, geometrySafe_iff]
  unfold sectionAt SectionFields.entry mediaStart mediaEnd
  rw [toNat_u32At, toNat_u32At]

/-- Every section of the uniform header is the given one. -/
theorem uniformHeader_section (start stop : UInt32) (i : Fin 4) :
    (uniformHeader start stop).header.sections.get i = SectionFields.entry ⟨start, stop⟩ := by
  have hmap : (uniformHeader start stop).header.sections.get i =
      ((uniformHeader start stop).sections.get i).entry := Vector.getElem_map _ i.isLt
  rw [hmap]
  exact congrArg SectionFields.entry (Vector.getElem_replicate i.isLt)

/-- The buffer of a header's fields parses to the header. -/
theorem fromDecrypted_headerBuffer (f : HeaderFields) :
    NcaHeader.fromDecrypted (fun _ => "") (headerBuffer f) = .ok f.header :=
  fromDecrypted_layIn f (by rw [List.length_replicate]) _

/-- A section of one media unit. -/
theorem section_geometry_safe_unit :
    GeometrySafe .release ((uniformHeader 6 7).header.sections.get 0) ↔
      mediaStart (headerBuffer (uniformHeader 6 7)) 0 ≤
        mediaEnd (headerBuffer (uniformHeader 6 7)) 0 :=
  section_geometry_safe_iff .release (fun _ => "") _ _
    (fromDecrypted_headerBuffer (uniformHeader 6 7)) 0

/-- An accepted header with a section that ends before it starts: its size panics, or is
nearly 2 TiB. -/
theorem reversed_section_accepted :
    NcaHeader.fromDecrypted (fun _ => "") (headerBuffer (uniformHeader 1 0)) =
        .ok (uniformHeader 1 0).header ∧
      ((uniformHeader 1 0).header.sections.get 0).byteSize .debug = .error .panic ∧
      ((uniformHeader 1 0).header.sections.get 0).byteSize .release = .ok 0x1FFFFFFFE00 ∧
      ¬ GeometrySafe .debug ((uniformHeader 1 0).header.sections.get 0) ∧
      ¬ GeometrySafe .release ((uniformHeader 1 0).header.sections.get 0) := by
  rw [uniformHeader_section]
  refine ⟨fromDecrypted_headerBuffer _, byteSize_debug_reversed _ (by decide), rfl, ?_, ?_⟩
  · rw [geometrySafe_iff]
    decide
  · rw [geometrySafe_iff]
    decide

end Oboromi.Analysis
