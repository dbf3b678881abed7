import Oboromi.Analysis.HeaderFields

/-!
# A header that is laid into a buffer is parsed back

Every placement ends before the next one begins (`spans_apart`), so none of them disturbs
another and the parser, which reads what lies at each offset (`fromDecrypted_eq`), sees the
fields that were laid in.
-/

set_option autoImplicit false

namespace Oboromi.Analysis

open Oboromi.Lib Oboromi.Model Oboromi.Interface

/-! ## The placements -/

/-- The offsets and the lengths of the placements. -/
def spans : List (ℕ × ℕ) :=
  [(0x200, 4), (0x204, 1), (0x205, 1), (0x206, 1), (0x207, 1), (0x208, 8), (0x210, 8),
    (0x220, 1), (0x230, 16)] ++
  (List.finRange 4).flatMap (fun i => [(0x240 + 0x10 * i.val, 4), (0x244 + 0x10 * i.val, 4)]) ++
  (List.finRange 4).map (fun i => (0x300 + 0x10 * i.val, 16)) ++
  (List.finRange 4).flatMap fun i => [(0x402 + 0x200 * i.val, 1), (0x403 + 0x200 * i.val, 1),
    (0x440 + 0x200 * i.val, 8), (0x448 + 0x200 * i.val, 8)]

/-- Each placement ends before the next one begins. -/
theorem spans_apart : spans.Pairwise fun v w => v.1 + v.2 ≤ w.1 := by decide

/-- All of them lie in a header. -/
theorem spans_fit : ∀ s ∈ spans, s.1 + s.2 ≤ 0xC00 := by decide

section Placements

variable (f : HeaderFields)

/-- The offsets and lengths do not depend on the fields. -/
theorem placements_spans : f.placements.map (fun w => (w.1, w.2.length)) = spans := by
  unfold HeaderFields.placements HeaderFields.scalarPlacements HeaderFields.sectionPlacements
    HeaderFields.sectionHeaderPlacements spans
  simp [List.map_flatMap, length_leDigits]

/-- The placements of a header are apart. -/
theorem placements_apart : f.placements.Pairwise Apart := by
  have hspans := spans_apart
  rw [← placements_spans f, List.pairwise_map] at hspans
  exact hspans.imp fun hbefore => .inl hbefore

/-- They lie in the header. -/
theorem placements_fit {w : ℕ × List UInt8} (hw : w ∈ f.placements) :
    w.1 + w.2.length ≤ 0xC00 := by
  apply spans_fit (w.1, w.2.length)
  rw [← placements_spans f]
  exact List.mem_map_of_mem hw

variable {data : List UInt8} (h : 0xC00 ≤ data.length)

include h

/-- Laying the fields in keeps the length. -/
theorem length_layIn : (f.layIn data).length = data.length :=
  length_patchAll fun _ hw => (placements_fit f hw).trans h

/-- Every field is read back. -/
theorem segment_layIn {o : ℕ} {bytes : List UInt8} (hmem : (o, bytes) ∈ f.placements) :
    segment (f.layIn data) o bytes.length = bytes :=
  segment_patchAll (placements_apart f) (fun _ hw => (placements_fit f hw).trans h) hmem

/-! ## The fields -/

/-- An array is read back. -/
theorem arrayAt_layIn {n o : ℕ} {xs : Vector UInt8 n} (hmem : (o, xs.toList) ∈ f.placements) :
    arrayAt n (f.layIn data) o = xs := by
  have hfits := placements_fit f hmem
  rw [Vector.length_toList] at hfits
  apply Vector.toList_inj.mp
  rw [toList_arrayAt (hfits.trans (h.trans_eq (length_layIn f h).symm))]
  have hread := segment_layIn f h hmem
  rwa [Vector.length_toList] at hread

/-- A byte is read back. -/
theorem getD_layIn {o : ℕ} {v : UInt8} (hmem : (o, [v]) ∈ f.placements) :
    (f.layIn data).getD o 0 = v := by
  have hentry := congrArg (·[0]?) (segment_layIn f h hmem)
  rw [getElem?_segment] at hentry
  exact congrArg (·.getD 0) hentry

/-- A 32-bit word is read back. -/
theorem u32At_layIn {o : ℕ} {v : UInt32} (hmem : (o, leDigits 4 v.toNat) ∈ f.placements) :
    u32At (f.layIn data) o = v := by
  have hread := segment_layIn f h hmem
  rw [length_leDigits] at hread
  unfold u32At
  rw [hread, leNat_leDigits_of_lt v.toNat_lt, UInt32.ofNat_toNat]

/-- A 64-bit word is read back. -/
theorem u64At_layIn {o : ℕ} {v : UInt64} (hmem : (o, leDigits 8 v.toNat) ∈ f.placements) :
    u64At (f.layIn data) o = v := by
  have hread := segment_layIn f h hmem
  rw [length_leDigits] at hread
  unfold u64At
  rw [hread, leNat_leDigits_of_lt v.toNat_lt, UInt64.ofNat_toNat]

/-! ## The parsed header -/

omit h in
/-- The fields before the tables are placed. -/
theorem mem_scalars {w : ℕ × List UInt8} (hw : w ∈ f.scalarPlacements) : w ∈ f.placements :=
  List.mem_append_left _ (List.mem_append_left _ (List.mem_append_left _ hw))

omit h in
/-- The entries of the sections are placed. -/
theorem mem_section {w : ℕ × List UInt8} {i : Fin 4} (hw : w ∈ f.sectionPlacements i) :
    w ∈ f.placements := by
  have hin := List.mem_flatMap.mpr ⟨i, List.mem_finRange i, hw⟩
  exact List.mem_append_left _ (List.mem_append_left _ (List.mem_append_right _ hin))

omit h in
/-- The keys are placed. -/
theorem mem_keyArea (i : Fin 4) :
    (0x300 + 0x10 * i.val, (f.keyArea.get i).toList) ∈ f.placements := by
  refine List.mem_append_left _ (List.mem_append_right _ ?_)
  exact List.mem_map.mpr ⟨i, List.mem_finRange i, rfl⟩

omit h in
/-- The headers of the sections are placed. -/
theorem mem_sectionHeader {w : ℕ × List UInt8} {i : Fin 4}
    (hw : w ∈ f.sectionHeaderPlacements i) : w ∈ f.placements :=
  List.mem_append_right _ (List.mem_flatMap.mpr ⟨i, List.mem_finRange i, hw⟩)

/-- The entry of a section is read back. -/
theorem sectionAt_layIn (i : Fin 4) : sectionAt (f.layIn data) i = (f.sections.get i).entry := by
  have hstart := u32At_layIn f h (mem_section f (i := i) List.mem_cons_self)
  have hstop := u32At_layIn f h (mem_section f (i := i) (List.mem_cons_of_mem _ List.mem_cons_self))
  unfold sectionAt
  rw [hstart, hstop]

/-- The header of a section is read back. -/
theorem sectionHeaderAt_layIn (i : Fin 4) :
    sectionHeaderAt (f.layIn data) i =
      (f.sectionHeaders.get i).sectionHeader (f.sections.get i).entry.enabled := by
  have hmem (w : ℕ × List UInt8) (hw : w ∈ f.sectionHeaderPlacements i) : w ∈ f.placements :=
    mem_sectionHeader f hw
  unfold HeaderFields.sectionHeaderPlacements at hmem
  simp only [List.forall_mem_cons] at hmem
  obtain ⟨hfs, hhash, hoffset, hsize, -⟩ := hmem
  unfold sectionHeaderAt
  rw [sectionAt_layIn f h, getD_layIn f h hfs, getD_layIn f h hhash, u64At_layIn f h hoffset,
    u64At_layIn f h hsize]

omit h in
/-- The effective key generation is the greatest of those given. -/
theorem keyGen_eq (old new : UInt8) :
    NcaHeader.keyGen old new = (generations old new).foldl max 0 := by
  have hzero : max 0 old = old := if_pos UInt8.zero_le
  unfold NcaHeader.keyGen generations
  by_cases habsent : new = 0xFF
  · simp only [if_pos habsent, List.foldl_cons, List.foldl_nil]
    exact hzero.symm
  · simp only [if_neg habsent, List.foldl_cons, List.foldl_nil]
    rw [hzero]
    change (if new ≤ old then old else new) = if old ≤ new then new else old
    by_cases hle : old ≤ new
    · rw [if_pos hle]
      split
      · next hge => exact UInt8.le_antisymm hle hge
      · rfl
    · rw [if_neg hle, if_pos ((UInt8.le_total old new).resolve_left hle)]

/-- What was laid in is what the parser sees. -/
theorem parsed_layIn : parsed (f.layIn data) = f.header := by
  have hmem (w : ℕ × List UInt8) (hw : w ∈ f.scalarPlacements) : w ∈ f.placements :=
    mem_scalars f hw
  unfold HeaderFields.scalarPlacements at hmem
  simp only [List.forall_mem_cons] at hmem
  obtain ⟨hmagic, hdistribution, hcontent, hold, hindex, hsize, hprogram, hnew, hrights, -⟩ := hmem
  have hsections : Vector.ofFn (sectionAt (f.layIn data)) = f.sections.map SectionFields.entry := by
    apply ext_get
    intro i
    rw [get_ofFn, sectionAt_layIn f h]
    exact (Vector.getElem_map _ i.isLt).symm
  have hkeys : (Vector.ofFn fun i : Fin 4 => arrayAt 16 (f.layIn data) (0x300 + i.val * 16)) =
      f.keyArea := by
    apply ext_get
    intro i
    rw [get_ofFn, Nat.mul_comm i.val 16]
    exact arrayAt_layIn f h (mem_keyArea f i)
  have hheaders : Vector.ofFn (sectionHeaderAt (f.layIn data)) = Vector.ofFn fun i =>
      (f.sectionHeaders.get i).sectionHeader (f.sections.get i).entry.enabled :=
    congrArg Vector.ofFn (funext (sectionHeaderAt_layIn f h))
  unfold parsed HeaderFields.header
  rw [arrayAt_layIn f h hmagic, getD_layIn f h hdistribution, getD_layIn f h hcontent,
    getD_layIn f h hold, getD_layIn f h hindex, u64At_layIn f h hsize, u64At_layIn f h hprogram,
    getD_layIn f h hnew, arrayAt_layIn f h hrights, hsections, hkeys, hheaders,
    contentType_named, keyGen_eq]

/-- The parser returns the header whose fields were laid in. -/
theorem fromDecrypted_layIn (debugMagic : Vector UInt8 4 → String) :
    NcaHeader.fromDecrypted debugMagic (f.layIn data) = .ok f.header := by
  have hmagic := segment_layIn f h (mem_scalars f List.mem_cons_self)
  rw [Vector.length_toList] at hmagic
  have hlen : 0xC00 ≤ (f.layIn data).length := h.trans_eq (length_layIn f h).symm
  rw [fromDecrypted_eq debugMagic hlen f.version hmagic, parsed_layIn f h]

end Placements

/-! ## Totality -/

section Totality

variable (debugMagic : Vector UInt8 4 → String) {data : List UInt8}

/-- A buffer that is too short is refused. -/
theorem fromDecrypted_short (h : data.length < 0xC00) :
    NcaHeader.fromDecrypted debugMagic data = .error (.io ⟨.invalidData, "header too short"⟩) :=
  if_pos h

/-- A buffer with another magic is refused with an error that quotes it. -/
theorem fromDecrypted_unknown (h : 0xC00 ≤ data.length)
    (hmagic : ∀ v, segment data 0x200 4 ≠ (versionMagic v).toList) :
    NcaHeader.fromDecrypted debugMagic data = .error (.io
      ⟨.invalidData, "invalid NCA magic: " ++ debugMagic (arrayAt 4 data 0x200)⟩) := by
  have hne (v : Fin 4) : arrayAt 4 data 0x200 ≠ versionMagic v := by
    intro heq
    apply hmagic v
    rw [← toList_arrayAt (by omega), heq]
  unfold NcaHeader.fromDecrypted
  rw [if_neg (Nat.not_lt.mpr h), readMagic_eq h, ok_bind,
    if_pos ⟨hne 3, hne 2, hne 1, hne 0⟩]

/-- What is accepted is what the buffer says. -/
theorem eq_parsed_of_fromDecrypted {header : NcaHeader}
    (hparse : NcaHeader.fromDecrypted debugMagic data = .ok header) :
    0xC00 ≤ data.length ∧ header = parsed data := by
  by_cases h : 0xC00 ≤ data.length
  · by_cases hmagic : ∃ v, segment data 0x200 4 = (versionMagic v).toList
    · obtain ⟨v, hv⟩ := hmagic
      rw [fromDecrypted_eq debugMagic h v hv] at hparse
      exact ⟨h, (Except.ok.inj hparse).symm⟩
    · rw [fromDecrypted_unknown debugMagic h (not_exists.mp hmagic)] at hparse
      cases hparse
  · rw [fromDecrypted_short debugMagic (Nat.not_le.mp h)] at hparse
    cases hparse

end Totality

/-- **The header parser is total and reads back its layout.**
SOURCE: core/src/fs/nca.rs:105-215 -/
theorem header_parser_total_and_faithful (debugMagic : Vector UInt8 4 → String) :
    (∀ data : List UInt8,
      if HEADER_SIZE ≤ data.length ∧ ∃ v, segment data 0x200 4 = (versionMagic v).toList then
        ∃ header, NcaHeader.fromDecrypted debugMagic data = .ok header
      else ∃ e, NcaHeader.fromDecrypted debugMagic data = .error (.io e)) ∧
    ∀ (f : HeaderFields) (data : List UInt8), HEADER_SIZE ≤ data.length →
      NcaHeader.fromDecrypted debugMagic (f.layIn data) = .ok f.header := by
  refine ⟨?_, fun f data h => fromDecrypted_layIn f h debugMagic⟩
  intro data
  split
  · next haccepted =>
      obtain ⟨h, v, hmagic⟩ := haccepted
      exact ⟨_, fromDecrypted_eq debugMagic h v hmagic⟩
  · next hrefused =>
      by_cases h : HEADER_SIZE ≤ data.length
      · refine ⟨_, fromDecrypted_unknown debugMagic h ?_⟩
        intro v hmagic
        exact hrefused ⟨h, v, hmagic⟩
      · exact ⟨_, fromDecrypted_short debugMagic (Nat.not_le.mp h)⟩

/-- The header of a control archive: an NCA2 whose new key generation is the greater, with a
PFS0, a RomFS, a section of unknown types and one that is not enabled. -/
def controlHeader : HeaderFields where
  version := 2
  distributionType := 1
  contentType := 2
  keyGenOld := 3
  keyAreaKeyIndex := 2
  contentSize := 0x123456789A00
  programId := 0x0100ABCD12340000
  keyGenNew := 11
  rightsId := Vector.ofFn fun i => UInt8.ofNat (0x10 + i.val)
  sections := #v[⟨6, 0x20⟩, ⟨0x20, 0x4321⟩, ⟨0x4321, 0x87654321⟩, ⟨0, 0⟩]
  keyArea := Vector.ofFn fun k => Vector.ofFn fun i => UInt8.ofNat (0x80 + 16 * k.val + i.val)
  sectionHeaders :=
    #v[⟨1, 2, 0x200, 0x3400⟩, ⟨0, 3, 0x11, 0x22⟩, ⟨7, 9, 0x33, 0x44⟩, ⟨1, 2, 0x55, 0x66⟩]

/-- Such a header, laid over a buffer of 0xA5 with four bytes past its end, is read back. -/
theorem header_parser_reads_control :
    NcaHeader.fromDecrypted (fun _ => "") (controlHeader.layIn (List.replicate 0xC04 0xA5)) =
        .ok controlHeader.header ∧
      controlHeader.header.keyGeneration = 11 ∧
      (controlHeader.header.sectionHeaders.get 0).pfs0Offset = 0x200 :=
  ⟨(header_parser_total_and_faithful fun _ => "").2 controlHeader (List.replicate 0xC04 0xA5)
    (by rw [List.length_replicate, HEADER_SIZE]; decide), rfl, congrArg _ (get_ofFn _ 0)⟩

/-- A header all of whose sections have the same offsets, and are empty otherwise. -/
def uniformHeader (start stop : UInt32) : HeaderFields where
  version := 3
  distributionType := 0
  contentType := 0
  keyGenOld := 0
  keyAreaKeyIndex := 0
  contentSize := 0
  programId := 0
  keyGenNew := 0
  rightsId := Vector.replicate 16 0
  sections := Vector.replicate 4 ⟨start, stop⟩
  keyArea := Vector.replicate 4 (Vector.replicate 16 0)
  sectionHeaders := Vector.replicate 4 ⟨0, 0, 0, 0⟩

/-- A header in a buffer of zeros. -/
def headerBuffer (f : HeaderFields) : List UInt8 := f.layIn (List.replicate 0xC00 0)

end Oboromi.Analysis
