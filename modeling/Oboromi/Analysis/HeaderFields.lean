import Oboromi.Interface.HeaderLayout

/-!
# Every field of a header is read where it lies

On a buffer of the header's size no slice is out of range, so the parser returns what
`parsed` reads off the buffer (`fromDecrypted_eq`).  Laid-in fields do not overlap
(`spans_apart`), so each of them is read back (`segment_layIn`).
-/

set_option autoImplicit false

namespace Oboromi.Analysis

open Oboromi.Lib Oboromi.Model Oboromi.Interface

/-! ## Reading at an offset -/

section Reading

variable {data : List UInt8} {o n : ℕ}

/-- The bytes from an offset as an array. -/
def arrayAt (n : ℕ) (data : List UInt8) (o : ℕ) : Vector UInt8 n :=
  Vector.ofFn fun i => data.getD (o + i.val) 0

def u32At (data : List UInt8) (o : ℕ) : UInt32 := UInt32.ofNat (leNat (segment data o 4))

def u64At (data : List UInt8) (o : ℕ) : UInt64 := UInt64.ofNat (leNat (segment data o 8))

/-- An array that is read is the segment at its offset. -/
theorem toList_arrayAt (h : o + n ≤ data.length) :
    (arrayAt n data o).toList = segment data o n := by
  apply List.ext_getElem?
  intro i
  rw [getElem?_segment]
  by_cases hi : i < n
  · have hentry : (arrayAt n data o).toList[i]? = some (data.getD (o + i) 0) := by
      simp [arrayAt, hi]
    rw [if_pos hi, hentry, List.getD, List.getElem?_eq_getElem (by omega)]
    rfl
  · rw [if_neg hi]
    exact List.getElem?_eq_none (by simpa using Nat.not_lt.mp hi)

/-- Reading an array in bounds returns it. -/
theorem readArray_eq {stop : ℕ} (hstop : stop = o + n) (h : o + n ≤ data.length) :
    readArray n data o stop = .ok (arrayAt n data o) := by
  subst hstop
  have hlen : (segment data o n).length = n := length_segment h
  unfold readArray
  rw [Slice.range_of_le (Nat.le_add_right o n) h, Nat.add_sub_cancel_left]
  show Slice.intoArray n (segment data o n) = _
  rw [Slice.intoArray_of_length hlen]
  congr 1
  apply Vector.toList_inj.mp
  rw [toList_arrayAt h]
  rfl

/-- Reading a 32-bit word in bounds returns it. -/
theorem readU32_eq {stop : ℕ} (hstop : stop = o + 4) (h : o + 4 ≤ data.length) :
    readU32 data o stop = .ok (u32At data o) := by
  unfold readU32 u32At
  rw [readArray_eq hstop h, ← toList_arrayAt h]
  rfl

/-- Reading a 64-bit word in bounds returns it. -/
theorem readU64_eq {stop : ℕ} (hstop : stop = o + 8) (h : o + 8 ≤ data.length) :
    readU64 data o stop = .ok (u64At data o) := by
  unfold readU64 u64At
  rw [readArray_eq hstop h, ← toList_arrayAt h]
  rfl

/-- A word of a segment is one of the whole. -/
theorem u64At_segment {a len : ℕ} (h : o + 8 ≤ len) :
    u64At (segment data a len) o = u64At data (a + o) := by
  unfold u64At
  rw [segment_segment h]

/-- A byte of a segment is one of the whole. -/
theorem getD_segment {a len : ℕ} (h : o < len) :
    (segment data a len).getD o 0 = data.getD (a + o) 0 := by
  rw [List.getD, List.getD, getElem?_segment, if_pos h]

end Reading

/-! ## The parsed header -/

/-- The entry of a section as the buffer gives it. -/
def sectionAt (data : List UInt8) (i : Fin 4) : NcaSectionEntry :=
  SectionFields.entry {
    mediaOffsetStart := u32At data (0x240 + 0x10 * i.val)
    mediaOffsetEnd := u32At data (0x244 + 0x10 * i.val) }

/-- The header of a section as the buffer gives it. -/
def sectionHeaderAt (data : List UInt8) (i : Fin 4) : NcaSectionHeader :=
  SectionHeaderFields.sectionHeader {
    fsType := data.getD (0x402 + 0x200 * i.val) 0
    hashType := data.getD (0x403 + 0x200 * i.val) 0
    pfs0Offset := u64At data (0x440 + 0x200 * i.val)
    pfs0Size := u64At data (0x448 + 0x200 * i.val) } (sectionAt data i).enabled

/-- The header as the buffer gives it. -/
def parsed (data : List UInt8) : NcaHeader where
  magic := arrayAt 4 data 0x200
  distributionType := data.getD 0x204 0
  contentType := ContentType.fromU8 (data.getD 0x205 0)
  keyGeneration := NcaHeader.keyGen (data.getD 0x206 0) (data.getD 0x220 0)
  keyAreaKeyIndex := data.getD 0x207 0
  contentSize := u64At data 0x208
  programId := u64At data 0x210
  rightsId := arrayAt 16 data 0x230
  sections := Vector.ofFn (sectionAt data)
  keyArea := Vector.ofFn fun i : Fin 4 => arrayAt 16 data (0x300 + i.val * 16)
  sectionHeaders := Vector.ofFn (sectionHeaderAt data)

/-! ## The parser -/

/-- The content types are a table with a default. -/
theorem contentType_named (v : UInt8) :
    ContentType.fromU8 v = named contentTypes .unknown v := by
  unfold ContentType.fromU8 named contentTypes
  generalize v.toNat = n
  match n with
  | 0 | 1 | 2 | 3 | 4 | 5 => rfl
  | n + 6 => rfl

/-- The file systems are a table with a default. -/
theorem fsType_named (v : UInt8) : FsType.fromU8 v = named fsTypes .unknown v := by
  unfold FsType.fromU8 named fsTypes
  generalize v.toNat = n
  match n with
  | 0 | 1 => rfl
  | n + 2 => rfl

/-- The hash types are a table with a default. -/
theorem hashType_named (v : UInt8) : HashType.fromU8 v = named hashTypes .unknown v := by
  unfold HashType.fromU8 named hashTypes
  generalize v.toNat = n
  match n with
  | 0 | 1 | 2 | 3 => rfl
  | n + 4 => rfl

/-- The magic is read at its offset. -/
theorem readMagic_eq {data : List UInt8} (h : 0xC00 ≤ data.length) :
    NcaHeader.readMagic data = .ok (arrayAt 4 data 0x200) := by
  unfold NcaHeader.readMagic
  rw [Slice.index_of_lt 0 (by omega), ok_bind, Slice.index_of_lt 0 (by omega), ok_bind,
    Slice.index_of_lt 0 (by omega), ok_bind, Slice.index_of_lt 0 (by omega), ok_bind]
  rfl

/-- The four entries are read one after another. -/
theorem readSections_eq {data : List UInt8} (h : 0xC00 ≤ data.length) :
    NcaHeader.readSections data = .ok (Vector.ofFn (sectionAt data)) := by
  unfold NcaHeader.readSections
  apply foldlM_put
  intro sections i
  have hi := i.isLt
  have hstart : 0x240 + i.val * 0x10 = 0x240 + 0x10 * i.val := by omega
  have hstop : 0x240 + i.val * 0x10 + 4 = 0x244 + 0x10 * i.val := by omega
  dsimp only
  rw [readU32_eq rfl (by omega), ok_bind, hstop, readU32_eq (by omega) (by omega), ok_bind, hstart]
  unfold sectionAt SectionFields.entry
  simp only [Bool.decide_or]
  rfl

/-- The four keys are read one after another. -/
theorem readKeyArea_eq {data : List UInt8} (h : 0xC00 ≤ data.length) :
    NcaHeader.readKeyArea data =
      .ok (Vector.ofFn fun i : Fin 4 => arrayAt 16 data (0x300 + i.val * 16)) := by
  unfold NcaHeader.readKeyArea
  apply foldlM_put
  intro keyArea i
  have hi := i.isLt
  rw [readArray_eq (by omega) (by omega), ok_bind]
  rfl

/-- The header of a section, read from its 0x200 bytes into a default. -/
theorem readSectionHeader_eq {data : List UInt8} (h : 0xC00 ≤ data.length) (i : Fin 4) :
    NcaHeader.readSectionHeader (segment data (0x400 + i.val * 0x200) 0x200)
      (sectionAt data i).enabled NcaSectionHeader.default = .ok (sectionHeaderAt data i) := by
  have hi := i.isLt
  have hlen : (segment data (0x400 + i.val * 0x200) 0x200).length = 0x200 :=
    length_segment (by omega)
  have hfs : (segment data (0x400 + i.val * 0x200) 0x200).getD 2 0 =
      data.getD (0x402 + 0x200 * i.val) 0 := by
    rw [getD_segment (by omega)]
    congr 1
    omega
  have hhash : (segment data (0x400 + i.val * 0x200) 0x200).getD 3 0 =
      data.getD (0x403 + 0x200 * i.val) 0 := by
    rw [getD_segment (by omega)]
    congr 1
    omega
  have hoffset : u64At data (0x400 + i.val * 0x200 + (0x8 + 0x38)) =
      u64At data (0x440 + 0x200 * i.val) := by
    congr 1
    omega
  have hsize : u64At data (0x400 + i.val * 0x200 + (0x8 + 0x40)) =
      u64At data (0x448 + 0x200 * i.val) := by
    congr 1
    omega
  unfold NcaHeader.readSectionHeader sectionHeaderAt SectionHeaderFields.sectionHeader
  rw [Slice.index_of_lt 0 (by omega), ok_bind, Slice.index_of_lt 0 (by omega), ok_bind,
    Slice.index_of_lt 0 (by omega), ok_bind, Slice.index_of_lt 0 (by omega), ok_bind, hfs, hhash,
    ← fsType_named, ← hashType_named]
  by_cases htwo : data.getD (0x403 + 0x200 * i.val) 0 = 2
  · have hrest : (segment (segment data (0x400 + i.val * 0x200) 0x200) 0x8 (0x200 - 0x8)).length =
        0x1F8 := length_segment (by omega)
    simp only [if_pos htwo]
    rw [Slice.range_of_le (by omega) le_rfl, ok_bind, hlen, if_pos (by omega),
      readU64_eq (by omega) (by omega), ok_bind, readU64_eq (by omega) (by omega), ok_bind,
      u64At_segment (by omega), u64At_segment (by omega), u64At_segment (by omega),
      u64At_segment (by omega), hoffset, hsize]
    rfl
  · simp only [if_neg htwo]
    rfl

/-- The loop over the section headers that have not been read yet. -/
theorem readSectionHeaders_eq {data : List UInt8} (h : 0xC00 ≤ data.length)
    {is : List (Fin 4)} (hnodup : is.Nodup) (headers : Vector NcaSectionHeader 4)
    (hdefault : ∀ i ∈ is, headers.get i = NcaSectionHeader.default) :
    NcaHeader.readSectionHeaders data (Vector.ofFn (sectionAt data)) is headers =
      .ok (is.foldl (fun headers i => put headers i (sectionHeaderAt data i)) headers) := by
  induction is generalizing headers with
  | nil => rfl
  | cons i is ih =>
      have hi := i.isLt
      obtain ⟨hfirst, hrest⟩ := List.nodup_cons.mp hnodup
      rw [NcaHeader.readSectionHeaders, if_neg (by omega),
        Slice.range_of_le (by omega) (by omega), ok_bind, Nat.add_sub_cancel_left, get_ofFn,
        hdefault i List.mem_cons_self, readSectionHeader_eq h i, ok_bind]
      apply ih hrest
      intro j hj
      have hne : j ≠ i := fun heq => hfirst (heq ▸ hj)
      rw [get_put_of_ne _ _ hne]
      exact hdefault j (List.mem_cons_of_mem i hj)

/-- The magic of a version passes the parser's test. -/
theorem versionMagic_known : ∀ v : Fin 4,
    ¬ (versionMagic v ≠ ncaMagic 0x33 ∧ versionMagic v ≠ ncaMagic 0x32 ∧
      versionMagic v ≠ ncaMagic 0x31 ∧ versionMagic v ≠ ncaMagic 0x30) := by
  decide

/-- **A buffer of the header's size with a known magic is parsed.** -/
theorem fromDecrypted_eq (debugMagic : Vector UInt8 4 → String) {data : List UInt8}
    (h : 0xC00 ≤ data.length) (v : Fin 4)
    (hmagic : segment data 0x200 4 = (versionMagic v).toList) :
    NcaHeader.fromDecrypted debugMagic data = .ok (parsed data) := by
  have harray : arrayAt 4 data 0x200 = versionMagic v := by
    apply Vector.toList_inj.mp
    rw [toList_arrayAt (by omega), hmagic]
  have hheaders : NcaHeader.readSectionHeaders data (Vector.ofFn (sectionAt data))
      (List.finRange 4) (Vector.replicate 4 NcaSectionHeader.default) =
        .ok (Vector.ofFn (sectionHeaderAt data)) := by
    rw [readSectionHeaders_eq h (List.nodup_finRange 4), foldl_put]
    intro i _
    exact Vector.getElem_replicate i.isLt
  unfold NcaHeader.fromDecrypted
  rw [if_neg (Nat.not_lt.mpr h), readMagic_eq h, ok_bind, harray,
    if_neg (versionMagic_known v),
    Slice.index_of_lt 0 (by omega), ok_bind, Slice.index_of_lt 0 (by omega), ok_bind,
    Slice.index_of_lt 0 (by omega), ok_bind, Slice.index_of_lt 0 (by omega), ok_bind,
    readU64_eq rfl (by omega), ok_bind, readU64_eq rfl (by omega), ok_bind,
    Slice.index_of_lt 0 (by omega), ok_bind, readArray_eq rfl (by omega), ok_bind,
    readSections_eq h, ok_bind, readKeyArea_eq h, ok_bind, hheaders, ok_bind, ← harray]
  rfl

end Oboromi.Analysis
