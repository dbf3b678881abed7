import Oboromi.Analysis.RangeExpressions

/-!
# Extracting what was deposited

The ranges of a field name the positions of its bits (`fieldBits_eq_extract`), and ranges that do
not overlap name each position once (`nodup_fieldPositions`).  So the expressions of the decoder
read the concatenation of the ranges' bits, and a deposit at ranges apart is read back
(`field_expressions_correct`).
-/

set_option autoImplicit false

namespace Oboromi.Analysis.DecoderGenerator

open Oboromi.Lib
open Oboromi.Model.DecoderGenerator
open Oboromi.Interface.DecoderGenerator

/-! ## The positions of a field -/

/-- A field has as many positions as bits. -/
@[simp] theorem length_fieldPositions (ranges : List (UInt64 × UInt64)) :
    (fieldPositions ranges).length = (ranges.map width).sum := by
  induction ranges with
  | nil => rfl
  | cons r ranges ih => simp [fieldPositions, ih, Nat.add_comm]

/-- A field with a range has a position. -/
theorem fieldPositions_ne_nil {ranges : List (UInt64 × UInt64)} (hne : ranges ≠ []) :
    fieldPositions ranges ≠ [] := by
  obtain ⟨r, rest, rfl⟩ := List.exists_cons_of_ne_nil hne
  rw [← List.length_pos_iff, length_fieldPositions, List.map_cons, List.sum_cons, width]
  omega

/-- The bits of a range are those at its positions. -/
theorem rangeBits_eq_extract (word : BitVec 128) (r : UInt64 × UInt64) :
    rangeBits word r = BitPositions.extract word (List.range' r.1.toNat (width r)) :=
  (BitPositions.extract_range' word r.1.toNat (width r)).symm

/-- The concatenation of the ranges' bits is the number at the positions of the field. -/
theorem fieldBits_eq_extract (word : BitVec 128) (ranges : List (UInt64 × UInt64)) :
    fieldBits word ranges = BitPositions.extract word (fieldPositions ranges) := by
  have hfold (high : ℕ) :
      ranges.foldl (fun high r => high * 2 ^ width r + rangeBits word r) high =
        high * 2 ^ (ranges.map width).sum + BitPositions.extract word (fieldPositions ranges) := by
    induction ranges generalizing high with
    | nil => simp [fieldPositions, BitPositions.extract]
    | cons r ranges ih =>
      rw [List.foldl_cons, ih, fieldPositions, BitPositions.extract_append, length_fieldPositions,
        ← rangeBits_eq_extract, List.map_cons, List.sum_cons, Nat.pow_add]
      ring
  rw [fieldBits, hfold 0, Nat.zero_mul, Nat.zero_add]

/-- A field's bits make a number of as many bits. -/
theorem fieldBits_lt (word : BitVec 128) (ranges : List (UInt64 × UInt64)) :
    fieldBits word ranges < 2 ^ (ranges.map width).sum := by
  rw [fieldBits_eq_extract, ← length_fieldPositions]
  exact BitPositions.extract_lt word _

/-- The positions of a range are the bits it covers. -/
theorem mem_range'_iff_covers {r : UInt64 × UInt64} (hr : r.1 ≤ r.2) {p : ℕ} :
    p ∈ List.range' r.1.toNat (width r) ↔ Covers r p := by
  have hle := UInt64.le_iff_toNat_le.mp hr
  rw [List.mem_range'_1, width, Covers]
  omega

/-- The positions of a field are the bits its ranges cover. -/
theorem mem_fieldPositions {ranges : List (UInt64 × UInt64)} (hordered : ∀ r ∈ ranges, r.1 ≤ r.2)
    {p : ℕ} : p ∈ fieldPositions ranges ↔ ∃ r ∈ ranges, Covers r p := by
  induction ranges with
  | nil => simp [fieldPositions]
  | cons r ranges ih =>
    obtain ⟨hr, hrest⟩ := List.forall_mem_cons.mp hordered
    rw [fieldPositions, List.mem_append, ih hrest, mem_range'_iff_covers hr, or_comm,
      List.exists_mem_cons_iff]

/-- Ranges that do not overlap have each position once. -/
theorem nodup_fieldPositions {ranges : List (UInt64 × UInt64)}
    (hordered : ∀ r ∈ ranges, r.1 ≤ r.2) (hapart : ranges.Pairwise RangesApart) :
    (fieldPositions ranges).Nodup := by
  induction ranges with
  | nil => exact List.nodup_nil
  | cons r ranges ih =>
    obtain ⟨hr, hrest⟩ := List.forall_mem_cons.mp hordered
    obtain ⟨hfirst, htail⟩ := List.pairwise_cons.mp hapart
    rw [fieldPositions]
    refine (ih hrest htail).append (List.nodup_range' ..) ?_
    intro p hp hpr
    obtain ⟨s, hs, hsp⟩ := (mem_fieldPositions hrest).mp hp
    have hrp := (mem_range'_iff_covers hr).mp hpr
    unfold Covers at hsp hrp
    rcases hfirst s hs with hbelow | habove
    · have hlt := UInt64.lt_iff_toNat_lt.mp hbelow
      omega
    · have hlt := UInt64.lt_iff_toNat_lt.mp habove
      omega

/-- They lie in the word when the ranges do. -/
theorem fieldPositions_lt {ranges : List (UInt64 × UInt64)} (hordered : ∀ r ∈ ranges, r.1 ≤ r.2)
    (hinWord : ∀ r ∈ ranges, r.2.toNat ≤ 127) : ∀ p ∈ fieldPositions ranges, p < 128 := by
  intro p hp
  obtain ⟨r, hr, -, hle⟩ := (mem_fieldPositions hordered).mp hp
  have hlast := hinWord r hr
  omega

/-! ## Depositing a value -/

/-- The bits outside of the ranges stay. -/
theorem getLsbD_deposit {ranges : List (UInt64 × UInt64)} (hordered : ∀ r ∈ ranges, r.1 ≤ r.2)
    (word : BitVec 128) (v : ℕ) {i : ℕ} (hi : ∀ r ∈ ranges, ¬ Covers r i) :
    (deposit word ranges v).getLsbD i = word.getLsbD i := by
  apply BitPositions.getLsbD_deposit_of_notMem
  intro hmem
  obtain ⟨r, hr, hcovers⟩ := (mem_fieldPositions hordered).mp hmem
  exact hi r hr hcovers

/-- A value deposited at distinct positions of the word is read back. -/
theorem fieldBits_deposit {ranges : List (UInt64 × UInt64)} (hnodup : (fieldPositions ranges).Nodup)
    (hinWord : ∀ p ∈ fieldPositions ranges, p < 128) (word : BitVec 128) {v : ℕ}
    (hv : v < 2 ^ (ranges.map width).sum) : fieldBits (deposit word ranges v) ranges = v := by
  rw [← length_fieldPositions] at hv
  rw [fieldBits_eq_extract]
  exact BitPositions.extract_deposit hnodup hinWord word hv

/-! ## The printed expressions -/

/-- Each of the ranges fits. -/
theorem rangeFits_of_rangesFit {totalBits : UInt64} {ranges : List (UInt64 × UInt64)}
    (hfit : RangesFit totalBits ranges) : ∀ r ∈ ranges, RangeFits r := by
  intro r hr
  have hnarrow := hfit.narrow r hr
  exact ⟨UInt64.le_iff_toNat_le.mp (hfit.ordered r hr), by omega⟩

/-- The expression for ranges of the word has their concatenation as its value. -/
theorem evalMerged_of_rangesFit {totalBits : UInt64} {ranges : List (UInt64 × UInt64)}
    (hfit : RangesFit totalBits ranges) (hne : ranges ≠ []) (word : BitVec 128) :
    ∃ v, evalMerged word (placed totalBits.toNat ranges) = some v ∧
      v.toNat = fieldBits word ranges := by
  have hstarts : ∀ r ∈ ranges, r.1.toNat < 128 := by
    intro r hr
    have hle := UInt64.le_iff_toNat_le.mp (hfit.ordered r hr)
    have hlast := hfit.inWord r hr
    omega
  have hshort := hfit.short
  rw [hfit.total] at hshort
  have hplace : (ranges.map width).tail.sum < 128 := by
    rw [List.tail_sum]
    omega
  have hlt : fieldBits word ranges < 2 ^ 128 :=
    (fieldBits_lt word ranges).trans_le (Nat.pow_le_pow_right (by omega) (by omega))
  rw [hfit.total, ← readBits_eq_fieldBits hfit.narrow]
  rw [← readBits_eq_fieldBits hfit.narrow] at hlt
  exact evalMerged_placed hne hstarts hplace word hlt

/-- A condition on ranges that fit compares the field's bits with its value. -/
theorem evalCondition_of_rangesFit {totalBits : UInt64} {ranges : List (UInt64 × UInt64)}
    (hfit : RangesFit totalBits ranges) (hne : ranges ≠ []) (word : BitVec 128) (value : UInt64) :
    evalCondition word ⟨placed totalBits.toNat ranges, value⟩ =
      some (decide (fieldBits word ranges = value.toNat)) := by
  obtain ⟨v, hv, hvalue⟩ := evalMerged_of_rangesFit hfit hne word
  rw [evalCondition_of_evalMerged hv, hvalue]

/-- The expression of the field `opex`, as it stands in the decoder. -/
example : (getMultiMergeStmt .debug 8 [(122, 124), (105, 109)]).map printMerged =
    .ok "(((inst >> 122) & 0x7) << 5) | (((inst >> 105) & 0x1f) << 0)" := rfl

/-- **The expressions of the decoder.**  For every list of ranges of the word, each at most 63
bits wide, with `totalBits` the sum of their widths and at most 63: no subtraction underflows, so
the expression and the condition are printed in both builds; unless there is no range at all, the
expression has the concatenation of the ranges' bits as its value on every word and the condition
tells whether it is the value compared with; the concatenation is below `2 ^ totalBits`; and if
the ranges are apart, a deposit of any such value is extracted again and leaves the other bits
alone.
SOURCE: scripts/decoder_generator.rs:111-148 -/
theorem field_expressions_correct (b : Build) (totalBits : UInt64)
    (ranges : List (UInt64 × UInt64)) (hfit : RangesFit totalBits ranges) :
    ∃ exprs, getMultiMergeStmt b totalBits ranges = .ok exprs ∧
      (∀ value, getMultiCmpStmt b totalBits ranges value = .ok ⟨exprs, value⟩) ∧
      (ranges ≠ [] → ∀ word,
        (∃ v, evalMerged word exprs = some v ∧ v.toNat = fieldBits word ranges) ∧
        ∀ value, evalCondition word ⟨exprs, value⟩ =
          some (decide (fieldBits word ranges = value.toNat))) ∧
      (∀ word, fieldBits word ranges < 2 ^ totalBits.toNat) ∧
      (ranges.Pairwise RangesApart → ∀ word v, v < 2 ^ totalBits.toNat →
        fieldBits (deposit word ranges v) ranges = v ∧
        ∀ i, (∀ r ∈ ranges, ¬ Covers r i) →
          (deposit word ranges v).getLsbD i = word.getLsbD i) := by
  have hmerged : mergeRanges b totalBits ranges = .ok (placed totalBits.toNat ranges) :=
    mergeRanges_eq (rangeFits_of_rangesFit hfit) (fun _ => hfit.narrow) hfit.total.ge
  refine ⟨placed totalBits.toNat ranges, hmerged, ?_, ?_, ?_, ?_⟩
  · intro value
    unfold getMultiCmpStmt
    rw [hmerged]
    rfl
  · intro hne word
    exact ⟨evalMerged_of_rangesFit hfit hne word, evalCondition_of_rangesFit hfit hne word⟩
  · intro word
    rw [hfit.total]
    exact fieldBits_lt word ranges
  · intro hapart word v hv
    rw [hfit.total] at hv
    have hnodup := nodup_fieldPositions hfit.ordered hapart
    have hinWord := fieldPositions_lt hfit.ordered hfit.inWord
    exact ⟨fieldBits_deposit hnodup hinWord word hv,
      fun i hi => getLsbD_deposit hfit.ordered word v hi⟩

/-- The two ranges of the field `opex`. -/
def opexRanges : List (UInt64 × UInt64) := [(122, 124), (105, 109)]

/-- The ranges of `opex` fit. -/
theorem rangesFit_opex : RangesFit 8 opexRanges := by
  refine ⟨?_, ?_, ?_, rfl, by decide⟩
  · simp [opexRanges]
  · simp [opexRanges]
  · simp [opexRanges, width]

/-- The field `opex` reads back what was deposited in a word of ones. -/
theorem field_expressions_correct_opex :
    fieldBits (deposit (BitVec.allOnes 128) opexRanges 0xa3) opexRanges = 0xa3 := by
  obtain ⟨exprs, -, -, -, -, hdeposit⟩ :=
    field_expressions_correct .debug 8 opexRanges rangesFit_opex
  have hapart : opexRanges.Pairwise RangesApart := by simp [opexRanges, RangesApart]
  exact (hdeposit hapart (BitVec.allOnes 128) 0xa3 (by decide)).1

/-- Without a range the printed text is empty and has no value, so that no condition holds. -/
theorem no_ranges_no_expression :
    RangesFit 0 [] ∧ getMultiMergeStmt .debug 0 [] = .ok [] ∧ printMerged [] = "" ∧
      (¬ ∃ v, evalMerged 0 [] = some v ∧ v.toNat = fieldBits 0 []) ∧
      evalCondition 0 ⟨[], 0⟩ ≠ some (decide (fieldBits 0 [] = 0)) := by
  refine ⟨⟨by simp, by simp, by simp, rfl, by decide⟩, rfl, rfl, ?_, nofun⟩
  rintro ⟨v, hv, -⟩
  cases hv

end Oboromi.Analysis.DecoderGenerator
