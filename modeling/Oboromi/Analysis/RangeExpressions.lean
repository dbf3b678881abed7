import Mathlib.Algebra.Order.BigOperators.Group.List
import Mathlib.Algebra.Order.Group.Nat
import Oboromi.Interface.DecoderFields
import Oboromi.Lib.Loop

/-!
# The expressions of bit ranges

For a field whose ranges make up its bits, the loop of `get_multi_merge_stmt` and
`get_multi_cmp_stmt` never underflows, so it returns exactly when every mask can be computed
(`mergeRanges_returns_iff`).  The expression it builds joins what the masks let through, the
first range most significant (`evalMerged_placed`); for ranges of at most 63 bits that is the
concatenation of the ranges' bits (`readBits_eq_fieldBits`).  The invariant: what stands to the
left of a range is the concatenation so far, shifted up by the bits that remain.  An expression
has a value only where it compiles (`expressible_of_evalMerged`).
-/

set_option autoImplicit false

namespace Oboromi.Analysis.DecoderGenerator

open Oboromi.Lib
open Oboromi.Model.DecoderGenerator
open Oboromi.Interface.DecoderGenerator

/-! ## Building an expression -/

/-- A range in order that does not have all of the 2^64 bits. -/
structure RangeFits (r : UInt64 × UInt64) : Prop where
  ordered : r.1.toNat ≤ r.2.toNat
  short : width r < 2 ^ 64

/-- In a field that fits, every range fits. -/
theorem rangeFits_of_field {f : ParserField} (hfits : FieldFits f) :
    ∀ r ∈ f.bits, RangeFits r := by
  intro r hr
  have hle : width r ≤ (f.bits.map width).sum := List.le_sum_of_mem (List.mem_map_of_mem hr)
  rw [← hfits.total] at hle
  exact ⟨UInt64.le_iff_toNat_le.mp (hfits.ordered r hr), hle.trans_lt f.totalBits.toNat_lt⟩

/-- A number below 2^64 survives the conversion. -/
theorem toNat_ofNat_of_lt {n : ℕ} (h : n < 2 ^ 64) : (UInt64.ofNat n).toNat = n := by
  rw [UInt64.toNat_ofNat', Nat.mod_eq_of_lt h]

/-- `end - start + 1`. -/
theorem width_returns {b : Build} {r : UInt64 × UInt64} (hr : RangeFits r) :
    b.subU64 r.2 r.1 = .ok (r.2 - r.1) ∧ b.addU64 (r.2 - r.1) 1 = .ok (UInt64.ofNat (width r)) := by
  have hdistance := toNat_sub_of_fits hr.ordered
  have hshort := hr.short
  have hone : (1 : UInt64).toNat = 1 := rfl
  unfold width at hshort
  have hfits : (r.2 - r.1).toNat + (1 : UInt64).toNat < 2 ^ 64 := by omega
  refine ⟨Build.subU64_of_fits hr.ordered, ?_⟩
  rw [Build.addU64_of_fits hfits]
  congr 1
  apply UInt64.toNat_inj.mp
  rw [toNat_add_of_fits hfits, hdistance, width, toNat_ofNat_of_lt hshort, hone]

/-- The mask of a range: the shift distance counts modulo 64. -/
def maskOf (r : UInt64 × UInt64) : UInt64 := UInt64.ofNat (2 ^ (width r % 64) - 1)

/-- A masked shift stays below 2^64. -/
theorem two_pow_mod_lt (n : ℕ) : 2 ^ (n % 64) < 2 ^ 64 :=
  Nat.pow_lt_pow_right (by omega) (Nat.mod_lt n (by omega))

/-- The mask of a range as a number. -/
theorem maskOf_toNat (r : UInt64 × UInt64) : (maskOf r).toNat = 2 ^ (width r % 64) - 1 := by
  have hlt := two_pow_mod_lt (width r)
  exact toNat_ofNat_of_lt (by omega)

/-- `get_mask` returns the mask of the range when the shift is allowed. -/
theorem getMask_eq {b : Build} {r : UInt64 × UInt64} (hr : RangeFits r)
    (hmask : b = .debug → width r ≤ 63) : getMask b r.1 r.2 = .ok (maskOf r) := by
  obtain ⟨hdistance, hcount⟩ := width_returns (b := b) hr
  have hwidth : (UInt64.ofNat (width r)).toNat = width r := toNat_ofNat_of_lt hr.short
  have hone : (1 : UInt64).toNat = 1 := rfl
  have hbit : ((1 : UInt64) <<< UInt64.ofNat (width r)).toNat = 2 ^ (width r % 64) := by
    rw [UInt64.toNat_shiftLeft, hwidth, hone, Nat.shiftLeft_eq, Nat.one_mul,
      Nat.mod_eq_of_lt (two_pow_mod_lt (width r))]
  have hshift : b.shlU64 1 (UInt64.ofNat (width r)) =
      .ok ((1 : UInt64) <<< UInt64.ofNat (width r)) := by
    cases b with
    | release => exact Build.shlU64_release
    | debug =>
      have hnarrow := hmask rfl
      exact Build.shlU64_of_fits (by omega)
  have hpos : (1 : UInt64).toNat ≤ ((1 : UInt64) <<< UInt64.ofNat (width r)).toNat := by
    rw [hbit]
    exact Nat.one_le_two_pow
  unfold getMask
  rw [hdistance, ok_bind, hcount, ok_bind, hshift, ok_bind, Build.subU64_of_fits hpos]
  congr 1
  apply UInt64.toNat_inj.mp
  rw [toNat_sub_of_fits hpos, hbit, maskOf_toNat]
  rfl

/-- A debug build computes no mask of 64 bits or more. -/
theorem narrow_of_getMask {r : UInt64 × UInt64} {mask : UInt64} (hr : RangeFits r)
    (h : getMask .debug r.1 r.2 = .ok mask) : width r ≤ 63 := by
  obtain ⟨hdistance, hcount⟩ := width_returns (b := .debug) hr
  unfold getMask at h
  rw [hdistance, ok_bind, hcount, ok_bind] at h
  obtain ⟨bit, hbit, -⟩ := bind_eq_ok h
  obtain ⟨hlt, -⟩ := Build.eq_of_debug_checked hbit
  rw [toNat_ofNat_of_lt hr.short] at hlt
  omega

/-- The ranges with their masks, each shifted to the bits that remain behind it. -/
def placed : ℕ → List (UInt64 × UInt64) → List RangeExpr
  | _, [] => []
  | remBits, r :: bits =>
    ⟨r.1, maskOf r, UInt64.ofNat (remBits - width r)⟩ :: placed (remBits - width r) bits

/-- The counter of the bits that remain does not underflow. -/
theorem remBits_returns {b : Build} {r : UInt64 × UInt64} {remBits : UInt64} (hr : RangeFits r)
    (hle : width r ≤ remBits.toNat) :
    ∃ rest, b.subU64 remBits (UInt64.ofNat (width r)) = .ok rest ∧
      rest.toNat = remBits.toNat - width r ∧ UInt64.ofNat (remBits.toNat - width r) = rest := by
  have hwidth : (UInt64.ofNat (width r)).toNat = width r := toNat_ofNat_of_lt hr.short
  have hfits : (UInt64.ofNat (width r)).toNat ≤ remBits.toNat := by omega
  have hrest : (remBits - UInt64.ofNat (width r)).toNat = remBits.toNat - width r := by
    rw [toNat_sub_of_fits hfits, hwidth]
  refine ⟨_, Build.subU64_of_fits hfits, hrest, ?_⟩
  apply UInt64.toNat_inj.mp
  have hlt := remBits.toNat_lt
  rw [hrest, toNat_ofNat_of_lt (by omega)]

/-- The loop returns when every mask can be computed. -/
theorem mergeRanges_eq {b : Build} {bits : List (UInt64 × UInt64)} {remBits : UInt64}
    (hbits : ∀ r ∈ bits, RangeFits r) (hmask : Maskable b bits)
    (hsum : (bits.map width).sum ≤ remBits.toNat) :
    mergeRanges b remBits bits = .ok (placed remBits.toNat bits) := by
  induction bits generalizing remBits with
  | nil => rfl
  | cons r bits ih =>
    have hr := hbits r List.mem_cons_self
    obtain ⟨hdistance, hwidth⟩ := width_returns (b := b) hr
    rw [List.map_cons, List.sum_cons] at hsum
    have hle : width r ≤ remBits.toNat := by omega
    obtain ⟨rest, hsub, hrest, hplace⟩ := remBits_returns (b := b) hr hle
    have hroom : (bits.map width).sum ≤ rest.toNat := by omega
    have hloop : mergeRanges b rest bits = .ok (placed rest.toNat bits) :=
      ih (fun s hs => hbits s (List.mem_cons_of_mem _ hs))
        (fun hb s hs => hmask hb s (List.mem_cons_of_mem _ hs)) hroom
    have hgetMask := getMask_eq (b := b) hr fun hb => hmask hb r List.mem_cons_self
    rw [mergeRanges, hdistance, ok_bind, hwidth, ok_bind, hsub, ok_bind, hgetMask, ok_bind, hloop,
      ok_bind, placed, hplace, hrest]
    rfl

/-- Ranges that a debug build merges are narrower than 64 bits. -/
theorem narrow_of_mergeRanges {bits : List (UInt64 × UInt64)} {remBits : UInt64}
    {exprs : List RangeExpr} (hbits : ∀ r ∈ bits, RangeFits r)
    (h : mergeRanges .debug remBits bits = .ok exprs) : ∀ r ∈ bits, width r ≤ 63 := by
  induction bits generalizing remBits exprs with
  | nil => simp
  | cons r bits ih =>
    have hr := hbits r List.mem_cons_self
    rw [mergeRanges] at h
    obtain ⟨distance, -, h⟩ := bind_eq_ok h
    obtain ⟨count, -, h⟩ := bind_eq_ok h
    obtain ⟨rest, -, h⟩ := bind_eq_ok h
    obtain ⟨mask, hmask, h⟩ := bind_eq_ok h
    obtain ⟨exprs', hloop, -⟩ := bind_eq_ok h
    have hrest := ih (fun s hs => hbits s (List.mem_cons_of_mem _ hs)) hloop
    exact List.forall_mem_cons.mpr ⟨narrow_of_getMask hr hmask, hrest⟩

/-- The loop over the ranges of a field returns exactly when every mask can be computed. -/
theorem mergeRanges_returns_iff {b : Build} {f : ParserField} (hfits : FieldFits f) :
    (∃ exprs, mergeRanges b f.totalBits f.bits = .ok exprs) ↔ Maskable b f.bits := by
  constructor
  · rintro ⟨exprs, h⟩ rfl
    exact narrow_of_mergeRanges (rangeFits_of_field hfits) h
  · intro hmask
    exact ⟨_, mergeRanges_eq (rangeFits_of_field hfits) hmask hfits.total.ge⟩

/-! ## The value of an expression -/

/-- Bits above a value and below it do not meet. -/
theorem or_toNat_of_shifted {left v : BitVec 128} {high n : ℕ} (hleft : left.toNat = high * 2 ^ n)
    (hv : v.toNat < 2 ^ n) : (left ||| v).toNat = high * 2 ^ n + v.toNat := by
  rw [BitVec.toNat_or, hleft, ← Nat.shiftLeft_eq, ← Nat.shiftLeft_add_eq_or_of_lt hv]

/-- The masked bits of a range stay below its width. -/
theorem maskedBits_lt (inst : BitVec 128) (r : UInt64 × UInt64) :
    maskedBits inst r < 2 ^ width r := by
  have hle : 2 ^ (width r % 64) ≤ 2 ^ width r :=
    Nat.pow_le_pow_right (by omega) (Nat.mod_le _ _)
  exact (Nat.mod_lt _ (Nat.two_pow_pos _)).trans_le hle

/-- A range whose bits are masked and shifted without loss. -/
theorem evalRange_placed {r : UInt64 × UInt64} (hstart : r.1.toNat < 128) (place : ℕ)
    (hplace : place < 128) (inst : BitVec 128) (hfits : maskedBits inst r * 2 ^ place < 2 ^ 128) :
    ∃ v, evalRange inst ⟨r.1, maskOf r, UInt64.ofNat place⟩ = some v ∧
      v.toNat = maskedBits inst r * 2 ^ place := by
  have hshift : (UInt64.ofNat place).toNat = place := toNat_ofNat_of_lt (by omega)
  have hmasked : ((inst >>> r.1.toNat) &&& BitVec.ofNat 128 (maskOf r).toNat).toNat =
      maskedBits inst r := by
    have hsmall : 2 ^ (width r % 64) - 1 < 2 ^ 128 := by
      have hlt := two_pow_mod_lt (width r)
      have hpow : 2 ^ 64 < 2 ^ 128 := Nat.pow_lt_pow_right (by omega) (by omega)
      omega
    rw [maskOf_toNat, BitVec.toNat_and, BitVec.toNat_ushiftRight, BitVec.toNat_ofNat,
      Nat.mod_eq_of_lt hsmall, Nat.and_two_pow_sub_one_eq_mod, Nat.shiftRight_eq_div_pow,
      maskedBits]
  have hplace128 : (UInt64.ofNat place).toNat < 128 := by omega
  refine ⟨_, if_pos ⟨hstart, hplace128⟩, ?_⟩
  dsimp only
  rw [BitVec.toNat_shiftLeft, hmasked, hshift, Nat.shiftLeft_eq, Nat.mod_eq_of_lt hfits]

/-- What is read so far only moves up. -/
theorem le_foldl_read (inst : BitVec 128) (bits : List (UInt64 × UInt64)) (high : ℕ) :
    high * 2 ^ (bits.map width).sum ≤
      bits.foldl (fun high r => high * 2 ^ width r + maskedBits inst r) high := by
  induction bits generalizing high with
  | nil => simp
  | cons r bits ih =>
    rw [List.map_cons, List.sum_cons, Nat.pow_add, ← Nat.mul_assoc, List.foldl_cons]
    have hle := ih (high * 2 ^ width r + maskedBits inst r)
    have hmore : high * 2 ^ width r * 2 ^ (bits.map width).sum ≤
        (high * 2 ^ width r + maskedBits inst r) * 2 ^ (bits.map width).sum :=
      Nat.mul_le_mul_right _ (Nat.le_add_right _ _)
    exact hmore.trans hle

/-- The loop invariant, from the middle of an expression to its end. -/
theorem evalFrom_placed {bits : List (UInt64 × UInt64)} (hstarts : ∀ r ∈ bits, r.1.toNat < 128)
    {remBits : ℕ} (hsum : (bits.map width).sum = remBits) (hplace : (bits.map width).tail.sum < 128)
    (inst left : BitVec 128) {high : ℕ} (hleft : left.toNat = high * 2 ^ remBits)
    (hfits : bits.foldl (fun high r => high * 2 ^ width r + maskedBits inst r) high < 2 ^ 128) :
    ∃ v, evalFrom inst left (placed remBits bits) = some v ∧
      v.toNat = bits.foldl (fun high r => high * 2 ^ width r + maskedBits inst r) high := by
  induction bits generalizing remBits left high with
  | nil =>
    refine ⟨left, rfl, ?_⟩
    cases hsum
    simpa using hleft
  | cons r bits ih =>
    rw [List.map_cons, List.sum_cons] at hsum
    rw [List.map_cons, List.tail_cons] at hplace
    rw [List.foldl_cons] at hfits
    have hrest : remBits - width r = (bits.map width).sum := by omega
    have hsplit : 2 ^ remBits = 2 ^ width r * 2 ^ (remBits - width r) := by
      rw [← Nat.pow_add]
      congr 1
      omega
    have hbound := (le_foldl_read inst bits (high * 2 ^ width r + maskedBits inst r)).trans_lt hfits
    rw [← hrest, Nat.add_mul] at hbound
    obtain ⟨v, hv, hvalue⟩ := evalRange_placed (hstarts r List.mem_cons_self)
      (remBits - width r) (by omega) inst (by omega)
    have hvlt : v.toNat < 2 ^ remBits := by
      rw [hvalue, hsplit]
      exact Nat.mul_lt_mul_of_pos_right (maskedBits_lt inst r) (Nat.two_pow_pos _)
    have hnext : (left ||| v).toNat =
        (high * 2 ^ width r + maskedBits inst r) * 2 ^ (remBits - width r) := by
      rw [or_toNat_of_shifted hleft hvlt, hvalue, hsplit, Nat.add_mul, Nat.mul_assoc]
    have htail : (bits.map width).tail.sum < 128 := by
      rw [List.tail_sum]
      omega
    rw [placed, evalFrom, hv]
    exact ih (fun s hs => hstarts s (List.mem_cons_of_mem _ hs)) hrest.symm htail _ hnext hfits

/-- The expression of a field joins what the masks let through. -/
theorem evalMerged_placed {bits : List (UInt64 × UInt64)} (hne : bits ≠ [])
    (hstarts : ∀ r ∈ bits, r.1.toNat < 128) (hplace : (bits.map width).tail.sum < 128)
    (inst : BitVec 128) (hfits : readBits inst bits < 2 ^ 128) :
    ∃ v, evalMerged inst (placed (bits.map width).sum bits) = some v ∧
      v.toNat = readBits inst bits := by
  have hplaced : placed (bits.map width).sum bits ≠ [] := by
    cases bits with
    | nil => exact absurd rfl hne
    | cons r bits => exact List.cons_ne_nil _ _
  rw [evalMerged, if_neg hplaced]
  exact evalFrom_placed hstarts rfl hplace inst 0 (by simp) hfits

/-- A condition compares the value of its expression. -/
theorem evalCondition_of_evalMerged {word v : BitVec 128} {exprs : List RangeExpr}
    (h : evalMerged word exprs = some v) (value : UInt64) :
    evalCondition word ⟨exprs, value⟩ = some (decide (v.toNat = value.toNat)) := by
  have hvalue : (BitVec.ofNat 128 value.toNat).toNat = value.toNat := by
    have hpow : 2 ^ 64 < 2 ^ 128 := Nat.pow_lt_pow_right (by omega) (by omega)
    rw [BitVec.toNat_ofNat, Nat.mod_eq_of_lt (value.toNat_lt.trans hpow)]
  unfold evalCondition
  dsimp only
  rw [h, Option.map_some, Bool.beq_eq_decide_eq]
  congr 1
  apply decide_eq_decide.mpr
  rw [← BitVec.toNat_inj, hvalue]

/-- A mask of at most 63 bits lets the whole range through. -/
theorem maskedBits_eq_rangeBits {r : UInt64 × UInt64} (hnarrow : width r ≤ 63)
    (inst : BitVec 128) : maskedBits inst r = rangeBits inst r := by
  rw [maskedBits, rangeBits, Nat.mod_eq_of_lt (show width r < 64 by omega)]

/-- On narrow ranges what is read is the field's own bits. -/
theorem readBits_eq_fieldBits {bits : List (UInt64 × UInt64)} (hnarrow : ∀ r ∈ bits, width r ≤ 63)
    (inst : BitVec 128) : readBits inst bits = fieldBits inst bits := by
  unfold readBits fieldBits
  apply List.foldl_ext
  intro high r hr
  rw [maskedBits_eq_rangeBits (hnarrow r hr)]

/-- A mask never adds bits. -/
theorem maskedBits_le (inst : BitVec 128) (r : UInt64 × UInt64) :
    maskedBits inst r ≤ rangeBits inst r := by
  unfold maskedBits rangeBits
  have hdvd : 2 ^ (width r % 64) ∣ 2 ^ width r := Nat.pow_dvd_pow 2 (Nat.mod_le _ _)
  rw [← Nat.mod_mod_of_dvd _ hdvd]
  exact Nat.mod_le _ _

/-- Only an expression that compiles has a value. -/
theorem expressible_of_evalFrom {ranges : List (UInt64 × UInt64)} {remBits : ℕ}
    (hsum : (ranges.map width).sum = remBits) (hlt : remBits < 2 ^ 64) {word left v : BitVec 128}
    (h : evalFrom word left (placed remBits ranges) = some v) : Expressible ranges := by
  induction ranges generalizing remBits left with
  | nil => exact ⟨by simp, by simp⟩
  | cons r ranges ih =>
    rw [List.map_cons, List.sum_cons] at hsum
    rw [placed, evalFrom] at h
    obtain ⟨u, hu, h⟩ := Option.bind_eq_some_iff.mp h
    unfold evalRange at hu
    obtain ⟨⟨hstart, hplace⟩, -⟩ := Option.ite_none_right_eq_some.mp hu
    dsimp only at hplace
    rw [toNat_ofNat_of_lt (by omega)] at hplace
    obtain ⟨hstarts, -⟩ := ih (by omega) (by omega) h
    refine ⟨List.forall_mem_cons.mpr ⟨hstart, hstarts⟩, ?_⟩
    rw [List.map_cons, List.tail_cons]
    omega

/-- A field whose merged expression has a value can be expressed. -/
theorem expressible_of_evalMerged {f : ParserField} (hfits : FieldFits f) {word v : BitVec 128}
    (h : evalMerged word (placed f.totalBits.toNat f.bits) = some v) : Expressible f.bits := by
  unfold evalMerged at h
  split at h
  · cases h
  · exact expressible_of_evalFrom hfits.total.symm f.totalBits.toNat_lt h

end Oboromi.Analysis.DecoderGenerator
