import Oboromi.Analysis.EmitterRuns
import Oboromi.Interface.SpirvLiterals

/-!
# Reading literals back

The encoding of every type agrees with the rule for literal numbers, except that the signed
types narrower than a word are extended with zeros (`readNumber_narrow_iff`): a negative `i8` or
`i16` is read back as a number that is not of its type.
-/

set_option autoImplicit false

namespace Oboromi.Analysis.Spirv

open Oboromi.Lib
open Oboromi.Model.Spirv
open Oboromi.Interface.Spirv

/-! ## One word -/

/-- Words that hold a number below the width's bound are read back as it. -/
theorem readNumber_unsigned {width : ℕ} {words : List UInt32} {n : ℕ}
    (hlen : words.length = (width + 31) / 32) (hbits : bitsOf words = n) (hn : n < 2 ^ width) :
    readNumber width false words = some (n : ℤ) := by
  have hrange : InRange width false n := by
    refine ⟨Int.natCast_nonneg _, ?_⟩
    exact_mod_cast hn
  unfold readNumber
  dsimp only
  rw [if_neg Bool.false_ne_true, hbits, if_pos ⟨hlen, hrange⟩]

/-- A signed number that fills its words is read back. -/
theorem readNumber_signed {width : ℕ} {words : List UInt32} {n : ℤ}
    (hlen : words.length = (width + 31) / 32)
    (hn : (bitsOf words : ℤ).bmod (2 ^ (32 * words.length)) = n)
    (hrange : -2 ^ width ≤ 2 * n ∧ 2 * n < 2 ^ width) :
    readNumber width true words = some n := by
  unfold readNumber
  dsimp only
  rw [if_pos rfl, hn, if_pos ⟨hlen, hrange⟩]

/-- A signed number whose type has as many bits as its words is read back. -/
theorem readNumber_whole {words : List UInt32} {width : ℕ} (hwidth : width = 32 * words.length)
    {n : ℤ} (hn : n = (bitsOf words : ℤ).bmod (2 ^ width)) :
    readNumber width true words = some n := by
  have hpos : 0 < 2 ^ width := Nat.two_pow_pos width
  have hcast : ((2 ^ width : ℕ) : ℤ) = 2 ^ width := by norm_cast
  have hle : -(((2 ^ width : ℕ) : ℤ) / 2) ≤ n := by
    rw [hn]
    exact Int.le_bmod hpos
  have hlt : n < (((2 ^ width : ℕ) : ℤ) + 1) / 2 := by
    rw [hn]
    exact Int.bmod_lt hpos
  rw [hwidth] at hn
  exact readNumber_signed (by omega) hn.symm ⟨by omega, by omega⟩

/-- A signed number that is extended with zeros is read back exactly when it is not negative. -/
theorem readNumber_narrow_iff {width : ℕ} (hpos : 0 < width) (hwidth : width < 32) {w : UInt32}
    (hw : w.toNat < 2 ^ width) {n : ℤ} (hn : n = (w.toNat : ℤ).bmod (2 ^ width)) :
    readNumber width true [w] = some n ↔ (width < 32 → 0 ≤ n) := by
  have hpow : 2 ^ width ≤ 2 ^ 31 := Nat.pow_le_pow_right (by omega) (by omega)
  have hcast : ((2 ^ width : ℕ) : ℤ) = 2 ^ width := by norm_cast
  have hbits : bitsOf [w] = w.toNat := Nat.add_zero _
  have hwhole : (bitsOf [w] : ℤ).bmod (2 ^ (32 * [w].length)) = w.toNat := by
    rw [hbits]
    apply Int.bmod_eq_of_le_mul_two
    · show -((2 ^ 32 : ℕ) : ℤ) ≤ _
      omega
    · show _ < ((2 ^ 32 : ℕ) : ℤ)
      omega
  have hlen : [w].length = (width + 31) / 32 := by
    rw [List.length_singleton]
    omega
  by_cases hhalf : 2 * w.toNat < 2 ^ width
  · have hnum : (w.toNat : ℤ).bmod (2 ^ width) = w.toNat := by
      apply Int.bmod_eq_of_le_mul_two <;> omega
    rw [hn, hnum]
    refine iff_of_true ?_ fun _ => Int.natCast_nonneg _
    exact readNumber_signed hlen hwhole ⟨by omega, by omega⟩
  · have hnum : (w.toNat : ℤ).bmod (2 ^ width) < 0 := by
      rw [Int.bmod_neg_iff (by omega) (by omega)]
      omega
    refine iff_of_false ?_ ?_
    · have hrange : ¬ InRange width true w.toNat := by
        rintro ⟨-, hlt⟩
        omega
      unfold readNumber
      dsimp only
      rw [if_pos rfl, hwhole, if_neg fun h => hrange h.2]
      exact nofun
    · intro hnonneg
      have hn' := hnonneg hwidth
      omega

/-! ## The ten encodings -/

/-- A single word denotes its own value. -/
theorem bitsOf_singleton (w : UInt32) : bitsOf [w] = w.toNat := Nat.add_zero _

/-- The low word and the high word hold all bits. -/
theorem bitsOf_toWords_uInt64 (x : UInt64) : bitsOf (Literal.toWords x) = x.toNat := by
  have hx := x.toNat_lt
  have hlow : x.toUInt32.toNat = x.toNat % 2 ^ 32 := UInt64.toNat_toUInt32 x
  have hhigh : (x >>> 32).toUInt32.toNat = x.toNat / 2 ^ 32 := by
    rw [UInt64.toNat_toUInt32, UInt64.toNat_shiftRight]
    show x.toNat >>> 32 % 2 ^ 32 = _
    rw [Nat.shiftRight_eq_div_pow]
    omega
  show x.toUInt32.toNat + 2 ^ 32 * bitsOf [(x >>> 32).toUInt32] = x.toNat
  rw [bitsOf_singleton, hlow, hhigh]
  omega

/-- A literal takes one word for every 32 bits begun. -/
theorem length_toWords (v : LiteralValue) : v.toWords.length = (v.width + 31) / 32 := by
  cases v <;> simp [LiteralValue.toWords, LiteralValue.width, Literal.toWords]

/-- A value of a type that is not signed is read back, and is not negative. -/
theorem readNumber_of_unsigned {v : LiteralValue} (hsigned : v.signed = false) :
    readNumber v.width v.signed v.toWords = some v.number ∧ 0 ≤ v.number := by
  have hlen := length_toWords v
  cases v with
  | u8 v =>
      have hread := readNumber_unsigned hlen (bitsOf_singleton v.toUInt32) v.toNat_lt
      exact ⟨hread, Int.natCast_nonneg _⟩
  | u16 v =>
      have hread := readNumber_unsigned hlen (bitsOf_singleton v.toUInt32) v.toNat_lt
      exact ⟨hread, Int.natCast_nonneg _⟩
  | u32 v =>
      have hread := readNumber_unsigned hlen (bitsOf_singleton v) v.toNat_lt
      exact ⟨hread, Int.natCast_nonneg _⟩
  | f32 v =>
      have hread := readNumber_unsigned hlen (bitsOf_singleton v.toBits) v.toBits.toNat_lt
      exact ⟨hread, Int.natCast_nonneg _⟩
  | u64 v =>
      have hread := readNumber_unsigned hlen (bitsOf_toWords_uInt64 v) v.toNat_lt
      exact ⟨hread, Int.natCast_nonneg _⟩
  | f64 v =>
      have hread := readNumber_unsigned hlen (bitsOf_toWords_uInt64 v.toBits) v.toBits.toNat_lt
      exact ⟨hread, Int.natCast_nonneg _⟩
  | i8 v => cases hsigned
  | i16 v => cases hsigned
  | i32 v => cases hsigned
  | i64 v => cases hsigned

/-- A literal is read back as its value exactly when it is not a negative number of a type
narrower than a word. -/
theorem readNumber_toWords_iff (v : LiteralValue) :
    readNumber v.width v.signed v.toWords = some v.number ↔ (v.width < 32 → 0 ≤ v.number) := by
  by_cases hsigned : v.signed = false
  · obtain ⟨hread, hnonneg⟩ := readNumber_of_unsigned hsigned
    exact iff_of_true hread fun _ => hnonneg
  have hlen := length_toWords v
  cases v with
  | i8 v =>
      exact readNumber_narrow_iff (by simp [LiteralValue.width]) (by simp [LiteralValue.width])
        v.toUInt8.toNat_lt (BitVec.toInt_eq_toNat_bmod v.toBitVec)
  | i16 v =>
      exact readNumber_narrow_iff (by simp [LiteralValue.width]) (by simp [LiteralValue.width])
        v.toUInt16.toNat_lt (BitVec.toInt_eq_toNat_bmod v.toBitVec)
  | i32 v =>
      have hnum : v.toInt = (bitsOf [v.toUInt32] : ℤ).bmod (2 ^ 32) := by
        rw [bitsOf_singleton]
        exact BitVec.toInt_eq_toNat_bmod v.toBitVec
      exact iff_of_true (readNumber_whole rfl hnum) (by simp [LiteralValue.width])
  | i64 v =>
      have hnum : v.toInt = (bitsOf (Literal.toWords v.toUInt64) : ℤ).bmod (2 ^ 64) := by
        rw [bitsOf_toWords_uInt64]
        exact BitVec.toInt_eq_toNat_bmod v.toBitVec
      exact iff_of_true (readNumber_whole rfl hnum) (by simp [LiteralValue.width])
  | _ => exact absurd rfl hsigned

/-! ## The value words of a constant -/

/-- `emit_constant_typed` emits opcode 43 with the literal's words at the end. -/
theorem effect_emitConstantTyped (v : LiteralValue) (ty : UInt32) :
    (v.emitConstantTyped ty).effect = .result fun r => ⟨43, ty :: r :: v.toWords⟩ := by
  cases v <;> rfl

/-- **A literal, alone or as the value of a constant, is read back as its value exactly when
it is not a negative number of a type narrower than a word.**
SOURCE: core/src/gpu/spirv.rs:25-69, core/src/gpu/spirv.rs:467-473 -/
theorem literal_encoding_iff (v : LiteralValue) :
    (readNumber v.width v.signed v.toWords = some v.number ↔ (v.width < 32 → 0 ≤ v.number)) ∧
    ∀ build ty e r e', (execCall build (v.emitConstantTyped ty)).run e = (.ok r, e') →
      ∃ header words, e'.words = e.words ++ header :: ty :: e.nextId :: words ∧
        (readNumber v.width v.signed words = some v.number ↔
          (v.width < 32 → 0 ≤ v.number)) := by
  refine ⟨readNumber_toWords_iff v, ?_⟩
  intro build ty e r e' hrun
  obtain ⟨-, rfl⟩ := execCall_eq_ok hrun
  rw [effect_emitConstantTyped]
  exact ⟨_, _, rfl, readNumber_toWords_iff v⟩

/-- The largest `i16` as a constant of a new module. -/
theorem literal_encoding_iff_i16 :
    ∃ r e' header words,
      (execCall .debug ((LiteralValue.i16 32767).emitConstantTyped 7)).run Emitter.new =
        (.ok r, e') ∧
      e'.words = [] ++ header :: 7 :: 1 :: words ∧ readNumber 16 true words = some 32767 := by
  obtain ⟨-, hcall⟩ := literal_encoding_iff (.i16 32767)
  obtain ⟨header, words, hwords, hread⟩ := hcall .debug 7 Emitter.new (some 1) _ rfl
  exact ⟨_, _, header, words, rfl, hwords, hread.mpr fun _ => by decide⟩

/-- A negative byte is extended with zeros, and read as no byte at all. -/
theorem negative_byte_not_extended :
    (LiteralValue.i8 (-1)).toWords = [0xFF] ∧ readNumber 8 true [0xFF] = none ∧
      ¬ readNumber 8 true (LiteralValue.i8 (-1)).toWords = some (-1) := by
  have hwords : (LiteralValue.i8 (-1)).toWords = [0xFF] := rfl
  have hread : readNumber 8 true [0xFF] = none := by decide
  refine ⟨hwords, hread, ?_⟩
  rw [hwords, hread]
  exact nofun

end Oboromi.Analysis.Spirv
