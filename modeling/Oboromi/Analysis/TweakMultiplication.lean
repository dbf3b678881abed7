import Mathlib.Tactic.FinCases
import Mathlib.Tactic.IntervalCases
import Oboromi.Interface.XtsCipher

/-!
# The carry code multiplies by α

`gfMulAlpha` shifts every byte up by one bit, takes the bit that leaves the byte below, and
folds the bit that leaves the block back in as 0x87.  On the bits of the block this is one
step of the register whose feedback is `X ^ 7 + X ^ 2 + X + 1`, which is multiplication by
`X` modulo the polynomial of the field (`toFn_X_mul_mod`).
-/

set_option autoImplicit false

namespace Oboromi.Analysis

open Oboromi.Lib Oboromi.Model Oboromi.Interface Polynomial

/-! ## Blocks and their bits -/

/-- A bit of a block, by byte and place. -/
theorem bits_apply (t : Block) (q : Fin 16) (s : Fin 8) :
    bits t (finProdFinEquiv (q, s)) = if (t.get q).toNat.testBit s then 1 else 0 := by
  have hsplit := finProdFinEquiv.symm_apply_apply (q, s)
  have hdiv : (finProdFinEquiv (q, s)).divNat = q := congrArg Prod.fst hsplit
  have hmod : (finProdFinEquiv (q, s)).modNat = s := congrArg Prod.snd hsplit
  unfold bits
  rw [hdiv, hmod]

/-- The bits of a byte made from a number. -/
theorem testBit_ofNat (n : ℕ) (hn : n < 2 ^ 8) (s : ℕ) :
    (UInt8.ofNat n).toNat.testBit s = n.testBit s := by
  rw [UInt8.toNat_ofNat_of_lt' hn]

/-- A byte is determined by its eight bits. -/
theorem eq_of_testBit {a b : UInt8} (h : ∀ s : Fin 8, a.toNat.testBit s = b.toNat.testBit s) :
    a = b := by
  apply UInt8.toNat_inj.mp
  apply Nat.eq_of_testBit_eq
  intro i
  by_cases hi : i < 8
  · exact h ⟨i, hi⟩
  · have hpow : 2 ^ 8 ≤ 2 ^ i := Nat.pow_le_pow_right (by omega) (by omega)
    rw [Nat.testBit_lt_two_pow (a.toNat_lt.trans_le hpow),
      Nat.testBit_lt_two_pow (b.toNat_lt.trans_le hpow)]

/-- A block is determined by its bits. -/
theorem ofBits_bits (t : Block) : ofBits (bits t) = t := by
  apply ext_get
  intro q
  unfold ofBits
  rw [get_ofFn]
  apply eq_of_testBit
  intro s
  rw [testBit_ofNat _ (Nat.ofBits_lt_two_pow _), Nat.testBit_ofBits_lt _ _ s.isLt, bits_apply]
  cases (t.get q).toNat.testBit s <;> simp

/-! ## The feedback -/

/-- The coefficients of `X ^ 7 + X ^ 2 + X + 1`, the bits of 0x87. -/
def feedback (i : Fin (127 + 1)) : ZMod 2 := if (0x87).testBit i then 1 else 0

/-- The feedback taps as a polynomial. -/
theorem ofFn_feedback : ofFn (127 + 1) feedback = X ^ 7 + X ^ 2 + X + 1 := by
  ext k
  rw [coeff_add, coeff_add, coeff_add, coeff_X_pow, coeff_X_pow, coeff_X, coeff_one]
  by_cases hlow : k < 8
  · rw [ofFn_coeff_eq_val_of_lt _ (show k < 127 + 1 by omega)]
    unfold feedback
    interval_cases k <;> simp [Nat.testBit_succ]
  · have hzero : (ofFn (127 + 1) feedback).coeff k = 0 := by
      by_cases hk : k < 127 + 1
      · have hpow : 2 ^ 8 ≤ 2 ^ k := Nat.pow_le_pow_right (by omega) (by omega)
        rw [ofFn_coeff_eq_val_of_lt _ hk]
        unfold feedback
        rw [Nat.testBit_lt_two_pow (show 0x87 < 2 ^ k by omega)]
        rfl
      · exact ofFn_coeff_eq_zero_of_ge _ (Nat.not_lt.mp hk)
    rw [hzero, if_neg (by omega), if_neg (by omega), if_neg (by omega), if_neg (by omega)]
    simp

/-- The field polynomial is the register's. -/
theorem modulus_eq : modulus = X ^ (127 + 1) - ofFn (127 + 1) feedback := by
  rw [ofFn_feedback, CharTwo.sub_eq_add]
  unfold modulus
  ring

/-- Multiplying by alpha steps the shift register. -/
theorem timesAlpha_eq (t : Block) : timesAlpha t = ofBits (registerStep feedback (bits t)) := by
  show ofBits (toFn (127 + 1) ((X * ofFn (127 + 1) (bits t)) %ₘ modulus)) = _
  rw [modulus_eq, toFn_X_mul_mod]

/-! ## The code -/

/-- The lowest byte after `gf_mul_alpha`. -/
theorem gfMulAlpha_zero (t : Block) : (Xts.gfMulAlpha t).get 0 =
    (t.get 0 <<< 1) ^^^ if (t.get 15 >>> 7) &&& 1 ≠ 0 then 0x87 else 0 := by
  unfold Xts.gfMulAlpha
  by_cases hcarry : (t.get 15 >>> 7) &&& 1 ≠ 0
  · simp only [if_pos hcarry, get_put_self]
  · simp only [if_neg hcarry, get_put_self]
    simp

/-- The other bytes after `gf_mul_alpha`. -/
theorem gfMulAlpha_succ (t : Block) (i : Fin 15) : (Xts.gfMulAlpha t).get i.succ =
    (t.get i.succ <<< 1) ||| (t.get i.castSucc >>> 7) := by
  have hne : i.succ ≠ 0 := Fin.succ_ne_zero i
  have hself (result : Block) (j : Fin 15) :
      (put result j.succ ((t.get j.succ <<< 1) ||| (t.get j.castSucc >>> 7))).get j.succ =
        (t.get j.succ <<< 1) ||| (t.get j.castSucc >>> 7) := get_put_self _ _ _
  have hother (result : Block) (j k : Fin 15) (hkj : k ≠ j) :
      (put result j.succ ((t.get j.succ <<< 1) ||| (t.get j.castSucc >>> 7))).get k.succ =
        result.get k.succ := get_put_of_ne _ _ fun heq => hkj (Fin.succ_injective _ heq)
  have hloop := foldl_entry (fun (result : Block) (j : Fin 15) => result.get j.succ)
    (fun j _ => (t.get j.succ <<< 1) ||| (t.get j.castSucc >>> 7)) (fun _ => True)
    (fun _ _ _ => trivial) (fun result j _ => hself result j)
    (fun result j k _ => hother result j k)
    (List.nodup_reverse.mpr (List.nodup_finRange 15)) (Vector.replicate 16 0) trivial i
  rw [if_pos (List.mem_reverse.mpr (List.mem_finRange i))] at hloop
  unfold Xts.gfMulAlpha
  by_cases hcarry : (t.get 15 >>> 7) &&& 1 ≠ 0
  · simp only [if_pos hcarry, get_put_of_ne _ _ hne]
    exact hloop
  · simp only [if_neg hcarry, get_put_of_ne _ _ hne]
    exact hloop

/-! ## Bits of the shifted bytes -/

/-- The bits of a byte shifted left by one. -/
theorem testBit_shiftLeft_one (x : UInt8) (s : Fin 8) :
    (x <<< 1).toNat.testBit s = (decide (s.val ≠ 0) && x.toNat.testBit (s.val - 1)) := by
  have hs := s.isLt
  rw [UInt8.toNat_shiftLeft]
  show (x.toNat <<< 1 % 2 ^ 8).testBit s = _
  rw [Nat.testBit_mod_two_pow, Nat.testBit_shiftLeft]
  rcases Nat.eq_zero_or_pos s.val with hzero | hpos
  · simp [hzero]
  · have hne : s.val ≠ 0 := by omega
    simp [hne]
    omega

/-- The bits of a byte shifted right by seven. -/
theorem testBit_shiftRight_seven (x : UInt8) (s : Fin 8) :
    (x >>> 7).toNat.testBit s = (decide (s.val = 0) && x.toNat.testBit 7) := by
  rw [UInt8.toNat_shiftRight]
  show (x.toNat >>> 7).testBit s = _
  rw [Nat.testBit_shiftRight]
  rcases Nat.eq_zero_or_pos s.val with hzero | hpos
  · simp [hzero]
  · have hpow : 2 ^ 8 ≤ 2 ^ (7 + s.val) := Nat.pow_le_pow_right (by omega) (by omega)
    have hne : s.val ≠ 0 := by omega
    rw [Nat.testBit_lt_two_pow (x.toNat_lt.trans_le hpow)]
    simp [hne]

/-- The carry is the highest bit of the byte. -/
theorem carry_iff (x : UInt8) : (x >>> 7) &&& 1 ≠ 0 ↔ x.toNat.testBit 7 = true := by
  rw [ne_eq, ← UInt8.toNat_inj, UInt8.toNat_and, UInt8.toNat_shiftRight]
  show ¬ (x.toNat >>> 7) &&& 1 = 0 ↔ _
  rw [Nat.testBit, Nat.and_comm]
  simp

/-- The bits that are folded back in. -/
theorem testBit_carry (x : UInt8) (s : Fin 8) :
    (if (x >>> 7) &&& 1 ≠ 0 then (0x87 : UInt8) else 0).toNat.testBit s =
      (x.toNat.testBit 7 && (0x87).testBit s) := by
  by_cases hcarry : (x >>> 7) &&& 1 ≠ 0
  · rw [if_pos hcarry, (carry_iff x).mp hcarry]
    rfl
  · have hbit : x.toNat.testBit 7 = false := by
      simpa using mt (carry_iff x).mpr hcarry
    rw [if_neg hcarry, hbit]
    simp

/-- What moves into a bit that is not the lowest of its byte. -/
theorem shiftUp_bits_same (t : Block) (q : Fin 16) (s s' : Fin 8) (h : s.val = s'.val + 1) :
    shiftUp (n := 127) (bits t) (finProdFinEquiv (q, s)) =
      if (t.get q).toNat.testBit s' then 1 else 0 := by
  rw [← bits_apply t q s']
  apply shiftUp_of_succ
  show s.val + 8 * q.val = s'.val + 8 * q.val + 1
  omega

/-- What moves into the lowest bit of a byte that is not the lowest. -/
theorem shiftUp_bits_below (t : Block) (q : Fin 15) :
    shiftUp (n := 127) (bits t) (finProdFinEquiv (q.succ, (0 : Fin 8))) =
      if (t.get q.castSucc).toNat.testBit 7 then 1 else 0 := by
  have hbelow := bits_apply t q.castSucc 7
  refine Eq.trans ?_ hbelow
  apply shiftUp_of_succ
  show 0 + 8 * (q.val + 1) = 7 + 8 * q.val + 1
  omega

/-- The last bit of a block is the carry of its last byte. -/
theorem bits_last (t : Block) :
    bits t (Fin.last 127) = if (t.get 15).toNat.testBit 7 then 1 else 0 := bits_apply t 15 7

/-- The feedback taps, by byte and place. -/
theorem feedback_apply (q : Fin 16) (s : Fin 8) :
    feedback (finProdFinEquiv (q, s)) =
      if q.val = 0 ∧ (0x87).testBit s then 1 else 0 := by
  unfold feedback
  show (if (0x87).testBit (s.val + 8 * q.val) then (1 : ZMod 2) else 0) = _
  rcases Nat.eq_zero_or_pos q.val with hzero | hpos
  · simp [hzero]
  · have hpow : 2 ^ 8 ≤ 2 ^ (s.val + 8 * q.val) := Nat.pow_le_pow_right (by omega) (by omega)
    have hne : q.val ≠ 0 := by omega
    rw [Nat.testBit_lt_two_pow (show 0x87 < 2 ^ (s.val + 8 * q.val) by omega)]
    simp [hne]

/-- One step of the register at one bit. -/
theorem registerStep_apply (t : Block) (q : Fin 16) (s : Fin 8) :
    registerStep (n := 127) feedback (bits t) (finProdFinEquiv (q, s)) =
      shiftUp (n := 127) (bits t) (finProdFinEquiv (q, s)) +
        (if (t.get 15).toNat.testBit 7 then 1 else 0) *
          if q.val = 0 ∧ (0x87).testBit s then 1 else 0 := by
  rw [← bits_last, ← feedback_apply]
  rfl

/-- Exclusive or is addition, and conjunction multiplication, of coefficients. -/
theorem coefficient_xor_and (a c f : Bool) :
    (if (a ^^ (c && f)) then (1 : ZMod 2) else 0) =
      (if a then 1 else 0) + (if c then 1 else 0) * if f then 1 else 0 := by
  cases a <;> cases c <;> cases f <;> simp
  rfl

/-- `gf_mul_alpha` steps the shift register. -/
theorem bits_gfMulAlpha (t : Block) :
    bits (Xts.gfMulAlpha t) = registerStep (n := 127) feedback (bits t) := by
  funext i
  obtain ⟨⟨q, s⟩, rfl⟩ := finProdFinEquiv.surjective i
  rw [bits_apply, registerStep_apply]
  rcases Fin.eq_zero_or_eq_succ q with rfl | ⟨q, rfl⟩
  · rw [gfMulAlpha_zero, UInt8.toNat_xor, Nat.testBit_xor, testBit_shiftLeft_one, testBit_carry]
    rcases Fin.eq_zero_or_eq_succ s with rfl | ⟨s, rfl⟩
    · have hzero : shiftUp (n := 127) (bits t) (finProdFinEquiv ((0 : Fin 16), (0 : Fin 8))) = 0 :=
        shiftUp_zero (n := 127) (bits t)
      rw [hzero]
      simp
    · rw [shiftUp_bits_same t 0 s.succ s.castSucc rfl]
      simpa using coefficient_xor_and ((t.get 0).toNat.testBit s) ((t.get 15).toNat.testBit 7)
        ((0x87).testBit (s.val + 1))
  · rw [gfMulAlpha_succ, UInt8.toNat_or, Nat.testBit_or, testBit_shiftLeft_one,
      testBit_shiftRight_seven]
    rcases Fin.eq_zero_or_eq_succ s with rfl | ⟨s, rfl⟩
    · rw [shiftUp_bits_below]
      simp
    · rw [shiftUp_bits_same t q.succ s.succ s.castSucc rfl]
      simp

/-- **The carry code computes the product with α.**
SOURCE: core/src/fs/nca.rs:321-332 -/
theorem gfMulAlpha_eq (t : Block) : Xts.gfMulAlpha t = timesAlpha t := by
  rw [timesAlpha_eq, ← bits_gfMulAlpha, ofBits_bits]

end Oboromi.Analysis
