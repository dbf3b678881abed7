import Oboromi.Analysis.TweakMultiplication

/-!
# Multiplication by α is a linear bijection

The laws of the register (`registerStep_add`, `registerStep_injective`,
`registerStep_surjective`) are carried over to blocks along `bits`, which is a bijection
(`ofBits_bits`, `bits_ofBits`) and turns exclusive or into addition.  A block is also read
as a number, whose bits are the same ones (`bits_eq_testBit`).
-/

set_option autoImplicit false

namespace Oboromi.Analysis

open Oboromi.Lib Oboromi.Model Oboromi.Interface Polynomial

/-! ## Blocks as vectors of bits -/

/-- Every vector of bits is that of a block. -/
theorem bits_ofBits (v : Fin (16 * 8) → ZMod 2) : bits (ofBits v) = v := by
  funext i
  obtain ⟨⟨q, s⟩, rfl⟩ := finProdFinEquiv.surjective i
  rw [bits_apply]
  unfold ofBits
  rw [get_ofFn, testBit_ofNat _ (Nat.ofBits_lt_two_pow _), Nat.testBit_ofBits_lt _ _ s.isLt]
  show (if decide (v (finProdFinEquiv (q, s)) = 1) = true then (1 : ZMod 2) else 0) = _
  rcases Fin.exists_fin_two.mp ⟨v (finProdFinEquiv (q, s)), rfl⟩ with h | h
  · rw [h]
    rfl
  · rw [h]
    rfl

/-- A block is determined by its bits. -/
theorem bits_injective : Function.Injective bits := Function.LeftInverse.injective ofBits_bits

/-- Exclusive or is addition of the bits. -/
theorem bits_xorBlock (s t : Block) : bits (Xts.xorBlock s t) = bits s + bits t := by
  funext i
  obtain ⟨⟨q, r⟩, rfl⟩ := finProdFinEquiv.surjective i
  rw [Pi.add_apply, bits_apply, bits_apply, bits_apply]
  unfold Xts.xorBlock
  rw [get_ofFn, UInt8.toNat_xor, Nat.testBit_xor]
  simpa using coefficient_xor_and ((s.get q).toNat.testBit r) ((t.get q).toNat.testBit r) true

/-- The lowest feedback bit is one. -/
theorem isUnit_feedback_zero : IsUnit (feedback 0) := by
  have hone : feedback 0 = 1 := rfl
  rw [hone]
  exact isUnit_one

/-! ## Blocks as numbers -/

/-- A bit of a number is a bit of one of its bytes. -/
theorem testBit_leNat (bytes : List UInt8) (q s : ℕ) (hs : s < 8) :
    (leNat bytes).testBit (s + 8 * q) = (bytes.getD q 0).toNat.testBit s := by
  induction bytes generalizing q with
  | nil => simp [leNat]
  | cons byte bytes ih =>
      have hcons : leNat (byte :: bytes) = 2 ^ 8 * leNat bytes + byte.toNat := by
        rw [leNat_cons]
        exact Nat.add_comm _ _
      rw [hcons, Nat.testBit_two_pow_mul_add _ byte.toNat_lt]
      cases q with
      | zero => simp [hs]
      | succ q =>
          have hsub : s + 8 * (q + 1) - 8 = s + 8 * q := by omega
          rw [if_neg (by omega), hsub, ih]
          rfl

/-- The bits of a block are those of its number. -/
theorem bits_eq_testBit (t : Block) (i : Fin (16 * 8)) :
    bits t i = if (leValue t).testBit i then 1 else 0 := by
  obtain ⟨⟨q, s⟩, rfl⟩ := finProdFinEquiv.surjective i
  have hbyte : t.toList.getD q.val 0 = t.get q := by
    rw [List.getD_eq_getElem _ _ (by simp)]
    exact Vector.getElem_toList _
  have hval : (finProdFinEquiv (q, s)).val = s.val + 8 * q.val := rfl
  rw [bits_apply, hval]
  unfold leValue
  rw [testBit_leNat _ _ _ s.isLt, hbyte]

/-- A block's number is below 2^128. -/
theorem leValue_lt (t : Block) : leValue t < 2 ^ 128 := by
  have hlt := leNat_lt t.toList
  rw [Vector.length_toList] at hlt
  exact hlt.trans_eq (by decide)

/-- A bit is determined by its coefficient. -/
theorem coefficient_injective {a b : Bool}
    (h : (if a then (1 : ZMod 2) else 0) = if b then 1 else 0) : a = b := by
  revert h
  cases a <;> cases b <;> decide

/-- Doubling moves every bit one place up. -/
theorem testBit_double (n k : ℕ) : (2 * n).testBit (k + 1) = n.testBit k := by
  rw [Nat.testBit_succ, Nat.mul_div_cancel_left n (by decide)]

/-- One step of the register at a bit of the number. -/
theorem testBit_gfMulAlpha (t : Block) (i : Fin (16 * 8)) :
    (leValue (Xts.gfMulAlpha t)).testBit i =
      ((2 * leValue t).testBit i ^^ ((leValue t).testBit 127 && (0x87).testBit i)) := by
  have hlast : bits t (Fin.last 127) = if (leValue t).testBit 127 then 1 else 0 :=
    bits_eq_testBit t (Fin.last 127)
  apply coefficient_injective
  rw [coefficient_xor_and, ← bits_eq_testBit, bits_gfMulAlpha]
  rcases Fin.eq_zero_or_eq_succ (n := 127) i with rfl | ⟨i, rfl⟩
  · rw [registerStep_zero, hlast]
    have hdouble : (2 * leValue t).testBit 0 = false := by simp
    simp [feedback, hdouble]
  · have hcast : bits t i.castSucc = if (leValue t).testBit i then 1 else 0 :=
      bits_eq_testBit t i.castSucc
    rw [registerStep_succ, hlast, hcast, Fin.val_succ, testBit_double]
    rfl

/-- Doubling modulo `2 ^ 128`, with 0x87 for the bit that is lost. -/
theorem leValue_gfMulAlpha (t : Block) :
    leValue (Xts.gfMulAlpha t) =
      2 * leValue t % 2 ^ 128 ^^^ if (leValue t).testBit 127 then 0x87 else 0 := by
  have hfold : (if (leValue t).testBit 127 then 0x87 else 0) < 2 ^ 128 := by
    split <;> decide
  apply Nat.eq_of_testBit_eq
  intro k
  by_cases hk : k < 128
  · rw [testBit_gfMulAlpha t ⟨k, hk⟩, Nat.testBit_xor, Nat.testBit_mod_two_pow]
    cases (leValue t).testBit 127 <;> simp [hk]
  · have hpow : 2 ^ 128 ≤ 2 ^ k := Nat.pow_le_pow_right (by decide) (Nat.not_lt.mp hk)
    rw [Nat.testBit_lt_two_pow ((leValue_lt _).trans_le hpow), Nat.testBit_xor,
      Nat.testBit_mod_two_pow, Nat.testBit_lt_two_pow (hfold.trans_le hpow)]
    simp [hk]

/-! ## The laws -/

/-- `gf_mul_alpha` multiplies by `X` modulo the field polynomial. -/
theorem polynomial_gfMulAlpha (t : Block) :
    polynomial (Xts.gfMulAlpha t) = (X * polynomial t) %ₘ modulus := by
  show ofFn (127 + 1) (bits (Xts.gfMulAlpha t)) = (X * ofFn (127 + 1) (bits t)) %ₘ modulus
  rw [modulus_eq, X_mul_ofFn_mod, bits_gfMulAlpha]

/-- `gf_mul_alpha` is linear. -/
theorem gfMulAlpha_xorBlock (s t : Block) :
    Xts.gfMulAlpha (Xts.xorBlock s t) = Xts.xorBlock (Xts.gfMulAlpha s) (Xts.gfMulAlpha t) := by
  apply bits_injective
  rw [bits_xorBlock, bits_gfMulAlpha, bits_gfMulAlpha, bits_gfMulAlpha, bits_xorBlock]
  exact registerStep_add feedback (bits s) (bits t)

/-- `gf_mul_alpha` sends different blocks to different blocks. -/
theorem gfMulAlpha_injective : Function.Injective Xts.gfMulAlpha := by
  intro s t h
  have hbits := congrArg bits h
  rw [bits_gfMulAlpha, bits_gfMulAlpha] at hbits
  exact bits_injective (registerStep_injective isUnit_feedback_zero hbits)

/-- `gf_mul_alpha` reaches every block. -/
theorem gfMulAlpha_surjective : Function.Surjective Xts.gfMulAlpha := by
  intro t
  obtain ⟨v, hv⟩ := registerStep_surjective isUnit_feedback_zero (bits t)
  refine ⟨ofBits v, bits_injective ?_⟩
  rw [bits_gfMulAlpha, bits_ofBits]
  exact hv

/-- **The tweak is advanced by a linear bijection, multiplication by `X` in the field; two
different tweaks stay different however often they are advanced.**
SOURCE: core/src/fs/nca.rs:294-332 -/
theorem tweak_advance_linear_bijective :
    (∀ t, polynomial (Xts.gfMulAlpha t) = (X * polynomial t) %ₘ modulus) ∧
      (∀ t, leValue (Xts.gfMulAlpha t) =
        2 * leValue t % 2 ^ 128 ^^^ if (leValue t).testBit 127 then 0x87 else 0) ∧
      (∀ s t, Xts.gfMulAlpha (Xts.xorBlock s t) =
        Xts.xorBlock (Xts.gfMulAlpha s) (Xts.gfMulAlpha t)) ∧
      Function.Bijective Xts.gfMulAlpha ∧
      ∀ (n : ℕ) (s t : Block), s ≠ t → Xts.gfMulAlpha^[n] s ≠ Xts.gfMulAlpha^[n] t := by
  refine ⟨polynomial_gfMulAlpha, leValue_gfMulAlpha, gfMulAlpha_xorBlock,
    ⟨gfMulAlpha_injective, gfMulAlpha_surjective⟩, ?_⟩
  intro n s t hne h
  exact hne (gfMulAlpha_injective.iterate n h)

end Oboromi.Analysis
