import Mathlib.Algebra.Polynomial.Div
import Mathlib.Algebra.Polynomial.Monic
import Mathlib.Algebra.Polynomial.OfFn
import Mathlib.Tactic.Ring

/-!
# Multiplication by the indeterminate, modulo a monic polynomial

Over any commutative ring, the remainders modulo `X ^ (n + 1) - r` are the vectors of `n + 1`
coefficients.  Multiplication by `X` shifts the vector by one place; the coefficient that
leaves it comes back as a multiple of `r`.  This is the step of a linear feedback shift
register.
-/

set_option autoImplicit false

namespace Oboromi.Lib

open Polynomial

variable {R : Type} [CommRing R] [DecidableEq R] {n : ℕ}

/-- The coefficients moved up by one place. -/
def shiftUp (v : Fin (n + 1) → R) : Fin (n + 1) → R := Fin.cons 0 fun i => v i.castSucc

/-- One step of the register with the feedback `r`. -/
def registerStep (r v : Fin (n + 1) → R) : Fin (n + 1) → R :=
  shiftUp v + v (Fin.last n) • r

omit [DecidableEq R] in
/-- A zero is shifted in at the bottom. -/
@[simp] theorem shiftUp_zero (v : Fin (n + 1) → R) : shiftUp v 0 = 0 := rfl

omit [DecidableEq R] in
/-- Every other coefficient comes from the place below. -/
@[simp] theorem shiftUp_succ (v : Fin (n + 1) → R) (i : Fin n) :
    shiftUp v i.succ = v i.castSucc := rfl

omit [DecidableEq R] in
/-- A place other than the lowest takes the value below it. -/
theorem shiftUp_of_succ (v : Fin (n + 1) → R) {i j : Fin (n + 1)} (h : i.val = j.val + 1) :
    shiftUp v i = v j := by
  have hj : j.val < n := by omega
  have hi : i = Fin.succ ⟨j.val, hj⟩ := Fin.ext h
  rw [hi, shiftUp_succ]
  rfl

/-- Multiplying by `X` moves the coefficients up and the last one out. -/
theorem X_mul_ofFn (v : Fin (n + 1) → R) :
    X * ofFn (n + 1) v = ofFn (n + 1) (shiftUp v) + C (v (Fin.last n)) * X ^ (n + 1) := by
  ext k
  rw [coeff_add, coeff_C_mul, coeff_X_pow]
  cases k with
  | zero =>
      rw [coeff_X_mul_zero, ofFn_coeff_eq_val_of_lt _ (Nat.succ_pos n), if_neg (by omega)]
      simp [shiftUp]
  | succ k =>
      rw [coeff_X_mul]
      rcases Nat.lt_trichotomy k n with hlt | rfl | hgt
      · rw [ofFn_coeff_eq_val_of_lt _ (Nat.lt_succ_of_lt hlt),
          ofFn_coeff_eq_val_of_lt _ (Nat.succ_lt_succ hlt), if_neg (by omega), mul_zero, add_zero]
        exact (shiftUp_succ v ⟨k, hlt⟩).symm
      · rw [ofFn_coeff_eq_val_of_lt _ (Nat.lt_succ_self k), ofFn_coeff_eq_zero_of_ge _ le_rfl,
          if_pos rfl, mul_one, zero_add]
        rfl
      · rw [ofFn_coeff_eq_zero_of_ge _ (by omega), ofFn_coeff_eq_zero_of_ge _ (by omega),
          if_neg (by omega), mul_zero, add_zero]

/-- The modulus is monic, since what is subtracted has a smaller degree. -/
theorem monic_X_pow_sub_ofFn (r : Fin (n + 1) → R) : (X ^ (n + 1) - ofFn (n + 1) r).Monic := by
  nontriviality R
  apply (monic_X_pow (n + 1)).sub_of_left
  rw [degree_X_pow]
  exact ofFn_degree_lt r

/-- **The register computes the product with `X` modulo `X ^ (n + 1) - r`.** -/
theorem X_mul_ofFn_mod (r v : Fin (n + 1) → R) :
    (X * ofFn (n + 1) v) %ₘ (X ^ (n + 1) - ofFn (n + 1) r) = ofFn (n + 1) (registerStep r v) := by
  nontriviality R
  have hmonic := monic_X_pow_sub_ofFn r
  refine (div_modByMonic_unique (C (v (Fin.last n))) _ hmonic ⟨?_, ?_⟩).2
  · rw [X_mul_ofFn, registerStep, map_add, map_smul, smul_eq_C_mul]
    ring
  · rw [degree_sub_eq_left_of_degree_lt]
    · rw [degree_X_pow]
      exact ofFn_degree_lt _
    · rw [degree_X_pow]
      exact ofFn_degree_lt _

/-- The same on the vectors of coefficients. -/
theorem toFn_X_mul_mod (r v : Fin (n + 1) → R) :
    toFn (n + 1) ((X * ofFn (n + 1) v) %ₘ (X ^ (n + 1) - ofFn (n + 1) r)) = registerStep r v := by
  rw [X_mul_ofFn_mod, toFn_comp_ofFn_eq_id]

/-! ## The register as a map -/

omit [DecidableEq R] in
/-- The lowest coefficient after a step is the modulus's, times what was shifted out. -/
theorem registerStep_zero (r v : Fin (n + 1) → R) :
    registerStep r v 0 = v (Fin.last n) * r 0 := zero_add _

omit [DecidableEq R] in
/-- A higher coefficient comes from the place below, with the modulus's share of what was shifted
out. -/
theorem registerStep_succ (r v : Fin (n + 1) → R) (i : Fin n) :
    registerStep r v i.succ = v i.castSucc + v (Fin.last n) * r i.succ := rfl

omit [DecidableEq R] in
/-- A step is additive. -/
theorem registerStep_add (r v w : Fin (n + 1) → R) :
    registerStep r (v + w) = registerStep r v + registerStep r w := by
  funext i
  rcases Fin.eq_zero_or_eq_succ i with rfl | ⟨i, rfl⟩
  · rw [Pi.add_apply, registerStep_zero, registerStep_zero, registerStep_zero, Pi.add_apply,
      add_mul]
  · rw [Pi.add_apply, registerStep_succ, registerStep_succ, registerStep_succ, Pi.add_apply,
      Pi.add_apply, add_mul]
    exact add_add_add_comm _ _ _ _

omit [DecidableEq R] in
/-- The value that left the vector can be read off its lowest place. -/
theorem registerStep_injective {r : Fin (n + 1) → R} (hr : IsUnit (r 0)) :
    Function.Injective (registerStep r) := by
  intro v w h
  have hlast : v (Fin.last n) = w (Fin.last n) := by
    have hzero := congrFun h 0
    rw [registerStep_zero, registerStep_zero] at hzero
    exact hr.mul_right_cancel hzero
  funext i
  cases i using Fin.lastCases with
  | last => exact hlast
  | cast i =>
      have hsucc := congrFun h i.succ
      rw [registerStep_succ, registerStep_succ, hlast] at hsucc
      exact add_right_cancel hsucc

omit [DecidableEq R] in
/-- Every register is a step away from some other, when the lowest coefficient of the modulus is a
unit. -/
theorem registerStep_surjective {r : Fin (n + 1) → R} (hr : IsUnit (r 0)) :
    Function.Surjective (registerStep r) := by
  intro w
  obtain ⟨u, hu⟩ := hr
  -- The value that left, and below it the places with its share taken off.
  let left : R := w 0 * ↑u⁻¹
  let v : Fin (n + 1) → R := Fin.snoc (fun i : Fin n => w i.succ - left * r i.succ) left
  have hlast : v (Fin.last n) = left := Fin.snoc_last _ _
  have hcast (i : Fin n) : v i.castSucc = w i.succ - left * r i.succ := Fin.snoc_castSucc _ _ _
  refine ⟨v, ?_⟩
  funext i
  rcases Fin.eq_zero_or_eq_succ i with rfl | ⟨i, rfl⟩
  · rw [registerStep_zero, hlast, ← hu]
    exact Units.inv_mul_cancel_right (w 0) u
  · rw [registerStep_succ, hlast, hcast, sub_add_cancel]

end Oboromi.Lib
