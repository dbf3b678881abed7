import Mathlib.RingTheory.AdjoinRoot
import Oboromi.Lib.BinaryPolynomials
import Oboromi.Lib.MonicRemainder

/-!
# The register as multiplication in a ring

A vector of `n + 1` coefficients stands for an element of the ring of polynomials modulo
`X ^ (n + 1) - r` (`registerValue`), each element for one vector (`registerValue_injective`).  One
step of the register with feedback `r` multiplies by the root (`registerValue_step`).  Over a
ring of characteristic two, a vector of bits is the value at the root of the number they are
(`registerValue_bits`).
-/

set_option autoImplicit false

namespace Oboromi.Lib

open Polynomial

variable {R : Type} [CommRing R] [DecidableEq R] {n : ℕ} (r v w : Fin (n + 1) → R)

/-- The polynomials modulo that of the register. -/
abbrev RegisterRing : Type := AdjoinRoot (X ^ (n + 1) - ofFn (n + 1) r)

noncomputable def registerRoot : RegisterRing r := AdjoinRoot.root _

/-- The element a vector of coefficients stands for. -/
noncomputable def registerValue : RegisterRing r := AdjoinRoot.mk _ (ofFn (n + 1) v)

/-- The modulus of a register has one degree more than the register's highest place. -/
theorem degree_register [Nontrivial R] :
    (X ^ (n + 1) - ofFn (n + 1) r).degree = ((n + 1 : ℕ) : WithBot ℕ) := by
  rw [degree_sub_eq_left_of_degree_lt, degree_X_pow]
  rw [degree_X_pow]
  exact ofFn_degree_lt r

/-- Only zero is a multiple of the register's polynomial and shorter. -/
theorem eq_zero_of_register_dvd [Nontrivial R] {p : R[X]}
    (hdvd : X ^ (n + 1) - ofFn (n + 1) r ∣ p) (hdegree : p.degree < ((n + 1 : ℕ) : WithBot ℕ)) :
    p = 0 := by
  by_contra hne
  rw [← degree_register r] at hdegree
  exact (monic_X_pow_sub_ofFn r).not_dvd_of_degree_lt hne hdegree hdvd

/-- Registers with the same residue are the same. -/
theorem registerValue_injective [Nontrivial R] : Function.Injective (registerValue r) := by
  intro v w h
  have hdvd := AdjoinRoot.mk_eq_mk.mp h
  have hdegree := (degree_sub_le _ _).trans_lt (max_lt (ofFn_degree_lt v) (ofFn_degree_lt w))
  have heq := sub_eq_zero.mp (eq_zero_of_register_dvd r hdvd hdegree)
  rw [← toFn_comp_ofFn_eq_id (n + 1) v, heq, toFn_comp_ofFn_eq_id]

/-- **A step of the register multiplies by the root.** -/
theorem registerValue_step :
    registerValue r (registerStep r v) = registerRoot r * registerValue r v := by
  have hmonic := monic_X_pow_sub_ofFn r
  unfold registerValue registerRoot
  rw [← X_mul_ofFn_mod, ← AdjoinRoot.modByMonicHom_mk hmonic, AdjoinRoot.mk_leftInverse hmonic,
    map_mul, AdjoinRoot.mk_X]

/-- A vector is the combination of the powers of the root it says. -/
theorem registerValue_eq_sum :
    registerValue r v = ∑ i, AdjoinRoot.of _ (v i) * registerRoot r ^ i.val := by
  have hsum := congrArg (AdjoinRoot.mk (X ^ (n + 1) - ofFn (n + 1) r)) (ofFn_eq_sum_monomial v)
  rw [map_sum] at hsum
  refine hsum.trans ?_
  refine Finset.sum_congr rfl fun i _ => ?_
  rw [← C_mul_X_pow_eq_monomial, map_mul, map_pow, AdjoinRoot.mk_C, AdjoinRoot.mk_X]
  rfl

/-- The power of the root that leaves the vector is the feedback. -/
theorem registerRoot_pow : registerRoot r ^ (n + 1) = registerValue r r := by
  have hself := AdjoinRoot.mk_self (f := X ^ (n + 1) - ofFn (n + 1) r)
  rw [map_sub, map_pow, AdjoinRoot.mk_X] at hself
  exact sub_eq_zero.mp hself

/-! ## Registers of bits -/

variable [Nontrivial R] [CharP R 2]

instance charP_registerRing : CharP (RegisterRing r) 2 := by
  have hone : (1 : RegisterRing r) ≠ 0 := by
    intro h
    have hdvd := AdjoinRoot.mk_eq_zero.mp h
    have hdegree : (1 : R[X]).degree < ((n + 1 : ℕ) : WithBot ℕ) := by
      rw [degree_one]
      exact Nat.cast_pos.mpr (Nat.succ_pos n)
    exact one_ne_zero (eq_zero_of_register_dvd r hdvd hdegree)
  apply CharTwo.of_one_ne_zero_of_two_eq_zero hone
  have htwo : (2 : R) = 0 := CharTwo.two_eq_zero
  have hof := congrArg (AdjoinRoot.of (X ^ (n + 1) - ofFn (n + 1) r)) htwo
  rwa [map_ofNat, map_zero] at hof

omit [Nontrivial R] [CharP R 2] in
/-- The value of a vector of bits is that of their number at the root. -/
theorem registerValue_bits {number : ℕ} (hnumber : number < 2 ^ (n + 1))
    (hv : ∀ i, v i = if number.testBit i then 1 else 0) :
    registerValue r v = evalBits (registerRoot r) number := by
  rw [registerValue_eq_sum, evalBits_eq _ hnumber, Finset.sum_range]
  refine Finset.sum_congr rfl fun i _ => ?_
  rw [hv]
  split
  · rw [map_one, one_mul]
  · rw [map_zero, zero_mul]

end Oboromi.Lib
