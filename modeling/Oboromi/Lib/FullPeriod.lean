import Mathlib.Algebra.Order.BigOperators.GroupWithZero.List
import Mathlib.Data.List.Prime
import Mathlib.Data.Nat.ModEq
import Mathlib.Dynamics.PeriodicPts.Defs
import Mathlib.GroupTheory.OrderOfElement
import Mathlib.SetTheory.Cardinal.NatCard

/-!
# Maps of full period

An injective map on a finite type that fixes one point can move another point through at most all
the others.  If it does (`FullPeriod`), every point but the fixed one is on that orbit
(`exists_iterate`), and so every orbit but the fixed point has the same length
(`iterate_eq_iff`).  Where the map is multiplication by an element, the period is the order of
the element (`minimalPeriod_eq_orderOf`), which its powers for the primes in it show
(`orderOf_eq_prod`).
-/

set_option autoImplicit false

namespace Oboromi.Lib

variable {S : Type} {f : S → S} {zero one : S}

/-- Two iterates of a periodic point agree when their numbers do modulo the period. -/
theorem iterate_eq_iterate_iff {x : S} (hx : 0 < Function.minimalPeriod f x) (m n : ℕ) :
    f^[m] x = f^[n] x ↔ m ≡ n [MOD Function.minimalPeriod f x] := by
  rw [← Function.iterate_mod_minimalPeriod_eq (n := m),
    ← Function.iterate_mod_minimalPeriod_eq (n := n),
    Function.iterate_eq_iterate_iff_of_lt_minimalPeriod (Nat.mod_lt m hx) (Nat.mod_lt n hx)]
  rfl

/-! ## Multiplication by an element -/

/-- An order is shown by the powers for its primes. -/
theorem orderOf_eq_prod {G : Type} [Monoid G] {x : G} {primes : List ℕ}
    (hprimes : ∀ q ∈ primes, q.Prime) (hone : x ^ primes.prod = 1)
    (hne : ∀ q ∈ primes, x ^ (primes.prod / q) ≠ 1) : orderOf x = primes.prod := by
  have hpos : 0 < primes.prod := List.prod_pos fun q hq => (hprimes q hq).pos
  apply orderOf_eq_of_pow_and_pow_div_prime hpos hone
  intro q hq hdvd
  have hall : ∀ p ∈ primes, Prime p := fun p hp => (hprimes p hp).prime
  exact hne q (mem_list_primes_of_dvd_prod hq.prime hall hdvd)

/-- A map that multiplies by an element moves the unit through as many points as the order of the
element. -/
theorem minimalPeriod_eq_orderOf {G : Type} [Monoid G] {x : G} {value : S → G}
    (hvalue : Function.Injective value) (hone : value one = 1)
    (hstep : ∀ s, value (f s) = x * value s) : Function.minimalPeriod f one = orderOf x := by
  have hiterate (n : ℕ) : value (f^[n] one) = x ^ n := by
    induction n with
    | zero => rw [Function.iterate_zero_apply, pow_zero, hone]
    | succ n ih => rw [Function.iterate_succ_apply', hstep, ih, pow_succ']
  apply Function.minimalPeriod_eq_minimalPeriod_iff.mpr
  intro n
  have hpoint : Function.IsPeriodicPt f n one ↔ value (f^[n] one) = value one := hvalue.eq_iff.symm
  rw [hpoint, hiterate, hone, isPeriodicPt_mul_iff_pow_eq_one]

/-! ## Full period -/

/-- A type has as many elements as there are values, if each has its own. -/
theorem nat_card_eq_of_values {n : ℕ} {value : S → ℕ} (hvalue : Function.Injective value)
    (hlt : ∀ s, value s < n) (hreached : ∀ k < n, ∃ s, value s = k) : Nat.card S = n := by
  let number : S → Fin n := fun s => ⟨value s, hlt s⟩
  have hbijective : Function.Bijective number := by
    constructor
    · intro s t h
      exact hvalue (congrArg Fin.val h)
    · intro k
      obtain ⟨s, hs⟩ := hreached k k.isLt
      exact ⟨s, Fin.ext hs⟩
  rw [Nat.card_eq_of_bijective number hbijective, Nat.card_fin]

/-- The map fixes `zero` and moves `one` through all other points. -/
structure FullPeriod (f : S → S) (zero one : S) : Prop where
  injective : Function.Injective f
  fixed : f zero = zero
  ne : one ≠ zero
  period : Function.minimalPeriod f one + 1 = Nat.card S

namespace FullPeriod

variable (h : FullPeriod f zero one)

include h

/-- Nothing but zero ever steps to zero. -/
theorem iterate_ne_zero {t : S} (ht : t ≠ zero) (k : ℕ) : f^[k] t ≠ zero := by
  intro heq
  have hzero : f^[k] zero = zero := Function.iterate_fixed h.fixed k
  exact ht (h.injective.iterate k (heq.trans hzero.symm))

variable [Finite S]

/-- Among finitely many states the first one recurs. -/
theorem period_pos : 0 < Function.minimalPeriod f one := by
  have : Nontrivial S := ⟨one, zero, h.ne⟩
  have hcard : 1 < Nat.card S := Finite.one_lt_card
  have hperiod := h.period
  omega

/-- Every point but the fixed one is reached. -/
theorem exists_iterate {t : S} (ht : t ≠ zero) :
    ∃ k < Function.minimalPeriod f one, f^[k] one = t := by
  let orbit : Fin (Function.minimalPeriod f one) → {s // s ≠ zero} := fun i =>
    ⟨f^[i] one, h.iterate_ne_zero h.ne i⟩
  have hinjective : Function.Injective orbit := by
    intro i j hij
    have hiter : f^[i] one = f^[j] one := congrArg Subtype.val hij
    rw [Function.iterate_eq_iterate_iff_of_lt_minimalPeriod i.isLt j.isLt] at hiter
    exact Fin.ext hiter
  have hcard : Nat.card {s // s ≠ zero} ≤ Nat.card (Fin (Function.minimalPeriod f one)) := by
    have hlt : Nat.card {s // s ≠ zero} < Nat.card S :=
      Finite.card_subtype_lt fun hzero => hzero rfl
    rw [← h.period] at hlt
    rw [Nat.card_fin]
    exact Nat.lt_succ_iff.mp hlt
  obtain ⟨i, hi⟩ := (hinjective.bijective_of_nat_card_le hcard).surjective ⟨t, ht⟩
  exact ⟨i, i.isLt, congrArg Subtype.val hi⟩

/-- Every orbit but the fixed point has the full length. -/
theorem iterate_eq_iff {t : S} (ht : t ≠ zero) (m n : ℕ) :
    f^[m] t = f^[n] t ↔ m ≡ n [MOD Function.minimalPeriod f one] := by
  obtain ⟨k, -, rfl⟩ := h.exists_iterate ht
  rw [← Function.iterate_add_apply, ← Function.iterate_add_apply,
    iterate_eq_iterate_iff h.period_pos]
  exact ⟨Nat.ModEq.add_right_cancel' k, Nat.ModEq.add_right k⟩

/-- Every orbit but the fixed point goes through every point but it. -/
theorem exists_iterate_of_ne {s t : S} (ht : t ≠ zero) (hs : s ≠ zero) :
    ∃ k < Function.minimalPeriod f one, f^[k] t = s := by
  obtain ⟨m, -, rfl⟩ := h.exists_iterate hs
  obtain ⟨n, hn, rfl⟩ := h.exists_iterate ht
  refine ⟨(m + (Function.minimalPeriod f one - n)) % Function.minimalPeriod f one,
    Nat.mod_lt _ h.period_pos, ?_⟩
  rw [← Function.iterate_add_apply, iterate_eq_iterate_iff h.period_pos]
  have hback : m + (Function.minimalPeriod f one - n) + n = m + Function.minimalPeriod f one := by
    omega
  calc (m + (Function.minimalPeriod f one - n)) % Function.minimalPeriod f one + n
      ≡ m + (Function.minimalPeriod f one - n) + n [MOD Function.minimalPeriod f one] :=
        (Nat.mod_modEq _ _).add_right n
    _ = m + Function.minimalPeriod f one := hback
    _ ≡ m [MOD Function.minimalPeriod f one] := Nat.add_modEq_right

end FullPeriod

end Oboromi.Lib
