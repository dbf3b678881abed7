import Mathlib.Algebra.BigOperators.Intervals
import Mathlib.Algebra.BigOperators.Ring.Finset
import Mathlib.Algebra.CharP.Two
import Mathlib.Data.Nat.Bitwise
import Mathlib.Tactic.Ring

/-!
# Numbers as polynomials over two elements

The bits of a number are the coefficients of a polynomial, whose value at an element of a ring of
characteristic two is `evalBits`.  Exclusive or adds, a shift multiplies by the element, and
`clmul` multiplies without carries.  Where the element's power of the width is the value of a
short number, `fold` takes a number back towards the width; so `power` computes a power of the
element on numbers, and says so only where its numbers stay within the width
(`evalBits_power`).
-/

set_option autoImplicit false

namespace Oboromi.Lib

open Finset

variable {R : Type} [CommRing R] [CharP R 2] (α : R)

/-- The value of the polynomial with the bits of a number as coefficients. -/
def evalBits (n : ℕ) : R := ∑ i ∈ range n, if n.testBit i then α ^ i else 0

omit [CharP R 2] in
/-- Bits from the width of the number on add nothing. -/
theorem evalBits_eq {n m : ℕ} (h : n < 2 ^ m) :
    evalBits α n = ∑ i ∈ range m, if n.testBit i then α ^ i else 0 := by
  have hwide : ∀ k, n < 2 ^ k → ∀ j, k ≤ j →
      (∑ i ∈ range j, if n.testBit i then α ^ i else 0) =
        ∑ i ∈ range k, if n.testBit i then α ^ i else 0 := by
    intro k hk j hj
    refine (sum_subset (range_mono hj) ?_).symm
    intro i _ hi
    have hpow : 2 ^ k ≤ 2 ^ i := Nat.pow_le_pow_right (by omega) (by simpa using hi)
    rw [Nat.testBit_lt_two_pow (hk.trans_le hpow), if_neg Bool.false_ne_true]
  unfold evalBits
  rw [← hwide n Nat.lt_two_pow_self (max n m) (le_max_left n m),
    hwide m h (max n m) (le_max_right n m)]

omit [CharP R 2] in
/-- The number 0 is the zero polynomial. -/
theorem evalBits_zero : evalBits α 0 = 0 := rfl

omit [CharP R 2] in
/-- The number 1 is the constant polynomial one. -/
theorem evalBits_one : evalBits α 1 = 1 := by
  simp [evalBits]

/-- Exclusive or adds. -/
theorem evalBits_xor (a b : ℕ) : evalBits α (a ^^^ b) = evalBits α a + evalBits α b := by
  have ha : a < 2 ^ max a b :=
    Nat.lt_two_pow_self.trans_le (Nat.pow_le_pow_right (by omega) (le_max_left a b))
  have hb : b < 2 ^ max a b :=
    Nat.lt_two_pow_self.trans_le (Nat.pow_le_pow_right (by omega) (le_max_right a b))
  rw [evalBits_eq α ha, evalBits_eq α hb, evalBits_eq α (Nat.xor_lt_two_pow ha hb),
    ← sum_add_distrib]
  refine sum_congr rfl fun i _ => ?_
  rw [Nat.testBit_xor]
  cases a.testBit i <;> cases b.testBit i <;> simp [CharTwo.add_self_eq_zero]

omit [CharP R 2] in
/-- A shift multiplies by the element. -/
theorem evalBits_two_mul (n : ℕ) : evalBits α (2 * n) = α * evalBits α n := by
  have hn : 2 * n < 2 ^ (n + 1) := by
    rw [pow_succ']
    exact Nat.mul_lt_mul_of_pos_left Nat.lt_two_pow_self (by omega)
  rw [evalBits_eq α hn, sum_range_succ', evalBits, Finset.mul_sum]
  have hzero : (2 * n).testBit 0 = false := by simp
  rw [hzero, if_neg Bool.false_ne_true, add_zero]
  refine sum_congr rfl fun i _ => ?_
  rw [Nat.testBit_succ, Nat.mul_div_cancel_left n (by omega), pow_succ']
  split <;> simp

omit [CharP R 2] in
/-- A shift by `k` places multiplies by the `k`-th power of the variable. -/
theorem evalBits_two_pow_mul (k n : ℕ) : evalBits α (2 ^ k * n) = α ^ k * evalBits α n := by
  induction k with
  | zero => simp
  | succ k ih => rw [pow_succ', mul_assoc, evalBits_two_mul, ih, pow_succ', mul_assoc]

/-- A number is its low bits and its high ones, shifted. -/
theorem evalBits_split (k n : ℕ) :
    evalBits α n = evalBits α (n % 2 ^ k) + α ^ k * evalBits α (n / 2 ^ k) := by
  have hn : n = n % 2 ^ k ^^^ 2 ^ k * (n / 2 ^ k) := by
    apply Nat.eq_of_testBit_eq
    intro i
    rw [Nat.testBit_xor, Nat.testBit_mod_two_pow, Nat.testBit_two_pow_mul, Nat.testBit_div_two_pow]
    by_cases hi : i < k
    · simp [hi, Nat.not_le.mpr hi]
    · have hsum : i - k + k = i := by omega
      simp [hi, Nat.not_lt.mp hi, hsum]
  rw [← evalBits_two_pow_mul, ← evalBits_xor, ← hn]

/-! ## Products -/

/-- Multiply by the low bits of `b`, the highest first. -/
def clmul (a b : ℕ) : ℕ → ℕ → ℕ
  | 0, acc => acc
  | k + 1, acc => clmul a b k (2 * acc ^^^ b / 2 ^ k % 2 * a)

/-- The carry-less product is a product of polynomials, added to what the accumulator was shifted
to. -/
theorem evalBits_clmul (a b k acc : ℕ) :
    evalBits α (clmul a b k acc) =
      α ^ k * evalBits α acc + evalBits α a * evalBits α (b % 2 ^ k) := by
  induction k generalizing acc with
  | zero => simp [clmul, Nat.mod_one, evalBits_zero]
  | succ k ih =>
    have hbit : evalBits α (b / 2 ^ k % 2 * a) = evalBits α (b / 2 ^ k % 2) * evalBits α a := by
      rcases Nat.mod_two_eq_zero_or_one (b / 2 ^ k) with h | h
      · rw [h, Nat.zero_mul, evalBits_zero, zero_mul]
      · rw [h, Nat.one_mul, evalBits_one, one_mul]
    have hsplit : evalBits α (b % 2 ^ (k + 1)) =
        evalBits α (b % 2 ^ k) + α ^ k * evalBits α (b / 2 ^ k % 2) := by
      rw [evalBits_split α k, Nat.mod_mod_of_dvd _ (pow_dvd_pow 2 (Nat.le_succ k)), pow_succ,
        Nat.mod_mul_right_div_self]
    rw [clmul, ih, evalBits_xor, evalBits_two_mul, hbit, hsplit]
    ring

/-! ## Powers -/

/-- One step towards the width: what is above it is multiplied by the short number. -/
def fold (w c s n : ℕ) : ℕ := n % 2 ^ w ^^^ clmul (n / 2 ^ w) c s 0

/-- Folding the high bits with the low part of the modulus does not change the value at a root of
it. -/
theorem evalBits_fold {w c s : ℕ} (hc : c < 2 ^ s) (hα : α ^ w = evalBits α c) (n : ℕ) :
    evalBits α (fold w c s n) = evalBits α n := by
  rw [fold, evalBits_xor, evalBits_clmul, Nat.mod_eq_of_lt hc, evalBits_zero, ← hα,
    evalBits_split α w n]
  ring

/-- The power with the low bits of `e`, the highest first; nothing where a number does not fit
the width. -/
def power (w c s e : ℕ) : ℕ → ℕ → Option ℕ
  | 0, acc => if acc < 2 ^ w then some acc else none
  | k + 1, acc =>
    if acc < 2 ^ w then
      power w c s e k (fold w c s (fold w c s (2 ^ (e / 2 ^ k % 2) * clmul acc acc w 0)))
    else none

/-- Square-and-multiply over `k` bits of the exponent: the value is the power, and the number
stays reduced. -/
theorem evalBits_power {w c s : ℕ} (hc : c < 2 ^ s) (hα : α ^ w = evalBits α c) {e k acc n : ℕ}
    (h : power w c s e k acc = some n) :
    evalBits α n = evalBits α acc ^ 2 ^ k * α ^ (e % 2 ^ k) ∧ n < 2 ^ w := by
  induction k generalizing acc with
  | zero =>
    rw [power] at h
    split at h
    · cases h
      simpa [Nat.mod_one]
    · cases h
  | succ k ih =>
    rw [power] at h
    split at h
    · next hacc =>
      obtain ⟨hvalue, hlt⟩ := ih h
      have hexp : e % 2 ^ (k + 1) = e % 2 ^ k + 2 ^ k * (e / 2 ^ k % 2) := by
        rw [pow_succ, Nat.mod_mul]
      refine ⟨?_, hlt⟩
      rw [hvalue, evalBits_fold α hc hα, evalBits_fold α hc hα, evalBits_two_pow_mul,
        evalBits_clmul, Nat.mod_eq_of_lt hacc, evalBits_zero, hexp]
      ring
    · cases h

end Oboromi.Lib
