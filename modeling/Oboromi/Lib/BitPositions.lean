import Mathlib.Data.List.Nodup
import Mathlib.Data.List.Perm.Subperm
import Mathlib.Data.Nat.Bitwise
import Mathlib.Tactic.Ring

/-!
# Numbers kept at bit positions of a word

A list of positions, the least significant first, says where a word keeps the bits of a number.
`extract` reads the number and `deposit` writes one, position after position.  Distinct
positions in the word keep what is deposited (`extract_deposit`), and they are the only ones
that do (`nodup_of_deposit_injective`).
-/

set_option autoImplicit false

namespace Oboromi.Lib.BitPositions

variable {n : ℕ}

/-- The number whose bits are at the positions. -/
def extract (word : BitVec n) : List ℕ → ℕ
  | [] => 0
  | p :: ps => Nat.bit (word.getLsbD p) (extract word ps)

/-- The word with one bit replaced; past its end nothing changes. -/
def put (word : BitVec n) (p : ℕ) (bit : Bool) : BitVec n :=
  if bit then word ||| BitVec.twoPow n p else word &&& ~~~ BitVec.twoPow n p

/-- The word with the bits of a number written to the positions. -/
def deposit (word : BitVec n) : List ℕ → ℕ → BitVec n
  | [], _ => word
  | p :: ps, v => deposit (put word p (v.testBit 0)) ps (v / 2)

/-! ## Reading -/

/-- Bit `i` of what is extracted is the word's bit at the `i`-th position. -/
theorem testBit_extract (word : BitVec n) (ps : List ℕ) (i : ℕ) :
    (extract word ps).testBit i = ps[i]?.any word.getLsbD := by
  induction ps generalizing i with
  | nil => simp [extract]
  | cons p ps ih =>
    rw [extract]
    cases i with
    | zero => simp
    | succ i =>
      rw [Nat.testBit_bit_succ, ih]
      simp

/-- As many positions as there are make a number of as many bits. -/
theorem extract_lt (word : BitVec n) (ps : List ℕ) : extract word ps < 2 ^ ps.length := by
  induction ps with
  | nil => simp [extract]
  | cons p ps ih =>
    rw [extract, List.length_cons, Nat.pow_succ, Nat.bit_val]
    have hbit := (word.getLsbD p).toNat_lt
    omega

/-- The bits at later positions stand above those at the first ones. -/
theorem extract_append (word : BitVec n) (ps qs : List ℕ) :
    extract word (ps ++ qs) = extract word ps + 2 ^ ps.length * extract word qs := by
  induction ps with
  | nil => simp [extract]
  | cons p ps ih =>
    rw [List.cons_append, extract, extract, ih, List.length_cons, Nat.bit_val, Nat.bit_val]
    ring

/-- Consecutive positions. -/
theorem extract_range' (word : BitVec n) (start width : ℕ) :
    extract word (List.range' start width) = word.toNat / 2 ^ start % 2 ^ width := by
  apply Nat.eq_of_testBit_eq
  intro i
  rw [testBit_extract, Nat.testBit_mod_two_pow, Nat.testBit_div_two_pow]
  by_cases hi : i < width
  · rw [List.getElem?_range' hi]
    simp [hi, BitVec.getLsbD, Nat.add_comm]
  · rw [List.getElem?_eq_none (by simpa using hi)]
    simp [hi]

/-- What is extracted depends on the word's bits at the positions only. -/
theorem extract_congr {w w' : BitVec n} {ps : List ℕ}
    (h : ∀ p ∈ ps, w.getLsbD p = w'.getLsbD p) : extract w ps = extract w' ps := by
  induction ps with
  | nil => rfl
  | cons p ps ih =>
    rw [extract, extract, h p List.mem_cons_self, ih fun q hq => h q (List.mem_cons_of_mem _ hq)]

/-! ## Writing -/

/-- Setting a bit sets it and no other. -/
theorem getLsbD_put (word : BitVec n) {p i : ℕ} (hi : i < n) (bit : Bool) :
    (put word p bit).getLsbD i = if i = p then bit else word.getLsbD i := by
  unfold put
  by_cases h : i = p
  · subst h
    cases bit <;> simp [hi]
  · cases bit <;> simp [hi, h]

/-- Writing the bit that is there. -/
theorem put_getLsbD (word : BitVec n) (p : ℕ) : put word p (word.getLsbD p) = word := by
  apply BitVec.eq_of_getLsbD_eq
  intro i hi
  rw [getLsbD_put word hi]
  split
  · next h => rw [h]
  · rfl

/-- A position past the word's end sets nothing. -/
theorem put_of_ge (word : BitVec n) {p : ℕ} (hp : n ≤ p) (bit : Bool) : put word p bit = word := by
  apply BitVec.eq_of_getLsbD_eq
  intro i hi
  rw [getLsbD_put word hi, if_neg (by omega)]

/-- Of two bits written to one position the second stays. -/
theorem put_put (word : BitVec n) (p : ℕ) (bit bit' : Bool) :
    put (put word p bit) p bit' = put word p bit' := by
  apply BitVec.eq_of_getLsbD_eq
  intro i hi
  rw [getLsbD_put _ hi, getLsbD_put _ hi, getLsbD_put _ hi]
  split <;> rfl

/-- Bits at different positions are set in either order. -/
theorem put_comm (word : BitVec n) {p q : ℕ} (h : p ≠ q) (bit bit' : Bool) :
    put (put word p bit) q bit' = put (put word q bit') p bit := by
  apply BitVec.eq_of_getLsbD_eq
  intro i hi
  simp only [getLsbD_put _ hi]
  split
  · next hq =>
    rw [if_neg]
    exact fun hp => h (hp.symm.trans hq)
  · rfl

/-- The bits at other positions stay. -/
theorem getLsbD_deposit_of_notMem {ps : List ℕ} {p : ℕ} (hp : p ∉ ps) (word : BitVec n) (v : ℕ) :
    (deposit word ps v).getLsbD p = word.getLsbD p := by
  induction ps generalizing word v with
  | nil => rfl
  | cons q ps ih =>
    rw [List.mem_cons, not_or] at hp
    rw [deposit, ih hp.2]
    by_cases hlt : p < n
    · rw [getLsbD_put word hlt, if_neg hp.1]
    · rw [BitVec.getLsbD_of_ge _ _ (by omega), BitVec.getLsbD_of_ge _ _ (by omega)]

/-- The lowest bit of a value is deposited at the first position, the others at the rest. -/
theorem deposit_bit (word : BitVec n) (p : ℕ) (ps : List ℕ) (bit : Bool) (v : ℕ) :
    deposit word (p :: ps) (Nat.bit bit v) = deposit (put word p bit) ps v := by
  rw [deposit, Nat.testBit_bit_zero, Nat.bit_div_two]

/-- Depositing what is there. -/
theorem deposit_extract (word : BitVec n) (ps : List ℕ) :
    deposit word ps (extract word ps) = word := by
  induction ps with
  | nil => rfl
  | cons p ps ih => rw [extract, deposit_bit, put_getLsbD, ih]

/-- A value is deposited at some positions and, shifted past them, at the rest. -/
theorem deposit_append (word : BitVec n) (ps qs : List ℕ) (v : ℕ) :
    deposit word (ps ++ qs) v = deposit (deposit word ps v) qs (v / 2 ^ ps.length) := by
  induction ps generalizing word v with
  | nil => simp [deposit]
  | cons p ps ih =>
    rw [List.cons_append, deposit, deposit, ih, List.length_cons, Nat.div_div_eq_div_mul,
      Nat.pow_succ, Nat.mul_comm 2]

/-- Only as many bits count as there are positions. -/
theorem deposit_mod (word : BitVec n) (ps : List ℕ) (v : ℕ) :
    deposit word ps (v % 2 ^ ps.length) = deposit word ps v := by
  induction ps generalizing word v with
  | nil => rfl
  | cons p ps ih =>
    have hhalf : v % 2 ^ (ps.length + 1) / 2 = v / 2 % 2 ^ ps.length := by
      rw [Nat.pow_succ, Nat.mul_comm, Nat.mod_mul_right_div_self]
    have hbit : (v % 2 ^ (ps.length + 1)).testBit 0 = v.testBit 0 := by
      rw [Nat.testBit_mod_two_pow]
      simp
    rw [List.length_cons, deposit, deposit, hhalf, hbit, ih]

/-- Distinct positions of the word keep what is deposited. -/
theorem extract_deposit {ps : List ℕ} (hnodup : ps.Nodup) (hps : ∀ p ∈ ps, p < n)
    (word : BitVec n) {v : ℕ} (hv : v < 2 ^ ps.length) :
    extract (deposit word ps v) ps = v := by
  induction ps generalizing word v with
  | nil =>
    rw [List.length_nil, Nat.pow_zero, Nat.lt_one_iff] at hv
    rw [hv]
    rfl
  | cons p ps ih =>
    obtain ⟨hp, hnodup⟩ := List.nodup_cons.mp hnodup
    rw [List.length_cons, Nat.pow_succ] at hv
    have hhalf : v / 2 < 2 ^ ps.length := by omega
    have hrest := ih hnodup (fun q hq => hps q (List.mem_cons_of_mem _ hq))
      (put word p (v.testBit 0)) hhalf
    have hbit : (deposit (put word p (v.testBit 0)) ps (v / 2)).getLsbD p = v.testBit 0 := by
      rw [getLsbD_deposit_of_notMem hp, getLsbD_put word (hps p List.mem_cons_self), if_pos rfl]
    rw [deposit, extract, hbit, hrest]
    exact Nat.bit_testBit_zero_shiftRight_one v

/-! ## What distinct deposits say about the positions -/

/-- A bit that is written over is lost. -/
theorem deposit_put_of_mem {ps : List ℕ} {p : ℕ} (hp : p ∈ ps) (word : BitVec n) (bit : Bool)
    (v : ℕ) : deposit (put word p bit) ps v = deposit word ps v := by
  induction ps generalizing word v with
  | nil => cases hp
  | cons q ps ih =>
    rw [deposit, deposit]
    by_cases heq : p = q
    · rw [heq, put_put]
    · rw [put_comm word heq]
      exact ih (List.mem_of_ne_of_mem heq hp) _ _

/-- Where deposits of different numbers differ, the positions are distinct ones of the word. -/
theorem nodup_of_deposit_injective {ps : List ℕ}
    (h : ∀ (word : BitVec n) (v v' : ℕ), v < 2 ^ ps.length → v' < 2 ^ ps.length →
      deposit word ps v = deposit word ps v' → v = v') :
    ps.Nodup ∧ ∀ p ∈ ps, p < n := by
  induction ps with
  | nil => simp
  | cons p ps ih =>
    rw [List.length_cons] at h
    -- If the bit at `p` is lost, the deposits of 0 and of 1 are the same.
    have hkept (hsame : ∀ bit, deposit (put (0 : BitVec n) p bit) ps 0 = deposit 0 ps 0) :
        False := by
      have heq : deposit (0 : BitVec n) (p :: ps) (Nat.bit false 0) =
          deposit 0 (p :: ps) (Nat.bit true 0) := by
        rw [deposit_bit, deposit_bit, hsame, hsame]
      have hone : 1 < 2 ^ (ps.length + 1) := Nat.one_lt_two_pow (Nat.succ_ne_zero _)
      exact absurd (h 0 _ _ (Nat.two_pow_pos _) hone heq) (by decide)
    have hp : p ∉ ps := fun hp => hkept fun bit => deposit_put_of_mem hp 0 bit 0
    have hlt : p < n := by
      by_contra hge
      exact hkept fun bit => by rw [put_of_ge 0 (by omega)]
    have htail (word : BitVec n) (v v' : ℕ) (hv : v < 2 ^ ps.length) (hv' : v' < 2 ^ ps.length)
        (heq : deposit word ps v = deposit word ps v') : v = v' := by
      have hbit := (word.getLsbD p).toNat_lt
      rw [← put_getLsbD word p, ← deposit_bit, ← deposit_bit] at heq
      have hsame := h word _ _ (by rw [Nat.bit_val]; omega) (by rw [Nat.bit_val]; omega) heq
      rw [Nat.bit_val, Nat.bit_val] at hsame
      omega
    obtain ⟨hnodup, hps⟩ := ih htail
    exact ⟨List.nodup_cons.mpr ⟨hp, hnodup⟩, List.forall_mem_cons.mpr ⟨hlt, hps⟩⟩

/-- Distinct positions of a word are no more than it has bits. -/
theorem length_le_of_nodup {ps : List ℕ} (hnodup : ps.Nodup) (hps : ∀ p ∈ ps, p < n) :
    ps.length ≤ n := by
  have hsub : ps ⊆ List.range n := fun p hp => List.mem_range.mpr (hps p hp)
  have hle := (List.subperm_of_subset hnodup hsub).length_le
  rwa [List.length_range] at hle

/-- Positions past the end of a word read as 0. -/
theorem any_filter (s : Option ℕ) (word : BitVec n) :
    (s.filter (· < n)).any word.getLsbD = s.any word.getLsbD := by
  cases s with
  | none => rfl
  | some p =>
    by_cases hp : p < n
    · rw [Option.filter_some_pos (by simpa using hp)]
    · rw [Option.filter_some_neg (by simpa using hp), Option.any_some,
        BitVec.getLsbD_of_ge _ _ (by omega)]
      rfl

/-- All of these positions are in the word. -/
theorem filter_getElem? {ps : List ℕ} (hps : ∀ p ∈ ps, p < n) (i : ℕ) :
    ps[i]?.filter (· < n) = ps[i]? := by
  cases hp : ps[i]? with
  | none => rfl
  | some p => exact Option.filter_some_pos (by simpa using hps p (List.mem_of_getElem? hp))

/-- A bit of a word is known by what it is in every word. -/
theorem filter_eq_of_any_eq {s t : Option ℕ}
    (h : ∀ word : BitVec n, s.any word.getLsbD = t.any word.getLsbD) :
    s.filter (· < n) = t.filter (· < n) := by
  apply Option.ext
  intro p
  have hsingle (o : Option ℕ) (hp : p < n) : o = some p ↔ o.any (BitVec.twoPow n p).getLsbD := by
    cases o with
    | none => simp
    | some q =>
      simp only [Option.some.injEq, Option.any_some, BitVec.getLsbD_twoPow, Bool.and_eq_true,
        decide_eq_true_eq]
      omega
  simp only [Option.filter_eq_some_iff, decide_eq_true_eq, and_congr_left_iff]
  intro hp
  rw [hsingle s hp, hsingle t hp, h]

end Oboromi.Lib.BitPositions
