import Mathlib.NumberTheory.LucasPrimality
import Mathlib.Tactic.NormNum.Prime
import Mathlib.Tactic.ReduceModChar
import Oboromi.Analysis.HeaderDecryption
import Oboromi.Analysis.TweakAlgebra
import Oboromi.Lib.FullPeriod
import Oboromi.Lib.ShiftRegister

/-!
# The period of the tweaks

Advancing a tweak is one step of the register with `feedback`, so it multiplies the element a
block stands for (`residue`) by α.  The order of α is `2 ^ 128 - 1` (`orderOf_alpha`): the powers
that would show a smaller one are computed on numbers (`powers_checked`).  So every block but
zero goes through all the others (`tweaks_full_period`), and the tweaks of any two sectors are
one sequence, read from two places.
-/

set_option autoImplicit false

namespace Oboromi.Analysis

open Oboromi.Lib Oboromi.Model Oboromi.Interface

/-! ## Blocks and numbers -/

/-- A block is determined by its number. -/
theorem leValue_injective : Function.Injective leValue := by
  intro s t h
  apply bits_injective
  funext i
  rw [bits_eq_testBit, bits_eq_testBit, h]

/-- The block of a number has that number. -/
theorem leValue_leBlock {n : ℕ} (h : n < 2 ^ 128) : leValue (leBlock n) = n := by
  have hdigits : (leBlock n).toList = leDigits 16 n := by
    rw [leDigits_eq_ofFn]
    exact Vector.toList_ofFn
  unfold leValue
  rw [hdigits]
  exact leNat_leDigits_of_lt h

/-- There are 2^128 blocks. -/
theorem nat_card_block : Nat.card Block = 2 ^ 128 :=
  nat_card_eq_of_values leValue_injective leValue_lt fun n hn => ⟨leBlock n, leValue_leBlock hn⟩

instance finite_block : Finite Block := by
  apply Nat.finite_of_card_ne_zero
  rw [nat_card_block]
  decide

/-! ## Blocks as elements of the ring -/

noncomputable def alpha : RegisterRing feedback := registerRoot feedback

/-- The element a block stands for. -/
noncomputable def residue (t : Block) : RegisterRing feedback := registerValue feedback (bits t)

/-- A block is determined by its residue. -/
theorem residue_injective : Function.Injective residue :=
  (registerValue_injective feedback).comp bits_injective

/-- Advancing a tweak multiplies by α. -/
theorem residue_gfMulAlpha (t : Block) : residue (Xts.gfMulAlpha t) = alpha * residue t := by
  unfold residue
  rw [bits_gfMulAlpha]
  exact registerValue_step feedback (bits t)

/-- A block's residue evaluates its number's bits at alpha. -/
theorem residue_eq_evalBits (t : Block) : residue t = evalBits alpha (leValue t) :=
  registerValue_bits feedback (bits t) (leValue_lt t) (bits_eq_testBit t)

/-- The residue of a number's block evaluates its bits at alpha. -/
theorem residue_leBlock {n : ℕ} (h : n < 2 ^ 128) : residue (leBlock n) = evalBits alpha n := by
  rw [residue_eq_evalBits, leValue_leBlock h]

/-- Numbers below 2^128 have different values at alpha. -/
theorem evalBits_alpha_injective {m n : ℕ} (hm : m < 2 ^ 128) (hn : n < 2 ^ 128)
    (h : evalBits alpha m = evalBits alpha n) : m = n := by
  rw [← residue_leBlock hm, ← residue_leBlock hn] at h
  rw [← leValue_leBlock hm, ← leValue_leBlock hn, residue_injective h]

/-- The bit that is lost comes back as 0x87. -/
theorem alpha_pow_width : alpha ^ 128 = evalBits alpha 0x87 := by
  have hfeedback : registerValue feedback feedback = evalBits alpha 0x87 :=
    registerValue_bits feedback feedback (by decide) fun _ => rfl
  rw [← hfeedback]
  exact registerRoot_pow feedback

/-! ## The order of α -/

/-- The primes in `2 ^ 128 - 1`. -/
def periodPrimes : List ℕ :=
  [3, 5, 17, 257, 641, 65537, 274177, 6700417, 67280421310721]

/-- The primes multiply to 2^128 - 1. -/
theorem prod_periodPrimes : periodPrimes.prod = 2 ^ 128 - 1 := by decide +kernel

/-- The largest factor is prime. -/
theorem prime_of_largest : Nat.Prime 67280421310721 := by
  have hprimes : ∀ q ∈ [2, 2, 2, 2, 2, 2, 2, 2, 5, 47, 373, 2998279], Nat.Prime q := by
    intro q hq
    fin_cases hq <;> norm_num
  have hprod : 67280421310721 - 1 = [2, 2, 2, 2, 2, 2, 2, 2, 5, 47, 373, 2998279].prod := by
    decide
  apply lucas_primality _ (3 : ZMod 67280421310721)
  · reduce_mod_char
  · intro q hq hdvd
    rw [hprod] at hdvd
    have hmem := mem_list_primes_of_dvd_prod hq.prime (fun p hp => (hprimes p hp).prime) hdvd
    fin_cases hmem
    all_goals
      reduce_mod_char
      decide

/-- The factors are primes. -/
theorem prime_of_mem_periodPrimes : ∀ q ∈ periodPrimes, q.Prime := by
  intro q hq
  fin_cases hq
  case «8» => exact prime_of_largest
  all_goals norm_num

/-- The power of α with exponent `e`, as a number. -/
def alphaPower (e : ℕ) : Option ℕ := power 128 0x87 8 e 128 1

/-- A computed power of alpha is the power. -/
theorem pow_eq_of_alphaPower {e n : ℕ} (he : e < 2 ^ 128) (h : alphaPower e = some n) :
    alpha ^ e = evalBits alpha n ∧ n < 2 ^ 128 := by
  obtain ⟨hvalue, hlt⟩ := evalBits_power alpha (by decide) alpha_pow_width h
  rw [evalBits_one, one_pow, one_mul, Nat.mod_eq_of_lt he] at hvalue
  exact ⟨hvalue.symm, hlt⟩

/-- Alpha to the 2^128 - 1 is one. -/
theorem alphaPower_period : alphaPower (2 ^ 128 - 1) = some 1 := by decide +kernel

/-- No prime can be taken out of the exponent. -/
theorem powers_checked :
    ∀ q ∈ periodPrimes, (alphaPower ((2 ^ 128 - 1) / q)).any (· != 1) = true := by
  decide +kernel

/-- Alpha has order 2^128 - 1. -/
theorem orderOf_alpha : orderOf alpha = 2 ^ 128 - 1 := by
  rw [← prod_periodPrimes]
  apply orderOf_eq_prod prime_of_mem_periodPrimes
  · rw [prod_periodPrimes]
    obtain ⟨hpow, -⟩ := pow_eq_of_alphaPower (by decide) alphaPower_period
    rw [hpow, evalBits_one]
  · intro q hq hone
    rw [prod_periodPrimes] at hone
    obtain ⟨n, hn, hne⟩ := (Option.any_eq_true _ _).mp (powers_checked q hq)
    have he : (2 ^ 128 - 1) / q < 2 ^ 128 := (Nat.div_le_self _ _).trans_lt (by decide)
    obtain ⟨hpow, hlt⟩ := pow_eq_of_alphaPower he hn
    rw [hpow, ← evalBits_one alpha] at hone
    have hn1 : n = 1 := evalBits_alpha_injective hlt (by decide) hone
    rw [hn1] at hne
    exact absurd hne (by decide)

/-! ## The tweaks -/

/-- `gf_mul_alpha` keeps the zero block. -/
theorem gfMulAlpha_leBlock_zero : Xts.gfMulAlpha (leBlock 0) = leBlock 0 := by decide

/-- The block one returns after 2^128 - 1 steps and no sooner. -/
theorem minimalPeriod_gfMulAlpha :
    Function.minimalPeriod Xts.gfMulAlpha (leBlock 1) = 2 ^ 128 - 1 := by
  have hone : residue (leBlock 1) = 1 := by
    rw [residue_leBlock (by decide), evalBits_one]
  rw [minimalPeriod_eq_orderOf residue_injective hone residue_gfMulAlpha, orderOf_alpha]

/-- `gf_mul_alpha` has full period from the block one. -/
theorem fullPeriod_gfMulAlpha : FullPeriod Xts.gfMulAlpha (leBlock 0) (leBlock 1) where
  injective := gfMulAlpha_injective
  fixed := gfMulAlpha_leBlock_zero
  ne := by decide
  period := by
    rw [minimalPeriod_gfMulAlpha, nat_card_block, Nat.sub_add_cancel Nat.one_le_two_pow]

/-- A block of a sector is decrypted under the tweak advanced as often as blocks are before it. -/
theorem byteBlock_xtsDecryptSector (cipher : BlockCipher) (key1 key2 : Key) (sector : UInt64)
    (data : List UInt8) {k : ℕ} (hk : 16 * (k + 1) ≤ data.length) :
    byteBlock (Xts.xtsDecryptSector cipher key1 key2 sector data) k =
      decryptUnder cipher key1
        (Xts.gfMulAlpha^[k] (cipher.encryptBlock key2 (Xts.tweakInput sector)))
        (byteBlock data k) := by
  rw [← blockAt_eq, ← blockAt_eq]
  apply ext_get
  intro j
  have hlt := j.isLt
  have hdiv : (k * 16 + j.val) / 16 = k := by omega
  have hindex : Fin.ofNat 16 (k * 16 + j.val) = j := by
    apply Fin.ext
    show (k * 16 + j.val) % 16 = j.val
    omega
  unfold Xts.xtsDecryptSector
  rw [blockAt_get, List.getD_eq_getElem?_getD,
    decryptChunks_getElem? cipher key1 _ _ _ (Nat.mul_div_le _ _), if_pos (by omega),
    Option.getD_some, sectorByte, hdiv, hindex]

/-- **A tweak that is not zero comes back after `2 ^ 128 - 1` blocks and no sooner, so no two blocks
of a sector have the same one; the tweaks of two sectors are one sequence, read from two
places.**
SOURCE: core/src/fs/nca.rs:290-332 -/
theorem tweaks_full_period {t : Block} (ht : t ≠ leBlock 0) :
    (∀ i j, Xts.gfMulAlpha^[i] t = Xts.gfMulAlpha^[j] t ↔ i ≡ j [MOD 2 ^ 128 - 1]) ∧
      (∀ s, s ≠ leBlock 0 →
        ∃ d < 2 ^ 128 - 1, ∀ j, Xts.gfMulAlpha^[j] s = Xts.gfMulAlpha^[j + d] t) ∧
      ∀ (cipher : BlockCipher) (key1 key2 : Key) (sector : UInt64) (data : List UInt8) (k : ℕ),
        cipher.encryptBlock key2 (Xts.tweakInput sector) = t → 16 * (k + 1) ≤ data.length →
          byteBlock (Xts.xtsDecryptSector cipher key1 key2 sector data) k =
            decryptUnder cipher key1 (Xts.gfMulAlpha^[k] t) (byteBlock data k) := by
  have hfull := fullPeriod_gfMulAlpha
  refine ⟨?_, ?_, ?_⟩
  · intro i j
    rw [hfull.iterate_eq_iff ht, minimalPeriod_gfMulAlpha]
  · intro s hs
    obtain ⟨d, hd, rfl⟩ := hfull.exists_iterate_of_ne ht hs
    rw [minimalPeriod_gfMulAlpha] at hd
    refine ⟨d, hd, fun j => ?_⟩
    rw [Function.iterate_add_apply]
  · intro cipher key1 key2 sector data k hstart hk
    rw [← hstart]
    exact byteBlock_xtsDecryptSector cipher key1 key2 sector data hk

/-- From the block one the tweaks repeat after 2^128 - 1 steps but not after half as many. -/
theorem tweaks_full_period_one :
    Xts.gfMulAlpha^[2 ^ 128] (leBlock 1) = Xts.gfMulAlpha^[1] (leBlock 1) ∧
      Xts.gfMulAlpha^[2 ^ 127] (leBlock 1) ≠ Xts.gfMulAlpha^[1] (leBlock 1) := by
  obtain ⟨hiff, -, -⟩ := tweaks_full_period (t := leBlock 1) (by decide)
  constructor
  · exact (hiff _ _).mpr (by decide)
  · intro h
    exact absurd ((hiff _ _).mp h) (by decide)

end Oboromi.Analysis
