import Oboromi.Model.Nca
import Oboromi.Lib.Loop

/-!
# One entry of a key table

Putting bytes at an index makes the table long enough, filling it with zeros, and assigns
the entry if the bytes are a key (`Put`).
-/

set_option autoImplicit false

namespace Oboromi.Analysis

open Oboromi.Lib Oboromi.Model

/-- The entry of a table no line has assigned. -/
def zeroKey : Key := Vector.replicate 16 0

/-- `ensure_len` appends zero keys up to the length asked for. -/
theorem ensureLen_spec {v v' : List Key} {len : UInt64} (h : ensureLen v len = .ok v') :
    v' = v ++ List.replicate (len.toNat - v.length) zeroKey := by
  unfold ensureLen at h
  split at h
  · next hle =>
      cases h
      rw [Nat.sub_eq_zero_of_le hle, List.replicate_zero, List.append_nil]
  · split at h
    · cases h
      rfl
    · cases h

/-- After `ensure_len` an index holds its old key, a zero key or nothing. -/
theorem getElem?_ensureLen {v v' : List Key} {len : UInt64} (h : ensureLen v len = .ok v')
    (g : ℕ) :
    v'[g]? = if g < v.length then v[g]? else if g < len.toNat then some zeroKey else none := by
  rw [ensureLen_spec h, List.getElem?_append]
  by_cases hg : g < v.length
  · rw [if_pos hg, if_pos hg]
  · rw [if_neg hg, if_neg hg, List.getElem?_replicate]
    by_cases hlen : g < len.toNat
    · rw [if_pos (by omega), if_pos hlen]
    · rw [if_neg (by omega), if_neg hlen]

/-- The length `put` asks for is the successor of the index; the last index has none, and
the release build asks for nothing. -/
theorem addU64_one_toNat {b : Build} {idx len : UInt64} (h : b.addU64 idx 1 = .ok len) :
    ∀ g, g < len.toNat ↔ idx.toNat + 1 < 2 ^ 64 ∧ g ≤ idx.toNat := by
  have hone : (1 : UInt64).toNat = 1 := rfl
  intro g
  by_cases hfit : idx.toNat + 1 < 2 ^ 64
  · rw [Build.addU64_of_fits (by rwa [hone])] at h
    cases h
    rw [toNat_add_of_fits (by rwa [hone]), hone]
    omega
  · have hwrap : 2 ^ 64 ≤ idx.toNat + (1 : UInt64).toNat := by rw [hone]; omega
    have hlt := idx.toNat_lt
    cases b with
    | debug =>
        rw [Build.addU64_debug_of_wraps hwrap] at h
        cases h
    | release =>
        rw [Build.addU64_release] at h
        cases h
        rw [toNat_add_of_wraps hwrap, hone]
        omega

/-- How far a table reaches once it has grown past an index. -/
theorem length_grown {b : Build} {v w : List Key} {idx len : UInt64}
    (hadd : b.addU64 idx 1 = .ok len) (hgrow : ensureLen v len = .ok w) (g : ℕ) :
    g < w.length ↔ g < v.length ∨ (idx.toNat + 1 < 2 ^ 64 ∧ g ≤ idx.toNat) := by
  rw [← addU64_one_toNat hadd, ensureLen_spec hgrow, List.length_append, List.length_replicate]
  omega

/-- An entry of a grown table was there before or is zeros. -/
theorem entry_grown {v w : List Key} {len : UInt64} (hgrow : ensureLen v len = .ok w) {g : ℕ}
    {k : Key} (hk : w[g]? = some k) : v[g]? = some k ∨ (v.length ≤ g ∧ k = zeroKey) := by
  rw [getElem?_ensureLen hgrow] at hk
  split at hk
  · exact .inl hk
  · next hg =>
      split at hk
      · cases hk
        exact .inr ⟨Nat.le_of_not_lt hg, rfl⟩
      · cases hk

/-- What a line that gives `bytes` for `idx` does to a table. -/
structure Put (v v' : List Key) (idx : UInt64) (bytes : List UInt8) : Prop where
  length : ∀ g, g < v'.length ↔ g < v.length ∨ (idx.toNat + 1 < 2 ^ 64 ∧ g ≤ idx.toNat)
  entry : ∀ g k, v'[g]? = some k →
    (g = idx.toNat ∧ bytes = k.toList) ∨
    ((g ≠ idx.toNat ∨ bytes.length ≠ 16) ∧
      (v[g]? = some k ∨ (v.length ≤ g ∧ k = zeroKey)))
  covered : bytes.length = 16 → idx.toNat < v'.length

/-- SOURCE: core/src/fs/keys.rs:75-78 -/
theorem putKey_spec {b : Build} {v v' : List Key} {idx : UInt64} {bytes : List UInt8}
    (h : KeySet.putKey b v idx bytes = .ok v') : Put v v' idx bytes := by
  unfold KeySet.putKey at h
  obtain ⟨len, hadd, h⟩ := bind_eq_ok h
  obtain ⟨w, hgrow, h⟩ := bind_eq_ok h
  have hlen := length_grown hadd hgrow
  by_cases h16 : bytes.length = 16
  · rw [dif_pos h16] at h
    split at h
    · next hidx =>
        cases h
        refine ⟨?_, ?_, ?_⟩
        · intro g
          rw [List.length_set]
          exact hlen g
        · intro g k hk
          rw [List.getElem?_set] at hk
          split at hk
          · next hg =>
              rw [Option.some.injEq] at hk
              subst hk
              exact .inl ⟨hg.symm, rfl⟩
          · next hg => exact .inr ⟨.inl (fun heq => hg heq.symm), entry_grown hgrow hk⟩
        · intro _
          rwa [List.length_set]
    · cases h
  · rw [dif_neg h16] at h
    cases h
    refine ⟨hlen, ?_, fun hbytes => absurd hbytes h16⟩
    intro g k hk
    exact .inr ⟨.inr h16, entry_grown hgrow hk⟩

end Oboromi.Analysis
