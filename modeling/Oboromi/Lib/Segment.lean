import Mathlib.Data.List.Basic
import Mathlib.Tactic.Common

/-!
# Reading and overwriting a stretch of a list

`segment l o n` is the `n` elements of `l` from position `o`; `patch l o d` is `l` with
`d` written over it at position `o`.  Both are determined pointwise
(`getElem?_segment`, `getElem?_patch`), and every other rule here is read off those two:
a write is read back where it was made, is invisible to a disjoint read, and seen through
a window that contains it is a write to the window (`segment_patch_inside`).
-/

set_option autoImplicit false

namespace Oboromi.Lib

variable {α : Type}

/-- The `n` elements of `l` from position `o`. -/
def segment (l : List α) (o n : ℕ) : List α := (l.drop o).take n

/-- `l` with `d` written over it at position `o`. -/
def patch (l : List α) (o : ℕ) (d : List α) : List α :=
  l.take o ++ d ++ l.drop (o + d.length)

/-! ## Pointwise description -/

/-- The elements of a segment are those behind its start, up to its length. -/
theorem getElem?_segment (l : List α) (o n i : ℕ) :
    (segment l o n)[i]? = if i < n then l[o + i]? else none := by
  simp [segment, List.getElem?_take]

/-- A patched list has the patch in its range and is as before elsewhere. -/
theorem getElem?_patch {l : List α} {o : ℕ} (d : List α) (h : o ≤ l.length) (i : ℕ) :
    (patch l o d)[i]? =
      if i < o then l[i]? else if i < o + d.length then d[i - o]? else l[i]? := by
  have htake : (l.take o).length = o := by simp [h]
  unfold patch
  rw [List.append_assoc, List.getElem?_append, htake]
  by_cases h1 : i < o
  · simp [h1]
  · rw [if_neg h1, if_neg h1, List.getElem?_append]
    by_cases h2 : i < o + d.length
    · rw [if_pos (by omega), if_pos h2]
    · rw [if_neg (by omega), if_neg h2, List.getElem?_drop]
      congr 1
      omega

/-! ## Lengths -/

/-- A segment that fits has its full length. -/
theorem length_segment {l : List α} {o n : ℕ} (h : o + n ≤ l.length) :
    (segment l o n).length = n := by
  simp only [segment, List.length_take, List.length_drop]
  omega

/-- A patch that fits does not change the length. -/
theorem length_patch {l : List α} {o : ℕ} {d : List α} (h : o + d.length ≤ l.length) :
    (patch l o d).length = l.length := by
  simp only [patch, List.length_append, List.length_take, List.length_drop]
  omega

/-! ## Reads -/

/-- The empty segment. -/
@[simp] theorem segment_zero (l : List α) (o : ℕ) : segment l o 0 = [] := by
  simp [segment]

/-- A read splits at any point. -/
theorem segment_append (l : List α) (o m n : ℕ) :
    segment l o (m + n) = segment l o m ++ segment l (o + m) n := by
  simp only [segment, List.take_add, List.drop_drop]

/-- A read inside a window is a read of the underlying list. -/
theorem segment_segment {l : List α} {a n o m : ℕ} (h : o + m ≤ n) :
    segment (segment l a n) o m = segment l (a + o) m := by
  apply List.ext_getElem?
  intro i
  simp only [getElem?_segment]
  split
  · rw [if_pos (by omega), Nat.add_assoc]
  · rfl

/-- A read that stays within a prefix only depends on the prefix. -/
theorem segment_take {l : List α} {c o n : ℕ} (h : o + n ≤ c) :
    segment (l.take c) o n = segment l o n := by
  apply List.ext_getElem?
  intro i
  simp only [getElem?_segment, List.getElem?_take]
  split
  · rw [if_pos (by omega)]
  · rfl

/-! ## Writes -/

/-- Patching nothing changes nothing. -/
@[simp] theorem patch_nil (l : List α) (o : ℕ) : patch l o [] = l := by
  simp [patch]

/-- A write is invisible to a read that ends before it or starts after it. -/
theorem segment_patch_disjoint {l d : List α} {o a n : ℕ} (h : o ≤ l.length)
    (hd : a + n ≤ o ∨ o + d.length ≤ a) : segment (patch l o d) a n = segment l a n := by
  apply List.ext_getElem?
  intro i
  simp only [getElem?_segment, getElem?_patch d h]
  by_cases hi : i < n
  · simp only [if_pos hi]
    rcases hd with hd | hd
    · rw [if_pos (by omega)]
    · rw [if_neg (by omega), if_neg (by omega)]
  · simp only [if_neg hi]

/-- Seen through a window that contains it, a write is a write to the window. -/
theorem segment_patch_inside {l d : List α} {a n o : ℕ} (ha : a ≤ o)
    (ho : o + d.length ≤ a + n) (hn : a + n ≤ l.length) :
    segment (patch l o d) a n = patch (segment l a n) (o - a) d := by
  have hlen : (segment l a n).length = n := length_segment hn
  apply List.ext_getElem?
  intro i
  rw [getElem?_segment, getElem?_patch d (by omega), getElem?_patch d (by omega),
    getElem?_segment]
  by_cases hi : i < n
  · rw [if_pos hi, if_pos hi]
    by_cases h1 : i < o - a
    · rw [if_pos (by omega), if_pos h1]
    · rw [if_neg (by omega), if_neg h1]
      by_cases h2 : i < o - a + d.length
      · rw [if_pos (by omega), if_pos h2]
        congr 1
        omega
      · rw [if_neg (by omega), if_neg h2]
  · rw [if_neg hi, if_neg hi, if_neg (by omega), if_neg (by omega)]

/-- A write that stays within a prefix is a write to the prefix. -/
theorem take_patch {l d : List α} {c o : ℕ} (ho : o + d.length ≤ c) (hc : c ≤ l.length) :
    (patch l o d).take c = patch (l.take c) o d := by
  have h := segment_patch_inside (l := l) (d := d) (a := 0) (n := c) (o := o)
    (Nat.zero_le o) (by omega) (by omega)
  simpa [segment] using h

/-- A write that stays within a prefix leaves the rest alone. -/
theorem drop_patch {l d : List α} {c o : ℕ} (ho : o + d.length ≤ c) (hc : c ≤ l.length) :
    (patch l o d).drop c = l.drop c := by
  apply List.ext_getElem?
  intro i
  rw [List.getElem?_drop, getElem?_patch d (by omega), if_neg (by omega), if_neg (by omega),
    List.getElem?_drop]

/-- Two adjacent writes are one write of the concatenation. -/
theorem patch_patch_adjacent {l d e : List α} {o : ℕ}
    (h : o + d.length + e.length ≤ l.length) :
    patch (patch l o d) (o + d.length) e = patch l o (d ++ e) := by
  have hlen : (patch l o d).length = l.length := length_patch (by omega)
  apply List.ext_getElem?
  intro i
  rw [getElem?_patch e (by omega), getElem?_patch d (by omega),
    getElem?_patch (d ++ e) (by omega), List.length_append]
  by_cases h1 : i < o
  · rw [if_pos (by omega), if_pos h1, if_pos h1]
  · rw [if_neg h1, if_neg h1]
    by_cases h2 : i < o + d.length
    · rw [if_pos h2, if_pos h2, if_pos (by omega), List.getElem?_append_left (by omega)]
    · rw [if_neg h2, if_neg h2]
      by_cases h3 : i < o + d.length + e.length
      · rw [if_pos h3, if_pos (by omega), List.getElem?_append_right (by omega)]
        congr 1
        omega
      · rw [if_neg h3, if_neg (by omega)]

/-- A write leaves every position outside it unchanged. -/
theorem getElem?_patch_of_outside {l d : List α} {o i : ℕ} (h : o ≤ l.length)
    (hi : i < o ∨ o + d.length ≤ i) : (patch l o d)[i]? = l[i]? := by
  rw [getElem?_patch d h]
  rcases hi with hi | hi
  · rw [if_pos hi]
  · rw [if_neg (by omega), if_neg (by omega)]

/-- A write of full length is read back. -/
theorem segment_patch_self {l d : List α} {o : ℕ} (h : o + d.length ≤ l.length) :
    segment (patch l o d) o d.length = d := by
  apply List.ext_getElem?
  intro i
  rw [getElem?_segment, getElem?_patch d (by omega)]
  by_cases hi : i < d.length
  · rw [if_pos hi, if_neg (by omega), if_pos (by omega), Nat.add_sub_cancel_left]
  · rw [if_neg hi, List.getElem?_eq_none (Nat.not_lt.mp hi)]

/-! ## Several writes -/

/-- Writing what is there changes nothing. -/
theorem patch_of_segment_eq {l d : List α} {o : ℕ} (h : o + d.length ≤ l.length)
    (hd : segment l o d.length = d) : patch l o d = l := by
  unfold patch
  conv_lhs => rw [← hd, length_segment h]
  unfold segment
  rw [List.append_assoc, ← List.drop_drop, List.take_append_drop, List.take_append_drop]

/-- Two writes that do not overlap. -/
def Apart (v w : ℕ × List α) : Prop := v.1 + v.2.length ≤ w.1 ∨ w.1 + w.2.length ≤ v.1

/-- `l` with several stretches written over it, in order. -/
def patchAll (l : List α) (ws : List (ℕ × List α)) : List α :=
  ws.foldl (fun l w => patch l w.1 w.2) l

/-- The patches are made in order. -/
theorem patchAll_cons (l : List α) (w : ℕ × List α) (ws : List (ℕ × List α)) :
    patchAll l (w :: ws) = patchAll (patch l w.1 w.2) ws := rfl

/-- Patches that fit do not change the length. -/
theorem length_patchAll {l : List α} {ws : List (ℕ × List α)}
    (h : ∀ w ∈ ws, w.1 + w.2.length ≤ l.length) : (patchAll l ws).length = l.length := by
  induction ws generalizing l with
  | nil => rfl
  | cons w ws ih =>
      have hlen : (patch l w.1 w.2).length = l.length := length_patch (h w List.mem_cons_self)
      rw [patchAll_cons, ih, hlen]
      intro v hv
      rw [hlen]
      exact h v (List.mem_cons_of_mem w hv)

/-- Writing several stretches that are all there changes nothing. -/
theorem patchAll_of_segment_eq {l : List α} {ws : List (ℕ × List α)}
    (h : ∀ w ∈ ws, w.1 + w.2.length ≤ l.length ∧ segment l w.1 w.2.length = w.2) :
    patchAll l ws = l := by
  induction ws with
  | nil => rfl
  | cons w ws ih =>
      obtain ⟨hfit, hsame⟩ := h w List.mem_cons_self
      rw [patchAll_cons, patch_of_segment_eq hfit hsame]
      exact ih fun v hv => h v (List.mem_cons_of_mem w hv)

/-- Writes that all miss a stretch are invisible there. -/
theorem segment_patchAll_apart {l : List α} {ws : List (ℕ × List α)} {o n : ℕ}
    (h : ∀ w ∈ ws, w.1 + w.2.length ≤ l.length)
    (hmiss : ∀ w ∈ ws, o + n ≤ w.1 ∨ w.1 + w.2.length ≤ o) :
    segment (patchAll l ws) o n = segment l o n := by
  induction ws generalizing l with
  | nil => rfl
  | cons w ws ih =>
      have hw := h w List.mem_cons_self
      have hlen : (patch l w.1 w.2).length = l.length := length_patch hw
      rw [patchAll_cons, ih, segment_patch_disjoint (by omega) (hmiss w List.mem_cons_self)]
      · intro v hv
        rw [hlen]
        exact h v (List.mem_cons_of_mem w hv)
      · exact fun v hv => hmiss v (List.mem_cons_of_mem w hv)

/-- **Each of several writes that do not overlap is read back.** -/
theorem segment_patchAll {l : List α} {ws : List (ℕ × List α)} (hapart : ws.Pairwise Apart)
    (h : ∀ w ∈ ws, w.1 + w.2.length ≤ l.length) {w : ℕ × List α} (hw : w ∈ ws) :
    segment (patchAll l ws) w.1 w.2.length = w.2 := by
  induction ws generalizing l with
  | nil => cases hw
  | cons v ws ih =>
      obtain ⟨hv, hrest⟩ := List.pairwise_cons.mp hapart
      have hfirst := h v List.mem_cons_self
      have hlen : (patch l v.1 v.2).length = l.length := length_patch hfirst
      have hothers : ∀ u ∈ ws, u.1 + u.2.length ≤ (patch l v.1 v.2).length := by
        intro u hu
        rw [hlen]
        exact h u (List.mem_cons_of_mem v hu)
      rw [patchAll_cons]
      rcases List.mem_cons.mp hw with rfl | hin
      · rw [segment_patchAll_apart hothers hv, segment_patch_self hfirst]
      · exact ih hrest hothers hin

end Oboromi.Lib
