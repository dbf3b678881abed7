import Mathlib.Data.Nat.Notation
import Mathlib.Tactic.Common

/-!
# Length-prefixed streams

A stream is cut into frames by the size its first symbol announces (`unframe`).  The
reader is the inverse of concatenation on frames that announce their own length
(`unframe_eq_some_iff`), so a stream has at most one such cut.
-/

set_option autoImplicit false

namespace Oboromi.Lib.Framing

variable {α : Type}

/-- A frame is not empty and its first symbol announces its length. -/
def IsFrame (size : α → ℕ) (f : List α) : Prop := ∃ x xs, f = x :: xs ∧ size x = f.length

/-- Cut a stream into frames.  `none` when a frame announces no symbols, or more than the
stream still holds. -/
def unframe (size : α → ℕ) : List α → Option (List (List α))
  | [] => some []
  | x :: xs =>
    if 0 < size x ∧ size x ≤ xs.length + 1 then
      (unframe size (xs.drop (size x - 1))).map ((x :: xs.take (size x - 1)) :: ·)
    else none
termination_by s => s.length
decreasing_by
  simp only [List.length_drop, List.length_cons]
  omega

/-- One frame at the head of the stream is read off whole. -/
theorem unframe_append {size : α → ℕ} {f : List α} (hf : IsFrame size f) (s : List α) :
    unframe size (f ++ s) = (unframe size s).map (f :: ·) := by
  obtain ⟨x, xs, rfl, hsize⟩ := hf
  rw [List.length_cons] at hsize
  have hfits : 0 < size x ∧ size x ≤ (xs ++ s).length + 1 := by
    rw [List.length_append]
    omega
  rw [List.cons_append, unframe, if_pos hfits, hsize, Nat.add_sub_cancel, List.drop_left,
    List.take_left]

/-- Reading back a concatenation of frames gives the frames, in order. -/
theorem unframe_flatten {size : α → ℕ} {fs : List (List α)} (hfs : ∀ f ∈ fs, IsFrame size f) :
    unframe size fs.flatten = some fs := by
  induction fs with
  | nil =>
    rw [List.flatten_nil, unframe]
  | cons f fs ih =>
    have hf := hfs f List.mem_cons_self
    have hrest := ih fun g hg => hfs g (List.mem_cons_of_mem f hg)
    rw [List.flatten_cons, unframe_append hf, hrest, Option.map_some]

/-- What the reader returns is a cut of the stream into frames. -/
theorem frames_of_unframe {size : α → ℕ} {s : List α} {fs : List (List α)}
    (h : unframe size s = some fs) : s = fs.flatten ∧ ∀ f ∈ fs, IsFrame size f := by
  fun_induction unframe size s generalizing fs with
  | case1 =>
    cases h
    exact ⟨rfl, fun f hf => absurd hf List.not_mem_nil⟩
  | case2 x xs hfits ih =>
    obtain ⟨gs, hgs, rfl⟩ := Option.map_eq_some_iff.mp h
    obtain ⟨hflatten, hframes⟩ := ih hgs
    refine ⟨?_, ?_⟩
    · rw [List.flatten_cons, ← hflatten, List.cons_append, List.take_append_drop]
    · intro f hf
      rcases List.mem_cons.mp hf with rfl | hf
      · refine ⟨x, _, rfl, ?_⟩
        rw [List.length_cons, List.length_take_of_le (by omega)]
        omega
      · exact hframes f hf
  | case3 x xs hfits => cases h

/-- The reader returns the cuts into frames, of which there is at most one. -/
theorem unframe_eq_some_iff {size : α → ℕ} {s : List α} {fs : List (List α)} :
    unframe size s = some fs ↔ s = fs.flatten ∧ ∀ f ∈ fs, IsFrame size f := by
  constructor
  · exact frames_of_unframe
  · rintro ⟨rfl, hfs⟩
    exact unframe_flatten hfs

end Oboromi.Lib.Framing
