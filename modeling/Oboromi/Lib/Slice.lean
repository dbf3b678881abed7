import Oboromi.Lib.Machine
import Oboromi.Lib.Segment

/-!
# Slices that panic

Indexing, slicing and the conversion of a slice to an array of a fixed size: each panics
when its bounds or its length are wrong.
-/

set_option autoImplicit false

namespace Oboromi.Lib.Slice

variable {α : Type}

/-- `xs[i]`. -/
def index (xs : List α) (i : ℕ) : Except Fault α :=
  match xs[i]? with
  | some a => .ok a
  | none => .error .panic

/-- `&xs[start..stop]`. -/
def range (xs : List α) (start stop : ℕ) : Except Fault (List α) :=
  if start ≤ stop ∧ stop ≤ xs.length then .ok (segment xs start (stop - start))
  else .error .panic

/-- `xs.try_into().unwrap()`, or `copy_from_slice` into a new array. -/
def intoArray (n : ℕ) (xs : List α) : Except Fault (Vector α n) :=
  if h : xs.length = n then .ok ⟨xs.toArray, h⟩ else .error .panic

/-- An index in bounds returns the element. -/
theorem index_of_lt (default : α) {xs : List α} {i : ℕ} (h : i < xs.length) :
    index xs i = .ok (xs.getD i default) := by
  unfold index
  rw [List.getD, List.getElem?_eq_getElem h]
  rfl

/-- A range in bounds returns its segment. -/
theorem range_of_le {xs : List α} {start stop : ℕ} (h : start ≤ stop) (hstop : stop ≤ xs.length) :
    range xs start stop = .ok (segment xs start (stop - start)) := if_pos ⟨h, hstop⟩

/-- A list of the right length is an array. -/
theorem intoArray_of_length {n : ℕ} {xs : List α} (h : xs.length = n) :
    intoArray n xs = .ok ⟨xs.toArray, h⟩ := dif_pos h

end Oboromi.Lib.Slice
