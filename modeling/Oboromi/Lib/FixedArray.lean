import Mathlib.Data.List.FinRange
import Oboromi.Lib.Loop

/-!
# Arrays of a fixed size

A fixed-size array is read and changed at an index that is in range by its type.
-/

set_option autoImplicit false

namespace Oboromi.Lib

variable {α : Type} {n : ℕ}

/-- Replace the entry at an index. -/
def put (xs : Vector α n) (i : Fin n) (a : α) : Vector α n := xs.set i.val a i.isLt

/-- The entry that was put is there. -/
@[simp] theorem get_put_self (xs : Vector α n) (i : Fin n) (a : α) : (put xs i a).get i = a :=
  Vector.getElem_set_self i.isLt

/-- Putting an entry leaves the others as they were. -/
theorem get_put_of_ne (xs : Vector α n) {i j : Fin n} (a : α) (h : j ≠ i) :
    (put xs i a).get j = xs.get j := by
  have hval : i.val ≠ j.val := fun heq => h (Fin.ext heq.symm)
  exact Vector.getElem_set_ne i.isLt j.isLt hval

/-- Arrays with the same entries are the same. -/
theorem ext_get {xs ys : Vector α n} (h : ∀ i, xs.get i = ys.get i) : xs = ys := by
  apply Vector.ext
  intro i hi
  exact h ⟨i, hi⟩

/-- The entries of a tabulated function are its values. -/
@[simp] theorem get_ofFn (v : Fin n → α) (i : Fin n) : (Vector.ofFn v).get i = v i :=
  Vector.getElem_ofFn i.isLt

/-- An array is the table of its entries. -/
theorem ofFn_get (xs : Vector α n) : Vector.ofFn xs.get = xs := by
  apply ext_get
  intro i
  exact get_ofFn xs.get i

/-- A loop that sets every entry. -/
theorem foldl_put (v : Fin n → α) (xs : Vector α n) :
    (List.finRange n).foldl (fun xs i => put xs i (v i)) xs = Vector.ofFn v := by
  apply ext_get
  intro i
  have hentry := foldl_entry (fun (ys : Vector α n) (j : Fin n) => ys.get j) (fun j _ => v j)
    (fun _ => True) (fun _ _ _ => trivial) (fun ys j _ => get_put_self ys j (v j))
    (fun ys j k _ hne => get_put_of_ne ys (v j) hne) (List.nodup_finRange n) xs trivial i
  rw [if_pos (List.mem_finRange i)] at hentry
  rw [hentry, get_ofFn]

/-- The same for a loop whose steps may fail and do not. -/
theorem foldlM_put {ε : Type} {g : Vector α n → Fin n → Except ε (Vector α n)} {v : Fin n → α}
    (h : ∀ xs i, g xs i = .ok (put xs i (v i))) (xs : Vector α n) :
    (List.finRange n).foldlM g xs = .ok (Vector.ofFn v) := by
  have hloop (is : List (Fin n)) (ys : Vector α n) :
      is.foldlM g ys = .ok (is.foldl (fun ys i => put ys i (v i)) ys) := by
    induction is generalizing ys with
    | nil => rfl
    | cons i is ih =>
        rw [List.foldlM_cons, h]
        exact ih (put ys i (v i))
  rw [hloop, foldl_put]

end Oboromi.Lib
