import Mathlib.Data.List.FinRange
import Mathlib.Data.List.Sort
import Mathlib.Tactic.Common

/-!
# Reorderings that keep dependent elements in order

`Reorders dep l l'`: `l'` is a permutation of `l` in which any two elements that depend on
one another stand in the order they had.  What such a reordering cannot change is the
sublist of the elements of one class, when the elements of the class all depend on one
another (`filter_eq`), and so the last value the class gives (`lastSome_eq`).
-/

set_option autoImplicit false

namespace Oboromi.Lib

variable {α β : Type}

/-- A permutation of the positions of a list that keeps the order of dependent elements. -/
structure Reorders (dep : α → α → Prop) (l l' : List α) where
  place : Fin l.length ≃ Fin l'.length
  get_place : ∀ i, l'.get (place i) = l.get i
  keeps : ∀ i j, i < j → dep (l.get i) (l.get j) → place i < place j

namespace Reorders

variable {dep : α → α → Prop} {l l' : List α}

/-- A reordered list has the same elements. -/
theorem mem_iff (r : Reorders dep l l') (a : α) : a ∈ l' ↔ a ∈ l := by
  constructor
  · intro ha
    obtain ⟨j, rfl⟩ := List.mem_iff_get.mp ha
    rw [← r.place.apply_symm_apply j, r.get_place]
    exact List.get_mem l _
  · intro ha
    obtain ⟨i, rfl⟩ := List.mem_iff_get.mp ha
    rw [← r.get_place]
    exact List.get_mem l' _

/-- A filter of a list, as the elements at the positions it keeps. -/
theorem filter_eq_map (p : α → Bool) (l : List α) :
    l.filter p = ((List.finRange l.length).filter (p ∘ l.get)).map l.get := by
  rw [← List.filter_map, List.map_get_finRange]

/-- **A class of dependent elements keeps its order.** -/
theorem filter_eq (r : Reorders dep l l') (p : α → Bool)
    (hp : ∀ a b, p a = true → p b = true → dep a b) : l'.filter p = l.filter p := by
  have hsorted (n : ℕ) (q : Fin n → Bool) : ((List.finRange n).filter q).SortedLT :=
    ((List.sortedLT_finRange n).pairwise.filter q).sortedLT
  -- the positions kept in `l'` are those kept in `l`, moved to their new places
  have hplaces : ((List.finRange l.length).filter (p ∘ l.get)).map r.place =
      (List.finRange l'.length).filter (p ∘ l'.get) := by
    refine List.SortedLT.eq_of_mem_iff ?_ (hsorted _ _) ?_
    · apply List.Pairwise.sortedLT
      rw [List.pairwise_map]
      refine (hsorted _ _).pairwise.imp_of_mem ?_
      intro i j hi hj hij
      exact r.keeps i j hij (hp _ _ (List.mem_filter.mp hi).2 (List.mem_filter.mp hj).2)
    · intro j
      simp only [List.mem_map, List.mem_filter, List.mem_finRange, true_and,
        Function.comp_apply]
      constructor
      · rintro ⟨i, hi, rfl⟩
        rwa [r.get_place]
      · intro hj
        refine ⟨r.place.symm j, ?_, r.place.apply_symm_apply j⟩
        rwa [← r.get_place, r.place.apply_symm_apply]
  rw [filter_eq_map p l', filter_eq_map p l, ← hplaces, List.map_map]
  apply List.map_congr_left
  intro i _
  exact r.get_place i

/-- Two independent elements may change places. -/
def swap {a b : α} (h : ¬ dep a b) : Reorders dep [a, b] [b, a] where
  place := (Fin.revPerm : Equiv.Perm (Fin 2))
  get_place := by
    intro i
    match i with
    | ⟨0, _⟩ => rfl
    | ⟨1, _⟩ => rfl
  keeps := by
    intro i j hij hdep
    match i, j with
    | ⟨0, _⟩, ⟨1, _⟩ => exact absurd hdep h
    | ⟨0, _⟩, ⟨0, _⟩ => exact absurd hij (Nat.lt_irrefl _)
    | ⟨1, _⟩, ⟨0, _⟩ => exact absurd hij (Nat.not_lt_zero _)
    | ⟨1, _⟩, ⟨1, _⟩ => exact absurd hij (Nat.lt_irrefl _)

end Reorders

/-! ## The last value of a class -/

/-- The value of the last element that has one. -/
def lastSome (f : α → Option β) (l : List α) : Option β := (l.filterMap f).getLast?

/-- The last element is asked first. -/
theorem lastSome_snoc (f : α → Option β) (l : List α) (a : α) :
    lastSome f (l ++ [a]) = (f a).or (lastSome f l) := by
  unfold lastSome
  rw [List.filterMap_append]
  cases hfa : f a with
  | none => simp [hfa]
  | some b => simp [hfa]

/-- A last element that has a value has the last one. -/
theorem lastSome_snoc_some {f : α → Option β} {a : α} {b : β} (h : f a = some b) (l : List α) :
    lastSome f (l ++ [a]) = some b := by
  rw [lastSome_snoc, h]
  rfl

/-- A last element without a value does not count. -/
theorem lastSome_snoc_none {f : α → Option β} {a : α} (h : f a = none) (l : List α) :
    lastSome f (l ++ [a]) = lastSome f l := by
  rw [lastSome_snoc, h]
  rfl

/-- Looking into the images of a list is looking through the function. -/
theorem lastSome_map {γ : Type} (f : α → Option β) (g : γ → α) (l : List γ) :
    lastSome f (l.map g) = lastSome (f ∘ g) l := by
  unfold lastSome
  rw [List.filterMap_map]

/-- The last of the mapped values is the last value, mapped. -/
theorem lastSome_optionMap {γ : Type} (f : α → Option β) (g : β → γ) (l : List α) :
    lastSome (fun a => (f a).map g) l = (lastSome f l).map g := by
  unfold lastSome
  rw [← List.map_filterMap, List.getLast?_map]

/-- The last value is some element's. -/
theorem exists_of_lastSome {f : α → Option β} {l : List α} {b : β} (h : lastSome f l = some b) :
    ∃ a ∈ l, f a = some b :=
  List.mem_filterMap.mp (List.mem_of_getLast? h)

/-- Without a last value no element has one. -/
theorem lastSome_eq_none {f : α → Option β} {l : List α} (h : lastSome f l = none) :
    ∀ a ∈ l, f a = none :=
  List.filterMap_eq_nil_iff.mp (List.getLast?_eq_none_iff.mp h)

/-- No later element has a value: the last one is the first of the rest. -/
theorem lastSome_append_cons {f : α → Option β} {a : α} {b : β} (h : f a = some b)
    (before : List α) {after : List α} (hafter : ∀ c ∈ after, f c = none) :
    lastSome f (before ++ a :: after) = some b := by
  unfold lastSome
  rw [List.filterMap_append, List.filterMap_cons_some h,
    List.filterMap_eq_nil_iff.mpr hafter]
  simp

/-- A reordering does not change the last value, when the elements with a value all depend
on one another. -/
theorem Reorders.lastSome_eq {dep : α → α → Prop} {l l' : List α} (r : Reorders dep l l')
    (f : α → Option β) (hf : ∀ a b, (f a).isSome → (f b).isSome → dep a b) :
    lastSome f l' = lastSome f l := by
  have hfilter (k : List α) : k.filterMap f = (k.filter fun a => (f a).isSome).filterMap f := by
    rw [List.filterMap_filter]
    apply List.filterMap_congr
    intro a _
    cases hfa : f a <;> simp
  unfold lastSome
  rw [hfilter l', hfilter l, r.filter_eq _ hf]

end Oboromi.Lib
