import Mathlib.Data.List.Sort

/-!
# Chains of tests

A chain of tests takes the first element whose test holds; a test may have no value, and then
the chain has none (`firstMatch`).  In a chain ordered by a relation the element taken is
related to every other element that passes (`rel_of_find?`), and sorting a chain stably keeps
the first match of a test whose matches are in order (`find?_insertionSort`).
-/

set_option autoImplicit false

namespace Oboromi.Lib

variable {α : Type}

/-- The first element whose test holds, if all tests have a value. -/
def firstMatch (test : α → Option Bool) : List α → Option (Option α)
  | [] => some none
  | a :: l => do
    let holds ← test a
    let rest ← firstMatch test l
    return if holds then some a else rest

/-- A test without a value spoils the chain. -/
theorem firstMatch_eq_none {test : α → Option Bool} {l : List α} {a : α} (ha : a ∈ l)
    (h : test a = none) : firstMatch test l = none := by
  induction l with
  | nil => cases ha
  | cons b l ih =>
    rw [firstMatch]
    rcases List.mem_cons.mp ha with rfl | hrest
    · rw [h]
      rfl
    · rw [ih hrest]
      cases test b <;> rfl

/-- A chain of tests that all have a value. -/
theorem firstMatch_eq_find? {test : α → Option Bool} {p : α → Bool} {l : List α}
    (h : ∀ a ∈ l, test a = some (p a)) : firstMatch test l = some (l.find? p) := by
  induction l with
  | nil => rfl
  | cons a l ih =>
    have hrest := ih fun b hb => h b (List.mem_cons_of_mem _ hb)
    rw [firstMatch, h a List.mem_cons_self, hrest]
    cases hp : p a with
    | true =>
      rw [List.find?_cons_of_pos hp]
      rfl
    | false =>
      rw [List.find?_cons_of_neg (by simp [hp])]
      rfl

/-- A chain behind a test that has a value. -/
theorem firstMatch_cons {test : α → Option Bool} {a : α} {holds : Bool} (h : test a = some holds)
    (l : List α) :
    firstMatch test (a :: l) =
      (firstMatch test l).map fun rest => if holds then some a else rest := by
  rw [firstMatch, h]
  cases firstMatch test l <;> rfl

/-- A chain whose elements have to be read first: an element that cannot be read is one whose test
has no value. -/
theorem firstMatch_mapM {β γ : Type} {read : α → Option β} {test : β → Option Bool} {name : α → γ}
    {name' : β → γ} (l : List α) (h : ∀ a b, read a = some b → name' b = name a) :
    ((l.mapM read).bind (firstMatch test)).map (Option.map name') =
      (firstMatch (fun a => (read a).bind test) l).map (Option.map name) := by
  induction l with
  | nil => rfl
  | cons a l ih =>
    cases hread : read a with
    | none =>
      rw [firstMatch_eq_none List.mem_cons_self (by rw [hread]; rfl), List.mapM_cons, hread]
      rfl
    | some b =>
      cases htest : test b with
      | none =>
        rw [firstMatch_eq_none List.mem_cons_self (by rw [hread]; exact htest), List.mapM_cons,
          hread]
        cases l.mapM read <;> simp [firstMatch, htest]
      | some holds =>
        -- the head is chosen by `holds`, under names that agree
        have hhead : ∀ rest : Option β, (if holds then some b else rest).map name' =
            if holds then some (name a) else rest.map name' := by
          intro rest
          cases holds
          · rfl
          · exact congrArg some (h a b hread)
        have hname : ∀ rest : Option α, (if holds then some a else rest).map name =
            if holds then some (name a) else rest.map name := fun rest => apply_ite _ _ _ _
        have hrest := congrArg (Option.map fun rest => if holds then some (name a) else rest) ih
        have hvalue : (read a).bind test = some holds := by rw [hread]; exact htest
        rw [@firstMatch_cons _ (fun a => (read a).bind test) a holds hvalue l, List.mapM_cons,
          hread]
        cases hl : l.mapM read with
        | none =>
          rw [hl] at hrest
          simpa [hname] using hrest
        | some bs =>
          rw [hl] at hrest
          show ((firstMatch test (b :: bs)).map _) = _
          rw [firstMatch_cons htest]
          simpa [hhead, hname, Function.comp_def] using hrest

/-- In an ordered chain the first match is related to every match. -/
theorem rel_of_find? {r : α → α → Prop} (hrefl : ∀ a, r a a) {l : List α} (hl : l.Pairwise r)
    {p : α → Bool} {a : α} (ha : l.find? p = some a) {b : α} (hb : b ∈ l) (hpb : p b = true) :
    r a b := by
  induction l with
  | nil => cases hb
  | cons c l ih =>
    obtain ⟨hc, hrest⟩ := List.pairwise_cons.mp hl
    cases hp : p c with
    | true =>
      rw [List.find?_cons_of_pos hp] at ha
      cases ha
      rcases List.mem_cons.mp hb with rfl | hb
      · exact hrefl b
      · exact hc b hb
    | false =>
      rw [List.find?_cons_of_neg (by simp [hp])] at ha
      rcases List.mem_cons.mp hb with rfl | hb
      · rw [hp] at hpb
        cases hpb
      · exact ih hrest ha hb

/-- A stable sort keeps the first match, when all that match are in order among themselves. -/
theorem find?_insertionSort {r : α → α → Prop} [DecidableRel r] [Std.Total r] [IsTrans α r]
    {l : List α} {p : α → Bool} (h : ∀ a b, p a = true → p b = true → r a b) :
    (l.insertionSort r).find? p = l.find? p := by
  have hpairwise : (l.filter p).Pairwise r := by
    apply List.pairwise_of_forall_mem_list
    intro a ha b hb
    exact h a b (List.mem_filter.mp ha).2 (List.mem_filter.mp hb).2
  have hsub := (List.sublist_insertionSort hpairwise List.filter_sublist).filter p
  simp only [List.filter_filter, Bool.and_self] at hsub
  have hlen := ((List.perm_insertionSort r l).filter p).length_eq
  rw [← List.head?_filter, ← List.head?_filter, hsub.eq_of_length hlen.symm]

end Oboromi.Lib
