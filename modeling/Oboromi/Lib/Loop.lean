import Mathlib.Data.List.Nodup
import Mathlib.Tactic.Common

/-!
# Rules for bounded loops

A `for` loop over a list is a fold of its body.  The rules below take what one iteration
does and conclude what the loop does: an invariant kept by the body holds at the end; a
body that only touches the entry of its own index leaves each entry as one iteration left
it; two loops whose bodies keep a relation keep it to the end.  The `foldlM` rules are the
same for bodies that may fail.
-/

set_option autoImplicit false

namespace Oboromi.Lib

section Pure

variable {ι σ β : Type}

/-- The invariant rule of a loop. -/
theorem foldl_invariant {body : σ → ι → σ} {Inv : σ → Prop}
    (hbody : ∀ s i, Inv s → Inv (body s i)) (l : List ι) {s : σ} (hs : Inv s) :
    Inv (l.foldl body s) := by
  induction l generalizing s with
  | nil => exact hs
  | cons i l ih => exact ih (hbody s i hs)

/-- **The rule of independent iterations.**  If the iteration at `i` replaces entry `i` by
`f i` of it and leaves the other entries alone, the loop does so for every index it visits. -/
theorem foldl_entry [DecidableEq ι] {body : σ → ι → σ} (entry : σ → ι → β) (f : ι → β → β)
    (Inv : σ → Prop) (hinv : ∀ s i, Inv s → Inv (body s i))
    (hself : ∀ s i, Inv s → entry (body s i) i = f i (entry s i))
    (hother : ∀ s i j, Inv s → j ≠ i → entry (body s i) j = entry s j)
    {l : List ι} (hl : l.Nodup) (s : σ) (hs : Inv s) (j : ι) :
    entry (l.foldl body s) j = if j ∈ l then f j (entry s j) else entry s j := by
  induction l generalizing s with
  | nil => rfl
  | cons i l ih =>
      obtain ⟨hfresh, hl'⟩ := List.nodup_cons.mp hl
      rw [List.foldl_cons, ih hl' _ (hinv s i hs)]
      by_cases hji : j = i
      · subst hji
        rw [if_neg hfresh, if_pos List.mem_cons_self, hself s j hs]
      · rw [hother s i j hs hji]
        simp only [List.mem_cons, hji, false_or]

/-- A loop whose iterations change nothing changes nothing. -/
theorem foldl_stationary {body : σ → ι → σ} {s : σ} (l : List ι) (h : ∀ i ∈ l, body s i = s) :
    l.foldl body s = s := by
  induction l with
  | nil => rfl
  | cons i l ih =>
      rw [List.foldl_cons, h i List.mem_cons_self]
      exact ih fun j hj => h j (List.mem_cons_of_mem _ hj)

end Pure

section Failing

variable {ι σ τ ε : Type}

/-- A step that returned is followed by the next one. -/
theorem ok_bind (s : σ) (f : σ → Except ε τ) : (Except.ok s >>= f) = f s := rfl

/-- A sequence that returned ran both of its parts. -/
theorem bind_eq_ok {x : Except ε σ} {f : σ → Except ε τ} {t : τ} (h : x >>= f = .ok t) :
    ∃ s, x = .ok s ∧ f s = .ok t := by
  cases x with
  | error e => cases h
  | ok s => exact ⟨s, rfl, h⟩

/-- A result that was mapped came from one before the map. -/
theorem map_eq_ok {x : Except ε σ} {f : σ → τ} {t : τ} (h : x.map f = .ok t) :
    ∃ s, x = .ok s ∧ f s = t := by
  cases x with
  | error e => cases h
  | ok s => exact ⟨s, rfl, Except.ok.inj h⟩

/-- A loop that returned ran its first iteration and then the rest. -/
theorem foldlM_cons_eq_ok {body : σ → ι → Except ε σ} {i : ι} {l : List ι} {s s' : σ}
    (h : (i :: l).foldlM body s = .ok s') :
    ∃ t, body s i = .ok t ∧ l.foldlM body t = .ok s' := by
  rw [List.foldlM_cons] at h
  exact bind_eq_ok h

/-- A loop over a concatenation that returned ran both parts. -/
theorem foldlM_append_eq_ok {body : σ → ι → Except ε σ} {l l' : List ι} {s s' : σ}
    (h : (l ++ l').foldlM body s = .ok s') :
    ∃ t, l.foldlM body s = .ok t ∧ l'.foldlM body t = .ok s' := by
  induction l generalizing s with
  | nil => exact ⟨s, rfl, h⟩
  | cons i l ih =>
      obtain ⟨t, hbody, hrest⟩ := foldlM_cons_eq_ok h
      obtain ⟨u, hu, hend⟩ := ih hrest
      refine ⟨u, ?_, hend⟩
      rw [List.foldlM_cons, hbody]
      exact hu

/-- The invariant rule of a loop that may fail; the body may use that its index is in the
list. -/
theorem foldlM_invariant {body : σ → ι → Except ε σ} {Inv : σ → Prop} (l : List ι)
    (hbody : ∀ i ∈ l, ∀ s s', Inv s → body s i = .ok s' → Inv s') {s s' : σ} (hs : Inv s)
    (h : l.foldlM body s = .ok s') : Inv s' := by
  induction l generalizing s with
  | nil =>
      cases h
      exact hs
  | cons i l ih =>
      obtain ⟨t, ht, hrest⟩ := foldlM_cons_eq_ok h
      exact ih (fun j hj => hbody j (List.mem_cons_of_mem _ hj))
        (hbody i List.mem_cons_self s t hs ht) hrest

/-- Every iteration of a loop that returned ran from a state with the invariant, and
returned. -/
theorem foldlM_visits {body : σ → ι → Except ε σ} {Inv : σ → Prop} (l : List ι)
    (hbody : ∀ i ∈ l, ∀ s s', Inv s → body s i = .ok s' → Inv s') {s s' : σ} (hs : Inv s)
    (h : l.foldlM body s = .ok s') {i : ι} (hi : i ∈ l) :
    ∃ t t', Inv t ∧ body t i = .ok t' := by
  induction l generalizing s with
  | nil => cases hi
  | cons j l ih =>
      obtain ⟨t, ht, hrest⟩ := foldlM_cons_eq_ok h
      have hbody' : ∀ i ∈ l, ∀ s s', Inv s → body s i = .ok s' → Inv s' :=
        fun i hi => hbody i (List.mem_cons_of_mem _ hi)
      rcases List.mem_cons.mp hi with rfl | hi
      · exact ⟨s, t, hs, ht⟩
      · exact ih hbody' (hbody j List.mem_cons_self s t hs ht) hrest hi

/-- A loop returns if every iteration returns; the invariant may speak about the indices
still to come. -/
theorem foldlM_returns {body : σ → ι → Except ε σ} {Inv : List ι → σ → Prop}
    (hbody : ∀ i l s, Inv (i :: l) s → ∃ s', body s i = .ok s' ∧ Inv l s') (l : List ι) {s : σ}
    (hs : Inv l s) : ∃ s', l.foldlM body s = .ok s' := by
  induction l generalizing s with
  | nil => exact ⟨s, rfl⟩
  | cons i l ih =>
      obtain ⟨t, ht, hinv⟩ := hbody i l s hs
      obtain ⟨s', hs'⟩ := ih hinv
      refine ⟨s', ?_⟩
      rw [List.foldlM_cons, ht]
      exact hs'

/-- **The relational rule.**  Two loops over the same list whose iterations keep a relation
end in related states, when both return. -/
theorem foldlM_related {body : σ → ι → Except ε σ} {body' : τ → ι → Except ε τ}
    {R : σ → τ → Prop} (l : List ι)
    (hbody : ∀ i ∈ l, ∀ s t s' t', R s t → body s i = .ok s' → body' t i = .ok t' → R s' t')
    {s s' : σ} {t t' : τ} (hR : R s t) (hs : l.foldlM body s = .ok s')
    (ht : l.foldlM body' t = .ok t') : R s' t' := by
  induction l generalizing s t with
  | nil =>
      cases hs
      cases ht
      exact hR
  | cons i l ih =>
      obtain ⟨u, hu, hsrest⟩ := foldlM_cons_eq_ok hs
      obtain ⟨v, hv, htrest⟩ := foldlM_cons_eq_ok ht
      exact ih (fun j hj => hbody j (List.mem_cons_of_mem _ hj))
        (hbody i List.mem_cons_self s t u v hR hu hv) hsrest htrest

/-- A loop that collects values, none of which fails. -/
theorem mapM_of_returns {f : ι → Except ε σ} {g : ι → σ} {l : List ι}
    (h : ∀ i ∈ l, f i = .ok (g i)) : l.mapM f = .ok (l.map g) := by
  induction l with
  | nil => rfl
  | cons i l ih =>
      rw [List.mapM_cons, h i List.mem_cons_self, ih fun j hj => h j (List.mem_cons_of_mem _ hj)]
      rfl

/-- A loop that collected values got one in every iteration, and nothing else. -/
theorem mem_of_mapM {f : ι → Except ε σ} {l : List ι} {l' : List σ} (h : l.mapM f = .ok l')
    {i : ι} (hi : i ∈ l) : ∃ s ∈ l', f i = .ok s := by
  induction l generalizing l' with
  | nil => cases hi
  | cons j l ih =>
      rw [List.mapM_cons] at h
      obtain ⟨s, hs, h⟩ := bind_eq_ok h
      obtain ⟨rest, hrest, h⟩ := bind_eq_ok h
      cases h
      rcases List.mem_cons.mp hi with rfl | hi
      · exact ⟨s, List.mem_cons_self, hs⟩
      · obtain ⟨t, ht, hf⟩ := ih hrest hi
        exact ⟨t, List.mem_cons_of_mem _ ht, hf⟩

/-- A loop that collected values got each from one of its iterations. -/
theorem origin_of_mapM {f : ι → Except ε σ} {l : List ι} {l' : List σ} (h : l.mapM f = .ok l')
    {s : σ} (hs : s ∈ l') : ∃ i ∈ l, f i = .ok s := by
  induction l generalizing l' with
  | nil =>
      cases h
      cases hs
  | cons i l ih =>
      rw [List.mapM_cons] at h
      obtain ⟨t, ht, h⟩ := bind_eq_ok h
      obtain ⟨rest, hrest, h⟩ := bind_eq_ok h
      cases h
      rcases List.mem_cons.mp hs with rfl | hs
      · exact ⟨i, List.mem_cons_self, ht⟩
      · obtain ⟨j, hj, hf⟩ := ih hrest hs
        exact ⟨j, List.mem_cons_of_mem _ hj, hf⟩

/-- A traversal returns exactly when every element does. -/
theorem mapM_returns_iff {f : ι → Except ε σ} {l : List ι} :
    (∃ l', l.mapM f = .ok l') ↔ ∀ i ∈ l, ∃ s, f i = .ok s := by
  constructor
  · rintro ⟨l', h⟩ i hi
    obtain ⟨s, -, hs⟩ := mem_of_mapM h hi
    exact ⟨s, hs⟩
  · intro h
    induction l with
    | nil => exact ⟨[], rfl⟩
    | cons i l ih =>
        obtain ⟨s, hs⟩ := h i List.mem_cons_self
        obtain ⟨l', hl'⟩ := ih fun j hj => h j (List.mem_cons_of_mem _ hj)
        refine ⟨s :: l', ?_⟩
        rw [List.mapM_cons, hs, hl']
        rfl

/-- A loop that returns gives one result for each element. -/
theorem length_of_mapM {f : ι → Except ε σ} {l : List ι} {l' : List σ}
    (h : l.mapM f = .ok l') : l'.length = l.length := by
  induction l generalizing l' with
  | nil =>
      cases h
      rfl
  | cons j l ih =>
      rw [List.mapM_cons] at h
      obtain ⟨s, -, h⟩ := bind_eq_ok h
      obtain ⟨rest, hrest, h⟩ := bind_eq_ok h
      cases h
      rw [List.length_cons, List.length_cons, ih hrest]

end Failing

end Oboromi.Lib
