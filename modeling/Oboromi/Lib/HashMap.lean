import Mathlib.Data.List.Nodup
import Mathlib.Data.List.Dedup
import Mathlib.Data.List.Forall2
import Oboromi.Lib.Machine

/-!
# Hash maps with an unspecified iteration order

A map is its list of entries in the order the host iterates over them, no key twice.
Nothing is assumed about that order, so a statement about every `HashMap` is a statement
about every order.  Lookups do not depend on it (`get_eq_some_iff`).
-/

set_option autoImplicit false

namespace Oboromi.Lib

/-- Entries in iteration order, with distinct keys. -/
structure HashMap (κ α : Type) where
  entries : List (κ × α)
  nodup : (entries.map Prod.fst).Nodup

namespace HashMap

variable {κ α : Type}

/-- The map without entries. -/
def empty : HashMap κ α := ⟨[], List.nodup_nil⟩

/-- The values, in iteration order. -/
def values (m : HashMap κ α) : List α := m.entries.map Prod.snd

variable [DecidableEq κ]

def get (m : HashMap κ α) (k : κ) : Option α := m.entries.lookup k

/-- Change the value at a key, if there is one, in place. -/
def modify (m : HashMap κ α) (k : κ) (f : α → α) : HashMap κ α where
  entries := m.entries.map fun e => (e.1, if e.1 = k then f e.2 else e.2)
  nodup := by
    rw [List.map_map]
    exact m.nodup

/-- A key occurs in a list of entries exactly when it is found there. -/
theorem mem_keys_iff (l : List (κ × α)) (k : κ) :
    k ∈ l.map Prod.fst ↔ (l.lookup k).isSome := by
  induction l with
  | nil => simp
  | cons e l ih =>
      obtain ⟨key, v⟩ := e
      rw [List.map_cons, List.mem_cons, List.lookup_cons]
      by_cases hkey : k = key
      · simp [hkey]
      · have hbeq : (k == key) = false := by simpa using hkey
        simp only [hkey, false_or, hbeq]
        exact ih

/-- Put a value under a key: over the one that is there, or as a new entry. -/
def insert (m : HashMap κ α) (k : κ) (v : α) : HashMap κ α :=
  if h : (m.get k).isSome then m.modify k fun _ => v
  else {
    entries := m.entries ++ [(k, v)]
    nodup := by
      have hfresh : k ∉ m.entries.map Prod.fst := fun hmem => h ((mem_keys_iff _ _).mp hmem)
      rw [List.map_append, List.nodup_append]
      refine ⟨m.nodup, List.nodup_singleton _, ?_⟩
      rintro a ha b hb rfl
      have hak : a = k := List.mem_singleton.mp hb
      exact hfresh (hak ▸ ha) }

/-- `insert` of the host's map: it panics when a new entry does not fit into `isize::MAX`
bytes, so no map has that many entries. -/
def tryInsert (m : HashMap κ α) (k : κ) (v : α) : Except Fault (HashMap κ α) :=
  if (m.get k).isSome ∨ m.entries.length + 1 < 2 ^ 63 then return m.insert k v
  else .error .panic

/-- Changing the values under one key changes what is found under it and nothing else. -/
theorem lookup_map_entries (l : List (κ × α)) (k k' : κ) (f : α → α) :
    (l.map fun e => (e.1, if e.1 = k then f e.2 else e.2)).lookup k' =
      (l.lookup k').map fun v => if k' = k then f v else v := by
  induction l with
  | nil => rfl
  | cons e l ih =>
      obtain ⟨key, v⟩ := e
      rw [List.map_cons, List.lookup_cons, List.lookup_cons]
      by_cases hkey : k' = key
      · subst hkey
        simp
      · have hbeq : (k' == key) = false := by simpa using hkey
        simp only [hbeq]
        exact ih

/-- What a lookup finds after a change in place. -/
theorem get_modify (m : HashMap κ α) (k k' : κ) (f : α → α) :
    (m.modify k f).get k' = (m.get k').map fun v => if k' = k then f v else v :=
  lookup_map_entries m.entries k k' f

/-- In two lists one after the other, the first one's entry is found. -/
theorem lookup_append (l l' : List (κ × α)) (k : κ) :
    (l ++ l').lookup k = (l.lookup k).or (l'.lookup k) := by
  induction l with
  | nil => rfl
  | cons e l ih =>
      obtain ⟨key, v⟩ := e
      rw [List.cons_append, List.lookup_cons, List.lookup_cons]
      cases hbeq : k == key with
      | true => rfl
      | false => exact ih

/-- What a lookup finds after an insertion. -/
theorem get_insert (m : HashMap κ α) (k k' : κ) (v : α) :
    (m.insert k v).get k' = if k' = k then some v else m.get k' := by
  unfold insert
  split
  · next h =>
      rw [get_modify]
      by_cases hk : k' = k
      · subst hk
        obtain ⟨w, hw⟩ := Option.isSome_iff_exists.mp h
        simp [hw]
      · simp [hk]
  · next h =>
      show (m.entries ++ [(k, v)]).lookup k' = _
      rw [lookup_append]
      by_cases hk : k' = k
      · subst hk
        have hnone : m.entries.lookup k' = none := Option.not_isSome_iff_eq_none.mp h
        simp [hnone]
      · have hlast : [(k, v)].lookup k' = none := by
          have hbeq : (k' == k) = false := by simpa using hk
          rw [List.lookup_cons, hbeq]
          rfl
        rw [hlast, Option.or_none, if_neg hk]
        rfl

/-- The empty map has no entry. -/
@[simp] theorem get_empty (k : κ) : (empty : HashMap κ α).get k = none := rfl

/-- A lookup finds exactly the entries. -/
theorem get_eq_some_iff (m : HashMap κ α) (k : κ) (v : α) :
    m.get k = some v ↔ (k, v) ∈ m.entries := by
  obtain ⟨l, hl⟩ := m
  show l.lookup k = some v ↔ (k, v) ∈ l
  induction l with
  | nil => simp
  | cons e l ih =>
      obtain ⟨key, w⟩ := e
      rw [List.map_cons, List.nodup_cons] at hl
      obtain ⟨hfresh, hl⟩ := hl
      rw [List.lookup_cons, List.mem_cons, Prod.mk.injEq]
      by_cases hkey : k = key
      · subst hkey
        have hout : (k, v) ∉ l := fun hmem => hfresh (List.mem_map.mpr ⟨(k, v), hmem, rfl⟩)
        simp [hout, eq_comm]
      · have hbeq : (k == key) = false := by simpa using hkey
        simp only [hbeq, hkey, false_and, false_or]
        exact ih hl

/-- An insertion that is made is the plain one, and either replaced an entry or had room for a new
one. -/
theorem tryInsert_eq_ok {m m' : HashMap κ α} {k : κ} {v : α} (h : m.tryInsert k v = .ok m') :
    m' = m.insert k v ∧ ((m.get k).isSome ∨ m.entries.length + 1 < 2 ^ 63) := by
  unfold tryInsert at h
  split at h
  · next hroom =>
      cases h
      exact ⟨rfl, hroom⟩
  · cases h

/-- An insertion under a new key adds one entry. -/
theorem length_insert_of_none {m : HashMap κ α} {k : κ} (h : m.get k = none) (v : α) :
    (m.insert k v).entries.length = m.entries.length + 1 := by
  unfold insert
  rw [dif_neg (by rw [h]; simp)]
  simp

/-- Modifying an entry adds none. -/
theorem length_modify (m : HashMap κ α) (k : κ) (f : α → α) :
    (m.modify k f).entries.length = m.entries.length :=
  List.length_map _

/-- An insertion adds at most one entry. -/
theorem length_insert_le (m : HashMap κ α) (k : κ) (v : α) :
    (m.insert k v).entries.length ≤ m.entries.length + 1 := by
  unfold insert
  split
  · rw [length_modify]
    exact Nat.le_succ _
  · simp

/-- A host map with room for another entry takes it. -/
theorem tryInsert_of_room {m : HashMap κ α} (h : m.entries.length + 1 < 2 ^ 63) (k : κ) (v : α) :
    m.tryInsert k v = .ok (m.insert k v) :=
  if_pos (.inr h)

/-- The values are what is found under some key. -/
theorem mem_values (m : HashMap κ α) (v : α) : v ∈ m.values ↔ ∃ k, m.get k = some v := by
  unfold values
  constructor
  · intro h
    obtain ⟨⟨k, w⟩, hmem, rfl⟩ := List.mem_map.mp h
    exact ⟨k, (get_eq_some_iff m k w).mpr hmem⟩
  · rintro ⟨k, h⟩
    exact List.mem_map.mpr ⟨(k, v), (get_eq_some_iff m k v).mp h, rfl⟩

/-- Maps with the same keys have as many entries, in whatever order. -/
theorem length_eq_of_isSome_get {β : Type} {m : HashMap κ α} {m' : HashMap κ β}
    (h : ∀ k, (m'.get k).isSome = (m.get k).isSome) :
    m'.entries.length = m.entries.length := by
  have hkeys : (m'.entries.map Prod.fst).Perm (m.entries.map Prod.fst) := by
    refine (List.perm_ext_iff_of_nodup m'.nodup m.nodup).mpr ?_
    intro k
    rw [mem_keys_iff, mem_keys_iff]
    exact Iff.of_eq (congrArg (· = true) (h k))
  simpa using hkeys.length_eq

/-! ## Maps with the same keys -/

/-- The same keys in the same order, with related values. -/
def Rel (R : α → α → Prop) (m m' : HashMap κ α) : Prop :=
  List.Forall₂ (fun e e' => e'.1 = e.1 ∧ R e.2 e'.2) m.entries m'.entries

omit [DecidableEq κ] in
/-- A map is related to itself, value by value. -/
theorem Rel.refl {R : α → α → Prop} (hR : ∀ v, R v v) (m : HashMap κ α) : Rel R m m :=
  List.forall₂_same.mpr fun e _ => ⟨rfl, hR e.2⟩

omit [DecidableEq κ] in
/-- Values in a finer relation are in a coarser one. -/
theorem Rel.mono {R S : α → α → Prop} (hRS : ∀ v v', R v v' → S v v') {m m' : HashMap κ α}
    (h : Rel R m m') : Rel S m m' :=
  h.imp fun _ _ he => ⟨he.1, hRS _ _ he.2⟩

omit [DecidableEq κ] in
/-- Related maps have as many entries. -/
theorem Rel.length {R : α → α → Prop} {m m' : HashMap κ α} (h : Rel R m m') :
    m'.entries.length = m.entries.length :=
  h.length_eq.symm

omit [DecidableEq κ] in
/-- Relations between values compose along maps. -/
theorem Rel.trans {R : α → α → Prop} (hR : ∀ u v w, R u v → R v w → R u w)
    {m m' m'' : HashMap κ α} (h : Rel R m m') (h' : Rel R m' m'') : Rel R m m'' := by
  unfold Rel at h h' ⊢
  generalize m.entries = l at h
  generalize m'.entries = l' at h h'
  generalize m''.entries = l'' at h'
  induction h generalizing l'' with
  | nil =>
      cases h'
      exact .nil
  | cons he hl ih =>
      cases h' with
      | cons he' hl' =>
          exact .cons ⟨he'.1.trans he.1, hR _ _ _ he.2 he'.2⟩ (ih _ hl')

/-- A change in place that keeps the values related. -/
theorem rel_modify {R : α → α → Prop} (hR : ∀ v, R v v) {f : α → α} (hf : ∀ v, R v (f v))
    (m : HashMap κ α) (k : κ) : Rel R m (m.modify k f) := by
  unfold Rel modify
  rw [List.forall₂_map_right_iff]
  apply List.forall₂_same.mpr
  intro e _
  refine ⟨rfl, ?_⟩
  show R e.2 (if e.1 = k then f e.2 else e.2)
  split
  · exact hf e.2
  · exact hR e.2

/-- A lookup in the one map finds a value related to what it finds in the other. -/
theorem Rel.get {R : α → α → Prop} {m m' : HashMap κ α} (h : Rel R m m') (k : κ) :
    Option.Rel R (m.get k) (m'.get k) := by
  unfold Rel at h
  unfold HashMap.get
  generalize m.entries = l at h
  generalize m'.entries = l' at h
  induction h with
  | nil => exact .none
  | @cons e e' l l' he _ ih =>
      obtain ⟨key, v⟩ := e
      obtain ⟨key', v'⟩ := e'
      obtain ⟨hkey, hv⟩ := he
      have hkey : key' = key := hkey
      subst hkey
      rw [List.lookup_cons, List.lookup_cons]
      cases k == key' with
      | true => exact .some hv
      | false => exact ih

/-- For what the second map finds the first finds a related value. -/
theorem Rel.exists_of_get {R : α → α → Prop} {m m' : HashMap κ α} (h : Rel R m m') {k : κ}
    {v' : α} (hk : m'.get k = some v') : ∃ v, m.get k = some v ∧ R v v' := by
  have hrel := h.get k
  rw [hk] at hrel
  generalize m.get k = r at hrel ⊢
  cases hrel with
  | some hv => exact ⟨_, rfl, hv⟩

/-- Related maps have the same keys. -/
theorem Rel.isSome_get {R : α → α → Prop} {m m' : HashMap κ α} (h : Rel R m m') (k : κ) :
    (m'.get k).isSome = (m.get k).isSome := by
  have hrel := h.get k
  generalize m.get k = r at hrel ⊢
  generalize m'.get k = r' at hrel ⊢
  cases hrel <;> rfl

omit [DecidableEq κ] in
/-- The values of related maps are related one by one, in order. -/
theorem Rel.values {R : α → α → Prop} {m m' : HashMap κ α} (h : Rel R m m') :
    List.Forall₂ R m.values m'.values := by
  unfold HashMap.values
  rw [List.forall₂_map_left_iff, List.forall₂_map_right_iff]
  exact h.imp fun _ _ he => he.2

end HashMap

end Oboromi.Lib
