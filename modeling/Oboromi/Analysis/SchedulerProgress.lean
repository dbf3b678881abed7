import Oboromi.Analysis.ContextIsolation
import Oboromi.Analysis.StepFrame

/-!
# Which threads ever get a turn

The ready list is collected in the order the maps iterate, and a step neither changes that
order nor takes a thread off the list: what ran is `Running` and stays a candidate.  So the
list only grows, and the first eight of it are the first eight forever.  A Ready thread
outside them is never loaded (`selected_of_loadedAndRun`), in however many steps.
-/

set_option autoImplicit false

namespace Oboromi.Analysis

open Oboromi.Lib Oboromi.Model Oboromi.Interface

/-! ## Prefixes of growing lists -/

/-- What is in a front part of a longer list, and in the shorter list, is in that front part
of the shorter list. -/
theorem mem_take_of_sublist {α : Type} {l l' : List α} {a : α} {n : ℕ} (hsub : l.Sublist l')
    (hnodup : l'.Nodup) (ha : a ∈ l) (htake : a ∈ l'.take n) : a ∈ l.take n := by
  rw [← List.take_append_drop n l'] at hsub hnodup
  obtain ⟨front, back, rfl, hfront, hback⟩ := List.sublist_append_iff.mp hsub
  have hout : a ∉ back := fun hmem =>
    (List.nodup_append.mp hnodup).2.2 a htake a (hback.subset hmem) rfl
  have hin : a ∈ front := (List.mem_append.mp ha).resolve_right hout
  have hlen : front.length ≤ n := hfront.length_le.trans (List.length_take_le n l')
  rw [List.take_append, List.take_of_length_le hlen]
  exact List.mem_append_left _ hin

/-! ## The list of candidates only grows -/

section Growing

variable {b : Build} {emu : Emulator} {k k' : Kernel}

/-- A kept thread stays runnable. -/
theorem runnable_of_kept {t t' : Thread} (h : ThreadKept t t') (hrun : Runnable t) :
    Runnable t' := by
  rcases h.state with hsame | hrunning
  · unfold Runnable at hrun ⊢
    rwa [hsame]
  · exact .inr hrunning

/-- A kept thread keeps its id. -/
theorem id_of_kept {t t' : Thread} (h : ThreadKept t t') : t'.id = t.id := by
  rw [h.fields]

/-- A kept process keeps its id. -/
theorem pid_of_kept {p p' : Process} (h : ProcessKept p p') : p'.pid = p.pid := by
  rw [h.fields]

/-- The candidates of one process. -/
theorem candidates_sublist {ts ts' : List Thread} (pid : ProcessId)
    (h : List.Forall₂ ThreadKept ts ts') :
    ((ts.filter fun t => decide (Runnable t)).map fun t => (pid, t.id)).Sublist
      ((ts'.filter fun t => decide (Runnable t)).map fun t => (pid, t.id)) := by
  induction h with
  | nil => exact List.Sublist.refl _
  | @cons t t' ts ts' ht _ ih =>
      by_cases hrun : Runnable t
      · have hrun' := runnable_of_kept ht hrun
        rw [List.filter_cons_of_pos (by simpa using hrun),
          List.filter_cons_of_pos (by simpa using hrun'), List.map_cons, List.map_cons,
          id_of_kept ht]
        exact ih.cons_cons _
      · rw [List.filter_cons_of_neg (by simpa using hrun)]
        apply ih.trans
        apply List.Sublist.map
        rw [List.filter_cons]
        split
        · exact List.sublist_cons_self _ _
        · exact List.Sublist.refl _

/-- Keeping the objects keeps the runnable threads in order. -/
theorem runnable_sublist (h : ObjectsKept k k') : (runnable k).Sublist (runnable k') := by
  have hvalues := h.processes.values
  unfold runnable
  generalize k.processes.values = ps at hvalues
  generalize k'.processes.values = ps' at hvalues
  induction hvalues with
  | nil => exact List.Sublist.refl _
  | @cons p p' ps ps' hp _ ih =>
      rw [List.flatMap_cons, List.flatMap_cons, pid_of_kept hp]
      exact (candidates_sublist p.pid hp.threads.values).append ih

/-- Keeping the objects keeps the keys consistent. -/
theorem keysConsistent_of_kept (h : ObjectsKept k k') (hkeys : KeysConsistent k) :
    KeysConsistent k' := by
  constructor
  · intro pid p' hp'
    obtain ⟨p, hp, hkept⟩ := h.processes.exists_of_get hp'
    rw [pid_of_kept hkept]
    exact hkeys.process pid p hp
  · intro pid p' tid t' hp' ht'
    obtain ⟨p, hp, hkept⟩ := h.processes.exists_of_get hp'
    obtain ⟨t, hget, ht⟩ := hkept.threads.exists_of_get ht'
    rw [id_of_kept ht]
    exact hkeys.thread pid p tid t hp hget

/-- By induction on the number of steps. -/
theorem steps_kept {n : ℕ} (h : steps b emu n k = .ok k') : ObjectsKept k k' := by
  induction n generalizing k with
  | zero =>
      cases h
      exact ObjectsKept.refl _
  | succ n ih =>
      obtain ⟨k₁, hstep, hrest⟩ := bind_eq_ok h
      exact (step_kept hstep).trans (ih hrest)

/-- The release build always gets through its steps. -/
theorem steps_return (emu : Emulator) (n : ℕ) (k : Kernel) :
    ∃ k', steps .release emu n k = .ok k' := by
  induction n generalizing k with
  | zero => exact ⟨k, rfl⟩
  | succ n ih =>
      have habort : ¬ Aborts .release k := by
        rintro ⟨hdebug, -⟩
        cases hdebug
      obtain ⟨k₁, hstep⟩ := step_returns emu habort
      obtain ⟨k', hrest⟩ := ih k₁
      refine ⟨k', ?_⟩
      unfold steps
      rw [hstep]
      exact hrest

end Growing

/-! ## Turns -/

section Turns

variable {b : Build} {emu : Emulator} {k k' : Kernel} {r : ThreadRef}

/-- The ready references are those of the threads that are ready. -/
theorem mem_readyRefs_iff :
    r ∈ readyRefs k ↔ ∃ t, threadAt k r = some t ∧ t.state = .ready := by
  obtain ⟨pid, tid⟩ := r
  unfold readyRefs threadAt Kernel.thread
  simp only [List.mem_flatMap, List.mem_map, List.mem_filter, Prod.exists, Prod.mk.injEq,
    decide_eq_true_eq, Option.bind_eq_bind, Option.bind_eq_some_iff]
  constructor
  · rintro ⟨pid', p, hp, tid', t, ⟨ht, hready⟩, rfl, rfl⟩
    exact ⟨t, ⟨p, (HashMap.get_eq_some_iff _ _ _).mpr hp,
      (HashMap.get_eq_some_iff _ _ _).mpr ht⟩, hready⟩
  · rintro ⟨t, ⟨p, hp, ht⟩, hready⟩
    exact ⟨pid, p, (HashMap.get_eq_some_iff _ _ _).mp hp, tid, t,
      ⟨(HashMap.get_eq_some_iff _ _ _).mp ht, hready⟩, rfl, rfl⟩

/-- A stored thread that may run is a candidate, under its own id. -/
theorem mem_runnable (hkeys : KeysConsistent k) {t : Thread} (ht : threadAt k r = some t)
    (hrun : Runnable t) : r ∈ runnable k := by
  obtain ⟨pid, tid⟩ := r
  unfold threadAt Kernel.thread at ht
  obtain ⟨p, hp, ht⟩ := Option.bind_eq_some_iff.mp ht
  unfold runnable
  apply List.mem_flatMap.mpr
  refine ⟨p, (HashMap.mem_values _ _).mpr ⟨pid, hp⟩, ?_⟩
  apply List.mem_map.mpr
  refine ⟨t, List.mem_filter.mpr ⟨(HashMap.mem_values _ _).mpr ⟨tid, ht⟩, by simpa using hrun⟩, ?_⟩
  rw [hkeys.process pid p hp, hkeys.thread pid p tid t hp ht]

/-- A selected thread is loaded and run. -/
theorem loadedAndRun_of_selected (h : k.step b emu = .ok k') {t : Thread}
    (ht : threadAt k r = some t) (hsel : r ∈ selected k) : LoadedAndRun b emu k r := by
  obtain ⟨i, hi⟩ := (mem_selected_iff r).mp hsel
  obtain ⟨m, hexec, -⟩ := step_eq_ok h
  obtain ⟨s, s', hs, hs', hslots, hcore, -⟩ := execute_turn hexec i
  have hslot : k.assign.runningOn.get i = some r := by
    rw [assign_slot]
    exact slot_of_runnable hi
  have hload : startCore k i = Kernel.loadContext t.context (k.cpu.cores.get i) := by
    unfold startCore
    rw [hi, Option.bind_some, ht]
  refine ⟨i, t, s, s', ht, hslot, ?_, hs, ?_, ?_, hs'⟩
  · rw [assign_core, hload]
  · rw [hslots, hslot]
  · rw [hcore, assign_core]

/-- A thread that is loaded and run was selected: a slot left over does not help, since all
candidates are selected when there is a core to spare. -/
theorem selected_of_loadedAndRun (hkeys : KeysConsistent k) {t : Thread}
    (ht : threadAt k r = some t) (hrun : Runnable t) (h : LoadedAndRun b emu k r) :
    r ∈ selected k := by
  obtain ⟨i, -, -, -, -, hslot, -⟩ := h
  rw [assign_slot] at hslot
  by_cases hlen : (runnable k).length ≤ i.val
  · have hall : selected k = runnable k :=
      List.take_of_length_le (hlen.trans (Nat.le_of_lt i.isLt))
    rw [hall]
    exact mem_runnable hkeys ht hrun
  · refine (mem_selected_iff r).mpr ⟨i, ?_⟩
    rw [← hslot]
    unfold slot
    rw [List.getElem?_eq_getElem (Nat.lt_of_not_le hlen)]
    rfl

/-- A thread selected after some steps was selected at once. -/
theorem selected_of_later (hkept : ObjectsKept k k') (hkeys : KeysConsistent k)
    (hr : r ∈ runnable k) (hsel : r ∈ selected k') : r ∈ selected k :=
  mem_take_of_sublist (runnable_sublist hkept)
    (runnable_nodup (keysConsistent_of_kept hkept hkeys)) hr hsel

/-- Every Ready thread is among the first eight candidates. -/
def FirstEight (k : Kernel) : Prop := ∀ r ∈ readyRefs k, r ∈ selected k

instance (k : Kernel) : Decidable (FirstEight k) :=
  inferInstanceAs (Decidable (∀ r ∈ readyRefs k, r ∈ selected k))

/-- When the first eight come first, each ready thread runs within the rounds. -/
theorem eachRuns_of_firstEight (h : steps b emu (rounds k) k = .ok k') (hfirst : FirstEight k) :
    EachRuns b emu k := by
  intro r hr
  have hpos : 0 < rounds k := by
    have hlen := List.length_pos_of_mem hr
    unfold rounds
    omega
  obtain ⟨n, hn⟩ := Nat.exists_eq_succ_of_ne_zero (Nat.ne_of_gt hpos)
  rw [hn] at h
  obtain ⟨k₁, hstep, -⟩ := bind_eq_ok h
  obtain ⟨t, ht, -⟩ := mem_readyRefs_iff.mp hr
  exact ⟨0, k, hpos, rfl, loadedAndRun_of_selected hstep ht (hfirst r hr)⟩

/-- When each ready thread runs, they are among the first eight. -/
theorem firstEight_of_eachRuns (hkeys : KeysConsistent k) (h : EachRuns b emu k) :
    FirstEight k := by
  intro r hr
  obtain ⟨t, ht, hready⟩ := mem_readyRefs_iff.mp hr
  obtain ⟨j, kj, -, hj, hrun⟩ := h r hr
  have hkept := steps_kept hj
  have hthread := hkept.thread r
  rw [ht] at hthread
  cases hget : threadAt kj r with
  | none =>
      rw [hget] at hthread
      cases hthread
  | some t' =>
      rw [hget] at hthread
      cases hthread with
      | some htt' =>
          have hrunnable := runnable_of_kept htt' (.inl hready)
          have hsel := selected_of_loadedAndRun (keysConsistent_of_kept hkept hkeys) hget
            hrunnable hrun
          exact selected_of_later hkept hkeys (mem_runnable hkeys ht (.inl hready)) hsel

/-- One process stored under its own id, and its threads under theirs. -/
theorem keysConsistent_singleton {pid : ProcessId} {p : Process}
    (h : k.processes.entries = [(pid, p)]) (hpid : p.pid = pid)
    (hthreads : ∀ e ∈ p.threads.entries, e.2.id = e.1) : KeysConsistent k := by
  have honly (pid' : ProcessId) (p' : Process) (hp : k.processes.get pid' = some p') :
      pid' = pid ∧ p' = p := by
    have hmem := (HashMap.get_eq_some_iff _ _ _).mp hp
    rw [h, List.mem_singleton, Prod.mk.injEq] at hmem
    exact hmem
  constructor
  · intro pid' p' hp
    obtain ⟨rfl, rfl⟩ := honly pid' p' hp
    exact hpid
  · intro pid' p' tid t hp ht
    obtain ⟨rfl, rfl⟩ := honly pid' p' hp
    exact hthreads (tid, t) ((HashMap.get_eq_some_iff _ _ _).mp ht)

end Turns

/-- **Every Ready thread gets its turn exactly when each is among the first eight Ready or
Running threads.**  A release build returns from the rounds; of a debug build this is said of rounds
that return, since an instruction at the end of the address space panics.
SOURCE: core/src/sys/kernel.rs:115-174 -/
theorem scheduler_progress_iff (b : Build) (emu : Emulator) (k : Kernel) :
    (b = .release → ∃ k', steps b emu (rounds k) k = .ok k') ∧
    ∀ k', steps b emu (rounds k) k = .ok k' →
      (FirstEight k → EachRuns b emu k) ∧
      (KeysConsistent k → (EachRuns b emu k ↔ FirstEight k)) := by
  constructor
  · rintro rfl
    exact steps_return emu (rounds k) k
  · intro k' h
    refine ⟨eachRuns_of_firstEight h, fun hkeys => ?_⟩
    exact ⟨firstEight_of_eachRuns hkeys, eachRuns_of_firstEight h⟩

/-- One ready thread runs in the one step it is owed. -/
theorem scheduler_progress_iff_solo :
    ∃ k', steps .release stuckEmulator (rounds (soloKernel .ready none))
        (soloKernel .ready none) = .ok k' ∧
      EachRuns .release stuckEmulator (soloKernel .ready none) := by
  obtain ⟨hreturns, hruns⟩ := scheduler_progress_iff .release stuckEmulator (soloKernel .ready none)
  obtain ⟨k', hk'⟩ := hreturns rfl
  have hkeys : KeysConsistent (soloKernel .ready none) :=
    keysConsistent_singleton rfl rfl (by simp [Thread.new])
  have hready : readyRefs (soloKernel .ready none) = [(1, 1)] := rfl
  have hselected : selected (soloKernel .ready none) = [(1, 1)] := rfl
  have hfirst : FirstEight (soloKernel .ready none) := by
    rw [FirstEight, hready, hselected]
    simp
  exact ⟨k', hk', ((hruns k' hk').2 hkeys).mpr hfirst⟩

/-- A new kernel with one process of nine ready threads. -/
def crowdedKernel : Kernel :=
  { Kernel.new with
    processes := ⟨[(1, { Process.new 1 "app" 0x1000 0x1000 with
      threads := ⟨[1, 2, 3, 4, 5, 6, 7, 8, 9].map fun id =>
        (id, { Thread.new id 1 0x1000 0x2000 with state := .ready }), by decide⟩
      nextThreadId := 10 })], by simp⟩ }

/-- The ninth thread gets no turn in the two steps it is owed. -/
theorem ninth_thread_waits :
    rounds crowdedKernel = 2 ∧ (1, 9) ∈ readyRefs crowdedKernel ∧
      (∃ k', steps .release stuckEmulator 2 crowdedKernel = .ok k') ∧
      ¬ EachRuns .release stuckEmulator crowdedKernel := by
  refine ⟨by decide, by decide, steps_return stuckEmulator 2 crowdedKernel, ?_⟩
  intro hruns
  have hkeys : KeysConsistent crowdedKernel :=
    keysConsistent_singleton rfl rfl (by simp [Thread.new])
  have hninth := firstEight_of_eachRuns hkeys hruns (1, 9) (by decide)
  have hout : (1, 9) ∉ selected crowdedKernel := by decide
  exact hout hninth

end Oboromi.Analysis
