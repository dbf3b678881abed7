import Oboromi.Analysis.SchedulerStep

/-!
# Slots left over from earlier steps

The assign loop overwrites the slots it has a thread for and leaves the others as they are,
and the execute and save loops run over every occupied slot.  So a step runs exactly the
threads it selected when no slot is left over, and only then: a slot left over for a thread
that is selected again is a thread on two cores, and any other is a thread that was not
selected (`step_runsSelected_iff`).
-/

set_option autoImplicit false

namespace Oboromi.Analysis

open Oboromi.Lib Oboromi.Model Oboromi.Interface

variable {k : Kernel}

/-- The selected threads are those with a place among the cores. -/
theorem mem_selected_iff (r : ThreadRef) :
    r ∈ selected k ↔ ∃ i : Fin CORE_COUNT, (runnable k)[i.val]? = some r := by
  unfold selected
  rw [List.mem_iff_getElem?]
  constructor
  · rintro ⟨n, hn⟩
    rw [List.getElem?_take] at hn
    by_cases hlt : n < CORE_COUNT
    · rw [if_pos hlt] at hn
      exact ⟨⟨n, hlt⟩, hn⟩
    · rw [if_neg hlt] at hn
      cases hn
  · rintro ⟨i, hi⟩
    exact ⟨i.val, by rw [List.getElem?_take, if_pos i.isLt, hi]⟩

/-- A selected thread has the slot it was selected for. -/
theorem slot_of_runnable {i : Fin CORE_COUNT} {r : ThreadRef}
    (h : (runnable k)[i.val]? = some r) : slot k i = some r := by
  unfold slot
  rw [h]
  rfl

/-- A core nothing is selected for keeps its slot. -/
theorem slot_of_length_le {i : Fin CORE_COUNT} (h : (runnable k).length ≤ i.val) :
    slot k i = k.runningOn.get i := by
  unfold slot
  rw [List.getElem?_eq_none h]
  rfl

/-- Without leftovers the occupied slots are those of the selected threads. -/
theorem runnable_of_slot
    (hvacant : ∀ i : Fin CORE_COUNT, (runnable k).length ≤ i.val → k.runningOn.get i = none)
    {i : Fin CORE_COUNT} {r : ThreadRef} (h : slot k i = some r) :
    (runnable k)[i.val]? = some r := by
  by_cases hlen : (runnable k).length ≤ i.val
  · rw [slot_of_length_le hlen, hvacant i hlen] at h
    cases h
  · rw [List.getElem?_eq_getElem (Nat.lt_of_not_le hlen)]
    unfold slot at h
    rw [List.getElem?_eq_getElem (Nat.lt_of_not_le hlen)] at h
    exact h

/-- Distinct selected threads have distinct cores. -/
theorem core_of_runnable (hnodup : (selected k).Nodup) {i j : Fin CORE_COUNT} {r : ThreadRef}
    (hi : (runnable k)[i.val]? = some r) (hj : (runnable k)[j.val]? = some r) : i = j := by
  have hi' : (selected k)[i.val]? = some r := by
    unfold selected
    rw [List.getElem?_take, if_pos i.isLt, hi]
  have hj' : (selected k)[j.val]? = some r := by
    unfold selected
    rw [List.getElem?_take, if_pos j.isLt, hj]
  obtain ⟨hilt, hival⟩ := List.getElem?_eq_some_iff.mp hi'
  obtain ⟨hjlt, hjval⟩ := List.getElem?_eq_some_iff.mp hj'
  exact Fin.ext ((List.Nodup.getElem_inj_iff hnodup).mp (hival.trans hjval.symm))

/-- Without leftovers, two cores never hold the same thread. -/
theorem slot_injective
    (hvacant : ∀ i : Fin CORE_COUNT, (runnable k).length ≤ i.val → k.runningOn.get i = none)
    (hnodup : (selected k).Nodup) {i j : Fin CORE_COUNT} {r : ThreadRef}
    (hi : slot k i = some r) (hj : slot k j = some r) : i = j :=
  core_of_runnable hnodup (runnable_of_slot hvacant hi) (runnable_of_slot hvacant hj)

/-! ## One step -/

variable {b : Build} {emu : Emulator} {k' : Kernel}

/-- A step without leftovers runs the selected threads and no others. -/
theorem runsSelected_of_slotsFresh (h : k.step b emu = .ok k') (hfresh : SlotsFresh k) :
    RunsSelected k k' := by
  obtain ⟨hvacant, hnodup, hrunnable⟩ := hfresh
  constructor
  · intro i j r hi hj
    rw [step_slot h] at hi hj
    exact slot_injective hvacant hnodup hi hj
  · intro r t ht hparked
    have habsent : ∀ i : Fin CORE_COUNT, slot k i ≠ some r := by
      intro i hi
      have hsel : r ∈ selected k := (mem_selected_iff r).mpr ⟨i, runnable_of_slot hvacant hi⟩
      exact (parked_iff_not_runnable t).mp hparked (hrunnable r hsel t ht)
    refine ⟨fun i => by rw [step_slot h]; exact habsent i, ?_⟩
    obtain ⟨m, hexec, hsave⟩ := step_eq_ok h
    rw [hsave, step_thread hexec, ht, Option.map_some,
      saves_of_absent (fun i _ => by rw [executed_slot hexec]; exact habsent i)]
  · intro i r hi
    rw [step_slot h] at hi
    exact (mem_selected_iff r).mpr ⟨i, runnable_of_slot hvacant hi⟩

/-- A step that runs the selected threads and no others had no leftovers. -/
theorem slotsFresh_of_runsSelected (h : k.step b emu = .ok k') (hruns : RunsSelected k k') :
    SlotsFresh k := by
  obtain ⟨hdistinct, hparked, hselected⟩ := hruns
  simp only [step_slot h] at hdistinct hparked hselected
  constructor
  · intro i hlen
    cases hleft : k.runningOn.get i with
    | none => rfl
    | some r =>
        have hi : slot k i = some r := by rw [slot_of_length_le hlen, hleft]
        obtain ⟨j, hj⟩ := (mem_selected_iff r).mp (hselected i r hi)
        have hij : i = j := hdistinct i j r hi (slot_of_runnable hj)
        obtain ⟨hjlt, -⟩ := List.getElem?_eq_some_iff.mp hj
        omega
  · refine List.nodup_iff_getElem?_ne_getElem?.mpr ?_
    intro n m hnm hm heq
    have hmlt : m < CORE_COUNT := by
      have hlen : (selected k).length ≤ CORE_COUNT := List.length_take_le _ _
      omega
    have hentry {n : ℕ} (hn : n < CORE_COUNT) : (selected k)[n]? = (runnable k)[n]? := by
      unfold selected
      rw [List.getElem?_take, if_pos hn]
    rw [hentry (Nat.lt_trans hnm hmlt), hentry hmlt] at heq
    have hm' : m < (runnable k).length :=
      Nat.lt_of_lt_of_le hm (List.length_take_le' _ _)
    have hsome : (runnable k)[m]? = some (runnable k)[m] := List.getElem?_eq_getElem hm'
    have hi : slot k ⟨n, Nat.lt_trans hnm hmlt⟩ = some (runnable k)[m] :=
      slot_of_runnable (heq.trans hsome)
    have hj : slot k ⟨m, hmlt⟩ = some (runnable k)[m] := slot_of_runnable hsome
    have hsame := congrArg Fin.val (hdistinct _ _ _ hi hj)
    exact absurd hsame (Nat.ne_of_lt hnm)
  · intro r hr t ht
    obtain ⟨i, hi⟩ := (mem_selected_iff r).mp hr
    by_contra hrun
    exact (hparked r t ht ((parked_iff_not_runnable t).mpr hrun)).1 i (slot_of_runnable hi)

/-! ## Kernels whose objects are stored under their own ids -/

/-- The runnable threads are distinct when every object is stored under its own id. -/
theorem runnable_nodup (hkeys : KeysConsistent k) : (runnable k).Nodup := by
  have hids (pid : ProcessId) (p : Process) (hp : k.processes.get pid = some p) :
      (p.threads.values.map fun t => t.id).Nodup := by
    have hsame : p.threads.values.map (fun t => t.id) = p.threads.entries.map Prod.fst := by
      unfold HashMap.values
      rw [List.map_map]
      apply List.map_congr_left
      intro e he
      exact hkeys.thread pid p e.1 e.2 hp ((HashMap.get_eq_some_iff _ _ _).mpr he)
    rw [hsame]
    exact p.threads.nodup
  have hpids : (k.processes.values.map fun p => p.pid).Nodup := by
    have hsame : k.processes.values.map (fun p => p.pid) = k.processes.entries.map Prod.fst := by
      unfold HashMap.values
      rw [List.map_map]
      apply List.map_congr_left
      intro e he
      exact hkeys.process e.1 e.2 ((HashMap.get_eq_some_iff _ _ _).mpr he)
    rw [hsame]
    exact k.processes.nodup
  unfold runnable
  rw [List.nodup_flatMap]
  constructor
  · intro p hp
    obtain ⟨pid, hget⟩ := (HashMap.mem_values _ _).mp hp
    have hfilter := ((List.filter_sublist (p := fun t => decide (Runnable t))
      (l := p.threads.values)).map fun t => t.id).nodup (hids pid p hget)
    refine List.Nodup.of_map Prod.snd ?_
    rw [List.map_map]
    exact hfilter
  · refine (List.pairwise_map.mp hpids).imp ?_
    intro p q hne r hr hr'
    obtain ⟨t, -, rfl⟩ := List.mem_map.mp hr
    obtain ⟨t', -, heq⟩ := List.mem_map.mp hr'
    exact hne (congrArg Prod.fst heq).symm

/-- For such kernels the one question is whether a slot is left over. -/
theorem slotsFresh_iff_vacant (hkeys : KeysConsistent k) :
    SlotsFresh k ↔
      ∀ i : Fin CORE_COUNT, (runnable k).length ≤ i.val → k.runningOn.get i = none := by
  refine ⟨SlotsFresh.vacant, fun hvacant => ⟨hvacant, ?_, ?_⟩⟩
  · exact (List.take_sublist _ _).nodup (runnable_nodup hkeys)
  · intro r hr t ht
    have hmem : r ∈ runnable k := List.mem_of_mem_take hr
    obtain ⟨p, hp, hr'⟩ := List.mem_flatMap.mp hmem
    obtain ⟨t', ht', rfl⟩ := List.mem_map.mp hr'
    obtain ⟨hval, hrun⟩ := List.mem_filter.mp ht'
    obtain ⟨pid, hget⟩ := (HashMap.mem_values _ _).mp hp
    obtain ⟨tid, hget'⟩ := (HashMap.mem_values _ _).mp hval
    have hpid : p.pid = pid := hkeys.process pid p hget
    have htid : t'.id = tid := hkeys.thread pid p tid t' hget hget'
    have hthread : threadAt k (p.pid, t'.id) = some t' := by
      unfold threadAt Kernel.thread
      rw [hpid, htid, hget]
      exact hget'
    rw [hthread, Option.some.injEq] at ht
    subst ht
    exact of_decide_eq_true hrun

/-! ## The condition -/

/-- **A step runs exactly the threads it selected if and only if no slot is left over.**
SOURCE: core/src/sys/kernel.rs:122-174 -/
theorem step_runsSelected_iff (b : Build) (emu : Emulator) (k k' : Kernel)
    (h : k.step b emu = .ok k') : RunsSelected k k' ↔ SlotsFresh k :=
  ⟨slotsFresh_of_runsSelected h, runsSelected_of_slotsFresh h⟩

/-- A new kernel with one process of one thread, and what an earlier step left in the slot
of core 0. -/
def soloKernel (state : ThreadState) (left : Option ThreadRef) : Kernel :=
  { Kernel.new with
    processes := ⟨[(1, { Process.new 1 "app" 0x1000 0x1000 with
      threads := ⟨[(1, { Thread.new 1 1 0x1000 0x2000 with state := state })], by simp⟩
      nextThreadId := 2 })], by simp⟩
    runningOn := put (Vector.replicate CORE_COUNT none) 0 left }

/-- The step of a kernel with one ready thread. -/
theorem step_runsSelected_iff_ready :
    ∃ k', (soloKernel .ready none).step .release stuckEmulator = .ok k' ∧
      (RunsSelected (soloKernel .ready none) k' ↔ SlotsFresh (soloKernel .ready none)) := by
  obtain ⟨k', hk'⟩ := step_returns (b := .release) stuckEmulator (k := soloKernel .ready none)
    (fun h => by cases h.1)
  exact ⟨k', hk', step_runsSelected_iff .release stuckEmulator (soloKernel .ready none) k' hk'⟩

/-- A thread that ran in an earlier step and waits now is executed again. -/
theorem waiting_thread_is_executed :
    ∃ k', (soloKernel .waiting (some (1, 1))).step .release stuckEmulator = .ok k' ∧
      ¬ RunsSelected (soloKernel .waiting (some (1, 1))) k' ∧
      (threadAt k' (1, 1)).map (fun t => t.state) = some .running := by
  obtain ⟨k', hk'⟩ := step_returns (b := .release) stuckEmulator
    (k := soloKernel .waiting (some (1, 1))) (fun h => by cases h.1)
  have hthread : threadAt (soloKernel .waiting (some (1, 1))) (1, 1) =
      some { Thread.new 1 1 0x1000 0x2000 with state := .waiting } := by
    rfl
  have hslot : slot (soloKernel .waiting (some (1, 1))) 0 = some (1, 1) := by
    rfl
  refine ⟨k', hk', ?_, ?_⟩
  · intro hruns
    obtain ⟨habsent, -⟩ := hruns.parked (1, 1) _ hthread (.inl rfl)
    have hpresent := step_slot hk' 0
    rw [hslot] at hpresent
    exact habsent 0 hpresent
  · obtain ⟨m, hexec, hsave⟩ := step_eq_ok hk'
    have hleft : m.runningOn.get 0 = some (1, 1) := by
      rw [executed_slot hexec, hslot]
    rw [hsave, step_thread hexec, hthread, Option.map_some, Option.map_some, saves_state hleft]

end Oboromi.Analysis
