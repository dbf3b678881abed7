import Oboromi.Analysis.SchedulerRounds
import Oboromi.Analysis.SvcOutputs
import Oboromi.Interface.Traps

/-!
# Traps leave no trace

The answer of a supervisor call goes into the registers of a core, and no thread is saved there:
the board of the threads does not show it (`svc_unseen`).  The next timeslice loads every core it
runs from a saved thread, so the answer is overwritten before an instruction could read it.  An
event of a run is then a round or nothing, and the result follows by induction over the events.
-/

set_option autoImplicit false

namespace Oboromi.Analysis

open Oboromi.Lib Oboromi.Model Oboromi.Interface

/-! ## One trap -/

/-- Two kernels that differ in general-purpose registers of cores at most. -/
structure Unseen (k k' : Kernel) : Prop where
  processes : k'.processes = k.processes
  runningOn : k'.runningOn = k.runningOn
  nextPid : k'.nextPid = k.nextPid
  board : board k' = board k

/-- An answered call leaves the flags and the thread pointer alone. -/
theorem answered_leftover (now : ℕ) (id : UInt8) (core : UnicornCPU) :
    (answered now id core).regs.pstate = core.regs.pstate ∧
      (answered now id core).regs.tpidrEl0 = core.regs.tpidrEl0 := ⟨rfl, rfl⟩

/-- A trap is answered on a core, and no thread sees it. -/
theorem svc_unseen {now coreId : ℕ} {svcNum : UInt8} {k k' : Kernel}
    (h : k.handleSvc now coreId svcNum = .ok k') : coreId < CORE_COUNT ∧ Unseen k k' := by
  have hcore : coreId < CORE_COUNT := by
    by_contra hnot
    unfold Kernel.handleSvc at h
    rw [dif_neg hnot] at h
    cases h
  have hanswer := handleSvc_eq now k ⟨coreId, hcore⟩ svcNum
  rw [h] at hanswer
  cases hanswer
  refine ⟨hcore, rfl, rfl, rfl, ?_⟩
  apply Board.ext
  · rfl
  · funext i
    rw [board_leftover, board_leftover]
    by_cases hi : i = ⟨coreId, hcore⟩
    · obtain ⟨hpstate, htpidr⟩ := answered_leftover now svcNum (k.cpu.cores.get i)
      rw [← hi, get_put_self, hpstate, htpidr]
    · rw [get_put_of_ne _ _ hi]
  · rfl

/-- A call returns exactly on a core that exists. -/
theorem svc_returns_iff (now coreId : ℕ) (svcNum : UInt8) (k : Kernel) :
    (∃ k', k.handleSvc now coreId svcNum = .ok k') ↔ coreId < CORE_COUNT := by
  constructor
  · rintro ⟨k', h⟩
    exact (svc_unseen h).1
  · intro hcore
    exact ⟨_, handleSvc_eq now k ⟨coreId, hcore⟩ svcNum⟩

section Unseen

variable {k k' : Kernel} (h : Unseen k k')

include h

/-- What is unseen changes no thread. -/
theorem Unseen.threadAt (r : ThreadRef) : threadAt k' r = threadAt k r :=
  threadAt_congr h.processes r

/-- What is unseen changes no runnable thread. -/
theorem Unseen.runnable : runnable k' = runnable k := by
  unfold Interface.runnable
  rw [h.processes]

/-- What is unseen changes no selection. -/
theorem Unseen.selected : selected k' = selected k := by
  unfold Interface.selected
  rw [h.runnable]

/-- What is unseen keeps the keys consistent. -/
theorem Unseen.keysConsistent (hk : KeysConsistent k) : KeysConsistent k' where
  process := by
    rw [h.processes]
    exact hk.process
  thread := by
    rw [h.processes]
    exact hk.thread

/-- What is unseen keeps the slots fresh. -/
theorem Unseen.slotsFresh (hk : SlotsFresh k) : SlotsFresh k' where
  vacant := by
    rw [h.runnable, h.runningOn]
    exact hk.vacant
  distinct := by
    rw [h.selected]
    exact hk.distinct
  runnable := by
    intro r hr t ht
    rw [h.selected] at hr
    rw [h.threadAt] at ht
    exact hk.runnable r hr t ht

/-- What is unseen keeps the kernel tidy. -/
theorem Unseen.tidy (hk : Tidy k) : Tidy k' where
  peopled := by
    refine ⟨?_, ?_, ?_, ?_⟩
    · rw [h.processes, h.nextPid]
      exact hk.peopled.counter
    · rw [h.processes]
      exact hk.peopled.room
    · rw [h.processes]
      exact hk.peopled.pids
    · rw [h.processes]
      exact hk.peopled.process
  allRunnable := by
    intro r t ht
    rw [h.threadAt] at ht
    exact hk.allRunnable r t ht
  vacant := by
    rw [h.runnable, h.runningOn]
    exact hk.vacant

end Unseen

/-! ## Runs -/

/-- Traps keep what the calls keep. -/
theorem reachedTrapping_tidy {b : Build} {emu : Emulator} {k : Kernel}
    (h : ReachedTrapping b emu k) : Tidy k := by
  induction h with
  | new => exact tidy_new
  | call c _ hcall ih => exact call_tidy hcall ih
  | svc now coreId svcNum _ hsvc ih => exact (svc_unseen hsvc).2.tidy ih
  | reordered _ hsame ih => exact reordered_tidy hsame ih

/-- A step is one time slice. -/
theorem timeslices_step (events : List KernelEvent) :
    timeslices (.step :: events) = timeslices events + 1 := List.countP_cons_of_pos rfl

/-- A call takes no time slice. -/
theorem timeslices_svc (now coreId : ℕ) (svcNum : UInt8) (events : List KernelEvent) :
    timeslices (.svc now coreId svcNum :: events) = timeslices events :=
  List.countP_cons_of_neg Bool.false_ne_true

section Events

variable {b : Build} {emu : Emulator} {k : Kernel} (hkeys : KeysConsistent k)
  (hfresh : SlotsFresh k)

include hkeys hfresh

/-- By induction on the events: a timeslice is a round, a trap is nothing. -/
theorem happenAll_rounds {events : List KernelEvent} {k' : Kernel}
    (h : happenAll b emu k events = .ok k') :
    board k' = (threadRound emu (selected k))^[timeslices events] (board k) ∧
      runnable k' = runnable k ∧ ∀ r ∉ selected k, threadAt k' r = threadAt k r := by
  induction events generalizing k with
  | nil =>
      cases h
      exact ⟨rfl, rfl, fun _ _ => rfl⟩
  | cons e events ih =>
      obtain ⟨k₁, hevent, hrest⟩ := foldlM_cons_eq_ok h
      cases e with
      | step =>
          have hevent : k.step b emu = .ok k₁ := hevent
          have hselected := step_selected hkeys hfresh hevent
          obtain ⟨hboard, hrunnable, hthreads⟩ :=
            ih (keysConsistent_of_kept (step_kept hevent) hkeys) (step_fresh hkeys hfresh hevent)
              hrest
          rw [hselected, step_round hkeys hfresh hevent] at hboard
          refine ⟨?_, hrunnable.trans (step_runnable hkeys hfresh hevent), ?_⟩
          · rw [hboard, timeslices_step, Function.iterate_succ_apply]
          · intro r hr
            rw [hthreads r (by rwa [hselected])]
            apply step_thread_of_absent hevent
            intro i hi
            rw [slot_eq_seating hfresh] at hi
            exact hr (mem_of_seating hi)
      | svc now coreId svcNum =>
          obtain ⟨-, hunseen⟩ := svc_unseen hevent
          obtain ⟨hboard, hrunnable, hthreads⟩ :=
            ih (hunseen.keysConsistent hkeys) (hunseen.slotsFresh hfresh) hrest
          rw [hunseen.selected, hunseen.board] at hboard
          refine ⟨?_, hrunnable.trans hunseen.runnable, ?_⟩
          · rw [hboard, timeslices_svc]
          · intro r hr
            rw [hthreads r (by rwa [hunseen.selected]), hunseen.threadAt]

/-- A run returns exactly as long as every trap is on a core and no timeslice overruns. -/
theorem happenAll_returns_iff (events : List KernelEvent) :
    (∃ k', happenAll b emu k events = .ok k') ↔
      (∀ e ∈ events, e.OnCore) ∧ ∀ j < timeslices events,
        ¬ Overruns b (selected k) ((threadRound emu (selected k))^[j] (board k)) := by
  induction events generalizing k with
  | nil =>
      refine ⟨fun _ => ⟨?_, fun j hj => absurd hj (Nat.not_lt_zero j)⟩, fun _ => ⟨k, rfl⟩⟩
      intro e he
      cases he
  | cons e events ih =>
      rw [List.forall_mem_cons]
      cases e with
      | step =>
          have hkeys' {k₁ : Kernel} (hstep : k.step b emu = .ok k₁) :=
            keysConsistent_of_kept (step_kept hstep) hkeys
          rw [timeslices_step]
          constructor
          · rintro ⟨k', h⟩
            obtain ⟨k₁, hstep, hrest⟩ := foldlM_cons_eq_ok h
            have hstep : k.step b emu = .ok k₁ := hstep
            obtain ⟨hcores, hlater⟩ :=
              (ih (hkeys' hstep) (step_fresh hkeys hfresh hstep)).mp ⟨k', hrest⟩
            rw [step_selected hkeys hfresh hstep, step_round hkeys hfresh hstep] at hlater
            refine ⟨⟨trivial, hcores⟩, ?_⟩
            intro j hj
            cases j with
            | zero => exact (step_returns_iff hkeys hfresh).mp ⟨k₁, hstep⟩
            | succ j =>
                rw [Function.iterate_succ_apply]
                exact hlater j (Nat.lt_of_succ_lt_succ hj)
          · rintro ⟨⟨-, hcores⟩, h⟩
            obtain ⟨k₁, hstep⟩ : ∃ k₁, k.step b emu = .ok k₁ :=
              (step_returns_iff hkeys hfresh).mpr (h 0 (Nat.succ_pos _))
            have hlater : ∀ j < timeslices events, ¬ Overruns b (selected k₁)
                ((threadRound emu (selected k₁))^[j] (board k₁)) := by
              intro j hj
              rw [step_selected hkeys hfresh hstep, step_round hkeys hfresh hstep,
                ← Function.iterate_succ_apply]
              exact h (j + 1) (Nat.succ_lt_succ hj)
            obtain ⟨k', hrest⟩ :=
              (ih (hkeys' hstep) (step_fresh hkeys hfresh hstep)).mpr ⟨hcores, hlater⟩
            refine ⟨k', ?_⟩
            unfold happenAll
            rw [List.foldlM_cons, happen, hstep]
            exact hrest
      | svc now coreId svcNum =>
          rw [timeslices_svc]
          constructor
          · rintro ⟨k', h⟩
            obtain ⟨k₁, hsvc, hrest⟩ := foldlM_cons_eq_ok h
            obtain ⟨hcore, hunseen⟩ := svc_unseen hsvc
            obtain ⟨hcores, hlater⟩ :=
              (ih (hunseen.keysConsistent hkeys) (hunseen.slotsFresh hfresh)).mp ⟨k', hrest⟩
            rw [hunseen.selected, hunseen.board] at hlater
            exact ⟨⟨hcore, hcores⟩, hlater⟩
          · rintro ⟨⟨hcore, hcores⟩, h⟩
            obtain ⟨k₁, hsvc⟩ := (svc_returns_iff now coreId svcNum k).mpr hcore
            obtain ⟨-, hunseen⟩ := svc_unseen hsvc
            rw [← hunseen.selected, ← hunseen.board] at h
            obtain ⟨k', hrest⟩ :=
              (ih (hunseen.keysConsistent hkeys) (hunseen.slotsFresh hfresh)).mpr ⟨hcores, h⟩
            refine ⟨k', ?_⟩
            unfold happenAll
            rw [List.foldlM_cons, happen, hsvc]
            exact hrest

end Events

/-- **No thread ever sees the answer of a supervisor call that is handled between timeslices.**  For
every kernel that calls and traps reach, any run of timeslices and traps leaves the threads, the
leftovers of the cores and the memory that the timeslices alone leave, and returns as long as they
do and every trap is on a core.
SOURCE: core/src/sys/kernel.rs:122-197 -/
theorem traps_vanish (b : Build) (emu : Emulator) (k : Kernel) (h : ReachedTrapping b emu k) :
    TrapsVanish b emu k := by
  have htidy := reachedTrapping_tidy h
  have hkeys := htidy.peopled.keysConsistent
  exact ⟨fun events => happenAll_returns_iff hkeys htidy.fresh events,
    fun _ _ hrun => (happenAll_rounds hkeys htidy.fresh hrun).1,
    fun _ _ hrun => (happenAll_rounds hkeys htidy.fresh hrun).2.1,
    fun _ _ hrun => (happenAll_rounds hkeys htidy.fresh hrun).2.2⟩

/-- A kernel on which a trap was handled before. -/
theorem traps_vanish_trapped :
    ∃ k, Kernel.new.handleSvc 5200 3 0x1E = .ok k ∧ TrapsVanish .debug stuckEmulator k := by
  have hsvc := handleSvc_eq 5200 Kernel.new 3 0x1E
  exact ⟨_, hsvc, traps_vanish .debug stuckEmulator _ (.svc 5200 3 0x1E .new hsvc)⟩

end Oboromi.Analysis
