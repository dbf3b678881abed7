import Oboromi.Analysis.ObjectTable
import Oboromi.Analysis.SchedulerProgress
import Oboromi.Interface.VirtualCores

/-!
# What holds of every kernel the calls reach

No call parks a thread or takes one away, and only a step fills slots, for threads it found.  So
every thread is a candidate, the candidates only become more, and a core past the last of them
never had a thread (`reached_tidy`).  The order in which the maps iterate does not matter.
-/

set_option autoImplicit false

namespace Oboromi.Analysis

open Oboromi.Lib Oboromi.Model Oboromi.Interface

/-- A peopled kernel's keys are consistent. -/
theorem Peopled.keysConsistent {k : Kernel} (h : Peopled k) : KeysConsistent k := by
  refine ⟨fun pid p hp => (h.process pid p hp).pid_eq, ?_⟩
  intro pid p tid t hp ht
  exact ((h.process pid p hp).thread tid t ht).1

/-- A candidate is a stored thread that may run. -/
theorem exists_thread_of_runnable {k : Kernel} (hkeys : KeysConsistent k) {r : ThreadRef}
    (hr : r ∈ runnable k) : ∃ t, threadAt k r = some t ∧ Runnable t := by
  obtain ⟨p, hp, hr⟩ := List.mem_flatMap.mp hr
  obtain ⟨t, ht, rfl⟩ := List.mem_map.mp hr
  obtain ⟨hval, hrun⟩ := List.mem_filter.mp ht
  obtain ⟨pid, hpid⟩ := (HashMap.mem_values _ _).mp hp
  obtain ⟨tid, htid⟩ := (HashMap.mem_values _ _).mp hval
  refine ⟨t, ?_, of_decide_eq_true hrun⟩
  unfold threadAt Kernel.thread
  rw [hkeys.process pid p hpid, hkeys.thread pid p tid t hpid htid, hpid]
  exact htid

/-- Every thread is one the scheduler may run. -/
def AllRunnable (k : Kernel) : Prop := ∀ r t, threadAt k r = some t → Runnable t

/-- More threads, all of which may run, are more candidates. -/
theorem length_runnable_le {k k' : Kernel} (hkeys : KeysConsistent k)
    (hkeys' : KeysConsistent k') (hrun' : AllRunnable k')
    (hmore : ∀ r, (threadAt k r).isSome → (threadAt k' r).isSome) :
    (runnable k).length ≤ (runnable k').length := by
  refine (List.subperm_of_subset (runnable_nodup hkeys) ?_).length_le
  intro r hr
  obtain ⟨t, ht, -⟩ := exists_thread_of_runnable hkeys hr
  obtain ⟨t', ht'⟩ := Option.isSome_iff_exists.mp (hmore r (by rw [ht]; rfl))
  exact mem_runnable hkeys' ht' (hrun' r t' ht')

/-! ## One call -/

/-- A call takes no thread away. -/
theorem effect_threads {s s' : Session} (h : StepEffect s s') (hs : Peopled s.kernel)
    {r : ThreadRef} (hr : (threadAt s.kernel r).isSome) : (threadAt s'.kernel r).isSome := by
  cases h with
  | same hprocesses _ _ _ _ => rwa [threadAt_isSome_of_sameIds hprocesses]
  | process name base size _ hresult =>
      subst hresult
      show (Option.bind _ _).isSome
      rwa [threadAt_insert_new hs.fresh]
  | thread pid p t hp _ _ _ hresult =>
      subst hresult
      show (Option.bind _ _).isSome
      rw [threadAt_insert_thread hp]
      split
      · rfl
      · exact hr

section Running

variable {b : Build} {k k' : Kernel}

/-- A thread found after creating one was there before or is ready. -/
theorem process_createMainThread_ready {p p' : Process} {entry top : UInt64} {tid : ThreadId}
    (h : p.createMainThread b entry top = .ok (tid, p')) {tid' : ThreadId} {t : Thread}
    (ht : p'.threads.get tid' = some t) : p.threads.get tid' = some t ∨ t.state = .ready := by
  unfold Process.createMainThread at h
  obtain ⟨next, -, h⟩ := bind_eq_ok h
  obtain ⟨threads, hinsert, h⟩ := bind_eq_ok h
  obtain ⟨rfl, -⟩ := HashMap.tryInsert_eq_ok hinsert
  cases h
  have ht : (p.threads.insert p.nextThreadId _).get tid' = some t := ht
  rw [HashMap.get_insert] at ht
  split at ht
  · cases ht
    exact .inr rfl
  · exact .inl ht

/-- A thread that is created is ready at once. -/
theorem createMainThread_runnable {pid : ProcessId} {entry top : UInt64}
    {made : Option (Handle × ThreadId)} (hk : AllRunnable k)
    (h : k.createMainThread b pid entry top = .ok (made, k')) : AllRunnable k' := by
  intro r t ht
  cases hp : k.processes.get pid with
  | none =>
      rw [createMainThread_of_unknown hp] at h
      cases h
      exact hk r t ht
  | some p =>
      unfold Kernel.createMainThread at h
      rw [hp] at h
      obtain ⟨⟨tid, p'⟩, hthread, h⟩ := bind_eq_ok h
      obtain ⟨⟨handle, k₁⟩, halloc, h⟩ := bind_eq_ok h
      obtain ⟨rfl, rfl⟩ := allocHandle_eq_ok halloc
      cases h
      have ht : ((k.processes.modify pid fun _ => p').get r.1).bind
          (fun p => p.threads.get r.2) = some t := ht
      obtain ⟨q, hq, hget⟩ := Option.bind_eq_some_iff.mp ht
      rw [HashMap.get_modify] at hq
      obtain ⟨q₀, hq₀, rfl⟩ := Option.map_eq_some_iff.mp hq
      by_cases hpid : r.1 = pid
      · rw [if_pos hpid] at hget
        rcases process_createMainThread_ready hthread hget with hold | hready
        · apply hk r t
          unfold threadAt Kernel.thread
          rw [hpid, hp]
          exact hold
        · exact .inl hready
      · rw [if_neg hpid] at hget
        apply hk r t
        unfold threadAt Kernel.thread
        rw [hq₀]
        exact hget

/-- Threads that were kept may run as before. -/
theorem allRunnable_of_sameIds (h : HashMap.Rel SameIds k.processes k'.processes)
    (hk : AllRunnable k) : AllRunnable k' := by
  intro r t' ht'
  unfold threadAt Kernel.thread at ht'
  obtain ⟨p', hp', ht'⟩ := Option.bind_eq_some_iff.mp ht'
  obtain ⟨p, hp, hsame⟩ := h.exists_of_get hp'
  obtain ⟨t, ht, hkept⟩ := hsame.threads.exists_of_get ht'
  apply runnable_of_kept hkept
  apply hk r t
  unfold threadAt Kernel.thread
  rw [hp]
  exact ht

end Running

/-- No call parks a thread. -/
theorem call_runnable {b : Build} {emu : Emulator} {s s' : Session} {c : KernelCall}
    (h : s.call b emu c = .ok s') (hs : Peopled s.kernel) (hrun : AllRunnable s.kernel) :
    AllRunnable s'.kernel := by
  cases c with
  | createProcess name base size =>
      obtain ⟨⟨pid, k'⟩, hcreate, h⟩ := bind_eq_ok h
      obtain ⟨rfl, rfl, -⟩ := createProcess_eq_ok hcreate
      cases h
      intro r t ht
      have ht : Option.bind _ _ = some t := ht
      rw [threadAt_insert_new hs.fresh] at ht
      exact hrun r t ht
  | createMainThread pid entry top =>
      obtain ⟨⟨made, k'⟩, hcreate, h⟩ := bind_eq_ok h
      cases h
      exact createMainThread_runnable hrun hcreate
  | mapProcessMemory pid base size perm state =>
      cases h
      apply allRunnable_of_sameIds _ hrun
      apply HashMap.rel_modify SameIds.refl
      intro p
      exact ⟨rfl, rfl, HashMap.Rel.refl ThreadKept.refl p.threads⟩
  | registerPort name handle =>
      obtain ⟨k', hregister, h⟩ := bind_eq_ok h
      cases h
      cases registerPort_eq_ok hregister
      exact hrun
  | step =>
      obtain ⟨k', hstep, h⟩ := bind_eq_ok h
      cases h
      have hsame := (step_kept hstep).processes.mono fun _ _ => sameIds_of_kept
      exact allRunnable_of_sameIds hsame hrun

/-- Only a step fills slots. -/
theorem call_slots {b : Build} {emu : Emulator} {s s' : Session} {c : KernelCall}
    (h : s.call b emu c = .ok s') (i : Fin CORE_COUNT) :
    s'.kernel.runningOn.get i = s.kernel.runningOn.get i ∨
      s'.kernel.runningOn.get i = slot s.kernel i := by
  cases c with
  | createProcess name base size =>
      obtain ⟨⟨pid, k'⟩, hcreate, h⟩ := bind_eq_ok h
      obtain ⟨rfl, rfl, -⟩ := createProcess_eq_ok hcreate
      cases h
      exact .inl rfl
  | createMainThread pid entry top =>
      obtain ⟨⟨made, k'⟩, hcreate, h⟩ := bind_eq_ok h
      cases h
      rcases createMainThread_cases hcreate with ⟨-, -, rfl⟩ | ⟨p, t, -, -, -, -, rfl, -⟩
      · exact .inl rfl
      · exact .inl rfl
  | mapProcessMemory pid base size perm state =>
      cases h
      exact .inl rfl
  | registerPort name handle =>
      obtain ⟨k', hregister, h⟩ := bind_eq_ok h
      cases h
      cases registerPort_eq_ok hregister
      exact .inl rfl
  | step =>
      obtain ⟨k', hstep, h⟩ := bind_eq_ok h
      cases h
      exact .inr (step_slot hstep i)

/-! ## Other orders -/

section Orders

variable {k k' : Kernel} (h : Reordered k k')

include h

/-- Reordering the maps changes no thread. -/
theorem reordered_threadAt (r : ThreadRef) : threadAt k' r = threadAt k r := by
  unfold threadAt Kernel.thread
  have hprocess := h.processes r.1
  generalize k.processes.get r.1 = p at hprocess
  generalize k'.processes.get r.1 = p' at hprocess
  cases hprocess with
  | none => rfl
  | some hp => exact hp.threads r.2

/-- Reordering the maps changes no process's own data. -/
theorem reordered_process {pid : ProcessId} {p' : Process}
    (hp' : k'.processes.get pid = some p') :
    ∃ p, k.processes.get pid = some p ∧ SameProcess p p' := by
  have hprocess := h.processes pid
  rw [hp'] at hprocess
  generalize k.processes.get pid = p at hprocess ⊢
  cases hprocess with
  | some hp => exact ⟨_, rfl, hp⟩

/-- Reordering the maps adds and removes no process. -/
theorem reordered_isSome (pid : ProcessId) :
    (k'.processes.get pid).isSome = (k.processes.get pid).isSome := by
  have hprocess := h.processes pid
  generalize k.processes.get pid = p at hprocess
  generalize k'.processes.get pid = p' at hprocess
  cases hprocess <;> rfl

/-- A reordered kernel is still peopled. -/
theorem reordered_peopled (hk : Peopled k) : Peopled k' := by
  have hlen : k'.processes.entries.length = k.processes.entries.length :=
    HashMap.length_eq_of_isSome_get (reordered_isSome h)
  refine ⟨?_, ?_, ?_, ?_⟩
  · rw [h.fields, hlen]
    exact hk.counter
  · rw [hlen]
    exact hk.room
  · intro pid
    rw [reordered_isSome h, hlen]
    exact hk.pids pid
  · intro pid p' hp'
    obtain ⟨p, hp, hsame⟩ := reordered_process h hp'
    have hbooked := hk.process pid p hp
    have hthreads : p'.threads.entries.length = p.threads.entries.length :=
      HashMap.length_eq_of_isSome_get fun tid => by rw [hsame.threads]
    refine ⟨?_, ?_, ?_, ?_⟩
    · rw [hsame.fields]
      exact hbooked.pid_eq
    · rw [hthreads, hsame.fields]
      exact hbooked.counter
    · rw [hthreads]
      exact hbooked.room
    · intro tid t ht
      rw [hsame.threads] at ht
      rw [hsame.fields]
      exact hbooked.thread tid t ht

end Orders

/-! ## Runs -/

/-- The ids are numbered, every thread may run, and a core past the last candidate is idle. -/
structure Tidy (k : Kernel) : Prop where
  peopled : Peopled k
  allRunnable : AllRunnable k
  vacant : ∀ i : Fin CORE_COUNT, (runnable k).length ≤ i.val → k.runningOn.get i = none

/-- A tidy kernel has fresh slots. -/
theorem Tidy.fresh {k : Kernel} (h : Tidy k) : SlotsFresh k :=
  (slotsFresh_iff_vacant h.peopled.keysConsistent).mpr h.vacant

/-- A new kernel is tidy. -/
theorem tidy_new : Tidy Kernel.new where
  peopled := peopled_new
  allRunnable := by
    intro r t ht
    cases ht
  vacant := by
    intro i _
    exact Vector.getElem_replicate i.isLt

/-- Every call keeps the kernel tidy. -/
theorem call_tidy {b : Build} {emu : Emulator} {s s' : Session} {c : KernelCall}
    (h : s.call b emu c = .ok s') (hs : Tidy s.kernel) : Tidy s'.kernel := by
  have heffect := call_effect h
  have hpeopled := effect_peopled heffect hs.peopled
  have hrun := call_runnable h hs.peopled hs.allRunnable
  refine ⟨hpeopled, hrun, ?_⟩
  intro i hlen
  have hbefore : (runnable s.kernel).length ≤ i.val :=
    (length_runnable_le hs.peopled.keysConsistent hpeopled.keysConsistent hrun
      fun r hr => effect_threads heffect hs.peopled hr).trans hlen
  rcases call_slots h i with hsame | hslot
  · rw [hsame]
    exact hs.vacant i hbefore
  · rw [hslot, slot_of_length_le hbefore]
    exact hs.vacant i hbefore

/-- Reordering the maps keeps the kernel tidy. -/
theorem reordered_tidy {k k' : Kernel} (h : Reordered k k') (hk : Tidy k) : Tidy k' := by
  have hpeopled := reordered_peopled h hk.peopled
  have hrun : AllRunnable k' := by
    intro r t ht
    rw [reordered_threadAt h] at ht
    exact hk.allRunnable r t ht
  refine ⟨hpeopled, hrun, ?_⟩
  intro i hlen
  rw [h.fields]
  apply hk.vacant i
  refine (length_runnable_le hk.peopled.keysConsistent hpeopled.keysConsistent hrun ?_).trans hlen
  intro r hr
  rwa [reordered_threadAt h]

/-- By induction on how the kernel was reached. -/
theorem reached_tidy {b : Build} {emu : Emulator} {k : Kernel} (h : Reached b emu k) : Tidy k := by
  induction h with
  | new => exact tidy_new
  | call c _ hcall ih => exact call_tidy hcall ih
  | reordered _ hsame ih => exact reordered_tidy hsame ih

/-- The calls of a run reach its kernel. -/
theorem reached_of_run {b : Build} {emu : Emulator} {calls : List KernelCall} {s s' : Session}
    (hs : Reached b emu s.kernel) (h : s.run b emu calls = .ok s') : Reached b emu s'.kernel := by
  let Inv : Session → Prop := fun s => Reached b emu s.kernel
  have hstep : ∀ c ∈ calls, ∀ s s', Inv s → s.call b emu c = .ok s' → Inv s' :=
    fun c _ _ _ hs hcall => .call c hs hcall
  exact foldlM_invariant calls hstep hs h

end Oboromi.Analysis
