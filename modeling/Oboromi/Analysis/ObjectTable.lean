import Oboromi.Interface.KernelRuns
import Oboromi.Analysis.SchedulerSlots
import Oboromi.Analysis.StepFrame

/-!
# The object tables of a kernel stay consistent

Ids and handles are counters.  A counter is fresh as long as it has not wrapped: the number
of entries of the table it numbers is its distance from where it started (`Numbered`), and a
host map runs out of room before a 64-bit counter wraps, so only the handles need a bound on
the run.  The invariant (`Booked`) adds what the tables say about each other; each call keeps
it, and a whole run does by the invariant rule.
-/

set_option autoImplicit false

namespace Oboromi.Analysis

open Oboromi.Lib Oboromi.Model Oboromi.Interface

/-! ## What one call does -/

section Calls

variable {b : Build} {k k' : Kernel}

/-- What `create_process` does when it returns. -/
theorem createProcess_eq_ok {name : String} {base size : UInt64} {pid : ProcessId}
    (h : k.createProcess b name base size = .ok (pid, k')) :
    pid = k.nextPid ∧
    k' = { k with
      nextPid := k.nextPid + 1
      processes := k.processes.insert pid (Process.new pid name base size) } ∧
    ((k.processes.get pid).isSome ∨ k.processes.entries.length + 1 < 2 ^ 63) := by
  unfold Kernel.createProcess at h
  obtain ⟨next, hnext, h⟩ := bind_eq_ok h
  obtain ⟨processes, hinsert, h⟩ := bind_eq_ok h
  obtain ⟨rfl, hroom⟩ := HashMap.tryInsert_eq_ok hinsert
  cases h
  rw [Build.eq_add_of_addU64 hnext]
  exact ⟨rfl, rfl, hroom⟩

/-- What `alloc_handle` does when it returns. -/
theorem allocHandle_eq_ok {pid : ProcessId} {tid : ThreadId} {handle : Handle}
    (h : k.allocHandle b pid tid = .ok (handle, k')) :
    handle = k.nextHandle ∧
    k' = { k with
      nextHandle := k.nextHandle + 1
      handleTable := k.handleTable.insert handle (pid, tid) } := by
  unfold Kernel.allocHandle at h
  obtain ⟨next, hnext, h⟩ := bind_eq_ok h
  obtain ⟨table, hinsert, h⟩ := bind_eq_ok h
  obtain ⟨rfl, -⟩ := HashMap.tryInsert_eq_ok hinsert
  cases h
  rw [Build.eq_add_of_addU32 hnext]
  exact ⟨rfl, rfl⟩

/-- What creating a process's main thread does when it returns. -/
theorem process_createMainThread_eq_ok {p p' : Process} {entry top : UInt64} {tid : ThreadId}
    (h : p.createMainThread b entry top = .ok (tid, p')) :
    tid = p.nextThreadId ∧
    ∃ t : Thread, t.id = tid ∧ t.ownerPid = p.pid ∧
      p' = { p with nextThreadId := p.nextThreadId + 1, threads := p.threads.insert tid t } ∧
      ((p.threads.get tid).isSome ∨ p.threads.entries.length + 1 < 2 ^ 63) := by
  unfold Process.createMainThread at h
  obtain ⟨next, hnext, h⟩ := bind_eq_ok h
  obtain ⟨threads, hinsert, h⟩ := bind_eq_ok h
  obtain ⟨rfl, hroom⟩ := HashMap.tryInsert_eq_ok hinsert
  cases h
  rw [Build.eq_add_of_addU64 hnext]
  exact ⟨rfl, _, rfl, rfl, rfl, hroom⟩

/-- For an unknown process there is nothing to create and nothing changes. -/
theorem createMainThread_of_unknown {pid : ProcessId} (h : k.processes.get pid = none)
    (entry top : UInt64) : k.createMainThread b pid entry top = .ok (none, k) := by
  unfold Kernel.createMainThread
  rw [h]
  rfl

/-- What `create_main_thread` does to the kernel when it returns. -/
theorem createMainThread_eq_ok {pid : ProcessId} {p : Process} {entry top : UInt64}
    {made : Option (Handle × ThreadId)} (hp : k.processes.get pid = some p)
    (h : k.createMainThread b pid entry top = .ok (made, k')) :
    made = some (k.nextHandle, p.nextThreadId) ∧
    ∃ t : Thread, t.id = p.nextThreadId ∧ t.ownerPid = p.pid ∧
      k' = { k with
        processes := k.processes.modify pid fun _ => { p with
          nextThreadId := p.nextThreadId + 1
          threads := p.threads.insert p.nextThreadId t }
        nextHandle := k.nextHandle + 1
        handleTable := k.handleTable.insert k.nextHandle (pid, p.nextThreadId) } ∧
      ((p.threads.get p.nextThreadId).isSome ∨ p.threads.entries.length + 1 < 2 ^ 63) := by
  unfold Kernel.createMainThread at h
  rw [hp] at h
  obtain ⟨⟨tid, p'⟩, hthread, h⟩ := bind_eq_ok h
  obtain ⟨⟨handle, k₁⟩, halloc, h⟩ := bind_eq_ok h
  obtain ⟨rfl, t, hid, howner, rfl, hroom⟩ := process_createMainThread_eq_ok hthread
  obtain ⟨rfl, rfl⟩ := allocHandle_eq_ok halloc
  cases h
  exact ⟨rfl, t, hid, howner, rfl, hroom⟩

/-- A call for an unknown process changes nothing; another one makes a thread. -/
theorem createMainThread_cases {pid : ProcessId} {entry top : UInt64}
    {made : Option (Handle × ThreadId)}
    (h : k.createMainThread b pid entry top = .ok (made, k')) :
    (k.processes.get pid = none ∧ made = none ∧ k' = k) ∨
      ∃ p t, k.processes.get pid = some p ∧ made = some (k.nextHandle, p.nextThreadId) ∧
        t.id = p.nextThreadId ∧ t.ownerPid = p.pid ∧
        k' = { k with
          processes := k.processes.modify pid fun _ => { p with
            nextThreadId := p.nextThreadId + 1
            threads := p.threads.insert p.nextThreadId t }
          nextHandle := k.nextHandle + 1
          handleTable := k.handleTable.insert k.nextHandle (pid, p.nextThreadId) } ∧
        ((p.threads.get p.nextThreadId).isSome ∨ p.threads.entries.length + 1 < 2 ^ 63) := by
  cases hp : k.processes.get pid with
  | none =>
      rw [createMainThread_of_unknown hp] at h
      cases h
      exact .inl ⟨rfl, rfl, rfl⟩
  | some p =>
      obtain ⟨hmade, t, hid, howner, hk, hroom⟩ := createMainThread_eq_ok hp h
      exact .inr ⟨p, t, rfl, hmade, hid, howner, hk, hroom⟩

/-- What `register_port` does when it returns. -/
theorem registerPort_eq_ok {name : String} {handle : Handle}
    (h : k.registerPort name handle = .ok k') :
    k' = { k with namedPorts := k.namedPorts.insert name handle } := by
  unfold Kernel.registerPort at h
  obtain ⟨ports, hinsert, h⟩ := bind_eq_ok h
  obtain ⟨rfl, -⟩ := HashMap.tryInsert_eq_ok hinsert
  cases h
  rfl

end Calls

/-- A process with the same ids, whose threads were kept. -/
structure SameIds (p p' : Process) : Prop where
  pid : p'.pid = p.pid
  nextThreadId : p'.nextThreadId = p.nextThreadId
  threads : HashMap.Rel ThreadKept p.threads p'.threads

/-- What a call can do to the object tables: leave the ids as they are, add a process under
the next pid, or add a thread under the next id of a process and under the next handle. -/
inductive StepEffect (s s' : Session) : Prop
  | same (processes : HashMap.Rel SameIds s.kernel.processes s'.kernel.processes)
      (nextPid : s'.kernel.nextPid = s.kernel.nextPid)
      (handleTable : s'.kernel.handleTable = s.kernel.handleTable)
      (nextHandle : s'.kernel.nextHandle = s.kernel.nextHandle)
      (created : s'.created = s.created)
  | process (name : String) (base size : UInt64)
      (room : (s.kernel.processes.get s.kernel.nextPid).isSome ∨
        s.kernel.processes.entries.length + 1 < 2 ^ 63)
      (result : s' = { s with kernel := { s.kernel with
        nextPid := s.kernel.nextPid + 1
        processes := s.kernel.processes.insert s.kernel.nextPid
          (Process.new s.kernel.nextPid name base size) } })
  | thread (pid : ProcessId) (p : Process) (t : Thread)
      (known : s.kernel.processes.get pid = some p)
      (id : t.id = p.nextThreadId) (owner : t.ownerPid = p.pid)
      (room : (p.threads.get p.nextThreadId).isSome ∨ p.threads.entries.length + 1 < 2 ^ 63)
      (result : s' = {
        kernel := { s.kernel with
          processes := s.kernel.processes.modify pid fun _ => { p with
            nextThreadId := p.nextThreadId + 1
            threads := p.threads.insert p.nextThreadId t }
          nextHandle := s.kernel.nextHandle + 1
          handleTable := s.kernel.handleTable.insert s.kernel.nextHandle (pid, p.nextThreadId) }
        created := s.created ++ [⟨s.kernel.nextHandle, (pid, p.nextThreadId)⟩] })

/-- A process has its own identifiers. -/
theorem SameIds.refl (p : Process) : SameIds p p :=
  ⟨rfl, rfl, HashMap.Rel.refl ThreadKept.refl p.threads⟩

/-- A process that is kept has the same identifiers. -/
theorem sameIds_of_kept {p p' : Process} (h : ProcessKept p p') : SameIds p p' := by
  refine ⟨?_, ?_, h.threads⟩
  · rw [h.fields]
  · rw [h.fields]

/-- **Every call has one of the three effects.** -/
theorem call_effect {b : Build} {emu : Emulator} {s s' : Session} {c : KernelCall}
    (h : s.call b emu c = .ok s') : StepEffect s s' := by
  have hrefl := HashMap.Rel.refl SameIds.refl s.kernel.processes
  cases c with
  | createProcess name base size =>
      obtain ⟨⟨pid, k'⟩, hcreate, h⟩ := bind_eq_ok h
      obtain ⟨rfl, rfl, hroom⟩ := createProcess_eq_ok hcreate
      cases h
      exact .process name base size hroom rfl
  | createMainThread pid entry top =>
      obtain ⟨⟨made, k'⟩, hcreate, h⟩ := bind_eq_ok h
      rcases createMainThread_cases hcreate with
        ⟨-, rfl, rfl⟩ | ⟨p, t, hp, rfl, hid, howner, rfl, hroom⟩
      · cases h
        exact .same hrefl rfl rfl rfl (List.append_nil _)
      · cases h
        exact .thread pid p t hp hid howner hroom rfl
  | mapProcessMemory pid base size perm state =>
      cases h
      refine .same ?_ rfl rfl rfl rfl
      apply HashMap.rel_modify SameIds.refl
      intro p
      exact ⟨rfl, rfl, HashMap.Rel.refl ThreadKept.refl p.threads⟩
  | registerPort name handle =>
      obtain ⟨k', hregister, h⟩ := bind_eq_ok h
      cases h
      cases registerPort_eq_ok hregister
      exact .same hrefl rfl rfl rfl rfl
  | step =>
      obtain ⟨k', hstep, h⟩ := bind_eq_ok h
      cases h
      have hkept := step_kept hstep
      exact .same (hkept.processes.mono fun _ _ => sameIds_of_kept) hkept.nextPid
        hkept.handleTable hkept.nextHandle rfl

/-! ## Processes and threads under their ids -/

/-- A process under its key, with its threads under their ids. -/
structure ProcessBooked (pid : ProcessId) (p : Process) : Prop where
  pid_eq : p.pid = pid
  counter : p.nextThreadId.toNat = p.threads.entries.length + 1
  room : p.threads.entries.length < 2 ^ 63
  thread : ∀ (tid : ThreadId) (t : Thread), p.threads.get tid = some t →
    t.id = tid ∧ tid < p.nextThreadId ∧ t.ownerPid = pid

/-- Processes under their pids, which are the numbers from 1 below the next pid. -/
structure Peopled (k : Kernel) : Prop where
  counter : k.nextPid.toNat = k.processes.entries.length + 1
  room : k.processes.entries.length < 2 ^ 63
  pids : ∀ pid, (k.processes.get pid).isSome ↔
    1 ≤ pid.toNat ∧ pid.toNat ≤ k.processes.entries.length
  process : ∀ (pid : ProcessId) (p : Process), k.processes.get pid = some p →
    ProcessBooked pid p

/-- The next id is the id of no thread. -/
theorem ProcessBooked.fresh {pid : ProcessId} {p : Process} (h : ProcessBooked pid p) :
    p.threads.get p.nextThreadId = none := by
  cases hget : p.threads.get p.nextThreadId with
  | none => rfl
  | some t =>
      obtain ⟨-, hlt, -⟩ := h.thread _ t hget
      exact absurd hlt (UInt64.lt_irrefl _)

/-- The next process id is not yet taken. -/
theorem Peopled.fresh {k : Kernel} (h : Peopled k) : k.processes.get k.nextPid = none := by
  apply Option.not_isSome_iff_eq_none.mp
  intro hsome
  have hle := ((h.pids _).mp hsome).2
  have hcounter := h.counter
  omega

/-- A new process is booked under its id. -/
theorem processBooked_new (pid : ProcessId) (name : String) (base size : UInt64) :
    ProcessBooked pid (Process.new pid name base size) where
  pid_eq := rfl
  counter := rfl
  room := Nat.two_pow_pos 63
  thread := by
    intro tid t ht
    cases ht

/-- Being booked depends on the identifiers only. -/
theorem processBooked_of_sameIds {pid : ProcessId} {p p' : Process} (h : SameIds p p')
    (hp : ProcessBooked pid p) : ProcessBooked pid p' := by
  have hlen := h.threads.length
  refine ⟨h.pid.trans hp.pid_eq, ?_, ?_, ?_⟩
  · rw [h.nextThreadId, hlen]
    exact hp.counter
  · rw [hlen]
    exact hp.room
  · intro tid t' ht'
    obtain ⟨t, hget, ht⟩ := h.threads.exists_of_get ht'
    rw [ht.fields, h.nextThreadId]
    exact hp.thread tid t hget

/-- A process with one more thread. -/
theorem processBooked_insert {pid : ProcessId} {p : Process} {t : Thread}
    (hp : ProcessBooked pid p) (hid : t.id = p.nextThreadId) (howner : t.ownerPid = p.pid)
    (hroom : p.threads.entries.length + 1 < 2 ^ 63) :
    ProcessBooked pid { p with
      nextThreadId := p.nextThreadId + 1
      threads := p.threads.insert p.nextThreadId t } := by
  have hlen := HashMap.length_insert_of_none hp.fresh t
  have hcounter := hp.counter
  have hnext : (p.nextThreadId + 1).toNat = p.nextThreadId.toNat + 1 :=
    toNat_add_of_fits (by
      show p.nextThreadId.toNat + 1 < 2 ^ 64
      omega)
  refine ⟨hp.pid_eq, ?_, ?_, ?_⟩
  · show (p.nextThreadId + 1).toNat = (p.threads.insert p.nextThreadId t).entries.length + 1
    omega
  · show (p.threads.insert p.nextThreadId t).entries.length < 2 ^ 63
    omega
  · intro tid t' ht'
    have ht' : (p.threads.insert p.nextThreadId t).get tid = some t' := ht'
    rw [HashMap.get_insert] at ht'
    show t'.id = tid ∧ tid < p.nextThreadId + 1 ∧ t'.ownerPid = pid
    rw [UInt64.lt_iff_toNat_lt, hnext]
    by_cases htid : tid = p.nextThreadId
    · rw [if_pos htid] at ht'
      cases ht'
      rw [htid]
      exact ⟨hid, Nat.lt_succ_self _, howner.trans hp.pid_eq⟩
    · rw [if_neg htid] at ht'
      obtain ⟨hid', hlt, howner'⟩ := hp.thread tid t' ht'
      exact ⟨hid', Nat.lt_succ_of_lt (UInt64.lt_iff_toNat_lt.mp hlt), howner'⟩

/-- A new kernel is peopled. -/
theorem peopled_new : Peopled Kernel.new where
  counter := rfl
  room := Nat.two_pow_pos 63
  pids := by
    intro pid
    have hnone : (Kernel.new.processes.get pid).isSome = false := rfl
    have hlen : Kernel.new.processes.entries.length = 0 := rfl
    rw [hnone, hlen]
    simp
    omega
  process := by
    intro pid p hp
    cases hp

section Peopling

variable {k : Kernel} (hk : Peopled k)

include hk

/-- Processes with the same ids. -/
theorem peopled_of_sameIds {k' : Kernel} (h : HashMap.Rel SameIds k.processes k'.processes)
    (hpid : k'.nextPid = k.nextPid) : Peopled k' := by
  have hlen := h.length
  refine ⟨?_, ?_, ?_, ?_⟩
  · rw [hpid, hlen]
    exact hk.counter
  · rw [hlen]
    exact hk.room
  · intro pid
    rw [hlen, h.isSome_get]
    exact hk.pids pid
  · intro pid p' hp'
    obtain ⟨p, hp, hsame⟩ := h.exists_of_get hp'
    exact processBooked_of_sameIds hsame (hk.process pid p hp)

/-- A process more, under the next pid. -/
theorem peopled_insert (name : String) (base size : UInt64)
    (hroom : k.processes.entries.length + 1 < 2 ^ 63) :
    Peopled { k with
      nextPid := k.nextPid + 1
      processes := k.processes.insert k.nextPid (Process.new k.nextPid name base size) } := by
  have hcounter := hk.counter
  have hlen := HashMap.length_insert_of_none hk.fresh (Process.new k.nextPid name base size)
  have hfits : k.nextPid.toNat + (1 : UInt64).toNat < 2 ^ 64 := by
    show k.nextPid.toNat + 1 < 2 ^ 64
    omega
  refine ⟨?_, ?_, ?_, ?_⟩
  · rw [hlen, toNat_add_of_fits hfits, hcounter]
    rfl
  · rw [hlen]
    exact hroom
  · intro pid
    rw [hlen, HashMap.get_insert]
    by_cases hpid : pid = k.nextPid
    · rw [if_pos hpid, hpid, hcounter]
      simp
    · rw [if_neg hpid, hk.pids pid]
      have hne : pid.toNat ≠ k.nextPid.toNat := fun heq => hpid (UInt64.toNat_inj.mp heq)
      omega
  · intro pid p hp
    rw [HashMap.get_insert] at hp
    by_cases hpid : pid = k.nextPid
    · rw [if_pos hpid] at hp
      cases hp
      rw [hpid]
      exact processBooked_new _ name base size
    · rw [if_neg hpid] at hp
      exact hk.process pid p hp

/-- A process that is exchanged for one under the same pid. -/
theorem peopled_modify {k' : Kernel} {pid : ProcessId} {p : Process} (hp : ProcessBooked pid p)
    (hprocesses : k'.processes = k.processes.modify pid fun _ => p)
    (hpid : k'.nextPid = k.nextPid) : Peopled k' := by
  refine ⟨?_, ?_, ?_, ?_⟩
  · rw [hpid, hprocesses, HashMap.length_modify]
    exact hk.counter
  · rw [hprocesses, HashMap.length_modify]
    exact hk.room
  · intro pid'
    rw [hprocesses, HashMap.length_modify, HashMap.get_modify, Option.isSome_map]
    exact hk.pids pid'
  · intro pid' p' hp'
    rw [hprocesses, HashMap.get_modify] at hp'
    obtain ⟨q, hq, rfl⟩ := Option.map_eq_some_iff.mp hp'
    split
    · next heq =>
        rw [heq]
        exact hp
    · exact hk.process pid' q hq

end Peopling

/-- No step unsettles the process table. -/
theorem effect_peopled {s s' : Session} (h : StepEffect s s') (hs : Peopled s.kernel) :
    Peopled s'.kernel := by
  cases h with
  | same hprocesses hpid _ _ _ => exact peopled_of_sameIds hs hprocesses hpid
  | process name base size hroom hresult =>
      rw [hresult]
      exact peopled_insert hs name base size (hroom.resolve_left (by rw [hs.fresh]; simp))
  | thread pid p t hp hid howner hroom hresult =>
      have hbooked := hs.process pid p hp
      have hmore := processBooked_insert hbooked hid howner
        (hroom.resolve_left (by rw [hbooked.fresh]; simp))
      rw [hresult]
      exact peopled_modify hs hmore rfl rfl

/-! ## Handles -/

/-- The handle of the thread that was created as number `i`. -/
def handleAt (i : ℕ) : Handle := 0x1000 + UInt32.ofNat i

/-- The handles in the table are the values the counter has had. -/
structure Numbered (s : Session) : Prop where
  next : s.kernel.nextHandle = handleAt s.created.length
  keys : ∀ h, (s.kernel.handleTable.get h).isSome ↔ ∃ i < s.created.length, h = handleAt i

/-- Two handles are the same only a full turn of the counter apart. -/
theorem handleAt_inj {i j : ℕ} (hi : i < 2 ^ 32) (hj : j < 2 ^ 32)
    (h : handleAt i = handleAt j) : i = j := by
  have hofNat : UInt32.ofNat i = UInt32.ofNat j := by
    unfold handleAt at h
    exact (UInt32.add_right_inj 0x1000).mp h
  have hnat := congrArg UInt32.toNat hofNat
  rwa [UInt32.toNat_ofNat_of_lt' hi, UInt32.toNat_ofNat_of_lt' hj] at hnat

/-- The handles are numbered one after the other. -/
theorem handleAt_succ (i : ℕ) : handleAt i + 1 = handleAt (i + 1) := by
  unfold handleAt
  rw [UInt32.ofNat_add, UInt32.add_assoc]
  rfl

/-- A new session has its handles numbered. -/
theorem numbered_new : Numbered Session.new where
  next := rfl
  keys := by
    intro h
    simp [Session.new, Kernel.new]

/-- Every step keeps the handles numbered. -/
theorem effect_numbered {s s' : Session} (h : StepEffect s s') (hs : Numbered s) : Numbered s' := by
  cases h with
  | same _ _ htable hnext hcreated =>
      refine ⟨?_, ?_⟩
      · rw [hnext, hcreated]
        exact hs.next
      · rw [htable, hcreated]
        exact hs.keys
  | process name base size _ hresult =>
      subst hresult
      exact ⟨hs.next, hs.keys⟩
  | thread pid p t _ _ _ _ hresult =>
      subst hresult
      refine ⟨?_, ?_⟩
      · rw [List.length_append, List.length_singleton, ← handleAt_succ, ← hs.next]
      · intro h
        rw [HashMap.get_insert, List.length_append, List.length_singleton]
        by_cases hh : h = s.kernel.nextHandle
        · rw [if_pos hh, hh, hs.next]
          simp only [Option.isSome_some, true_iff]
          exact ⟨s.created.length, Nat.lt_succ_self _, rfl⟩
        · rw [if_neg hh, hs.keys h]
          constructor
          · rintro ⟨i, hi, rfl⟩
            exact ⟨i, Nat.lt_succ_of_lt hi, rfl⟩
          · rintro ⟨i, hi, rfl⟩
            have hne : i ≠ s.created.length := by
              rintro rfl
              exact hh hs.next.symm
            exact ⟨i, by omega, rfl⟩

/-- The next handle is new as long as the counter has not wrapped. -/
theorem Numbered.fresh {s : Session} (h : Numbered s) (hfew : s.created.length < 2 ^ 32) :
    s.kernel.handleTable.get s.kernel.nextHandle = none := by
  apply Option.not_isSome_iff_eq_none.mp
  intro hsome
  obtain ⟨i, hi, heq⟩ := (h.keys _).mp hsome
  rw [h.next] at heq
  have hlast := handleAt_inj hfew (hi.trans hfew) heq
  omega

/-- The handle table is the record of what was returned, and that record names every thread
once. -/
structure Linked (s : Session) : Prop where
  table : ∀ (h : Handle) (r : ThreadRef),
    s.kernel.handleTable.get h = some r ↔ ⟨h, r⟩ ∈ s.created
  thread : ∀ r : ThreadRef, (threadAt s.kernel r).isSome ↔ ∃ h, ⟨h, r⟩ ∈ s.created
  once : ∀ (h h' : Handle) (r : ThreadRef),
    ⟨h, r⟩ ∈ s.created → ⟨h', r⟩ ∈ s.created → h = h'

/-- A new session has its handles linked. -/
theorem linked_new : Linked Session.new where
  table := by
    intro h r
    simp [Session.new, Kernel.new]
  thread := by
    intro r
    simp [Session.new, Kernel.new, threadAt, Kernel.thread]
  once := by
    intro h h' r hmem
    cases hmem

/-- The threads are the same when the processes keep theirs. -/
theorem threadAt_isSome_of_sameIds {k k' : Kernel}
    (h : HashMap.Rel SameIds k.processes k'.processes) (r : ThreadRef) :
    (threadAt k' r).isSome = (threadAt k r).isSome := by
  unfold threadAt Kernel.thread
  have hprocess := h.get r.1
  generalize k.processes.get r.1 = p at hprocess
  generalize k'.processes.get r.1 = p' at hprocess
  cases hprocess with
  | none => rfl
  | @some p p' hp =>
      show (p'.threads.get r.2).isSome = (p.threads.get r.2).isSome
      exact hp.threads.isSome_get r.2

/-- A new process has no threads. -/
theorem threadAt_insert_new {k : Kernel} (hfresh : k.processes.get k.nextPid = none)
    (name : String) (base size : UInt64) (r : ThreadRef) :
    ((k.processes.insert k.nextPid (Process.new k.nextPid name base size)).get r.1).bind
      (fun p => p.threads.get r.2) = threadAt k r := by
  unfold threadAt Kernel.thread
  rw [HashMap.get_insert]
  by_cases hpid : r.1 = k.nextPid
  · rw [if_pos hpid, hpid, hfresh]
    rfl
  · rw [if_neg hpid]
    rfl

/-- A new thread is found under its own reference, and the others where they were. -/
theorem threadAt_insert_thread {k : Kernel} {pid : ProcessId} {p : Process} {t : Thread}
    (hp : k.processes.get pid = some p) (next : ThreadId) (r : ThreadRef) :
    ((k.processes.modify pid fun _ => { p with
        nextThreadId := next
        threads := p.threads.insert p.nextThreadId t }).get r.1).bind
      (fun p => p.threads.get r.2) =
    if r = (pid, p.nextThreadId) then some t else threadAt k r := by
  obtain ⟨pid', tid⟩ := r
  unfold threadAt Kernel.thread
  show ((k.processes.modify pid _).get pid').bind _ = _
  rw [HashMap.get_modify]
  by_cases hpid : pid' = pid
  · subst hpid
    rw [hp]
    show (if pid' = pid' then _ else p).threads.get tid = _
    rw [if_pos rfl]
    show (p.threads.insert p.nextThreadId t).get tid = _
    rw [HashMap.get_insert]
    by_cases htid : tid = p.nextThreadId
    · rw [if_pos htid, if_pos (by rw [htid])]
    · rw [if_neg htid, if_neg (fun heq => htid (Prod.mk.inj heq).2)]
      rfl
  · rw [if_neg (fun heq => hpid (Prod.mk.inj heq).1)]
    show _ = (k.processes.get pid').bind _
    cases k.processes.get pid' with
    | none => rfl
    | some q =>
        show (if pid' = pid then _ else q).threads.get tid = q.threads.get tid
        rw [if_neg hpid]

/-- A handle and a thread that the record does not name yet are linked. -/
theorem Linked.link {s s' : Session} (hs : Linked s) {handle : Handle} {ref : ThreadRef}
    (hunused : ∀ r : ThreadRef, ⟨handle, r⟩ ∉ s.created)
    (hunnamed : ∀ h : Handle, ⟨h, ref⟩ ∉ s.created)
    (htable : ∀ h : Handle, s'.kernel.handleTable.get h =
      if h = handle then some ref else s.kernel.handleTable.get h)
    (hthread : ∀ r : ThreadRef, (threadAt s'.kernel r).isSome ↔
      r = ref ∨ (threadAt s.kernel r).isSome)
    (hcreated : s'.created = s.created ++ [⟨handle, ref⟩]) : Linked s' where
  table := by
    intro h r
    rw [htable, hcreated, List.mem_append, List.mem_singleton, Created.mk.injEq]
    by_cases hh : h = handle
    · subst hh
      simp [hunused r, eq_comm]
    · rw [if_neg hh]
      simp [hh, hs.table h r]
  thread := by
    intro r
    simp only [hthread, hcreated, List.mem_append, List.mem_singleton, Created.mk.injEq]
    by_cases hr : r = ref
    · simp [hr]
    · simp [hr, hs.thread r]
  once := by
    intro h h' r hmem hmem'
    rw [hcreated, List.mem_append, List.mem_singleton, Created.mk.injEq] at hmem hmem'
    rcases hmem with hold | ⟨hh, rfl⟩
    · rcases hmem' with hold' | ⟨-, rfl⟩
      · exact hs.once h h' r hold hold'
      · exact absurd hold (hunnamed h)
    · rcases hmem' with hold' | ⟨hh', -⟩
      · exact absurd hold' (hunnamed h')
      · exact hh.trans hh'.symm

/-- Below the limit of threads every step keeps handles and threads linked. -/
theorem effect_linked {s s' : Session} (h : StepEffect s s') (hpeopled : Peopled s.kernel)
    (hnumbered : Numbered s) (hfew : s.created.length < 2 ^ 32) (hs : Linked s) : Linked s' := by
  cases h with
  | same hprocesses _ htable _ hcreated =>
      refine ⟨?_, ?_, ?_⟩
      · rw [htable, hcreated]
        exact hs.table
      · intro r
        rw [threadAt_isSome_of_sameIds hprocesses, hcreated]
        exact hs.thread r
      · rw [hcreated]
        exact hs.once
  | process name base size _ hresult =>
      subst hresult
      refine ⟨hs.table, ?_, hs.once⟩
      intro r
      show (Option.bind _ _).isSome ↔ _
      rw [threadAt_insert_new hpeopled.fresh]
      exact hs.thread r
  | thread pid p t hp _ _ _ hresult =>
      subst hresult
      have hnew : threadAt s.kernel (pid, p.nextThreadId) = none := by
        unfold threadAt Kernel.thread
        show (s.kernel.processes.get pid).bind _ = none
        rw [hp]
        exact (hpeopled.process pid p hp).fresh
      have hunnamed (h : Handle) : ⟨h, (pid, p.nextThreadId)⟩ ∉ s.created := by
        intro hmem
        have hsome := (hs.thread _).mpr ⟨h, hmem⟩
        rw [hnew] at hsome
        cases hsome
      have hunused (r : ThreadRef) : ⟨s.kernel.nextHandle, r⟩ ∉ s.created := by
        intro hmem
        have hget := (hs.table _ _).mpr hmem
        rw [hnumbered.fresh hfew] at hget
        cases hget
      refine hs.link hunused hunnamed (fun h => HashMap.get_insert _ _ _ _) ?_ rfl
      intro r
      show (Option.bind _ _).isSome ↔ _
      rw [threadAt_insert_thread hp]
      by_cases hr : r = (pid, p.nextThreadId)
      · simp [hr]
      · simp [hr]

/-! ## Runs -/

/-- The record only grows. -/
theorem effect_created {s s' : Session} (h : StepEffect s s') :
    s.created.length ≤ s'.created.length := by
  cases h with
  | same _ _ _ _ hcreated => rw [hcreated]
  | process _ _ _ _ hresult => rw [hresult]
  | thread _ _ _ _ _ _ _ hresult =>
      rw [hresult]
      simp

/-- The invariant of a run: the ids and handles are numbered, and while the handle counter
has not wrapped the tables are linked. -/
structure Booked (s : Session) : Prop where
  peopled : Peopled s.kernel
  numbered : Numbered s
  linked : s.created.length < HANDLES → Linked s

/-- A new session is booked. -/
theorem booked_new : Booked Session.new :=
  ⟨peopled_new, numbered_new, fun _ => linked_new⟩

/-- Every step keeps a session booked. -/
theorem effect_booked {s s' : Session} (h : StepEffect s s') (hs : Booked s) : Booked s' := by
  refine ⟨effect_peopled h hs.peopled, effect_numbered h hs.numbered, ?_⟩
  intro hfew
  have hbefore : s.created.length < HANDLES := (effect_created h).trans_lt hfew
  have hwrap : s.created.length < 2 ^ 32 := hbefore.trans_le (Nat.sub_le _ _)
  exact effect_linked h hs.peopled hs.numbered hwrap (hs.linked hbefore)

/-- By the invariant rule for the calls of the run. -/
theorem run_booked {b : Build} {emu : Emulator} {calls : List KernelCall} {s s' : Session}
    (hs : Booked s) (h : s.run b emu calls = .ok s') : Booked s' :=
  foldlM_invariant calls (fun _ _ _ _ hs hcall => effect_booked (call_effect hcall) hs) hs h

/-- Every kernel the calls build stores its objects under their own ids, which is what the
scheduler's results ask for. -/
theorem keysConsistent_of_run {b : Build} {emu : Emulator} {calls : List KernelCall}
    {s : Session} (h : Session.new.run b emu calls = .ok s) : KeysConsistent s.kernel := by
  have hs := run_booked booked_new h
  refine ⟨fun pid p hp => (hs.peopled.process pid p hp).pid_eq, ?_⟩
  intro pid p tid t hp ht
  exact ((hs.peopled.process pid p hp).thread tid t ht).1

/-- A booked session with few enough threads is consistent. -/
theorem consistent_of_booked {s : Session} (hs : Booked s)
    (hfew : s.created.length < HANDLES) : Consistent s := by
  have hlinked := hs.linked hfew
  refine ⟨?_, ?_, ?_, ?_, ?_⟩
  · intro pid p hp
    refine ⟨(hs.peopled.process pid p hp).pid_eq, ?_⟩
    have hpid := (hs.peopled.pids pid).mp (by rw [hp]; rfl)
    have hcounter := hs.peopled.counter
    rw [UInt64.lt_iff_toNat_lt]
    omega
  · intro pid p tid t hp ht
    exact (hs.peopled.process pid p hp).thread tid t ht
  · intro h r hget
    have hmem := (hlinked.table h r).mp hget
    exact Option.isSome_iff_exists.mp ((hlinked.thread r).mpr ⟨h, hmem⟩)
  · intro h h' r hget hget'
    exact hlinked.once h h' r ((hlinked.table h r).mp hget) ((hlinked.table h' r).mp hget')
  · intro r t ht
    obtain ⟨h, hmem⟩ := (hlinked.thread r).mp (by rw [ht]; rfl)
    refine ⟨h, hmem, fun h' hmem' => hlinked.once h' h r hmem' hmem, ?_⟩
    intro h'
    constructor
    · intro hget
      exact hlinked.once h' h r ((hlinked.table h' r).mp hget) hmem
    · rintro rfl
      exact (hlinked.table h' r).mpr hmem

/-- **After every run the object tables are consistent, and a thread of an unknown process
is not created.**
SOURCE: core/src/sys/kernel.rs:49-113 -/
theorem object_tables_consistent (b : Build) (emu : Emulator) (calls : List KernelCall)
    (s : Session) (h : Session.new.run b emu calls = .ok s) (hfew : s.created.length < HANDLES) :
    Consistent s ∧
    ∀ (pid : ProcessId) (entry top : UInt64), s.kernel.processes.get pid = none →
      s.kernel.createMainThread b pid entry top = .ok (none, s.kernel) := by
  refine ⟨consistent_of_booked (run_booked booked_new h) hfew, ?_⟩
  intro pid entry top hp
  exact createMainThread_of_unknown hp entry top

/-- Two processes, and threads for them and for a process that does not exist. -/
def bootLikeCalls : List KernelCall :=
  [.createProcess "kernel" 0x80000 0x400000, .createMainThread 1 0x80000 0x580000,
    .createMainThread 3 0 0, .createProcess "app" 0x1000000 0x800000,
    .createMainThread 2 0x1000000 0x1900000, .createMainThread 2 0x1000000 0x1A00000]

/-- The tables after the calls that a boot makes. -/
theorem object_tables_consistent_bootLike :
    ∃ s, Session.new.run .release stuckEmulator bootLikeCalls = .ok s ∧
      s.created = [⟨0x1000, (1, 1)⟩, ⟨0x1001, (2, 1)⟩, ⟨0x1002, (2, 2)⟩] ∧ Consistent s := by
  obtain ⟨s, hrun, hcreated⟩ : ∃ s, Session.new.run .release stuckEmulator bootLikeCalls = .ok s ∧
      s.created = [⟨0x1000, (1, 1)⟩, ⟨0x1001, (2, 1)⟩, ⟨0x1002, (2, 2)⟩] := ⟨_, rfl, rfl⟩
  have hfew : s.created.length < HANDLES := by
    simp [hcreated, HANDLES]
  exact ⟨s, hrun, hcreated,
    (object_tables_consistent .release stuckEmulator bootLikeCalls s hrun hfew).1⟩

end Oboromi.Analysis
