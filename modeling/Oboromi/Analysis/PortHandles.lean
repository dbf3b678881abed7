import Oboromi.Analysis.ObjectTable
import Oboromi.Interface.BootRuns

/-!
# When thread handles run into the port handles

Thread handles are 0x1000, 0x1001, … in the order the threads are made, and are never given
back; the ports hold 0x2000 and the handles after it.  So a run keeps the two apart exactly
as long as it makes at most 0x1000 threads.
-/

set_option autoImplicit false

namespace Oboromi.Analysis

open Oboromi.Lib Oboromi.Model Oboromi.Interface

/-! ## The number of threads -/

section Tally

variable {b : Build} {emu : Emulator} {s s' : Session}

/-- The processes and threads of a session. -/
def sizes (s : Session) : ℕ × ℕ := (s.kernel.processes.entries.length, s.created.length)

/-- A call changes the table sizes as its tally says. -/
theorem call_sizes {c : KernelCall} (hs : Peopled s.kernel) (h : s.call b emu c = .ok s') :
    sizes s' = tally (sizes s) c := by
  cases c with
  | createProcess name base size =>
      obtain ⟨⟨pid, k'⟩, hcreate, h⟩ := bind_eq_ok h
      obtain ⟨rfl, rfl, -⟩ := createProcess_eq_ok hcreate
      cases h
      simp [sizes, tally, HashMap.length_insert_of_none hs.fresh]
  | createMainThread pid entry top =>
      obtain ⟨⟨made, k'⟩, hcreate, h⟩ := bind_eq_ok h
      have hpids := hs.pids pid
      rcases createMainThread_cases hcreate with ⟨hp, rfl, rfl⟩ | ⟨p, t, hp, rfl, -, -, rfl, -⟩
      · cases h
        have hunknown : ¬ (1 ≤ pid.toNat ∧ pid.toNat ≤ (sizes s).1) := by
          intro hrange
          have hsome := hpids.mpr hrange
          simp [hp] at hsome
        simp only [tally, if_neg hunknown]
        simp [sizes]
      · cases h
        have hknown : 1 ≤ pid.toNat ∧ pid.toNat ≤ (sizes s).1 := hpids.mp (by simp [hp])
        simp only [tally, if_pos hknown]
        simp [sizes, HashMap.length_modify]
  | mapProcessMemory pid base size perm state =>
      cases h
      simp [sizes, tally, Kernel.mapProcessMemory, HashMap.length_modify]
  | registerPort name handle =>
      obtain ⟨k', hregister, h⟩ := bind_eq_ok h
      cases h
      cases registerPort_eq_ok hregister
      simp [sizes, tally]
  | step =>
      obtain ⟨k', hstep, h⟩ := bind_eq_ok h
      cases h
      simp [sizes, tally, (step_kept hstep).processes.length]

/-- By induction on the calls. -/
theorem run_sizes (calls : List KernelCall) (hs : Booked s) (h : s.run b emu calls = .ok s') :
    sizes s' = calls.foldl tally (sizes s) := by
  induction calls generalizing s with
  | nil =>
      cases h
      rfl
  | cons c calls ih =>
      obtain ⟨t, hcall, hrest⟩ := foldlM_cons_eq_ok h
      have ht : Booked t := effect_booked (call_effect hcall) hs
      rw [List.foldl_cons, ← call_sizes hs.peopled hcall]
      exact ih ht hrest

end Tally

/-! ## Ports -/

section Ports

variable {b : Build} {emu : Emulator} {s s' : Session}

/-- A call that registers no port keeps the ports. -/
theorem call_namedPorts {c : KernelCall} (hc : KeepsPorts c) (h : s.call b emu c = .ok s') :
    s'.kernel.namedPorts = s.kernel.namedPorts := by
  cases c with
  | createProcess name base size =>
      obtain ⟨⟨pid, k'⟩, hcreate, h⟩ := bind_eq_ok h
      obtain ⟨-, rfl, -⟩ := createProcess_eq_ok hcreate
      cases h
      rfl
  | createMainThread pid entry top =>
      obtain ⟨⟨made, k'⟩, hcreate, h⟩ := bind_eq_ok h
      rcases createMainThread_cases hcreate with ⟨-, rfl, rfl⟩ | ⟨p, t, -, rfl, -, -, rfl, -⟩
      · cases h
        rfl
      · cases h
        rfl
  | mapProcessMemory pid base size perm state =>
      cases h
      rfl
  | registerPort name handle => cases hc
  | step =>
      obtain ⟨k', hstep, h⟩ := bind_eq_ok h
      cases h
      exact (step_kept hstep).namedPorts

/-- A run that registers no port keeps the ports. -/
theorem run_namedPorts {calls : List KernelCall} (hcalls : ∀ c ∈ calls, KeepsPorts c)
    (h : s.run b emu calls = .ok s') : s'.kernel.namedPorts = s.kernel.namedPorts :=
  foldlM_invariant calls
    (fun c hc _ _ (ht : _ = s.kernel.namedPorts) hcall =>
      (call_namedPorts (hcalls c hc) hcall).trans ht) rfl h

/-- Registering the core ports is a run of calls. -/
theorem registerCorePorts_run (b : Build) (emu : Emulator) {k : Kernel}
    (h : Boot.registerCorePorts s.kernel = .ok k) :
    s.run b emu portCalls = .ok { s with kernel := k } := by
  unfold Boot.registerCorePorts at h
  unfold portCalls
  generalize Boot.corePorts.zipIdx = ports at h
  induction ports generalizing s with
  | nil =>
      cases h
      rfl
  | cons port ports ih =>
      obtain ⟨k₁, hregister, hrest⟩ := foldlM_cons_eq_ok h
      have hcall : s.call b emu (.registerPort port.1 (Boot.portHandle port.2)) =
          .ok { s with kernel := k₁ } := by
        show s.kernel.registerPort port.1 (Boot.portHandle port.2) >>= _ = _
        rw [hregister]
        rfl
      have hrun := ih (s := { s with kernel := k₁ }) hrest
      unfold Session.run at hrun ⊢
      rw [List.map_cons, List.foldlM_cons, hcall]
      exact hrun

/-- A run with boot's ports is a run. -/
theorem portsRun_run {before after : List KernelCall} (h : portsRun b emu before after = .ok s) :
    Session.new.run b emu (before ++ portCalls ++ after) = .ok s := by
  obtain ⟨s₁, hbefore, h⟩ := bind_eq_ok h
  obtain ⟨k, hports, hafter⟩ := bind_eq_ok h
  have hcalls := registerCorePorts_run b emu hports
  unfold Session.run at hbefore hcalls hafter ⊢
  rw [List.foldlM_append, List.foldlM_append, hbefore, ok_bind, hcalls, ok_bind]
  exact hafter

/-- What the ports' names lead to after a list of them is registered: the handles in the
list, and what was registered before where the list has no such name. -/
theorem registerPorts_get {ports : List (String × ℕ)} {k k' : Kernel}
    (h : ports.foldlM (fun k port => k.registerPort port.1 (Boot.portHandle port.2)) k = .ok k')
    (name : String) :
    (name ∉ ports.map Prod.fst → k'.namedPorts.get name = k.namedPorts.get name) ∧
    ∀ handle, k'.namedPorts.get name = some handle →
      k.namedPorts.get name = some handle ∨ ∃ e ∈ ports, handle = Boot.portHandle e.2 := by
  induction ports generalizing k with
  | nil =>
      cases h
      exact ⟨fun _ => rfl, fun _ hget => .inl hget⟩
  | cons port ports ih =>
      obtain ⟨k₁, hregister, hrest⟩ := foldlM_cons_eq_ok h
      obtain ⟨hout, hin⟩ := ih hrest
      have hport : k₁.namedPorts.get name =
          if name = port.1 then some (Boot.portHandle port.2) else k.namedPorts.get name := by
        cases registerPort_eq_ok hregister
        exact HashMap.get_insert _ _ _ _
      constructor
      · intro hnot
        rw [List.map_cons, List.mem_cons, not_or] at hnot
        rw [hout hnot.2, hport, if_neg hnot.1]
      · intro handle hget
        rcases hin handle hget with hold | ⟨e, he, hhandle⟩
        · rw [hport] at hold
          split at hold
          · exact .inr ⟨port, List.mem_cons_self, (Option.some.inj hold).symm⟩
          · exact .inl hold
        · exact .inr ⟨e, List.mem_cons_of_mem _ he, hhandle⟩

/-- The first core port keeps the handle it gets. -/
theorem first_port {k k' : Kernel} (h : Boot.registerCorePorts k = .ok k') :
    k'.connectToPort "sm:" = some (Boot.portHandle 0) := by
  obtain ⟨k₁, hregister, hrest⟩ := foldlM_cons_eq_ok h
  have hget : k₁.namedPorts.get "sm:" = some (Boot.portHandle 0) := by
    cases registerPort_eq_ok hregister
    exact (HashMap.get_insert _ _ _ _).trans (if_pos rfl)
  exact ((registerPorts_get hrest "sm:").1 (by decide)).trans hget

end Ports

/-! ## The two ranges -/

/-- The handles count up from 0x1000. -/
theorem handleAt_toNat {i : ℕ} (h : i < 0x1000) : (handleAt i).toNat = 0x1000 + i := by
  have hi : (UInt32.ofNat i).toNat = i :=
    UInt32.toNat_ofNat_of_lt' (show i < 2 ^ 32 by omega)
  unfold handleAt
  rw [UInt32.toNat_add, hi]
  show (0x1000 + i) % 2 ^ 32 = 0x1000 + i
  omega

/-- The port handles count up from 0x2000. -/
theorem portHandle_toNat {i : ℕ} (h : i < 0x1000) :
    (Boot.portHandle i).toNat = 0x2000 + i := by
  have hi : (UInt32.ofNat i).toNat = i :=
    UInt32.toNat_ofNat_of_lt' (show i < 2 ^ 32 by omega)
  unfold Boot.portHandle
  rw [UInt32.toNat_add, hi]
  show (0x2000 + i) % 2 ^ 32 = 0x2000 + i
  omega

/-- The first 0x1000 handles are below every core port's. -/
theorem unambiguous_of_le {s : Session} (hnumbered : Numbered s)
    (hports : ∀ name h, s.kernel.connectToPort name = some h →
      ∃ i < Boot.corePorts.length, h = Boot.portHandle i)
    (hfew : s.created.length ≤ 0x1000) : Unambiguous s.kernel := by
  intro name h hget
  obtain ⟨i, hi, rfl⟩ := hports name h hget
  have hlen : Boot.corePorts.length = 30 := rfl
  apply Option.not_isSome_iff_eq_none.mp
  intro hsome
  obtain ⟨j, hj, heq⟩ := (hnumbered.keys _).mp hsome
  have hport := portHandle_toNat (i := i) (by omega)
  rw [heq, handleAt_toNat (by omega)] at hport
  omega

/-- The next one is the first core port's. -/
theorem ambiguous_of_gt {s : Session} (hnumbered : Numbered s)
    (hfirst : s.kernel.connectToPort "sm:" = some (Boot.portHandle 0))
    (hmany : 0x1000 < s.created.length) : ¬ Unambiguous s.kernel := by
  intro hclear
  have hnone := hclear "sm:" _ hfirst
  have hsome : (s.kernel.handleTable.get (Boot.portHandle 0)).isSome :=
    (hnumbered.keys _).mpr ⟨0x1000, hmany, rfl⟩
  rw [hnone] at hsome
  cases hsome

/-- What a run with boot's ports leaves of both tables. -/
structure PortsBooked (s : Session) (threads : ℕ) : Prop where
  numbered : Numbered s
  count : s.created.length = threads
  first : s.kernel.connectToPort "sm:" = some (Boot.portHandle 0)
  only : ∀ name h, s.kernel.connectToPort name = some h →
    ∃ i < Boot.corePorts.length, h = Boot.portHandle i

/-- A boot with its ports leaves ports and threads booked. -/
theorem portsRun_booked {b : Build} {emu : Emulator} {before after : List KernelCall}
    {s : Session} (hbefore : ∀ c ∈ before, KeepsPorts c) (hafter : ∀ c ∈ after, KeepsPorts c)
    (h : portsRun b emu before after = .ok s) :
    PortsBooked s (threadsMade (before ++ after)) := by
  have hrun := portsRun_run h
  have hcount := congrArg Prod.snd (run_sizes _ booked_new hrun)
  have hstationary (n : ℕ × ℕ) : portCalls.foldl tally n = n := by
    apply foldl_stationary
    intro c hc
    obtain ⟨port, -, rfl⟩ := List.mem_map.mp hc
    rfl
  rw [List.foldl_append, List.foldl_append, hstationary, ← List.foldl_append] at hcount
  obtain ⟨s₁, hrun₁, h⟩ := bind_eq_ok h
  obtain ⟨k, hports, hrun₂⟩ := bind_eq_ok h
  have hnone : s₁.kernel.namedPorts = HashMap.empty := run_namedPorts hbefore hrun₁
  have hkept : s.kernel.namedPorts = k.namedPorts := run_namedPorts hafter hrun₂
  refine ⟨(run_booked booked_new hrun).numbered, hcount, ?_, ?_⟩
  · unfold Kernel.connectToPort
    rw [hkept]
    exact first_port hports
  · intro name h hget
    unfold Kernel.connectToPort at hget
    rw [hkept] at hget
    rcases (registerPorts_get hports name).2 h hget with hold | ⟨e, he, rfl⟩
    · rw [hnone] at hold
      cases hold
    · have hlt := (List.mem_zipIdx he).2.1
      exact ⟨e.2, by omega, rfl⟩

/-- **No handle means two things exactly as long as a run makes at most 0x1000 threads.**
SOURCE: core/src/sys/kernel.rs:93-113, core/src/sys/boot.rs:164-176 -/
theorem handles_unambiguous_iff (b : Build) (emu : Emulator) (before after : List KernelCall)
    (s : Session) (hbefore : ∀ c ∈ before, KeepsPorts c) (hafter : ∀ c ∈ after, KeepsPorts c)
    (h : portsRun b emu before after = .ok s) :
    Unambiguous s.kernel ↔ threadsMade (before ++ after) ≤ 0x1000 := by
  have hbooked := portsRun_booked hbefore hafter h
  rw [← hbooked.count]
  constructor
  · intro hclear
    by_contra hmany
    exact ambiguous_of_gt hbooked.numbered hbooked.first (Nat.lt_of_not_le hmany) hclear
  · exact unambiguous_of_le hbooked.numbered hbooked.only

/-! ## A process with many threads -/

/-- A process and a number of threads for it. -/
def crowdCalls (n : ℕ) : List KernelCall :=
  .createProcess "app" 0 0 :: List.replicate n (.createMainThread 1 0 0)

/-- The calls that make a crowd register no port. -/
theorem crowdCalls_keepPorts (n : ℕ) : ∀ c ∈ crowdCalls n, KeepsPorts c := by
  intro c hc
  rcases List.mem_cons.mp hc with rfl | hc
  · trivial
  · rw [(List.mem_replicate.mp hc).2]
    trivial

/-- A crowd of `n` makes `n` threads. -/
theorem threadsMade_crowdCalls (n : ℕ) : threadsMade (crowdCalls n) = n := by
  have hfold (m : ℕ) :
      (List.replicate n (KernelCall.createMainThread 1 0 0)).foldl tally (1, m) = (1, m + n) := by
    induction n generalizing m with
    | zero => rfl
    | succ n ih =>
        rw [List.replicate_succ, List.foldl_cons]
        show (List.replicate n (KernelCall.createMainThread 1 0 0)).foldl tally (1, m + 1) = _
        rw [ih, Nat.add_assoc, Nat.add_comm 1]
  have h := hfold 0
  rw [Nat.zero_add] at h
  exact congrArg Prod.snd h

/-- The maps have room for a number of further threads. -/
structure Room (k : Kernel) (n : ℕ) : Prop where
  process : ∃ p, k.processes.get 1 = some p ∧ p.threads.entries.length + n < 2 ^ 63
  handles : k.handleTable.entries.length + n < 2 ^ 63

/-- A release build creates a thread while the table has room. -/
theorem process_createMainThread_returns {p : Process} (h : p.threads.entries.length + 1 < 2 ^ 63)
    (entry top : UInt64) :
    ∃ r, p.createMainThread .release entry top = .ok r ∧
      r.2.threads.entries.length ≤ p.threads.entries.length + 1 := by
  unfold Process.createMainThread
  simp only [Build.addU64_release, ok_bind, HashMap.tryInsert_of_room h]
  exact ⟨_, rfl, HashMap.length_insert_le _ _ _⟩

/-- A release build allocates a handle while the table has room. -/
theorem allocHandle_returns {k : Kernel} (h : k.handleTable.entries.length + 1 < 2 ^ 63)
    (pid : ProcessId) (tid : ThreadId) :
    ∃ r, k.allocHandle .release pid tid = .ok r ∧ r.2.processes = k.processes ∧
      r.2.handleTable.entries.length ≤ k.handleTable.entries.length + 1 := by
  unfold Kernel.allocHandle
  simp only [Build.addU32_release, ok_bind, HashMap.tryInsert_of_room h]
  exact ⟨_, rfl, rfl, HashMap.length_insert_le _ _ _⟩

/-- Creating a thread takes one place of the room left. -/
theorem room_createMainThread {k : Kernel} {n : ℕ} (h : Room k (n + 1)) :
    ∃ r, k.createMainThread .release 1 0 0 = .ok r ∧ Room r.2 n := by
  obtain ⟨p, hp, hthreads⟩ := h.process
  have hhandles := h.handles
  obtain ⟨made, hmade, hlen⟩ := process_createMainThread_returns (p := p) (by omega) 0 0
  obtain ⟨r, halloc, hprocesses, htable⟩ := allocHandle_returns
    (k := { k with processes := k.processes.modify 1 fun _ => made.2 })
    (show k.handleTable.entries.length + 1 < 2 ^ 63 by omega) 1 made.1
  have htable : r.2.handleTable.entries.length ≤ k.handleTable.entries.length + 1 := htable
  refine ⟨(some (r.1, made.1), r.2), ?_, ⟨made.2, ?_, by omega⟩,
    show r.2.handleTable.entries.length + n < 2 ^ 63 by omega⟩
  · unfold Kernel.createMainThread
    simp only [hp, hmade, halloc, ok_bind]
    rfl
  · rw [hprocesses, HashMap.get_modify, hp]
    rfl

/-- By induction on the number of threads. -/
theorem run_threads_returns (emu : Emulator) (n : ℕ) {s : Session} (h : Room s.kernel n) :
    ∃ s', s.run .release emu (List.replicate n (.createMainThread 1 0 0)) = .ok s' := by
  induction n generalizing s with
  | zero => exact ⟨s, rfl⟩
  | succ n ih =>
      obtain ⟨r, hcreate, hroom⟩ := room_createMainThread h
      obtain ⟨s', hrest⟩ := ih (s := { s with
        kernel := r.2
        created := s.created ++ (r.1.map fun p => Created.mk p.1 (1, p.2)).toList }) hroom
      refine ⟨s', ?_⟩
      unfold Session.run at hrest ⊢
      rw [List.replicate_succ, List.foldlM_cons]
      show (s.kernel.createMainThread .release 1 0 0 >>= _) >>= _ = _
      rw [hcreate]
      exact hrest

/-- A process may get any number of threads that fits into the host's maps. -/
theorem crowdRun_returns (emu : Emulator) {n : ℕ} (h : n < 2 ^ 63) :
    ∃ s, portsRun .release emu [] (crowdCalls n) = .ok s := by
  obtain ⟨k, hports, hprocesses, htable, hpid⟩ : ∃ k, Boot.registerCorePorts Kernel.new = .ok k ∧
      k.processes = HashMap.empty ∧ k.handleTable = HashMap.empty ∧ k.nextPid = 1 :=
    ⟨_, rfl, rfl, rfl, rfl⟩
  have hroom : k.processes.entries.length + 1 < 2 ^ 63 := by
    rw [hprocesses]
    norm_num [HashMap.empty]
  obtain ⟨r, hcreate, hget, hhandles⟩ : ∃ r, k.createProcess .release "app" 0 0 = .ok r ∧
      r.2.processes.get 1 = some (Process.new 1 "app" 0 0) ∧ r.2.handleTable = k.handleTable := by
    unfold Kernel.createProcess
    simp only [Build.addU64_release, ok_bind, HashMap.tryInsert_of_room hroom, hpid]
    exact ⟨_, rfl, (HashMap.get_insert _ _ _ _).trans (if_pos rfl), rfl⟩
  have hthreads : Room r.2 n := by
    refine ⟨⟨_, hget, ?_⟩, ?_⟩
    · simpa [Process.new, HashMap.empty] using h
    · rw [hhandles, htable]
      simpa [HashMap.empty] using h
  obtain ⟨s, hs⟩ := run_threads_returns emu n (s := { kernel := r.2, created := [] }) hthreads
  refine ⟨s, ?_⟩
  have hnil : Session.new.run .release emu [] = .ok Session.new := rfl
  have hfirst : Session.call .release emu { kernel := k, created := [] }
      (.createProcess "app" 0 0) = .ok { kernel := r.2, created := [] } := by
    unfold Session.call
    simp only [hcreate, ok_bind]
    rfl
  unfold portsRun
  rw [hnil, ok_bind]
  show (Boot.registerCorePorts Kernel.new >>= fun k => Session.run .release emu
    { kernel := k, created := [] } (crowdCalls n)) = _
  rw [hports, ok_bind]
  unfold crowdCalls Session.run
  rw [List.foldlM_cons, hfirst]
  exact hs

/-- One thread is far from the port handles. -/
theorem handles_unambiguous_iff_single :
    ∃ s, portsRun .release stuckEmulator [] (crowdCalls 1) = .ok s ∧ Unambiguous s.kernel := by
  obtain ⟨s, hs⟩ := crowdRun_returns stuckEmulator (n := 1) (by norm_num)
  have hiff := handles_unambiguous_iff .release stuckEmulator [] (crowdCalls 1) s
    (by simp) (crowdCalls_keepPorts 1) hs
  refine ⟨s, hs, hiff.mpr ?_⟩
  rw [List.nil_append, threadsMade_crowdCalls]
  norm_num

/-- The thread after the first 0x1000 has the handle of the port `sm:`. -/
theorem crowded_handles_are_ambiguous :
    ∃ s, portsRun .release stuckEmulator [] (crowdCalls 0x1001) = .ok s ∧
      ¬ Unambiguous s.kernel := by
  obtain ⟨s, hs⟩ := crowdRun_returns stuckEmulator (n := 0x1001) (by norm_num)
  have hbooked := portsRun_booked (by simp) (crowdCalls_keepPorts 0x1001) hs
  have hcount := hbooked.count
  rw [List.nil_append, threadsMade_crowdCalls] at hcount
  exact ⟨s, hs, ambiguous_of_gt hbooked.numbered hbooked.first (by omega)⟩

end Oboromi.Analysis
