import Oboromi.Analysis.BootLayout
import Oboromi.Analysis.PortHandles
import Oboromi.Analysis.SchedulerRounds
import Oboromi.Interface.BootedMachine

/-!
# Boot starts one machine

The processes, threads and handles of the machine are those that a few kernel calls make
(`booted_run`), so what holds of every reached kernel holds of it; the two code loads change
its memory only.  Its threads are at their entries, so its first step returns in either build.
-/

set_option autoImplicit false

namespace Oboromi.Analysis

open Oboromi.Lib Oboromi.Model Oboromi.Interface

/-! ## Ports -/

/-- What names lead to after ports are registered: by induction on the ports, whose names are
distinct. -/
theorem get_foldlM_tryInsert {ports : List (String × ℕ)} (hnodup : (ports.map Prod.fst).Nodup)
    {named named' : HashMap String Handle}
    (h : ports.foldlM (fun (named : HashMap String Handle) port =>
      named.tryInsert port.1 (Boot.portHandle port.2)) named = .ok named') (name : String) :
    named'.get name = ((ports.lookup name).map Boot.portHandle).or (named.get name) := by
  induction ports generalizing named with
  | nil =>
      cases h
      rfl
  | cons port ports ih =>
      obtain ⟨named₁, hinsert, hrest⟩ := foldlM_cons_eq_ok h
      obtain ⟨hnot, hnodup⟩ := List.nodup_cons.mp hnodup
      rw [ih hnodup hrest, (HashMap.tryInsert_eq_ok hinsert).1, HashMap.get_insert]
      by_cases hname : name = port.1
      · have hnone : ports.lookup port.1 = none :=
          List.lookup_eq_none_iff.mpr fun p hp => by
            have hne : port.1 ≠ p.1 := fun heq => hnot (List.mem_map.mpr ⟨p, hp, heq.symm⟩)
            simp [hne]
        rw [hname, if_pos rfl, hnone, List.lookup_cons_self]
        rfl
      · have hne : (name == port.1) = false := beq_false_of_ne hname
        rw [if_neg hname, List.lookup_cons, hne]

/-- A name is found in a numbered list where the list has it. -/
theorem lookup_zipIdx (names : List String) (n : ℕ) (name : String) :
    (names.zipIdx n).lookup name = (names.idxOf? name).map (· + n) := by
  induction names generalizing n with
  | nil => rfl
  | cons first names ih =>
      rw [List.zipIdx_cons, List.lookup_cons, List.idxOf?_cons]
      by_cases hname : name = first
      · simp [hname]
      · have hne : (name == first) = false := beq_false_of_ne hname
        have hne' : (first == name) = false := beq_false_of_ne (Ne.symm hname)
        rw [hne, hne', ih]
        cases names.idxOf? name with
        | none => rfl
        | some i =>
            show some (i + (n + 1)) = some (i + 1 + n)
            rw [Nat.add_right_comm]
            rfl

/-- No port is registered twice. -/
theorem corePorts_nodup : Boot.corePorts.Nodup := by decide

/-- SOURCE: core/src/sys/boot.rs:164-175 -/
theorem get_corePorts {cpu : CpuManager} {ports : HashMap String Handle}
    (hports : Boot.registerCorePorts (startedKernel cpu HashMap.empty) =
      .ok (startedKernel cpu ports)) (name : String) :
    ports.get name = (Boot.corePorts.idxOf? name).map Boot.portHandle := by
  unfold Boot.registerCorePorts at hports
  rw [registerPorts_eq] at hports
  obtain ⟨named, hnamed, hkernel⟩ := map_eq_ok hports
  have hsame : named = ports := congrArg Kernel.namedPorts hkernel
  have hnodup : (Boot.corePorts.zipIdx.map Prod.fst).Nodup := by
    rw [List.zipIdx_map_fst]
    exact corePorts_nodup
  have hget := get_foldlM_tryInsert hnodup (hsame ▸ hnamed) name
  rw [hget, lookup_zipIdx]
  cases Boot.corePorts.idxOf? name with
  | none => rfl
  | some i => rfl

/-! ## The kernel that boot starts -/

/-- The calls that make the same objects. -/
def bootCalls : List KernelCall :=
  [.createProcess "kernel" Boot.KERNEL_BASE Boot.KERNEL_CODE_SIZE,
    .mapProcessMemory 1 0x80000 0x400000 .RX .codeStatic,
    .mapProcessMemory 1 0x480000 0x100000 .RW .stack,
    .createMainThread 1 Boot.KERNEL_BASE Boot.KERNEL_STACK_TOP,
    .createProcess "qlaunch" Boot.QLAUNCH_BASE Boot.QLAUNCH_CODE_SIZE,
    .mapProcessMemory 2 0x1000000 0x800000 .RX .codeStatic,
    .mapProcessMemory 2 0x1800000 0x100000 .RW .stack,
    .createMainThread 2 Boot.QLAUNCH_BASE Boot.QLAUNCH_STACK_TOP]

/-- The processes, threads and slots of the machine are those of a reached kernel. -/
theorem booted_run (b : Build) (emu : Emulator) (cpu : CpuManager) (ports : HashMap String Handle) :
    ∃ s, Session.new.run b emu bootCalls = .ok s ∧
      s.kernel.processes = (bootedKernel cpu ports).processes ∧
      s.kernel.nextPid = (bootedKernel cpu ports).nextPid ∧
      s.kernel.runningOn = (bootedKernel cpu ports).runningOn := by
  cases b with
  | debug => exact ⟨_, rfl, rfl, rfl, rfl⟩
  | release => exact ⟨_, rfl, rfl, rfl, rfl⟩

/-- Whether a kernel is tidy depends on its processes, its counter and its slots only. -/
theorem tidy_of_objects {k k' : Kernel} (h : Tidy k) (hprocesses : k.processes = k'.processes)
    (hpid : k.nextPid = k'.nextPid) (hslots : k.runningOn = k'.runningOn) : Tidy k' := by
  obtain ⟨⟨hcounter, hroom, hpids, hprocess⟩, hrun, hvacant⟩ := h
  have hthreads : threadAt k = threadAt k' := by
    unfold threadAt Kernel.thread
    rw [hprocesses]
  have hrunnable : runnable k = runnable k' := by
    unfold runnable
    rw [hprocesses]
  unfold AllRunnable at hrun
  rw [hprocesses] at hcounter hroom hpids hprocess
  rw [hpid] at hcounter
  rw [hthreads] at hrun
  rw [hrunnable, hslots] at hvacant
  exact ⟨⟨hcounter, hroom, hpids, hprocess⟩, hrun, hvacant⟩

/-- The booted kernel is tidy. -/
theorem tidy_booted (cpu : CpuManager) (ports : HashMap String Handle) :
    Tidy (bootedKernel cpu ports) := by
  obtain ⟨s, hrun, hprocesses, hpid, hslots⟩ := booted_run .release stuckEmulator cpu ports
  exact tidy_of_objects (reached_tidy (reached_of_run .new hrun)) hprocesses hpid hslots

/-- The booted kernel has the two threads, at their entries. -/
theorem threadAt_booted (cpu : CpuManager) (ports : HashMap String Handle) (r : ThreadRef) :
    (threadAt (bootedKernel cpu ports) r).map (fun t => t.context) = bootedContext r := by
  obtain ⟨pid, tid⟩ := r
  have hprocess : (bootedKernel cpu ports).processes.get pid =
      if pid = 2 then some homeMenuProcess else if pid = 1 then some kernelProcess else none := by
    show ((HashMap.empty.insert 1 kernelProcess).insert 2 homeMenuProcess).get pid = _
    rw [HashMap.get_insert, HashMap.get_insert, HashMap.get_empty]
  unfold threadAt Kernel.thread bootedContext
  rw [hprocess]
  by_cases hpid : pid = 2
  · subst hpid
    have hthread : homeMenuProcess.threads.get tid = if tid = 1 then _ else none :=
      HashMap.get_insert _ _ _ _
    by_cases htid : tid = 1
    · subst htid
      rfl
    · simp [hthread, htid]
  · by_cases hpid' : pid = 1
    · subst hpid'
      have hthread : kernelProcess.threads.get tid = if tid = 1 then _ else none :=
        HashMap.get_insert _ _ _ _
      by_cases htid : tid = 1
      · subst htid
        rfl
      · simp [hthread, htid]
    · simp [hpid, hpid']

/-! ## In any order of its maps -/

section Reorderings

variable {cpu : CpuManager} {ports : HashMap String Handle} {k : Kernel}
  (h : Reordered (bootedKernel cpu ports) k)

include h

/-- So has any kernel that iterates its maps in another order. -/
theorem booted_context (r : ThreadRef) :
    (threadAt k r).map (fun t => t.context) = bootedContext r := by
  rw [reordered_threadAt h]
  exact threadAt_booted cpu ports r

/-- It is tidy as well. -/
theorem booted_tidy : Tidy k := reordered_tidy h (tidy_booted cpu ports)

/-- The scheduler collects the two threads. -/
theorem mem_booted_iff (r : ThreadRef) : r ∈ runnable k ↔ r ∈ [((1, 1) : ThreadRef), (2, 1)] := by
  have htidy := booted_tidy h
  have hkeys := htidy.peopled.keysConsistent
  have hcontext := booted_context h r
  have hlisted : r ∈ [((1, 1) : ThreadRef), (2, 1)] ↔ (bootedContext r).isSome := by
    unfold bootedContext
    rw [List.mem_pair]
    split
    · next hfirst => simp [hfirst]
    · next hfirst =>
        split
        · next hsecond => simp [hsecond]
        · next hsecond => simp [hfirst, hsecond]
  rw [hlisted, ← hcontext, Option.isSome_map]
  constructor
  · intro hr
    obtain ⟨t, ht, -⟩ := exists_thread_of_runnable hkeys hr
    rw [ht]
    rfl
  · intro hsome
    obtain ⟨t, ht⟩ := Option.isSome_iff_exists.mp hsome
    exact mem_runnable hkeys ht (htidy.allRunnable r t ht)

/-- The threads of the machine are at its entries, and no entry is at the end of the address
space. -/
theorem booted_not_overruns (b : Build) : ¬ Overruns b (selected k) (board k) := by
  rintro ⟨-, i, r, c, -, hc, hlate⟩
  rw [board_context, booted_context h] at hc
  unfold bootedContext at hc
  split at hc
  · cases hc
    exact absurd hlate (by decide)
  · split at hc
    · cases hc
      exact absurd hlate (by decide)
    · cases hc

/-- The machine takes a step in either build. -/
theorem booted_steps (b : Build) (emu : Emulator) : ∃ k', k.step b emu = .ok k' :=
  (step_returns_iff (booted_tidy h).peopled.keysConsistent (booted_tidy h).fresh).mpr
    (booted_not_overruns h b)

/-- Handles of threads and of ports are different numbers. -/
theorem booted_ports_apart
    (hports : ∀ name, ports.get name = (Boot.corePorts.idxOf? name).map Boot.portHandle) :
    Unambiguous k := by
  intro name handle hget
  have hnamed : ports.get name = some handle := by
    rw [h.fields] at hget
    exact hget
  rw [hports] at hnamed
  obtain ⟨i, hi, rfl⟩ := Option.map_eq_some_iff.mp hnamed
  have hlt : i < 30 := (List.idxOf?_eq_some_iff.mp hi).1
  have hport : (Boot.portHandle i).toNat = 0x2000 + i := portHandle_toNat (by omega)
  have hfirst : Boot.portHandle i ≠ 0x1000 := by
    intro heq
    rw [heq] at hport
    have hvalue : (0x1000 : Handle).toNat = 0x1000 := rfl
    omega
  have hsecond : Boot.portHandle i ≠ 0x1001 := by
    intro heq
    rw [heq] at hport
    have hvalue : (0x1001 : Handle).toNat = 0x1001 := rfl
    omega
  rw [h.fields]
  show ((HashMap.empty.insert 0x1000 (1, 1)).insert 0x1001 (2, 1)).get (Boot.portHandle i) = none
  rw [HashMap.get_insert, HashMap.get_insert, if_neg hsecond, if_neg hfirst, HashMap.get_empty]

end Reorderings

/-- However its maps iterate, the booted kernel is the machine of its image. -/
theorem booted_machine (b : Build) (emu : Emulator) {image : List UInt8}
    {ports : HashMap String Handle}
    (hports : ∀ name, ports.get name = (Boot.corePorts.idxOf? name).map Boot.portHandle)
    {k : Kernel} (h : Reordered (bootedKernel (coresOver (bootedMemory image)) ports) k) :
    BootedMachine b emu image k := by
  have htidy := booted_tidy h
  have hkeys := htidy.peopled.keysConsistent
  refine ⟨?_, booted_context h, ?_, ?_, ?_, booted_ports_apart h hports,
    takesTurns_of_fresh hkeys htidy.fresh⟩
  · rw [h.fields]
    rfl
  · exact (List.perm_ext_iff_of_nodup (runnable_nodup hkeys) (by decide)).mpr (mem_booted_iff h)
  · intro handle
    rw [h.fields]
    show ((HashMap.empty.insert 0x1000 (1, 1)).insert 0x1001 (2, 1)).get handle = _
    rw [HashMap.get_insert, HashMap.get_insert, HashMap.get_empty]
    unfold bootedHandle
    by_cases hfirst : handle = 0x1000
    · rw [hfirst]
      rfl
    · rw [if_neg hfirst, if_neg hfirst]
  · intro name
    rw [h.fields]
    exact hports name

/-! ## Outcomes -/

section Outcomes

variable {b : Build} {emu : Emulator} {host : Boot.Host} {config : Boot.FirmwareConfig}

/-- A boot that opens the NAND, by whether starting the host services returns.
SOURCE: core/src/sys/boot.rs:82-210 -/
theorem bootsFrom_of_image {nand : Nand} {image : List UInt8}
    (hnand : host.openFile config.nandPath >>= Nand.openFile b = .ok nand)
    (himage : Boot.kernelImage b host config = .ok image) (hlen : image.length < 2 ^ 63) :
    BootsFrom b emu host config image := by
  have hfits : Boot.KERNEL_BASE.toNat + image.length ≤ 2 ^ 64 := by
    show 0x80000 + image.length ≤ 2 ^ 64
    omega
  obtain ⟨ports, hregister, hload⟩ := loadAndStart_eq b emu himage hfits
  have hports := get_corePorts hregister
  have hkernel := loadKernel_eq b emu hfits
  have hsame (k : Kernel) : Reordered k k :=
    ⟨rfl, fun pid => by
      cases k.processes.get pid with
      | none => exact .none
      | some p => exact .some ⟨rfl, fun _ => rfl⟩⟩
  refine ⟨fun hservices => ?_, fun hservices => ?_, ?_⟩
  · obtain ⟨k, hstep⟩ := booted_steps (hsame _) b emu
    refine ⟨nand, _, k, hnand, hload, hstep, ?_⟩
    have hreturns : Boot.startHostServices host = .ok () := if_pos hservices
    unfold Boot.boot
    rw [hnand]
    simp only [himage, hkernel, hreturns, hregister, startHomeMenu_eq, ok_bind, hstep]
    rfl
  · have hstops : Boot.startHostServices host = .error .panic := by
      unfold Boot.startHostServices
      rw [hservices]
      rfl
    unfold Boot.boot
    rw [hnand]
    simp only [himage, hkernel, hstops, ok_bind]
    rfl
  · intro k₀ hk₀ k' hreorder
    rw [hload] at hk₀
    cases hk₀
    exact ⟨booted_machine b emu hports hreorder, booted_steps hreorder b emu⟩

end Outcomes

end Oboromi.Analysis
