import Oboromi.Model.Kernel

/-!
# What a scheduler step is for

Stated on kernels before and after one step, without the loops: which threads may run, which
slot each core has during the step (`slot`), and what the step owes to the threads.

A core executes exactly when its slot is occupied, and the step does not touch the slots
after it has assigned them, so `runningOn` of the kernel it returns says what was executed.
-/

set_option autoImplicit false

namespace Oboromi.Interface

open Oboromi.Lib Oboromi.Model

/-- A (pid, tid) pair. -/
abbrev ThreadRef := ProcessId × ThreadId

/-- The thread is one the scheduler may run. -/
def Runnable (t : Thread) : Prop := t.state = .ready ∨ t.state = .running

instance (t : Thread) : Decidable (Runnable t) :=
  inferInstanceAs (Decidable (t.state = .ready ∨ t.state = .running))

/-- The thread is one the scheduler must leave alone. -/
def Parked (t : Thread) : Prop :=
  t.state = .waiting ∨ t.state = .terminated ∨ t.state = .created

/-- A thread is parked exactly when the scheduler does not collect it. -/
theorem parked_iff_not_runnable (t : Thread) : Parked t ↔ ¬ Runnable t := by
  unfold Parked Runnable
  cases t.state <;> simp

/-- The thread a pair names. -/
def threadAt (k : Kernel) (r : ThreadRef) : Option Thread := k.thread r.1 r.2

/-- The runnable threads, in the order the maps iterate. -/
def runnable (k : Kernel) : List ThreadRef :=
  k.processes.values.flatMap fun p =>
    (p.threads.values.filter fun t => decide (Runnable t)).map fun t => (p.pid, t.id)

/-- The threads a step selects: as many of the runnable ones as there are cores. -/
def selected (k : Kernel) : List ThreadRef := (runnable k).take CORE_COUNT

/-- The slot of a core during a step: the thread selected for it, or what an earlier step
left there. -/
def slot (k : Kernel) (i : Fin CORE_COUNT) : Option ThreadRef :=
  (runnable k)[i.val]?.or (k.runningOn.get i)

/-- The core as it starts the step: with the selected thread's registers loaded, or as it
was. -/
def startCore (k : Kernel) (i : Fin CORE_COUNT) : UnicornCPU :=
  match (runnable k)[i.val]?.bind (threadAt k) with
  | some t => Kernel.loadContext t.context (k.cpu.cores.get i)
  | none => k.cpu.cores.get i

/-! ## Slots -/

/-- What one step owes to the threads: no pair on two cores, no parked thread executed or
changed, no slot for a thread that was not selected. -/
structure RunsSelected (k k' : Kernel) : Prop where
  distinct : ∀ (i j : Fin CORE_COUNT) (r : ThreadRef),
    k'.runningOn.get i = some r → k'.runningOn.get j = some r → i = j
  parked : ∀ (r : ThreadRef) (t : Thread), threadAt k r = some t → Parked t →
    (∀ i : Fin CORE_COUNT, k'.runningOn.get i ≠ some r) ∧ threadAt k' r = some t
  selected : ∀ (i : Fin CORE_COUNT) (r : ThreadRef),
    k'.runningOn.get i = some r → r ∈ selected k

/-- No slot is left over from an earlier step: the cores no runnable thread is selected for
are idle, and the selected threads are distinct and really are runnable. -/
structure SlotsFresh (k : Kernel) : Prop where
  vacant : ∀ i : Fin CORE_COUNT, (runnable k).length ≤ i.val → k.runningOn.get i = none
  distinct : (selected k).Nodup
  runnable : ∀ r ∈ selected k, ∀ t, threadAt k r = some t → Runnable t

/-- Every process and thread is stored under its own id. -/
structure KeysConsistent (k : Kernel) : Prop where
  process : ∀ (pid : ProcessId) (p : Process), k.processes.get pid = some p → p.pid = pid
  thread : ∀ (pid : ProcessId) (p : Process) (tid : ThreadId) (t : Thread),
    k.processes.get pid = some p → p.threads.get tid = some t → t.id = tid

/-! ## Progress -/

/-- The Ready threads, by the keys they are stored under. -/
def readyRefs (k : Kernel) : List ThreadRef :=
  k.processes.entries.flatMap fun (pid, p) =>
    (p.threads.entries.filter fun (_, t) => decide (t.state = .ready)).map
      fun (tid, _) => (pid, tid)

/-- The steps in which eight cores get through the Ready threads. -/
def rounds (k : Kernel) : ℕ := ((readyRefs k).length + 7) / 8

/-- Consecutive steps. -/
def steps (b : Build) (emu : Emulator) : ℕ → Kernel → Except Fault Kernel
  | 0, k => .ok k
  | n + 1, k => k.step b emu >>= steps b emu n

/-- In a step from `k` the thread is loaded onto a core, and the core executes with it. -/
def LoadedAndRun (b : Build) (emu : Emulator) (k : Kernel) (r : ThreadRef) : Prop :=
  ∃ (i : Fin CORE_COUNT) (t : Thread) (s s' : Kernel),
    threadAt k r = some t ∧ k.assign.runningOn.get i = some r ∧
    k.assign.cpu.cores.get i = Kernel.loadContext t.context (k.cpu.cores.get i) ∧
    ((List.finRange CORE_COUNT).take i).foldlM (Kernel.executeCore b emu) k.assign = .ok s ∧
    s.runningOn.get i = some r ∧ s.cpu.cores.get i = k.assign.cpu.cores.get i ∧
    Kernel.executeCore b emu s i = .ok s'

/-- Every Ready thread gets a turn in as many steps as eight cores need for all of them. -/
def EachRuns (b : Build) (emu : Emulator) (k : Kernel) : Prop :=
  ∀ r ∈ readyRefs k, ∃ j kj, j < rounds k ∧ steps b emu j k = .ok kj ∧
    LoadedAndRun b emu kj r

/-! ## Contexts -/

/-- One step of the emulator from a saved context. -/
def runOnce (emu : Emulator) (context : CpuContext) (mem : SharedMemory) :
    CpuContext × SharedMemory :=
  emu.start context.pc (context.pc + 4) context mem

/-- The shared memory when a core's turn comes. -/
def memoryAtTurn (b : Build) (emu : Emulator) (k : Kernel) (i : Fin CORE_COUNT) :
    Except Fault SharedMemory :=
  (((List.finRange CORE_COUNT).take i).foldlM (Kernel.executeCore b emu) k.assign).map
    fun k => k.cpu.sharedMemory

/-- One step keeps the threads' contexts apart: what is saved for a thread depends neither on
what earlier threads left in the cores, nor on anything but the thread's own saved context
and the shared memory. -/
structure Isolated (b : Build) (emu : Emulator) (k : Kernel) : Prop where
  leftovers : ∀ (cores : Vector UnicornCPU CORE_COUNT) (k₁ k₂ : Kernel),
    k.step b emu = .ok k₁ →
    { k with cpu := { k.cpu with cores := cores } }.step b emu = .ok k₂ →
    ∀ r, (threadAt k₁ r).map (fun t => t.context) = (threadAt k₂ r).map (fun t => t.context)
  own : ∀ k' : Kernel, k.step b emu = .ok k' →
    ∀ (i : Fin CORE_COUNT) (r : ThreadRef) (t : Thread),
      k'.runningOn.get i = some r → threadAt k r = some t →
      ∃ mem, memoryAtTurn b emu k i = .ok mem ∧
        (threadAt k' r).map (fun t => t.context) = some (runOnce emu t.context mem).1

/-- The step panics in a debug build: some core would run past the end of the address
space. -/
def Aborts (b : Build) (k : Kernel) : Prop :=
  b = .debug ∧ ∃ i : Fin CORE_COUNT, (slot k i).isSome ∧
    2 ^ 64 ≤ (startCore k i).getPc.toNat + 4

/-- An emulator that neither reads nor writes the flags and the thread-local pointer. -/
def IgnoresFlags (emu : Emulator) : Prop :=
  ∀ (start stop : UInt64) (regs : CpuContext) (mem : SharedMemory) (pstate : UInt32)
    (tpidr : UInt64),
    emu.start start stop { regs with pstate := pstate, tpidrEl0 := tpidr } mem =
      ({ (emu.start start stop regs mem).1 with pstate := pstate, tpidrEl0 := tpidr },
        (emu.start start stop regs mem).2)

/-- Every occupied slot belongs to a thread of its own, selected in this step. -/
structure SlotsOwned (k : Kernel) : Prop where
  vacant : ∀ i : Fin CORE_COUNT, (runnable k).length ≤ i.val → k.runningOn.get i = none
  distinct : (selected k).Nodup
  exists_thread : ∀ r ∈ selected k, ∃ t, threadAt k r = some t

end Oboromi.Interface
