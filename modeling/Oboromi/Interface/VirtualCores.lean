import Oboromi.Interface.KernelRuns
import Oboromi.Interface.Scheduling
import Oboromi.Lib.Turns

/-!
# The scheduler as threads that take turns

What `Kernel.step` is for, without slots, loads and saves: every selected thread runs one
instruction from its own saved registers, in the order of the cores, on the one shared memory.
A core contributes only the two fields that are never loaded nor saved, the flags and the
thread-local pointer, which a thread finds as the last instruction of that core left them.

The kernels are those a client can reach.  A host map may iterate in another order after an
insertion, so a kernel may be reordered between two calls, but not within a run of steps, which
insert nothing.
-/

set_option autoImplicit false

namespace Oboromi.Interface

open Oboromi.Lib Oboromi.Model

/-- The flags and the thread-local pointer of a core. -/
abbrev Leftover := UInt32 × UInt64

abbrev ThreadBoard := Board ThreadRef (Fin CORE_COUNT) CpuContext Leftover SharedMemory

/-- One instruction of a thread, on a core with the given leftover.  The thread keeps its own
two fields. -/
def runOn (emu : Emulator) (context : CpuContext) (left : Leftover) (mem : SharedMemory) :
    CpuContext × Leftover × SharedMemory :=
  let out := runOnce emu { context with pstate := left.1, tpidrEl0 := left.2 } mem
  ({ out.1 with pstate := context.pstate, tpidrEl0 := context.tpidrEl0 },
    (out.1.pstate, out.1.tpidrEl0), out.2)

/-- The threads of a kernel, what its cores hold of the two fields, and its memory. -/
def board (k : Kernel) : ThreadBoard where
  context := fun r => (threadAt k r).map fun t => t.context
  leftover := fun i => ((k.cpu.cores.get i).regs.pstate, (k.cpu.cores.get i).regs.tpidrEl0)
  memory := k.cpu.sharedMemory

/-- The contexts on the board are those of the kernel's threads. -/
theorem board_context (k : Kernel) (r : ThreadRef) :
    (board k).context r = (threadAt k r).map fun t => t.context := rfl

/-- What a core keeps is what the switches between threads do not load. -/
theorem board_leftover (k : Kernel) (i : Fin CORE_COUNT) :
    (board k).leftover i =
      ((k.cpu.cores.get i).regs.pstate, (k.cpu.cores.get i).regs.tpidrEl0) := rfl

/-- The board has the memory the cores share. -/
theorem board_memory (k : Kernel) : (board k).memory = k.cpu.sharedMemory := rfl

/-- The seating of a list of threads: one on each core as far as they go. -/
def seating (order : List ThreadRef) (i : Fin CORE_COUNT) : Option ThreadRef := order[i.val]?

/-- One round of the listed threads. -/
def threadRound (emu : Emulator) (order : List ThreadRef) (s : ThreadBoard) : ThreadBoard :=
  s.round (runOn emu) (seating order) (List.finRange CORE_COUNT)

/-- Some thread's next instruction ends past the address space, which panics in a debug
build. -/
def Overruns (b : Build) (order : List ThreadRef) (s : ThreadBoard) : Prop :=
  b = .debug ∧ ∃ (i : Fin CORE_COUNT) (r : ThreadRef) (c : CpuContext),
    seating order i = some r ∧ s.context r = some c ∧ 2 ^ 64 ≤ c.pc.toNat + 4

/-- The scheduler from `k` is threads taking turns: the steps return as long as no thread
overruns, and then the threads, the leftovers and the memory are what as many rounds of the
first eight candidates leave.  The candidates stay the same, and the other threads are not
touched. -/
structure TakesTurns (b : Build) (emu : Emulator) (k : Kernel) : Prop where
  returns : ∀ n : ℕ, (∃ k', steps b emu n k = .ok k') ↔
    ∀ j < n, ¬ Overruns b (selected k) ((threadRound emu (selected k))^[j] (board k))
  rounds : ∀ (n : ℕ) (k' : Kernel), steps b emu n k = .ok k' →
    board k' = (threadRound emu (selected k))^[n] (board k)
  candidates : ∀ (n : ℕ) (k' : Kernel), steps b emu n k = .ok k' → runnable k' = runnable k
  others : ∀ (n : ℕ) (k' : Kernel), steps b emu n k = .ok k' →
    ∀ r ∉ selected k, threadAt k' r = threadAt k r

/-- A process whose thread map may iterate in another order. -/
structure SameProcess (p p' : Process) : Prop where
  fields : p' = { p with threads := p'.threads }
  threads : ∀ tid, p'.threads.get tid = p.threads.get tid

/-- A kernel whose maps may iterate in another order. -/
structure Reordered (k k' : Kernel) : Prop where
  fields : k' = { k with processes := k'.processes }
  processes : ∀ pid, Option.Rel SameProcess (k.processes.get pid) (k'.processes.get pid)

/-- The kernels that calls on a new one reach, in whatever orders the maps iterate. -/
inductive Reached (b : Build) (emu : Emulator) : Kernel → Prop
  | new : Reached b emu Kernel.new
  | call {s s' : Session} (c : KernelCall) (before : Reached b emu s.kernel)
      (returns : s.call b emu c = .ok s') : Reached b emu s'.kernel
  | reordered {k k' : Kernel} (before : Reached b emu k) (same : Reordered k k') :
      Reached b emu k'

end Oboromi.Interface
