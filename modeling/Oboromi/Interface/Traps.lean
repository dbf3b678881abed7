import Oboromi.Interface.VirtualCores

/-!
# Timeslices and traps

A kernel gives out timeslices, and between them handles supervisor calls that trapped on a core.
What a run of both does is compared with the threads' turns alone: a call is answered in the
registers of a core, and a timeslice loads every core it runs from the thread that was saved.
-/

set_option autoImplicit false

namespace Oboromi.Interface

open Oboromi.Lib Oboromi.Model

/-- A timeslice, or a call that trapped on a core while the host's clock stands at `now`. -/
inductive KernelEvent where
  | step
  | svc (now coreId : ℕ) (svcNum : UInt8)
  deriving DecidableEq

namespace KernelEvent

def isStep : KernelEvent → Bool
  | .step => true
  | .svc _ _ _ => false

/-- A trap comes from one of the cores. -/
def OnCore : KernelEvent → Prop
  | .step => True
  | .svc _ coreId _ => coreId < CORE_COUNT

end KernelEvent

variable (b : Build) (emu : Emulator)

def happen (k : Kernel) : KernelEvent → Except Fault Kernel
  | .step => k.step b emu
  | .svc now coreId svcNum => k.handleSvc now coreId svcNum

/-- A run of timeslices and traps. -/
def happenAll (k : Kernel) (events : List KernelEvent) : Except Fault Kernel :=
  events.foldlM (happen b emu) k

/-- The number of timeslices of a run. -/
def timeslices (events : List KernelEvent) : ℕ := events.countP KernelEvent.isStep

/-- The kernels that calls and traps reach on a new one, in whatever orders the maps iterate. -/
inductive ReachedTrapping : Kernel → Prop
  | new : ReachedTrapping Kernel.new
  | call {s s' : Session} (c : KernelCall) (before : ReachedTrapping s.kernel)
      (returns : s.call b emu c = .ok s') : ReachedTrapping s'.kernel
  | svc {k k' : Kernel} (now coreId : ℕ) (svcNum : UInt8) (before : ReachedTrapping k)
      (returns : k.handleSvc now coreId svcNum = .ok k') : ReachedTrapping k'
  | reordered {k k' : Kernel} (before : ReachedTrapping k) (same : Reordered k k') :
      ReachedTrapping k'

/-- Traps leave no trace in a run from `k`: it returns as long as every trap is on a core and no
thread overruns in a timeslice, and then the threads, the leftovers of the cores and the memory are
what the timeslices alone leave. -/
structure TrapsVanish (k : Kernel) : Prop where
  returns : ∀ events : List KernelEvent, (∃ k', happenAll b emu k events = .ok k') ↔
    (∀ e ∈ events, e.OnCore) ∧ ∀ j < timeslices events,
      ¬ Overruns b (selected k) ((threadRound emu (selected k))^[j] (board k))
  rounds : ∀ (events : List KernelEvent) (k' : Kernel), happenAll b emu k events = .ok k' →
    board k' = (threadRound emu (selected k))^[timeslices events] (board k)
  candidates : ∀ (events : List KernelEvent) (k' : Kernel), happenAll b emu k events = .ok k' →
    runnable k' = runnable k
  others : ∀ (events : List KernelEvent) (k' : Kernel), happenAll b emu k events = .ok k' →
    ∀ r ∉ selected k, threadAt k' r = threadAt k r

end Oboromi.Interface
