import Oboromi.Analysis.SvcOutputs

/-!
# Calls without a handler

A call that the table does not list, and one that it lists but `dispatch` has no arm for, end
in one of the two fallback arms.  They log the call, leave the registers alone and return the
same code as a handler that did its work.
-/

set_option autoImplicit false

namespace Oboromi.Analysis

open Oboromi.Lib Oboromi.Model

/-- The calls that `dispatch` has an arm for.
SOURCE: core/src/sys/svc.rs:172-294 -/
def HasArm : SvcId → Prop
  | .setHeapSize | .queryMemory | .exitProcess | .createThread | .startThread | .exitThread
  | .sleepThread | .getThreadPriority | .getCurrentProcessorNumber | .closeHandle
  | .waitSynchronization | .arbitrateLock | .arbitrateUnlock | .waitProcessWideKeyAtomic
  | .signalProcessWideKey | .getSystemTick | .connectToNamedPort | .sendSyncRequest
  | .getProcessId | .getThreadId | .break | .outputDebugString | .getInfo | .mapPhysicalMemory
  | .callSecureMonitor => True
  | _ => False

/-- The table does not list the number, or `dispatch` has no arm for it. -/
def Unhandled (id : UInt8) : Prop := ∀ svc, SvcId.fromU8 id = some svc → ¬ HasArm svc

/-- The guest reads a failure in X0, and its other registers are as they were. -/
structure ReportsFailure (before after : UnicornCPU) : Prop where
  failed : after.getX 0 ≠ 0
  others : ∀ r : Fin 31, r ≠ 0 → after.getX r = before.getX r

/-- Both fallback arms do nothing and succeed. -/
theorem dispatch_fallback {id : UInt8} (h : Unhandled id) (now : ℕ) : Writes now id fun x => x := by
  intro x
  unfold Svc.dispatch
  cases hid : SvcId.fromU8 id with
  | none => rfl
  | some svc =>
      have harm := h svc hid
      cases svc
      all_goals first
        | rfl
        | exact absurd trivial harm

/-- The other registers of an unhandled call do come back. -/
theorem answered_fallback {now : ℕ} {id : UInt8} (h : Unhandled id) (core : UnicornCPU)
    {r : Fin 31} (hr : r ≠ 0) : (answered now id core).getX r = core.getX r := by
  rw [answered_of_ne hr, dispatch_fallback h now, getX_eq]

/-- The result code of no call is a failure. -/
theorem not_reportsFailure_answered (now : ℕ) (id : UInt8) (core : UnicornCPU) :
    ¬ ReportsFailure core (answered now id core) := fun h => h.failed answered_result

/-- **A call without a handler leaves success in X0**, with X1 to X30 as they were, whatever
the number, the core, the registers and the clock.
SOURCE: core/src/sys/svc.rs:295-304, core/src/sys/kernel.rs:176-197 -/
theorem unhandled_svc_reports_success (now : ℕ) (k : Kernel) (coreId : Fin CORE_COUNT)
    (svcNum : UInt8) (h : Unhandled svcNum) :
    ∃ k', k.handleSvc now coreId svcNum = .ok k' ∧
      (k'.cpu.cores.get coreId).getX 0 = 0 ∧
      (∀ r : Fin 31, r ≠ 0 →
        (k'.cpu.cores.get coreId).getX r = (k.cpu.cores.get coreId).getX r) ∧
      ¬ ReportsFailure (k.cpu.cores.get coreId) (k'.cpu.cores.get coreId) := by
  refine ⟨_, handleSvc_eq now k coreId svcNum, ?_⟩
  dsimp only
  rw [get_put_self]
  exact ⟨answered_result, fun r hr => answered_fallback h _ hr,
    not_reportsFailure_answered now svcNum _⟩

/-- 0x34 is not in the table. -/
theorem unlisted_svc_reports_success :
    ∃ k', Kernel.new.handleSvc 0 0 0x34 = .ok k' ∧
      (k'.cpu.cores.get 0).getX 0 = 0 ∧
      (∀ r : Fin 31, r ≠ 0 → (k'.cpu.cores.get 0).getX r = (Kernel.new.cpu.cores.get 0).getX r) ∧
      ¬ ReportsFailure (Kernel.new.cpu.cores.get 0) (k'.cpu.cores.get 0) := by
  have hunhandled : Unhandled 0x34 := by
    intro svc hsvc
    cases hsvc
  exact unhandled_svc_reports_success 0 Kernel.new 0 0x34 hunhandled

/-- 0x13, MapSharedMemory, is in the table and has no arm. -/
theorem map_shared_memory_succeeds :
    Unhandled 0x13 ∧ ∃ k', Kernel.new.handleSvc 0 0 0x13 = .ok k' ∧
      (k'.cpu.cores.get 0).getX 0 = 0 ∧
      ¬ ReportsFailure (Kernel.new.cpu.cores.get 0) (k'.cpu.cores.get 0) := by
  constructor
  · intro svc hsvc
    cases hsvc
    exact id
  · refine ⟨_, handleSvc_eq 0 Kernel.new 0 0x13, ?_⟩
    dsimp only
    rw [get_put_self]
    exact ⟨answered_result, not_reportsFailure_answered 0 0x13 _⟩

end Oboromi.Analysis
