import Oboromi.Interface.Scheduling

/-!
# Runs of the kernel, and what its object tables owe each other

A run is any sequence of the kernel's public calls on a new kernel.  The session it leaves
keeps, besides the kernel, every thread that was created with the handle that was returned
for it, in order.  `Consistent` relates the three maps and the counters to each other and to
that record.
-/

set_option autoImplicit false

namespace Oboromi.Interface

open Oboromi.Lib Oboromi.Model

/-- A call of the kernel's public interface. -/
inductive KernelCall where
  | createProcess (name : String) (codeBase codeSize : UInt64)
  | createMainThread (pid : ProcessId) (entry stackTop : UInt64)
  | mapProcessMemory (pid : ProcessId) (base size : UInt64) (perm : MemoryPermission)
      (state : MemoryState)
  | registerPort (name : String) (handle : Handle)
  | step

/-- A thread that was created, and the handle that was returned for it. -/
structure Created where
  handle : Handle
  thread : ThreadRef
  deriving DecidableEq

/-- A kernel and what was created on it. -/
structure Session where
  kernel : Kernel
  created : List Created

namespace Session

/-- A kernel nothing was created on. -/
def new : Session := ⟨Kernel.new, []⟩

variable (b : Build) (emu : Emulator)

/-- One call. -/
def call (s : Session) : KernelCall → Except Fault Session
  | .createProcess name codeBase codeSize => do
      let r ← s.kernel.createProcess b name codeBase codeSize
      return { s with kernel := r.2 }
  | .createMainThread pid entry stackTop => do
      let r ← s.kernel.createMainThread b pid entry stackTop
      let made := r.1.map fun p => Created.mk p.1 (pid, p.2)
      return { kernel := r.2, created := s.created ++ made.toList }
  | .mapProcessMemory pid base size perm state =>
      return { s with kernel := s.kernel.mapProcessMemory pid base size perm state }
  | .registerPort name handle => do
      let k ← s.kernel.registerPort name handle
      return { s with kernel := k }
  | .step => do
      let k ← s.kernel.step b emu
      return { s with kernel := k }

/-- Consecutive calls. -/
def run (s : Session) (calls : List KernelCall) : Except Fault Session :=
  calls.foldlM (call b emu) s

end Session

/-- The object tables of a session agree with each other and with what was returned. -/
structure Consistent (s : Session) : Prop where
  process : ∀ (pid : ProcessId) (p : Process), s.kernel.processes.get pid = some p →
    p.pid = pid ∧ pid < s.kernel.nextPid
  thread : ∀ (pid : ProcessId) (p : Process) (tid : ThreadId) (t : Thread),
    s.kernel.processes.get pid = some p → p.threads.get tid = some t →
    t.id = tid ∧ tid < p.nextThreadId ∧ t.ownerPid = pid
  target : ∀ (h : Handle) (r : ThreadRef), s.kernel.handleTable.get h = some r →
    ∃ t, threadAt s.kernel r = some t
  injective : ∀ (h h' : Handle) (r : ThreadRef), s.kernel.handleTable.get h = some r →
    s.kernel.handleTable.get h' = some r → h = h'
  handle : ∀ (r : ThreadRef) (t : Thread), threadAt s.kernel r = some t →
    ∃ h, ⟨h, r⟩ ∈ s.created ∧ (∀ h', ⟨h', r⟩ ∈ s.created → h' = h) ∧
      ∀ h', s.kernel.handleTable.get h' = some r ↔ h' = h

/-- How many handles may be allocated before the counter wraps. -/
def HANDLES : ℕ := 2 ^ 32 - 0x1000

end Oboromi.Interface
