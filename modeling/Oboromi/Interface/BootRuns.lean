import Oboromi.Interface.KernelRuns
import Oboromi.Model.Boot
import Mathlib.Order.CompletePartialOrder

/-!
# What boot leaves: handles that mean one thing, and an image that is intact

Thread handles come from a counter and port handles from boot's literals; a handle value is
unambiguous when it is not both.  The number of threads a run makes can be read off its
calls (`tally`): a main thread is created exactly for a pid that has been given out.

The image is intact when its addresses hold its bytes, and no region but the kernel's code
region reaches into it.
-/

set_option autoImplicit false

namespace Oboromi.Interface

open Oboromi.Lib Oboromi.Model

/-! ## Handles -/

/-- No port's handle is the handle of a thread. -/
def Unambiguous (k : Kernel) : Prop :=
  ∀ (name : String) (h : Handle), k.connectToPort name = some h → k.handleTable.get h = none

/-- The call registers no port. -/
def KeepsPorts : KernelCall → Prop
  | .registerPort _ _ => False
  | _ => True

/-- Boot's named ports, registered by calls. -/
def portCalls : List KernelCall :=
  Boot.corePorts.zipIdx.map fun port => .registerPort port.1 (Boot.portHandle port.2)

/-- A run on which boot's named ports are registered. -/
def portsRun (b : Build) (emu : Emulator) (before after : List KernelCall) :
    Except Fault Session := do
  let s ← Session.new.run b emu before
  let k ← Boot.registerCorePorts s.kernel
  Session.run b emu { s with kernel := k } after

/-- One call's part in the number of processes and the number of threads. -/
def tally (n : ℕ × ℕ) : KernelCall → ℕ × ℕ
  | .createProcess _ _ _ => (n.1 + 1, n.2)
  | .createMainThread pid _ _ =>
    if 1 ≤ pid.toNat ∧ pid.toNat ≤ n.1 then (n.1, n.2 + 1) else n
  | _ => n

/-- The threads the calls of a run make. -/
def threadsMade (calls : List KernelCall) : ℕ := (calls.foldl tally (0, 0)).2

/-! ## The image -/

/-- The addresses of `len` bytes. -/
def addressRange (base len : ℕ) : Set ℕ := {a | base ≤ a ∧ a < base + len}

/-- A region of a process other than the kernel process's code. -/
def OtherRegion (k : Kernel) (region : MemoryRegion) : Prop :=
  ∃ (pid : ProcessId) (p : Process), k.processes.get pid = some p ∧ region ∈ p.memoryMap ∧
    ¬ (pid = 1 ∧ region.state = .codeStatic)

/-- The image is in memory, inside the kernel process's code region and outside every other
region. -/
structure ImageIntact (k : Kernel) (image : List UInt8) : Prop where
  bytes : ∀ i < image.length,
    some (k.cpu.sharedMemory.byteAt (Boot.KERNEL_BASE.toNat + i)) = image[i]?
  inside : ∃ (p : Process) (region : MemoryRegion), k.processes.get 1 = some p ∧
    region ∈ p.memoryMap ∧ region.state = .codeStatic ∧
    addressRange Boot.KERNEL_BASE.toNat image.length ⊆
      addressRange region.base.toNat region.size.toNat
  apart : ∀ region : MemoryRegion, OtherRegion k region →
    Disjoint (addressRange Boot.KERNEL_BASE.toNat image.length)
      (addressRange region.base.toNat region.size.toNat)

end Oboromi.Interface
