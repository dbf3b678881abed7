import Oboromi.Interface.BootRuns
import Oboromi.Interface.VirtualCores

/-!
# The machine that boot starts

Boot leads every host to one machine that depends on nothing but the image: two processes with
a thread each at its entry, 30 ports, two handles, and a memory that is the image and a stub.
Its maps may iterate in any order.

Whether boot gets there depends on the NAND file and on whether starting the host services returns,
and the image on what else the host holds: a file at the package's path, or a package in the SYSTEM
partition, or else the stub.
-/

set_option autoImplicit false

namespace Oboromi.Interface

open Oboromi.Lib Oboromi.Model

/-- The context of a thread that has not run. -/
def entryContext (entry stackTop : UInt64) : CpuContext :=
  { CpuContext.default with pc := entry, sp := stackTop }

/-- The threads of the machine. -/
def bootedContext (r : ThreadRef) : Option CpuContext :=
  if r = (1, 1) then some (entryContext Boot.KERNEL_BASE Boot.KERNEL_STACK_TOP)
  else if r = (2, 1) then some (entryContext Boot.QLAUNCH_BASE Boot.QLAUNCH_STACK_TOP)
  else none

/-- The threads its handles name. -/
def bootedHandle (handle : Handle) : Option ThreadRef :=
  if handle = 0x1000 then some (1, 1) else if handle = 0x1001 then some (2, 1) else none

/-- Zeros, as much of the image as there is room for, and the stub of the home menu over them. -/
def bootedMemory (image : List UInt8) : SharedMemory :=
  (Kernel.new.cpu.sharedMemory.overlay Boot.KERNEL_BASE.toNat image).overlay
    Boot.QLAUNCH_BASE.toNat Boot.stubKernel

/-- A kernel is the booted machine of an image. -/
structure BootedMachine (b : Build) (emu : Emulator) (image : List UInt8) (k : Kernel) :
    Prop where
  memory : k.cpu.sharedMemory = bootedMemory image
  threads : ∀ r, (threadAt k r).map (fun t => t.context) = bootedContext r
  candidates : (runnable k).Perm [(1, 1), (2, 1)]
  handles : ∀ handle, k.handleTable.get handle = bootedHandle handle
  ports : ∀ name, k.connectToPort name = (Boot.corePorts.idxOf? name).map Boot.portHandle
  unambiguous : Unambiguous k
  turns : TakesTurns b emu k

/-- Boot comes to the image.  When starting the host services returns, it runs to its end: it
starts the machine, in whatever order its maps iterate, and the machine takes one step.  When it
does not, neither does boot. -/
structure BootsFrom (b : Build) (emu : Emulator) (host : Boot.Host) (config : Boot.FirmwareConfig)
    (image : List UInt8) : Prop where
  finishes : host.servicesReturn = true →
    ∃ nand k₀ k, host.openFile config.nandPath >>= Nand.openFile b = .ok nand ∧
      Boot.loadAndStart b emu host config = .ok (image, k₀) ∧ k₀.step b emu = .ok k ∧
      Boot.boot b emu host config =
        .ok { phase := .running, nand := some nand, kernel := some { k with booted := true } }
  stops : host.servicesReturn = false → Boot.boot b emu host config = .error .panic
  machine : ∀ k₀, Boot.loadAndStart b emu host config = .ok (image, k₀) →
    ∀ k, Reordered k₀ k → BootedMachine b emu image k ∧ ∃ k', k.step b emu = .ok k'

/-- What boot does on a host: it fails when the NAND does not open, and otherwise it comes to the
image it finds, of any length that a vector can have, or to the stub. -/
structure BootOutcome (b : Build) (emu : Emulator) (host : Boot.Host)
    (config : Boot.FirmwareConfig) : Prop where
  fails : ∀ e, host.openFile config.nandPath >>= Nand.openFile b = .error (.io e) →
    Boot.boot b emu host config = .ok { phase := .failed, nand := none, kernel := none }
  found : ∀ nand image, host.openFile config.nandPath >>= Nand.openFile b = .ok nand →
    Boot.loadKernelImage b host config = .ok image → image.length < 2 ^ 63 →
    BootsFrom b emu host config image
  stub : ∀ nand e, host.openFile config.nandPath >>= Nand.openFile b = .ok nand →
    Boot.loadKernelImage b host config = .error (.io e) →
    BootsFrom b emu host config Boot.stubKernel

end Oboromi.Interface
