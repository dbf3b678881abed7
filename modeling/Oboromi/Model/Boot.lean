import Oboromi.Model.Kernel
import Oboromi.Model.Partition

/-!
# The boot sequence

Boot opens the NAND, reads a kernel image from a file or from the SYSTEM partition, and
starts a kernel: the image is loaded at `KERNEL_BASE`, the named ports are registered and a
stub of the home menu is loaded at `QLAUNCH_BASE`.  The addresses are constants; the image
has the length it was read with.

The host's files are a function of their paths, as they are when boot reads them.  Between the
kernel process and the ports, boot starts the host services in a state whose GPU part was never
initialised, and drops it: the language says nothing of what comes of that, so whether it
returns is the host's.
-/

set_option autoImplicit false

namespace Oboromi.Model

open Oboromi.Lib

/-! ## The NAND -/

/-- SOURCE: core/src/fs/mod.rs:35-38 -/
structure Nand where
  storage : EmulatedStorage
  partitions : PartitionTable

namespace Nand

variable (b : Build)

/-- Open a NAND image, from the file the host opened or created at the path.
SOURCE: core/src/fs/mod.rs:43-47 -/
def openFile (file : HostFile) : Except Fault Nand := do
  let storage ← EmulatedStorage.openFile file
  let partitions ← PartitionTable.newDefault b storage.totalBlocks
  return { storage, partitions }

/-- Read bytes from a named partition at the given offset.
SOURCE: core/src/fs/mod.rs:50-52 -/
def read (id : PartitionId) (offset : UInt64) (buf : Buffer) : Sys Nand (ℕ × List UInt8) :=
  fun nand =>
    let r := (nand.partitions.readPartition b id offset buf).run nand.storage
    (r.1, { nand with storage := r.2 })

end Nand

/-! ## Boot -/

namespace Boot

/-- Where firmware-related files are located on the host.
SOURCE: core/src/sys/boot.rs:10-20 -/
structure FirmwareConfig where
  nandPath : String
  package2Path : Option String

/-- The host's files: what reading a whole file gives, whether a path exists, and the file
that is opened (or created) there; and whether starting the host services returns. -/
structure Host where
  readFile : String → Except Fault (List UInt8)
  exists_ : String → Bool
  openFile : String → Except Fault HostFile
  servicesReturn : Bool

/-- SOURCE: core/src/sys/boot.rs:34-50 -/
inductive BootPhase where
  | off
  | hardwareInit
  | kernelLoad
  | serviceInit
  | homeMenu
  | running
  | failed
  deriving DecidableEq, Repr

/-- Base address where the kernel is loaded.
SOURCE: core/src/sys/boot.rs:66 -/
def KERNEL_BASE : UInt64 := 0x00080000

/-- Size of the kernel code region (4 MiB).
SOURCE: core/src/sys/boot.rs:68 -/
def KERNEL_CODE_SIZE : UInt64 := 4 * 1024 * 1024

/-- Stack top for the kernel main thread.
SOURCE: core/src/sys/boot.rs:70 -/
def KERNEL_STACK_TOP : UInt64 := KERNEL_BASE + KERNEL_CODE_SIZE + 0x100000

/-- Base address for the home-menu (qlaunch) process.
SOURCE: core/src/sys/boot.rs:73-75 -/
def QLAUNCH_BASE : UInt64 := 0x01000000
def QLAUNCH_CODE_SIZE : UInt64 := 8 * 1024 * 1024
def QLAUNCH_STACK_TOP : UInt64 := QLAUNCH_BASE + QLAUNCH_CODE_SIZE + 0x100000

/-- A buffer of zeros, shorter than 2^32 bytes. -/
def zeros (size : UInt32) : Buffer where
  bytes := List.replicate size.toNat 0
  length_lt := by
    have hsize := size.toNat_lt
    rw [List.length_replicate]
    omega

/-- `u32::from_le_bytes` of the four bytes at 0x10. -/
def packageSize (header : List UInt8) : UInt32 :=
  let byte i := header.getD i 0
  fromLeBytes (byte 0x10) (byte 0x11) (byte 0x12) (byte 0x13)

/-- The package in the SYSTEM partition, if there is one.
SOURCE: core/src/sys/boot.rs:228-249 -/
def readPackage (b : Build) : Sys Nand (Option (List UInt8)) := do
  let header ← Nand.read b .system 0 (zeros 0x200)
  -- "PK21"
  if header.2.take 4 = [0x50, 0x4B, 0x32, 0x31] then
    let size := packageSize header.2
    if 0 < size ∧ size < 64 * 1024 * 1024 then
      let buf ← Nand.read b .system 0x200 (zeros size)
      return some buf.2
    else return none
  else return none

/-- Try to load a kernel/package2 binary from the filesystem.
SOURCE: core/src/sys/boot.rs:217-263 -/
def loadKernelImage (b : Build) (host : Host) (config : FirmwareConfig) :
    Except Fault (List UInt8) :=
  match config.package2Path with
  | some path => host.readFile path
  | none =>
    if host.exists_ config.nandPath then do
      let file ← host.openFile config.nandPath
      let nand ← Nand.openFile b file
      match ← ((readPackage b).run nand).1 with
      | some image => return image
      | none => .error (.io ⟨.notFound, "no PK21 header found in NAND SYSTEM partition"⟩)
    else .error (.io ⟨.notFound, "no firmware image provided"⟩)

/-- Generate a tiny stub kernel: just a BRK #1 instruction.
SOURCE: core/src/sys/boot.rs:266-269 -/
def stubKernel : List UInt8 := toLeBytes 0xD4200020

/-- SOURCE: core/src/sys/boot.rs:165-172 -/
def corePorts : List String :=
  ["sm:", "fsp-srv", "fsp-ldr", "fsp-pr", "set", "set:sys",
    "time:s", "time:u", "hid", "appletOE", "appletAE",
    "nvdrv", "nvdrv:a", "nvdrv:s", "nvdrv:t",
    "vi:m", "vi:s", "vi:u", "lm", "pctl", "acc:u0",
    "nifm:u", "ns:su", "ns:am", "aoc:u", "lr", "ncm",
    "pm:shell", "pm:dmnt", "pm:info"]

/-- The handle of core port `i`. -/
def portHandle (i : ℕ) : Handle := 0x2000 + UInt32.ofNat i

/-- Register core named ports so guest code can discover services.
SOURCE: core/src/sys/boot.rs:173-175 -/
def registerCorePorts (k : Kernel) : Except Fault Kernel :=
  corePorts.zipIdx.foldlM (fun k port => k.registerPort port.1 (portHandle port.2)) k

/-- The process of the kernel or of the home menu: its code region, its stack of a megabyte
and its main thread.  Code is loaded by the caller.
SOURCE: core/src/sys/boot.rs:137-150, core/src/sys/boot.rs:182-199 -/
def mapProcess (k : Kernel) (pid : ProcessId) (base size stackTop : UInt64) : Kernel :=
  let k := k.mapProcessMemory pid base size .RX .codeStatic
  k.mapProcessMemory pid (stackTop - 0x100000) 0x100000 .RW .stack

/-- Create the kernel process + main thread.
SOURCE: core/src/sys/boot.rs:136-151 -/
def startKernelProcess (b : Build) (kernel : Kernel) : Except Fault Kernel := do
  let (kpid, kernel) ← kernel.createProcess b "kernel" KERNEL_BASE KERNEL_CODE_SIZE
  let kernel := mapProcess kernel kpid KERNEL_BASE KERNEL_CODE_SIZE KERNEL_STACK_TOP
  let (_, kernel) ← kernel.createMainThread b kpid KERNEL_BASE KERNEL_STACK_TOP
  return kernel

/-- Load kernel code into emulated memory, and start the kernel process.
SOURCE: core/src/sys/boot.rs:129-151 -/
def loadKernel (b : Build) (emu : Emulator) (kernelCode : List UInt8) : Except Fault Kernel := do
  let loaded ← Kernel.new.loadCode b emu KERNEL_BASE kernelCode
  startKernelProcess b loaded.2

/-- Start HLE system services in a temporary state, count them and drop the state, whose GPU part
was never initialised.  The thread may panic there, or the process end; the kernel is not touched.
SOURCE: core/src/sys/boot.rs:153-162, core/src/gpu/mod.rs:7-15 -/
def startHostServices (host : Host) : Except Fault Unit :=
  if host.servicesReturn then .ok () else .error .panic

/-- Phase 4: the home menu, a stub.
SOURCE: core/src/sys/boot.rs:178-200 -/
def startHomeMenu (b : Build) (emu : Emulator) (kernel : Kernel) : Except Fault Kernel := do
  let (qpid, kernel) ← kernel.createProcess b "qlaunch" QLAUNCH_BASE QLAUNCH_CODE_SIZE
  let kernel := mapProcess kernel qpid QLAUNCH_BASE QLAUNCH_CODE_SIZE QLAUNCH_STACK_TOP
  -- Load a stub for qlaunch (just a BRK so it stops immediately).
  let (_, kernel) ← kernel.loadCode b emu QLAUNCH_BASE stubKernel
  let (_, kernel) ← kernel.createMainThread b qpid QLAUNCH_BASE QLAUNCH_STACK_TOP
  return kernel

/-- Phase 2: the image that is found, or the stub.
SOURCE: core/src/sys/boot.rs:109-123 -/
def kernelImage (b : Build) (host : Host) (config : FirmwareConfig) : Except Fault (List UInt8) :=
  match loadKernelImage b host config with
  | .ok code => .ok code
  -- Generate a minimal stub kernel so the boot sequence can still demonstrate the pipeline.
  | .error (.io _) => .ok stubKernel
  | .error .panic => .error .panic

/-- The image boot finds, and the kernel after both of its code loads, where the host services
between them return. -/
def loadAndStart (b : Build) (emu : Emulator) (host : Host) (config : FirmwareConfig) :
    Except Fault (List UInt8 × Kernel) := do
  let kernelCode ← kernelImage b host config
  let kernel ← loadKernel b emu kernelCode
  let kernel ← registerCorePorts kernel
  let kernel ← startHomeMenu b emu kernel
  return (kernelCode, kernel)

/-- What boot returns, and the kernel it ran. -/
structure BootResult where
  phase : BootPhase
  nand : Option Nand
  kernel : Option Kernel

/-- Run the full boot sequence.  An error is a boot that does not return.
SOURCE: core/src/sys/boot.rs:82-210 -/
def boot (b : Build) (emu : Emulator) (host : Host) (config : FirmwareConfig) :
    Except Fault BootResult := do
  match host.openFile config.nandPath >>= Nand.openFile b with
  | .error .panic => .error .panic
  | .error (.io _) => return { phase := .failed, nand := none, kernel := none }
  | .ok nand =>
    let kernelCode ← kernelImage b host config
    let kernel ← loadKernel b emu kernelCode
    startHostServices host
    let kernel ← registerCorePorts kernel
    let kernel ← startHomeMenu b emu kernel
    -- Step the kernel once to prove execution works.
    let kernel ← kernel.step b emu
    return { phase := .running, nand := some nand, kernel := some { kernel with booted := true } }

end Boot

end Oboromi.Model
