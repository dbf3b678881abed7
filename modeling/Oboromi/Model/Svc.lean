import Oboromi.Lib.FixedArray

/-!
# Supervisor calls

The numbers of the calls the guest may make, and what the handler of each leaves in the
registers.  The host's clock is the one input that is not a register.
-/

set_option autoImplicit false

namespace Oboromi.Model

open Oboromi.Lib

/-- A result code: 0 is success. -/
abbrev SvcResult := UInt32

/-- SOURCE: core/src/sys/svc.rs:15 -/
def SUCCESS : SvcResult := 0

/-- SOURCE: core/src/sys/svc.rs:36-100 -/
inductive SvcId where
  -- Memory
  | setHeapSize
  | setMemoryPermission
  | setMemoryAttribute
  | mapMemory
  | unmapMemory
  | queryMemory
  -- Process / thread
  | exitProcess
  | createThread
  | startThread
  | exitThread
  | sleepThread
  | getThreadPriority
  | setThreadPriority
  | getThreadCoreMask
  | setThreadCoreMask
  | getCurrentProcessorNumber
  -- Synchronisation
  | signalEvent
  | clearEvent
  | mapSharedMemory
  | unmapSharedMemory
  | createTransferMemory
  | closeHandle
  | resetSignal
  | waitSynchronization
  | cancelSynchronization
  | arbitrateLock
  | arbitrateUnlock
  | waitProcessWideKeyAtomic
  | signalProcessWideKey
  | getSystemTick
  -- IPC
  | connectToNamedPort
  | sendSyncRequest
  | sendSyncRequestWithUserBuffer
  | sendAsyncRequestWithUserBuffer
  | getProcessId
  | getThreadId
  | break
  | outputDebugString
  | returnFromException
  | getInfo
  -- Resource limits / misc
  | mapPhysicalMemory
  | unmapPhysicalMemory
  | setThreadActivity
  | getThreadContext3
  | createSession
  | acceptSession
  | replyAndReceive
  | createEvent
  | mapIoRegion
  | createCodeMemory
  | controlCodeMemory
  | callSecureMonitor
  deriving DecidableEq, Repr

/-- SOURCE: core/src/sys/svc.rs:103-161 -/
def SvcId.fromU8 (n : UInt8) : Option SvcId :=
  match n.toNat with
  | 0x01 => some .setHeapSize
  | 0x02 => some .setMemoryPermission
  | 0x03 => some .setMemoryAttribute
  | 0x04 => some .mapMemory
  | 0x05 => some .unmapMemory
  | 0x06 => some .queryMemory
  | 0x07 => some .exitProcess
  | 0x08 => some .createThread
  | 0x09 => some .startThread
  | 0x0A => some .exitThread
  | 0x0B => some .sleepThread
  | 0x0C => some .getThreadPriority
  | 0x0D => some .setThreadPriority
  | 0x0E => some .getThreadCoreMask
  | 0x0F => some .setThreadCoreMask
  | 0x10 => some .getCurrentProcessorNumber
  | 0x11 => some .signalEvent
  | 0x12 => some .clearEvent
  | 0x13 => some .mapSharedMemory
  | 0x14 => some .unmapSharedMemory
  | 0x15 => some .createTransferMemory
  | 0x16 => some .closeHandle
  | 0x17 => some .resetSignal
  | 0x18 => some .waitSynchronization
  | 0x19 => some .cancelSynchronization
  | 0x1A => some .arbitrateLock
  | 0x1B => some .arbitrateUnlock
  | 0x1C => some .waitProcessWideKeyAtomic
  | 0x1D => some .signalProcessWideKey
  | 0x1E => some .getSystemTick
  | 0x1F => some .connectToNamedPort
  | 0x21 => some .sendSyncRequest
  | 0x22 => some .sendSyncRequestWithUserBuffer
  | 0x23 => some .sendAsyncRequestWithUserBuffer
  | 0x24 => some .getProcessId
  | 0x25 => some .getThreadId
  | 0x26 => some .break
  | 0x27 => some .outputDebugString
  | 0x28 => some .returnFromException
  | 0x29 => some .getInfo
  | 0x2C => some .mapPhysicalMemory
  | 0x2D => some .unmapPhysicalMemory
  | 0x32 => some .setThreadActivity
  | 0x33 => some .getThreadContext3
  | 0x40 => some .createSession
  | 0x41 => some .acceptSession
  | 0x43 => some .replyAndReceive
  | 0x45 => some .createEvent
  | 0x46 => some .mapIoRegion
  | 0x4B => some .createCodeMemory
  | 0x4C => some .controlCodeMemory
  | 0x7F => some .callSecureMonitor
  | _ => none

namespace Svc

/-- The registers X0 to X30. -/
abbrev Registers := Vector UInt64 31

/-- The register of the result code. -/
abbrev X0 : Fin 31 := 0

/-- The tick of the 19.2 MHz clock, from the host's nanoseconds since its epoch, of which
the lowest 64 bits are kept.
SOURCE: core/src/sys/svc.rs:243-247 -/
def tick (now : ℕ) : UInt64 := UInt64.ofNat now / 52

/-- Dispatch an SVC by ID: the result code that should be placed in X0, and the registers.
SOURCE: core/src/sys/svc.rs:170-304 -/
def dispatch (now : ℕ) (id : UInt8) (x : Registers) : SvcResult × Registers :=
  match SvcId.fromU8 id with
  | some .setHeapSize => (SUCCESS, put x 1 0x08000000)
  | some .queryMemory => (SUCCESS, x)
  | some .exitProcess => (SUCCESS, x)
  | some .createThread => (SUCCESS, put x 1 0xDEAD0001)
  | some .startThread => (SUCCESS, x)
  | some .exitThread => (SUCCESS, x)
  | some .sleepThread => (SUCCESS, x)
  | some .getThreadPriority => (SUCCESS, put x 1 44)
  | some .getCurrentProcessorNumber => (SUCCESS, put x 0 0)
  | some .closeHandle => (SUCCESS, x)
  | some .waitSynchronization => (SUCCESS, put x 1 0)
  | some .arbitrateLock => (SUCCESS, x)
  | some .arbitrateUnlock => (SUCCESS, x)
  | some .waitProcessWideKeyAtomic => (SUCCESS, x)
  | some .signalProcessWideKey => (SUCCESS, x)
  | some .getSystemTick => (SUCCESS, put x 0 (tick now))
  | some .connectToNamedPort => (SUCCESS, put x 1 0xC0DE0001)
  | some .sendSyncRequest => (SUCCESS, x)
  | some .getProcessId => (SUCCESS, put x 1 1)
  | some .getThreadId => (SUCCESS, put x 1 1)
  | some .break => (SUCCESS, x)
  | some .outputDebugString => (SUCCESS, x)
  | some .getInfo => (SUCCESS, put x 1 0)
  | some .mapPhysicalMemory => (SUCCESS, x)
  | some .callSecureMonitor => (SUCCESS, x)
  -- Listed, but without an arm of its own.
  | some _ => (SUCCESS, x)
  | none => (SUCCESS, x)

end Svc

end Oboromi.Model
