import Oboromi.Lib.Refinement
import Oboromi.Model.Cpu

/-!
# The memory the cores share

Host code reads and writes guest memory through a core, a word of 32 or of 64 bits at a time.
What it is for is one log of writes, whatever core and width they came by: a read gives the
number of its bytes, each from the latest write that covers it.
-/

set_option autoImplicit false

namespace Oboromi.Interface

open Oboromi.Lib Oboromi.Model

inductive MemoryCall where
  | writeU32 (vaddr : UInt64) (value : UInt32)
  | readU32 (vaddr : UInt64)
  | writeU64 (vaddr value : UInt64)
  | readU64 (vaddr : UInt64)

/-- A call through the core with an index; without that core there is none. -/
structure CoreCall where
  core : ℕ
  call : MemoryCall

namespace CoreCall

/-- What a read returns, and the cores after the call. -/
def perform (emu : Emulator) (c : CoreCall) (m : CpuManager) : Option ℕ × CpuManager :=
  match m.getCore c.core with
  | none => (none, m)
  | some _ =>
    match c.call with
    | .writeU32 vaddr value =>
      (none, { m with sharedMemory := UnicornCPU.writeU32 emu m.sharedMemory vaddr value })
    | .readU32 vaddr => (some (UnicornCPU.readU32 emu m.sharedMemory vaddr).toNat, m)
    | .writeU64 vaddr value =>
      (none, { m with sharedMemory := UnicornCPU.writeU64 emu m.sharedMemory vaddr value })
    | .readU64 vaddr => (some (UnicornCPU.readU64 emu m.sharedMemory vaddr).toNat, m)

end CoreCall

/-! ## The log -/

/-- Bytes for the addresses from one on. -/
structure MemoryWrite where
  address : ℕ
  bytes : List UInt8

/-- The byte a write has for an address. -/
def MemoryWrite.byte (w : MemoryWrite) (a : ℕ) : Option UInt8 :=
  if w.address ≤ a then w.bytes[a - w.address]? else none

/-- The writes so far, the latest first. -/
abbrev MemoryLog := List MemoryWrite

/-- The byte at an address: that of the latest write that has one for it, else what was there at
first. -/
def latest (initial : ℕ → UInt8) : MemoryLog → ℕ → UInt8
  | [], a => initial a
  | w :: log, a => (w.byte a).getD (latest initial log a)

/-- A write is recorded when all of it is mapped. -/
def recordWrite (log : MemoryLog) (vaddr : UInt64) (bytes : List UInt8) : MemoryLog :=
  if vaddr.toNat + bytes.length ≤ MEMORY_SIZE then ⟨vaddr.toNat, bytes⟩ :: log else log

/-- The number of the `n` bytes at an address, and zero when one of them is not mapped. -/
def readLog (initial : ℕ → UInt8) (log : MemoryLog) (vaddr : UInt64) (n : ℕ) : ℕ :=
  if vaddr.toNat + n ≤ MEMORY_SIZE then
    leNat ((List.range n).map fun i => latest initial log (vaddr.toNat + i))
  else 0

namespace CoreCall

/-- The call on the log. -/
def onLog (initial : ℕ → UInt8) (c : CoreCall) (log : MemoryLog) : Option ℕ × MemoryLog :=
  if c.core < CORE_COUNT then
    match c.call with
    | .writeU32 vaddr value => (none, recordWrite log vaddr (leDigits 4 value.toNat))
    | .readU32 vaddr => (some (readLog initial log vaddr 4), log)
    | .writeU64 vaddr value => (none, recordWrite log vaddr (leDigits 8 value.toNat))
    | .readU64 vaddr => (some (readLog initial log vaddr 8), log)
  else (none, log)

end CoreCall

end Oboromi.Interface
