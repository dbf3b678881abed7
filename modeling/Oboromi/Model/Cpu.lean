import Oboromi.Lib.FixedArray
import Oboromi.Lib.LittleEndian
import Oboromi.Lib.Machine
import Oboromi.Model.Process

/-!
# CPU cores over shared memory

A core is the register file of one emulator instance.  The emulator is not part of this
repository: what it does with a core when it is started is any function of the address range,
the registers and the shared memory, and of how it reads and writes the memory for its host only
the four laws of `Emulator` are known.
-/

set_option autoImplicit false

namespace Oboromi.Model

open Oboromi.Lib

/-- SOURCE: core/src/cpu/cpu_manager.rs:4 -/
abbrev CORE_COUNT : ℕ := 8

/-- SOURCE: core/src/cpu/cpu_manager.rs:9 -/
abbrev MEMORY_SIZE : ℕ := 12 * 1024 * 1024 * 1024

/-- The memory every core maps at address 0. -/
abbrev SharedMemory := Fin MEMORY_SIZE → UInt8

/-- The byte at an address; nothing is mapped past the end. -/
def SharedMemory.byteAt (mem : SharedMemory) (address : ℕ) : UInt8 :=
  if h : address < MEMORY_SIZE then mem ⟨address, h⟩ else 0

/-- The memory with some bytes laid over it. -/
def SharedMemory.overlay (mem : SharedMemory) (address : ℕ) (bytes : List UInt8) :
    SharedMemory := fun a =>
  if address ≤ a.val then (bytes[a.val - address]?).getD (mem a) else mem a

/-- The ARM64 emulator: `emu_start(begin, until, 0, 1)` on a core's registers and the
shared memory, which it leaves changed whether or not it reports an error; the memory after
`mem_write`; and the bytes of `mem_read`, if it reports none.  A range that is not mapped as a
whole is refused. -/
structure Emulator where
  start : UInt64 → UInt64 → CpuContext → SharedMemory → CpuContext × SharedMemory
  memWrite : SharedMemory → UInt64 → List UInt8 → SharedMemory
  memRead : SharedMemory → UInt64 → (n : ℕ) → Option (Vector UInt8 n)
  memWrite_mapped : ∀ mem address bytes, address.toNat + bytes.length ≤ MEMORY_SIZE →
    memWrite mem address bytes = mem.overlay address.toNat bytes
  memWrite_unmapped : ∀ mem address bytes, MEMORY_SIZE < address.toNat + bytes.length →
    memWrite mem address bytes = mem
  memRead_mapped : ∀ mem address n, address.toNat + n ≤ MEMORY_SIZE →
    memRead mem address n = some (Vector.ofFn fun i => mem.byteAt (address.toNat + i))
  memRead_unmapped : ∀ mem address n, 0 < n → MEMORY_SIZE < address.toNat + n →
    memRead mem address n = none

/-- An emulator over the bytes as they are. -/
def Emulator.overBytes
    (start : UInt64 → UInt64 → CpuContext → SharedMemory → CpuContext × SharedMemory) :
    Emulator where
  start := start
  memWrite mem address bytes :=
    if address.toNat + bytes.length ≤ MEMORY_SIZE then mem.overlay address.toNat bytes else mem
  memRead mem address n :=
    if address.toNat + n ≤ MEMORY_SIZE then
      some (Vector.ofFn fun i => mem.byteAt (address.toNat + i))
    else none
  memWrite_mapped _ _ _ h := if_pos h
  memWrite_unmapped _ _ _ h := if_neg (Nat.not_le_of_lt h)
  memRead_mapped _ _ _ h := if_pos h
  memRead_unmapped _ _ _ _ h := if_neg (Nat.not_le_of_lt h)

/-- The emulator on zeroed memory: every instruction is undefined, so it reports an error
and changes nothing. -/
def stuckEmulator : Emulator := .overBytes fun _ _ regs mem => (regs, mem)

/-- One core.
SOURCE: core/src/cpu/unicorn_interface.rs:5-8 -/
structure UnicornCPU where
  regs : CpuContext
  coreId : UInt32

namespace UnicornCPU

/-- SOURCE: core/src/cpu/unicorn_interface.rs:156-198 -/
def setX (c : UnicornCPU) (r : ℕ) (value : UInt64) : UnicornCPU :=
  if h : r < 31 then { c with regs := { c.regs with x := c.regs.x.set r value h } } else c

/-- SOURCE: core/src/cpu/unicorn_interface.rs:111-153 -/
def getX (c : UnicornCPU) (r : ℕ) : UInt64 :=
  if h : r < 31 then c.regs.x[r] else 0

/-- SOURCE: core/src/cpu/unicorn_interface.rs:207-210 -/
def setSp (c : UnicornCPU) (value : UInt64) : UnicornCPU :=
  { c with regs := { c.regs with sp := value } }

/-- SOURCE: core/src/cpu/unicorn_interface.rs:201-204 -/
def getSp (c : UnicornCPU) : UInt64 := c.regs.sp

/-- SOURCE: core/src/cpu/unicorn_interface.rs:219-222 -/
def setPc (c : UnicornCPU) (value : UInt64) : UnicornCPU :=
  { c with regs := { c.regs with pc := value } }

/-- SOURCE: core/src/cpu/unicorn_interface.rs:213-216 -/
def getPc (c : UnicornCPU) : UInt64 := c.regs.pc

/-- Execute a single step.
SOURCE: core/src/cpu/unicorn_interface.rs:94-102 -/
def step (b : Build) (emu : Emulator) (c : UnicornCPU) (mem : SharedMemory) :
    Except Fault (UnicornCPU × SharedMemory) := do
  let pc := c.getPc
  let stop ← b.addU64 pc 4
  let r := emu.start pc stop c.regs mem
  return ({ c with regs := r.1 }, r.2)

/-- Write a 32-bit value to emulated memory.
SOURCE: core/src/cpu/unicorn_interface.rs:225-229 -/
def writeU32 (emu : Emulator) (mem : SharedMemory) (vaddr : UInt64) (value : UInt32) :
    SharedMemory :=
  emu.memWrite mem vaddr (toLeBytes value)

/-- Read a 32-bit value from emulated memory.
SOURCE: core/src/cpu/unicorn_interface.rs:232-240 -/
def readU32 (emu : Emulator) (mem : SharedMemory) (vaddr : UInt64) : UInt32 :=
  match emu.memRead mem vaddr 4 with
  | some bytes => fromLeBytes bytes[0] bytes[1] bytes[2] bytes[3]
  | none => 0

/-- Write a 64-bit value to emulated memory.
SOURCE: core/src/cpu/unicorn_interface.rs:242-247 -/
def writeU64 (emu : Emulator) (mem : SharedMemory) (vaddr value : UInt64) : SharedMemory :=
  emu.memWrite mem vaddr (leDigits 8 value.toNat)

/-- Read a 64-bit value from emulated memory.
SOURCE: core/src/cpu/unicorn_interface.rs:249-258 -/
def readU64 (emu : Emulator) (mem : SharedMemory) (vaddr : UInt64) : UInt64 :=
  match emu.memRead mem vaddr 8 with
  | some bytes => UInt64.ofNat (leNat bytes.toList)
  | none => 0

end UnicornCPU

/-- The cores and the memory they share.
SOURCE: core/src/cpu/cpu_manager.rs:12-17 -/
structure CpuManager where
  cores : Vector UnicornCPU CORE_COUNT
  sharedMemory : SharedMemory

/-- Eight cores over zeroed memory, each with a megabyte of stack at the top of it; the
emulator's other registers start at zero.
SOURCE: core/src/cpu/cpu_manager.rs:20-46, core/src/cpu/unicorn_interface.rs:43-71 -/
def CpuManager.new : CpuManager where
  cores := Vector.ofFn fun i => {
    regs := { CpuContext.default with
      sp := UInt64.ofNat MEMORY_SIZE - UInt64.ofNat i * 0x100000 }
    coreId := UInt32.ofNat i }
  sharedMemory := fun _ => 0

/-- SOURCE: core/src/cpu/cpu_manager.rs:57-59 -/
def CpuManager.getCore (m : CpuManager) (id : ℕ) : Option UnicornCPU := m.cores[id]?

end Oboromi.Model
