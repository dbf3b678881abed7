import Oboromi.Lib.HashMap

/-!
# Processes and threads

The kernel's objects with all their fields: which of them a scheduler step loads, runs on
and saves is one question, which ids they are stored under another.
-/

set_option autoImplicit false

namespace Oboromi.Model

open Oboromi.Lib

/-- SOURCE: core/src/sys/process.rs:3-7 -/
abbrev ProcessId := UInt64

abbrev ThreadId := UInt64

/-- SOURCE: core/src/sys/process.rs:10-17 -/
inductive ThreadState where
  | created
  | ready
  | running
  | waiting
  | terminated
  deriving DecidableEq, Repr

/-- Saved CPU context for a thread (ARMv8 AArch64 registers).
SOURCE: core/src/sys/process.rs:20-32 -/
structure CpuContext where
  x : Vector UInt64 31
  sp : UInt64
  pc : UInt64
  pstate : UInt32
  tpidrEl0 : UInt64
  deriving DecidableEq

/-- SOURCE: core/src/sys/process.rs:34-44 -/
def CpuContext.default : CpuContext where
  x := Vector.replicate 31 0
  sp := 0
  pc := 0
  pstate := 0
  tpidrEl0 := 0

/-- A single thread of execution inside a process.
SOURCE: core/src/sys/process.rs:47-57 -/
structure Thread where
  id : ThreadId
  name : String
  state : ThreadState
  context : CpuContext
  idealCore : Int32
  priority : UInt32
  ownerPid : ProcessId
  deriving DecidableEq

/-- SOURCE: core/src/sys/process.rs:60-73 -/
def Thread.new (id : ThreadId) (ownerPid : ProcessId) (entry stackTop : UInt64) : Thread where
  id := id
  name := ""
  state := .created
  context := { CpuContext.default with pc := entry, sp := stackTop }
  idealCore := -1
  priority := 44
  ownerPid := ownerPid

/-- Permission bits for a memory region.
SOURCE: core/src/sys/process.rs:84-96 -/
structure MemoryPermission where
  bits : UInt32
  deriving DecidableEq

namespace MemoryPermission

def RW : MemoryPermission := ⟨1 ||| 2⟩
def RX : MemoryPermission := ⟨1 ||| 4⟩

end MemoryPermission

/-- Type tag for a memory region.
SOURCE: core/src/sys/process.rs:99-110 -/
inductive MemoryState where
  | free
  | codeStatic
  | codeMutable
  | heap
  | sharedMemory
  | mappedMemory
  | stack
  | threadLocal
  deriving DecidableEq, Repr

/-- Memory mapping within a process address space.
SOURCE: core/src/sys/process.rs:76-82 -/
structure MemoryRegion where
  base : UInt64
  size : UInt64
  perm : MemoryPermission
  state : MemoryState
  deriving DecidableEq

/-- A kernel-managed process.
SOURCE: core/src/sys/process.rs:113-136 -/
structure Process where
  pid : ProcessId
  name : String
  threads : HashMap ThreadId Thread
  memoryMap : List MemoryRegion
  codeBase : UInt64
  codeSize : UInt64
  heapBase : UInt64
  heapSize : UInt64
  stackBase : UInt64
  stackSize : UInt64
  isHle : Bool
  nextThreadId : ThreadId

namespace Process

/-- SOURCE: core/src/sys/process.rs:139-154 -/
def new (pid : ProcessId) (name : String) (codeBase codeSize : UInt64) : Process where
  pid := pid
  name := name
  threads := HashMap.empty
  memoryMap := []
  codeBase := codeBase
  codeSize := codeSize
  heapBase := 0
  heapSize := 0
  stackBase := 0
  stackSize := 0
  isHle := false
  nextThreadId := 1

variable (b : Build)

/-- Create the main thread for this process.
SOURCE: core/src/sys/process.rs:157-165 -/
def createMainThread (p : Process) (entry stackTop : UInt64) :
    Except Fault (ThreadId × Process) := do
  let tid := p.nextThreadId
  let next ← b.addU64 p.nextThreadId 1
  let thread := { Thread.new tid p.pid entry stackTop with
    name := p.name ++ "-main"
    state := .ready }
  let threads ← p.threads.tryInsert tid thread
  return (tid, { p with nextThreadId := next, threads := threads })

/-- Add a memory mapping.
SOURCE: core/src/sys/process.rs:179-186 -/
def mapMemory (p : Process) (base size : UInt64) (perm : MemoryPermission)
    (state : MemoryState) : Process :=
  { p with memoryMap := p.memoryMap ++ [{ base, size, perm, state }] }

end Process

end Oboromi.Model
