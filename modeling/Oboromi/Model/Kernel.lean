import Oboromi.Model.Cpu
import Oboromi.Model.Svc

/-!
# The kernel

Processes, threads, handles and named ports, and the scheduler.  `Kernel.step` is three loops
over the eight cores: assign the ready threads and load their registers, run one step on every
core whose slot is occupied, save the registers back.  Each loop is a fold over the core
numbers in order, so a core that runs later sees the memory left by the cores before it, and a
thread saved twice keeps the later save.
-/

set_option autoImplicit false

namespace Oboromi.Model

open Oboromi.Lib

/-- Handle value used by guest code to reference kernel objects. -/
abbrev Handle := UInt32

/-- The HLE Horizon kernel.
SOURCE: core/src/sys/kernel.rs:16-33 -/
structure Kernel where
  processes : HashMap ProcessId Process
  cpu : CpuManager
  nextPid : ProcessId
  handleTable : HashMap Handle (ProcessId × ThreadId)
  nextHandle : Handle
  namedPorts : HashMap String Handle
  runningOn : Vector (Option (ProcessId × ThreadId)) CORE_COUNT
  booted : Bool

namespace Kernel

/-- SOURCE: core/src/sys/kernel.rs:36-47 -/
def new : Kernel where
  processes := HashMap.empty
  cpu := CpuManager.new
  nextPid := 1
  handleTable := HashMap.empty
  nextHandle := 0x1000
  namedPorts := HashMap.empty
  runningOn := Vector.replicate CORE_COUNT none
  booted := false

/-- The thread a (pid, tid) pair is looked up to. -/
def thread (k : Kernel) (pid : ProcessId) (tid : ThreadId) : Option Thread := do
  let process ← k.processes.get pid
  process.threads.get tid

/-! ## Objects and handles -/

section Objects

variable (b : Build)

/-- Create a new process and return its PID.
SOURCE: core/src/sys/kernel.rs:52-59 -/
def createProcess (k : Kernel) (name : String) (codeBase codeSize : UInt64) :
    Except Fault (ProcessId × Kernel) := do
  let pid := k.nextPid
  let next ← b.addU64 k.nextPid 1
  let process := Process.new pid name codeBase codeSize
  let processes ← k.processes.tryInsert pid process
  return (pid, { k with nextPid := next, processes := processes })

/-- SOURCE: core/src/sys/kernel.rs:95-100 -/
def allocHandle (k : Kernel) (pid : ProcessId) (tid : ThreadId) :
    Except Fault (Handle × Kernel) := do
  let h := k.nextHandle
  let next ← b.addU32 k.nextHandle 1
  let handleTable ← k.handleTable.tryInsert h (pid, tid)
  return (h, { k with nextHandle := next, handleTable := handleTable })

/-- Create the main thread for a process and return a (handle, tid) pair.
SOURCE: core/src/sys/kernel.rs:62-77 -/
def createMainThread (k : Kernel) (pid : ProcessId) (entry stackTop : UInt64) :
    Except Fault (Option (Handle × ThreadId) × Kernel) := do
  match k.processes.get pid with
  | none => return (none, k)
  | some process =>
    let (tid, process) ← process.createMainThread b entry stackTop
    let k := { k with processes := k.processes.modify pid fun _ => process }
    let (handle, k) ← k.allocHandle b pid tid
    return (some (handle, tid), k)

/-- Map a memory region into a process's virtual address space.
SOURCE: core/src/sys/kernel.rs:80-91 -/
def mapProcessMemory (k : Kernel) (pid : ProcessId) (base size : UInt64)
    (perm : MemoryPermission) (state : MemoryState) : Kernel :=
  { k with processes := k.processes.modify pid fun p => p.mapMemory base size perm state }

/-- Register a named service port.
SOURCE: core/src/sys/kernel.rs:105-108 -/
def registerPort (k : Kernel) (name : String) (handle : Handle) : Except Fault Kernel := do
  let namedPorts ← k.namedPorts.tryInsert name handle
  return { k with namedPorts := namedPorts }

/-- Connect to a named port.
SOURCE: core/src/sys/kernel.rs:111-113 -/
def connectToPort (k : Kernel) (name : String) : Option Handle := k.namedPorts.get name

end Objects

/-! ## Scheduling -/

/-- Collect ready threads.
SOURCE: core/src/sys/kernel.rs:124-131 -/
def readyThreads (k : Kernel) : List (ProcessId × ThreadId) :=
  k.processes.values.foldl (fun ready process =>
    process.threads.values.foldl (fun ready thread =>
      if thread.state = .ready ∨ thread.state = .running then
        ready ++ [(process.pid, thread.id)]
      else ready) ready) []

/-- Load context into CPU core.
SOURCE: core/src/sys/kernel.rs:141-146 -/
def loadContext (context : CpuContext) (core : UnicornCPU) : UnicornCPU :=
  let core := core.setPc context.pc
  let core := core.setSp context.sp
  (List.finRange 31).foldl (fun core (r : Fin 31) => core.setX r (context.x.get r)) core

/-- The body of the assign loop for one core.
SOURCE: core/src/sys/kernel.rs:134-149 -/
def assignCore (ready : List (ProcessId × ThreadId)) (k : Kernel) (coreId : Fin CORE_COUNT) :
    Kernel :=
  match ready[coreId.val]? with
  | none => k
  | some (pid, tid) =>
    let k := { k with runningOn := put k.runningOn coreId (some (pid, tid)) }
    match k.thread pid tid with
    | none => k
    | some thread => { k with
        cpu.cores := put k.cpu.cores coreId (loadContext thread.context (k.cpu.cores.get coreId)) }

/-- Assign to cores (up to 8).
SOURCE: core/src/sys/kernel.rs:133-149 -/
def assign (k : Kernel) : Kernel :=
  (List.finRange CORE_COUNT).foldl (assignCore k.readyThreads) k

/-- The body of the execute loop for one core.
SOURCE: core/src/sys/kernel.rs:152-156 -/
def executeCore (b : Build) (emu : Emulator) (k : Kernel) (coreId : Fin CORE_COUNT) :
    Except Fault Kernel :=
  if (k.runningOn.get coreId).isSome then do
    let r ← (k.cpu.cores.get coreId).step b emu k.cpu.sharedMemory
    return { k with cpu := { cores := put k.cpu.cores coreId r.1, sharedMemory := r.2 } }
  else return k

/-- Execute one step on each active core.
SOURCE: core/src/sys/kernel.rs:151-156 -/
def execute (b : Build) (emu : Emulator) (k : Kernel) : Except Fault Kernel :=
  (List.finRange CORE_COUNT).foldlM (executeCore b emu) k

/-- Save a core's registers into a thread.
SOURCE: core/src/sys/kernel.rs:163-169 -/
def saveContext (core : UnicornCPU) (thread : Thread) : Thread :=
  let context := { thread.context with pc := core.getPc, sp := core.getSp }
  let context := (List.finRange 31).foldl
    (fun context (r : Fin 31) => { context with x := put context.x r (core.getX r) }) context
  { thread with context := context, state := .running }

/-- The body of the save loop for one core.
SOURCE: core/src/sys/kernel.rs:159-172 -/
def saveCore (k : Kernel) (coreId : Fin CORE_COUNT) : Kernel :=
  match k.runningOn.get coreId with
  | none => k
  | some (pid, tid) => { k with
      processes := k.processes.modify pid fun process => { process with
        threads := process.threads.modify tid (saveContext (k.cpu.cores.get coreId)) } }

/-- Save context back.
SOURCE: core/src/sys/kernel.rs:158-173 -/
def save (k : Kernel) : Kernel :=
  (List.finRange CORE_COUNT).foldl saveCore k

/-- Schedule and execute one timeslice across all cores.
SOURCE: core/src/sys/kernel.rs:122-174 -/
def step (b : Build) (emu : Emulator) (k : Kernel) : Except Fault Kernel := do
  let k ← k.assign.execute b emu
  return k.save

/-! ## SVC dispatch -/

/-- Handle an SVC trap from the given core, `now` being the host's clock.
SOURCE: core/src/sys/kernel.rs:182-197 -/
def handleSvc (now : ℕ) (k : Kernel) (coreId : ℕ) (svcNum : UInt8) : Except Fault Kernel :=
  if h : coreId < CORE_COUNT then
    let core := k.cpu.cores[coreId]
    let regs := (List.finRange 31).foldl (fun regs r => put regs r (core.getX r))
      (Vector.replicate 31 0)
    let (result, regs) := Svc.dispatch now svcNum regs
    let regs := put regs Svc.X0 result.toUInt64
    let core := (List.finRange 31).foldl (fun core r => core.setX r (regs.get r)) core
    .ok { k with cpu.cores := put k.cpu.cores ⟨coreId, h⟩ core }
  else .error .panic

/-! ## Loading code -/

/-- `chunks(4)`. -/
def chunks : List UInt8 → List (List UInt8)
  | [] => []
  | b₀ :: b₁ :: b₂ :: b₃ :: rest => [b₀, b₁, b₂, b₃] :: chunks rest
  | tail => [tail]

/-- Write byte-by-byte via a read-modify-write of the word.
SOURCE: core/src/sys/kernel.rs:215-220 -/
def storeByte (emu : Emulator) (mem : SharedMemory) (offset : UInt64) (byte : UInt8) :
    SharedMemory :=
  let aligned := offset &&& ~~~(3 : UInt64)
  let shift := (offset &&& 3) * 8
  let word := UnicornCPU.readU32 emu mem aligned
  UnicornCPU.writeU32 emu mem aligned (replaceByte word shift.toUInt32 byte)

/-- Byte `j` of chunk `i`, which doesn't fill a word.
SOURCE: core/src/sys/kernel.rs:211-221 -/
def loadByte (b : Build) (emu : Emulator) (vaddr : UInt64) (i : ℕ) (mem : SharedMemory)
    (entry : UInt8 × ℕ) : Except Fault SharedMemory := do
  let skip ← b.mulU64 (UInt64.ofNat i) 4
  let address ← b.addU64 vaddr skip
  let offset ← b.addU64 address (UInt64.ofNat entry.2)
  return storeByte emu mem offset entry.1

/-- Chunk `i`.
SOURCE: core/src/sys/kernel.rs:206-223 -/
def loadChunk (b : Build) (emu : Emulator) (vaddr : UInt64) (mem : SharedMemory)
    (chunk : List UInt8 × ℕ) : Except Fault SharedMemory :=
  match chunk.1 with
  | [b₀, b₁, b₂, b₃] => do
    let skip ← b.mulU64 (UInt64.ofNat chunk.2) 4
    let address ← b.addU64 vaddr skip
    return UnicornCPU.writeU32 emu mem address (fromLeBytes b₀ b₁ b₂ b₃)
  | tail => tail.zipIdx.foldlM (loadByte b emu vaddr chunk.2) mem

/-- Load raw binary code into the shared memory at the given virtual address: the number
returned and the kernel afterwards.
SOURCE: core/src/sys/kernel.rs:203-225 -/
def loadCode (b : Build) (emu : Emulator) (k : Kernel) (vaddr : UInt64) (code : List UInt8) :
    Except Fault (ℕ × Kernel) := do
  let mem ← (chunks code).zipIdx.foldlM (loadChunk b emu vaddr) k.cpu.sharedMemory
  return (code.length, { k with cpu.sharedMemory := mem })

end Kernel

end Oboromi.Model
