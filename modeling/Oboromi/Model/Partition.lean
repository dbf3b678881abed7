import Oboromi.Model.Storage

/-!
# The partition table

A GPT-like table of five partitions over the emulated device, and the reads and writes
that go through it.  A request is checked against the partition's size first and then, by
the device, against its capacity; both sums and the address of the request are `u64`
arithmetic.

The sizes of the fixed partitions are constant expressions, which the compiler evaluates;
the one subtraction that depends on the device (`last_usable`) is checked arithmetic.
-/

set_option autoImplicit false

namespace Oboromi.Model

open Oboromi.Lib

/-- A GUID Partition Table entry; `endBlock` is inclusive.
SOURCE: core/src/fs/partition.rs:7-18 -/
structure GptEntry where
  name : String
  startBlock : UInt64
  endBlock : UInt64
  typeGuid : Vector UInt8 16
  uniqueGuid : Vector UInt8 16

namespace GptEntry

/-- Size of this partition in blocks.
SOURCE: core/src/fs/partition.rs:22-24 -/
def blockCount (b : Build) (e : GptEntry) : Except Fault UInt64 := do
  let d ← b.subU64 e.endBlock e.startBlock
  b.addU64 d 1

/-- Size of this partition in bytes.
SOURCE: core/src/fs/partition.rs:27-29 -/
def sizeBytes (b : Build) (e : GptEntry) (blockSize : UInt64) : Except Fault UInt64 := do
  let n ← e.blockCount b
  b.mulU64 n blockSize

end GptEntry

/-- Known partition identifiers.
SOURCE: core/src/fs/partition.rs:33-45 -/
inductive PartitionId where
  | prodInfo
  | prodInfoF
  | safe
  | system
  | user
  deriving DecidableEq, Repr

namespace PartitionId

/-- SOURCE: core/src/fs/partition.rs:48-56 -/
def name : PartitionId → String
  | prodInfo => "PRODINFO"
  | prodInfoF => "PRODINFOF"
  | safe => "SAFE"
  | system => "SYSTEM"
  | user => "USER"

/-- The derived `Debug` text. -/
def debug : PartitionId → String
  | prodInfo => "ProdInfo"
  | prodInfoF => "ProdInfoF"
  | safe => "Safe"
  | system => "System"
  | user => "User"

end PartitionId

/-- A deterministic GUID from a seed byte.
SOURCE: core/src/fs/partition.rs:61-68 -/
def makeGuid (seed : UInt8) : Vector UInt8 16 :=
  #v[seed, 0, 0, 0, 0x0B, 0, 0x40, 0, 0x80, 0, 0, 0, 0, 0, 0, 0]

/-- The default layout for a device of `totalBlocks` blocks.
SOURCE: core/src/fs/partition.rs:84-147 -/
def defaultPartitionTable (b : Build) (totalBlocks : UInt64) :
    Except Fault (List GptEntry) := do
  let mib : UInt64 := 1024 * 1024 / 4096
  let gib : UInt64 := 1024 * mib
  let gptReserved : UInt64 := 34
  let backupGpt : UInt64 := 33
  let beforeBackup ← b.subU64 totalBlocks backupGpt
  let lastUsable ← b.subU64 beforeBackup 1
  let prodinfoStart := gptReserved
  let prodinfoBlocks := 8 * mib
  let prodinfofStart := prodinfoStart + prodinfoBlocks
  let prodinfofBlocks := 8 * mib
  let safeStart := prodinfofStart + prodinfofBlocks
  let safeBlocks := 64 * mib
  let systemStart := safeStart + safeBlocks
  let systemBlocks := 4 * gib
  let userStart := systemStart + systemBlocks
  let userEnd := lastUsable
  return [
    { name := "PRODINFO"
      startBlock := prodinfoStart
      endBlock := prodinfoStart + prodinfoBlocks - 1
      typeGuid := makeGuid 0x01
      uniqueGuid := makeGuid 0x11 },
    { name := "PRODINFOF"
      startBlock := prodinfofStart
      endBlock := prodinfofStart + prodinfofBlocks - 1
      typeGuid := makeGuid 0x02
      uniqueGuid := makeGuid 0x12 },
    { name := "SAFE"
      startBlock := safeStart
      endBlock := safeStart + safeBlocks - 1
      typeGuid := makeGuid 0x03
      uniqueGuid := makeGuid 0x13 },
    { name := "SYSTEM"
      startBlock := systemStart
      endBlock := systemStart + systemBlocks - 1
      typeGuid := makeGuid 0x04
      uniqueGuid := makeGuid 0x14 },
    { name := "USER"
      startBlock := userStart
      endBlock := userEnd
      typeGuid := makeGuid 0x05
      uniqueGuid := makeGuid 0x15 }]

/-- GPT-aware view over a device.
SOURCE: core/src/fs/partition.rs:150-152 -/
structure PartitionTable where
  entries : List GptEntry

namespace PartitionTable

/-- SOURCE: core/src/fs/partition.rs:156-160 -/
def newDefault (b : Build) (totalBlocks : UInt64) : Except Fault PartitionTable := do
  let entries ← defaultPartitionTable b totalBlocks
  return { entries }

/-- Look up a partition by its identifier.
SOURCE: core/src/fs/partition.rs:163-166 -/
def find (t : PartitionTable) (id : PartitionId) : Option GptEntry :=
  t.entries.find? fun e => e.name = id.name

/-- Read `buf.len()` bytes from offset `offset` within the given partition.
SOURCE: core/src/fs/partition.rs:175-194 -/
def readPartition (b : Build) (t : PartitionTable) (id : PartitionId) (offset : UInt64)
    (buf : Buffer) : StorageM (ℕ × List UInt8) :=
  match t.find id with
  | none => Sys.ioError .notFound s!"partition {id.debug} not found"
  | some entry => do
    let s ← Sys.get
    let partSize ← entry.sizeBytes b s.blockSize
    let stop ← b.addU64 offset buf.len
    if partSize < stop then
      Sys.ioError .invalidInput "read exceeds partition bounds"
    else
      let base ← b.mulU64 entry.startBlock s.blockSize
      let absOffset ← b.addU64 base offset
      EmulatedStorage.readBytes b absOffset buf

/-- Write `buf` at offset `offset` within the given partition.
SOURCE: core/src/fs/partition.rs:197-216 -/
def writePartition (b : Build) (t : PartitionTable) (id : PartitionId) (offset : UInt64)
    (buf : Buffer) : StorageM Unit :=
  match t.find id with
  | none => Sys.ioError .notFound s!"partition {id.debug} not found"
  | some entry => do
    let s ← Sys.get
    let partSize ← entry.sizeBytes b s.blockSize
    let stop ← b.addU64 offset buf.len
    if partSize < stop then
      Sys.ioError .invalidInput "write exceeds partition bounds"
    else
      let base ← b.mulU64 entry.startBlock s.blockSize
      let absOffset ← b.addU64 base offset
      EmulatedStorage.writeBytes b absOffset buf

end PartitionTable

end Oboromi.Model
