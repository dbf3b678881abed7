import Oboromi.Interface.FlatArray
import Oboromi.Model.Partition
import Mathlib.Logic.Function.Basic

/-!
# The NAND as five independent byte arrays

What the partition table is for: `PartitionArrays` holds one byte array per partition, and
a request reads or writes a stretch of the one it names.  `firstBlock` and `lastBlock`
give the layout as plain numbers, and `partitionArrays` cuts the five arrays out of a
device.
-/

set_option autoImplicit false

namespace Oboromi.Interface

open Oboromi.Lib Oboromi.Model

/-! ## The layout over the natural numbers -/

/-- The first block of a partition. -/
def firstBlock : PartitionId → ℕ
  | .prodInfo => 34
  | .prodInfoF => 2082
  | .safe => 4130
  | .system => 20514
  | .user => 1069090

/-- The last block of a partition (inclusive) on a device of `total` blocks. -/
def lastBlock (total : ℕ) : PartitionId → ℕ
  | .prodInfo => 2081
  | .prodInfoF => 4129
  | .safe => 20513
  | .system => 1069089
  | .user => total - 34

/-- The first byte of a partition. -/
def firstByte (id : PartitionId) : ℕ := firstBlock id * 4096

/-- The size of a partition in bytes. -/
def partitionSize (total : ℕ) (id : PartitionId) : ℕ :=
  (lastBlock total id + 1 - firstBlock id) * 4096

/-! ## Requests -/

/-- A request to a partition. -/
inductive NandCall where
  | read (id : PartitionId) (offset : UInt64) (buf : Buffer)
  | write (id : PartitionId) (offset : UInt64) (buf : Buffer)

namespace NandCall

def id : NandCall → PartitionId
  | .read id _ _ => id
  | .write id _ _ => id

def offset : NandCall → UInt64
  | .read _ offset _ => offset
  | .write _ offset _ => offset

def buf : NandCall → Buffer
  | .read _ _ buf => buf
  | .write _ _ buf => buf

/-- The end of the request, over the natural numbers. -/
def stop (c : NandCall) : ℕ := c.offset.toNat + c.buf.bytes.length

/-- The absolute end of the request is representable. -/
def InRange (c : NandCall) : Prop := c.stop ≤ 2 ^ 64 - 1 - firstByte c.id

/-- The byte request a partition request turns into, at an absolute address. -/
def onDevice (c : NandCall) (address : UInt64) : StorageCall :=
  match c with
  | .read _ _ buf => .read (.bytes address buf)
  | .write _ _ buf => .write (.bytes address buf)

/-- The request made through the partition table. -/
def run (b : Build) (t : PartitionTable) (c : NandCall) (s : EmulatedStorage) :
    Except Fault Reply × EmulatedStorage :=
  match c with
  | .read id offset buf => (do
      let r ← t.readPartition b id offset buf
      return .read r.1 r.2 : StorageM Reply).run s
  | .write id offset buf => (do
      t.writePartition b id offset buf
      return .done : StorageM Reply).run s

end NandCall

/-! ## The five arrays -/

/-- One byte array for each partition, behind one write-protect flag, opened for writing or
not. -/
structure PartitionArrays where
  data : PartitionId → List UInt8
  writeProtected : Bool
  access : Access

namespace PartitionArrays

/-- The arrays after `d` is written at `o` of partition `id`. -/
def write (a : PartitionArrays) (id : PartitionId) (o : ℕ) (d : List UInt8) : PartitionArrays :=
  { a with data := Function.update a.data id (patch (a.data id) o d) }

/-- One request on the arrays. -/
def step (c : NandCall) (a : PartitionArrays) : Except ErrorKind Reply × PartitionArrays :=
  match c with
  | .read id offset buf =>
    if offset.toNat + buf.bytes.length ≤ (a.data id).length then
      (.ok (.read buf.bytes.length (segment (a.data id) offset.toNat buf.bytes.length)), a)
    else (.error .invalidInput, a)
  | .write id offset buf =>
    if offset.toNat + buf.bytes.length ≤ (a.data id).length then
      if a.writeProtected then (.error .permissionDenied, a)
      else if a.access.Refuses buf.bytes.length then (.error .uncategorized, a)
      else (.ok .done, a.write id offset.toNat buf.bytes)
    else (.error .invalidInput, a)

end PartitionArrays

/-- The five arrays a device of `total` blocks holds. -/
def partitionArrays (total : ℕ) (s : EmulatedStorage) : PartitionArrays where
  data id := segment s.contents (firstByte id) (partitionSize total id)
  writeProtected := s.writeProtected
  access := s.file.access

/-- The entries follow one another without gap or overlap from block 34 to the 34th block
from the end. -/
structure Contiguous (total : ℕ) (entries : List GptEntry) : Prop where
  length : entries.length = 5
  nonempty : ∀ e ∈ entries, e.startBlock.toNat ≤ e.endBlock.toNat
  first : entries.head?.map (fun e => e.startBlock.toNat) = some 34
  last : entries.getLast?.map (fun e => e.endBlock.toNat) = some (total - 34)
  adjacent : entries.IsChain fun e e' => e'.startBlock.toNat = e.endBlock.toNat + 1
  disjoint : entries.Pairwise fun e e' => e.endBlock.toNat < e'.startBlock.toNat

end Oboromi.Interface
