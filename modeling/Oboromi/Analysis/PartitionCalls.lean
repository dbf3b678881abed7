import Oboromi.Analysis.StorageCalls
import Oboromi.Interface.NandArrays

/-!
# What each partition call does

The default table of a device that has room for it is the layout of `firstBlock` and
`lastBlock` (`newDefault_eq`), and a call through it is a sum, a comparison with the
partition's size, a second sum and a call on the device (`nandCall_run`).  That last
statement keeps both sums as the machine computes them: what happens when they wrap is
read off it, and so is what happens when they do not.
-/

set_option autoImplicit false

namespace Oboromi.Analysis

open Oboromi.Lib Oboromi.Model Oboromi.Interface

/-! ## The default table -/

/-- The entry of one partition, for a device whose last usable block is `lastUsable`. -/
def defaultEntry (lastUsable : UInt64) : PartitionId → GptEntry
  | .prodInfo => ⟨"PRODINFO", 34, 2081, makeGuid 0x01, makeGuid 0x11⟩
  | .prodInfoF => ⟨"PRODINFOF", 2082, 4129, makeGuid 0x02, makeGuid 0x12⟩
  | .safe => ⟨"SAFE", 4130, 20513, makeGuid 0x03, makeGuid 0x13⟩
  | .system => ⟨"SYSTEM", 20514, 1069089, makeGuid 0x04, makeGuid 0x14⟩
  | .user => ⟨"USER", 1069090, lastUsable, makeGuid 0x05, makeGuid 0x15⟩

/-- The five entries in the order of the table. -/
def defaultEntries (lastUsable : UInt64) : List GptEntry :=
  [.prodInfo, .prodInfoF, .safe, .system, .user].map (defaultEntry lastUsable)

/-- SOURCE: core/src/fs/partition.rs:84-160 -/
theorem newDefault_eq (b : Build) {total : UInt64} (h : 34 ≤ total.toNat) :
    PartitionTable.newDefault b total = .ok ⟨defaultEntries (total - 33 - 1)⟩ := by
  have h33 : (33 : UInt64).toNat ≤ total.toNat := Nat.le_trans (by decide) h
  have hsub : (total - 33).toNat = total.toNat - 33 := toNat_sub_of_fits h33
  have h1 : (1 : UInt64).toNat ≤ (total - 33).toNat := by
    rw [hsub]
    show 1 ≤ total.toNat - 33
    omega
  simp only [PartitionTable.newDefault, defaultPartitionTable, Build.subU64_of_fits h33,
    Build.subU64_of_fits h1, bind, Except.bind]
  rfl

/-- The last usable block lies 34 blocks before the end. -/
theorem lastUsable_toNat {total : UInt64} (h : 34 ≤ total.toNat) :
    (total - 33 - 1).toNat = total.toNat - 34 := by
  have h33 : (total - 33).toNat = total.toNat - 33 :=
    toNat_sub_of_fits (Nat.le_trans (by decide) h)
  have h1 : (1 : UInt64).toNat ≤ (total - 33).toNat := by
    rw [h33]
    show 1 ≤ total.toNat - 33
    omega
  rw [toNat_sub_of_fits h1, h33]
  show total.toNat - 33 - 1 = total.toNat - 34
  omega

/-- The default table has one entry for every partition. -/
theorem find_default (lastUsable : UInt64) (id : PartitionId) :
    (PartitionTable.mk (defaultEntries lastUsable)).find id =
      some (defaultEntry lastUsable id) := by
  cases id <;>
    simp [PartitionTable.find, defaultEntries, defaultEntry, PartitionId.name]

/-- A default entry starts at the partition's first block. -/
theorem defaultEntry_start (lastUsable : UInt64) (id : PartitionId) :
    (defaultEntry lastUsable id).startBlock.toNat = firstBlock id := by
  cases id <;> rfl

/-- A default entry ends at the partition's last block. -/
theorem defaultEntry_end {total : UInt64} (h : 34 ≤ total.toNat) (id : PartitionId) :
    (defaultEntry (total - 33 - 1) id).endBlock.toNat = lastBlock total.toNat id := by
  cases id with
  | user => exact lastUsable_toNat h
  | _ => rfl

/-- On a large enough device no partition is empty. -/
theorem firstBlock_le_lastBlock {total : ℕ} (h : 1069124 ≤ total) (id : PartitionId) :
    firstBlock id ≤ lastBlock total id := by
  cases id <;> simp only [firstBlock, lastBlock] <;> omega

/-- Every partition ends before the backup table. -/
theorem lastBlock_lt {total : ℕ} (h : 1069124 ≤ total) (id : PartitionId) :
    lastBlock total id + 34 ≤ total := by
  cases id <;> simp only [lastBlock] <;> omega

/-- Where a partition ends, in bytes. -/
theorem partition_end {total : ℕ} (h : 1069124 ≤ total) (id : PartitionId) :
    firstByte id + partitionSize total id = (lastBlock total id + 1) * 4096 := by
  have hle : firstBlock id ≤ lastBlock total id := firstBlock_le_lastBlock h id
  unfold firstByte partitionSize
  rw [← Nat.add_mul]
  congr 1
  omega

/-- A partition ends before the backup table, hence inside the device. -/
theorem partition_le {total : ℕ} (h : 1069124 ≤ total) (id : PartitionId) :
    firstByte id + partitionSize total id + 33 * 4096 ≤ total * 4096 := by
  have hlt : lastBlock total id + 34 ≤ total := lastBlock_lt h id
  rw [partition_end h, ← Nat.add_mul]
  exact Nat.mul_le_mul_right 4096 (by omega)

/-! ## A call through the table -/

/-- An entry that does not end before it starts and whose size is representable.
SOURCE: core/src/fs/partition.rs:22-29 -/
theorem sizeBytes_of_fits (b : Build) (e : GptEntry) (blockSize : UInt64)
    (hle : e.startBlock.toNat ≤ e.endBlock.toNat) (hbs : 1 ≤ blockSize.toNat)
    (hfit : (e.endBlock.toNat + 1 - e.startBlock.toNat) * blockSize.toNat < 2 ^ 64) :
    ∃ n : UInt64, e.sizeBytes b blockSize = .ok n ∧
      n.toNat = (e.endBlock.toNat + 1 - e.startBlock.toNat) * blockSize.toNat := by
  have hone : (1 : UInt64).toNat = 1 := rfl
  have hdiff : (e.endBlock - e.startBlock).toNat = e.endBlock.toNat - e.startBlock.toNat :=
    toNat_sub_of_fits hle
  have hblocks : e.endBlock.toNat + 1 - e.startBlock.toNat < 2 ^ 64 :=
    Nat.lt_of_le_of_lt (Nat.le_mul_of_pos_right _ hbs) hfit
  have hadd : (e.endBlock - e.startBlock).toNat + (1 : UInt64).toNat < 2 ^ 64 := by
    rw [hdiff, hone]
    omega
  have hcount : (e.endBlock - e.startBlock + 1).toNat =
      e.endBlock.toNat + 1 - e.startBlock.toNat := by
    rw [toNat_add_of_fits hadd, hdiff, hone]
    omega
  have hmul : (e.endBlock - e.startBlock + 1).toNat * blockSize.toNat < 2 ^ 64 := by
    rwa [hcount]
  refine ⟨(e.endBlock - e.startBlock + 1) * blockSize, ?_, ?_⟩
  · have hcountOk : e.blockCount b = .ok (e.endBlock - e.startBlock + 1) := by
      simp only [GptEntry.blockCount, Build.subU64_of_fits hle, bind, Except.bind,
        Build.addU64_of_fits hadd]
    simp only [GptEntry.sizeBytes, hcountOk, bind, Except.bind, Build.mulU64_of_fits hmul]
  · rw [toNat_mul_of_fits hmul, hcount]

/-- The text of the error a request past the end of its partition reports. -/
def boundsMessage : NandCall → String
  | .read _ _ _ => "read exceeds partition bounds"
  | .write _ _ _ => "write exceeds partition bounds"

/-- What a call does once its partition is found: the sum, the comparison, the address and
the request to the device. -/
def throughTable (b : Build) (total : ℕ) (id : PartitionId) (offset : UInt64) (buf : Buffer)
    (message : String) (request : UInt64 → Except Fault Reply × EmulatedStorage)
    (s : EmulatedStorage) : Except Fault Reply × EmulatedStorage :=
  match b.addU64 offset buf.len with
  | .error e => (.error e, s)
  | .ok stop =>
    if partitionSize total id < stop.toNat then
      (.error (.io ⟨.invalidInput, message⟩), s)
    else match b.addU64 (UInt64.ofNat (firstByte id)) offset with
      | .error e => (.error e, s)
      | .ok address => request address

section Calls

variable {s : EmulatedStorage} {total : UInt64}

/-- The size and the base address of a partition, as the calls compute them. -/
theorem defaultEntry_arithmetic (b : Build) (hmin : 1069124 ≤ total.toNat)
    (hcap : total.toNat * 4096 ≤ s.capacity.toNat) (id : PartitionId) :
    (∃ n : UInt64, (defaultEntry (total - 33 - 1) id).sizeBytes b s.blockSize = .ok n ∧
      n.toNat = partitionSize total.toNat id) ∧
    b.mulU64 (defaultEntry (total - 33 - 1) id).startBlock s.blockSize =
      .ok (UInt64.ofNat (firstByte id)) := by
  have hlt : s.capacity.toNat < 2 ^ 64 := s.capacity.toNat_lt
  have hend := partition_le hmin id
  have hbs : s.blockSize.toNat = 4096 := blockSize_toNat s
  have hstart := defaultEntry_start (total - 33 - 1) id
  have hlast := defaultEntry_end (Nat.le_trans (by decide) hmin) id
  have hsize : partitionSize total.toNat id < 2 ^ 64 := by omega
  have hbase : (defaultEntry (total - 33 - 1) id).startBlock.toNat * s.blockSize.toNat <
      2 ^ 64 := by
    rw [hstart, hbs]
    show firstByte id < 2 ^ 64
    omega
  constructor
  · obtain ⟨n, hn, hnat⟩ := sizeBytes_of_fits b (defaultEntry (total - 33 - 1) id) s.blockSize
      (by rw [hstart, hlast]; exact firstBlock_le_lastBlock hmin id)
      (by rw [hbs]; decide) (by rw [hstart, hlast, hbs]; exact hsize)
    refine ⟨n, hn, ?_⟩
    rw [hnat, hstart, hlast, hbs]
    rfl
  · rw [Build.mulU64_of_fits hbase]
    congr 1
    apply UInt64.toNat_inj.mp
    rw [toNat_mul_of_fits hbase, hstart, hbs]
    exact (UInt64.toNat_ofNat_of_lt' (show firstByte id < 2 ^ 64 by omega)).symm

/-- The part that reads and writes share: the bounds check, and the request behind it. -/
theorem boundedRequest_run {α : Type} (b : Build) (hmin : 1069124 ≤ total.toNat)
    (hcap : total.toNat * 4096 ≤ s.capacity.toNat) (id : PartitionId) (offset : UInt64)
    (buf : Buffer) (message : String) (request : UInt64 → StorageM α) (reply : α → Reply) :
    ((do
      let s ← Sys.get
      let partSize ← (defaultEntry (total - 33 - 1) id).sizeBytes b s.blockSize
      let stop ← b.addU64 offset buf.len
      if partSize < stop then
        Sys.ioError .invalidInput message
      else
        let base ← b.mulU64 (defaultEntry (total - 33 - 1) id).startBlock s.blockSize
        let absOffset ← b.addU64 base offset
        request absOffset : StorageM α) >>= fun a => pure (reply a)).run s =
      throughTable b total.toNat id offset buf message
        (fun address => (request address >>= fun a => pure (reply a)).run s) s := by
  obtain ⟨⟨n, hn, hnat⟩, hbase⟩ := defaultEntry_arithmetic b hmin hcap id
  unfold throughTable
  simp only [Sys.run_bind, Sys.run_get, Sys.run_monadLift, hn]
  cases b.addU64 offset buf.len with
  | error e => rfl
  | ok stop =>
      simp only [UInt64.lt_iff_toNat_lt, hnat]
      by_cases hpast : partitionSize total.toNat id < stop.toNat
      · simp only [if_pos hpast]
        rfl
      · simp only [if_neg hpast, Sys.run_bind, Sys.run_monadLift, hbase]
        cases b.addU64 (UInt64.ofNat (firstByte id)) offset with
        | error e => rfl
        | ok address => rfl

/-- **A call through the default table**, with both sums as the machine computes them.
SOURCE: core/src/fs/partition.rs:175-216 -/
theorem nandCall_run (b : Build) (hmin : 1069124 ≤ total.toNat)
    (hcap : total.toNat * 4096 ≤ s.capacity.toNat) (c : NandCall) :
    c.run b ⟨defaultEntries (total - 33 - 1)⟩ s =
      throughTable b total.toNat c.id c.offset c.buf (boundsMessage c)
        (fun address => (c.onDevice address).run b s) s := by
  cases c with
  | read id offset buf =>
      simp only [NandCall.run, PartitionTable.readPartition, find_default]
      exact boundedRequest_run b hmin hcap id offset buf "read exceeds partition bounds"
        (fun address => EmulatedStorage.readBytes b address buf) (fun r => .read r.1 r.2)
  | write id offset buf =>
      simp only [NandCall.run, PartitionTable.writePartition, find_default]
      exact boundedRequest_run b hmin hcap id offset buf "write exceeds partition bounds"
        (fun address => EmulatedStorage.writeBytes b address buf) (fun _ => .done)

/-- When neither sum wraps, a call past the end of its partition is refused, and any other
call is the device's call at `firstByte + offset`. -/
theorem nandCall_of_fits (b : Build) (hmin : 1069124 ≤ total.toNat)
    (hcap : total.toNat * 4096 ≤ s.capacity.toNat) (c : NandCall) (hfit : c.stop < 2 ^ 64) :
    (partitionSize total.toNat c.id < c.stop ∧
      c.run b ⟨defaultEntries (total - 33 - 1)⟩ s =
        (.error (.io ⟨.invalidInput, boundsMessage c⟩), s)) ∨
    (c.stop ≤ partitionSize total.toNat c.id ∧ ∃ address : UInt64,
      address.toNat = firstByte c.id + c.offset.toNat ∧
      c.run b ⟨defaultEntries (total - 33 - 1)⟩ s = (c.onDevice address).run b s) := by
  have hlt : s.capacity.toNat < 2 ^ 64 := s.capacity.toNat_lt
  have hend := partition_le hmin c.id
  have hsum : c.offset.toNat + c.buf.len.toNat < 2 ^ 64 := by
    rw [Buffer.len_toNat]
    exact hfit
  have hstop : (c.offset + c.buf.len).toNat = c.stop := by
    rw [toNat_add_of_fits hsum, Buffer.len_toNat]
    rfl
  rw [nandCall_run b hmin hcap c]
  unfold throughTable
  rw [Build.addU64_of_fits hsum]
  simp only [hstop]
  by_cases hpast : partitionSize total.toNat c.id < c.stop
  · exact .inl ⟨hpast, by rw [if_pos hpast]⟩
  · have hoff : c.offset.toNat ≤ c.stop := Nat.le_add_right _ _
    have hbase : (UInt64.ofNat (firstByte c.id)).toNat = firstByte c.id :=
      UInt64.toNat_ofNat_of_lt' (show firstByte c.id < 2 ^ 64 by omega)
    have haddr : (UInt64.ofNat (firstByte c.id)).toNat + c.offset.toNat < 2 ^ 64 := by
      rw [hbase]
      omega
    refine .inr ⟨by omega, UInt64.ofNat (firstByte c.id) + c.offset, ?_, ?_⟩
    · rw [toNat_add_of_fits haddr, hbase]
    · rw [if_neg hpast, Build.addU64_of_fits haddr]

end Calls

end Oboromi.Analysis
