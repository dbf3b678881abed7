import Oboromi.Analysis.PartitionCalls
import Oboromi.Lib.Refinement

/-!
# The NAND is five independent byte arrays

The default table cuts a device of at least 1069124 blocks into five stretches that
follow one another (`defaultEntries_contiguous`), so a write inside one of them is
invisible to a read inside another (`partition_disjoint`).  One call through the table is
therefore one step of `PartitionArrays`, and by the simulation rule so is a run of calls;
the invariant rule keeps the two tables at the ends of the device out of every write.
-/

set_option autoImplicit false

namespace Oboromi.Analysis

open Oboromi.Lib Oboromi.Model Oboromi.Interface

/-! ## The layout -/

/-- Two different partitions are apart: one ends before the other begins. -/
theorem partition_disjoint {total : ℕ} (h : 1069124 ≤ total) {id id' : PartitionId}
    (hne : id ≠ id') :
    firstByte id + partitionSize total id ≤ firstByte id' ∨
      firstByte id' + partitionSize total id' ≤ firstByte id := by
  have hblock : lastBlock total id + 1 ≤ firstBlock id' ∨
      lastBlock total id' + 1 ≤ firstBlock id := by
    cases id <;> cases id' <;>
      simp only [firstBlock, lastBlock, ne_eq, not_true_eq_false] at hne ⊢ <;>
      omega
  rw [partition_end h, partition_end h]
  rcases hblock with hblock | hblock
  · exact .inl (Nat.mul_le_mul_right 4096 hblock)
  · exact .inr (Nat.mul_le_mul_right 4096 hblock)

/-- SOURCE: core/src/fs/partition.rs:84-147 -/
theorem defaultEntries_contiguous {total : UInt64} (h : 1069124 ≤ total.toNat) :
    Contiguous total.toNat (defaultEntries (total - 33 - 1)) := by
  have hlast : (total - 33 - 1).toNat = total.toNat - 34 := lastUsable_toNat (by omega)
  have hstart := defaultEntry_start (total - 33 - 1)
  have hmin : 34 ≤ total.toNat := by omega
  have hend := defaultEntry_end hmin
  constructor
  · rfl
  · intro e he
    obtain ⟨id, -, rfl⟩ := List.mem_map.mp he
    rw [hstart, hend]
    exact firstBlock_le_lastBlock h id
  · rfl
  · show some (total - 33 - 1).toNat = some (total.toNat - 34)
    rw [hlast]
  · simp [defaultEntries, hstart, hend, firstBlock, lastBlock]
  · simp only [defaultEntries, List.map_cons, List.map_nil, List.pairwise_cons, List.mem_cons,
      List.not_mem_nil, or_false, forall_eq_or_imp, forall_eq, hstart, hend, lastBlock,
      firstBlock]
    refine ⟨by omega, by omega, by omega, ?_⟩
    simp

/-! ## One call -/

section Calls

variable {s : EmulatedStorage} {total : UInt64}

/-- A read through the table, for a request whose end is representable. -/
theorem nandRead_spec (b : Build) (hmin : 1069124 ≤ total.toNat)
    (hcap : s.capacity.toNat = total.toNat * 4096) (id : PartitionId) (offset : UInt64)
    (buf : Buffer) (hfit : offset.toNat + buf.bytes.length < 2 ^ 64) :
    observe ((NandCall.read id offset buf).run b ⟨defaultEntries (total - 33 - 1)⟩ s).1 =
      some (if offset.toNat + buf.bytes.length ≤ partitionSize total.toNat id then
        .ok (.read buf.bytes.length
          (segment s.contents (firstByte id + offset.toNat) buf.bytes.length))
      else .error .invalidInput) ∧
    device ((NandCall.read id offset buf).run b ⟨defaultEntries (total - 33 - 1)⟩ s).2 =
      device s := by
  have hend := partition_le hmin id
  have hlt : s.capacity.toNat < 2 ^ 64 := s.capacity.toNat_lt
  rcases nandCall_of_fits b hmin (Nat.le_of_eq hcap.symm) (.read id offset buf) hfit with
    ⟨hpast, hrun⟩ | ⟨hin, address, haddr, hrun⟩
  · have hpast' : ¬ offset.toNat + buf.bytes.length ≤ partitionSize total.toNat id :=
      Nat.not_le.mpr hpast
    rw [hrun, if_neg hpast']
    exact ⟨rfl, rfl⟩
  · have hin' : offset.toNat + buf.bytes.length ≤ partitionSize total.toNat id := hin
    have haddr' : address.toNat = firstByte id + offset.toNat := haddr
    have hcapacity : address.toNat + buf.bytes.length ≤ s.capacity.toNat := by
      rw [haddr', hcap]
      omega
    obtain ⟨hres, hdev⟩ := readBytes_spec b s address buf (by omega)
    rw [hrun, if_pos hin']
    rw [if_pos hcapacity, haddr'] at hres
    simp only [StorageCall.run, NandCall.onDevice, StorageCall.exec, Sys.run_bind_pure]
    exact ⟨by rw [observe_map, hres]; rfl, hdev⟩

/-- A write through the table, for a request whose end is representable. -/
theorem nandWrite_spec (b : Build) (hmin : 1069124 ≤ total.toNat)
    (hcap : s.capacity.toNat = total.toNat * 4096) (id : PartitionId) (offset : UInt64)
    (buf : Buffer) (hfit : offset.toNat + buf.bytes.length < 2 ^ 64) :
    observe ((NandCall.write id offset buf).run b ⟨defaultEntries (total - 33 - 1)⟩ s).1 =
      some (if offset.toNat + buf.bytes.length ≤ partitionSize total.toNat id then
        if s.writeProtected then .error .permissionDenied
        else (hostAnswer s.file.access buf.bytes.length).map fun _ => .done
      else .error .invalidInput) ∧
    device ((NandCall.write id offset buf).run b ⟨defaultEntries (total - 33 - 1)⟩ s).2 =
      if offset.toNat + buf.bytes.length ≤ partitionSize total.toNat id ∧
          s.writeProtected = false then
        (device s).written (firstByte id + offset.toNat) buf.bytes
      else device s := by
  have hend := partition_le hmin id
  have hlt : s.capacity.toNat < 2 ^ 64 := s.capacity.toNat_lt
  rcases nandCall_of_fits b hmin (Nat.le_of_eq hcap.symm) (.write id offset buf) hfit with
    ⟨hpast, hrun⟩ | ⟨hin, address, haddr, hrun⟩
  · have hpast' : ¬ offset.toNat + buf.bytes.length ≤ partitionSize total.toNat id :=
      Nat.not_le.mpr hpast
    rw [hrun, if_neg hpast', if_neg (fun h => hpast' h.1)]
    exact ⟨rfl, rfl⟩
  · have hin' : offset.toNat + buf.bytes.length ≤ partitionSize total.toNat id := hin
    have haddr' : address.toNat = firstByte id + offset.toNat := haddr
    have hcapacity : address.toNat + buf.bytes.length ≤ s.capacity.toNat := by
      rw [haddr', hcap]
      omega
    obtain ⟨hres, hdev⟩ := writeBytes_spec b s address buf (by omega)
    rw [hrun, if_pos hin']
    simp only [hcapacity, if_true, and_true] at hres hdev
    rw [haddr'] at hdev
    simp only [StorageCall.run, NandCall.onDevice, StorageCall.exec, Sys.run_bind_pure, hin',
      true_and]
    refine ⟨?_, hdev⟩
    rw [observe_map, hres]
    cases s.writeProtected <;> rfl

/-- What a partition holds, read off the device's bytes. -/
theorem partitionArrays_of_device (total : ℕ) {s' : EmulatedStorage}
    (h : device s' = device s) : partitionArrays total s' = partitionArrays total s := by
  have hbytes : s'.contents = s.contents := congrArg Device.contents h
  have hwp : s'.writeProtected = s.writeProtected := congrArg Device.writeProtected h
  have haccess : s'.file.access = s.file.access := congrArg Device.access h
  simp only [partitionArrays, hbytes, hwp, haccess]

/-- A write inside one partition is a write to its array and to no other. -/
theorem partitionArrays_of_write (hmin : 1069124 ≤ total.toNat)
    (hcap : s.capacity.toNat = total.toNat * 4096) {s' : EmulatedStorage} {id : PartitionId}
    {o : ℕ} {d : List UInt8} (hin : o + d.length ≤ partitionSize total.toNat id)
    (h : device s' = (device s).write (firstByte id + o) d) :
    partitionArrays total.toNat s' = (partitionArrays total.toNat s).write id o d := by
  have hlen : s.capacity.toNat ≤ s.contents.length := s.capacity_le
  have hend := partition_le hmin
  have hbytes : s'.contents = patch s.contents (firstByte id + o) d :=
    congrArg Device.contents h
  have hwp : s'.writeProtected = s.writeProtected := congrArg Device.writeProtected h
  have haccess : s'.file.access = s.file.access := congrArg Device.access h
  have hid := hend id
  simp only [PartitionArrays.write, partitionArrays, hbytes, hwp, haccess,
    PartitionArrays.mk.injEq, and_true]
  funext id'
  by_cases hsame : id' = id
  · subst hsame
    rw [Function.update_self, segment_patch_inside (Nat.le_add_right _ _) (by omega) (by omega),
      Nat.add_sub_cancel_left]
  · have hid' := hend id'
    have hapart := partition_disjoint hmin hsame
    rw [Function.update_of_ne hsame, segment_patch_disjoint (by omega) (by omega)]

/-- **One call through the table is one step of the five arrays.** -/
theorem nandCall_simulates (b : Build) (hmin : 1069124 ≤ total.toNat)
    (hcap : s.capacity.toNat = total.toNat * 4096) (c : NandCall) (hc : c.InRange) :
    observe (c.run b ⟨defaultEntries (total - 33 - 1)⟩ s).1 =
      some (PartitionArrays.step c (partitionArrays total.toNat s)).1 ∧
    partitionArrays total.toNat (c.run b ⟨defaultEntries (total - 33 - 1)⟩ s).2 =
      (PartitionArrays.step c (partitionArrays total.toNat s)).2 := by
  have hlen : s.capacity.toNat ≤ s.contents.length := s.capacity_le
  have hid := partition_le hmin c.id
  have hstop : c.stop ≤ 2 ^ 64 - 1 - firstByte c.id := hc
  have hsize : ((partitionArrays total.toNat s).data c.id).length =
      partitionSize total.toNat c.id := length_segment (by omega)
  cases c with
  | read id offset buf =>
      have hfit : offset.toNat + buf.bytes.length < 2 ^ 64 := by
        have h : offset.toNat + buf.bytes.length ≤ 2 ^ 64 - 1 - firstByte id := hstop
        omega
      obtain ⟨hres, hdev⟩ := nandRead_spec b hmin hcap id offset buf hfit
      have hsame := partitionArrays_of_device total.toNat hdev
      simp only [NandCall.id] at hsize
      rw [hres, hsame]
      unfold PartitionArrays.step
      simp only [hsize]
      by_cases hin : offset.toNat + buf.bytes.length ≤ partitionSize total.toNat id
      · simp only [if_pos hin, and_true]
        rw [show (partitionArrays total.toNat s).data id =
          segment s.contents (firstByte id) (partitionSize total.toNat id) from rfl,
          segment_segment hin]
      · simp only [if_neg hin, and_self]
  | write id offset buf =>
      have hfit : offset.toNat + buf.bytes.length < 2 ^ 64 := by
        have h : offset.toNat + buf.bytes.length ≤ 2 ^ 64 - 1 - firstByte id := hstop
        omega
      obtain ⟨hres, hdev⟩ := nandWrite_spec b hmin hcap id offset buf hfit
      have hflag : (partitionArrays total.toNat s).writeProtected = s.writeProtected := rfl
      have haccess : (partitionArrays total.toNat s).access = s.file.access := rfl
      simp only [NandCall.id] at hsize
      rw [hres]
      unfold PartitionArrays.step
      simp only [hsize, hflag, haccess]
      by_cases hin : offset.toNat + buf.bytes.length ≤ partitionSize total.toNat id
      · simp only [if_pos hin]
        cases hwp : s.writeProtected with
        | true =>
            rw [if_neg (by simp [hwp])] at hdev
            exact ⟨rfl, partitionArrays_of_device total.toNat hdev⟩
        | false =>
            rw [if_pos ⟨hin, hwp⟩] at hdev
            simp only [Bool.false_eq_true, if_false, hostAnswer]
            by_cases hrefuses : s.file.access.Refuses buf.bytes.length
            · rw [written_of_refused s hrefuses] at hdev
              rw [if_pos hrefuses, if_pos hrefuses]
              exact ⟨rfl, partitionArrays_of_device total.toNat hdev⟩
            · rw [written_of_taken s hrefuses] at hdev
              rw [if_neg hrefuses, if_neg hrefuses]
              exact ⟨rfl, partitionArrays_of_write hmin hcap hin hdev⟩
      · rw [if_neg (fun h => hin h.1)] at hdev
        simp only [if_neg hin, true_and]
        exact partitionArrays_of_device total.toNat hdev

/-- The capacity, the first 34 blocks and everything from the last 33 blocks on are the
same on both devices. -/
def SameReserved (total : ℕ) (s s' : EmulatedStorage) : Prop :=
  s'.capacity = s.capacity ∧
  s'.contents.take (34 * 4096) = s.contents.take (34 * 4096) ∧
  s'.contents.drop ((total - 33) * 4096) = s.contents.drop ((total - 33) * 4096)

/-- An unchanged device has unchanged reserved blocks. -/
theorem sameReserved_of_device (total : ℕ) {s' : EmulatedStorage} (h : device s' = device s) :
    SameReserved total s s' := by
  have hbytes : s'.contents = s.contents := congrArg Device.contents h
  refine ⟨congrArg Device.capacity h, ?_, ?_⟩ <;> rw [hbytes]

/-- A write inside a partition does not reach the two tables. -/
theorem sameReserved_of_write (hmin : 1069124 ≤ total.toNat)
    (hcap : s.capacity.toNat = total.toNat * 4096) {s' : EmulatedStorage} {id : PartitionId}
    {o : ℕ} {d : List UInt8} (hin : o + d.length ≤ partitionSize total.toNat id)
    (h : device s' = (device s).write (firstByte id + o) d) :
    SameReserved total.toNat s s' := by
  have hlen : s.capacity.toNat ≤ s.contents.length := s.capacity_le
  have hend := partition_le hmin id
  have hbytes : s'.contents = patch s.contents (firstByte id + o) d :=
    congrArg Device.contents h
  have hbefore : 0 + 34 * 4096 ≤ firstByte id + o := by
    have hfirst : 34 * 4096 ≤ firstByte id := by cases id <;> decide
    rw [Nat.zero_add]
    exact Nat.le_trans hfirst (Nat.le_add_right _ _)
  have hbehind : firstByte id + o + d.length ≤ (total.toNat - 33) * 4096 := by
    rw [Nat.add_assoc, Nat.sub_mul]
    exact Nat.le_sub_of_add_le (Nat.le_trans (Nat.add_le_add_right
      (Nat.add_le_add_left hin _) _) hend)
  have hblocks : (total.toNat - 33) * 4096 ≤ s.contents.length := by
    rw [hcap] at hlen
    exact Nat.le_trans (Nat.mul_le_mul_right _ (Nat.sub_le _ _)) hlen
  refine ⟨congrArg Device.capacity h, ?_, ?_⟩
  · have hhead := segment_patch_disjoint (l := s.contents) (d := d)
      (Nat.le_trans (Nat.le_add_right _ _) (Nat.le_trans hbehind hblocks)) (.inl hbefore)
    rw [hbytes]
    exact hhead
  · rw [hbytes]
    exact drop_patch hbehind hblocks

/-- A call in range leaves the reserved blocks as they were. -/
theorem nandCall_reserved (b : Build) (hmin : 1069124 ≤ total.toNat)
    (hcap : s.capacity.toNat = total.toNat * 4096) (c : NandCall) (hc : c.InRange) :
    SameReserved total.toNat s (c.run b ⟨defaultEntries (total - 33 - 1)⟩ s).2 := by
  have hfit : c.stop < 2 ^ 64 := by
    have hstop : c.stop ≤ 2 ^ 64 - 1 - firstByte c.id := hc
    omega
  cases c with
  | read id offset buf =>
      exact sameReserved_of_device _ (nandRead_spec b hmin hcap id offset buf hfit).2
  | write id offset buf =>
      have hdev := (nandWrite_spec b hmin hcap id offset buf hfit).2
      by_cases hin : offset.toNat + buf.bytes.length ≤ partitionSize total.toNat id ∧
          s.writeProtected = false
      · rw [if_pos hin] at hdev
        by_cases hrefuses : s.file.access.Refuses buf.bytes.length
        · exact sameReserved_of_device _ (hdev.trans (written_of_refused s hrefuses))
        · exact sameReserved_of_write hmin hcap hin.1 (hdev.trans (written_of_taken s hrefuses))
      · rw [if_neg hin] at hdev
        exact sameReserved_of_device _ hdev

end Calls

/-! ## Runs of calls -/

/-- What it means for a device behind a partition table to be five arrays. -/
structure RefinesPartitions (b : Build) (total : ℕ) (t : PartitionTable)
    (s : EmulatedStorage) : Prop where
  /-- the partitions follow one another from block 34 to block `total - 34` -/
  layout : Contiguous total t.entries
  /-- every run of calls returns what the arrays return and leaves the arrays' bytes -/
  run : ∀ calls : List NandCall, (∀ c ∈ calls, c.InRange) →
    (runSteps (NandCall.run b t) calls s).1.map observe =
        (runSteps PartitionArrays.step calls (partitionArrays total s)).1.map some ∧
      partitionArrays total (runSteps (NandCall.run b t) calls s).2 =
        (runSteps PartitionArrays.step calls (partitionArrays total s)).2
  /-- no run reaches the blocks before the first and behind the last partition -/
  reserved : ∀ calls : List NandCall, (∀ c ∈ calls, c.InRange) →
    SameReserved total s (runSteps (NandCall.run b t) calls s).2

/-- **The NAND is five independent byte arrays**, whatever the device holds.
SOURCE: core/src/fs/partition.rs:84-216, core/src/fs/mod.rs:41-60 -/
theorem nand_refines_partitions (b : Build) (s : EmulatedStorage) (total : UInt64)
    (hmin : 1069124 ≤ total.toNat) (hcap : s.capacity.toNat = total.toNat * 4096) :
    ∃ t, PartitionTable.newDefault b total = .ok t ∧ RefinesPartitions b total.toNat t s := by
  refine ⟨_, newDefault_eq b (by omega), defaultEntries_contiguous hmin, ?_, ?_⟩
  · intro calls hcalls
    -- the relation carries the capacity, which the next call's bounds are checked against
    let R : EmulatedStorage → PartitionArrays → Prop := fun s' a =>
      s'.capacity = s.capacity ∧ partitionArrays total.toNat s' = a
    have hstep : ∀ (c : NandCall) (s' : EmulatedStorage) (a : PartitionArrays), c.InRange →
        R s' a →
        observe (c.run b ⟨defaultEntries (total - 33 - 1)⟩ s').1 =
            some (PartitionArrays.step c a).1 ∧
          R (c.run b ⟨defaultEntries (total - 33 - 1)⟩ s').2 (PartitionArrays.step c a).2 := by
      rintro c s' _ hc ⟨hsame, rfl⟩
      have hcap' : s'.capacity.toNat = total.toNat * 4096 := by rw [hsame, hcap]
      obtain ⟨hres, harrays⟩ := nandCall_simulates b hmin hcap' c hc
      exact ⟨hres, (nandCall_reserved b hmin hcap' c hc).1.trans hsame, harrays⟩
    have hstart : R s (partitionArrays total.toNat s) := ⟨rfl, rfl⟩
    obtain ⟨houts, hend⟩ := runSteps_simulates hstep calls hcalls hstart
    exact ⟨houts, hend.2⟩
  · intro calls hcalls
    have hstep : ∀ (c : NandCall) (s' : EmulatedStorage), c.InRange →
        SameReserved total.toNat s s' →
        SameReserved total.toNat s (c.run b ⟨defaultEntries (total - 33 - 1)⟩ s').2 := by
      rintro c s' hc ⟨hsame, hhead, htail⟩
      have hcap' : s'.capacity.toNat = total.toNat * 4096 := by rw [hsame, hcap]
      obtain ⟨hsame', hhead', htail'⟩ := nandCall_reserved b hmin hcap' c hc
      exact ⟨hsame'.trans hsame, hhead'.trans hhead, htail'.trans htail⟩
    exact runSteps_invariant hstep calls hcalls ⟨rfl, rfl, rfl⟩

/-- The smallest device with a block for every partition. -/
theorem nand_refines_partitions_smallest :
    ∃ t, PartitionTable.newDefault .release 1069124 = .ok t ∧
      RefinesPartitions .release 1069124 t
        (EmulatedStorage.newImage (1069124 * 4096) (by decide) (by decide)) :=
  nand_refines_partitions .release
    (EmulatedStorage.newImage (1069124 * 4096) (by decide) (by decide)) 1069124
    (by decide) (by decide)

end Oboromi.Analysis
