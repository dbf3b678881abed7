import Oboromi.Analysis.BootedMachine
import Oboromi.Analysis.NandSessions

/-!
# Boot runs the package that is installed

Boot finds its image through the same table and device as the sessions before it, so what it
finds is what the arrays hold (`readPackage_eq`).  A package that a session installed is in the
first bytes of SYSTEM until a session writes there.
-/

set_option autoImplicit false

namespace Oboromi.Analysis

open Oboromi.Lib Oboromi.Model Oboromi.Interface

/-! ## Reading the package -/

section Package

variable {b : Build} {nand : Nand} {a : PartitionArrays}

/-- An array is as long as its partition. -/
theorem length_data (h : Holds nand a) (id : PartitionId) :
    (a.data id).length = partitionSize TOTAL_BLOCKS.toNat id := by
  have hend := partition_le minBlocks id
  have hcap := length_mounted h.mounted
  rw [toNat_STORAGE_CAPACITY] at hcap
  rw [← h.arrays]
  exact length_segment (by omega)

/-- The SYSTEM partition has 4 GiB. -/
theorem systemSize : partitionSize TOTAL_BLOCKS.toNat .system = 4294967296 := by decide

/-- A read inside SYSTEM. -/
theorem readSystem_returns (h : Holds nand a) {offset : UInt64} {buf : Buffer}
    (hin : offset.toNat + buf.bytes.length ≤ 4294967296) :
    ∃ nand', (Nand.read b .system offset buf).run nand =
        (.ok (buf.bytes.length, segment (a.data .system) offset.toNat buf.bytes.length), nand') ∧
      Holds nand' a := by
  have hlen := length_data h .system
  rw [systemSize] at hlen
  have hrange : (NandCall.read .system offset buf).InRange := by
    show offset.toNat + buf.bytes.length ≤ 2 ^ 64 - 1 - 20514 * 4096
    omega
  obtain ⟨hres, hholds⟩ := request_simulates (b := b) h hrange
  have hstep : PartitionArrays.step (.read .system offset buf) a =
      (.ok (.read buf.bytes.length (segment (a.data .system) offset.toNat buf.bytes.length)), a) :=
    if_pos (hlen ▸ hin)
  rw [hstep] at hres hholds
  unfold NandCall.runNand at hres hholds
  simp only [Sys.run_bind_pure] at hres hholds
  refine ⟨_, Prod.ext ?_ rfl, hholds⟩
  have hok := eq_ok_of_observe hres
  obtain ⟨r, hr, hreply⟩ := map_eq_ok hok
  obtain ⟨hcount, hbytes⟩ := Reply.read.inj hreply
  rw [hr]
  exact congrArg Except.ok (Prod.ext hcount hbytes)

/-- The size of a package is in its first 0x14 bytes. -/
theorem packageSize_take {l : List UInt8} {n : ℕ} (h : 0x14 ≤ n) :
    Boot.packageSize (l.take n) = Boot.packageSize l := by
  have hbyte (i : ℕ) (hi : i < 0x14) : (l.take n).getD i 0 = l.getD i 0 := by
    simp only [List.getD_eq_getElem?_getD, List.getElem?_take_of_lt (Nat.lt_of_lt_of_le hi h)]
  unfold Boot.packageSize
  dsimp only
  rw [hbyte 0x10 (by decide), hbyte 0x11 (by decide), hbyte 0x12 (by decide),
    hbyte 0x13 (by decide)]

/-- A buffer of zeros has the length it was made with. -/
theorem zeros_length (size : UInt32) : (Boot.zeros size).bytes.length = size.toNat :=
  List.length_replicate

/-- **Boot finds the package the arrays hold.**
SOURCE: core/src/sys/boot.rs:228-249 -/
theorem readPackage_eq (h : Holds nand a) :
    ((Boot.readPackage b).run nand).1 = .ok (packageIn (a.data .system)) := by
  obtain ⟨nand', hread, hholds⟩ := readSystem_returns (b := b) h
    (show (0 : UInt64).toNat + (Boot.zeros 0x200).bytes.length ≤ 4294967296 by
      rw [zeros_length]; decide)
  rw [zeros_length] at hread
  have hheader : segment (a.data .system) (0 : UInt64).toNat (0x200 : UInt32).toNat =
      (a.data .system).take 0x200 := rfl
  rw [hheader] at hread
  unfold Boot.readPackage packageIn
  rw [Sys.run_bind_ok hread]
  simp only [packageSize_take (show 0x14 ≤ 0x200 by decide), List.take_take]
  generalize hsize : Boot.packageSize (a.data .system) = size
  show (Sys.run (if (a.data .system).take 4 = _ then _ else _) nand').1 = _
  by_cases hmagic : (a.data .system).take 4 = [0x50, 0x4B, 0x32, 0x31]
  · rw [if_pos hmagic]
    by_cases hbounds : 0 < size ∧ size < 64 * 1024 * 1024
    · have hlt : size.toNat < 64 * 1024 * 1024 := UInt32.lt_iff_toNat_lt.mp hbounds.2
      obtain ⟨nand'', hread', -⟩ := readSystem_returns (b := b) hholds
        (show (0x200 : UInt64).toNat + (Boot.zeros size).bytes.length ≤ 4294967296 by
          rw [zeros_length]
          show 0x200 + size.toNat ≤ 4294967296
          omega)
      rw [zeros_length] at hread'
      rw [if_pos hbounds, if_pos ⟨hmagic, hbounds⟩, Sys.run_bind_ok hread']
      rfl
    · rw [if_neg hbounds, if_neg fun h => hbounds h.2]
      rfl
  · rw [if_neg hmagic, if_neg fun h => hmagic h.1]
    rfl

end Package

/-! ## Booting from a disk -/

section Disks

variable {b : Build} {disk : Disk} {services : Bool}

/-- The image is at its path. -/
theorem host_openFile (path : String) :
    (disk.host path services).openFile path = .ok disk.file := if_pos rfl

/-- What boot finds on a disk is the package in the SYSTEM array. -/
theorem loadKernelImage_disk (hlimit : STORAGE_CAPACITY.toNat ≤ disk.file.limit) (path : String) :
    Boot.loadKernelImage b (disk.host path services) ⟨path, none⟩ =
      match packageIn ((imageOf disk).data .system) with
      | some image => .ok image
      | none => .error (.io ⟨.notFound, "no PK21 header found in NAND SYSTEM partition"⟩) := by
  obtain ⟨nand, hopen, hmounted, hopened⟩ := openFile_returns b hlimit
  have hread := readPackage_eq (b := b) (holds_of_opened hmounted hopened)
  have hexists : (disk.host path services).exists_ path = true := decide_eq_true rfl
  unfold Boot.loadKernelImage
  simp only [hexists, if_true, host_openFile, ok_bind, hopen, hread]
  cases packageIn ((imageOf disk).data .system) with
  | none => rfl
  | some image => rfl

/-- A boot from a disk is a boot from the arrays on it. -/
theorem bootsFrom_disk (emu : Emulator) (hlimit : STORAGE_CAPACITY.toNat ≤ disk.file.limit)
    (path : String) :
    BootsFrom b emu (disk.host path services) ⟨path, none⟩ (imageOf disk).bootImage := by
  obtain ⟨nand, hopen, -⟩ := openFile_returns b hlimit
  have hnand : (disk.host path services).openFile path >>= Nand.openFile b = .ok nand := by
    rw [host_openFile, ok_bind, hopen]
  have hcode : Boot.loadKernelImage b (disk.host path services) ⟨path, none⟩ = _ :=
    loadKernelImage_disk hlimit path
  unfold NandImage.bootImage
  cases hpackage : packageIn ((imageOf disk).data .system) with
  | none =>
      rw [hpackage] at hcode
      exact bootsFrom_of_image hnand (kernelImage_of_error hcode) (by decide)
  | some image =>
      rw [hpackage] at hcode
      obtain ⟨-, hlen, -⟩ := nandImage_length rfl hcode
      exact bootsFrom_of_image hnand (kernelImage_of_ok hcode) (hlen.trans (by decide))

end Disks

section Installed

/-- A write behind the first `n` bytes leaves them. -/
theorem take_patch_behind {l d : List UInt8} {n o : ℕ} (hn : n ≤ o)
    (ho : o + d.length ≤ l.length) : (patch l o d).take n = l.take n := by
  have hapart := segment_patch_disjoint (l := l) (d := d) (o := o) (a := 0) (n := n)
    (Nat.le_trans (Nat.le_add_right _ _) ho) (.inl (by omega))
  exact hapart

variable {n : ℕ}

/-- A request that spares the front of SYSTEM leaves it. -/
theorem step_spares {c : NandCall} (hc : c.Spares n) (a : PartitionArrays) :
    ((PartitionArrays.step c a).2.data .system).take n = (a.data .system).take n := by
  cases c with
  | read id offset buf =>
      simp only [PartitionArrays.step]
      split <;> rfl
  | write id offset buf =>
      simp only [PartitionArrays.step]
      split
      · next hin =>
          split
          · rfl
          · split
            · rfl
            · unfold PartitionArrays.write
              by_cases hid : id = .system
              · subst hid
                simp only [Function.update_self]
                exact take_patch_behind hc hin
              · simp only [Function.update_of_ne (Ne.symm hid)]
      · rfl

/-- A session that spares the package leaves its bytes. -/
theorem session_spares {s : NandSession} (hs : s.Spares n) (image : NandImage) :
    ((NandImage.session s image).2.data .system).take n = (image.data .system).take n := by
  cases s with
  | readWrite calls =>
      have hstep : ∀ (c : SessionCall) (a : PartitionArrays), (∀ r, c = .request r → r.Spares n) →
          (a.data .system).take n = (image.data .system).take n →
          ((NandImage.call c a).2.data .system).take n = (image.data .system).take n := by
        intro c a hc ha
        cases c with
        | request r => exact (step_spares (hc r rfl) a).trans ha
        | setWriteProtected wp => exact ha
        | flush => exact ha
      have hcalls : ∀ c ∈ calls, ∀ r, c = .request r → r.Spares n := by
        rintro c hc r rfl
        exact hs r hc
      exact runSteps_invariant hstep calls hcalls rfl
  | readOnly calls =>
      unfold NandImage.session
      dsimp only
      split <;> rfl

/-- Sessions that spare it leave its bytes: by induction over them. -/
theorem sessions_spare {sessions : List NandSession} (hsessions : ∀ s ∈ sessions, s.Spares n)
    (image : NandImage) : ((runSteps NandImage.session sessions image).2.data .system).take n =
      (image.data .system).take n := by
  have hstep : ∀ (s : NandSession) (image' : NandImage), s.Spares n →
      (image'.data .system).take n = (image.data .system).take n →
      ((NandImage.session s image').2.data .system).take n = (image.data .system).take n :=
    fun s image' hs himage => (session_spares hs image').trans himage
  exact runSteps_invariant hstep sessions hsessions rfl

/-- A package is found by what SYSTEM begins with. -/
theorem packageIn_of_installed {header package : Buffer} (h : IsPackage header package)
    {system : List UInt8} (hsystem : system.take (0x200 + package.bytes.length) =
      header.bytes ++ package.bytes) : packageIn system = some package.bytes := by
  have hheader : system.take 0x200 = header.bytes := by
    have htake := congrArg (List.take 0x200) hsystem
    rwa [List.take_take, Nat.min_eq_left (Nat.le_add_right _ _),
      List.take_append_of_le_length h.length_header.ge, List.take_of_length_le h.length_header.le]
      at htake
  have hmagic : system.take 4 = [0x50, 0x4B, 0x32, 0x31] := by
    rw [← h.magic, ← hheader, List.take_take]
    rfl
  have hsize : Boot.packageSize system = Boot.packageSize header.bytes := by
    rw [← hheader, packageSize_take (by decide)]
  have hbytes : segment system 0x200 package.bytes.length = package.bytes := by
    have hdrop := congrArg (List.drop 0x200) hsystem
    rw [List.drop_take, Nat.add_sub_cancel_left, List.drop_append_of_le_length h.length_header.ge,
      List.drop_of_length_le h.length_header.le, List.nil_append] at hdrop
    exact hdrop
  have hpositive : 0 < Boot.packageSize header.bytes := by
    rw [UInt32.lt_iff_toNat_lt, h.size]
    exact h.nonempty
  have hbounded : Boot.packageSize header.bytes < 64 * 1024 * 1024 := by
    rw [UInt32.lt_iff_toNat_lt, h.size]
    exact h.length_lt
  unfold packageIn
  dsimp only
  rw [hsize, if_pos ⟨hmagic, hpositive, hbounded⟩, h.size, hbytes]

/-- A write to a partition is a patch of its array. -/
theorem data_write (a : PartitionArrays) (id : PartitionId) (o : ℕ) (d : List UInt8) :
    (a.write id o d).data id = patch (a.data id) o d := by
  simp [PartitionArrays.write]

/-- A write that fits, to arrays that are not protected and were opened for writing. -/
theorem step_write {a : PartitionArrays} {id : PartitionId} {offset : UInt64} {buf : Buffer}
    (hwp : a.writeProtected = false) (haccess : a.access = .readWrite)
    (hin : offset.toNat + buf.bytes.length ≤ (a.data id).length) :
    PartitionArrays.step (.write id offset buf) a =
      (.ok .done, a.write id offset.toNat buf.bytes) := by
  have htakes : ¬ a.access.Refuses buf.bytes.length := by
    rw [haccess]
    exact fun hrefuses => nomatch hrefuses.1
  simp only [PartitionArrays.step, if_pos hin, hwp, if_neg htakes]
  rfl

/-- What installing a package leaves in SYSTEM. -/
theorem install_leaves {header package : Buffer} (h : IsPackage header package)
    {image : NandImage} (hlen : (image.data .system).length = 4294967296) :
    ((NandImage.session (installSession header package) image).2.data .system).take
      (0x200 + package.bytes.length) = header.bytes ++ package.bytes := by
  have hpackage := h.length_lt
  have hheader := h.length_header
  let a : PartitionArrays := ⟨image.data, false, .readWrite⟩
  have hfirst : PartitionArrays.step (.write .system 0 header) a =
      (.ok .done, a.write .system 0 header.bytes) :=
    step_write rfl rfl (show 0 + header.bytes.length ≤ (image.data .system).length by omega)
  have hlen' : ((a.write .system 0 header.bytes).data .system).length = 4294967296 := by
    rw [data_write, length_patch (show 0 + _ ≤ (image.data .system).length by omega)]
    exact hlen
  have hsecond : PartitionArrays.step (.write .system 0x200 package)
      (a.write .system 0 header.bytes) =
      (.ok .done, (a.write .system 0 header.bytes).write .system 0x200 package.bytes) :=
    step_write rfl rfl (show 0x200 + package.bytes.length ≤ _ by omega)
  have hsession : (NandImage.session (installSession header package) image).2.data .system =
      ((a.write .system 0 header.bytes).write .system 0x200 package.bytes).data .system := by
    show (runSteps NandImage.call _ a).2.data .system = _
    simp only [runSteps_cons, runSteps_nil, NandImage.call, hfirst, hsecond]
  have hadjacent := patch_patch_adjacent (l := image.data .system) (d := header.bytes)
    (e := package.bytes) (o := 0) (by omega)
  rw [Nat.zero_add, hheader] at hadjacent
  rw [hsession, data_write, data_write]
  show (patch (patch (image.data .system) 0 header.bytes) 0x200 package.bytes).take _ = _
  have hself := segment_patch_self (l := image.data .system) (d := header.bytes ++ package.bytes)
    (o := 0) (by rw [List.length_append]; omega)
  rw [List.length_append, hheader] at hself
  rw [hadjacent]
  exact hself

/-- The arrays of a disk are as long as their partitions. -/
theorem length_imageOf (disk : Disk) (id : PartitionId) :
    ((imageOf disk).data id).length = partitionSize TOTAL_BLOCKS.toNat id := by
  have hcap := length_padded disk.file.contents
  have hend := partition_le minBlocks id
  rw [toNat_STORAGE_CAPACITY] at hcap
  exact length_segment (by omega)

end Installed

/-- A header for a package of four bytes. -/
def smallHeader : Buffer where
  bytes := [0x50, 0x4B, 0x32, 0x31, 0, 0, 0, 0, 0, 0, 0, 0, 0, 0, 0, 0, 4, 0, 0, 0] ++
    List.replicate 492 0
  length_lt := by
    rw [List.length_append, List.length_replicate]
    decide

def smallPackage : Buffer where
  bytes := [1, 2, 3, 4]
  length_lt := by decide

/-- The header has 0x200 bytes. -/
theorem length_smallHeader : smallHeader.bytes.length = 0x200 := by
  unfold smallHeader
  rw [List.length_append, List.length_replicate]
  rfl

/-- The small package is one. -/
theorem isPackage_small : IsPackage smallHeader smallPackage :=
  ⟨length_smallHeader, rfl, rfl, by decide, by decide⟩

end Oboromi.Analysis
