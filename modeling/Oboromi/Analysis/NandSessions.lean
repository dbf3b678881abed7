import Oboromi.Analysis.NandRefinement
import Oboromi.Interface.NandSessions

/-!
# Sessions with an image are sessions with five arrays

A session maps the file it opens to a device of full size (`openFile_returns`,
`mountReadOnly_cases`), one call of it is a step of the arrays (`sessionCall_simulates`), and
the file it leaves is full.  What a session does to an image therefore depends on the arrays
and on how far the file goes, and by the simulation rule so does a run of sessions.
-/

set_option autoImplicit false

namespace Oboromi.Analysis

open Oboromi.Lib Oboromi.Model Oboromi.Interface

/-! ## Files of full size -/

/-- The capacity in blocks. -/
theorem toNat_STORAGE_CAPACITY : STORAGE_CAPACITY.toNat = TOTAL_BLOCKS.toNat * 4096 := by decide

/-- The device has room for the whole default table. -/
theorem minBlocks : 1069124 ≤ TOTAL_BLOCKS.toNat := by decide

/-- A file of full length is not padded. -/
theorem padded_of_le {contents : List UInt8} (h : STORAGE_CAPACITY.toNat ≤ contents.length) :
    padded contents = contents := by
  unfold padded
  rw [Nat.sub_eq_zero_of_le h, List.replicate_zero, List.append_nil]

/-- A padded file has the full length. -/
theorem length_padded (contents : List UInt8) :
    STORAGE_CAPACITY.toNat ≤ (padded contents).length := by
  unfold padded
  rw [List.length_append, List.length_replicate]
  omega

/-! ## Mounting -/

/-- A device of full size behind the default table. -/
structure Mounted (nand : Nand) : Prop where
  capacity : nand.storage.capacity = STORAGE_CAPACITY
  partitions : nand.partitions = ⟨defaultEntries (TOTAL_BLOCKS - 33 - 1)⟩

/-- On a device of the full capacity the default table is built. -/
theorem newDefault_of_capacity (b : Build) {s : EmulatedStorage}
    (h : s.capacity = STORAGE_CAPACITY) :
    PartitionTable.newDefault b s.totalBlocks =
      .ok ⟨defaultEntries (TOTAL_BLOCKS - 33 - 1)⟩ := by
  have htotal : s.totalBlocks = TOTAL_BLOCKS := by
    unfold EmulatedStorage.totalBlocks TOTAL_BLOCKS
    rw [h, s.blockSize_eq]
  rw [htotal]
  exact newDefault_eq b (Nat.le_trans (by decide) minBlocks)

/-- A device as a session finds it: of full size, with the bytes of the file and zeros for the ones
it lacks, protected exactly when its file was opened without write access. -/
structure Opened (s : EmulatedStorage) (file : HostFile) (access : Access) : Prop where
  capacity : s.capacity = STORAGE_CAPACITY
  contents : s.contents = padded file.contents
  writeProtected : s.writeProtected = (access == .readOnly)
  access : s.file.access = access

/-- SOURCE: core/src/fs/storage.rs:37-61 -/
theorem storage_openFile_returns {file : HostFile} (h : STORAGE_CAPACITY.toNat ≤ file.limit) :
    ∃ s, EmulatedStorage.openFile file = .ok s ∧ Opened s file .readWrite := by
  unfold EmulatedStorage.openFile
  by_cases hshort : (file.opened .readWrite).contents.length < STORAGE_CAPACITY.toNat
  · rw [dif_pos hshort]
    have hextend : (file.opened .readWrite).extend STORAGE_CAPACITY.toNat = .ok _ := dif_pos h
    split
    · next e he =>
        rw [hextend] at he
        cases he
    · next extended hextended =>
        rw [hextend] at hextended
        cases hextended
        exact ⟨_, rfl, rfl, rfl, rfl, rfl⟩
  · rw [dif_neg hshort]
    exact ⟨_, rfl, rfl, (padded_of_le (Nat.not_lt.mp hshort)).symm, rfl, rfl⟩

/-- SOURCE: core/src/fs/mod.rs:43-47 -/
theorem openFile_returns (b : Build) {file : HostFile}
    (h : STORAGE_CAPACITY.toNat ≤ file.limit) :
    ∃ nand, Nand.openFile b file = .ok nand ∧ Mounted nand ∧
      Opened nand.storage file .readWrite := by
  obtain ⟨s, hopen, hopened⟩ := storage_openFile_returns h
  refine ⟨⟨s, _⟩, ?_, ⟨hopened.capacity, rfl⟩, hopened⟩
  unfold Nand.openFile
  rw [hopen, ok_bind, newDefault_of_capacity b hopened.capacity]
  rfl

/-- SOURCE: core/src/fs/storage.rs:71-77 -/
theorem openReadOnly_short {file : HostFile}
    (h : file.contents.length < STORAGE_CAPACITY.toNat) :
    EmulatedStorage.openReadOnly file =
      .error (.io ⟨.invalidData, "storage image is smaller than 32 GB"⟩) := dif_pos h

/-- SOURCE: core/src/fs/storage.rs:79-85 -/
theorem openReadOnly_full {file : HostFile}
    (h : ¬ file.contents.length < STORAGE_CAPACITY.toNat) :
    ∃ s, EmulatedStorage.openReadOnly file = .ok s ∧ Opened s file .readOnly := by
  have hfull : ¬ (file.opened .readOnly).contents.length < STORAGE_CAPACITY.toNat := h
  unfold EmulatedStorage.openReadOnly
  rw [dif_neg hfull]
  exact ⟨_, rfl, rfl, (padded_of_le (Nat.not_lt.mp h)).symm, rfl, rfl⟩

/-- A file is mounted without write access when it is there in full size. -/
theorem mountReadOnly_cases (b : Build) (disk : Disk) :
    ((imageOf disk).extent = .absent ∧
      ∃ e, e.kind = .notFound ∧ mountReadOnly b disk = .error (.io e)) ∨
    ((imageOf disk).extent = .short ∧
      ∃ e, e.kind = .invalidData ∧ mountReadOnly b disk = .error (.io e)) ∨
    ((imageOf disk).extent = .full ∧ ∃ nand, mountReadOnly b disk = .ok nand ∧ Mounted nand ∧
      Opened nand.storage disk.file .readOnly) := by
  unfold mountReadOnly imageOf
  cases hpresent : disk.present with
  | false => exact .inl ⟨rfl, _, rfl, rfl⟩
  | true =>
      by_cases hshort : disk.file.contents.length < STORAGE_CAPACITY.toNat
      · refine .inr (.inl ⟨?_, ⟨.invalidData, "storage image is smaller than 32 GB"⟩, rfl, ?_⟩)
        · simp [hshort]
        · rw [if_pos rfl, openReadOnly_short hshort]
          rfl
      · obtain ⟨s, hopen, hopened⟩ := openReadOnly_full hshort
        refine .inr (.inr ⟨?_, ⟨s, _⟩, ?_, ⟨hopened.capacity, rfl⟩, hopened⟩)
        · simp [hshort]
        · rw [if_pos rfl, hopen, ok_bind, newDefault_of_capacity b hopened.capacity]
          rfl

/-! ## One call -/

/-- A mounted device that holds the arrays. -/
structure Holds (nand : Nand) (a : PartitionArrays) : Prop where
  mounted : Mounted nand
  arrays : partitionArrays TOTAL_BLOCKS.toNat nand.storage = a

/-- A call on the mounted device is the call on its storage. -/
theorem runNand_eq (b : Build) (c : NandCall) (nand : Nand) :
    (c.runNand b).run nand = ((c.run b nand.partitions nand.storage).1,
      { nand with storage := (c.run b nand.partitions nand.storage).2 }) := by
  cases c with
  | read id offset buf =>
      simp only [NandCall.runNand, NandCall.run, Sys.run_bind_pure]
      rfl
  | write id offset buf =>
      simp only [NandCall.runNand, NandCall.run, Sys.run_bind_pure]
      rfl

section Calls

variable {b : Build} {nand : Nand} {a : PartitionArrays}

/-- The capacity of a mounted device in bytes. -/
theorem Mounted.blocks (h : Mounted nand) :
    nand.storage.capacity.toNat = TOTAL_BLOCKS.toNat * 4096 := by
  rw [h.capacity]
  exact toNat_STORAGE_CAPACITY

/-- A request on the mounted device does what it does on the arrays. -/
theorem request_simulates (h : Holds nand a) {c : NandCall} (hc : c.InRange) :
    observe ((c.runNand b).run nand).1 = some (PartitionArrays.step c a).1 ∧
      Holds ((c.runNand b).run nand).2 (PartitionArrays.step c a).2 := by
  obtain ⟨hmounted, rfl⟩ := h
  obtain ⟨hres, harrays⟩ := nandCall_simulates b minBlocks hmounted.blocks c hc
  have hreserved := nandCall_reserved b minBlocks hmounted.blocks c hc
  rw [runNand_eq, hmounted.partitions]
  exact ⟨hres, ⟨hreserved.1.trans hmounted.capacity, rfl⟩, harrays⟩

/-- **One call of a session is one step of the arrays.** -/
theorem sessionCall_simulates (h : Holds nand a) {c : SessionCall} (hc : c.InRange) :
    observe (c.run b nand).1 = some (NandImage.call c a).1 ∧
      Holds (c.run b nand).2 (NandImage.call c a).2 := by
  cases c with
  | request c => exact request_simulates h hc
  | setWriteProtected wp =>
      obtain ⟨hmounted, rfl⟩ := h
      exact ⟨rfl, ⟨hmounted.capacity, hmounted.partitions⟩, rfl⟩
  | flush => exact ⟨rfl, h⟩

/-- No call of a session reaches what lies in front of the partitions or behind them. -/
theorem sessionCall_reserved (h : Mounted nand) {c : SessionCall} (hc : c.InRange) :
    SameReserved TOTAL_BLOCKS.toNat nand.storage (c.run b nand).2.storage := by
  cases c with
  | request c =>
      have hreserved := nandCall_reserved b minBlocks h.blocks c hc
      show SameReserved _ _ ((c.runNand b).run nand).2.storage
      rw [runNand_eq, h.partitions]
      exact hreserved
  | setWriteProtected wp => exact ⟨rfl, rfl, rfl⟩
  | flush => exact ⟨rfl, rfl, rfl⟩

end Calls

/-! ## One session -/

section Sessions

variable {b : Build} {disk : Disk}

/-- A session starts with the arrays of the disk. -/
theorem holds_of_opened {nand : Nand} {access : Access} (h : Mounted nand)
    (hopened : Opened nand.storage disk.file access) :
    Holds nand ⟨(imageOf disk).data, access == .readOnly, access⟩ := by
  refine ⟨h, ?_⟩
  unfold partitionArrays imageOf
  rw [hopened.contents, hopened.writeProtected, hopened.access]

/-- A mounted device holds the whole capacity. -/
theorem length_mounted {nand : Nand} (h : Mounted nand) :
    STORAGE_CAPACITY.toNat ≤ nand.storage.contents.length := by
  have hle := nand.storage.capacity_le
  rw [h.capacity] at hle
  exact hle

/-- What a session leaves behind is the image of the arrays it held. -/
theorem imageOf_leaves {nand : Nand} {a : PartitionArrays} (h : Holds nand a) :
    imageOf (NandSession.leaves nand) = ⟨a.data, .full⟩ := by
  have hfull := length_mounted h.mounted
  have hshort : ¬ nand.storage.file.contents.length < STORAGE_CAPACITY.toNat :=
    Nat.not_lt.mpr hfull
  rw [← h.arrays]
  unfold imageOf NandSession.leaves partitionArrays
  simp only [hshort, padded_of_le hfull, Bool.true_eq_false, if_false]

/-- The calls of a session. -/
theorem calls_simulate {nand : Nand} {a : PartitionArrays} (h : Holds nand a)
    {calls : List SessionCall} (hcalls : ∀ c ∈ calls, c.InRange) :
    (runSteps (SessionCall.run b) calls nand).1.map observe =
        (runSteps NandImage.call calls a).1.map some ∧
      Holds (runSteps (SessionCall.run b) calls nand).2 (runSteps NandImage.call calls a).2 := by
  have hstep : ∀ (c : SessionCall) (nand : Nand) (a : PartitionArrays), c.InRange →
      Holds nand a → observe (c.run b nand).1 = some (NandImage.call c a).1 ∧
        Holds (c.run b nand).2 (NandImage.call c a).2 :=
    fun _ _ _ hc hR => sessionCall_simulates hR hc
  exact runSteps_simulates hstep calls hcalls h

/-- Arrays that were not opened for writing keep their bytes, whatever is asked of them. -/
theorem call_readOnly (c : SessionCall) {a : PartitionArrays} (h : a.access = .readOnly) :
    (NandImage.call c a).2.access = .readOnly ∧ (NandImage.call c a).2.data = a.data := by
  cases c with
  | setWriteProtected wp => exact ⟨h, rfl⟩
  | flush => exact ⟨h, rfl⟩
  | request c =>
      cases c with
      | read id offset buf =>
          simp only [NandImage.call, PartitionArrays.step]
          split <;> exact ⟨h, rfl⟩
      | write id offset buf =>
          simp only [NandImage.call, PartitionArrays.step]
          split
          · split
            · exact ⟨h, rfl⟩
            · split
              · exact ⟨h, rfl⟩
              · next hrefuses =>
                  -- there was nothing to write
                  have hempty : buf.bytes = [] :=
                    List.length_eq_zero_iff.mp (Decidable.not_not.mp fun hne => hrefuses ⟨h, hne⟩)
                  refine ⟨h, ?_⟩
                  unfold PartitionArrays.write
                  rw [hempty, patch_nil, Function.update_eq_self]
          · exact ⟨h, rfl⟩

/-- So do any number of calls. -/
theorem calls_readOnly (calls : List SessionCall) {a : PartitionArrays} (h : a.access = .readOnly) :
    (runSteps NandImage.call calls a).2.data = a.data := by
  have hstep : ∀ (c : SessionCall) (a' : PartitionArrays), True →
      a'.access = .readOnly ∧ a'.data = a.data →
      (NandImage.call c a').2.access = .readOnly ∧ (NandImage.call c a').2.data = a.data := by
    rintro c a' - ⟨haccess, hdata⟩
    obtain ⟨haccess', hdata'⟩ := call_readOnly c haccess
    exact ⟨haccess', hdata'.trans hdata⟩
  exact (runSteps_invariant hstep calls (fun _ _ => trivial) ⟨h, rfl⟩).2

/-- Replies that agree one by one agree as an outcome. -/
theorem outcome_ok {replies : List (Except Fault Reply)} {replies' : List (Except ErrorKind Reply)}
    (h : replies.map observe = replies'.map some) :
    outcome (.ok replies) = expected (.ok replies') :=
  congrArg (fun l => some (Except.ok l)) h

/-- A read and write session runs its calls on the opened device. -/
theorem run_readWrite {calls : List SessionCall} {nand : Nand}
    (h : Nand.openFile b disk.file = .ok nand) :
    NandSession.run b (.readWrite calls) disk =
      (.ok (runSteps (SessionCall.run b) calls nand).1,
        NandSession.leaves (runSteps (SessionCall.run b) calls nand).2) := by
  unfold NandSession.run
  rw [h]

/-- A read only session runs its calls on the mounted device. -/
theorem run_readOnly {calls : List SessionCall} {nand : Nand}
    (h : mountReadOnly b disk = .ok nand) :
    NandSession.run b (.readOnly calls) disk =
      (.ok (runSteps (SessionCall.run b) calls nand).1,
        NandSession.leaves (runSteps (SessionCall.run b) calls nand).2) := by
  unfold NandSession.run
  rw [h]

/-- A read only session that cannot mount leaves the disk alone. -/
theorem run_readOnly_error {calls : List SessionCall} {e : Fault}
    (h : mountReadOnly b disk = .error e) :
    NandSession.run b (.readOnly calls) disk = (.error e, disk) := by
  unfold NandSession.run
  rw [h]

/-- **A session with a disk is a session with its arrays.** -/
theorem session_simulates (hlimit : STORAGE_CAPACITY.toNat ≤ disk.file.limit)
    (s : NandSession) (hs : s.InRange) :
    outcome (s.run b disk).1 = expected (NandImage.session s (imageOf disk)).1 ∧
      imageOf (s.run b disk).2 = (NandImage.session s (imageOf disk)).2 := by
  cases s with
  | readWrite calls =>
      obtain ⟨nand, hopen, hmounted, hopened⟩ := openFile_returns b hlimit
      obtain ⟨houts, hend⟩ := calls_simulate (b := b) (holds_of_opened hmounted hopened) hs
      rw [run_readWrite hopen]
      exact ⟨outcome_ok houts, imageOf_leaves hend⟩
  | readOnly calls =>
      unfold NandImage.session
      obtain ⟨hextent, e, hkind, hmount⟩ | ⟨hextent, e, hkind, hmount⟩ |
        ⟨hextent, nand, hmount, hmounted, hopened⟩ := mountReadOnly_cases b disk
      · rw [run_readOnly_error hmount, hextent, ← hkind]
        exact ⟨rfl, rfl⟩
      · rw [run_readOnly_error hmount, hextent, ← hkind]
        exact ⟨rfl, rfl⟩
      · obtain ⟨houts, hend⟩ := calls_simulate (b := b) (holds_of_opened hmounted hopened) hs
        rw [run_readOnly hmount, hextent]
        refine ⟨outcome_ok houts, ?_⟩
        rw [imageOf_leaves hend, calls_readOnly calls rfl]
        show (⟨(imageOf disk).data, .full⟩ : NandImage) = imageOf disk
        rw [← hextent]

/-- What a session leaves behind may still grow to the full capacity. -/
theorem limit_leaves {nand : Nand} (h : Mounted nand) :
    STORAGE_CAPACITY.toNat ≤ (NandSession.leaves nand).file.limit :=
  Nat.le_trans (length_mounted h) nand.storage.file.length_le

/-- What lies in front of the partitions of an image, and behind them. -/
def reservedOf (disk : Disk) : List UInt8 × List UInt8 :=
  ((padded disk.file.contents).take (34 * 4096),
    (padded disk.file.contents).drop ((TOTAL_BLOCKS.toNat - 33) * 4096))

/-- The reserved blocks a session leaves behind, in terms of its contents. -/
theorem reservedOf_leaves {nand : Nand} (h : Mounted nand) :
    reservedOf (NandSession.leaves nand) = (nand.storage.contents.take (34 * 4096),
      nand.storage.contents.drop ((TOTAL_BLOCKS.toNat - 33) * 4096)) := by
  unfold reservedOf NandSession.leaves
  rw [padded_of_le (length_mounted h)]

/-- A session that keeps the reserved blocks leaves them on the disk. -/
theorem leaves_reserved {nand nand' : Nand} (h : Mounted nand)
    (hcontents : nand.storage.contents = padded disk.file.contents)
    (hsame : SameReserved TOTAL_BLOCKS.toNat nand.storage nand'.storage)
    (hpartitions : nand'.partitions = nand.partitions) :
    STORAGE_CAPACITY.toNat ≤ (NandSession.leaves nand').file.limit ∧
      reservedOf (NandSession.leaves nand') = reservedOf disk := by
  obtain ⟨hcapacity, hfront, hbehind⟩ := hsame
  have hmounted : Mounted nand' :=
    ⟨hcapacity.trans h.capacity, hpartitions.trans h.partitions⟩
  refine ⟨limit_leaves hmounted, ?_⟩
  rw [reservedOf_leaves hmounted, hfront, hbehind, hcontents]
  rfl

/-- The calls of a session keep the device, its table and what is reserved. -/
theorem calls_reserved {nand : Nand} (h : Mounted nand) {calls : List SessionCall}
    (hcalls : ∀ c ∈ calls, c.InRange) :
    SameReserved TOTAL_BLOCKS.toNat nand.storage
        (runSteps (SessionCall.run b) calls nand).2.storage ∧
      (runSteps (SessionCall.run b) calls nand).2.partitions = nand.partitions := by
  have hstep : ∀ (c : SessionCall) (nand' : Nand), c.InRange →
      SameReserved TOTAL_BLOCKS.toNat nand.storage nand'.storage ∧
        nand'.partitions = nand.partitions →
      SameReserved TOTAL_BLOCKS.toNat nand.storage (c.run b nand').2.storage ∧
        (c.run b nand').2.partitions = nand.partitions := by
    rintro c nand' hc ⟨⟨hcapacity, hfront, hbehind⟩, hpartitions⟩
    have hmounted : Mounted nand' :=
      ⟨hcapacity.trans h.capacity, hpartitions.trans h.partitions⟩
    obtain ⟨hcapacity', hfront', hbehind'⟩ := sessionCall_reserved (b := b) hmounted hc
    refine ⟨⟨hcapacity'.trans hcapacity, hfront'.trans hfront, hbehind'.trans hbehind⟩, ?_⟩
    rw [← hpartitions]
    cases c with
    | request c =>
        show ((c.runNand b).run nand').2.partitions = _
        rw [runNand_eq]
    | setWriteProtected wp => rfl
    | flush => rfl
  exact runSteps_invariant hstep calls hcalls ⟨⟨rfl, rfl, rfl⟩, rfl⟩

/-- A session leaves a file of the host, and what is reserved in it. -/
theorem session_reserved (hlimit : STORAGE_CAPACITY.toNat ≤ disk.file.limit)
    (s : NandSession) (hs : s.InRange) :
    STORAGE_CAPACITY.toNat ≤ (s.run b disk).2.file.limit ∧
      reservedOf (s.run b disk).2 = reservedOf disk := by
  cases s with
  | readWrite calls =>
      obtain ⟨nand, hopen, hmounted, hopened⟩ := openFile_returns b hlimit
      obtain ⟨hsame, hpartitions⟩ := calls_reserved (b := b) hmounted hs
      rw [run_readWrite hopen]
      exact leaves_reserved hmounted hopened.contents hsame hpartitions
  | readOnly calls =>
      obtain ⟨-, e, -, hmount⟩ | ⟨-, e, -, hmount⟩ | ⟨-, nand, hmount, hmounted, hopened⟩ :=
        mountReadOnly_cases b disk
      · rw [run_readOnly_error hmount]
        exact ⟨hlimit, rfl⟩
      · rw [run_readOnly_error hmount]
        exact ⟨hlimit, rfl⟩
      · obtain ⟨hsame, hpartitions⟩ := calls_reserved (b := b) hmounted hs
        rw [run_readOnly hmount]
        exact leaves_reserved hmounted hopened.contents hsame hpartitions

end Sessions

/-! ## Runs of sessions -/

/-- Any list of sessions on the disk does what it does on the image. -/
theorem sessions_simulate {b : Build} {disk : Disk}
    (hlimit : STORAGE_CAPACITY.toNat ≤ disk.file.limit) {sessions : List NandSession}
    (hsessions : ∀ s ∈ sessions, s.InRange) :
    (runSteps (NandSession.run b) sessions disk).1.map outcome =
        (runSteps NandImage.session sessions (imageOf disk)).1.map expected ∧
      STORAGE_CAPACITY.toNat ≤ (runSteps (NandSession.run b) sessions disk).2.file.limit ∧
      imageOf (runSteps (NandSession.run b) sessions disk).2 =
        (runSteps NandImage.session sessions (imageOf disk)).2 := by
  let R : Disk → NandImage → Prop := fun disk image =>
    STORAGE_CAPACITY.toNat ≤ disk.file.limit ∧ imageOf disk = image
  have hstep : ∀ (s : NandSession) (disk : Disk) (image : NandImage), s.InRange → R disk image →
      outcome (s.run b disk).1 = expected (NandImage.session s image).1 ∧
        R (s.run b disk).2 (NandImage.session s image).2 := by
    rintro s disk _ hs ⟨hlimit, rfl⟩
    obtain ⟨hout, himage⟩ := session_simulates (b := b) hlimit s hs
    exact ⟨hout, (session_reserved hlimit s hs).1, himage⟩
  have hstart : R disk (imageOf disk) := ⟨hlimit, rfl⟩
  exact runSteps_simulates hstep sessions hsessions hstart

/-- **A NAND image keeps five arrays from one session to the next**, whatever its file held.
SOURCE: core/src/fs/storage.rs:32-86, core/src/fs/mod.rs:41-63, core/src/fs/partition.rs:175-216 -/
theorem nand_image_keeps_arrays (b : Build) (disk : Disk)
    (h : STORAGE_CAPACITY.toNat ≤ disk.file.limit) : KeepsArrays b disk := by
  constructor
  · intro sessions hsessions
    obtain ⟨houts, -, himage⟩ := sessions_simulate (b := b) h hsessions
    exact ⟨houts, himage⟩
  · intro sessions hsessions
    have hstep : ∀ (s : NandSession) (disk' : Disk), s.InRange →
        STORAGE_CAPACITY.toNat ≤ disk'.file.limit ∧ reservedOf disk' = reservedOf disk →
        STORAGE_CAPACITY.toNat ≤ (s.run b disk').2.file.limit ∧
          reservedOf (s.run b disk').2 = reservedOf disk := by
      rintro s disk' hs ⟨hlimit, hsame⟩
      obtain ⟨hlimit', hsame'⟩ := session_reserved (b := b) hlimit s hs
      exact ⟨hlimit', hsame'.trans hsame⟩
    have hend := (runSteps_invariant hstep sessions hsessions ⟨h, rfl⟩).2
    exact Prod.ext_iff.mp hend

/-- An image that is not there yet. -/
theorem nand_image_keeps_arrays_missing :
    KeepsArrays .debug (Disk.missing (2 ^ 63 - 1) (by decide)) :=
  nand_image_keeps_arrays .debug (Disk.missing (2 ^ 63 - 1) (by decide)) (by decide)

end Oboromi.Analysis
