import Oboromi.Analysis.NandRefinement
import Oboromi.Analysis.RequestGuards

/-!
# When a request stays inside its partition

A request past the end of its partition is refused because `offset + len` exceeds the
partition's size, and that sum is `u64` arithmetic.  The debug build panics when it wraps.
The release build compares the wrapped sum: when it is small, and the address
`start + offset` wraps as well, the device is asked for a stretch that lies before the
partition and serves it.  When the address does not wrap, the request ends past `2^64`
and the file refuses it.

`nandCall_confined_iff` says exactly which requests these are.
-/

set_option autoImplicit false

namespace Oboromi.Analysis

open Oboromi.Lib Oboromi.Model Oboromi.Interface

section Wrapped

variable (s : EmulatedStorage) (off : UInt64)

/-- A request to the device whose end wraps is refused. -/
theorem onDevice_of_wraps (c : NandCall) (h : 2 ^ 64 ≤ off.toNat + c.buf.bytes.length) :
    Refused s ((c.onDevice off).run .release s) := by
  cases c with
  | read id offset buf =>
      obtain ⟨e, hres, hk, hdev⟩ := readBytes_of_wraps s off buf h
      simp only [NandCall.onDevice, StorageCall.run, StorageCall.exec, Sys.run_bind_pure]
      exact ⟨e, by rw [hres]; rfl, hk, hdev⟩
  | write id offset buf =>
      obtain ⟨e, hres, hk, hdev⟩ := writeBytes_of_wraps s off buf h
      simp only [NandCall.onDevice, StorageCall.run, StorageCall.exec, Sys.run_bind_pure]
      exact ⟨e, by rw [hres]; rfl, hk, hdev⟩

end Wrapped

/-! ## Confinement -/

/-- The request was served at `address`: a read returns the bytes there and changes
nothing, a write replaces them and changes nothing else. -/
def Served (c : NandCall) (address : ℕ) (s : EmulatedStorage) (reply : Reply)
    (s' : EmulatedStorage) : Prop :=
  match c with
  | .read _ _ buf =>
    reply = .read buf.bytes.length (segment s.contents address buf.bytes.length) ∧
      device s' = device s
  | .write _ _ buf => reply = .done ∧ device s' = (device s).write address buf.bytes

/-- The outcome of a request respects its partition: it was refused, or it ends inside the
partition and was served at the partition's start plus the offset. -/
def Confined (t : PartitionTable) (c : NandCall) (s : EmulatedStorage)
    (r : Except Fault Reply × EmulatedStorage) : Prop :=
  Refused s r ∨ ∃ e reply, t.find c.id = some e ∧ r.1 = .ok reply ∧
    e.startBlock.toNat * 4096 + c.stop ≤ (e.endBlock.toNat + 1) * 4096 ∧
    Served c (e.startBlock.toNat * 4096 + c.offset.toNat) s reply r.2

/-- The device does not refuse the request on account of its write protection or of how its file
was opened. -/
def Permitted (s : EmulatedStorage) : NandCall → Prop
  | .read _ _ _ => True
  | .write _ _ buf => s.writeProtected = false ∧ ¬ s.file.access.Refuses buf.bytes.length

/-- Both sums of the request wrap, and the first one to a value the partition has room for. -/
def WrapsInside (total : ℕ) (c : NandCall) : Prop :=
  2 ^ 64 ≤ c.stop ∧ c.stop - 2 ^ 64 ≤ partitionSize total c.id ∧
    2 ^ 64 ≤ firstByte c.id + c.offset.toNat

/-- The requests each build handles properly. -/
def Handled (b : Build) (s : EmulatedStorage) (c : NandCall) : Prop :=
  match b with
  | .debug => c.stop < 2 ^ 64
  | .release => ¬ (WrapsInside s.totalBlocks.toNat c ∧ Permitted s c)

section Outcomes

variable {s : EmulatedStorage}

/-- The table of the device itself. -/
abbrev ownTable (s : EmulatedStorage) : PartitionTable := ⟨defaultEntries (s.totalBlocks - 33 - 1)⟩

/-- The blocks of a device fit its capacity. -/
theorem totalBlocks_le (s : EmulatedStorage) : s.totalBlocks.toNat * 4096 ≤ s.capacity.toNat := by
  rw [totalBlocks_toNat]
  exact Nat.div_mul_le_self _ _

/-- A request the device serves at an address whose end does not wrap. -/
theorem onDevice_of_fits (b : Build) (c : NandCall) (address : UInt64)
    (h : address.toNat + c.buf.bytes.length ≤ s.capacity.toNat) :
    (Permitted s c → ∃ reply, ((c.onDevice address).run b s).1 = .ok reply ∧
      Served c address.toNat s reply ((c.onDevice address).run b s).2) ∧
    (¬ Permitted s c → Refused s ((c.onDevice address).run b s)) := by
  have hlt : s.capacity.toNat < 2 ^ 64 := s.capacity.toNat_lt
  cases c with
  | read id offset buf =>
      have hcap : address.toNat + buf.bytes.length ≤ s.capacity.toNat := h
      obtain ⟨hres, hdev⟩ := readBytes_spec b s address buf (by omega)
      rw [if_pos hcap] at hres
      refine ⟨?_, fun hperm => absurd trivial hperm⟩
      intro _
      simp only [NandCall.onDevice, StorageCall.run, StorageCall.exec, Sys.run_bind_pure]
      cases hrun : ((EmulatedStorage.readBytes b address buf).run s).1 with
      | error e =>
          rw [hrun] at hres
          cases e <;> cases hres
      | ok r =>
          rw [hrun] at hres
          cases hres
          exact ⟨_, rfl, rfl, hdev⟩
  | write id offset buf =>
      have hcap : address.toNat + buf.bytes.length ≤ s.capacity.toNat := h
      obtain ⟨hres, hdev⟩ := writeBytes_spec b s address buf (by omega)
      simp only [hcap, if_true, and_true] at hres hdev
      simp only [NandCall.onDevice, StorageCall.run, StorageCall.exec, Sys.run_bind_pure]
      constructor
      · intro hperm
        obtain ⟨hwp, htaken⟩ : s.writeProtected = false ∧
          ¬ s.file.access.Refuses buf.bytes.length := hperm
        simp only [hwp, Bool.false_eq_true, if_false, if_true] at hres hdev
        rw [hostAnswer, if_neg htaken] at hres
        rw [written_of_taken s htaken] at hdev
        rw [eq_ok_of_observe hres]
        exact ⟨_, rfl, rfl, hdev⟩
      · intro hperm
        cases hwp : s.writeProtected with
        | true =>
            simp only [hwp, if_true, Bool.true_eq_false, if_false] at hres hdev
            exact refused_of_observe (by rw [observe_map, hres]; rfl) (by decide) hdev
        | false =>
            have hrefused : s.file.access.Refuses buf.bytes.length :=
              Decidable.not_not.mp fun htaken => hperm ⟨hwp, htaken⟩
            simp only [hwp, Bool.false_eq_true, if_false, if_true] at hres hdev
            rw [hostAnswer, if_pos hrefused] at hres
            rw [written_of_refused s hrefused] at hdev
            exact refused_of_observe (by rw [observe_map, hres]; rfl) (by decide) hdev

/-- A request neither of whose sums wraps is confined. -/
theorem confined_of_fits (b : Build) (hmin : 1069124 ≤ s.totalBlocks.toNat) (c : NandCall)
    (hfit : c.stop < 2 ^ 64) : Confined (ownTable s) c s (c.run b (ownTable s) s) := by
  have hend := partition_le hmin c.id
  have hcap := totalBlocks_le s
  rcases nandCall_of_fits b hmin hcap c hfit with ⟨-, hrun⟩ | ⟨hin, address, haddr, hrun⟩
  · rw [hrun]
    exact .inl ⟨_, rfl, by simp, rfl⟩
  · have hstop : c.stop = c.offset.toNat + c.buf.bytes.length := rfl
    obtain ⟨hserved, hrefused⟩ := onDevice_of_fits (s := s) b c address (by omega)
    rw [hrun]
    by_cases hperm : Permitted s c
    · obtain ⟨reply, hres, hreply⟩ := hserved hperm
      rw [haddr] at hreply
      have hroom : 34 ≤ s.totalBlocks.toNat := by omega
      have hlast := defaultEntry_end hroom c.id
      refine .inr ⟨_, reply, find_default _ _, hres, ?_, ?_⟩
      · rw [defaultEntry_start, hlast, ← partition_end hmin]
        exact Nat.add_le_add_left hin _
      · rw [defaultEntry_start]
        exact hreply
    · exact .inl (hrefused hperm)

/-- A request that ends past `2^64` and is nevertheless served is not confined. -/
theorem not_confined_of_ok (hmin : 1069124 ≤ s.totalBlocks.toNat) {c : NandCall}
    {r : Except Fault Reply × EmulatedStorage} {reply : Reply} (hbig : 2 ^ 64 ≤ c.stop)
    (hok : r.1 = .ok reply) : ¬ Confined (ownTable s) c s r := by
  have hend := partition_le hmin c.id
  have hcap := totalBlocks_le s
  have hlt : s.capacity.toNat < 2 ^ 64 := s.capacity.toNat_lt
  rintro (⟨e, herr, -, -⟩ | ⟨e, _, hfind, -, hle, -⟩)
  · rw [hok] at herr
    cases herr
  · rw [find_default, Option.some.injEq] at hfind
    subst hfind
    rw [defaultEntry_start, defaultEntry_end (by omega), ← partition_end hmin] at hle
    have hin : c.stop ≤ partitionSize s.totalBlocks.toNat c.id := Nat.le_of_add_le_add_left hle
    omega

/-- A call that panics is not confined. -/
theorem not_confined_of_panic {t : PartitionTable} {c : NandCall}
    {r : Except Fault Reply × EmulatedStorage} (hpanic : r.1 = .error .panic) :
    ¬ Confined t c s r := by
  rintro (⟨e, herr, -, -⟩ | ⟨e, reply, -, hok, -, -⟩)
  · rw [hpanic] at herr
    cases herr
  · rw [hpanic] at hok
    cases hok

/-- In the debug build a request whose end is not representable panics. -/
theorem nandCall_debug_of_wraps (hmin : 1069124 ≤ s.totalBlocks.toNat) {c : NandCall}
    (hbig : 2 ^ 64 ≤ c.stop) : (c.run .debug (ownTable s) s).1 = .error .panic := by
  have hsum : 2 ^ 64 ≤ c.offset.toNat + c.buf.len.toNat := by
    rw [Buffer.len_toNat]
    exact hbig
  rw [nandCall_run .debug hmin (totalBlocks_le s) c]
  unfold throughTable
  rw [Build.addU64_debug_of_wraps hsum]

/-- In the release build a request whose end is not representable is compared by its
wrapped end and sent to its wrapped address. -/
theorem nandCall_release_of_wraps (hmin : 1069124 ≤ s.totalBlocks.toNat) {c : NandCall}
    (hbig : 2 ^ 64 ≤ c.stop) :
    c.run .release (ownTable s) s =
      if partitionSize s.totalBlocks.toNat c.id < c.stop - 2 ^ 64 then
        (.error (.io ⟨.invalidInput, boundsMessage c⟩), s)
      else (c.onDevice (UInt64.ofNat (firstByte c.id) + c.offset)).run .release s := by
  have hsum : 2 ^ 64 ≤ c.offset.toNat + c.buf.len.toNat := by
    rw [Buffer.len_toNat]
    exact hbig
  have hstop : (c.offset + c.buf.len).toNat = c.stop - 2 ^ 64 := by
    rw [toNat_add_of_wraps hsum, Buffer.len_toNat]
    rfl
  rw [nandCall_run .release hmin (totalBlocks_le s) c]
  unfold throughTable
  simp only [Build.addU64_release, hstop]

/-- Both sums wrap: the device is asked for the wrapped address, which lies before the end
of the partition by as much as the request is short of wrapping back to it. -/
theorem wrapped_address (hmin : 1069124 ≤ s.totalBlocks.toNat) {c : NandCall}
    (h : WrapsInside s.totalBlocks.toNat c) :
    (UInt64.ofNat (firstByte c.id) + c.offset).toNat =
        firstByte c.id + c.offset.toNat - 2 ^ 64 ∧
      (UInt64.ofNat (firstByte c.id) + c.offset).toNat + c.buf.bytes.length ≤
        s.capacity.toNat := by
  obtain ⟨hbig, hsmall, hwrap⟩ := h
  have hend := partition_le hmin c.id
  have hcap := totalBlocks_le s
  have hlt : s.capacity.toNat < 2 ^ 64 := s.capacity.toNat_lt
  have hstop : c.stop = c.offset.toNat + c.buf.bytes.length := rfl
  have hbase : (UInt64.ofNat (firstByte c.id)).toNat = firstByte c.id :=
    UInt64.toNat_ofNat_of_lt' (show firstByte c.id < 2 ^ 64 by omega)
  have haddr : (UInt64.ofNat (firstByte c.id) + c.offset).toNat =
      firstByte c.id + c.offset.toNat - 2 ^ 64 := by
    rw [toNat_add_of_wraps (by rwa [hbase]), hbase]
  exact ⟨haddr, by omega⟩

/-- In the release build a request whose end wraps is served when both sums wrap and the
device permits it. -/
theorem nandCall_release_served (hmin : 1069124 ≤ s.totalBlocks.toNat) {c : NandCall}
    (h : WrapsInside s.totalBlocks.toNat c) (hperm : Permitted s c) :
    ∃ reply, (c.run .release (ownTable s) s).1 = .ok reply ∧
      Served c (firstByte c.id + c.offset.toNat - 2 ^ 64) s reply
        (c.run .release (ownTable s) s).2 := by
  obtain ⟨haddr, hfit⟩ := wrapped_address hmin h
  obtain ⟨reply, hok, hserved⟩ := (onDevice_of_fits (s := s) .release c _ hfit).1 hperm
  rw [nandCall_release_of_wraps hmin h.1, if_neg (Nat.not_lt.mpr h.2.1)]
  rw [haddr] at hserved
  exact ⟨reply, hok, hserved⟩

/-- In the release build every other request whose end wraps is refused. -/
theorem nandCall_release_refused (hmin : 1069124 ≤ s.totalBlocks.toNat) {c : NandCall}
    (hbig : 2 ^ 64 ≤ c.stop) (h : ¬ (WrapsInside s.totalBlocks.toNat c ∧ Permitted s c)) :
    Refused s (c.run .release (ownTable s) s) := by
  have hend := partition_le hmin c.id
  have hcap := totalBlocks_le s
  have hlt : s.capacity.toNat < 2 ^ 64 := s.capacity.toNat_lt
  have hstop : c.stop = c.offset.toNat + c.buf.bytes.length := rfl
  rw [nandCall_release_of_wraps hmin hbig]
  by_cases hpast : partitionSize s.totalBlocks.toNat c.id < c.stop - 2 ^ 64
  · rw [if_pos hpast]
    exact ⟨_, rfl, by simp, rfl⟩
  · rw [if_neg hpast]
    by_cases hwrap : 2 ^ 64 ≤ firstByte c.id + c.offset.toNat
    · have hinside : WrapsInside s.totalBlocks.toNat c := ⟨hbig, Nat.not_lt.mp hpast, hwrap⟩
      exact (onDevice_of_fits (s := s) .release c _ (wrapped_address hmin hinside).2).2
        (fun hperm => h ⟨hinside, hperm⟩)
    · -- the address is the exact one, so the request ends past 2^64 on the device too
      have hbase : (UInt64.ofNat (firstByte c.id)).toNat = firstByte c.id :=
        UInt64.toNat_ofNat_of_lt' (show firstByte c.id < 2 ^ 64 by omega)
      have haddr : (UInt64.ofNat (firstByte c.id) + c.offset).toNat =
          firstByte c.id + c.offset.toNat := by
        rw [toNat_add_of_fits (by omega), hbase]
      exact onDevice_of_wraps s _ c (by omega)

end Outcomes

/-- **A request is confined to its partition exactly when the build handles it**: in the
debug build when its end is representable, in the release build unless both of its sums
wrap and the first one into the partition's size.
SOURCE: core/src/fs/partition.rs:175-216 -/
theorem nandCall_confined_iff (b : Build) (s : EmulatedStorage)
    (hmin : 1069124 ≤ s.totalBlocks.toNat) :
    ∃ t, PartitionTable.newDefault b s.totalBlocks = .ok t ∧
      ∀ c : NandCall, Confined t c s (c.run b t s) ↔ Handled b s c := by
  refine ⟨ownTable s, newDefault_eq b (by omega), ?_⟩
  intro c
  by_cases hfit : c.stop < 2 ^ 64
  · refine iff_of_true (confined_of_fits b hmin c hfit) ?_
    cases b with
    | debug => exact hfit
    | release => exact fun h => absurd h.1.1 (Nat.not_le.mpr hfit)
  · have hbig : 2 ^ 64 ≤ c.stop := Nat.not_lt.mp hfit
    cases b with
    | debug =>
        exact iff_of_false (not_confined_of_panic (nandCall_debug_of_wraps hmin hbig)) hfit
    | release =>
        by_cases h : WrapsInside s.totalBlocks.toNat c ∧ Permitted s c
        · obtain ⟨reply, hok, -⟩ := nandCall_release_served hmin h.1 h.2
          exact iff_of_false (not_confined_of_ok hmin hbig hok) (not_not_intro h)
        · exact iff_of_true (.inl (nandCall_release_refused hmin hbig h)) h

/-- A new 32 GB image. -/
def newNand : EmulatedStorage :=
  EmulatedStorage.newImage STORAGE_CAPACITY (by decide) (by decide)

/-- The sample device's number of blocks. -/
theorem newNand_totalBlocks : newNand.totalBlocks = 8388608 := by decide

/-- The sample device has room for the whole default table. -/
theorem newNand_min : 1069124 ≤ newNand.totalBlocks.toNat := by
  rw [newNand_totalBlocks]
  decide

/-- On the sample device the calls confined are exactly the handled ones. -/
theorem nandCall_confined_iff_newNand :
    ∃ t, PartitionTable.newDefault .release newNand.totalBlocks = .ok t ∧
      ∀ c : NandCall, Confined t c newNand (c.run .release t newNand) ↔
        Handled .release newNand c :=
  nandCall_confined_iff .release newNand newNand_min

/-- A write of one byte to `PRODINFOF`, at the last offset there is. -/
def wrappedWrite : NandCall :=
  .write .prodInfoF (UInt64.ofNat (2 ^ 64 - 1)) ⟨[0xFF], by decide⟩

/-- The wrapped write of the sample ends up inside the device. -/
theorem wrappedWrite_wrapsInside : WrapsInside newNand.totalBlocks.toNat wrappedWrite := by
  refine ⟨?_, ?_, ?_⟩ <;> decide

/-- The release build writes it over the last byte of `PRODINFO`. -/
theorem wrappedWrite_escapes :
    ∃ t, PartitionTable.newDefault .release newNand.totalBlocks = .ok t ∧
      ¬ Confined t wrappedWrite newNand (wrappedWrite.run .release t newNand) ∧
      (wrappedWrite.run .release t newNand).1 = .ok .done ∧
      (wrappedWrite.run .release t newNand).2.contents =
        patch newNand.contents (firstByte .prodInfoF - 1) [0xFF] := by
  obtain ⟨reply, hok, hreply, hdev⟩ :=
    nandCall_release_served newNand_min wrappedWrite_wrapsInside
      ⟨rfl, fun h => by cases h.1⟩
  have haddr : firstByte wrappedWrite.id + wrappedWrite.offset.toNat - 2 ^ 64 =
      firstByte .prodInfoF - 1 := by
    decide
  rw [haddr] at hdev
  refine ⟨ownTable newNand, newDefault_eq _ (Nat.le_trans (by decide) newNand_min),
    not_confined_of_ok newNand_min wrappedWrite_wrapsInside.1 hok, ?_, ?_⟩
  · rw [hok, hreply]
  · exact congrArg Device.contents hdev

end Oboromi.Analysis
