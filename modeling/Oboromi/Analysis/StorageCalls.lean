import Oboromi.Interface.FlatArray

/-!
# What each device call does

One specification per call of `EmulatedStorage`, for arguments whose arithmetic stays
below `2^64`: the call reads or writes exactly its window of the file, or reports
`InvalidInput` (or `PermissionDenied`, for a write on a protected device) and leaves the
device alone, as does a write to a file that was not opened for it.  Nothing above this file
unfolds a call again.

`Device` is what a call can change, apart from the file's cursor, which every call sets
before it uses it.
-/

set_option autoImplicit false

namespace Oboromi.Analysis

open Oboromi.Lib Oboromi.Model Oboromi.Interface

/-- A device without its file cursor. -/
structure Device where
  contents : List UInt8
  capacity : UInt64
  writeProtected : Bool
  access : Access

/-- Forget the file cursor. -/
def device (s : EmulatedStorage) : Device where
  contents := s.contents
  capacity := s.capacity
  writeProtected := s.writeProtected
  access := s.file.access

/-- The device after `data` is written at `o`. -/
def Device.write (d : Device) (o : ℕ) (data : List UInt8) : Device :=
  { d with contents := patch d.contents o data }

/-- What the host answers a write of `n` bytes for which it has room. -/
def hostAnswer (access : Access) (n : ℕ) : Except ErrorKind Unit :=
  if access.Refuses n then .error .uncategorized else .ok ()

/-- The device after such a write. -/
def Device.written (d : Device) (o : ℕ) (data : List UInt8) : Device :=
  if d.access.Refuses data.length then d else d.write o data

variable (b : Build) (s : EmulatedStorage)

/-- A file that is open for writing takes the bytes, -/
theorem written_of_taken {o : ℕ} {data : List UInt8} (h : ¬ s.file.access.Refuses data.length) :
    (device s).written o data = (device s).write o data := if_neg h

/-- and one that is not stays as it is. -/
theorem written_of_refused {o : ℕ} {data : List UInt8} (h : s.file.access.Refuses data.length) :
    (device s).written o data = device s := if_pos h

/-! ## The file under a seek -/

/-- A seek followed by a read inside the file returns the bytes of that window. -/
theorem seek_readExact {α : Type} {off : UInt64} {n : ℕ} (f : List UInt8 → α)
    (h : off.toNat + n ≤ s.contents.length) :
    ((do
      EmulatedStorage.seek off
      let data ← EmulatedStorage.readExact n
      return f data : StorageM α).run s).1 = .ok (f (segment s.contents off.toNat n)) ∧
    device ((do
      EmulatedStorage.seek off
      let data ← EmulatedStorage.readExact n
      return f data : StorageM α).run s).2 = device s := by
  have hlim : s.contents.length ≤ s.file.limit := s.file.length_le
  have hseek : s.file.seek off.toNat = (.ok (), { s.file with pos := off.toNat }) :=
    HostFile.seek_of_le (by omega)
  have hfit : off.toNat + n ≤ s.file.contents.length := h
  simp [Sys.run, EmulatedStorage.seek, EmulatedStorage.readExact, bind, pure, hseek,
    HostFile.readExact, EmulatedStorage.withFile, hfit, device]

/-- A seek followed by a write inside the device overwrites that window, if the file was opened
for writing. -/
theorem seek_writeAll {off : UInt64} {data : List UInt8}
    (h : off.toNat + data.length ≤ s.capacity.toNat) :
    observe ((do
      EmulatedStorage.seek off
      EmulatedStorage.writeAll data : StorageM Unit).run s).1 =
        some (hostAnswer s.file.access data.length) ∧
    device ((do
      EmulatedStorage.seek off
      EmulatedStorage.writeAll data : StorageM Unit).run s).2 =
        (device s).written off.toNat data := by
  have hcap := s.capacity_le
  have hlim := s.file.length_le
  have hseek : s.file.seek off.toNat = (.ok (), { s.file with pos := off.toNat }) :=
    HostFile.seek_of_le (by omega)
  have hfit : off.toNat + data.length ≤ s.file.limit := by omega
  have hsplice : HostFile.splice s.file.contents off.toNat data =
      patch s.file.contents off.toNat data := HostFile.splice_of_le (by omega)
  by_cases haccess : s.file.access.Refuses data.length
  · simp [Sys.run, EmulatedStorage.seek, EmulatedStorage.writeAll, bind, hseek,
      HostFile.writeAll, EmulatedStorage.withFile, device, Device.written, hostAnswer, haccess]
  · simp [Sys.run, EmulatedStorage.seek, EmulatedStorage.writeAll, bind, hseek,
      HostFile.writeAll, EmulatedStorage.withFile, hfit, device, Device.written, Device.write,
      hostAnswer, haccess, hsplice]

/-- SOURCE: core/src/fs/storage.rs:101-103 -/
theorem totalBlocks_toNat : s.totalBlocks.toNat = s.capacity.toNat / 4096 := by
  unfold EmulatedStorage.totalBlocks
  rw [UInt64.toNat_div, s.blockSize_eq]
  rfl

/-- A block has 4096 bytes. -/
theorem blockSize_toNat : s.blockSize.toNat = 4096 := by
  rw [s.blockSize_eq]
  rfl

/-- A block range inside the device is a byte range inside the device. -/
theorem blocks_le_capacity (start count cap : ℕ) (h : start + count ≤ cap / 4096) :
    start * 4096 + count * 4096 ≤ cap := by
  omega

/-- The byte offset of a block inside the device is representable. -/
theorem block_offset_fits (start count : ℕ) (h : start + count ≤ s.capacity.toNat / 4096) :
    start * s.blockSize.toNat < 2 ^ 64 := by
  have hlt := s.capacity.toNat_lt
  rw [blockSize_toNat]
  omega

/-- The device has a block, so the text of an out-of-range index is computed without an
underflow and the call reports its error. -/
theorem blockIndexError_spec {α : Type} (i : UInt64) :
    observe ((EmulatedStorage.blockIndexError b s i : StorageM α).run s).1 =
      some (.error .invalidInput) ∧
    ((EmulatedStorage.blockIndexError b s i : StorageM α).run s).2 = s := by
  have hone : (1 : UInt64).toNat ≤ s.totalBlocks.toNat := by
    have hle : 4096 ≤ s.capacity.toNat := s.block_le
    rw [totalBlocks_toNat]
    show 1 ≤ s.capacity.toNat / 4096
    omega
  unfold EmulatedStorage.blockIndexError
  rw [Sys.run_bind, Sys.run_monadLift, Build.subU64_of_fits hone]
  exact ⟨rfl, rfl⟩

/-! ## Byte requests -/

/-- SOURCE: core/src/fs/storage.rs:236-247 -/
theorem readBytes_spec (off : UInt64) (buf : Buffer)
    (h : off.toNat + buf.bytes.length < 2 ^ 64) :
    observe ((EmulatedStorage.readBytes b off buf).run s).1 =
      (if off.toNat + buf.bytes.length ≤ s.capacity.toNat then
        some (.ok (buf.bytes.length, segment s.contents off.toNat buf.bytes.length))
      else some (.error .invalidInput)) ∧
    device ((EmulatedStorage.readBytes b off buf).run s).2 = device s := by
  have hadd : b.addU64 off buf.len = .ok (off + buf.len) := Build.addU64_of_fits (by simpa using h)
  have hstop : (off + buf.len).toNat = off.toNat + buf.bytes.length := by
    rw [toNat_add_of_fits (by simpa using h), Buffer.len_toNat]
  unfold EmulatedStorage.readBytes
  simp only [Sys.run_bind, Sys.run_get, Sys.run_monadLift, hadd,
    UInt64.lt_iff_toNat_lt, hstop]
  by_cases hcap : off.toNat + buf.bytes.length ≤ s.capacity.toNat
  · rw [if_neg (by omega), if_pos hcap]
    obtain ⟨hres, hdev⟩ := seek_readExact s (fun data => (buf.bytes.length, data))
      (Nat.le_trans hcap s.capacity_le)
    exact ⟨by rw [hres]; rfl, hdev⟩
  · rw [if_pos (by omega), if_neg hcap]
    exact ⟨rfl, rfl⟩

/-- SOURCE: core/src/fs/storage.rs:250-267 -/
theorem writeBytes_spec (off : UInt64) (buf : Buffer)
    (h : off.toNat + buf.bytes.length < 2 ^ 64) :
    observe ((EmulatedStorage.writeBytes b off buf).run s).1 =
      (if s.writeProtected then some (.error .permissionDenied)
      else if off.toNat + buf.bytes.length ≤ s.capacity.toNat then
        some (hostAnswer s.file.access buf.bytes.length)
      else some (.error .invalidInput)) ∧
    device ((EmulatedStorage.writeBytes b off buf).run s).2 =
      if s.writeProtected = false ∧ off.toNat + buf.bytes.length ≤ s.capacity.toNat then
        (device s).written off.toNat buf.bytes
      else device s := by
  have hadd : b.addU64 off buf.len = .ok (off + buf.len) := Build.addU64_of_fits (by simpa using h)
  have hstop : (off + buf.len).toNat = off.toNat + buf.bytes.length := by
    rw [toNat_add_of_fits (by simpa using h), Buffer.len_toNat]
  unfold EmulatedStorage.writeBytes
  simp only [Sys.run_bind, Sys.run_get]
  cases hwp : s.writeProtected with
  | true => simp
  | false =>
    simp only [Bool.false_eq_true, if_false, Sys.run_bind, Sys.run_monadLift, hadd,
      UInt64.lt_iff_toNat_lt, hstop, true_and]
    by_cases hcap : off.toNat + buf.bytes.length ≤ s.capacity.toNat
    · rw [if_neg (by omega), if_pos hcap, if_pos hcap]
      exact seek_writeAll s hcap
    · rw [if_pos (by omega), if_neg hcap, if_neg hcap]
      exact ⟨rfl, rfl⟩

/-! ## Multi-block requests -/

/-- The length product of a request, when it does not wrap. -/
theorem mulU64_blockSize {x : UInt64} (h : x.toNat * 4096 < 2 ^ 64) :
    b.mulU64 x s.blockSize = .ok (x * s.blockSize) ∧
      (x * s.blockSize).toNat = x.toNat * 4096 := by
  have hfits : x.toNat * s.blockSize.toNat < 2 ^ 64 := by rwa [blockSize_toNat]
  refine ⟨Build.mulU64_of_fits hfits, ?_⟩
  rw [toNat_mul_of_fits hfits, blockSize_toNat]

/-- SOURCE: core/src/fs/storage.rs:184-203 -/
theorem readBlocks_spec (start count : UInt64) (buf : Buffer)
    (hlen : count.toNat * 4096 < 2 ^ 64) (hsum : start.toNat + count.toNat < 2 ^ 64) :
    observe ((EmulatedStorage.readBlocks b start count buf).run s).1 =
      (if count.toNat * 4096 ≤ buf.bytes.length ∧
          start.toNat + count.toNat ≤ s.capacity.toNat / 4096 then
        some (.ok (count.toNat * 4096,
          segment s.contents (start.toNat * 4096) (count.toNat * 4096) ++
            buf.bytes.drop (count.toNat * 4096)))
      else some (.error .invalidInput)) ∧
    device ((EmulatedStorage.readBlocks b start count buf).run s).2 = device s := by
  have hbs : s.blockSize.toNat = 4096 := blockSize_toNat s
  obtain ⟨hmul, hexp⟩ := mulU64_blockSize b s hlen
  have hadd : b.addU64 start count = .ok (start + count) := Build.addU64_of_fits hsum
  unfold EmulatedStorage.readBlocks
  simp only [Sys.run_bind, Sys.run_get, Sys.run_monadLift, hmul, UInt64.lt_iff_toNat_lt, hexp,
    Buffer.len_toNat]
  by_cases hbuf : count.toNat * 4096 ≤ buf.bytes.length
  · rw [if_neg (by omega)]
    simp only [Sys.run_bind, Sys.run_monadLift, hadd, toNat_add_of_fits hsum, totalBlocks_toNat,
      hbuf, true_and]
    by_cases hcap : start.toNat + count.toNat ≤ s.capacity.toNat / 4096
    · have hoff : start.toNat * s.blockSize.toNat < 2 ^ 64 := block_offset_fits s _ _ hcap
      have hwin : (start * s.blockSize).toNat + count.toNat * 4096 ≤ s.capacity.toNat := by
        rw [toNat_mul_of_fits hoff, hbs]
        exact blocks_le_capacity _ _ _ hcap
      rw [if_neg (by omega), if_pos hcap]
      simp only [Sys.run_bind, Sys.run_monadLift, Build.mulU64_of_fits hoff]
      obtain ⟨hres, hdev⟩ := seek_readExact s
        (fun data => (count.toNat * 4096, data ++ buf.bytes.drop (count.toNat * 4096)))
        (Nat.le_trans hwin s.capacity_le)
      refine ⟨?_, hdev⟩
      rw [toNat_mul_of_fits hoff, hbs] at hres
      exact congrArg observe hres
    · rw [if_pos (by omega), if_neg hcap]
      exact ⟨rfl, rfl⟩
  · rw [if_pos (by omega), if_neg (fun h => hbuf h.1)]
    exact ⟨rfl, rfl⟩

/-- SOURCE: core/src/fs/storage.rs:206-231 -/
theorem writeBlocks_spec (start count : UInt64) (buf : Buffer)
    (hlen : count.toNat * 4096 < 2 ^ 64) (hsum : start.toNat + count.toNat < 2 ^ 64) :
    observe ((EmulatedStorage.writeBlocks b start count buf).run s).1 =
      (if s.writeProtected then some (.error .permissionDenied)
      else if count.toNat * 4096 ≤ buf.bytes.length ∧
          start.toNat + count.toNat ≤ s.capacity.toNat / 4096 then
        some (hostAnswer s.file.access (count.toNat * 4096))
      else some (.error .invalidInput)) ∧
    device ((EmulatedStorage.writeBlocks b start count buf).run s).2 =
      if s.writeProtected = false ∧ count.toNat * 4096 ≤ buf.bytes.length ∧
          start.toNat + count.toNat ≤ s.capacity.toNat / 4096 then
        (device s).written (start.toNat * 4096) (buf.bytes.take (count.toNat * 4096))
      else device s := by
  have hbs : s.blockSize.toNat = 4096 := blockSize_toNat s
  obtain ⟨hmul, hexp⟩ := mulU64_blockSize b s hlen
  have hadd : b.addU64 start count = .ok (start + count) := Build.addU64_of_fits hsum
  unfold EmulatedStorage.writeBlocks
  simp only [Sys.run_bind, Sys.run_get]
  cases hwp : s.writeProtected with
  | true => simp
  | false =>
    simp only [Bool.false_eq_true, if_false, Sys.run_bind, Sys.run_monadLift, hmul,
      UInt64.lt_iff_toNat_lt, hexp, Buffer.len_toNat, true_and]
    by_cases hbuf : count.toNat * 4096 ≤ buf.bytes.length
    · rw [if_neg (by omega)]
      simp only [Sys.run_bind, Sys.run_monadLift, hadd, toNat_add_of_fits hsum,
        totalBlocks_toNat, hbuf, true_and]
      by_cases hcap : start.toNat + count.toNat ≤ s.capacity.toNat / 4096
      · have hoff : start.toNat * s.blockSize.toNat < 2 ^ 64 := block_offset_fits s _ _ hcap
        have hlength : (buf.bytes.take (count.toNat * 4096)).length = count.toNat * 4096 := by
          rw [List.length_take, Nat.min_eq_left hbuf]
        have hwin : (start * s.blockSize).toNat +
            (buf.bytes.take (count.toNat * 4096)).length ≤ s.capacity.toNat := by
          rw [toNat_mul_of_fits hoff, hbs, hlength]
          exact blocks_le_capacity _ _ _ hcap
        rw [if_neg (by omega), if_pos hcap, if_pos hcap]
        simp only [Sys.run_bind, Sys.run_monadLift, Build.mulU64_of_fits hoff]
        obtain ⟨hres, hdev⟩ := seek_writeAll s hwin
        rw [toNat_mul_of_fits hoff, hbs] at hdev
        rw [hlength] at hres
        exact ⟨hres, hdev⟩
      · rw [if_pos (by omega), if_neg hcap, if_neg hcap]
        exact ⟨rfl, rfl⟩
    · rw [if_pos (by omega), if_neg (fun h => hbuf h.1), if_neg (fun h => hbuf h.1)]
      exact ⟨rfl, rfl⟩

/-! ## Single-block requests -/

/-- The length check of a block request, which compares `u64` values. -/
theorem len_ne_blockSize_iff (buf : Buffer) :
    buf.len ≠ s.blockSize ↔ buf.bytes.length ≠ 4096 := by
  rw [ne_eq, ← UInt64.toNat_inj, Buffer.len_toNat, blockSize_toNat]

/-- SOURCE: core/src/fs/storage.rs:126-148 -/
theorem readBlock_spec (i : UInt64) (buf : Buffer) :
    observe ((EmulatedStorage.readBlock b i buf).run s).1 =
      (if buf.bytes.length = 4096 ∧ i.toNat < s.capacity.toNat / 4096 then
        some (.ok (4096, segment s.contents (i.toNat * 4096) 4096))
      else some (.error .invalidInput)) ∧
    device ((EmulatedStorage.readBlock b i buf).run s).2 = device s := by
  have hbs : s.blockSize.toNat = 4096 := blockSize_toNat s
  unfold EmulatedStorage.readBlock
  simp only [Sys.run_bind, Sys.run_get, len_ne_blockSize_iff, UInt64.le_iff_toNat_le,
    totalBlocks_toNat]
  by_cases hbuf : buf.bytes.length = 4096
  · rw [if_neg (by simp [hbuf])]
    by_cases hcap : i.toNat < s.capacity.toNat / 4096
    · have hoff : i.toNat * s.blockSize.toNat < 2 ^ 64 := block_offset_fits s _ 1 hcap
      have hwin : (i * s.blockSize).toNat + 4096 ≤ s.capacity.toNat := by
        rw [toNat_mul_of_fits hoff, hbs]
        omega
      rw [if_neg (by omega), if_pos ⟨hbuf, hcap⟩]
      simp only [Sys.run_bind, Sys.run_monadLift, Build.mulU64_of_fits hoff, hbuf]
      obtain ⟨hres, hdev⟩ := seek_readExact s (fun data => (4096, data))
        (Nat.le_trans hwin s.capacity_le)
      refine ⟨?_, hdev⟩
      rw [toNat_mul_of_fits hoff, hbs] at hres
      exact congrArg observe hres
    · rw [if_pos (by omega), if_neg (fun h => hcap h.2)]
      obtain ⟨hres, hdev⟩ := blockIndexError_spec b s (α := ℕ × List UInt8) i
      exact ⟨hres, by rw [hdev]⟩
  · rw [if_pos (by simp [hbuf]), if_neg (fun h => hbuf h.1)]
    exact ⟨rfl, rfl⟩

/-- SOURCE: core/src/fs/storage.rs:153-181 -/
theorem writeBlock_spec (i : UInt64) (buf : Buffer) :
    observe ((EmulatedStorage.writeBlock b i buf).run s).1 =
      (if s.writeProtected then some (.error .permissionDenied)
      else if buf.bytes.length = 4096 ∧ i.toNat < s.capacity.toNat / 4096 then
        some (hostAnswer s.file.access 4096)
      else some (.error .invalidInput)) ∧
    device ((EmulatedStorage.writeBlock b i buf).run s).2 =
      if s.writeProtected = false ∧ buf.bytes.length = 4096 ∧
          i.toNat < s.capacity.toNat / 4096 then
        (device s).written (i.toNat * 4096) buf.bytes
      else device s := by
  have hbs : s.blockSize.toNat = 4096 := blockSize_toNat s
  unfold EmulatedStorage.writeBlock
  simp only [Sys.run_bind, Sys.run_get]
  cases hwp : s.writeProtected with
  | true => simp
  | false =>
    simp only [Bool.false_eq_true, if_false, len_ne_blockSize_iff, UInt64.le_iff_toNat_le,
      totalBlocks_toNat, true_and]
    by_cases hbuf : buf.bytes.length = 4096
    · rw [if_neg (by simp [hbuf])]
      by_cases hcap : i.toNat < s.capacity.toNat / 4096
      · have hoff : i.toNat * s.blockSize.toNat < 2 ^ 64 := block_offset_fits s _ 1 hcap
        have hwin : (i * s.blockSize).toNat + buf.bytes.length ≤ s.capacity.toNat := by
          rw [toNat_mul_of_fits hoff, hbs]
          omega
        rw [if_neg (by omega), if_pos ⟨hbuf, hcap⟩, if_pos ⟨hbuf, hcap⟩]
        simp only [Sys.run_bind, Sys.run_monadLift, Build.mulU64_of_fits hoff]
        obtain ⟨hres, hdev⟩ := seek_writeAll s hwin
        rw [toNat_mul_of_fits hoff, hbs] at hdev
        rw [hbuf] at hres
        exact ⟨hres, hdev⟩
      · rw [if_pos (by omega), if_neg (fun h => hcap h.2), if_neg (fun h => hcap h.2)]
        obtain ⟨hres, hdev⟩ := blockIndexError_spec b s (α := Unit) i
        exact ⟨hres, by rw [hdev]⟩
    · rw [if_pos (by simp [hbuf]), if_neg (fun h => hbuf h.1), if_neg (fun h => hbuf h.1)]
      exact ⟨rfl, rfl⟩

end Oboromi.Analysis
