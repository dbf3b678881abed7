import Oboromi.Lib.HostFile

/-!
# The emulated UFS/eMMC device

`EmulatedStorage` is a file on the host seen as a block device.  The calls below follow
the source's order of checks: what is tested first decides which error is reported.
Arithmetic on `u64` is checked or wrapping (`Build`); a buffer is at most `isize::MAX`
bytes long, as every slice is.

A device is at least one block long, its block size is `BLOCK_SIZE`, and its file holds
at least `capacity` bytes: `open` extends a shorter file and `open_read_only` refuses it,
both with `STORAGE_CAPACITY` bytes, and no call shrinks the file.  `open` opens the file for
writing, `open_read_only` does not, and clearing the write protection of the device changes
nothing about that.
-/

set_option autoImplicit false

namespace Oboromi.Model

open Oboromi.Lib

/-- Block size for UFS/eMMC emulation.
SOURCE: core/src/fs/storage.rs:6 -/
def BLOCK_SIZE : UInt64 := 4096

/-- Total capacity: 32 GB.
SOURCE: core/src/fs/storage.rs:9 -/
def STORAGE_CAPACITY : UInt64 := 32 * 1024 * 1024 * 1024

/-- An image has room for a block. -/
theorem STORAGE_CAPACITY_ge : BLOCK_SIZE.toNat ≤ STORAGE_CAPACITY.toNat := by decide

/-- A byte slice: no slice is longer than `isize::MAX` bytes. -/
structure Buffer where
  bytes : List UInt8
  length_lt : bytes.length < 2 ^ 63

/-- `buf.len() as u64`. -/
def Buffer.len (buf : Buffer) : UInt64 := UInt64.ofNat buf.bytes.length

/-- A buffer's length as a machine integer is the number of its bytes. -/
@[simp] theorem Buffer.len_toNat (buf : Buffer) : buf.len.toNat = buf.bytes.length := by
  have h := buf.length_lt
  exact UInt64.toNat_ofNat_of_lt' (show _ < 2 ^ 64 by omega)

/-- The emulated device (its host path is left out: no call below reads it).
SOURCE: core/src/fs/storage.rs:18-24 -/
structure EmulatedStorage where
  file : HostFile
  capacity : UInt64
  blockSize : UInt64
  writeProtected : Bool
  blockSize_eq : blockSize = BLOCK_SIZE
  block_le : BLOCK_SIZE.toNat ≤ capacity.toNat
  capacity_le : capacity.toNat ≤ file.contents.length

/-- A call on the device. -/
abbrev StorageM := Sys EmulatedStorage

namespace EmulatedStorage

/-- The bytes of the backing file. -/
abbrev contents (s : EmulatedStorage) : List UInt8 := s.file.contents

/-- Replace the backing file by one that is not shorter. -/
def withFile (s : EmulatedStorage) (f : HostFile)
    (h : s.file.contents.length ≤ f.contents.length) : EmulatedStorage :=
  { s with file := f, capacity_le := Nat.le_trans s.capacity_le h }

/-- A new image, as `open` creates it: sparse, all zero, not write-protected.  The host's
file offsets are signed.
SOURCE: core/src/fs/storage.rs:32-60 -/
def newImage (capacity : UInt64) (hmin : BLOCK_SIZE.toNat ≤ capacity.toNat)
    (hmax : capacity.toNat < 2 ^ 63) : EmulatedStorage where
  file := {
    contents := List.replicate capacity.toNat 0
    pos := 0
    limit := 2 ^ 63 - 1
    access := .readWrite
    length_le := by rw [List.length_replicate]; omega
    limit_lt := by omega }
  capacity := capacity
  blockSize := BLOCK_SIZE
  writeProtected := false
  blockSize_eq := rfl
  block_le := hmin
  capacity_le := Nat.le_of_eq List.length_replicate.symm

/-- The device over a file that is long enough. -/
def ofFile (file : HostFile) (h : STORAGE_CAPACITY.toNat ≤ file.contents.length) :
    EmulatedStorage where
  file := file
  capacity := STORAGE_CAPACITY
  blockSize := BLOCK_SIZE
  writeProtected := false
  blockSize_eq := rfl
  block_le := STORAGE_CAPACITY_ge
  capacity_le := h

/-- A file that need not be extended is long enough. -/
theorem length_of_not_shorter {file : HostFile}
    (h : ¬ file.contents.length < STORAGE_CAPACITY.toNat) :
    STORAGE_CAPACITY.toNat ≤ file.contents.length := Nat.not_lt.mp h

/-- `open`, of the file the host has or creates at the path: it is opened for writing, and a
shorter file is extended.
SOURCE: core/src/fs/storage.rs:37-61 -/
def openFile (file : HostFile) : Except Fault EmulatedStorage :=
  let file := file.opened .readWrite
  if h : file.contents.length < STORAGE_CAPACITY.toNat then
    match hfile : file.extend STORAGE_CAPACITY.toNat with
    | .error e => .error e
    | .ok extended => .ok (ofFile extended (HostFile.length_extend hfile))
  else .ok (ofFile file (length_of_not_shorter h))

/-- `open_read_only`, of the file the host has at the path: it is opened for reading only.
SOURCE: core/src/fs/storage.rs:63-86 -/
def openReadOnly (file : HostFile) : Except Fault EmulatedStorage :=
  let file := file.opened .readOnly
  if h : file.contents.length < STORAGE_CAPACITY.toNat then
    .error (.io ⟨.invalidData, "storage image is smaller than 32 GB"⟩)
  else .ok { ofFile file (length_of_not_shorter h) with writeProtected := true }

/-- `self.capacity / self.block_size`.
SOURCE: core/src/fs/storage.rs:101-103 -/
def totalBlocks (s : EmulatedStorage) : UInt64 := s.capacity / s.blockSize

/-- `self.file.seek(SeekFrom::Start(offset))?`. -/
def seek (offset : UInt64) : StorageM Unit := fun s =>
  ((s.file.seek offset.toNat).1,
    s.withFile (s.file.seek offset.toNat).2 (by simp))

/-- `self.file.read_exact(buf)?` for a buffer of `n` bytes. -/
def readExact (n : ℕ) : StorageM (List UInt8) := fun s =>
  ((s.file.readExact n).1,
    s.withFile (s.file.readExact n).2 (by simp))

/-- `self.file.write_all(data)?`. -/
def writeAll (data : List UInt8) : StorageM Unit := fun s =>
  ((s.file.writeAll data).1,
    s.withFile (s.file.writeAll data).2 (HostFile.length_writeAll_le _ _))

/-- Set or clear write-protection.
SOURCE: core/src/fs/storage.rs:116-118 -/
def setWriteProtected (wp : Bool) : StorageM Unit :=
  Sys.modify fun s => { s with writeProtected := wp }

/-! ## Block I/O -/

/-- The text of an out-of-range block index, which evaluates `self.total_blocks() - 1`. -/
def blockIndexError {α : Type} (b : Build) (s : EmulatedStorage) (blockIndex : UInt64) :
    StorageM α := do
  let maxIndex ← b.subU64 s.totalBlocks 1
  Sys.ioError .invalidInput s!"block index {blockIndex} out of range (max {maxIndex})"

/-- Read a single block into `buf`: the count returned and the buffer afterwards.
SOURCE: core/src/fs/storage.rs:126-148 -/
def readBlock (b : Build) (blockIndex : UInt64) (buf : Buffer) :
    StorageM (ℕ × List UInt8) := do
  let s ← Sys.get
  if buf.len ≠ s.blockSize then
    Sys.ioError .invalidInput
      s!"buffer length {buf.bytes.length} does not match block size {s.blockSize}"
  else if s.totalBlocks ≤ blockIndex then
    blockIndexError b s blockIndex
  else
    let offset ← b.mulU64 blockIndex s.blockSize
    seek offset
    let data ← readExact buf.bytes.length
    return (buf.bytes.length, data)

/-- Write a single block from `buf`.
SOURCE: core/src/fs/storage.rs:153-181 -/
def writeBlock (b : Build) (blockIndex : UInt64) (buf : Buffer) : StorageM Unit := do
  let s ← Sys.get
  if s.writeProtected then
    Sys.ioError .permissionDenied "storage is write-protected"
  else if buf.len ≠ s.blockSize then
    Sys.ioError .invalidInput
      s!"buffer length {buf.bytes.length} does not match block size {s.blockSize}"
  else if s.totalBlocks ≤ blockIndex then
    blockIndexError b s blockIndex
  else
    let offset ← b.mulU64 blockIndex s.blockSize
    seek offset
    writeAll buf.bytes

/-- Read multiple contiguous blocks: the count returned and the buffer afterwards, of which
only the first `count * block_size` bytes are read into.
SOURCE: core/src/fs/storage.rs:184-203 -/
def readBlocks (b : Build) (startBlock count : UInt64) (buf : Buffer) :
    StorageM (ℕ × List UInt8) := do
  let s ← Sys.get
  let expectedLen ← b.mulU64 count s.blockSize
  if buf.len < expectedLen then
    Sys.ioError .invalidInput "buffer too small for requested block count"
  else
    let stop ← b.addU64 startBlock count
    if s.totalBlocks < stop then
      Sys.ioError .invalidInput "block range exceeds device capacity"
    else
      let offset ← b.mulU64 startBlock s.blockSize
      seek offset
      let data ← readExact expectedLen.toNat
      return (expectedLen.toNat, data ++ buf.bytes.drop expectedLen.toNat)

/-- Write multiple contiguous blocks.
SOURCE: core/src/fs/storage.rs:206-231 -/
def writeBlocks (b : Build) (startBlock count : UInt64) (buf : Buffer) : StorageM Unit := do
  let s ← Sys.get
  if s.writeProtected then
    Sys.ioError .permissionDenied "storage is write-protected"
  else
    let expectedLen ← b.mulU64 count s.blockSize
    if buf.len < expectedLen then
      Sys.ioError .invalidInput "buffer too small for requested block count"
    else
      let stop ← b.addU64 startBlock count
      if s.totalBlocks < stop then
        Sys.ioError .invalidInput "block range exceeds device capacity"
      else
        let offset ← b.mulU64 startBlock s.blockSize
        seek offset
        writeAll (buf.bytes.take expectedLen.toNat)

/-! ## Byte-level I/O -/

/-- Read `buf.len()` bytes starting at byte offset `offset`.
SOURCE: core/src/fs/storage.rs:236-247 -/
def readBytes (b : Build) (offset : UInt64) (buf : Buffer) : StorageM (ℕ × List UInt8) := do
  let s ← Sys.get
  let stop ← b.addU64 offset buf.len
  if s.capacity < stop then
    Sys.ioError .invalidInput "read exceeds device capacity"
  else
    seek offset
    let data ← readExact buf.bytes.length
    return (buf.bytes.length, data)

/-- Write `buf` starting at byte offset `offset`.
SOURCE: core/src/fs/storage.rs:250-267 -/
def writeBytes (b : Build) (offset : UInt64) (buf : Buffer) : StorageM Unit := do
  let s ← Sys.get
  if s.writeProtected then
    Sys.ioError .permissionDenied "storage is write-protected"
  else
    let stop ← b.addU64 offset buf.len
    if s.capacity < stop then
      Sys.ioError .invalidInput "write exceeds device capacity"
    else
      seek offset
      writeAll buf.bytes

end EmulatedStorage

end Oboromi.Model
