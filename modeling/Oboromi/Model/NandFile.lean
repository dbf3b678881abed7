import Oboromi.Model.Boot

/-!
# Writing a NAND image

The rest of what a client does with an image: its partitions are written through `Nand`, and
what was written is flushed.  A `File` buffers nothing, so its `flush` has nothing to do.
-/

set_option autoImplicit false

namespace Oboromi.Model

open Oboromi.Lib

/-- Total number of blocks in the emulated device.
SOURCE: core/src/fs/storage.rs:12 -/
def TOTAL_BLOCKS : UInt64 := STORAGE_CAPACITY / BLOCK_SIZE

namespace EmulatedStorage

/-- Flush any buffered writes to the backing file.
SOURCE: core/src/fs/storage.rs:270-272 -/
def flush : StorageM Unit := pure ()

end EmulatedStorage

namespace Nand

/-- Write bytes to a named partition at the given offset.
SOURCE: core/src/fs/mod.rs:55-57 -/
def write (b : Build) (id : PartitionId) (offset : UInt64) (buf : Buffer) : Sys Nand Unit :=
  fun nand =>
    let r := (nand.partitions.writePartition b id offset buf).run nand.storage
    (r.1, { nand with storage := r.2 })

/-- Set or clear write-protection of the device.
SOURCE: core/src/fs/storage.rs:116-118 -/
def setWriteProtected (wp : Bool) : Sys Nand Unit :=
  fun nand =>
    let r := (EmulatedStorage.setWriteProtected wp).run nand.storage
    (r.1, { nand with storage := r.2 })

/-- Flush pending writes to disk.
SOURCE: core/src/fs/mod.rs:60-62 -/
def flush : Sys Nand Unit :=
  fun nand =>
    let r := EmulatedStorage.flush.run nand.storage
    (r.1, { nand with storage := r.2 })

end Nand

end Oboromi.Model
