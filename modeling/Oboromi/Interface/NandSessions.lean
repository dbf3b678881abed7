import Oboromi.Interface.NandArrays
import Oboromi.Lib.Refinement
import Oboromi.Model.NandFile

/-!
# Sessions with a NAND image

An image outlives the process that wrote it.  A session opens the file at the image's path,
makes its calls and ends, and the next one finds the bytes the last one left; the cursor and
the write protection are not kept.  A session for writing creates the file, or extends it, when
it is missing or too short.

`NandImage` says what the image is for: five arrays that are kept, and how far the file goes.
-/

set_option autoImplicit false

namespace Oboromi.Interface

open Oboromi.Lib Oboromi.Model

/-! ## The sessions of a host -/

/-- The file at an image's path, which need not be there. -/
structure Disk where
  present : Bool
  file : HostFile
  empty_of_absent : present = false → file.contents = []

namespace Disk

/-- No file, on a host that can address `limit` bytes. -/
def missing (limit : ℕ) (h : limit < 2 ^ 64) : Disk where
  present := false
  file := {
    contents := []
    pos := 0
    limit := limit
    access := .readWrite
    length_le := Nat.zero_le _
    limit_lt := h }
  empty_of_absent _ := rfl

end Disk

/-- A call in a session. -/
inductive SessionCall where
  | request (c : NandCall)
  | setWriteProtected (wp : Bool)
  | flush

/-- A request made through `Nand`. -/
def NandCall.runNand (b : Build) : NandCall → Sys Nand Reply
  | .read id offset buf => do
    let r ← Nand.read b id offset buf
    return .read r.1 r.2
  | .write id offset buf => do
    Nand.write b id offset buf
    return .done

namespace SessionCall

def InRange : SessionCall → Prop
  | .request c => c.InRange
  | .setWriteProtected _ => True
  | .flush => True

def run (b : Build) (c : SessionCall) (nand : Nand) : Except Fault Reply × Nand :=
  (match c with
    | .request c => c.runNand b
    | .setWriteProtected wp => do
      Nand.setWriteProtected wp
      return .done
    | .flush => do
      Nand.flush
      return .done : Sys Nand Reply).run nand

end SessionCall

/-- A session with an image that is opened for writing, or with one that is opened read-only. -/
inductive NandSession where
  | readWrite (calls : List SessionCall)
  | readOnly (calls : List SessionCall)

/-- The partitions of a file that is opened without write access. -/
def mountReadOnly (b : Build) (disk : Disk) : Except Fault Nand :=
  if disk.present then do
    let storage ← EmulatedStorage.openReadOnly disk.file
    let partitions ← PartitionTable.newDefault b storage.totalBlocks
    return { storage, partitions }
  else .error (.io ⟨.notFound, "No such file or directory"⟩)

namespace NandSession

def InRange : NandSession → Prop
  | .readWrite calls => ∀ c ∈ calls, c.InRange
  | .readOnly calls => ∀ c ∈ calls, c.InRange

/-- The file a session leaves. -/
def leaves (nand : Nand) : Disk where
  present := true
  file := nand.storage.file
  empty_of_absent h := nomatch h

/-- What the calls of a session return, and the disk it leaves. -/
def run (b : Build) (session : NandSession) (disk : Disk) :
    Except Fault (List (Except Fault Reply)) × Disk :=
  match session with
  | .readWrite calls =>
    match Nand.openFile b disk.file with
    -- the host creates the file before the device extends it
    | .error e => (.error e, { disk with present := true, empty_of_absent := fun h => nomatch h })
    | .ok nand =>
      let r := runSteps (SessionCall.run b) calls nand
      (.ok r.1, leaves r.2)
  | .readOnly calls =>
    match mountReadOnly b disk with
    | .error e => (.error e, disk)
    | .ok nand =>
      let r := runSteps (SessionCall.run b) calls nand
      (.ok r.1, leaves r.2)

end NandSession

/-! ## Five arrays that are kept -/

/-- How far the file of an image goes. -/
inductive Extent where
  | absent
  | short
  | full
  deriving DecidableEq, Repr

/-- Five arrays that are kept between sessions. -/
structure NandImage where
  data : PartitionId → List UInt8
  extent : Extent

namespace NandImage

/-- A call of a session on the arrays. -/
def call (c : SessionCall) (a : PartitionArrays) : Except ErrorKind Reply × PartitionArrays :=
  match c with
  | .request c => a.step c
  | .setWriteProtected wp => (.ok .done, { a with writeProtected := wp })
  | .flush => (.ok .done, a)

/-- A session on the arrays.  One that is opened read-only starts write-protected, and no call
makes it take bytes. -/
def session (s : NandSession) (image : NandImage) :
    Except ErrorKind (List (Except ErrorKind Reply)) × NandImage :=
  match s with
  | .readWrite calls =>
    let r := runSteps call calls ⟨image.data, false, .readWrite⟩
    (.ok r.1, ⟨r.2.data, .full⟩)
  | .readOnly calls =>
    match image.extent with
    | .absent => (.error .notFound, image)
    | .short => (.error .invalidData, image)
    | .full => (.ok (runSteps call calls ⟨image.data, true, .readOnly⟩).1, image)

end NandImage

/-- The bytes of an image with what is missing of it. -/
def padded (contents : List UInt8) : List UInt8 :=
  contents ++ List.replicate (STORAGE_CAPACITY.toNat - contents.length) 0

/-- The arrays on a disk; what is missing of them is zero. -/
def imageOf (disk : Disk) : NandImage where
  data id := segment (padded disk.file.contents) (firstByte id)
    (partitionSize TOTAL_BLOCKS.toNat id)
  extent :=
    if disk.present = false then .absent
    else if disk.file.contents.length < STORAGE_CAPACITY.toNat then .short
    else .full

/-- What a session returned, without the texts of its errors. -/
def outcome (r : Except Fault (List (Except Fault Reply))) :
    Option (Except ErrorKind (List (Option (Except ErrorKind Reply)))) :=
  observe (r.map (List.map observe))

/-- The same for a session on the arrays. -/
def expected (r : Except ErrorKind (List (Except ErrorKind Reply))) :
    Option (Except ErrorKind (List (Option (Except ErrorKind Reply)))) :=
  some (r.map (List.map some))

/-- The sessions with a disk are sessions with five arrays, and reach nothing in front of the
first partition or behind the last. -/
structure KeepsArrays (b : Build) (disk : Disk) : Prop where
  run : ∀ sessions : List NandSession, (∀ s ∈ sessions, s.InRange) →
    (runSteps (NandSession.run b) sessions disk).1.map outcome =
        (runSteps NandImage.session sessions (imageOf disk)).1.map expected ∧
      imageOf (runSteps (NandSession.run b) sessions disk).2 =
        (runSteps NandImage.session sessions (imageOf disk)).2
  reserved : ∀ sessions : List NandSession, (∀ s ∈ sessions, s.InRange) →
    let left := padded (runSteps (NandSession.run b) sessions disk).2.file.contents
    left.take (34 * 4096) = (padded disk.file.contents).take (34 * 4096) ∧
      left.drop ((TOTAL_BLOCKS.toNat - 33) * 4096) =
        (padded disk.file.contents).drop ((TOTAL_BLOCKS.toNat - 33) * 4096)

/-! ## The package in the SYSTEM partition -/

/-- The package a SYSTEM partition holds, if it holds one. -/
def packageIn (system : List UInt8) : Option (List UInt8) :=
  let size := Boot.packageSize system
  if system.take 4 = [0x50, 0x4B, 0x32, 0x31] ∧ 0 < size ∧ size < 64 * 1024 * 1024 then
    some (segment system 0x200 size.toNat)
  else none

/-- The image that the arrays boot from. -/
def NandImage.bootImage (image : NandImage) : List UInt8 :=
  (packageIn (image.data .system)).getD Boot.stubKernel

/-- The host of a boot from a disk: the image is at `path`, where it is when boot looks for a
package in it, since boot has opened it; there is no other file. -/
def Disk.host (disk : Disk) (path : String) (servicesReturn : Bool) : Boot.Host where
  readFile _ := .error (.io ⟨.notFound, "No such file or directory"⟩)
  exists_ p := decide (p = path)
  openFile p :=
    if p = path then .ok disk.file
    else .error (.io ⟨.permissionDenied, "Permission denied"⟩)
  servicesReturn := servicesReturn

/-- A package and the header it is found by. -/
structure IsPackage (header package : Buffer) : Prop where
  length_header : header.bytes.length = 0x200
  magic : header.bytes.take 4 = [0x50, 0x4B, 0x32, 0x31]
  size : (Boot.packageSize header.bytes).toNat = package.bytes.length
  nonempty : 0 < package.bytes.length
  length_lt : package.bytes.length < 64 * 1024 * 1024

/-- A session that installs a package. -/
def installSession (header package : Buffer) : NandSession :=
  .readWrite [.request (.write .system 0 header), .request (.write .system 0x200 package)]

/-- The request does not write to the first `n` bytes of SYSTEM. -/
def NandCall.Spares (n : ℕ) : NandCall → Prop
  | .write .system offset _ => n ≤ offset.toNat
  | _ => True

def NandSession.Spares (n : ℕ) : NandSession → Prop
  | .readWrite calls => ∀ c, .request c ∈ calls → c.Spares n
  | .readOnly _ => True

end Oboromi.Interface
