import Oboromi.Model.Storage

/-!
# The device as one array of bytes

What `EmulatedStorage` is for, in its own terms: `FlatArray` is an array of bytes with a
write-protect flag, opened for writing or not, and a request addresses a window of it.
Block, multi-block and byte requests differ only in how their window is computed
(`Request.window`); reading and writing a window are the same for all three.

`StorageCall.exec` is the same call on the faithful device.
-/

set_option autoImplicit false

namespace Oboromi.Interface

open Oboromi.Lib Oboromi.Model

/-- The three granularities of a request, each with its buffer. -/
inductive Request where
  | block (blockIndex : UInt64) (buf : Buffer)
  | blocks (startBlock count : UInt64) (buf : Buffer)
  | bytes (offset : UInt64) (buf : Buffer)

namespace Request

/-- The caller's buffer. -/
def buf : Request → Buffer
  | .block _ buf => buf
  | .blocks _ _ buf => buf
  | .bytes _ buf => buf

/-- The window `(offset, length)` a request addresses on a device of `size` bytes, computed
over the natural numbers; `none` when its arguments are out of range. -/
def window (size : ℕ) : Request → Option (ℕ × ℕ)
  | .block i buf =>
    if buf.bytes.length = 4096 ∧ i.toNat < size / 4096 then some (i.toNat * 4096, 4096) else none
  | .blocks s c buf =>
    if c.toNat * 4096 ≤ buf.bytes.length ∧ s.toNat + c.toNat ≤ size / 4096 then
      some (s.toNat * 4096, c.toNat * 4096)
    else none
  | .bytes o buf =>
    if o.toNat + buf.bytes.length ≤ size then some (o.toNat, buf.bytes.length) else none

/-- The sums and products a request makes stay below `2^64`. -/
def InRange : Request → Prop
  | .block _ _ => True
  | .blocks s c _ => c.toNat * 4096 < 2 ^ 64 ∧ s.toNat + c.toNat < 2 ^ 64
  | .bytes o buf => o.toNat + buf.bytes.length < 2 ^ 64

end Request

/-- A call on the device. -/
inductive StorageCall where
  | read (r : Request)
  | write (r : Request)
  | setWriteProtected (wp : Bool)

/-- What a call returns: the count read with the buffer afterwards, or nothing. -/
inductive Reply where
  | read (count : ℕ) (buf : List UInt8)
  | done
  deriving DecidableEq

namespace StorageCall

/-- The arithmetic of the call stays below `2^64`. -/
def InRange : StorageCall → Prop
  | .read r => r.InRange
  | .write r => r.InRange
  | .setWriteProtected _ => True

/-- The call on the faithful device. -/
def exec (b : Build) : StorageCall → StorageM Reply
  | .read (.block i buf) => do
    let r ← EmulatedStorage.readBlock b i buf
    return .read r.1 r.2
  | .read (.blocks s c buf) => do
    let r ← EmulatedStorage.readBlocks b s c buf
    return .read r.1 r.2
  | .read (.bytes o buf) => do
    let r ← EmulatedStorage.readBytes b o buf
    return .read r.1 r.2
  | .write (.block i buf) => do
    EmulatedStorage.writeBlock b i buf
    return .done
  | .write (.blocks s c buf) => do
    EmulatedStorage.writeBlocks b s c buf
    return .done
  | .write (.bytes o buf) => do
    EmulatedStorage.writeBytes b o buf
    return .done
  | .setWriteProtected wp => do
    EmulatedStorage.setWriteProtected wp
    return .done

/-- Make the call on a device: its result and the device afterwards. -/
def run (b : Build) (c : StorageCall) (s : EmulatedStorage) :
    Except Fault Reply × EmulatedStorage :=
  (c.exec b).run s

end StorageCall

/-- The device as one array. -/
structure FlatArray where
  bytes : List UInt8
  writeProtected : Bool
  access : Access

namespace FlatArray

/-- Read a request's window; what lies behind it in the caller's buffer is untouched. -/
def read (r : Request) (a : FlatArray) : Except ErrorKind Reply :=
  match r.window a.bytes.length with
  | none => .error .invalidInput
  | some (o, n) => .ok (.read n (segment a.bytes o n ++ r.buf.bytes.drop n))

/-- Write the front of the caller's buffer over a request's window.  An array that was not
opened for writing takes no bytes, even when it is not protected. -/
def write (r : Request) (a : FlatArray) : Except ErrorKind Reply × FlatArray :=
  if a.writeProtected then (.error .permissionDenied, a)
  else match r.window a.bytes.length with
    | none => (.error .invalidInput, a)
    | some (o, n) =>
      if a.access.Refuses n then (.error .uncategorized, a)
      else (.ok .done, { a with bytes := patch a.bytes o (r.buf.bytes.take n) })

/-- One call on the array. -/
def step (c : StorageCall) (a : FlatArray) : Except ErrorKind Reply × FlatArray :=
  match c with
  | .read r => (a.read r, a)
  | .write r => a.write r
  | .setWriteProtected wp => (.ok .done, { a with writeProtected := wp })

end FlatArray

/-- The array a device stands for: the first `capacity` bytes of its file. -/
def flat (s : EmulatedStorage) : FlatArray where
  bytes := s.contents.take s.capacity.toNat
  writeProtected := s.writeProtected
  access := s.file.access

end Oboromi.Interface
