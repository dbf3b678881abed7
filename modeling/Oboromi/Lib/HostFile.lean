import Oboromi.Lib.Machine
import Oboromi.Lib.Segment

/-!
# A host file under `seek`, `read_exact` and `write_all`

A file is an array of bytes with a cursor.  Positions are bounded by what the host can
address (`limit`, at most 2^64 - 1): a seek past it fails, and so does a write that would
run past it.  A read past the end fails; a write past the end extends the file, filling
the gap with zeros.  A file opened without write access can be read; the host refuses to
write to it, unless there is nothing to write.
-/

set_option autoImplicit false

namespace Oboromi.Lib

/-- How a file was opened. -/
inductive Access where
  | readWrite
  | readOnly
  deriving DecidableEq, Repr

/-- The host refuses to write `n` bytes. -/
def Access.Refuses (access : Access) (n : ℕ) : Prop := access = .readOnly ∧ n ≠ 0

instance (access : Access) (n : ℕ) : Decidable (access.Refuses n) :=
  inferInstanceAs (Decidable (_ ∧ _))

/-- An open host file: its bytes, its cursor, the largest position the host can address, and
how it was opened. -/
structure HostFile where
  contents : List UInt8
  pos : ℕ
  limit : ℕ
  access : Access
  length_le : contents.length ≤ limit
  limit_lt : limit < 2 ^ 64

namespace HostFile

/-- The byte array after `data` is written at `pos`; a gap before `pos` reads as zero. -/
def splice (contents : List UInt8) (pos : ℕ) (data : List UInt8) : List UInt8 :=
  if data = [] then contents
  else patch (contents ++ List.replicate (pos - contents.length) 0) pos data

/-- A write that starts inside the contents is a patch. -/
theorem splice_of_le {contents data : List UInt8} {pos : ℕ} (h : pos ≤ contents.length) :
    splice contents pos data = patch contents pos data := by
  unfold splice
  split
  · next hd => rw [hd, patch_nil]
  · rw [Nat.sub_eq_zero_of_le h, List.replicate_zero, List.append_nil]

/-- A write never shortens the contents. -/
theorem length_splice_le (contents data : List UInt8) (pos : ℕ) :
    contents.length ≤ (splice contents pos data).length := by
  unfold splice
  split
  · exact Nat.le_refl _
  · simp only [patch, List.length_append, List.length_take, List.length_drop,
      List.length_replicate]
    omega

/-- A write that ends within a bound keeps the contents within it. -/
theorem length_splice_le_of_le {contents data : List UInt8} {pos n : ℕ}
    (hc : contents.length ≤ n) (hp : pos + data.length ≤ n) :
    (splice contents pos data).length ≤ n := by
  unfold splice
  split
  · exact hc
  · simp only [patch, List.length_append, List.length_take, List.length_drop,
      List.length_replicate]
    omega

/-- `seek(SeekFrom::Start(n))`. -/
def seek (f : HostFile) (n : ℕ) : Except Fault Unit × HostFile :=
  if n ≤ f.limit then (.ok (), { f with pos := n })
  else (.error (.io ⟨.invalidInput, "invalid seek"⟩), f)

/-- `read_exact` into a buffer of `n` bytes: the bytes read. -/
def readExact (f : HostFile) (n : ℕ) : Except Fault (List UInt8) × HostFile :=
  if f.pos + n ≤ f.contents.length then
    (.ok (segment f.contents f.pos n), { f with pos := f.pos + n })
  else
    (.error (.io ⟨.unexpectedEof, "failed to fill whole buffer"⟩),
      { f with pos := max f.pos f.contents.length })

/-- The file opened another way, at its start. -/
def opened (f : HostFile) (access : Access) : HostFile := { f with pos := 0, access }

/-- `write_all` of `data` at the cursor. -/
def writeAll (f : HostFile) (data : List UInt8) : Except Fault Unit × HostFile :=
  if f.access.Refuses data.length then
    (.error (.io ⟨.uncategorized, "Bad file descriptor"⟩), f)
  else if h : f.pos + data.length ≤ f.limit then
    (.ok (), { f with
      contents := splice f.contents f.pos data
      pos := f.pos + data.length
      length_le := length_splice_le_of_le f.length_le h })
  else (.error (.io ⟨.fileTooLarge, "file too large"⟩), f)

/-- `set_len` to a length that is not shorter: the file is extended with zeros. -/
def extend (f : HostFile) (n : ℕ) : Except Fault HostFile :=
  if h : n ≤ f.limit then .ok { f with
    contents := f.contents ++ List.replicate (n - f.contents.length) 0
    length_le := by
      have hlen := f.length_le
      rw [List.length_append, List.length_replicate]
      omega }
  else .error (.io ⟨.fileTooLarge, "file too large"⟩)

/-- There are `n` bytes to read at `o`. -/
def Holds (f : HostFile) (o n : ℕ) : Prop := o + n ≤ f.contents.length

/-- The host takes `n` bytes at `o`. -/
def Takes (f : HostFile) (o n : ℕ) : Prop := o + n ≤ f.limit ∧ ¬ f.access.Refuses n

/-! ## What the three calls do to the bytes -/

/-- Seeking does not touch the contents. -/
@[simp] theorem seek_contents (f : HostFile) (n : ℕ) : (f.seek n).2.contents = f.contents := by
  unfold seek
  split <;> rfl

/-- Reading does not touch the contents. -/
@[simp] theorem readExact_contents (f : HostFile) (n : ℕ) :
    (f.readExact n).2.contents = f.contents := by
  unfold readExact
  split <;> rfl

/-- A file that was extended is at least as long as it was asked to be. -/
theorem length_extend {f g : HostFile} {n : ℕ} (h : f.extend n = .ok g) :
    n ≤ g.contents.length := by
  unfold extend at h
  split at h
  · cases h
    rw [List.length_append, List.length_replicate]
    omega
  · cases h

/-- A write does not shorten the file. -/
theorem length_writeAll_le (f : HostFile) (data : List UInt8) :
    f.contents.length ≤ (f.writeAll data).2.contents.length := by
  unfold writeAll
  split
  · exact Nat.le_refl _
  · split
    · exact length_splice_le _ _ _
    · exact Nat.le_refl _

/-- A write the host takes is made. -/
theorem writeAll_of_takes {f : HostFile} {data : List UInt8} (h : f.Takes f.pos data.length) :
    (f.writeAll data).1 = .ok () := by
  unfold writeAll
  rw [if_neg h.2, dif_pos h.1]

/-- A write it does not take leaves the file alone. -/
theorem writeAll_refused {f : HostFile} {data : List UInt8} (h : ¬ f.Takes f.pos data.length) :
    ∃ e : IoError, e.kind ≠ .notFound ∧ f.writeAll data = (.error (.io e), f) := by
  unfold writeAll
  by_cases haccess : f.access.Refuses data.length
  · rw [if_pos haccess]
    exact ⟨_, by decide, rfl⟩
  · rw [if_neg haccess, dif_neg fun hfit => h ⟨hfit, haccess⟩]
    exact ⟨_, by decide, rfl⟩

/-- A position the host can address is moved to. -/
theorem seek_of_le {f : HostFile} {n : ℕ} (h : n ≤ f.limit) :
    f.seek n = (.ok (), { f with pos := n }) := if_pos h

/-- A position past the host's largest is refused, and the cursor stays. -/
theorem seek_of_gt {f : HostFile} {n : ℕ} (h : f.limit < n) :
    f.seek n = (.error (.io ⟨.invalidInput, "invalid seek"⟩), f) :=
  if_neg (Nat.not_le.mpr h)

end HostFile

end Oboromi.Lib
