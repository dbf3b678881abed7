import Oboromi.Analysis.StorageCalls
import Oboromi.Lib.Refinement

/-!
# The device is one array of bytes

Every call whose arithmetic stays below `2^64` does on `EmulatedStorage` what it does on
the flat array (`storageCall_simulates`), so a whole run returns what the array returns
and leaves the array's bytes behind (`storageRun_simulates`).  The three granularities are
then compared on the array, where they are windows: a multi-block request is its
successive single-block requests and the byte request at the same offset.
-/

set_option autoImplicit false

namespace Oboromi.Analysis

open Oboromi.Lib Oboromi.Model Oboromi.Interface

/-! ## Windows -/

/-- A window lies inside the device, and the caller's buffer covers it. -/
theorem window_le {r : Request} {size o n : ℕ} (h : r.window size = some (o, n)) :
    o + n ≤ size ∧ n ≤ r.buf.bytes.length := by
  cases r with
  | block i buf =>
    simp only [Request.window, Option.ite_none_right_eq_some, Option.some.injEq,
      Prod.mk.injEq] at h
    obtain ⟨⟨hbuf, hi⟩, rfl, rfl⟩ := h
    exact ⟨blocks_le_capacity _ 1 _ hi, Nat.le_of_eq hbuf.symm⟩
  | blocks s c buf =>
    simp only [Request.window, Option.ite_none_right_eq_some, Option.some.injEq,
      Prod.mk.injEq] at h
    obtain ⟨⟨hbuf, hs⟩, rfl, rfl⟩ := h
    exact ⟨blocks_le_capacity _ _ _ hs, hbuf⟩
  | bytes off buf =>
    simp only [Request.window, Option.ite_none_right_eq_some, Option.some.injEq,
      Prod.mk.injEq] at h
    obtain ⟨hoff, rfl, rfl⟩ := h
    exact ⟨hoff, Nat.le_refl _⟩

/-! ## One request on the device -/

section Device

variable (b : Build) (s : EmulatedStorage)

/-- A read returns its window of the file, in front of the untouched rest of the buffer. -/
theorem readRequest_spec (r : Request) (h : r.InRange) :
    observe ((StorageCall.read r).run b s).1 = some (match r.window s.capacity.toNat with
      | none => .error .invalidInput
      | some (o, n) => .ok (.read n (segment s.contents o n ++ r.buf.bytes.drop n))) ∧
    device ((StorageCall.read r).run b s).2 = device s := by
  cases r with
  | block i buf =>
    obtain ⟨hres, hdev⟩ := readBlock_spec b s i buf
    simp only [StorageCall.run, StorageCall.exec, Sys.run_bind_pure, observe_map, hres]
    refine ⟨?_, hdev⟩
    simp only [Request.window, Request.buf]
    by_cases hc : buf.bytes.length = 4096 ∧ i.toNat < s.capacity.toNat / 4096
    · have hrest : buf.bytes.drop 4096 = [] := List.drop_eq_nil_of_le (Nat.le_of_eq hc.1)
      simp only [if_pos hc, Option.map_some, Except.map, hrest, List.append_nil]
    · rw [if_neg hc, if_neg hc]
      rfl
  | blocks start count buf =>
    obtain ⟨hres, hdev⟩ := readBlocks_spec b s start count buf h.1 h.2
    simp only [StorageCall.run, StorageCall.exec, Sys.run_bind_pure, observe_map, hres]
    refine ⟨?_, hdev⟩
    simp only [Request.window, Request.buf]
    split <;> rfl
  | bytes off buf =>
    obtain ⟨hres, hdev⟩ := readBytes_spec b s off buf h
    simp only [StorageCall.run, StorageCall.exec, Sys.run_bind_pure, observe_map, hres]
    refine ⟨?_, hdev⟩
    simp only [Request.window, Request.buf]
    split
    · simp only [Option.map_some, Except.map, List.drop_length, List.append_nil]
    · rfl

/-- A write overwrites its window with the front of the buffer, unless the device is
protected, the window does not exist or the file takes no writes; then nothing changes. -/
theorem writeRequest_spec (r : Request) (h : r.InRange) :
    observe ((StorageCall.write r).run b s).1 = some (if s.writeProtected then
        .error .permissionDenied
      else match r.window s.capacity.toNat with
        | none => .error .invalidInput
        | some (_, n) => (hostAnswer s.file.access n).map fun _ => .done) ∧
    device ((StorageCall.write r).run b s).2 = (if s.writeProtected then device s
      else match r.window s.capacity.toNat with
        | none => device s
        | some (o, n) => (device s).written o (r.buf.bytes.take n)) := by
  cases r with
  | block i buf =>
    obtain ⟨hres, hdev⟩ := writeBlock_spec b s i buf
    simp only [StorageCall.run, StorageCall.exec, Sys.run_bind_pure, observe_map, hres, hdev]
    simp only [Request.window, Request.buf]
    cases s.writeProtected with
    | true => exact ⟨rfl, by simp⟩
    | false =>
      by_cases hc : buf.bytes.length = 4096 ∧ i.toNat < s.capacity.toNat / 4096
      · have hall : buf.bytes.take 4096 = buf.bytes := List.take_of_length_le (Nat.le_of_eq hc.1)
        simp only [hc, and_self, if_true, Bool.false_eq_true, if_false, hall]
        exact ⟨rfl, trivial⟩
      · simp only [hc, and_false, if_false, Bool.false_eq_true]
        exact ⟨rfl, trivial⟩
  | blocks start count buf =>
    obtain ⟨hres, hdev⟩ := writeBlocks_spec b s start count buf h.1 h.2
    simp only [StorageCall.run, StorageCall.exec, Sys.run_bind_pure, observe_map, hres, hdev]
    simp only [Request.window, Request.buf]
    cases s.writeProtected with
    | true => exact ⟨rfl, by simp⟩
    | false =>
      simp only [Bool.false_eq_true, if_false, true_and]
      split <;> exact ⟨rfl, rfl⟩
  | bytes off buf =>
    obtain ⟨hres, hdev⟩ := writeBytes_spec b s off buf h
    simp only [StorageCall.run, StorageCall.exec, Sys.run_bind_pure, observe_map, hres, hdev]
    simp only [Request.window, Request.buf]
    cases s.writeProtected with
    | true => exact ⟨rfl, by simp⟩
    | false =>
      simp only [Bool.false_eq_true, if_false, true_and]
      split
      · simp only [List.take_length]
        exact ⟨rfl, trivial⟩
      · exact ⟨rfl, rfl⟩

/-- The flat view of a device after its file is patched inside the capacity. -/
theorem flat_write {t : EmulatedStorage} {o : ℕ} {data : List UInt8}
    (hdev : device t = (device s).write o data) (h : o + data.length ≤ s.capacity.toNat) :
    flat t = { flat s with bytes := patch (flat s).bytes o data } := by
  have hcontents : t.contents = patch s.contents o data := congrArg Device.contents hdev
  have hcap : t.capacity = s.capacity := congrArg Device.capacity hdev
  have hwp : t.writeProtected = s.writeProtected := congrArg Device.writeProtected hdev
  have haccess : t.file.access = s.file.access := congrArg Device.access hdev
  simp only [flat, hcontents, hcap, hwp, haccess]
  rw [take_patch h s.capacity_le]

/-- The flat view only depends on what `device` keeps. -/
theorem flat_eq_of_device {t : EmulatedStorage} (h : device t = device s) : flat t = flat s := by
  have hcontents : t.contents = s.contents := congrArg Device.contents h
  have hcap : t.capacity = s.capacity := congrArg Device.capacity h
  have hwp : t.writeProtected = s.writeProtected := congrArg Device.writeProtected h
  have haccess : t.file.access = s.file.access := congrArg Device.access h
  simp only [flat, hcontents, hcap, hwp, haccess]

/-- The flat array is as long as the capacity. -/
theorem flat_length : (flat s).bytes.length = s.capacity.toNat := by
  simp only [flat, List.length_take]
  exact Nat.min_eq_left s.capacity_le

/-- **One call is one step of the array.** -/
theorem storageCall_simulates (c : StorageCall) (h : c.InRange) :
    observe (c.run b s).1 = some (FlatArray.step c (flat s)).1 ∧
      flat (c.run b s).2 = (FlatArray.step c (flat s)).2 := by
  cases c with
  | read r =>
    obtain ⟨hres, hdev⟩ := readRequest_spec b s r h
    refine ⟨?_, flat_eq_of_device s hdev⟩
    simp only [hres, FlatArray.step, FlatArray.read, flat_length]
    cases hwin : r.window s.capacity.toNat with
    | none => rfl
    | some w =>
      obtain ⟨o, n⟩ := w
      have hle := (window_le hwin).1
      simp only [flat, segment_take hle]
  | write r =>
    obtain ⟨hres, hdev⟩ := writeRequest_spec b s r h
    have hflag : (flat s).writeProtected = s.writeProtected := rfl
    simp only [hres, FlatArray.step, FlatArray.write, flat_length, hflag]
    cases hwp : s.writeProtected with
    | true =>
      rw [if_pos hwp] at hdev
      exact ⟨rfl, flat_eq_of_device s hdev⟩
    | false =>
      rw [if_neg (by simp [hwp])] at hdev
      simp only [Bool.false_eq_true, if_false]
      cases hwin : r.window s.capacity.toNat with
      | none =>
        rw [hwin] at hdev
        exact ⟨rfl, flat_eq_of_device s hdev⟩
      | some w =>
        obtain ⟨o, n⟩ := w
        rw [hwin] at hdev
        obtain ⟨hle, hbuf⟩ := window_le hwin
        have hlength : (r.buf.bytes.take n).length = n := by
          rw [List.length_take, Nat.min_eq_left hbuf]
        have haccess : (flat s).access = s.file.access := rfl
        simp only [haccess, hostAnswer]
        by_cases hrefuses : s.file.access.Refuses n
        · have hkept := hdev.trans (written_of_refused s (by rwa [hlength]))
          rw [if_pos hrefuses, if_pos hrefuses]
          exact ⟨rfl, flat_eq_of_device s hkept⟩
        · have hwrite := hdev.trans (written_of_taken s (by rwa [hlength]))
          have hflat := flat_write s hwrite (by rwa [hlength])
          simp only [hflag, haccess, hwp] at hflat
          rw [if_neg hrefuses, if_neg hrefuses]
          exact ⟨rfl, hflat⟩
  | setWriteProtected wp => exact ⟨rfl, rfl⟩

/-- **A run of calls is a run of the array**: the results agree, and so do the bytes left
behind. -/
theorem storageRun_simulates (calls : List StorageCall) (h : ∀ c ∈ calls, c.InRange) :
    (runSteps (StorageCall.run b) calls s).1.map observe =
        (runSteps FlatArray.step calls (flat s)).1.map some ∧
      flat (runSteps (StorageCall.run b) calls s).2 =
        (runSteps FlatArray.step calls (flat s)).2 := by
  refine runSteps_simulates (R := fun t a => flat t = a) ?_ calls h rfl
  rintro c t a hc rfl
  exact storageCall_simulates b t c hc

/-! ## What a call leaves alone -/

/-- The bytes a call may change on a device of `size` bytes. -/
def addresses (size : ℕ) : StorageCall → ℕ → Prop
  | .write r, i => ∃ o n, r.window size = some (o, n) ∧ o ≤ i ∧ i < o + n
  | _, _ => False

/-- Bytes outside the call's window do not change. -/
theorem storageCall_outside (c : StorageCall) (h : c.InRange) (i : ℕ)
    (hi : ¬ addresses s.capacity.toNat c i) : (c.run b s).2.contents[i]? = s.contents[i]? := by
  have hlen : s.capacity.toNat ≤ s.contents.length := s.capacity_le
  cases c with
  | read r => exact congrArg (fun d : Device => d.contents[i]?) (readRequest_spec b s r h).2
  | setWriteProtected wp => rfl
  | write r =>
    have hdev := congrArg Device.contents (writeRequest_spec b s r h).2
    show (device ((StorageCall.write r).run b s).2).contents[i]? = s.contents[i]?
    rw [hdev]
    split
    · rfl
    · cases hwin : r.window s.capacity.toNat with
      | none => rfl
      | some w =>
        obtain ⟨o, n⟩ := w
        obtain ⟨hle, hbuf⟩ := window_le hwin
        show ((device s).written o (r.buf.bytes.take n)).contents[i]? = s.contents[i]?
        unfold Device.written
        split
        · rfl
        · apply getElem?_patch_of_outside
          · show o ≤ s.contents.length
            omega
          · rw [List.length_take, Nat.min_eq_left hbuf]
            by_contra hin
            exact hi ⟨o, n, hwin, by omega, by omega⟩

/-- A call that reports an error leaves every byte of the file as it was. -/
theorem storageCall_error_frame (c : StorageCall) (h : c.InRange) {k : ErrorKind}
    (herr : observe (c.run b s).1 = some (.error k)) : (c.run b s).2.contents = s.contents := by
  cases c with
  | read r => exact congrArg Device.contents (readRequest_spec b s r h).2
  | setWriteProtected wp => rfl
  | write r =>
    obtain ⟨hres, hdev⟩ := writeRequest_spec b s r h
    have hcontents := congrArg Device.contents hdev
    rw [herr] at hres
    show (device ((StorageCall.write r).run b s).2).contents = s.contents
    rw [hcontents]
    split
    · rfl
    · next hwp =>
      rw [if_neg hwp] at hres
      cases hwin : r.window s.capacity.toNat with
      | none => rfl
      | some w =>
        obtain ⟨o, n⟩ := w
        obtain ⟨-, hbuf⟩ := window_le hwin
        have hlength : (r.buf.bytes.take n).length = n := by
          rw [List.length_take, Nat.min_eq_left hbuf]
        show ((device s).written o (r.buf.bytes.take n)).contents = s.contents
        simp only [hwin, hostAnswer] at hres
        by_cases hrefuses : s.file.access.Refuses n
        · rw [written_of_refused s (by rwa [hlength])]
          rfl
        · rw [if_neg hrefuses] at hres
          cases hres

/-- While the device is write-protected no call changes its bytes. -/
theorem storageCall_protected_frame (c : StorageCall) (h : c.InRange)
    (hwp : s.writeProtected = true) : (c.run b s).2.contents = s.contents := by
  cases c with
  | read r => exact congrArg Device.contents (readRequest_spec b s r h).2
  | setWriteProtected wp => rfl
  | write r =>
    have hdev := (writeRequest_spec b s r h).2
    rw [if_pos hwp] at hdev
    exact congrArg Device.contents hdev

/-- A read fills the front of the caller's buffer and keeps the rest. -/
theorem storageRead_buffer (r : Request) (h : r.InRange) {n : ℕ} {out : List UInt8}
    (hok : observe ((StorageCall.read r).run b s).1 = some (.ok (.read n out))) :
    (∃ o, r.window s.capacity.toNat = some (o, n)) ∧ out.length = r.buf.bytes.length ∧
      out.drop n = r.buf.bytes.drop n := by
  have hres := (readRequest_spec b s r h).1
  rw [hok] at hres
  cases hwin : r.window s.capacity.toNat with
  | none => simp [hwin] at hres
  | some w =>
    obtain ⟨o, m⟩ := w
    simp only [hwin, Option.some.injEq, Except.ok.injEq, Reply.read.injEq] at hres
    obtain ⟨rfl, rfl⟩ := hres
    obtain ⟨hle, hbuf⟩ := window_le hwin
    have hcap : s.capacity.toNat ≤ s.contents.length := s.capacity_le
    have hlen : (segment s.contents o n).length = n := length_segment (by omega)
    refine ⟨⟨o, rfl⟩, ?_, ?_⟩
    · rw [List.length_append, List.length_drop, hlen]
      omega
    · rw [List.drop_append_of_le_length (Nat.le_of_eq hlen.symm), List.drop_eq_nil_of_le
        (Nat.le_of_eq hlen), List.nil_append]

end Device

/-! ## Three granularities of one window -/

section Granularities

/-- A segment of a buffer is within what can be allocated. -/
theorem segment_length_lt (buf : Buffer) (start len : ℕ) :
    (segment buf.bytes start len).length < 2 ^ 63 := by
  have h := buf.length_lt
  simp only [Lib.segment, List.length_take, List.length_drop]
  omega

/-- The part of a buffer that block `j` of a multi-block request transfers. -/
def blockPart (buf : Buffer) (j : ℕ) : Buffer where
  bytes := segment buf.bytes (j * 4096) 4096
  length_lt := segment_length_lt buf (j * 4096) 4096

/-- The `count` requests for one block each that a multi-block request stands for. -/
def blockRequests (start count : UInt64) (buf : Buffer) : List Request :=
  (List.range count.toNat).map fun j => .block (start + UInt64.ofNat j) (blockPart buf j)

/-- The byte request for the same window. -/
def bytesRequest (start count : UInt64) (buf : Buffer) : Request :=
  .bytes (start * 4096) ⟨buf.bytes.take (count.toNat * 4096), by
    have h := buf.length_lt
    simp only [List.length_take]
    omega⟩

variable {start count : UInt64} {buf : Buffer} {size : ℕ}

/-- Block `j` of the transfer lies inside the buffer. -/
theorem block_le_buffer {j c n : ℕ} (hj : j < c) (h : c * 4096 ≤ n) : j * 4096 + 4096 ≤ n :=
  calc j * 4096 + 4096 = (j + 1) * 4096 := (Nat.succ_mul j 4096).symm
    _ ≤ c * 4096 := Nat.mul_le_mul_right 4096 hj
    _ ≤ n := h

/-- The window of one block of a list of requests. -/
theorem blockRequest_window (hsize : size < 2 ^ 64)
    (hbuf : count.toNat * 4096 ≤ buf.bytes.length)
    (hfit : start.toNat + count.toNat ≤ size / 4096) {j : ℕ} (hj : j < count.toNat) :
    (Request.block (start + UInt64.ofNat j) (blockPart buf j)).window size =
      some ((start.toNat + j) * 4096, 4096) := by
  have hcount := count.toNat_lt
  have hidx : (start + UInt64.ofNat j).toNat = start.toNat + j := by
    rw [toNat_add_of_fits, UInt64.toNat_ofNat_of_lt' (show j < 2 ^ 64 by omega)]
    rw [UInt64.toNat_ofNat_of_lt' (show j < 2 ^ 64 by omega)]
    omega
  have hpart : (blockPart buf j).bytes.length = 4096 :=
    length_segment (block_le_buffer hj hbuf)
  simp only [Request.window, hidx, hpart, true_and]
  rw [if_pos (by omega)]

/-- The window of a request for several blocks. -/
theorem blocksRequest_window (hbuf : count.toNat * 4096 ≤ buf.bytes.length)
    (hfit : start.toNat + count.toNat ≤ size / 4096) :
    (Request.blocks start count buf).window size =
      some (start.toNat * 4096, count.toNat * 4096) :=
  if_pos ⟨hbuf, hfit⟩

/-- The window of the same request in bytes. -/
theorem bytesRequest_window (hsize : size < 2 ^ 64)
    (hbuf : count.toNat * 4096 ≤ buf.bytes.length)
    (hfit : start.toNat + count.toNat ≤ size / 4096) :
    (bytesRequest start count buf).window size =
      some (start.toNat * 4096, count.toNat * 4096) := by
  have hmul : (start * 4096).toNat = start.toNat * 4096 := by
    rw [toNat_mul_of_fits] <;> simp
    omega
  have hlen : (buf.bytes.take (count.toNat * 4096)).length = count.toNat * 4096 := by
    rw [List.length_take, Nat.min_eq_left hbuf]
  simp only [bytesRequest, Request.window, hmul, hlen]
  exact if_pos (blocks_le_capacity _ _ _ hfit)

/-- The blocks of a range, read one after the other, are the range. -/
theorem flatten_block_segments (l : List UInt8) (o k : ℕ) :
    ((List.range k).map fun j => segment l ((o + j) * 4096) 4096).flatten =
      segment l (o * 4096) (k * 4096) := by
  induction k with
  | zero => simp
  | succ k ih =>
    rw [List.range_succ, List.map_append, List.flatten_append, ih, Nat.succ_mul, segment_append,
      ← Nat.add_mul]
    simp

/-- Reading block after block returns the blocks of the array. -/
theorem flatRun_readBlocks {a : FlatArray} (hsize : a.bytes.length < 2 ^ 64)
    (hbuf : count.toNat * 4096 ≤ buf.bytes.length)
    (hfit : start.toNat + count.toNat ≤ a.bytes.length / 4096) :
    runSteps FlatArray.step ((blockRequests start count buf).map .read) a =
      ((List.range count.toNat).map fun j =>
        .ok (.read 4096 (segment a.bytes ((start.toNat + j) * 4096) 4096)), a) := by
  rw [runSteps_of_stationary]
  · rw [blockRequests, List.map_map, List.map_map]
    congr 1
    apply List.map_congr_left
    intro j hj
    have hjc : j < count.toNat := List.mem_range.mp hj
    have hpart : (blockPart buf j).bytes.length = 4096 :=
      length_segment (block_le_buffer hjc hbuf)
    have hrest : (blockPart buf j).bytes.drop 4096 = [] :=
      List.drop_eq_nil_of_le (Nat.le_of_eq hpart)
    simp only [Function.comp, FlatArray.step, FlatArray.read, Request.buf,
      blockRequest_window hsize hbuf hfit hjc, hrest, List.append_nil]
  · intro c hc
    obtain ⟨r, -, rfl⟩ := List.mem_map.mp hc
    rfl

/-- Writing block after block writes the front of the buffer over the range, unless the array
was not opened for writing. -/
theorem flatRun_writeBlocks {a : FlatArray} (hwp : a.writeProtected = false)
    (haccess : ¬ a.access.Refuses (count.toNat * 4096)) (hsize : a.bytes.length < 2 ^ 64)
    (hbuf : count.toNat * 4096 ≤ buf.bytes.length)
    (hfit : start.toNat + count.toNat ≤ a.bytes.length / 4096) {k : ℕ}
    (hk : k ≤ count.toNat) :
    runSteps FlatArray.step ((List.range k).map fun j =>
        .write (.block (start + UInt64.ofNat j) (blockPart buf j))) a =
      (List.replicate k (.ok .done),
        { a with bytes := patch a.bytes (start.toNat * 4096) (buf.bytes.take (k * 4096)) }) := by
  induction k with
  | zero => simp
  | succ k ih =>
    have hkc : k < count.toNat := hk
    have hblock : ¬ a.access.Refuses 4096 := fun h => haccess ⟨h.1, by omega⟩
    have hin : (start.toNat + k) * 4096 + 4096 ≤ a.bytes.length :=
      block_le_buffer (c := start.toNat + count.toNat) (by omega)
        (Nat.le_trans (Nat.mul_le_mul_right 4096 hfit) (Nat.div_mul_le_self _ _))
    have htake : (buf.bytes.take (k * 4096)).length = k * 4096 := by
      rw [List.length_take]
      exact Nat.min_eq_left (Nat.le_trans (Nat.mul_le_mul_right 4096 (Nat.le_of_lt hkc)) hbuf)
    have hpart : (blockPart buf k).bytes.length = 4096 :=
      length_segment (block_le_buffer hkc hbuf)
    have hpos : start.toNat * 4096 + (buf.bytes.take (k * 4096)).length =
        (start.toNat + k) * 4096 := by
      rw [htake, ← Nat.add_mul]
    have hlen : (patch a.bytes (start.toNat * 4096) (buf.bytes.take (k * 4096))).length =
        a.bytes.length := length_patch (by rw [hpos]; exact Nat.le_trans (Nat.le_add_right _ _) hin)
    have hwin := blockRequest_window hsize hbuf hfit hkc
    have hall : (blockPart buf k).bytes.take 4096 = segment buf.bytes (k * 4096) 4096 :=
      List.take_of_length_le (Nat.le_of_eq hpart)
    have hjoin : buf.bytes.take ((k + 1) * 4096) =
        buf.bytes.take (k * 4096) ++ segment buf.bytes (k * 4096) 4096 := by
      rw [Nat.succ_mul, List.take_add, Lib.segment]
    have hadj : patch (patch a.bytes (start.toNat * 4096) (buf.bytes.take (k * 4096)))
        ((start.toNat + k) * 4096) (segment buf.bytes (k * 4096) 4096) =
        patch a.bytes (start.toNat * 4096) (buf.bytes.take ((k + 1) * 4096)) := by
      have hseg : (segment buf.bytes (k * 4096) 4096).length = 4096 := hpart
      rw [hjoin, ← hpos]
      exact patch_patch_adjacent (by rw [hpos, hseg]; exact hin)
    rw [List.range_succ, List.map_append, runSteps_append, ih (Nat.le_of_lt hkc)]
    simp only [List.map_cons, List.map_nil, runSteps_cons, runSteps_nil, FlatArray.step,
      FlatArray.write, hwp, Bool.false_eq_true, if_false, hlen, hwin, hblock, Request.buf, hall,
      hadj]
    rw [List.replicate_succ']

/-- Writes each of which is refused for the same reason leave the array alone. -/
theorem flatRun_refused {a : FlatArray} {k : ErrorKind} (rs : List Request)
    (hrefused : ∀ r ∈ rs, FlatArray.step (.write r) a = (.error k, a)) :
    runSteps FlatArray.step (rs.map .write) a = (List.replicate rs.length (.error k), a) := by
  induction rs with
  | nil => rfl
  | cons r rs ih =>
    rw [List.forall_mem_cons] at hrefused
    rw [List.map_cons, runSteps_cons, hrefused.1, ih hrefused.2, List.length_cons,
      List.replicate_succ]

/-- Results that are observed as `n` copies of `x` are each observed as `x`. -/
theorem observe_of_replicate {α : Type} {rs : List (Except Fault α)} {n : ℕ}
    {x : Except ErrorKind α} (h : rs.map observe = (List.replicate n x).map some) :
    ∀ r ∈ rs, observe r = some x := by
  intro r hr
  have hmem : observe r ∈ rs.map observe := List.mem_map_of_mem hr
  rw [h, List.map_replicate] at hmem
  exact List.eq_of_mem_replicate hmem

/-- The multi-block write, the successive block writes and the byte write of the same
window report the same and leave the same bytes. -/
def WritesAgree (b : Build) (s : EmulatedStorage) (start count : UInt64) (buf : Buffer) : Prop :=
  let multi := (StorageCall.write (.blocks start count buf)).run b s
  let bytes := (StorageCall.write (bytesRequest start count buf)).run b s
  let singles := runSteps (StorageCall.run b) ((blockRequests start count buf).map .write) s
  (∀ r ∈ singles.1, observe r = observe multi.1) ∧ flat singles.2 = flat multi.2 ∧
    observe bytes.1 = observe multi.1 ∧ flat bytes.2 = flat multi.2

/-- The multi-block read returns what the successive block reads return, one after the
other, and so does the byte read of the same window; none of them changes the device. -/
def ReadsAgree (b : Build) (s : EmulatedStorage) (start count : UInt64) (buf : Buffer) : Prop :=
  let multi := (StorageCall.read (.blocks start count buf)).run b s
  let bytes := (StorageCall.read (bytesRequest start count buf)).run b s
  let singles := runSteps (StorageCall.run b) ((blockRequests start count buf).map .read) s
  ∃ parts : List (List UInt8),
    singles.1.map observe = parts.map (fun p => some (.ok (.read 4096 p))) ∧
    observe multi.1 = some (.ok (.read (count.toNat * 4096)
      (parts.flatten ++ buf.bytes.drop (count.toNat * 4096)))) ∧
    observe bytes.1 = some (.ok (.read (count.toNat * 4096) parts.flatten)) ∧
    flat multi.2 = flat s ∧ flat bytes.2 = flat s ∧ flat singles.2 = flat s

variable (b : Build) (s : EmulatedStorage)

/-- Block requests are in range. -/
theorem blockRequests_inRange (start count : UInt64) (buf : Buffer) :
    ∀ r ∈ blockRequests start count buf, r.InRange := by
  intro r hr
  obtain ⟨j, -, rfl⟩ := List.mem_map.mp hr
  trivial

/-- A transfer that fits the device and the buffer has no overflowing arithmetic. -/
theorem blocks_inRange (hbuf : count.toNat * 4096 ≤ buf.bytes.length)
    (hfit : start.toNat + count.toNat ≤ s.capacity.toNat / 4096) :
    (Request.blocks start count buf).InRange ∧ (bytesRequest start count buf).InRange := by
  have hlt := s.capacity.toNat_lt
  have hlen := buf.length_lt
  have hwin := bytesRequest_window hlt hbuf hfit
  have hdiv := Nat.div_le_self s.capacity.toNat 4096
  refine ⟨⟨by omega, by omega⟩, ?_⟩
  by_contra hover
  have hnone : (bytesRequest start count buf).window s.capacity.toNat = none := by
    refine if_neg fun hle => hover ?_
    exact Nat.lt_of_le_of_lt hle hlt
  rw [hnone] at hwin
  cases hwin

/-- A request that fits the device fits the flat array. -/
theorem flat_fits (hfit : start.toNat + count.toNat ≤ s.capacity.toNat / 4096) :
    (flat s).bytes.length < 2 ^ 64 ∧ start.toNat + count.toNat ≤ (flat s).bytes.length / 4096 := by
  rw [flat_length]
  exact ⟨s.capacity.toNat_lt, hfit⟩

/-- The block calls of a transfer act on the array one after the other. -/
theorem blockRuns_simulate (call : Request → StorageCall)
    (hcall : ∀ r, r.InRange → (call r).InRange) (start count : UInt64) (buf : Buffer) :
    (runSteps (StorageCall.run b) ((blockRequests start count buf).map call) s).1.map observe =
        (runSteps FlatArray.step ((blockRequests start count buf).map call) (flat s)).1.map some ∧
      flat (runSteps (StorageCall.run b) ((blockRequests start count buf).map call) s).2 =
        (runSteps FlatArray.step ((blockRequests start count buf).map call) (flat s)).2 := by
  apply storageRun_simulates
  intro c hc
  obtain ⟨r, hr, rfl⟩ := List.mem_map.mp hc
  exact hcall r (blockRequests_inRange start count buf r hr)

/-- The three ways to write the same blocks agree. -/
theorem writes_agree (hbuf : count.toNat * 4096 ≤ buf.bytes.length)
    (hfit : start.toNat + count.toNat ≤ s.capacity.toNat / 4096) :
    WritesAgree b s start count buf := by
  obtain ⟨hblocks, hbytes⟩ := blocks_inRange s hbuf hfit
  obtain ⟨hsize, hfit'⟩ := flat_fits s hfit
  obtain ⟨hmulti, hmulti'⟩ := storageCall_simulates b s (.write (.blocks start count buf)) hblocks
  obtain ⟨hbyte, hbyte'⟩ := storageCall_simulates b s (.write (bytesRequest start count buf)) hbytes
  obtain ⟨hsingle, hsingle'⟩ := blockRuns_simulate b s StorageCall.write (fun r hr => hr) start
    count buf
  have hrefused {k : ErrorKind} (hwrites : ∀ r, r = .blocks start count buf ∨
      r = bytesRequest start count buf ∨ r ∈ blockRequests start count buf →
      FlatArray.step (.write r) (flat s) = (.error k, flat s)) :
      WritesAgree b s start count buf := by
    rw [flatRun_refused _ fun r hr => hwrites r (.inr (.inr hr))] at hsingle hsingle'
    rw [hwrites _ (.inl rfl)] at hmulti hmulti'
    rw [hwrites _ (.inr (.inl rfl))] at hbyte hbyte'
    refine ⟨?_, by rw [hsingle', hmulti'], by rw [hbyte, hmulti], by rw [hbyte', hmulti']⟩
    rw [hmulti]
    exact observe_of_replicate hsingle
  cases hwp : (flat s).writeProtected with
  | true => exact hrefused fun r _ => if_pos hwp
  | false =>
  by_cases haccess : (flat s).access.Refuses (count.toNat * 4096)
  · -- the file takes no bytes, and each of the requests has some
    have hblock : (flat s).access.Refuses 4096 := ⟨haccess.1, by decide⟩
    apply hrefused (k := .uncategorized)
    rintro r (rfl | rfl | hr)
    · simp only [FlatArray.step, FlatArray.write, hwp, Bool.false_eq_true, if_false,
        blocksRequest_window hbuf hfit', if_pos haccess]
    · simp only [FlatArray.step, FlatArray.write, hwp, Bool.false_eq_true, if_false,
        bytesRequest_window hsize hbuf hfit', if_pos haccess]
    · obtain ⟨j, hj, rfl⟩ := List.mem_map.mp hr
      simp only [FlatArray.step, FlatArray.write, hwp, Bool.false_eq_true, if_false,
        blockRequest_window hsize hbuf hfit' (List.mem_range.mp hj), if_pos hblock]
  · have hpatch : FlatArray.step (.write (.blocks start count buf)) (flat s) =
        (.ok .done, { flat s with
          bytes := patch (flat s).bytes (start.toNat * 4096)
            (buf.bytes.take (count.toNat * 4096)) }) := by
      simp only [FlatArray.step, FlatArray.write, hwp, Bool.false_eq_true, if_false,
        blocksRequest_window hbuf hfit', if_neg haccess, Request.buf]
    have hpatch' : FlatArray.step (.write (bytesRequest start count buf)) (flat s) =
        FlatArray.step (.write (.blocks start count buf)) (flat s) := by
      rw [hpatch]
      simp only [FlatArray.step, FlatArray.write, hwp, Bool.false_eq_true, if_false,
        bytesRequest_window hsize hbuf hfit', if_neg haccess]
      simp only [bytesRequest, Request.buf, List.take_take, Nat.min_self]
    have hruns : runSteps FlatArray.step ((blockRequests start count buf).map .write) (flat s) =
        (List.replicate count.toNat (.ok .done),
          (FlatArray.step (.write (.blocks start count buf)) (flat s)).2) := by
      rw [hpatch, blockRequests, List.map_map]
      exact flatRun_writeBlocks hwp haccess hsize hbuf hfit' (Nat.le_refl _)
    rw [hruns] at hsingle hsingle'
    refine ⟨?_, by rw [hsingle', hmulti'], by rw [hbyte, hmulti, hpatch'],
      by rw [hbyte', hmulti', hpatch']⟩
    rw [hmulti, hpatch]
    exact observe_of_replicate hsingle

/-- The three ways to read the same blocks agree. -/
theorem reads_agree (hbuf : count.toNat * 4096 ≤ buf.bytes.length)
    (hfit : start.toNat + count.toNat ≤ s.capacity.toNat / 4096) :
    ReadsAgree b s start count buf := by
  obtain ⟨hblocks, hbytes⟩ := blocks_inRange s hbuf hfit
  obtain ⟨hsize, hfit'⟩ := flat_fits s hfit
  obtain ⟨hmulti, hmulti'⟩ := storageCall_simulates b s (.read (.blocks start count buf)) hblocks
  obtain ⟨hbyte, hbyte'⟩ := storageCall_simulates b s (.read (bytesRequest start count buf)) hbytes
  obtain ⟨hsingle, hsingle'⟩ := blockRuns_simulate b s StorageCall.read (fun r hr => hr) start
    count buf
  rw [flatRun_readBlocks hsize hbuf hfit'] at hsingle hsingle'
  refine ⟨(List.range count.toNat).map fun j =>
    segment (flat s).bytes ((start.toNat + j) * 4096) 4096, ?_, ?_, ?_, hmulti', hbyte', hsingle'⟩
  · rw [hsingle, List.map_map, List.map_map]
    rfl
  · rw [hmulti, flatten_block_segments]
    simp only [FlatArray.step, FlatArray.read, blocksRequest_window hbuf hfit', Request.buf]
  · have hrest : (buf.bytes.take (count.toNat * 4096)).drop (count.toNat * 4096) = [] :=
      List.drop_eq_nil_of_le (by rw [List.length_take]; exact Nat.min_le_left _ _)
    rw [hbyte, flatten_block_segments]
    simp only [FlatArray.step, FlatArray.read, bytesRequest_window hsize hbuf hfit']
    simp only [bytesRequest, Request.buf, hrest, List.append_nil]

end Granularities

/-- What it means for a device to be one flat array of bytes. -/
structure RefinesFlatArray (b : Build) (s : EmulatedStorage) : Prop where
  /-- every run of calls returns what the array returns and leaves the array's bytes -/
  run : ∀ calls : List StorageCall, (∀ c ∈ calls, c.InRange) →
    (runSteps (StorageCall.run b) calls s).1.map observe =
        (runSteps FlatArray.step calls (flat s)).1.map some ∧
      flat (runSteps (StorageCall.run b) calls s).2 =
        (runSteps FlatArray.step calls (flat s)).2
  /-- the three granularities of a write agree on every window of whole blocks -/
  writes : ∀ (start count : UInt64) (buf : Buffer), count.toNat * 4096 ≤ buf.bytes.length →
    start.toNat + count.toNat ≤ s.totalBlocks.toNat → WritesAgree b s start count buf
  /-- and so do the three granularities of a read -/
  reads : ∀ (start count : UInt64) (buf : Buffer), count.toNat * 4096 ≤ buf.bytes.length →
    start.toNat + count.toNat ≤ s.totalBlocks.toNat → ReadsAgree b s start count buf
  /-- a call changes bytes of its window only -/
  outside : ∀ (c : StorageCall), c.InRange → ∀ i, ¬ addresses s.capacity.toNat c i →
    (c.run b s).2.contents[i]? = s.contents[i]?
  /-- a multi-block read fills the first `count * 4096` bytes of its buffer and no others -/
  buffers : ∀ (start count : UInt64) (buf : Buffer) (n : ℕ) (out : List UInt8),
    (Request.blocks start count buf).InRange →
    observe ((StorageCall.read (.blocks start count buf)).run b s).1 = some (.ok (.read n out)) →
    n = count.toNat * 4096 ∧ out.length = buf.bytes.length ∧ out.drop n = buf.bytes.drop n
  /-- a call that reports an error changes nothing -/
  errors : ∀ (c : StorageCall) (k : ErrorKind), c.InRange →
    observe (c.run b s).1 = some (.error k) → (c.run b s).2.contents = s.contents
  /-- no call changes a write-protected device -/
  protection : ∀ (c : StorageCall), c.InRange → s.writeProtected = true →
    (c.run b s).2.contents = s.contents

/-- **`EmulatedStorage` is one flat array of bytes**, in either build and from any device,
so in particular from every device a run reaches.
SOURCE: core/src/fs/storage.rs:126-267 -/
theorem storage_refines_flat_array (b : Build) (s : EmulatedStorage) : RefinesFlatArray b s where
  run := storageRun_simulates b s
  writes start count buf hbuf hfit :=
    writes_agree b s hbuf (by rwa [totalBlocks_toNat] at hfit)
  reads start count buf hbuf hfit :=
    reads_agree b s hbuf (by rwa [totalBlocks_toNat] at hfit)
  outside := storageCall_outside b s
  buffers start count buf n out hin hok := by
    obtain ⟨⟨o, hwin⟩, hlen, hrest⟩ := storageRead_buffer b s _ hin hok
    simp only [Request.window, Option.ite_none_right_eq_some, Option.some.injEq,
      Prod.mk.injEq] at hwin
    exact ⟨hwin.2.2.symm, hlen, hrest⟩
  errors c _ h := storageCall_error_frame b s c h
  protection := storageCall_protected_frame b s

end Oboromi.Analysis
