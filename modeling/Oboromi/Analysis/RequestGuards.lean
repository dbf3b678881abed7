import Oboromi.Analysis.StorageRefinement

/-!
# When out-of-range requests are rejected

A device call checks its request by `u64` arithmetic: the length product, the sum of the
range and the byte offset.  A request none of whose results wraps is checked correctly
(`readRequest_spec`, `writeRequest_spec`).  When one wraps, the debug build panics at the
first such result it gets to; the release build goes on with the wrapped values and asks the
file for the window they make (`Request.wrapped`), which serves the request if it has room.
-/

set_option autoImplicit false

namespace Oboromi.Analysis

open Oboromi.Lib Oboromi.Model Oboromi.Interface

/-! ## Refusals -/

/-- The call reported an error and left the device as it was. -/
def Refused {α : Type} (s : EmulatedStorage) (r : Except Fault α × EmulatedStorage) : Prop :=
  ∃ e : IoError, r.1 = .error (.io e) ∧ e.kind ≠ .notFound ∧ device r.2 = device s

/-- An error on an unchanged device is a refusal. -/
theorem refused_of_observe {α : Type} {s : EmulatedStorage} {r : Except Fault α × EmulatedStorage}
    {k : ErrorKind} (hres : observe r.1 = some (.error k)) (hk : k ≠ .notFound)
    (hdev : device r.2 = device s) : Refused s r := by
  rcases r with ⟨(e | _) | a, s'⟩
  · simp only [observe_io, Option.some.injEq, Except.error.injEq] at hres
    exact ⟨e, rfl, by rwa [hres], hdev⟩
  · cases hres
  · cases hres

/-- A request that succeeds is not refused. -/
theorem not_refused_of_ok {α : Type} {s : EmulatedStorage} {r : Except Fault α × EmulatedStorage}
    {a : α} (h : r.1 = .ok a) : ¬ Refused s r := by
  rintro ⟨e, herr, -⟩
  rw [h] at herr
  cases herr

/-- A request that panics is not refused. -/
theorem not_refused_of_panic {α : Type} {s : EmulatedStorage}
    {r : Except Fault α × EmulatedStorage} (h : r.1 = .error .panic) : ¬ Refused s r := by
  rintro ⟨e, herr, -⟩
  rw [h] at herr
  cases herr

/-- A pure function of the value does not change whether a call refused. -/
theorem Refused.map {α β : Type} {s : EmulatedStorage} {r : Except Fault α × EmulatedStorage}
    (h : Refused s r) (f : α → β) : Refused s (r.1.map f, r.2) := by
  obtain ⟨e, herr, hk, hdev⟩ := h
  exact ⟨e, by rw [herr]; rfl, hk, hdev⟩

section File

variable (s : EmulatedStorage) {off : UInt64}

/-- A read that the file is too short for. -/
theorem seek_readExact_refused {α : Type} {n : ℕ} (f : List UInt8 → α)
    (h : s.contents.length < off.toNat + n) :
    Refused s ((do
      EmulatedStorage.seek off
      let data ← EmulatedStorage.readExact n
      return f data : StorageM α).run s) := by
  have hshort : ¬ off.toNat + n ≤ s.file.contents.length := Nat.not_le.mpr h
  simp only [Sys.run_bind]
  by_cases hseek : off.toNat ≤ s.file.limit
  · simp only [EmulatedStorage.seek, EmulatedStorage.readExact, Sys.run,
      HostFile.seek_of_le hseek, HostFile.readExact, EmulatedStorage.withFile, if_neg hshort]
    exact ⟨_, rfl, by decide, rfl⟩
  · simp only [EmulatedStorage.seek, Sys.run,
      HostFile.seek_of_gt (Nat.not_le.mp hseek), EmulatedStorage.withFile]
    exact ⟨_, rfl, by decide, rfl⟩

/-- A write that the host does not take. -/
theorem seek_writeAll_refused {data : List UInt8} (h : ¬ s.file.Takes off.toNat data.length) :
    Refused s ((do
      EmulatedStorage.seek off
      EmulatedStorage.writeAll data : StorageM Unit).run s) := by
  simp only [Sys.run_bind]
  by_cases hseek : off.toNat ≤ s.file.limit
  · obtain ⟨e, hk, hwrite⟩ :=
      @HostFile.writeAll_refused { s.file with pos := off.toNat } data h
    simp only [EmulatedStorage.seek, EmulatedStorage.writeAll, Sys.run,
      HostFile.seek_of_le hseek, EmulatedStorage.withFile, hwrite]
    exact ⟨e, rfl, hk, rfl⟩
  · simp only [EmulatedStorage.seek, Sys.run,
      HostFile.seek_of_gt (Nat.not_le.mp hseek), EmulatedStorage.withFile]
    exact ⟨_, rfl, by decide, rfl⟩

/-- A write the host takes returns, wherever it ends. -/
theorem seek_writeAll_ok (off : UInt64) (data : List UInt8)
    (h : s.file.Takes off.toNat data.length) :
    ((do
      EmulatedStorage.seek off
      EmulatedStorage.writeAll data : StorageM Unit).run s).1 = .ok () := by
  have hseek : s.file.seek off.toNat = (.ok (), { s.file with pos := off.toNat }) :=
    HostFile.seek_of_le (Nat.le_trans (Nat.le_add_right _ _) h.1)
  have hwrite := @HostFile.writeAll_of_takes { s.file with pos := off.toNat } data h
  simp [Sys.run, EmulatedStorage.seek, EmulatedStorage.writeAll, bind, hseek,
    EmulatedStorage.withFile, hwrite]

end File

/-! ## Byte requests whose end wraps -/

section Wrapped

variable (s : EmulatedStorage) (off : UInt64) (buf : Buffer)

/-- In the release build a read whose end wraps is refused by the file, whatever the
device's own check says. -/
theorem readBytes_of_wraps (h : 2 ^ 64 ≤ off.toNat + buf.bytes.length) :
    Refused s ((EmulatedStorage.readBytes .release off buf).run s) := by
  have hlen : s.contents.length ≤ s.file.limit := s.file.length_le
  have hlimit := s.file.limit_lt
  unfold EmulatedStorage.readBytes
  simp only [Sys.run_bind, Sys.run_get, Sys.run_monadLift, Build.addU64_release]
  by_cases hcap : s.capacity < off + buf.len
  · rw [if_pos hcap]
    exact ⟨_, rfl, by decide, rfl⟩
  · rw [if_neg hcap]
    exact seek_readExact_refused s (fun data => (buf.bytes.length, data)) (by omega)

/-- And so is a write. -/
theorem writeBytes_of_wraps (h : 2 ^ 64 ≤ off.toNat + buf.bytes.length) :
    Refused s ((EmulatedStorage.writeBytes .release off buf).run s) := by
  have hlimit := s.file.limit_lt
  unfold EmulatedStorage.writeBytes
  simp only [Sys.run_bind, Sys.run_get]
  cases hwp : s.writeProtected with
  | true => exact ⟨_, rfl, by decide, rfl⟩
  | false =>
      simp only [Bool.false_eq_true, if_false, Sys.run_bind, Sys.run_monadLift,
        Build.addU64_release]
      by_cases hcap : s.capacity < off + buf.len
      · rw [if_pos hcap]
        exact ⟨_, rfl, by decide, rfl⟩
      · rw [if_neg hcap]
        refine seek_writeAll_refused s fun htakes => ?_
        have hfit := htakes.1
        omega

end Wrapped

/-! ## What the checks let through -/

/-- Some arithmetic a call gets to is not representable. -/
def Overflows : Request → Prop
  | .block _ _ => False
  | .blocks start count buf =>
    2 ^ 64 ≤ count.toNat * 4096 ∨
      (count.toNat * 4096 ≤ buf.bytes.length ∧ 2 ^ 64 ≤ start.toNat + count.toNat)
  | .bytes offset buf => 2 ^ 64 ≤ offset.toNat + buf.bytes.length

/-- The window that the results modulo `2^64` make of a request, when they pass the checks. -/
def wrappedWindow (size : ℕ) : Request → Option (ℕ × ℕ)
  | .block i buf =>
    if buf.bytes.length = 4096 ∧ i.toNat < size / 4096 then some (i.toNat * 4096, 4096) else none
  | .blocks start count buf =>
    if count.toNat * 4096 % 2 ^ 64 ≤ buf.bytes.length ∧
        (start.toNat + count.toNat) % 2 ^ 64 ≤ size / 4096 then
      some (start.toNat * 4096 % 2 ^ 64, count.toNat * 4096 % 2 ^ 64)
    else none
  | .bytes offset buf =>
    if (offset.toNat + buf.bytes.length) % 2 ^ 64 ≤ size then
      some (offset.toNat, buf.bytes.length)
    else none

/-- A read is served from its window, or there is none and it is refused. -/
def ReadGuarded (b : Build) (s : EmulatedStorage) (r : Request) : Prop :=
  (∃ o n, r.window s.capacity.toNat = some (o, n) ∧
    ((StorageCall.read r).run b s).1 =
      .ok (.read n (segment s.contents o n ++ r.buf.bytes.drop n)) ∧
    device ((StorageCall.read r).run b s).2 = device s) ∨
  (r.window s.capacity.toNat = none ∧ Refused s ((StorageCall.read r).run b s))

/-- A write replaces its window, or there is none, or the device is protected or its file not
opened for writing, and it is refused. -/
def WriteGuarded (b : Build) (s : EmulatedStorage) (r : Request) : Prop :=
  (∃ o n, r.window s.capacity.toNat = some (o, n) ∧ s.writeProtected = false ∧
    ((StorageCall.write r).run b s).1 = .ok .done ∧
    device ((StorageCall.write r).run b s).2 = (device s).write o (r.buf.bytes.take n)) ∨
  ((r.window s.capacity.toNat = none ∨ s.writeProtected = true ∨ s.file.access = .readOnly) ∧
    Refused s ((StorageCall.write r).run b s))

/-- The requests each build checks properly, for a file that serves the windows in `room`. -/
def Checked (b : Build) (size : ℕ) (room : ℕ → ℕ → Prop) (r : Request) : Prop :=
  match b with
  | .debug => ¬ Overflows r
  | .release => r.window size ≠ none ∨
    ∀ o n, wrappedWindow size r = some (o, n) → ¬ room o n

/-! ## Requests that do not wrap -/

section Fits

variable (b : Build) (s : EmulatedStorage) (r : Request)

/-- A request with a window makes only representable results. -/
theorem inRange_of_window {size o n : ℕ} (hsize : size < 2 ^ 64)
    (h : r.window size = some (o, n)) : r.InRange := by
  cases r with
  | block i buf => trivial
  | blocks start count buf =>
      simp only [Request.window, Option.ite_none_right_eq_some] at h
      constructor
      · omega
      · omega
  | bytes off buf =>
      simp only [Request.window, Option.ite_none_right_eq_some] at h
      exact Nat.lt_of_le_of_lt h.1 hsize

/-- A read in range is guarded. -/
theorem readGuarded_of_inRange (h : r.InRange) : ReadGuarded b s r := by
  obtain ⟨hres, hdev⟩ := readRequest_spec b s r h
  cases hwin : r.window s.capacity.toNat with
  | none =>
      simp only [hwin] at hres
      exact .inr ⟨hwin, refused_of_observe hres (by simp) hdev⟩
  | some w =>
      simp only [hwin] at hres
      exact .inl ⟨w.1, w.2, hwin, eq_ok_of_observe hres, hdev⟩

/-- A write in range is guarded. -/
theorem writeGuarded_of_inRange (h : r.InRange) : WriteGuarded b s r := by
  obtain ⟨hres, hdev⟩ := writeRequest_spec b s r h
  cases hwp : s.writeProtected with
  | true =>
      simp only [hwp, if_true] at hres hdev
      exact .inr ⟨.inr (.inl hwp), refused_of_observe hres (by simp) hdev⟩
  | false =>
      simp only [hwp, Bool.false_eq_true, if_false] at hres hdev
      cases hwin : r.window s.capacity.toNat with
      | none =>
          simp only [hwin] at hres hdev
          exact .inr ⟨.inl hwin, refused_of_observe hres (by simp) hdev⟩
      | some w =>
          obtain ⟨o, n⟩ := w
          have hlength : (r.buf.bytes.take n).length = n := by
            rw [List.length_take, Nat.min_eq_left (window_le hwin).2]
          simp only [hwin, hostAnswer] at hres hdev
          by_cases hrefuses : s.file.access.Refuses n
          · rw [if_pos hrefuses] at hres
            rw [written_of_refused s (by rwa [hlength])] at hdev
            exact .inr ⟨.inr (.inr hrefuses.1), refused_of_observe hres (by decide) hdev⟩
          · rw [if_neg hrefuses] at hres
            rw [written_of_taken s (by rwa [hlength])] at hdev
            exact .inl ⟨o, n, hwin, hwp, eq_ok_of_observe hres, hdev⟩

end Fits

/-! ## Lengths in blocks -/

section Lengths

variable (s : EmulatedStorage)

/-- Multiplying by the block size wraps at 2^64. -/
theorem toNat_mul_blockSize (x : UInt64) :
    (x * s.blockSize).toNat = x.toNat * 4096 % 2 ^ 64 := by
  rw [UInt64.toNat_mul, blockSize_toNat]

/-- The check of a buffer's length, when the length product does not wrap. -/
theorem len_lt_iff {count : UInt64} (hmul : count.toNat * 4096 < 2 ^ 64) (buf : Buffer) :
    buf.len < count * s.blockSize ↔ buf.bytes.length < count.toNat * 4096 := by
  rw [UInt64.lt_iff_toNat_lt, toNat_mul_blockSize, Nat.mod_eq_of_lt hmul, Buffer.len_toNat]

end Lengths

/-! ## The debug build -/

section Debug

variable {s : EmulatedStorage} {r : Request}

/-- A debug build panics on a read that overflows. -/
theorem readRequest_debug_panics (h : Overflows r) :
    ((StorageCall.read r).run .debug s).1 = .error .panic := by
  cases r with
  | block i buf => exact h.elim
  | blocks start count buf =>
      simp only [StorageCall.run, StorageCall.exec, Sys.run_bind_pure]
      unfold EmulatedStorage.readBlocks
      simp only [Sys.run_bind, Sys.run_get, Sys.run_monadLift]
      by_cases hmul : 2 ^ 64 ≤ count.toNat * 4096
      · rw [Build.mulU64_debug_of_wraps (by rwa [blockSize_toNat])]
        rfl
      · obtain ⟨hbuf, hsum⟩ := h.resolve_left hmul
        have hlong : ¬ buf.len < count * s.blockSize := by
          rw [len_lt_iff s (Nat.not_le.mp hmul)]
          exact Nat.not_lt.mpr hbuf
        rw [(mulU64_blockSize .debug s (Nat.not_le.mp hmul)).1]
        simp only [if_neg hlong, Sys.run_bind, Sys.run_monadLift]
        rw [Build.addU64_debug_of_wraps hsum]
        rfl
  | bytes off buf =>
      have hsum : 2 ^ 64 ≤ off.toNat + buf.len.toNat := by
        rw [Buffer.len_toNat]
        exact h
      simp only [StorageCall.run, StorageCall.exec, Sys.run_bind_pure]
      unfold EmulatedStorage.readBytes
      simp only [Sys.run_bind, Sys.run_get, Sys.run_monadLift]
      rw [Build.addU64_debug_of_wraps hsum]
      rfl

/-- A debug build panics on a write that overflows. -/
theorem writeRequest_debug_panics (hwp : s.writeProtected = false) (h : Overflows r) :
    ((StorageCall.write r).run .debug s).1 = .error .panic := by
  cases r with
  | block i buf => exact h.elim
  | blocks start count buf =>
      simp only [StorageCall.run, StorageCall.exec, Sys.run_bind_pure]
      unfold EmulatedStorage.writeBlocks
      simp only [Sys.run_bind, Sys.run_get, hwp, Bool.false_eq_true, if_false,
        Sys.run_monadLift]
      by_cases hmul : 2 ^ 64 ≤ count.toNat * 4096
      · rw [Build.mulU64_debug_of_wraps (by rwa [blockSize_toNat])]
        rfl
      · obtain ⟨hbuf, hsum⟩ := h.resolve_left hmul
        have hlong : ¬ buf.len < count * s.blockSize := by
          rw [len_lt_iff s (Nat.not_le.mp hmul)]
          exact Nat.not_lt.mpr hbuf
        rw [(mulU64_blockSize .debug s (Nat.not_le.mp hmul)).1]
        simp only [if_neg hlong, Sys.run_bind, Sys.run_monadLift]
        rw [Build.addU64_debug_of_wraps hsum]
        rfl
  | bytes off buf =>
      have hsum : 2 ^ 64 ≤ off.toNat + buf.len.toNat := by
        rw [Buffer.len_toNat]
        exact h
      simp only [StorageCall.run, StorageCall.exec, Sys.run_bind_pure]
      unfold EmulatedStorage.writeBytes
      simp only [Sys.run_bind, Sys.run_get, hwp, Bool.false_eq_true, if_false,
        Sys.run_monadLift]
      rw [Build.addU64_debug_of_wraps hsum]
      rfl

/-- A length product that overflows, or a range sum behind a buffer that is long enough, is
not reached by a request that is in range or whose buffer is too short. -/
theorem inRange_or_short (h : ¬ Overflows r) :
    r.InRange ∨ ∃ start count buf, r = .blocks start count buf ∧
      count.toNat * 4096 < 2 ^ 64 ∧ buf.bytes.length < count.toNat * 4096 := by
  cases r with
  | block i buf => exact .inl trivial
  | blocks start count buf =>
      simp only [Overflows, not_or, not_and, Nat.not_le] at h
      by_cases hbuf : count.toNat * 4096 ≤ buf.bytes.length
      · exact .inl ⟨h.1, h.2 hbuf⟩
      · exact .inr ⟨start, count, buf, rfl, h.1, Nat.not_le.mp hbuf⟩
  | bytes off buf => exact .inl (Nat.not_le.mp h)

end Debug

/-! ## The release build -/

section Release

variable (s : EmulatedStorage) (start count : UInt64) (buf : Buffer)

/-- The checks of the release build, as a comparison of wrapped values. -/
theorem passes_iff : (¬ buf.len < count * s.blockSize ∧ ¬ s.totalBlocks < start + count) ↔
    count.toNat * 4096 % 2 ^ 64 ≤ buf.bytes.length ∧
      (start.toNat + count.toNat) % 2 ^ 64 ≤ s.capacity.toNat / 4096 := by
  rw [UInt64.lt_iff_toNat_lt, UInt64.lt_iff_toNat_lt, toNat_mul_blockSize, Buffer.len_toNat,
    totalBlocks_toNat, UInt64.toNat_add, Nat.not_lt, Nat.not_lt]

/-- What the checks of the release build refuse. -/
theorem readBlocks_release_refused
    (h : wrappedWindow s.capacity.toNat (.blocks start count buf) = none) :
    Refused s ((EmulatedStorage.readBlocks .release start count buf).run s) := by
  simp only [wrappedWindow, ite_eq_right_iff, reduceCtorEq, imp_false, ← passes_iff] at h
  unfold EmulatedStorage.readBlocks
  simp only [Sys.run_bind, Sys.run_get, Sys.run_monadLift, Build.mulU64_release]
  by_cases hbuf : buf.len < count * s.blockSize
  · rw [if_pos hbuf]
    exact ⟨_, rfl, by decide, rfl⟩
  · have hcap : s.totalBlocks < start + count := Decidable.not_not.mp fun hcap => h ⟨hbuf, hcap⟩
    rw [if_neg hbuf]
    simp only [Sys.run_bind, Sys.run_monadLift, Build.addU64_release, if_pos hcap]
    exact ⟨_, rfl, by decide, rfl⟩

/-- What they let through goes to the file. -/
theorem readBlocks_release_passes {o n : ℕ}
    (h : wrappedWindow s.capacity.toNat (.blocks start count buf) = some (o, n)) :
    (EmulatedStorage.readBlocks .release start count buf).run s = ((do
      EmulatedStorage.seek (start * s.blockSize)
      let data ← EmulatedStorage.readExact n
      return (n, data ++ buf.bytes.drop n) : StorageM (ℕ × List UInt8)).run s) ∧
      (start * s.blockSize).toNat = o := by
  simp only [wrappedWindow, Option.ite_none_right_eq_some, Option.some.injEq,
    Prod.mk.injEq, ← passes_iff] at h
  obtain ⟨⟨hbuf, hcap⟩, rfl, rfl⟩ := h
  refine ⟨?_, toNat_mul_blockSize s start⟩
  unfold EmulatedStorage.readBlocks
  simp only [Sys.run_bind, Sys.run_get, Sys.run_monadLift, Build.mulU64_release, if_neg hbuf,
    Build.addU64_release, if_neg hcap, toNat_mul_blockSize]

/-- What the checks of the release build refuse. -/
theorem writeBlocks_release_refused
    (h : wrappedWindow s.capacity.toNat (.blocks start count buf) = none) :
    Refused s ((EmulatedStorage.writeBlocks .release start count buf).run s) := by
  simp only [wrappedWindow, ite_eq_right_iff, reduceCtorEq, imp_false, ← passes_iff] at h
  unfold EmulatedStorage.writeBlocks
  simp only [Sys.run_bind, Sys.run_get]
  cases hwp : s.writeProtected with
  | true => exact ⟨_, rfl, by decide, rfl⟩
  | false =>
      simp only [Bool.false_eq_true, if_false, Sys.run_bind, Sys.run_monadLift,
        Build.mulU64_release]
      by_cases hbuf : buf.len < count * s.blockSize
      · rw [if_pos hbuf]
        exact ⟨_, rfl, by decide, rfl⟩
      · have hcap : s.totalBlocks < start + count :=
          Decidable.not_not.mp fun hcap => h ⟨hbuf, hcap⟩
        rw [if_neg hbuf]
        simp only [Sys.run_bind, Sys.run_monadLift, Build.addU64_release, if_pos hcap]
        exact ⟨_, rfl, by decide, rfl⟩

/-- What they let through goes to the file. -/
theorem writeBlocks_release_passes {o n : ℕ} (hwp : s.writeProtected = false)
    (h : wrappedWindow s.capacity.toNat (.blocks start count buf) = some (o, n)) :
    (EmulatedStorage.writeBlocks .release start count buf).run s = ((do
      EmulatedStorage.seek (start * s.blockSize)
      EmulatedStorage.writeAll (buf.bytes.take n) : StorageM Unit).run s) ∧
      (start * s.blockSize).toNat = o ∧ (buf.bytes.take n).length = n := by
  simp only [wrappedWindow, Option.ite_none_right_eq_some, Option.some.injEq,
    Prod.mk.injEq] at h
  obtain ⟨hpass, rfl, rfl⟩ := h
  obtain ⟨hbuf, hcap⟩ := (passes_iff s start count buf).mpr hpass
  refine ⟨?_, toNat_mul_blockSize s start, ?_⟩
  · unfold EmulatedStorage.writeBlocks
    simp only [Sys.run_bind, Sys.run_get, hwp, Bool.false_eq_true, if_false,
      Sys.run_monadLift, Build.mulU64_release, if_neg hbuf, Build.addU64_release, if_neg hcap,
      toNat_mul_blockSize]
  · rw [List.length_take, Nat.min_eq_left hpass.1]

end Release

/-! ## Both builds -/

section Exact

variable {b : Build} {s : EmulatedStorage} {r : Request}

/-- A request whose window exists on neither reading. -/
theorem wrappedWindow_of_inRange {size : ℕ} (hr : r.InRange) (h : r.window size = none) :
    wrappedWindow size r = none := by
  cases r with
  | block i buf => exact h
  | blocks start count buf =>
      simp only [wrappedWindow, Nat.mod_eq_of_lt hr.1, Nat.mod_eq_of_lt hr.2]
      simp only [Request.window, ite_eq_right_iff, reduceCtorEq, imp_false] at h
      rw [if_neg h]
  | bytes off buf =>
      have hlt : off.toNat + buf.bytes.length < 2 ^ 64 := hr
      simp only [wrappedWindow, Nat.mod_eq_of_lt hlt]
      exact h

/-- A guarded read without a window is refused. -/
theorem refused_of_readGuarded (h : r.window s.capacity.toNat = none)
    (hg : ReadGuarded b s r) : Refused s ((StorageCall.read r).run b s) := by
  rcases hg with ⟨o, n, hwin, -⟩ | ⟨-, hrefused⟩
  · rw [h] at hwin
    cases hwin
  · exact hrefused

/-- A guarded write without a window is refused. -/
theorem refused_of_writeGuarded (h : r.window s.capacity.toNat = none)
    (hg : WriteGuarded b s r) : Refused s ((StorageCall.write r).run b s) := by
  rcases hg with ⟨o, n, hwin, -⟩ | ⟨-, hrefused⟩
  · rw [h] at hwin
    cases hwin
  · exact hrefused

/-- A byte request that ends past `2^64` ends past what the host addresses. -/
theorem bytes_room {off : UInt64} {buf : Buffer} (h : 2 ^ 64 ≤ off.toNat + buf.bytes.length)
    {size room o n : ℕ} (hroom : room < 2 ^ 64)
    (hwin : wrappedWindow size (.bytes off buf) = some (o, n)) : ¬ o + n ≤ room := by
  simp only [wrappedWindow, Option.ite_none_right_eq_some, Option.some.injEq,
    Prod.mk.injEq] at hwin
  omega

/-- A request is refused exactly outside some room, if it is refused there and without a range,
and not refused within it. -/
theorem refused_iff_outside {α : Type} {out : Except Fault α × EmulatedStorage}
    {range : Option (ℕ × ℕ)} {room : ℕ → ℕ → Prop} (hnone : range = none → Refused s out)
    (hwithin : ∀ w, range = some w → room w.1 w.2 → ¬ Refused s out)
    (hbeyond : ∀ w, range = some w → ¬ room w.1 w.2 → Refused s out) :
    Refused s out ↔ ∀ o n, range = some (o, n) → ¬ room o n := by
  constructor
  · intro h o n hrange hfit
    exact hwithin (o, n) hrange hfit h
  · intro h
    cases hrange : range with
    | none => exact hnone hrange
    | some w => exact hbeyond w hrange (h w.1 w.2 hrange)

/-- A read without a window, in the release build. -/
theorem readRequest_release_refused_iff (h : r.window s.capacity.toNat = none) :
    Refused s ((StorageCall.read r).run .release s) ↔
      ∀ o n, wrappedWindow s.capacity.toNat r = some (o, n) → ¬ s.file.Holds o n := by
  by_cases hr : r.InRange
  · apply iff_of_true
    · exact refused_of_readGuarded h (readGuarded_of_inRange .release s r hr)
    · intro o n hwin
      rw [wrappedWindow_of_inRange hr h] at hwin
      cases hwin
  cases r with
  | block i buf => exact absurd trivial hr
  | blocks start count buf =>
      simp only [StorageCall.run, StorageCall.exec, Sys.run_bind_pure]
      apply refused_iff_outside
      · intro hwin
        exact (readBlocks_release_refused s start count buf hwin).map _
      · intro w hwin hfit
        obtain ⟨hrun, ho⟩ := readBlocks_release_passes s start count buf hwin
        rw [← ho] at hfit
        obtain ⟨hok, -⟩ := seek_readExact s
          (fun data => (w.2, data ++ buf.bytes.drop w.2)) hfit
        apply not_refused_of_ok
        rw [hrun, hok]
        rfl
      · intro w hwin hshort
        obtain ⟨hrun, ho⟩ := readBlocks_release_passes s start count buf hwin
        rw [← ho] at hshort
        rw [hrun]
        exact (seek_readExact_refused s
          (fun data => (w.2, data ++ buf.bytes.drop w.2)) (Nat.not_le.mp hshort)).map _
  | bytes off buf =>
      have hbig : 2 ^ 64 ≤ off.toNat + buf.bytes.length := Nat.not_lt.mp hr
      have hroom : s.contents.length < 2 ^ 64 :=
        Nat.lt_of_le_of_lt s.file.length_le s.file.limit_lt
      simp only [StorageCall.run, StorageCall.exec, Sys.run_bind_pure]
      apply iff_of_true
      · exact (readBytes_of_wraps s off buf hbig).map _
      · intro o n hwin
        exact bytes_room hbig hroom hwin

/-- A write without a window, in the release build. -/
theorem writeRequest_release_refused_iff (hwp : s.writeProtected = false)
    (h : r.window s.capacity.toNat = none) :
    Refused s ((StorageCall.write r).run .release s) ↔
      ∀ o n, wrappedWindow s.capacity.toNat r = some (o, n) → ¬ s.file.Takes o n := by
  by_cases hr : r.InRange
  · apply iff_of_true
    · exact refused_of_writeGuarded h (writeGuarded_of_inRange .release s r hr)
    · intro o n hwin
      rw [wrappedWindow_of_inRange hr h] at hwin
      cases hwin
  cases r with
  | block i buf => exact absurd trivial hr
  | blocks start count buf =>
      simp only [StorageCall.run, StorageCall.exec, Sys.run_bind_pure]
      apply refused_iff_outside
      · intro hwin
        exact (writeBlocks_release_refused s start count buf hwin).map _
      · intro w hwin hfit
        obtain ⟨hrun, ho, hlen⟩ := writeBlocks_release_passes s start count buf hwp hwin
        rw [← ho, ← hlen] at hfit
        apply not_refused_of_ok
        rw [hrun, seek_writeAll_ok s (start * s.blockSize) (buf.bytes.take w.2) hfit]
        rfl
      · intro w hwin hlong
        obtain ⟨hrun, ho, hlen⟩ := writeBlocks_release_passes s start count buf hwp hwin
        rw [← ho, ← hlen] at hlong
        rw [hrun]
        exact (seek_writeAll_refused s hlong).map _
  | bytes off buf =>
      have hbig : 2 ^ 64 ≤ off.toNat + buf.bytes.length := Nat.not_lt.mp hr
      simp only [StorageCall.run, StorageCall.exec, Sys.run_bind_pure]
      apply iff_of_true
      · exact (writeBytes_of_wraps s off buf hbig).map _
      · intro o n hwin htakes
        exact bytes_room hbig s.file.limit_lt hwin htakes.1

/-- A protected device refuses every write. -/
theorem writeRequest_protected (hwp : s.writeProtected = true) :
    Refused s ((StorageCall.write r).run b s) := by
  cases r with
  | block i buf =>
      simp only [StorageCall.run, StorageCall.exec, Sys.run_bind_pure]
      unfold EmulatedStorage.writeBlock
      simp only [Sys.run_bind, Sys.run_get, hwp, if_true]
      exact ⟨_, rfl, by decide, rfl⟩
  | blocks start count buf =>
      simp only [StorageCall.run, StorageCall.exec, Sys.run_bind_pure]
      unfold EmulatedStorage.writeBlocks
      simp only [Sys.run_bind, Sys.run_get, hwp, if_true]
      exact ⟨_, rfl, by decide, rfl⟩
  | bytes off buf =>
      simp only [StorageCall.run, StorageCall.exec, Sys.run_bind_pure]
      unfold EmulatedStorage.writeBytes
      simp only [Sys.run_bind, Sys.run_get, hwp, if_true]
      exact ⟨_, rfl, by decide, rfl⟩

/-- A buffer that is too short is refused before the range is looked at. -/
theorem readBlocks_short {start count : UInt64} {buf : Buffer}
    (hmul : count.toNat * 4096 < 2 ^ 64) (hshort : buf.bytes.length < count.toNat * 4096) :
    Refused s ((StorageCall.read (.blocks start count buf)).run b s) := by
  obtain ⟨hproduct, -⟩ := mulU64_blockSize b s hmul
  have hlt : buf.len < count * s.blockSize := (len_lt_iff s hmul buf).mpr hshort
  simp only [StorageCall.run, StorageCall.exec, Sys.run_bind_pure]
  unfold EmulatedStorage.readBlocks
  simp only [Sys.run_bind, Sys.run_get, Sys.run_monadLift, hproduct, if_pos hlt]
  exact ⟨_, rfl, by decide, rfl⟩

/-- A block write from a short buffer is refused. -/
theorem writeBlocks_short {start count : UInt64} {buf : Buffer}
    (hmul : count.toNat * 4096 < 2 ^ 64) (hshort : buf.bytes.length < count.toNat * 4096) :
    Refused s ((StorageCall.write (.blocks start count buf)).run b s) := by
  obtain ⟨hproduct, -⟩ := mulU64_blockSize b s hmul
  have hlt : buf.len < count * s.blockSize := (len_lt_iff s hmul buf).mpr hshort
  cases hwp : s.writeProtected with
  | true => exact writeRequest_protected hwp
  | false =>
      simp only [StorageCall.run, StorageCall.exec, Sys.run_bind_pure]
      unfold EmulatedStorage.writeBlocks
      simp only [Sys.run_bind, Sys.run_get, hwp, Bool.false_eq_true, if_false,
        Sys.run_monadLift, hproduct, if_pos hlt]
      exact ⟨_, rfl, by decide, rfl⟩

/-- A block request with a short buffer has no window. -/
theorem window_of_short {start count : UInt64} {buf : Buffer} {size : ℕ}
    (hshort : buf.bytes.length < count.toNat * 4096) :
    (Request.blocks start count buf).window size = none :=
  if_neg fun h => Nat.not_le.mpr hshort h.1

/-- A read that panics is not guarded. -/
theorem not_readGuarded_of_panic (h : ((StorageCall.read r).run b s).1 = .error .panic) :
    ¬ ReadGuarded b s r := by
  rintro (⟨o, n, -, hok, -⟩ | ⟨-, hrefused⟩)
  · rw [h] at hok
    cases hok
  · exact not_refused_of_panic h hrefused

/-- A write that panics is not guarded. -/
theorem not_writeGuarded_of_panic (h : ((StorageCall.write r).run b s).1 = .error .panic) :
    ¬ WriteGuarded b s r := by
  rintro (⟨o, n, -, -, hok, -⟩ | ⟨-, hrefused⟩)
  · rw [h] at hok
    cases hok
  · exact not_refused_of_panic h hrefused

/-- SOURCE: core/src/fs/storage.rs:126-148, 184-203, 236-247 -/
theorem readGuarded_iff : ReadGuarded b s r ↔
    Checked b s.capacity.toNat s.file.Holds r := by
  cases b with
  | debug =>
      by_cases hover : Overflows r
      · exact iff_of_false (not_readGuarded_of_panic (readRequest_debug_panics hover))
          (not_not_intro hover)
      · apply iff_of_true _ hover
        rcases inRange_or_short hover with hr | ⟨start, count, buf, rfl, hmul, hshort⟩
        · exact readGuarded_of_inRange .debug s r hr
        · exact .inr ⟨window_of_short hshort, readBlocks_short hmul hshort⟩
  | release =>
      cases hwin : r.window s.capacity.toNat with
      | none =>
          have hiff := readRequest_release_refused_iff hwin
          constructor
          · intro hg
            exact .inr (hiff.mp (refused_of_readGuarded hwin hg))
          · rintro (hsome | hroom)
            · exact absurd hwin hsome
            · exact .inr ⟨hwin, hiff.mpr hroom⟩
      | some w =>
          have hr := inRange_of_window r s.capacity.toNat_lt hwin
          apply iff_of_true
          · exact readGuarded_of_inRange .release s r hr
          · exact .inl (by rw [hwin]; simp)

/-- SOURCE: core/src/fs/storage.rs:153-181, 206-231, 250-267 -/
theorem writeGuarded_iff : WriteGuarded b s r ↔
    s.writeProtected = true ∨ Checked b s.capacity.toNat s.file.Takes r := by
  cases hwp : s.writeProtected with
  | true => exact iff_of_true (.inr ⟨.inr (.inl hwp), writeRequest_protected hwp⟩) (.inl rfl)
  | false =>
  simp only [Bool.false_eq_true, false_or]
  cases b with
  | debug =>
      by_cases hover : Overflows r
      · exact iff_of_false (not_writeGuarded_of_panic (writeRequest_debug_panics hwp hover))
          (not_not_intro hover)
      · apply iff_of_true _ hover
        rcases inRange_or_short hover with hr | ⟨start, count, buf, rfl, hmul, hshort⟩
        · exact writeGuarded_of_inRange .debug s r hr
        · exact .inr ⟨.inl (window_of_short hshort), writeBlocks_short hmul hshort⟩
  | release =>
      cases hwin : r.window s.capacity.toNat with
      | none =>
          have hiff := writeRequest_release_refused_iff hwp hwin
          constructor
          · intro hg
            exact .inr (hiff.mp (refused_of_writeGuarded hwin hg))
          · rintro (hsome | hroom)
            · exact absurd hwin hsome
            · exact .inr ⟨.inl hwin, hiff.mpr hroom⟩
      | some w =>
          have hr := inRange_of_window r s.capacity.toNat_lt hwin
          apply iff_of_true
          · exact writeGuarded_of_inRange .release s r hr
          · exact .inl (by rw [hwin]; simp)

end Exact

/-- **A request is served from its window or refused exactly when the build checks it
properly**: in the debug build when nothing it gets to overflows, in the release build
when it has a window or the file does not serve the one made by wrapping.
SOURCE: core/src/fs/storage.rs:183-267 -/
theorem requests_guarded_iff (b : Build) (s : EmulatedStorage) (r : Request) :
    (ReadGuarded b s r ↔ Checked b s.capacity.toNat s.file.Holds r) ∧
      (WriteGuarded b s r ↔
        s.writeProtected = true ∨ Checked b s.capacity.toNat s.file.Takes r) :=
  ⟨readGuarded_iff, writeGuarded_iff⟩

/-- A device of one block. -/
def smallDevice : EmulatedStorage := EmulatedStorage.newImage 4096 (by decide) (by decide)

/-- From block 2^52 on, 2^64 - 2^52 + 1 blocks: the sum is 1, the offset 0 and the length
one block, all modulo 2^64. -/
def wrappedBlocks (buf : Buffer) : Request :=
  .blocks (UInt64.ofNat (2 ^ 52)) (UInt64.ofNat (2 ^ 64 - 2 ^ 52 + 1)) buf

/-- A block of ones. -/
def onesBlock : Buffer where
  bytes := List.replicate 4096 1
  length_lt := by
    rw [List.length_replicate]
    omega

/-- The sample block has the block size. -/
theorem onesBlock_length : onesBlock.bytes.length = 4096 := List.length_replicate

/-- The small device's capacity is one block. -/
theorem smallDevice_capacity : smallDevice.capacity.toNat = 4096 := rfl

/-- The small device holds one block. -/
theorem smallDevice_length : smallDevice.contents.length = 4096 := List.length_replicate

/-- The wrapping request has no window on the device. -/
theorem wrappedBlocks_window : (wrappedBlocks onesBlock).window 4096 = none := by
  simp only [wrappedBlocks, Request.window, ite_eq_right_iff, reduceCtorEq, imp_false]
  rintro ⟨-, hsum⟩
  exact absurd hsum (by decide)

/-- Computed with wrapping, the same request has one. -/
theorem wrappedBlocks_wrapped : wrappedWindow 4096 (wrappedBlocks onesBlock) = some (0, 4096) := by
  have hlen : (UInt64.ofNat (2 ^ 64 - 2 ^ 52 + 1)).toNat * 4096 % 2 ^ 64 = 4096 := by decide
  have hoff : (UInt64.ofNat (2 ^ 52)).toNat * 4096 % 2 ^ 64 = 0 := by decide
  have hsum : ((UInt64.ofNat (2 ^ 52)).toNat + (UInt64.ofNat (2 ^ 64 - 2 ^ 52 + 1)).toNat) %
      2 ^ 64 = 1 := by decide
  simp only [wrappedBlocks, wrappedWindow, hlen, hoff, hsum, onesBlock_length]
  rfl

/-- A release build's checks let the wrapping request through. -/
theorem wrappedBlocks_unchecked {room : ℕ → ℕ → Prop} (h : room 0 4096) :
    ¬ Checked .release smallDevice.capacity.toNat room (wrappedBlocks onesBlock) := by
  rw [smallDevice_capacity]
  rintro (hwin | hroom)
  · exact hwin wrappedBlocks_window
  · exact hroom 0 4096 wrappedBlocks_wrapped h

/-- The wrapping write is done at the start of the device. -/
theorem wrappedBlocks_written :
    ((StorageCall.write (wrappedBlocks onesBlock)).run .release smallDevice).1 = .ok .done ∧
      device ((StorageCall.write (wrappedBlocks onesBlock)).run .release smallDevice).2 =
        (device smallDevice).write 0 onesBlock.bytes := by
  obtain ⟨hrun, ho, -⟩ := writeBlocks_release_passes smallDevice _ _ onesBlock rfl
    (show wrappedWindow smallDevice.capacity.toNat (wrappedBlocks onesBlock) = some (0, 4096) by
      rw [smallDevice_capacity]
      exact wrappedBlocks_wrapped)
  have hall : onesBlock.bytes.take 4096 = onesBlock.bytes :=
    List.take_of_length_le (Nat.le_of_eq onesBlock_length)
  rw [hall] at hrun
  obtain ⟨hres, hdev⟩ := seek_writeAll smallDevice
    (show (UInt64.ofNat (2 ^ 52) * smallDevice.blockSize).toNat + onesBlock.bytes.length ≤
      smallDevice.capacity.toNat by rw [ho, onesBlock_length, smallDevice_capacity])
  have hwrite : ¬ smallDevice.file.access.Refuses onesBlock.bytes.length := fun h => by cases h.1
  rw [ho] at hdev
  rw [hostAnswer, if_neg hwrite] at hres
  rw [written_of_taken smallDevice hwrite] at hdev
  simp only [wrappedBlocks, StorageCall.run, StorageCall.exec, Sys.run_bind_pure, hrun]
  exact ⟨by rw [eq_ok_of_observe hres]; rfl, hdev⟩

/-- The release build writes such a request over block 0 and serves the read, and the debug
build panics at the last byte offset there is. -/
theorem wrappedBlocks_are_served :
    ((StorageCall.write (wrappedBlocks onesBlock)).run .release smallDevice).1 = .ok .done ∧
    device ((StorageCall.write (wrappedBlocks onesBlock)).run .release smallDevice).2 =
      (device smallDevice).write 0 onesBlock.bytes ∧
    ¬ WriteGuarded .release smallDevice (wrappedBlocks onesBlock) ∧
    ¬ ReadGuarded .release smallDevice (wrappedBlocks onesBlock) ∧
    ¬ ReadGuarded .debug smallDevice (.bytes (UInt64.ofNat (2 ^ 64 - 1)) onesBlock) := by
  obtain ⟨hok, hdev⟩ := wrappedBlocks_written
  refine ⟨hok, hdev, ?_, ?_, ?_⟩
  · intro h
    rcases writeGuarded_iff.mp h with hwp | hchecked
    · cases hwp
    · have htakes : smallDevice.file.Takes 0 4096 := ⟨by decide, fun h => by cases h.1⟩
      exact wrappedBlocks_unchecked htakes hchecked
  · intro h
    have hholds : smallDevice.file.Holds 0 4096 := Nat.le_of_eq smallDevice_length.symm
    exact wrappedBlocks_unchecked hholds (readGuarded_iff.mp h)
  · intro h
    have hover : Overflows (.bytes (UInt64.ofNat (2 ^ 64 - 1)) onesBlock) := by
      show 2 ^ 64 ≤ (UInt64.ofNat (2 ^ 64 - 1)).toNat + onesBlock.bytes.length
      rw [onesBlock_length]
      decide
    exact readGuarded_iff.mp h hover

end Oboromi.Analysis
