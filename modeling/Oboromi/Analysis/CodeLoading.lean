import Mathlib.Data.Finset.Card
import Mathlib.Tactic.NormNum
import Oboromi.Lib.Loop
import Oboromi.Model.Kernel

/-!
# Loading code lays it over the memory

Whole words are stored at their own address.  The bytes that do not fill a word are each put
into the aligned word around them, which is read, changed and written back: the neighbours
keep their values (`storeByte_eq`).  So a load whose range is mapped is one overlay, whatever
the alignment of the address, and so is a load to an aligned address, none of whose words is
mapped in part: what lies past the end of memory is lost.
-/

set_option autoImplicit false

namespace Oboromi.Analysis

open Oboromi.Lib Oboromi.Model

/-! ## Overlays -/

section Overlay

variable (mem : SharedMemory) (address : ℕ)

/-- Nothing is laid over the memory. -/
theorem overlay_nil : mem.overlay address [] = mem := by
  funext a
  simp [SharedMemory.overlay]

/-- What an overlay holds. -/
theorem overlay_apply (bytes : List UInt8) (a : Fin MEMORY_SIZE) :
    mem.overlay address bytes a =
      if address ≤ a.val then (bytes[a.val - address]?).getD (mem a) else mem a := rfl

/-- Bytes in front of the address are as before. -/
theorem overlay_of_lt (bytes : List UInt8) {a : Fin MEMORY_SIZE} (h : a.val < address) :
    mem.overlay address bytes a = mem a := by
  rw [overlay_apply, if_neg (Nat.not_le.mpr h)]

/-- An overlay that starts past the end of memory. -/
theorem overlay_past {address : ℕ} (h : MEMORY_SIZE ≤ address) (bytes : List UInt8) :
    mem.overlay address bytes = mem := by
  funext a
  exact overlay_of_lt mem address bytes (a.isLt.trans_le h)

/-- Two overlays next to each other. -/
theorem overlay_append (xs ys : List UInt8) :
    (mem.overlay address xs).overlay (address + xs.length) ys =
      mem.overlay address (xs ++ ys) := by
  funext a
  simp only [overlay_apply]
  by_cases hsecond : address + xs.length ≤ a.val
  · have hlen : xs.length ≤ a.val - address := by omega
    rw [if_pos hsecond, if_pos (by omega), if_pos (by omega), List.getElem?_append_right hlen,
      List.getElem?_eq_none (l := xs) hlen]
    rw [Nat.sub_sub]
    rfl
  · rw [if_neg hsecond]
    by_cases hfirst : address ≤ a.val
    · rw [if_pos hfirst, if_pos hfirst, List.getElem?_append_left (by omega)]
    · rw [if_neg hfirst, if_neg hfirst]

end Overlay

/-! ## Words and bytes -/

section Stores

variable {emu : Emulator} {mem : SharedMemory} {vaddr offset : UInt64}

/-- A word that is mapped, or not mapped at all, is laid over the memory.
SOURCE: core/src/cpu/unicorn_interface.rs:225-229 -/
theorem writeU32_eq (h : vaddr.toNat + 4 ≤ MEMORY_SIZE ∨ MEMORY_SIZE ≤ vaddr.toNat)
    (value : UInt32) :
    UnicornCPU.writeU32 emu mem vaddr value = mem.overlay vaddr.toNat (toLeBytes value) := by
  rcases h with hmapped | hpast
  · exact emu.memWrite_mapped mem vaddr (toLeBytes value) hmapped
  · have hrefused : MEMORY_SIZE < vaddr.toNat + (toLeBytes value).length := by
      show MEMORY_SIZE < vaddr.toNat + 4
      omega
    rw [overlay_past mem hpast]
    exact emu.memWrite_unmapped mem vaddr (toLeBytes value) hrefused

/-- The bytes of a mapped word.
SOURCE: core/src/cpu/unicorn_interface.rs:232-240 -/
theorem readU32_of_mapped (h : vaddr.toNat + 4 ≤ MEMORY_SIZE) :
    UnicornCPU.readU32 emu mem vaddr = fromLeBytes (mem.byteAt vaddr.toNat)
      (mem.byteAt (vaddr.toNat + 1)) (mem.byteAt (vaddr.toNat + 2))
      (mem.byteAt (vaddr.toNat + 3)) := by
  unfold UnicornCPU.readU32
  rw [emu.memRead_mapped mem vaddr 4 h]
  rfl

/-- Clearing the low two bits. -/
theorem toNat_aligned (x : UInt64) : (x &&& ~~~(3 : UInt64)).toNat = x.toNat / 4 * 4 := by
  have hbits : (x &&& ~~~(3 : UInt64)).toBitVec = (x.toBitVec >>> 2) <<< 2 := by
    ext i hi
    rw [UInt64.toBitVec_and, UInt64.toBitVec_not, BitVec.getElem_and, BitVec.getElem_not,
      BitVec.getElem_shiftLeft]
    by_cases hlow : i < 2
    · interval_cases i <;> simp
    · have hpow : 2 ^ 2 ≤ 2 ^ i := Nat.pow_le_pow_right (by omega) (by omega)
      have hsmall : (3 : UInt64).toBitVec.toNat < 2 ^ i := by
        show 3 < 2 ^ i
        omega
      have hthree : (3 : UInt64).toBitVec[i] = false :=
        (BitVec.getElem_eq_testBit_toNat _ _ _).trans (Nat.testBit_lt_two_pow hsmall)
      have hback : i - 2 + 2 = i := by omega
      simp only [hthree, hlow, BitVec.getElem_ushiftRight, Nat.add_comm 2, hback, decide_false,
        Bool.not_false, Bool.and_true, Bool.true_and]
      exact (BitVec.getLsbD_eq_getElem hi).symm
  have hnat : (x &&& ~~~(3 : UInt64)).toNat = x.toNat >>> 2 <<< 2 % 2 ^ 64 := by
    rw [← UInt64.toNat_toBitVec, hbits]
    simp
  have hx := x.toNat_lt
  rw [hnat, Nat.shiftRight_eq_div_pow, Nat.shiftLeft_eq]
  omega

/-- The shift of a byte in its word is eight times its place. -/
theorem toNat_shift (x : UInt64) : ((x &&& 3) * 8).toUInt32 = UInt32.ofNat (x.toNat % 4 * 8) := by
  apply UInt32.toNat_inj.mp
  have hand : (x &&& 3).toNat = x.toNat % 4 := by
    rw [UInt64.toNat_and]
    exact Nat.and_two_pow_sub_one_eq_mod _ 2
  rw [UInt64.toNat_toUInt32, UInt64.toNat_mul, hand, UInt32.toNat_ofNat']
  show x.toNat % 4 * 8 % 2 ^ 64 % 2 ^ 32 = _
  omega

/-- A byte of the memory by its address. -/
theorem byteAt_eq (a : Fin MEMORY_SIZE) : mem.byteAt a.val = mem a := dif_pos a.isLt

/-- Laying a word's own bytes over it, with one of them replaced, replaces that byte. -/
theorem overlay_word (start : ℕ) {j : ℕ} (hj : j < 4) (byte : UInt8) :
    mem.overlay start ([mem.byteAt start, mem.byteAt (start + 1), mem.byteAt (start + 2),
      mem.byteAt (start + 3)].set j byte) = mem.overlay (start + j) [byte] := by
  funext a
  rw [overlay_apply, overlay_apply, List.getElem?_set]
  have hbyte : mem.byteAt a.val = mem a := byteAt_eq a
  by_cases hstart : start ≤ a.val
  · rw [if_pos hstart]
    obtain ⟨i, hi⟩ := Nat.exists_eq_add_of_le hstart
    rw [hi] at hbyte ⊢
    rw [Nat.add_sub_cancel_left]
    by_cases hij : j = i
    · subst hij
      simp [hj]
    · rw [if_neg hij]
      have hright : (if start + j ≤ start + i then ([byte][start + i - (start + j)]?).getD (mem a)
          else mem a) = mem a := by
        split
        · rw [List.getElem?_eq_none (by simp; omega)]
          rfl
        · rfl
      rw [hright]
      match i, hbyte with
      | 0, hbyte => exact hbyte
      | 1, hbyte => exact hbyte
      | 2, hbyte => exact hbyte
      | 3, hbyte => exact hbyte
      | i + 4, _ => rfl
  · rw [if_neg hstart, if_neg (by omega)]

/-- **A byte stored through its word changes that byte only.**
SOURCE: core/src/sys/kernel.rs:215-220 -/
theorem storeByte_eq (byte : UInt8) :
    Kernel.storeByte emu mem offset byte = mem.overlay offset.toNat [byte] := by
  have hsize : MEMORY_SIZE = 4 * 0xC0000000 := rfl
  have halign := toNat_aligned offset
  unfold Kernel.storeByte
  by_cases hmapped : offset.toNat < MEMORY_SIZE
  · have hj : offset.toNat % 4 < 4 := Nat.mod_lt _ (by omega)
    have hroom : (offset &&& ~~~(3 : UInt64)).toNat + 4 ≤ MEMORY_SIZE := by
      omega
    have hsplit : offset.toNat / 4 * 4 + offset.toNat % 4 = offset.toNat := by
      omega
    simp only [toNat_shift]
    rw [writeU32_eq (.inl hroom), toLeBytes_replaceByte _ _ hj, readU32_of_mapped hroom,
      toLeBytes_fromLeBytes, halign, overlay_word _ hj, hsplit]
  · -- the word around a byte past the end is past the end
    have hpast : MEMORY_SIZE ≤ (offset &&& ~~~(3 : UInt64)).toNat := by
      omega
    rw [writeU32_eq (.inr hpast), overlay_past mem hpast,
      overlay_past mem (Nat.not_lt.mp hmapped)]

end Stores

/-! ## The loops -/

section Loops

variable (b : Build) (emu : Emulator) (vaddr : UInt64)

/-- The address of byte `n` of the code, in either build. -/
theorem address_of_fits {i j : ℕ} (h : vaddr.toNat + 4 * i + j < 2 ^ 64) :
    ∃ skip address : UInt64, b.mulU64 (UInt64.ofNat i) 4 = .ok skip ∧
      b.addU64 vaddr skip = .ok address ∧ address.toNat = vaddr.toNat + 4 * i := by
  have hfits : i < 2 ^ 64 := by omega
  have hi : (UInt64.ofNat i).toNat = i := UInt64.toNat_ofNat_of_lt' hfits
  have hmul : (UInt64.ofNat i).toNat * (4 : UInt64).toNat < 2 ^ 64 := by
    rw [hi]
    show i * 4 < 2 ^ 64
    omega
  have hskip : (UInt64.ofNat i * 4).toNat = 4 * i := by
    rw [toNat_mul_of_fits hmul, hi]
    exact Nat.mul_comm _ _
  have hadd : vaddr.toNat + (UInt64.ofNat i * 4).toNat < 2 ^ 64 := by omega
  refine ⟨_, _, Build.mulU64_of_fits hmul, Build.addU64_of_fits hadd, ?_⟩
  rw [toNat_add_of_fits hadd, hskip]

/-- SOURCE: core/src/sys/kernel.rs:211-221 -/
theorem loadByte_eq {i j : ℕ} {mem : SharedMemory} (byte : UInt8)
    (h : vaddr.toNat + 4 * i + j < 2 ^ 64) :
    Kernel.loadByte b emu vaddr i mem (byte, j) =
      .ok (mem.overlay (vaddr.toNat + 4 * i + j) [byte]) := by
  have hj : (UInt64.ofNat j).toNat = j := UInt64.toNat_ofNat_of_lt' (show j < 2 ^ 64 by omega)
  obtain ⟨skip, address, hskip, haddress, hnat⟩ :=
    address_of_fits b vaddr (i := i) (j := j) (by omega)
  have hadd : address.toNat + (UInt64.ofNat j).toNat < 2 ^ 64 := by omega
  have hoffset : (address + UInt64.ofNat j).toNat = vaddr.toNat + 4 * i + j := by
    rw [toNat_add_of_fits hadd, hnat, hj]
  unfold Kernel.loadByte
  simp only [hskip, haddress, ok_bind, Build.addU64_of_fits hadd]
  rw [storeByte_eq, hoffset]
  rfl

/-- By induction on the bytes that are left of the last chunk. -/
theorem loadBytes_eq (i : ℕ) (tail : List UInt8) (j : ℕ) (mem : SharedMemory)
    (h : vaddr.toNat + 4 * i + j + tail.length ≤ 2 ^ 64) :
    (tail.zipIdx j).foldlM (Kernel.loadByte b emu vaddr i) mem =
      .ok (mem.overlay (vaddr.toNat + 4 * i + j) tail) := by
  induction tail generalizing j mem with
  | nil =>
      rw [overlay_nil]
      rfl
  | cons byte tail ih =>
      rw [List.length_cons] at h
      have hjoin := overlay_append mem (vaddr.toNat + 4 * i + j) [byte] tail
      rw [List.zipIdx_cons, List.foldlM_cons, loadByte_eq b emu vaddr byte (by omega), ok_bind,
        ih (j + 1) _ (by omega), ← Nat.add_assoc]
      exact congrArg Except.ok hjoin

/-- By induction on the chunks: a word at an aligned address is mapped, or not mapped at all. -/
theorem loadChunks_eq (code : List UInt8) (i : ℕ) (mem : SharedMemory)
    (h : vaddr.toNat + 4 * i + code.length ≤ 2 ^ 64)
    (hwords : vaddr.toNat + 4 * i + code.length ≤ MEMORY_SIZE ∨ vaddr.toNat % 4 = 0) :
    ((Kernel.chunks code).zipIdx i).foldlM (Kernel.loadChunk b emu vaddr) mem =
      .ok (mem.overlay (vaddr.toNat + 4 * i) code) := by
  have hsize : MEMORY_SIZE = 4 * 0xC0000000 := rfl
  fun_induction Kernel.chunks code generalizing i mem with
  | case1 =>
      rw [overlay_nil]
      rfl
  | case2 b₀ b₁ b₂ b₃ rest ih =>
      simp only [List.length_cons] at h hwords
      obtain ⟨skip, address, hskip, haddress, hnat⟩ :=
        address_of_fits b vaddr (i := i) (j := 0) (by omega)
      have hjoin := overlay_append mem (vaddr.toNat + 4 * i) [b₀, b₁, b₂, b₃] rest
      rw [List.zipIdx_cons, List.foldlM_cons]
      simp only [Kernel.loadChunk, hskip, haddress, ok_bind]
      show ((Kernel.chunks rest).zipIdx (i + 1)).foldlM _ _ = _
      rw [writeU32_eq (by omega), hnat, toLeBytes_fromLeBytes,
        ih (i + 1) _ (by omega) (by omega)]
      exact congrArg Except.ok hjoin
  | case3 tail hnil hfour =>
      have hload := loadBytes_eq b emu vaddr i tail 0 mem h
      have hchunk : Kernel.loadChunk b emu vaddr mem (tail, i) =
          tail.zipIdx.foldlM (Kernel.loadByte b emu vaddr i) mem := by
        unfold Kernel.loadChunk
        split
        · next b₀ b₁ b₂ b₃ heq => exact absurd heq (hfour b₀ b₁ b₂ b₃ [])
        · rfl
      rw [List.zipIdx_cons, List.foldlM_cons, hchunk, hload]
      rfl

/-- **A load whose range is mapped lays the code over the memory there, and reports its
length.**
SOURCE: core/src/sys/kernel.rs:201-225 -/
theorem loadCode_eq (k : Kernel) {code : List UInt8}
    (h : vaddr.toNat + code.length ≤ MEMORY_SIZE) :
    k.loadCode b emu vaddr code = .ok (code.length,
      { k with cpu.sharedMemory := k.cpu.sharedMemory.overlay vaddr.toNat code }) := by
  have hsize : MEMORY_SIZE = 4 * 0xC0000000 := rfl
  unfold Kernel.loadCode
  rw [loadChunks_eq b emu vaddr code 0 k.cpu.sharedMemory (by omega) (.inl h)]
  rfl

/-- **A load to an aligned address lays what is mapped of the code over the memory.**
SOURCE: core/src/sys/kernel.rs:201-225 -/
theorem loadCode_aligned (k : Kernel) {code : List UInt8} (halign : vaddr.toNat % 4 = 0)
    (h : vaddr.toNat + code.length ≤ 2 ^ 64) :
    k.loadCode b emu vaddr code = .ok (code.length,
      { k with cpu.sharedMemory := k.cpu.sharedMemory.overlay vaddr.toNat code }) := by
  unfold Kernel.loadCode
  rw [loadChunks_eq b emu vaddr code 0 k.cpu.sharedMemory h (.inr halign)]
  rfl

end Loops

/-! ## What a load changes -/

/-- What an overlay holds inside its range. -/
theorem byteAt_overlay (mem : SharedMemory) {address i : ℕ} {bytes : List UInt8}
    (hi : i < bytes.length) (hmem : address + bytes.length ≤ MEMORY_SIZE) :
    (mem.overlay address bytes).byteAt (address + i) = bytes[i] := by
  have hin : address + i < MEMORY_SIZE := by omega
  unfold SharedMemory.byteAt
  rw [dif_pos hin, overlay_apply, if_pos (Nat.le_add_right address i), Nat.add_sub_cancel_left,
    List.getElem?_eq_getElem hi]
  rfl

/-- Bytes behind the range are as before. -/
theorem overlay_of_le (mem : SharedMemory) (address : ℕ) (bytes : List UInt8)
    {a : Fin MEMORY_SIZE} (h : address + bytes.length ≤ a.val) :
    mem.overlay address bytes a = mem a := by
  have hlen : bytes.length ≤ a.val - address := by omega
  rw [overlay_apply, if_pos (by omega), List.getElem?_eq_none hlen]
  rfl

/-- **A load stores the code in its range and changes no other byte.**
SOURCE: core/src/sys/kernel.rs:201-225 -/
theorem load_code_writes_its_range (b : Build) (emu : Emulator) (k : Kernel) (vaddr : UInt64)
    (code : List UInt8) (h : vaddr.toNat + code.length ≤ MEMORY_SIZE) :
    ∃ n k', k.loadCode b emu vaddr code = .ok (n, k') ∧
      (∀ i (hi : i < code.length),
        k'.cpu.sharedMemory.byteAt (vaddr.toNat + i) = code[i]) ∧
      ∀ a : Fin MEMORY_SIZE, a.val < vaddr.toNat ∨ vaddr.toNat + code.length ≤ a.val →
        k'.cpu.sharedMemory a = k.cpu.sharedMemory a := by
  refine ⟨_, _, loadCode_eq b emu vaddr k h, ?_, ?_⟩
  · intro i hi
    exact byteAt_overlay k.cpu.sharedMemory hi h
  · rintro a (hbelow | habove)
    · exact overlay_of_lt k.cpu.sharedMemory vaddr.toNat code hbelow
    · exact overlay_of_le k.cpu.sharedMemory vaddr.toNat code habove

/-- Seven bytes at an odd address: a word, and three bytes that end in the next but one. -/
theorem load_code_writes_its_range_odd :
    ∃ n k', Kernel.new.loadCode .debug stuckEmulator 0x80001 [1, 2, 3, 4, 5, 6, 7] =
        .ok (n, k') ∧
      (∀ i (hi : i < 7),
        k'.cpu.sharedMemory.byteAt (0x80001 + i) = [1, 2, 3, 4, 5, 6, 7][i]) ∧
      ∀ a : Fin MEMORY_SIZE, a.val < 0x80001 ∨ 0x80001 + 7 ≤ a.val →
        k'.cpu.sharedMemory a = 0 :=
  load_code_writes_its_range .debug stuckEmulator Kernel.new 0x80001 [1, 2, 3, 4, 5, 6, 7]
    (by decide)

/-! ## What a load reports -/

section Report

variable (b : Build) (emu : Emulator) (vaddr : UInt64) (code : List UInt8)

/-- Byte `i` of the code is stored: a load that returns leaves it at its address, whatever
memory held there before. -/
def StoredByLoad (i : ℕ) : Prop :=
  ∀ k n k', Kernel.loadCode b emu k vaddr code = .ok (n, k') →
    (vaddr + UInt64.ofNat i).toNat < MEMORY_SIZE ∧
      code[i]? = some (k'.cpu.sharedMemory.byteAt (vaddr + UInt64.ofNat i).toNat)

open Classical in
/-- The number of bytes of the code that a load stores. -/
noncomputable def storedBytes : ℕ :=
  ((Finset.range code.length).filter (StoredByLoad b emu vaddr code)).card

/-- A number reported by a load is the number of bytes stored, and a load that is reported
complete is complete. -/
structure CountsStored (n : ℕ) : Prop where
  count : n = storedBytes b emu vaddr code
  complete : n = code.length → ∀ i < code.length, StoredByLoad b emu vaddr code i

variable {b emu vaddr code}

/-- In a range that is mapped every byte is stored. -/
theorem storedByLoad_of_fits (h : vaddr.toNat + code.length ≤ MEMORY_SIZE) {i : ℕ}
    (hi : i < code.length) : StoredByLoad b emu vaddr code i := by
  have hsize : MEMORY_SIZE < 2 ^ 64 := by norm_num
  have hnat : (UInt64.ofNat i).toNat = i := UInt64.toNat_ofNat_of_lt' (show i < 2 ^ 64 by omega)
  have haddress : (vaddr + UInt64.ofNat i).toNat = vaddr.toNat + i := by
    rw [toNat_add_of_fits (by omega), hnat]
  intro k n k' hload
  rw [loadCode_eq b emu vaddr k h] at hload
  cases hload
  rw [haddress, byteAt_overlay k.cpu.sharedMemory hi h, List.getElem?_eq_getElem hi]
  exact ⟨by omega, rfl⟩

/-- When every byte is stored, all of them count. -/
theorem storedBytes_of_forall (h : ∀ i < code.length, StoredByLoad b emu vaddr code i) :
    storedBytes b emu vaddr code = code.length := by
  classical
  have hall : ∀ i ∈ Finset.range code.length, StoredByLoad b emu vaddr code i := by
    intro i hi
    exact h i (Finset.mem_range.mp hi)
  rw [storedBytes, Finset.filter_true_of_mem hall, Finset.card_range]

/-- A load that returns reports the length of the code. -/
theorem loadCode_reports {k k' : Kernel} {n : ℕ}
    (h : k.loadCode b emu vaddr code = .ok (n, k')) : n = code.length := by
  obtain ⟨mem, -, hreturn⟩ := bind_eq_ok h
  cases hreturn
  rfl

/-- A range that leaves the memory has a byte without an address there. -/
theorem exists_unmapped (hcode : code ≠ []) (h : MEMORY_SIZE < vaddr.toNat + code.length) :
    ∃ i < code.length, MEMORY_SIZE ≤ (vaddr + UInt64.ofNat i).toNat := by
  have hlen := List.length_pos_of_ne_nil hcode
  have hsize : MEMORY_SIZE < 2 ^ 64 := by norm_num
  by_cases hstart : MEMORY_SIZE ≤ vaddr.toNat
  · refine ⟨0, hlen, ?_⟩
    have hzero : vaddr + UInt64.ofNat 0 = vaddr := UInt64.add_zero vaddr
    rw [hzero]
    exact hstart
  · have hnat : (UInt64.ofNat (MEMORY_SIZE - vaddr.toNat)).toNat = MEMORY_SIZE - vaddr.toNat :=
      UInt64.toNat_ofNat_of_lt' (show MEMORY_SIZE - vaddr.toNat < 2 ^ 64 by omega)
    refine ⟨MEMORY_SIZE - vaddr.toNat, by omega, ?_⟩
    rw [toNat_add_of_fits (by omega), hnat]
    omega

/-- A reported number is right when the range is mapped. -/
theorem countsStored_of_fits (h : code = [] ∨ vaddr.toNat + code.length ≤ MEMORY_SIZE) :
    CountsStored b emu vaddr code code.length := by
  have hall : ∀ i < code.length, StoredByLoad b emu vaddr code i := by
    intro i hi
    rcases h with rfl | hfits
    · exact absurd hi (Nat.not_lt_zero i)
    · exact storedByLoad_of_fits hfits hi
  exact ⟨(storedBytes_of_forall hall).symm, fun _ => hall⟩

/-- A load that reports what it stored had nothing to store, or a mapped range. -/
theorem fits_of_countsStored {k k' : Kernel} {n : ℕ}
    (hload : k.loadCode b emu vaddr code = .ok (n, k')) (h : CountsStored b emu vaddr code n) :
    code = [] ∨ vaddr.toNat + code.length ≤ MEMORY_SIZE := by
  by_contra hout
  rw [not_or, Nat.not_le] at hout
  obtain ⟨i, hi, hunmapped⟩ := exists_unmapped hout.1 hout.2
  have hstored := h.complete (loadCode_reports hload) i hi k n k' hload
  omega

/-- Loading no code does nothing and reports zero. -/
theorem loadCode_nil (k : Kernel) : k.loadCode b emu vaddr [] = .ok (0, k) := rfl

/-- **The number that a load reports is the number of bytes it stored exactly when its range
is mapped.**  A debug build panics where the range wraps around the address space, and then
reports nothing.
SOURCE: core/src/sys/kernel.rs:201-225, core/src/cpu/unicorn_interface.rs:224-240 -/
theorem load_code_counts_stored_iff (b : Build) (emu : Emulator) (k : Kernel) (vaddr : UInt64)
    (code : List UInt8) :
    ((∃ n k', k.loadCode b emu vaddr code = .ok (n, k') ∧ CountsStored b emu vaddr code n) ↔
      code = [] ∨ vaddr.toNat + code.length ≤ MEMORY_SIZE) ∧
    ∀ n k', k.loadCode b emu vaddr code = .ok (n, k') →
      (CountsStored b emu vaddr code n ↔ code = [] ∨ vaddr.toNat + code.length ≤ MEMORY_SIZE) := by
  constructor
  · constructor
    · rintro ⟨n, k', hload, hcounts⟩
      exact fits_of_countsStored hload hcounts
    · intro h
      have hcounts : CountsStored b emu vaddr code code.length := countsStored_of_fits h
      rcases h with rfl | hfits
      · exact ⟨0, k, loadCode_nil k, hcounts⟩
      · exact ⟨_, _, loadCode_eq b emu vaddr k hfits, hcounts⟩
  · intro n k' hload
    constructor
    · exact fits_of_countsStored hload
    · intro h
      rw [loadCode_reports hload]
      exact countsStored_of_fits h

/-- Seven bytes at an odd address are seven bytes stored. -/
theorem load_code_counts_stored_iff_odd :
    ∃ k', Kernel.new.loadCode .debug stuckEmulator 0x80001 [1, 2, 3, 4, 5, 6, 7] = .ok (7, k') ∧
      CountsStored .debug stuckEmulator 0x80001 [1, 2, 3, 4, 5, 6, 7] 7 := by
  have hfits : (0x80001 : UInt64).toNat + ([1, 2, 3, 4, 5, 6, 7] : List UInt8).length ≤
      MEMORY_SIZE := by decide
  have hload := loadCode_eq .debug stuckEmulator 0x80001 Kernel.new hfits
  obtain ⟨-, hcounts⟩ := load_code_counts_stored_iff .debug stuckEmulator Kernel.new 0x80001
    [1, 2, 3, 4, 5, 6, 7]
  exact ⟨_, hload, (hcounts _ _ hload).mpr (.inr hfits)⟩

/-- A word that straddles the end of memory is refused, and reported as four bytes. -/
theorem straddling_load_miscounts :
    Kernel.new.loadCode .release stuckEmulator 0x2FFFFFFFE [1, 2, 3, 4] = .ok (4, Kernel.new) ∧
      ¬ CountsStored .release stuckEmulator 0x2FFFFFFFE [1, 2, 3, 4] 4 := by
  have hload : Kernel.new.loadCode .release stuckEmulator 0x2FFFFFFFE [1, 2, 3, 4] =
      .ok (4, Kernel.new) := rfl
  refine ⟨hload, ?_⟩
  intro hcounts
  rcases fits_of_countsStored hload hcounts with hnil | hfits
  · cases hnil
  · exact absurd hfits (by decide)

end Report

end Oboromi.Analysis
