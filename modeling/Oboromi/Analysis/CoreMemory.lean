import Oboromi.Analysis.CodeLoading
import Oboromi.Interface.CoreMemory

/-!
# The memory the cores share is one log of writes

A write lays its bytes over the memory where the log puts them (`byteAt_write`), and a read takes
as many of them (`toNat_readU32`, `toNat_readU64`), so every call keeps the memory that of the
log (`perform_onLog`), through whatever core it comes.
-/

set_option autoImplicit false

namespace Oboromi.Analysis

open Oboromi.Lib Oboromi.Model Oboromi.Interface

variable {emu : Emulator} {mem : SharedMemory} {initial : ℕ → UInt8} {log : MemoryLog}

/-- There is nothing past the end of memory. -/
theorem byteAt_of_le (mem : SharedMemory) {a : ℕ} (h : MEMORY_SIZE ≤ a) : mem.byteAt a = 0 :=
  dif_neg (Nat.not_lt.mpr h)

/-- An overlay holds the bytes of the write, and else what was there. -/
theorem byteAt_overlay_byte (mem : SharedMemory) {address : ℕ} {bytes : List UInt8}
    (h : address + bytes.length ≤ MEMORY_SIZE) (a : ℕ) :
    (mem.overlay address bytes).byteAt a =
      ((⟨address, bytes⟩ : MemoryWrite).byte a).getD (mem.byteAt a) := by
  unfold MemoryWrite.byte
  by_cases ha : a < MEMORY_SIZE
  · have hbyte : mem.byteAt a = mem ⟨a, ha⟩ := dif_pos ha
    unfold SharedMemory.byteAt at hbyte ⊢
    rw [dif_pos ha, dif_pos ha, overlay_apply]
    split <;> rfl
  · have hout := Nat.not_lt.mp ha
    have hstart : address ≤ a := by omega
    have hend : bytes.length ≤ a - address := by omega
    rw [byteAt_of_le _ hout, byteAt_of_le _ hout, if_pos hstart, List.getElem?_eq_none hend]
    rfl

/-- A write does to the memory what its record does to the log. -/
theorem byteAt_write (h : ∀ a, mem.byteAt a = latest initial log a) (vaddr : UInt64)
    (bytes : List UInt8) (a : ℕ) :
    (emu.memWrite mem vaddr bytes).byteAt a =
      latest initial (recordWrite log vaddr bytes) a := by
  unfold recordWrite
  split
  · next hfits =>
    rw [emu.memWrite_mapped mem vaddr bytes hfits, byteAt_overlay_byte mem hfits, h a]
    rfl
  · next hout =>
    rw [emu.memWrite_unmapped mem vaddr bytes (Nat.not_le.mp hout)]
    exact h a

/-- A 32-bit read is the number of four bytes of the log. -/
theorem toNat_readU32 (h : ∀ a, mem.byteAt a = latest initial log a) (vaddr : UInt64) :
    (UnicornCPU.readU32 emu mem vaddr).toNat = readLog initial log vaddr 4 := by
  unfold readLog
  split
  · next hmapped =>
    rw [readU32_of_mapped hmapped, toNat_fromLeBytes, h, h, h, h]
    rfl
  · next hout =>
    unfold UnicornCPU.readU32
    rw [emu.memRead_unmapped mem vaddr 4 (by decide) (Nat.not_le.mp hout)]
    rfl

/-- A 64-bit read is the number of eight bytes of the log. -/
theorem toNat_readU64 (h : ∀ a, mem.byteAt a = latest initial log a) (vaddr : UInt64) :
    (UnicornCPU.readU64 emu mem vaddr).toNat = readLog initial log vaddr 8 := by
  unfold readLog
  split
  · next hmapped =>
    have hbytes : (Vector.ofFn fun i : Fin 8 => mem.byteAt (vaddr.toNat + i)).toList =
        (List.range 8).map fun i => latest initial log (vaddr.toNat + i) := by
      simp only [h]
      rfl
    have hlt := leNat_lt ((List.range 8).map fun i => latest initial log (vaddr.toNat + i))
    rw [List.length_map, List.length_range] at hlt
    unfold UnicornCPU.readU64
    rw [emu.memRead_mapped mem vaddr 8 hmapped]
    show (UInt64.ofNat (leNat (Vector.ofFn _).toList)).toNat = _
    rw [hbytes, UInt64.toNat_ofNat', Nat.mod_eq_of_lt (hlt.trans_eq (by decide))]
  · next hout =>
    unfold UnicornCPU.readU64
    rw [emu.memRead_unmapped mem vaddr 8 (by decide) (Nat.not_le.mp hout)]
    rfl

/-- The cores, and the memory as the log has it. -/
def Logged (m₀ : CpuManager) (m : CpuManager) (log : MemoryLog) : Prop :=
  m.cores = m₀.cores ∧ ∀ a, m.sharedMemory.byteAt a = latest m₀.sharedMemory.byteAt log a

/-- By the call. -/
theorem perform_onLog {m₀ m : CpuManager} (c : CoreCall) (h : Logged m₀ m log) :
    (c.perform emu m).1 = (c.onLog m₀.sharedMemory.byteAt log).1 ∧
      Logged m₀ (c.perform emu m).2 (c.onLog m₀.sharedMemory.byteAt log).2 := by
  obtain ⟨hcores, hbytes⟩ := h
  unfold CoreCall.perform CoreCall.onLog CpuManager.getCore
  by_cases hcore : c.core < CORE_COUNT
  · rw [Vector.getElem?_eq_getElem hcore, if_pos hcore]
    cases c.call with
    | writeU32 vaddr value =>
      refine ⟨rfl, hcores, fun a => ?_⟩
      show (emu.memWrite m.sharedMemory vaddr (toLeBytes value)).byteAt a = _
      rw [toLeBytes_eq_leDigits]
      exact byteAt_write hbytes vaddr (leDigits 4 value.toNat) a
    | readU32 vaddr => exact ⟨congrArg some (toNat_readU32 hbytes vaddr), hcores, hbytes⟩
    | writeU64 vaddr value =>
      exact ⟨rfl, hcores, byteAt_write hbytes vaddr (leDigits 8 value.toNat)⟩
    | readU64 vaddr => exact ⟨congrArg some (toNat_readU64 hbytes vaddr), hcores, hbytes⟩
  · rw [Vector.getElem?_eq_none (Nat.not_lt.mp hcore), if_neg hcore]
    exact ⟨rfl, hcores, hbytes⟩

/-- **Whatever cores and widths the calls come by, every read returns the number of the bytes that
were written there last, and nothing else changes.**
SOURCE: core/src/cpu/unicorn_interface.rs:224-258, core/src/cpu/cpu_manager.rs:20-60 -/
theorem core_memory_is_log (emu : Emulator) (m : CpuManager) (calls : List CoreCall) :
    (runSteps (CoreCall.perform emu) calls m).1 =
        (runSteps (CoreCall.onLog m.sharedMemory.byteAt) calls []).1 ∧
      (runSteps (CoreCall.perform emu) calls m).2.cores = m.cores ∧
      ∀ a, (runSteps (CoreCall.perform emu) calls m).2.sharedMemory.byteAt a =
        latest m.sharedMemory.byteAt
          (runSteps (CoreCall.onLog m.sharedMemory.byteAt) calls []).2 a := by
  have hstart : Logged m m [] := ⟨rfl, fun _ => rfl⟩
  have hstep : ∀ (c : CoreCall) (m' : CpuManager) (log : MemoryLog), True → Logged m m' log →
      id (c.perform emu m').1 = id (c.onLog m.sharedMemory.byteAt log).1 ∧
        Logged m (c.perform emu m').2 (c.onLog m.sharedMemory.byteAt log).2 :=
    fun c _ _ _ h => perform_onLog c h
  obtain ⟨houts, hend⟩ := runSteps_simulates hstep calls (fun _ _ => trivial) hstart
  rw [List.map_id, List.map_id] at houts
  exact ⟨houts, hend⟩

end Oboromi.Analysis
