import Oboromi.Analysis.SchedulerStep

/-!
# What a supervisor call leaves in the guest's registers

The dispatcher writes at most one register, with a value that does not depend on the
registers (`dispatch_cases`).  Its caller then puts the result code into X0 for every call, so
an output in X0 survives only where it is the result code itself.
-/

set_option autoImplicit false

namespace Oboromi.Analysis

open Oboromi.Lib Oboromi.Model

/-! ## The outputs of a call -/

/-- The dispatcher puts a value into a register, whatever the registers hold. -/
def Outputs (now : ℕ) (id : UInt8) (r : Fin 31) (value : UInt64) : Prop :=
  ∀ x, (Svc.dispatch now id x).2.get r = value

/-- What the guest reads back after a call: the outputs where the dispatcher put them, the
result code in X0 unless an output belongs there, and the registers past X1 as they were. -/
structure OutputsReach (now : ℕ) (id : UInt8) (before after : UnicornCPU) : Prop where
  outputs : ∀ r value, Outputs now id r value → after.getX r = value
  result : (∀ value, ¬ Outputs now id 0 value) →
    after.getX 0 = (Svc.dispatch now id before.regs.x).1.toUInt64
  others : ∀ r : Fin 31, 2 ≤ r.val → after.getX r = before.getX r

/-! ## The dispatcher -/

/-- The processor number has call number 0x10. -/
theorem fromU8_getCurrentProcessorNumber {id : UInt8}
    (h : SvcId.fromU8 id = some .getCurrentProcessorNumber) : id = 0x10 := by
  unfold SvcId.fromU8 at h
  split at h
  all_goals cases h
  exact UInt8.toNat_inj.mp ‹_›

/-- The system tick has call number 0x1E. -/
theorem fromU8_getSystemTick {id : UInt8} (h : SvcId.fromU8 id = some .getSystemTick) :
    id = 0x1E := by
  unfold SvcId.fromU8 at h
  split at h
  all_goals cases h
  exact UInt8.toNat_inj.mp ‹_›

/-- The call with the given number succeeds and writes nothing but the given registers. -/
def Writes (now : ℕ) (id : UInt8) (write : Svc.Registers → Svc.Registers) : Prop :=
  ∀ x, Svc.dispatch now id x = (SUCCESS, write x)

/-- What a call can do: nothing, an output in X1, or one of the two outputs in X0. -/
theorem dispatch_cases (now : ℕ) (id : UInt8) :
    Writes now id (fun x => x) ∨ (∃ value, Writes now id fun x => put x 1 value) ∨
      (id = 0x10 ∧ Writes now id fun x => put x 0 0) ∨
      (id = 0x1E ∧ Writes now id fun x => put x 0 (Svc.tick now)) := by
  unfold Writes Svc.dispatch
  cases h : SvcId.fromU8 id with
  | none => exact .inl fun x => rfl
  | some svc =>
      cases svc
      case getCurrentProcessorNumber =>
        exact .inr (.inr (.inl ⟨fromU8_getCurrentProcessorNumber h, fun x => rfl⟩))
      case getSystemTick => exact .inr (.inr (.inr ⟨fromU8_getSystemTick h, fun x => rfl⟩))
      all_goals first
        | exact .inl fun x => rfl
        | exact .inr (.inl ⟨_, fun x => rfl⟩)

section Outputs

variable {now : ℕ} {id : UInt8} {r : Fin 31} {value : UInt64}

/-- A register that is left alone is not an output. -/
theorem not_outputs_of_kept (h : ∀ x, (Svc.dispatch now id x).2.get r = x.get r) :
    ¬ Outputs now id r value := by
  intro hout
  have hvalue := hout (Vector.replicate 31 (value + 1))
  rw [h] at hvalue
  have hentry : (Vector.replicate 31 (value + 1)).get r = value + 1 :=
    Vector.getElem_replicate r.isLt
  rw [hentry] at hvalue
  have hsum : value + 1 = value + 0 := hvalue.trans (UInt64.add_zero value).symm
  exact absurd (UInt64.add_right_inj value |>.mp hsum) (by decide)

/-- The one register a call writes is its one output. -/
theorem outputs_of_put {r₀ : Fin 31} {value₀ : UInt64}
    (h : Writes now id fun x => put x r₀ value₀) :
    Outputs now id r value ↔ r = r₀ ∧ value = value₀ := by
  constructor
  · intro hout
    by_cases hr : r = r₀
    · subst hr
      have hvalue := hout (Vector.replicate 31 0)
      rw [h, get_put_self] at hvalue
      exact ⟨rfl, hvalue.symm⟩
    · refine absurd hout (not_outputs_of_kept ?_)
      intro x
      rw [h]
      exact get_put_of_ne x value₀ hr
  · rintro ⟨rfl, rfl⟩ x
    rw [h]
    exact get_put_self x r value

end Outputs

/-- Every call succeeds. -/
theorem dispatch_success (now : ℕ) (id : UInt8) (x : Svc.Registers) :
    (Svc.dispatch now id x).1 = SUCCESS := by
  rcases dispatch_cases now id with h | ⟨_, h⟩ | ⟨-, h⟩ | ⟨-, h⟩
  all_goals rw [h]

/-- No call writes a register past X1. -/
theorem dispatch_keeps (now : ℕ) (id : UInt8) (x : Svc.Registers) {r : Fin 31}
    (hr : 2 ≤ r.val) : (Svc.dispatch now id x).2.get r = x.get r := by
  have hzero : r ≠ 0 := by
    rintro rfl
    exact absurd hr (by decide)
  have hone : r ≠ 1 := by
    rintro rfl
    exact absurd hr (by decide)
  rcases dispatch_cases now id with h | ⟨_, h⟩ | ⟨-, h⟩ | ⟨-, h⟩
  · rw [h]
  · rw [h, get_put_of_ne x _ hone]
  · rw [h, get_put_of_ne x _ hzero]
  · rw [h, get_put_of_ne x _ hzero]

/-- The clock is the only call whose output in X0 may be something else than zero. -/
theorem outputs_zero_iff (now : ℕ) (id : UInt8) :
    (∀ value, Outputs now id 0 value → value = 0) ↔ ¬ (id = 0x1E ∧ Svc.tick now ≠ 0) := by
  constructor
  · rintro hzero ⟨rfl, htick⟩
    exact htick (hzero (Svc.tick now) fun x => get_put_self x 0 (Svc.tick now))
  · intro h value hout
    rcases dispatch_cases now id with hw | ⟨_, hw⟩ | ⟨-, hw⟩ | ⟨hid, hw⟩
    · exact absurd hout (not_outputs_of_kept fun x => by rw [hw])
    · exact absurd ((outputs_of_put hw).mp hout).1 (by decide)
    · exact ((outputs_of_put hw).mp hout).2
    · rw [((outputs_of_put hw).mp hout).2]
      by_contra htick
      exact h ⟨hid, htick⟩

/-- The tick is zero for the first 52 nanoseconds of each wrap of the clock. -/
theorem tick_eq_zero_iff (now : ℕ) : Svc.tick now = 0 ↔ now % 2 ^ 64 < 52 := by
  have hnat : (Svc.tick now).toNat = now % 2 ^ 64 / 52 := by
    unfold Svc.tick
    rw [UInt64.toNat_div, UInt64.toNat_ofNat']
    rfl
  rw [← UInt64.toNat_inj, hnat]
  exact Nat.div_eq_zero_iff_lt (by decide)

/-! ## The handler -/

/-- The core after a call: the dispatcher's registers, with the result code in X0. -/
def answered (now : ℕ) (id : UInt8) (core : UnicornCPU) : UnicornCPU :=
  let r := Svc.dispatch now id core.regs.x
  { core with regs := { core.regs with x := put r.2 Svc.X0 r.1.toUInt64 } }

/-- The handler changes the trapping core only.
SOURCE: core/src/sys/kernel.rs:182-197 -/
theorem handleSvc_eq (now : ℕ) (k : Kernel) (coreId : Fin CORE_COUNT) (svcNum : UInt8) :
    k.handleSvc now coreId svcNum = .ok { k with
      cpu.cores := put k.cpu.cores coreId (answered now svcNum (k.cpu.cores.get coreId)) } := by
  have hregs (core : UnicornCPU) :
      (List.finRange 31).foldl (fun regs (r : Fin 31) => put regs r (core.getX r))
        (Vector.replicate 31 0) = core.regs.x := by
    have hx : (fun r : Fin 31 => core.getX r) = core.regs.x.get := by
      funext r
      exact getX_eq core r
    rw [foldl_put, hx, ofFn_get]
  unfold Kernel.handleSvc
  rw [dif_pos coreId.isLt]
  dsimp only
  rw [hregs, foldl_setX]
  rfl

section Answered

variable {now : ℕ} {id : UInt8} {core : UnicornCPU}

/-- An answered call returns success. -/
theorem answered_result : (answered now id core).getX 0 = 0 := by
  have hzero : (answered now id core).getX (0 : Fin 31) =
      (Svc.dispatch now id core.regs.x).1.toUInt64 := by
    rw [getX_eq]
    exact get_put_self _ 0 _
  rw [dispatch_success] at hzero
  exact hzero

/-- Past X0 the guest sees what the dispatcher left. -/
theorem answered_of_ne {r : Fin 31} (hr : r ≠ 0) :
    (answered now id core).getX r = (Svc.dispatch now id core.regs.x).2.get r := by
  rw [getX_eq]
  exact get_put_of_ne _ _ hr

/-- The outputs reach the guest exactly when the one in X0, if any, is the result code. -/
theorem outputsReach_answered_iff :
    OutputsReach now id core (answered now id core) ↔
      ∀ value, Outputs now id 0 value → value = 0 := by
  constructor
  · intro h value hout
    exact (h.outputs 0 value hout).symm.trans answered_result
  · intro hzero
    refine ⟨?_, ?_, ?_⟩
    · intro r value hout
      by_cases hr : r = 0
      · subst hr
        rw [hzero value hout]
        exact answered_result
      · rw [answered_of_ne hr]
        exact hout core.regs.x
    · intro _
      rw [dispatch_success]
      exact answered_result
    · intro r hr
      have hne : r ≠ 0 := by
        rintro rfl
        exact absurd hr (by decide)
      rw [answered_of_ne hne, dispatch_keeps now id core.regs.x hr, getX_eq]

end Answered

/-- **The outputs of a call reach the guest exactly when the call is not the clock, or the
clock reads zero.**
SOURCE: core/src/sys/kernel.rs:176-197, core/src/sys/svc.rs:163-304 -/
theorem svc_outputs_reach_guest_iff (now : ℕ) (k : Kernel) (coreId : Fin CORE_COUNT)
    (svcNum : UInt8) :
    ∃ k', k.handleSvc now coreId svcNum = .ok k' ∧
      (OutputsReach now svcNum (k.cpu.cores.get coreId) (k'.cpu.cores.get coreId) ↔
        ¬ (svcNum = 0x1E ∧ 52 ≤ now % 2 ^ 64)) := by
  refine ⟨_, handleSvc_eq now k coreId svcNum, ?_⟩
  dsimp only
  rw [get_put_self, outputsReach_answered_iff, outputs_zero_iff, Ne, tick_eq_zero_iff, not_lt]

/-- One second after the epoch the clock's tick is 19230769, and the guest reads 0. -/
theorem system_tick_lost :
    Outputs 1000000000 0x1E 0 19230769 ∧
      ∃ k', Kernel.new.handleSvc 1000000000 0 0x1E = .ok k' ∧
        (k'.cpu.cores.get 0).getX 0 = 0 ∧
        ¬ OutputsReach 1000000000 0x1E (Kernel.new.cpu.cores.get 0) (k'.cpu.cores.get 0) := by
  have hout : Outputs 1000000000 0x1E 0 19230769 := fun x => get_put_self x 0 _
  refine ⟨hout, _, handleSvc_eq 1000000000 Kernel.new 0 0x1E, ?_⟩
  dsimp only
  rw [get_put_self]
  refine ⟨answered_result, ?_⟩
  intro h
  exact absurd (outputsReach_answered_iff.mp h 19230769 hout) (by decide)

end Oboromi.Analysis
