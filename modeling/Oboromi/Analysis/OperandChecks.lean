import Oboromi.Analysis.ShaderEmission

/-!
# The operand checks of `al2p`

Three checks bound the two register fields: `al2p` lets every source register through
(`source_check_passes`), `load_reg` and `store_reg` turn 254 away.  The destination is
checked last, when the sum has been emitted.
-/

set_option autoImplicit false

namespace Oboromi.Analysis.Sm86

open Oboromi.Lib
open Oboromi.Model.Spirv
open Oboromi.Model.Sm86
open Oboromi.Interface.Spirv
open Oboromi.Interface.Sm86
open Oboromi.Analysis.Spirv

/-- What passes the checks of `al2p` is translated, and what does not leaves nothing behind. -/
structure ChecksSuffice (build : Build) (d : Decoder) (inst : BitVec 128) : Prop where
  completes : field inst 74 2 = 0 → field inst 24 8 ≤ MAX_REG_COUNT ∨ field inst 24 8 = 255 →
    ∃ d', (al2p build inst).run d = (.ok (), d')
  appendsNothing : ∀ e d', (al2p build inst).run d = (.error e, d') → d'.ir.words = d.ir.words

section Failures

variable (build : Build) (d : Decoder) {inst : BitVec 128}

/-- The check of the operand size comes first. -/
theorem al2p_size_panics (hbop : field inst 74 2 ≠ 0) :
    (al2p build inst).run d = (.error .panic, d) := by
  rw [al2p_eq]
  exact Sys.run_bind_error (Sys.run_assert_of_not hbop d) _

/-- `al2p` panics on a source that is no register when its predicate field is zero. -/
theorem al2p_source_panics (hbop : field inst 74 2 = 0) (hra : ¬ IsRegister (field inst 24 8)) :
    (al2p build inst).run d = (.error .panic, d) := by
  have hsum : (al2pSum build inst).run d = (.error .panic, d) :=
    Sys.run_bind_error (loadReg_panics build d hra) _
  rw [al2p_eq, Sys.run_bind_ok (Sys.run_assert hbop d)]
  exact Sys.run_bind_error hsum _

/-- The destination is turned away behind the sum. -/
theorem al2p_destination_panics (hbop : field inst 74 2 = 0)
    (hra : IsRegister (field inst 24 8)) (hroom : Room build d.ir.nextId 3)
    (hrd : ¬ IsRegister (field inst 16 8)) :
    (al2p build inst).run d = (.error .panic, summed d inst) := by
  have hsum := (al2pSum_returns build d inst).run ⟨hra, hroom⟩
  rw [al2p_eq, Sys.run_bind_ok (Sys.run_assert hbop d), Sys.run_bind_ok hsum]
  exact storeReg_panics (summed d inst) hrd (d.ir.nextId + 1 + 1)

end Failures

/-- Of the values of an eight-bit field only 254 names no register. -/
theorem isRegister_field_iff (inst : BitVec 128) (pos : ℕ) :
    IsRegister (field inst pos 8) ↔ field inst pos 8 ≠ 254 := by
  have hlt : field inst pos 8 < 2 ^ 8 := (inst.extractLsb' pos 8).isLt
  unfold IsRegister
  omega

/-- **The operand checks suffice exactly for the words that name no register 254**, and while
three ids are left.
SOURCE: core/src/gpu/sm86.rs:241-284 -/
theorem al2p_checks_suffice_iff (build : Build) (d : Decoder) (inst : BitVec 128) :
    ChecksSuffice build d inst ↔
      (field inst 74 2 = 0 →
        field inst 24 8 ≠ 254 ∧ field inst 16 8 ≠ 254 ∧ Room build d.ir.nextId 3) := by
  rw [← isRegister_field_iff, ← isRegister_field_iff]
  constructor
  · intro h hbop
    obtain ⟨d', hrun⟩ := h.completes hbop (source_check_passes inst)
    obtain ⟨⟨-, ⟨hra, hroom⟩, hrd⟩, -⟩ := (al2p_returns build d inst () d').mp hrun
    exact ⟨hra, hrd, hroom⟩
  · intro h
    constructor
    · intro hbop _
      obtain ⟨hra, hrd, hroom⟩ := h hbop
      exact ⟨_, (al2p_returns build d inst).run ⟨hbop, ⟨hra, hroom⟩, hrd⟩⟩
    · intro e d' hrun
      by_cases hbop : field inst 74 2 = 0
      · obtain ⟨hra, hrd, hroom⟩ := h hbop
        rw [(al2p_returns build d inst).run ⟨hbop, ⟨hra, hroom⟩, hrd⟩] at hrun
        cases hrun
      · rw [al2p_size_panics build d hbop] at hrun
        cases hrun
        rfl

/-- The sum is thirteen words. -/
theorem length_summed (d : Decoder) (inst : BitVec 128) :
    (summed d inst).ir.words.length = d.ir.words.length + 13 := by
  have hload (reg : ℕ) : (loadInst d.u32 d.regs reg d.ir.nextId).operands.length = 3 := by
    unfold loadInst
    split
    · rfl
    · rfl
  unfold summed extend sumInsts
  simp [hload, Inst.words]

/-- After `init`, `%r254 := %r0 + 0` panics behind three instructions, and `%r0 := %r254 + 0`
panics. -/
theorem register_254_passes_checks :
    ∃ d, (init .debug).run (Decoder.zeroed Emitter.new) = (.ok (), d) ∧
      (∃ d', (al2p .debug 0xFE0920).run d = (.error .panic, d') ∧
        d'.ir.words.length = d.ir.words.length + 13) ∧
      (al2p .debug 0xFE000920).run d = (.error .panic, d) ∧
      ¬ ChecksSuffice .debug d 0xFE0920 ∧ ¬ ChecksSuffice .debug d 0xFE000920 := by
  have hfits : (Decoder.zeroed Emitter.new).ir.nextId.toNat + 304 < 2 ^ 32 := by decide
  have hnext := toNat_nextId_initialised hfits
  have hroom : Room .debug (initialised (Decoder.zeroed Emitter.new)).ir.nextId 3 := by
    refine .inr ?_
    rw [hnext]
    decide
  have hinit := (init_returns (Decoder.zeroed Emitter.new) .debug).run (.inr hfits)
  generalize initialised (Decoder.zeroed Emitter.new) = d at hinit hroom
  have hdestination : (al2p .debug 0xFE0920).run d = (.error .panic, summed d 0xFE0920) :=
    al2p_destination_panics .debug d (by decide) (.inl (by decide)) hroom
      ((isRegister_field_iff _ _).not.mpr (by decide))
  have hsource : (al2p .debug 0xFE000920).run d = (.error .panic, d) :=
    al2p_source_panics .debug d (by decide) ((isRegister_field_iff _ _).not.mpr (by decide))
  refine ⟨d, hinit, ⟨_, hdestination, length_summed d _⟩, hsource, ?_, ?_⟩
  · intro h
    obtain ⟨d', hrun⟩ := h.completes (by decide) (source_check_passes _)
    rw [hdestination] at hrun
    cases hrun
  · intro h
    obtain ⟨d', hrun⟩ := h.completes (by decide) (source_check_passes _)
    rw [hsource] at hrun
    cases hrun

end Oboromi.Analysis.Sm86
