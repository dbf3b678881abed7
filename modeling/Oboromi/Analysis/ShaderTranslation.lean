import Oboromi.Analysis.ShaderEmission
import Oboromi.Analysis.SpirvExecution

/-!
# The translation keeps the meaning of registers

Executing the instructions that a list of implemented instructions appends simulates the
register file: `Represents` says that the register variables hold the registers and that
everything defined is below the next free id, so a fresh id is never in use.

The simulation needs the ids not to run out.  When they do, a release build goes on with ids
that are in use (`exhausted_ids_are_redefined`).
-/

set_option autoImplicit false

namespace Oboromi.Analysis.Sm86

open Oboromi.Lib
open Oboromi.Model.Spirv
open Oboromi.Model.Sm86
open Oboromi.Interface.Spirv
open Oboromi.Interface.Sm86
open Oboromi.Analysis.Spirv

/-! ## What the instructions do -/

/-- The register variables hold the registers, and whatever is defined is below the next free
id. -/
structure Represents (vars : Vector UInt32 MAX_REG_COUNT) (next : UInt32) (m : Machine)
    (regs : Registers) : Prop where
  contents : ∀ r : Fin MAX_REG_COUNT, m.contents (vars.get r) = some (regs r)
  fresh : ∀ id, m.Defines id → id < next

section Simulation

variable (u32 : UInt32) {vars : Vector UInt32 MAX_REG_COUNT} {next : UInt32} {m : Machine}
  {regs : Registers}

/-- The next id can be defined. -/
theorem Represents.define (h : Represents vars next m regs) (v : UInt32) :
    m.define next v = some (m.setValue next v) :=
  define_of_fresh (fun hdef => UInt32.lt_irrefl next (h.fresh next hdef)) v

/-- A fresh id takes a value and the registers stay. -/
theorem Represents.setValue (h : Represents vars next m regs) (hroom : next.toNat + 1 < 2 ^ 32)
    (v : UInt32) : Represents vars (next + 1) (m.setValue next v) regs := by
  refine ⟨h.contents, ?_⟩
  intro id hid
  rw [UInt32.lt_iff_toNat_lt, toNat_succ hroom]
  rcases (setValue_defines_iff m next v id).mp hid with rfl | hbefore
  · exact Nat.lt_succ_self _
  · have hlt := UInt32.lt_iff_toNat_lt.mp (h.fresh id hbefore)
    omega

/-- A variable changes: its register is written, the others stay because their variables are
distinct. -/
theorem Represents.setVariable (h : Represents vars next m regs)
    (hvars : Function.Injective vars.get) {reg : ℕ}
    (hreg : reg < MAX_REG_COUNT) (v : UInt32) :
    Represents vars next (m.setVariable vars[reg] v) (regs.write reg v) := by
  constructor
  · intro r
    unfold Registers.write
    change (if vars.get r = vars[reg] then some v else m.contents (vars.get r)) = _
    by_cases hr : r.val = reg
    · have hsame : vars.get r = vars[reg] := by
        subst hr
        rfl
      rw [if_pos hsame, if_pos hr]
    · have hne : vars.get r ≠ vars[reg] := by
        intro heq
        have hfin : r = ⟨reg, hreg⟩ := hvars heq
        exact hr (congrArg Fin.val hfin)
      rw [if_neg hne, if_neg hr]
      exact h.contents r
  · intro id hid
    have hdefined : (m.contents vars[reg]).isSome = true := by
      have hcontents : m.contents vars[reg] = some (regs ⟨reg, hreg⟩) := h.contents ⟨reg, hreg⟩
      rw [hcontents]
      rfl
    exact h.fresh id ((setVariable_defines_iff hdefined v id).mp hid)

/-- A load sets its result to the register's content. -/
theorem step_loadInst (h : Represents vars next m regs) (reg : ℕ) :
    step u32 m (loadInst u32 vars reg next) = some (m.setValue next (regs.read reg)) := by
  unfold loadInst Registers.read
  by_cases hreg : reg < MAX_REG_COUNT
  · have hcontents : m.contents vars[reg] = some (regs ⟨reg, hreg⟩) := h.contents ⟨reg, hreg⟩
    rw [dif_pos hreg, dif_pos hreg]
    change (if u32 = u32 then (m.contents vars[reg]).bind fun v => m.define next v else none) = _
    rw [if_pos rfl, hcontents]
    exact h.define _
  · rw [dif_neg hreg, dif_neg hreg]
    change (if u32 = u32 then m.define next 0 else none) = _
    rw [if_pos rfl]
    exact h.define _

/-- A constant sets its result to its value. -/
theorem step_constant (h : Represents vars next m regs) (v : UInt32) :
    step u32 m ⟨43, [u32, next, v]⟩ = some (m.setValue next v) := by
  change (if u32 = u32 then m.define next v else none) = _
  rw [if_pos rfl]
  exact h.define v

/-- An addition sets its result to the sum. -/
theorem step_iadd (h : Represents vars next m regs) {a b x y : UInt32}
    (ha : m.values a = some x) (hb : m.values b = some y) :
    step u32 m ⟨128, [u32, next, a, b]⟩ = some (m.setValue next (x + y)) := by
  change (if u32 = u32 then (m.values a).bind fun x => (m.values b).bind fun y =>
    m.define next (x + y) else none) = _
  rw [if_pos rfl, ha, hb]
  exact h.define (x + y)

/-- Storing a value writes the register, also the zero register. -/
theorem exec_storeInsts (h : Represents vars next m regs)
    (hvars : Function.Injective vars.get) {val v : UInt32}
    (hval : m.values val = some v) (reg : ℕ) :
    ∃ m', exec u32 (storeInsts vars reg val) m = some m' ∧
      Represents vars next m' (regs.write reg v) := by
  unfold storeInsts
  by_cases hreg : reg < MAX_REG_COUNT
  · refine ⟨m.setVariable vars[reg] v, ?_, h.setVariable hvars hreg v⟩
    have hcontents : m.contents vars[reg] = some (regs ⟨reg, hreg⟩) := h.contents ⟨reg, hreg⟩
    rw [dif_pos hreg, exec_cons]
    change (((m.values val).bind fun v =>
      if (m.contents vars[reg]).isSome then some (m.setVariable vars[reg] v) else none)).bind _ = _
    rw [hval, hcontents]
    rfl
  · have hdropped : regs.write reg v = regs := by
      funext r
      have hne : r.val ≠ reg := by
        have hr := r.isLt
        omega
      exact if_neg hne
    refine ⟨m, ?_, ?_⟩
    · rw [dif_neg hreg]
      rfl
    · rw [hdropped]
      exact h

/-- **One `al2p`.** -/
theorem exec_al2pInsts (h : Represents vars next m regs)
    (hvars : Function.Injective vars.get)
    (hroom : next.toNat + 3 < 2 ^ 32) (inst : BitVec 128) :
    ∃ m', exec u32 (al2pInsts u32 vars next inst) m = some m' ∧
      Represents vars (next + 1 + 1 + 1) m'
        (regs.write (field inst 16 8)
          (regs.read (field inst 24 8) + UInt32.ofNat (field inst 40 11))) := by
  have hone : (next + 1).toNat = next.toNat + 1 := toNat_succ (by omega)
  have htwo : (next + 1 + 1).toNat = next.toNat + 2 := by
    rw [toNat_succ (by omega), hone]
  let x := regs.read (field inst 24 8)
  let y := UInt32.ofNat (field inst 40 11)
  let m₁ := m.setValue next x
  let m₂ := m₁.setValue (next + 1) y
  have h₁ : Represents vars (next + 1) m₁ regs := h.setValue (by omega) x
  have h₂ : Represents vars (next + 1 + 1) m₂ regs := h₁.setValue (by omega) y
  -- The base and the offset are still there when they are added.
  have hne : next ≠ next + 1 := by
    intro heq
    have hnat := congrArg UInt32.toNat heq
    omega
  have hbase : m₂.values next = some x := by
    rw [setValue_values_of_ne m₁ y hne]
    exact setValue_values_self m next x
  have hoffset : m₂.values (next + 1) = some y := setValue_values_self m₁ (next + 1) y
  have h₃ : Represents vars (next + 1 + 1 + 1) (m₂.setValue (next + 1 + 1) (x + y)) regs :=
    h₂.setValue (by omega) (x + y)
  obtain ⟨m', hstore, hdone⟩ := exec_storeInsts u32 h₃ hvars
    (setValue_values_self m₂ (next + 1 + 1) (x + y)) (field inst 16 8)
  refine ⟨m', ?_, hdone⟩
  unfold al2pInsts
  rw [exec_append, exec_cons, step_loadInst u32 h, Option.bind_some, exec_cons,
    step_constant u32 h₁, Option.bind_some, exec_cons, step_iadd u32 h₂ hbase hoffset,
    Option.bind_some]
  exact hstore

/-- **Simulation.**  One implemented instruction. -/
theorem exec_emittedBy (h : Represents vars next m regs)
    (hvars : Function.Injective vars.get) {inst : BitVec 128}
    (himpl : Implemented inst) (hroom : next.toNat + idCost inst < 2 ^ 32) :
    ∃ m', exec u32 (emittedBy u32 vars next inst) m = some m' ∧
      Represents vars (idAfterInst next inst) m' (stepRegisters regs inst) := by
  unfold emittedBy idAfterInst stepRegisters
  rcases himpl with ⟨hdispatch, -⟩ | hdispatch
  · rw [idCost, if_pos hdispatch] at hroom
    rw [hdispatch]
    exact exec_al2pInsts u32 h hvars hroom inst
  · rw [hdispatch]
    exact ⟨m, rfl, h⟩

/-- The run lemma: by induction over the list, with `Represents` carried along. -/
theorem exec_translated (hvars : Function.Injective vars.get)
    {insts : List (BitVec 128)} (himpl : ∀ inst ∈ insts, Implemented inst)
    (h : Represents vars next m regs) (hroom : next.toNat + 3 * al2pCount insts < 2 ^ 32) :
    ∃ m' next', exec u32 (translated u32 vars next insts) m = some m' ∧
      Represents vars next' m' (runRegisters insts regs) := by
  induction insts generalizing next m regs with
  | nil => exact ⟨m, next, rfl, h⟩
  | cons inst insts ih =>
    have hfirst := himpl inst List.mem_cons_self
    have hothers := fun i hi => himpl i (List.mem_cons_of_mem inst hi)
    rw [al2pCount_cons] at hroom
    obtain ⟨m₁, hhead, h₁⟩ := exec_emittedBy u32 h hvars hfirst (by omega)
    have hall : Room .debug next (idCost inst + 3 * al2pCount insts) := .inr hroom
    have hleft : Room .debug (idAfterInst next inst) (3 * al2pCount insts) := by
      rw [idAfterInst_eq]
      exact (room_add_iff.mp hall).2
    obtain ⟨m', next', htail, hdone⟩ := ih hothers h₁ (hleft.resolve_left (by simp))
    refine ⟨m', next', ?_, hdone⟩
    rw [translated, exec_append, hhead, Option.bind_some]
    exact htail

end Simulation

/-! ## The appended instructions -/

/-- **The translation preserves register semantics** whenever the ids of `init` and of the
list's `al2p` instructions, three each, are left.
SOURCE: core/src/gpu/sm86.rs:207-284, 2385-2394 -/
theorem translation_preserves_registers (build : Build) (d₀ : Decoder)
    (insts : List (BitVec 128)) (himpl : ∀ inst ∈ insts, Implemented inst)
    (hids : d₀.ir.nextId.toNat + 304 + 3 * al2pCount insts < 2 ^ 32) :
    Preserves build d₀ insts := by
  have hfits : d₀.ir.nextId.toNat + 304 < 2 ^ 32 := by omega
  have hinit := (init_returns d₀ build).run (.inr hfits)
  have hinj := regs_injective d₀
  have hnext := toNat_nextId_initialised hfits
  generalize initialised d₀ = d at hinit hinj hnext
  have hroom : d.ir.nextId.toNat + 3 * al2pCount insts < 2 ^ 32 := by omega
  have htranslatable : ∀ inst ∈ insts, Translatable inst := fun inst hi => .inl (himpl inst hi)
  have htranslate := (translateAll_returns build htranslatable d).run (.inr hroom)
  have hencodable := translated_encodable d.u32 d.regs d.ir.nextId insts
  refine ⟨d, _, _, hinit, htranslate, appended_extend d _ hencodable, hinj, ?_⟩
  intro m regs hcontents hdefined
  have hstart : Represents d.regs d.ir.nextId m regs := ⟨hcontents, hdefined⟩
  obtain ⟨m', next', hexec, hdone⟩ := exec_translated d.u32 hinj himpl hstart hroom
  exact ⟨m', hexec, hdone.contents⟩

/-- `%r1 := %r2 + 4`, `%r1 := %r1 + 8`, and a `nop`. -/
theorem translation_preserves_registers_sample :
    Preserves .debug (Decoder.zeroed Emitter.new) [0x40002010920, 0x80001010920, 0x918] := by
  apply translation_preserves_registers
  · intro inst hinst
    simp only [List.mem_cons, List.not_mem_nil, or_false] at hinst
    rcases hinst with rfl | rfl | rfl
    · exact .inl ⟨rfl, by decide, .inl (by decide), .inl (by decide)⟩
    · exact .inl ⟨rfl, by decide, .inl (by decide), .inl (by decide)⟩
    · exact .inr rfl
  · decide

/-! ## Running out of ids -/

/-- A store has no result. -/
theorem results_storeInsts (vars : Vector UInt32 MAX_REG_COUNT) (reg : ℕ) (val : UInt32) :
    (storeInsts vars reg val).filterMap resultId = [] := by
  unfold storeInsts
  split
  · rfl
  · rfl

/-- The results of one instruction are the ids it takes. -/
theorem results_emittedBy (u32 : UInt32) (vars : Vector UInt32 MAX_REG_COUNT) (next : UInt32)
    (inst : BitVec 128) :
    (emittedBy u32 vars next inst).filterMap resultId =
      (List.range (idCost inst)).map (idAt next) := by
  unfold emittedBy idCost
  split
  · next hdispatch =>
    rw [if_pos hdispatch]
    unfold al2pInsts
    rw [List.filterMap_append, results_storeInsts, List.append_nil,
      List.filterMap_cons_some (resultId_loadInst u32 vars _ next)]
    rfl
  · next hkill =>
    rw [if_neg (by simp [hkill])]
    rfl
  · next hother _ =>
    rw [if_neg hother]
    rfl

/-- Each `al2p` of a list has three results. -/
theorem results_translated (u32 : UInt32) (vars : Vector UInt32 MAX_REG_COUNT) (next : UInt32)
    (insts : List (BitVec 128)) :
    ((translated u32 vars next insts).filterMap resultId).length = 3 * al2pCount insts := by
  induction insts generalizing next with
  | nil => rfl
  | cons inst insts ih =>
    rw [translated, List.filterMap_append, List.length_append, results_emittedBy, List.length_map,
      List.length_range, ih, al2pCount_cons]

/-- Registers are not preserved by a release build when the list has more `al2p` instructions
than there are ids for. -/
theorem not_preserves_of_exhausted {d₀ : Decoder} {insts : List (BitVec 128)}
    (himpl : ∀ inst ∈ insts, Implemented inst) (hinit : d₀.ir.nextId.toNat + 304 < 2 ^ 32)
    (hids : 2 ^ 32 < 3 * al2pCount insts) : ¬ Preserves .release d₀ insts := by
  rintro ⟨d, d', emitted, hd, htranslate, hemitted, hinj, hexec⟩
  have hbelow : ∀ r : Fin MAX_REG_COUNT, d.regs.get r < d.ir.nextId := by
    rw [((init_returns d₀ .release () d).mp hd).2.2]
    exact regs_below hinit
  have htranslatable : ∀ inst ∈ insts, Translatable inst := fun inst hi => .inl (himpl inst hi)
  obtain ⟨-, -, hd'⟩ := (translateAll_returns .release htranslatable d () d').mp htranslate
  have hlist : emitted = translated d.u32 d.regs d.ir.nextId insts := by
    rw [hd', appended_extend d _ (translated_encodable _ _ _ _)] at hemitted
    exact (Option.some.inj hemitted).symm
  -- The machine in which every id below the next one is a variable that holds 0.
  let m : Machine :=
    { contents := fun id => if id < d.ir.nextId then some 0 else none
      values := fun _ => none }
  have hcontents (r : Fin MAX_REG_COUNT) : m.contents (d.regs.get r) = some 0 := if_pos (hbelow r)
  have hdefined : ∀ id, m.Defines id → id < d.ir.nextId := by
    intro id hid
    by_contra hlarge
    rcases hid with hvariable | hvalue
    · have hnone : m.contents id = none := if_neg hlarge
      rw [hnone] at hvariable
      cases hvariable
    · cases hvalue
  obtain ⟨m', hrun, -⟩ := hexec m (fun _ => 0) hcontents hdefined
  have hle := exec_results_length hrun
  rw [hlist, results_translated] at hle
  omega

/-- The sample holds `n` instructions `al2p`. -/
theorem al2pCount_replicate (n : ℕ) : al2pCount (List.replicate n 0x920) = n := by
  have hone : (dispatch (opcode 0x920) == some Handler.al2p) = true := by decide
  unfold al2pCount
  rw [List.countP_replicate, if_pos hone]

/-- 2^31 times `%r0 := %r0 + 0` need more ids than there are. -/
theorem exhausted_ids_are_redefined :
    (∀ inst ∈ List.replicate (2 ^ 31) (0x920 : BitVec 128), Implemented inst) ∧
      ¬ Preserves .release (Decoder.zeroed Emitter.new) (List.replicate (2 ^ 31) 0x920) := by
  have himpl : ∀ inst ∈ List.replicate (2 ^ 31) (0x920 : BitVec 128), Implemented inst := by
    intro inst hinst
    rw [List.eq_of_mem_replicate hinst]
    exact .inl ⟨rfl, by decide, .inl (by decide), .inl (by decide)⟩
  refine ⟨himpl, not_preserves_of_exhausted himpl (by decide) ?_⟩
  rw [al2pCount_replicate]
  decide

end Oboromi.Analysis.Sm86
