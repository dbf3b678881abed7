import Oboromi.Analysis.ShaderEmission

/-!
# Declarations and bodies in a shader's stream

`init` emits declarations only, and every instruction that translates emits an instruction of a
body.  An `al2p` declares its offset as a constant on the spot, behind the load of its base.  So
the stream is in layout order exactly when the only `al2p` comes first and loads nothing.
-/

set_option autoImplicit false

namespace Oboromi.Analysis.Sm86

open Oboromi.Lib
open Oboromi.Model.Spirv
open Oboromi.Model.Sm86
open Oboromi.Interface.Spirv
open Oboromi.Interface.Sm86

/-! ## Layout order of a concatenation -/

/-- Without declarations any order will do. -/
theorem inLayoutOrder_of_no_declaration {insts : List Inst} (h : ∀ i ∈ insts, ¬ IsDeclaration i) :
    InLayoutOrder insts :=
  List.Pairwise.imp_of_mem (fun _ hj _ _ => h _ hj) (List.pairwise_of_forall fun _ _ => trivial)

/-- In front of everything there may be whatever is not of a body. -/
theorem inLayoutOrder_append_of_no_body {as bs : List Inst} (h : ∀ i ∈ as, ¬ IsBody i) :
    InLayoutOrder (as ++ bs) ↔ InLayoutOrder bs := by
  unfold InLayoutOrder
  rw [List.pairwise_append]
  constructor
  · intro hall
    exact hall.2.1
  · intro hbs
    refine ⟨?_, hbs, ?_⟩
    · exact List.Pairwise.imp_of_mem (fun hi _ _ hbody => absurd hbody (h _ hi))
        (List.pairwise_of_forall fun _ _ => trivial)
    · intro i hi j _ hbody
      exact absurd hbody (h i hi)

/-- Behind an instruction of a body there is no declaration. -/
theorem inLayoutOrder_append_of_body {as bs : List Inst} (h : ∃ i ∈ as, IsBody i) :
    InLayoutOrder (as ++ bs) ↔ InLayoutOrder as ∧ ∀ j ∈ bs, ¬ IsDeclaration j := by
  obtain ⟨i, hi, hbody⟩ := h
  constructor
  · intro hall
    obtain ⟨has, -, hcross⟩ := List.pairwise_append.mp hall
    exact ⟨has, fun j hj => hcross i hi j hj hbody⟩
  · rintro ⟨has, hbs⟩
    exact List.pairwise_append.mpr
      ⟨has, inLayoutOrder_of_no_declaration hbs, fun _ _ j hj _ => hbs j hj⟩

/-! ## What each part emits -/

/-- What `init` declares is not of a body. -/
theorem declarations_not_body (d₀ : Decoder) : ∀ i ∈ declarations d₀, ¬ IsBody i := by
  intro i hi
  obtain ⟨c, hc, id, rfl⟩ := mem_declared hi
  have hop := (initDecls_opcode d₀ hc id).1
  unfold IsBody
  simp only [List.mem_cons, List.not_mem_nil, or_false] at hop
  rcases hop with hop | hop | hop | hop | hop | hop | hop
  all_goals simp [hop]

section Emitted

variable (u32 : UInt32) (vars : Vector UInt32 MAX_REG_COUNT) (next : UInt32) (inst : BitVec 128)

/-- Whatever translates emits an instruction of a body. -/
theorem emittedBy_body : ∃ i ∈ emittedBy u32 vars next inst, IsBody i := by
  unfold emittedBy
  split
  · exact ⟨⟨128, [u32, next + 1 + 1, next, next + 1]⟩, by simp [al2pInsts], by simp [IsBody]⟩
  · exact ⟨⟨252, []⟩, by simp, by simp [IsBody]⟩
  · exact ⟨⟨0, []⟩, by simp, by simp [IsBody]⟩

/-- Only an `al2p` emits a declaration: its offset. -/
theorem emittedBy_declaration_iff :
    (∀ i ∈ emittedBy u32 vars next inst, ¬ IsDeclaration i) ↔
      dispatch (opcode inst) ≠ some .al2p := by
  unfold emittedBy
  split
  · next hdispatch =>
    have hoffset : ⟨43, [u32, next + 1, UInt32.ofNat (field inst 40 11)]⟩ ∈
        al2pInsts u32 vars next inst := by simp [al2pInsts]
    constructor
    · intro h
      exact absurd (by simp [IsDeclaration]) (h _ hoffset)
    · intro h
      exact absurd hdispatch h
  · next hkill => simp [hkill, IsDeclaration]
  · next hother _ =>
    have hne : dispatch (opcode inst) ≠ some .al2p := hother
    simp [hne, IsDeclaration]

/-- A store is not a declaration. -/
theorem storeInsts_not_declaration (reg : ℕ) (val : UInt32) :
    ∀ i ∈ storeInsts vars reg val, ¬ IsDeclaration i := by
  unfold storeInsts
  split
  · simp [IsDeclaration]
  · simp

/-- The offset is declared behind the base, which is a constant only for the zero register. -/
theorem al2pInsts_inLayoutOrder_iff :
    InLayoutOrder (al2pInsts u32 vars next inst) ↔ ¬ field inst 24 8 < MAX_REG_COUNT := by
  unfold al2pInsts
  constructor
  · intro hall hreg
    have hload : IsBody (loadInst u32 vars (field inst 24 8) next) := by
      unfold loadInst
      rw [dif_pos hreg]
      simp [IsBody]
    have hoffset := (List.pairwise_cons.mp hall).1
      ⟨43, [u32, next + 1, UInt32.ofNat (field inst 40 11)]⟩ (by simp) hload
    exact hoffset (by simp [IsDeclaration])
  · intro hreg
    have hload : loadInst u32 vars (field inst 24 8) next = ⟨43, [u32, next, 0]⟩ := dif_neg hreg
    have hconstants : ∀ i ∈ ([loadInst u32 vars (field inst 24 8) next,
        ⟨43, [u32, next + 1, UInt32.ofNat (field inst 40 11)]⟩] : List Inst), ¬ IsBody i := by
      simp [hload, IsBody]
    refine (inLayoutOrder_append_of_no_body hconstants).mpr (inLayoutOrder_of_no_declaration ?_)
    intro i hi
    rcases List.mem_cons.mp hi with rfl | hstore
    · simp [IsDeclaration]
    · exact storeInsts_not_declaration vars _ _ i hstore

/-- One instruction keeps the order unless it is an `al2p` that loads a register. -/
theorem emittedBy_inLayoutOrder_iff :
    InLayoutOrder (emittedBy u32 vars next inst) ↔
      (dispatch (opcode inst) = some .al2p → ¬ field inst 24 8 < MAX_REG_COUNT) := by
  unfold emittedBy
  split
  · next hdispatch => simp [hdispatch, al2pInsts_inLayoutOrder_iff]
  · next hkill => simp [hkill, InLayoutOrder]
  · next hother _ =>
    have hne : dispatch (opcode inst) ≠ some .al2p := hother
    simp [hne, InLayoutOrder]

end Emitted

/-! ## A list of instructions -/

/-- A translation has no declaration exactly when it has no `al2p`. -/
theorem translated_declaration_iff (u32 : UInt32) (vars : Vector UInt32 MAX_REG_COUNT)
    (next : UInt32) (insts : List (BitVec 128)) :
    (∀ i ∈ translated u32 vars next insts, ¬ IsDeclaration i) ↔
      ∀ inst ∈ insts, dispatch (opcode inst) ≠ some .al2p := by
  induction insts generalizing next with
  | nil => simp [translated]
  | cons inst insts ih =>
    rw [translated, List.forall_mem_append, List.forall_mem_cons, emittedBy_declaration_iff, ih]

/-- An `al2p` may only be the head, and then on the zero register. -/
theorem addressFirst_cons (inst : BitVec 128) (insts : List (BitVec 128)) :
    AddressFirst (inst :: insts) ↔
      (dispatch (opcode inst) = some .al2p → field inst 24 8 = 255) ∧
        ∀ i ∈ insts, dispatch (opcode i) ≠ some .al2p := by
  constructor
  · intro h
    refine ⟨fun hdispatch => (h 0 inst rfl hdispatch).2, ?_⟩
    intro i hi hdispatch
    obtain ⟨k, hk⟩ := List.mem_iff_getElem?.mp hi
    exact absurd (h (k + 1) i hk hdispatch).1 (Nat.succ_ne_zero k)
  · rintro ⟨hfirst, hothers⟩ k i hk hdispatch
    cases k with
    | zero =>
      cases hk
      exact ⟨rfl, hfirst hdispatch⟩
    | succ k => exact absurd hdispatch (hothers i (List.mem_of_getElem? hk))

/-- The register that an `al2p` loads is one of the variables or the zero register. -/
theorem loads_iff {inst : BitVec 128} (h : Translatable inst)
    (hdispatch : dispatch (opcode inst) = some .al2p) :
    ¬ field inst 24 8 < MAX_REG_COUNT ↔ field inst 24 8 = 255 := by
  have hregister : IsRegister (field inst 24 8) := by
    rcases h with (⟨-, -, -, hra⟩ | hnop) | hkill
    · exact hra
    · rw [hdispatch] at hnop
      cases hnop
    · rw [hdispatch] at hkill
      cases hkill
  unfold MAX_REG_COUNT
  unfold IsRegister at hregister
  omega

/-- A translation keeps the order exactly when no `al2p` follows another instruction or loads a
register. -/
theorem translated_inLayoutOrder_iff (u32 : UInt32) (vars : Vector UInt32 MAX_REG_COUNT)
    (next : UInt32) {insts : List (BitVec 128)} (h : ∀ inst ∈ insts, Translatable inst) :
    InLayoutOrder (translated u32 vars next insts) ↔ AddressFirst insts := by
  cases insts with
  | nil => simp [translated, InLayoutOrder, AddressFirst]
  | cons inst insts =>
    have hbody := emittedBy_body u32 vars next inst
    have hloads := loads_iff (h inst List.mem_cons_self)
    rw [translated, inLayoutOrder_append_of_body hbody, emittedBy_inLayoutOrder_iff,
      translated_declaration_iff, addressFirst_cons, imp_congr_right hloads]

/-- **Declarations stand in front of bodies** in what a run appends exactly when it translates
no `al2p`, or only one, as its first instruction and on the zero register.
SOURCE: core/src/gpu/sm86.rs:207-284, core/src/gpu/spirv.rs:1-17 -/
theorem declarations_first_iff (build : Build) {d₀ d d' : Decoder} {insts : List (BitVec 128)}
    (h : ∀ inst ∈ insts, Translatable inst) (hinit : (init build).run d₀ = (.ok (), d))
    (htranslate : (translateAll build insts).run d = (.ok (), d')) :
    ∃ emitted, appended d₀ d' = some emitted ∧ (InLayoutOrder emitted ↔ AddressFirst insts) := by
  obtain ⟨-, hemitted⟩ := appended_run h hinit htranslate
  refine ⟨_, hemitted, ?_⟩
  rw [inLayoutOrder_append_of_no_body (declarations_not_body d₀)]
  exact translated_inLayoutOrder_iff _ _ _ h

/-- `%r1 := 4` and a `nop` are in order. -/
theorem declarations_first_sample :
    ∃ d d' emitted, (init .debug).run (Decoder.zeroed Emitter.new) = (.ok (), d) ∧
      (translateAll .debug [0x400ff010920, 0x918]).run d = (.ok (), d') ∧
      appended (Decoder.zeroed Emitter.new) d' = some emitted ∧ InLayoutOrder emitted := by
  have h : ∀ inst ∈ ([0x400ff010920, 0x918] : List (BitVec 128)), Translatable inst := by
    intro inst hinst
    simp only [List.mem_cons, List.not_mem_nil, or_false] at hinst
    rcases hinst with rfl | rfl
    · exact .inl (.inl ⟨rfl, by decide, .inl (by decide), .inr (by decide)⟩)
    · exact .inl (.inr rfl)
  obtain ⟨d, d', hinit, htranslate⟩ :=
    run_returns h (.inr (by decide) : Room .debug (Decoder.zeroed Emitter.new).ir.nextId _)
  obtain ⟨emitted, hemitted, hiff⟩ := declarations_first_iff .debug h hinit htranslate
  refine ⟨d, d', emitted, hinit, htranslate, hemitted, hiff.mpr ?_⟩
  rw [addressFirst_cons]
  refine ⟨fun _ => by decide, ?_⟩
  intro inst hinst
  rw [List.mem_singleton.mp hinst]
  decide

/-- `%r0 := %r0 + 0` declares its offset behind the load of `%r0`. -/
theorem offset_declared_in_body :
    Translatable 0x920 ∧ ∃ d d' emitted,
      (init .debug).run (Decoder.zeroed Emitter.new) = (.ok (), d) ∧
      (translateAll .debug [0x920]).run d = (.ok (), d') ∧
      appended (Decoder.zeroed Emitter.new) d' = some emitted ∧ ¬ InLayoutOrder emitted := by
  have himpl : Translatable 0x920 :=
    .inl (.inl ⟨rfl, by decide, .inl (by decide), .inl (by decide)⟩)
  have h : ∀ inst ∈ ([0x920] : List (BitVec 128)), Translatable inst := by
    intro inst hinst
    rw [List.mem_singleton.mp hinst]
    exact himpl
  obtain ⟨d, d', hinit, htranslate⟩ :=
    run_returns h (.inr (by decide) : Room .debug (Decoder.zeroed Emitter.new).ir.nextId _)
  obtain ⟨-, hemitted⟩ := appended_run h hinit htranslate
  refine ⟨himpl, d, d', _, hinit, htranslate, hemitted, ?_⟩
  rw [inLayoutOrder_append_of_no_body (declarations_not_body _), translation,
    translated_inLayoutOrder_iff _ _ _ h, addressFirst_cons]
  intro hfirst
  have hdispatch : dispatch (opcode 0x920) = some .al2p := by decide
  have hzero : field 0x920 24 8 = 0 := by decide
  have hregister := hfirst.1 hdispatch
  omega

end Oboromi.Analysis.Sm86
