import Oboromi.Analysis.ResultIds

/-!
# Which words stand at id positions

For each call, the words that the operand grammar reads as ids are the result, the arguments
passed in `<id>` positions and the stray words (`idOperands_perm`).  Strays come from two
methods only: `emit_constant_composite_typed` writes the words of literals as constituents of
an `OpConstantComposite`, and `emit_entry_point` writes a name that may hold a null
terminator.  A run defines every id operand exactly when its strays happen to be ids of the
run (`idOperands_defined_iff`).
-/

set_option autoImplicit false

namespace Oboromi.Analysis.Spirv

open Oboromi.Lib
open Oboromi.Model.Spirv
open Oboromi.Interface.Spirv

/-! ## Strings -/

/-- A byte shifted into its place stays below the next one. -/
theorem shifted_byte_lt (b : UInt8) (i : ℕ) :
    (b.toUInt32 <<< UInt32.ofNat (i % 4 * 8)).toNat < 2 ^ (8 * (i % 4) + 8) := by
  have hshift : (UInt32.ofNat (i % 4 * 8)).toNat % 32 = 8 * (i % 4) := by
    rw [UInt32.toNat_ofNat']
    omega
  have hbyte : b.toUInt32.toNat < 2 ^ 8 := by
    rw [UInt8.toNat_toUInt32]
    exact b.toNat_lt
  rw [UInt32.toNat_shiftLeft, hshift, Nat.shiftLeft_eq]
  calc b.toUInt32.toNat * 2 ^ (8 * (i % 4)) % 2 ^ 32
      ≤ b.toUInt32.toNat * 2 ^ (8 * (i % 4)) := Nat.mod_le _ _
    _ < 2 ^ 8 * 2 ^ (8 * (i % 4)) := Nat.mul_lt_mul_of_pos_right hbyte (Nat.two_pow_pos _)
    _ = 2 ^ (8 * (i % 4) + 8) := by rw [← Nat.pow_add, Nat.add_comm]

/-- The word under construction holds only the bytes since the last push. -/
theorem encodeByte_lt {acc : List UInt32 × UInt32} {b : UInt8 × ℕ}
    (h : acc.2.toNat < 2 ^ (8 * (b.2 % 4))) :
    (encodeByte acc b).2.toNat < 2 ^ (8 * ((b.2 + 1) % 4)) := by
  unfold encodeByte
  dsimp only
  by_cases hlast : b.2 % 4 = 3
  · rw [if_pos hlast]
    exact Nat.two_pow_pos _
  · have hnext : 8 * ((b.2 + 1) % 4) = 8 * (b.2 % 4) + 8 := by omega
    rw [if_neg hlast, UInt32.toNat_or, hnext]
    apply Nat.or_lt_two_pow
    · exact h.trans (Nat.pow_lt_pow_right (by omega) (by omega))
    · exact shifted_byte_lt b.1 b.2

/-- The last word of an encoded string keeps its top byte free. -/
theorem foldl_encodeByte_lt (bytes : List UInt8) (i : ℕ) (acc : List UInt32 × UInt32)
    (h : acc.2.toNat < 2 ^ (8 * (i % 4))) :
    ((bytes.zipIdx i).foldl encodeByte acc).2.toNat < 2 ^ 24 := by
  induction bytes generalizing i acc with
  | nil =>
    have hle : 8 * (i % 4) ≤ 24 := by omega
    exact h.trans_le (Nat.pow_le_pow_right (by omega) hle)
  | cons b bytes ih =>
    rw [List.zipIdx_cons, List.foldl_cons]
    apply ih
    exact encodeByte_lt (b := (b, i)) h

/-- A word with a free top byte holds a terminator. -/
theorem hasNul_of_lt {w : UInt32} (h : w.toNat < 2 ^ 24) : hasNul w = true := by
  have htop : (w >>> 24).toUInt8 = 0 := by
    apply UInt8.toNat_inj.mp
    rw [UInt32.toNat_toUInt8, UInt32.toNat_shiftRight]
    change w.toNat >>> 24 % 2 ^ 8 = 0
    rw [Nat.shiftRight_eq_div_pow, Nat.div_eq_of_lt h]
  unfold hasNul toLeBytes
  rw [htop]
  simp

/-- A string operand holds its terminator: the last word has room for three bytes only. -/
theorem packedString_hasNul (s : String) : ∃ w ∈ packedString s, hasNul w = true := by
  have hlast := foldl_encodeByte_lt s.toUTF8.data.toList 0 ([], 0) (by decide)
  have heq := encodeString_eq [] s
  rw [List.nil_append] at heq
  refine ⟨_, ?_, hasNul_of_lt hlast⟩
  rw [← heq]
  unfold encodeString
  exact List.mem_append_right _ List.mem_cons_self

/-- Words after a terminated string are left after skipping it. -/
theorem skipString_append {ws rest : List UInt32} (h : ∃ w ∈ ws, hasNul w = true) :
    skipString (ws ++ rest) = skipString ws ++ rest := by
  induction ws with
  | nil =>
    obtain ⟨w, hw, -⟩ := h
    cases hw
  | cons w ws ih =>
    rw [List.cons_append, skipString, skipString]
    by_cases hnul : hasNul w = true
    · rw [if_pos hnul, if_pos hnul]
    · rw [if_neg hnul, if_neg hnul]
      apply ih
      obtain ⟨v, hv, hterm⟩ := h
      rcases List.mem_cons.mp hv with rfl | hrest
      · exact absurd hterm hnul
      · exact ⟨v, hrest, hterm⟩

/-- The labels of the switch pairs are their second components. -/
theorem labels_pairWords (targets : List (UInt32 × UInt32)) :
    labels (pairWords targets) = targets.map Prod.snd := by
  induction targets with
  | nil => rfl
  | cons target targets ih => exact congrArg (target.2 :: ·) ih

/-- The value of a constant has no ids, however long it is. -/
theorem idOperands_constant (ty r : UInt32) (valueWords : List UInt32) :
    idOperands ⟨43, [ty, r] ++ valueWords⟩ = [ty, r] := by
  cases valueWords <;> rfl

/-- The words of a call's instruction at `<id>` positions are, up to their order, its result,
its stray words and its id arguments. -/
theorem idOperands_perm (call : EmitCall) (next : UInt32) (i : Inst)
    (h : (call.effect.entry next).emitted = some i) :
    (idOperands i).Perm
      ((call.effect.entry next).returned.toList ++ (call.strayWords ++ call.idArgs)) := by
  cases call
  -- The interfaces follow whatever the grammar leaves of the name.
  case emitEntryPoint execModel func name interfaces =>
    cases h
    have hname : skipString (packedString name ++ interfaces) =
        skipString (packedString name) ++ interfaces :=
      skipString_append (packedString_hasNul name)
    change (func :: skipString (packedString name ++ interfaces)).Perm
      (skipString (packedString name) ++ (func :: interfaces))
    rw [hname]
    exact List.perm_middle.symm
  case emitConstantCompositeTyped T lit ty constituents =>
    cases h
    change (ty :: next :: constituents.flatMap Literal.toWords).Perm
      (next :: (constituents.flatMap Literal.toWords ++ [ty]))
    exact (List.Perm.swap _ _ _).trans ((List.perm_append_singleton _ _).symm.cons _)
  case emitConstant ty valueWords =>
    cases h
    exact (idOperands_constant ty next valueWords).symm ▸ List.Perm.swap _ _ _
  case emitConstantTyped T lit ty value =>
    cases h
    exact (idOperands_constant ty next (Literal.toWords value)).symm ▸ List.Perm.swap _ _ _
  case emitSwitch selector default targets =>
    cases h
    change (selector :: default :: labels (pairWords targets)).Perm
      (selector :: default :: targets.map Prod.snd)
    rw [labels_pairWords]
  all_goals cases h
  all_goals first
    | exact List.Perm.refl _
    | exact List.Perm.swap _ _ _

/-- The ids of an emitted instruction are its result, its arguments and the stray words. -/
theorem mem_idOperands_iff {call : EmitCall} {next : UInt32} {i : Inst}
    (h : (call.effect.entry next).emitted = some i) (w : UInt32) :
    w ∈ idOperands i ↔ (call.effect.entry next).returned = some w ∨ w ∈ call.strayWords ∨
      w ∈ call.idArgs := by
  rw [(idOperands_perm call next i h).mem_iff, List.mem_append, List.mem_append,
    Option.mem_toList]

/-- A call with stray words emits an instruction. -/
theorem emitted_of_stray {call : EmitCall} {w : UInt32} (h : w ∈ call.strayWords)
    (next : UInt32) : ∃ i, (call.effect.entry next).emitted = some i := by
  cases call
  case emitEntryPoint => exact ⟨_, rfl⟩
  case emitConstantCompositeTyped => exact ⟨_, rfl⟩
  all_goals cases h

/-! ## Runs -/

/-- Every call of a run has an entry in its log. -/
theorem exists_entry {calls : List EmitCall} {call : EmitCall} (h : call ∈ calls)
    (next : UInt32) : ∃ id, call.effect.entry id ∈ log next calls := by
  induction calls generalizing next with
  | nil => cases h
  | cons first calls ih =>
    rcases List.mem_cons.mp h with rfl | hrest
    · exact ⟨next, List.mem_cons_self⟩
    · obtain ⟨id, hid⟩ := ih hrest (first.effect.next next)
      exact ⟨id, List.mem_cons_of_mem _ hid⟩

/-- The ids returned are the results that are ids. -/
theorem mem_returnedIds_iff {results : List (Option UInt32)} {w : UInt32} :
    w ∈ returnedIds results ↔ some w ∈ results := by
  unfold returnedIds
  rw [List.mem_filterMap]
  constructor
  · rintro ⟨result, hmem, rfl⟩
    exact hmem
  · intro hmem
    exact ⟨some w, hmem, rfl⟩

/-- **Which runs define every id operand.**  In a run whose id arguments were all returned by
earlier calls and that takes fewer than `2 ^ 32 - 1` ids, every word at an `<id>` position is an
id of the run, not zero and below the bound, exactly when the stray words are numbers of ids
of the run.
SOURCE: core/src/gpu/spirv.rs:193-258, 286-291, 483-491 -/
theorem idOperands_defined_iff (build : Build) (calls : List EmitCall)
    (results : List (Option UInt32)) (e : Emitter)
    (hrun : (emitModule build calls).run Emitter.new = (.ok results, e))
    (hargs : IdArgsReturned calls results) (hids : allocations calls < 2 ^ 32 - 1) :
    IdOperandsDefined calls results e ↔
      ∀ call ∈ calls, ∀ w ∈ call.strayWords, w ≠ 0 ∧ w.toNat ≤ allocations calls := by
  obtain ⟨hresults, hwords⟩ := emitModule_stream hrun
  have hreturned : returnedIds results = (log 1 calls).filterMap Entry.returned := by
    rw [hresults, returnedIds_map]
  constructor
  · rintro ⟨bound, -, -, hdefined⟩ call hcall w hw
    obtain ⟨id, hentry⟩ := exists_entry hcall 1
    obtain ⟨i, hemit⟩ := emitted_of_stray hw id
    have hi : i ∈ emittedInsts calls := List.mem_filterMap.mpr ⟨_, hentry, hemit⟩
    have hoperand : w ∈ idOperands i := (mem_idOperands_iff hemit w).mpr (.inr (.inl hw))
    have hid := (hdefined i hi w hoperand).1
    rw [hreturned] at hid
    exact (mem_returned_iff hids w).mp hid
  · intro hstray
    have hword3 : e.words[3]? = some (idAfter 1 calls) := by
      rw [hwords]
      rfl
    refine ⟨idAfter 1 calls, hwords, hword3, ?_⟩
    intro i hi w hw
    obtain ⟨call, hcall, id, hentry, hemit⟩ := mem_emittedInsts hi
    have hid : w ∈ (log 1 calls).filterMap Entry.returned := by
      rcases (mem_idOperands_iff hemit w).mp hw with hresult | hstrayed | harg
      · exact List.mem_filterMap.mpr ⟨_, hentry, hresult⟩
      · exact (mem_returned_iff hids w).mpr (hstray call hcall w hstrayed)
      · obtain ⟨k, hk⟩ := List.mem_iff_getElem?.mp hcall
        obtain ⟨j, -, hj⟩ := hargs k call hk w harg
        rw [← hreturned]
        exact mem_returnedIds_iff.mpr (List.mem_of_getElem? hj)
    refine ⟨?_, ((mem_returned_iff hids w).mp hid).1, returned_lt_bound hids hid⟩
    rw [hreturned]
    exact hid

/-- Without stray words every id operand is defined: an entry point named `main`. -/
theorem idOperands_defined_iff_main :
    ∃ results e,
      (emitModule .release [.emitTypeVoid, .emitTypeFunction 1 [], .emitFunction 1 0 2,
        .emitEntryPoint 5 3 "main" []]).run Emitter.new = (.ok results, e) ∧
      IdOperandsDefined [.emitTypeVoid, .emitTypeFunction 1 [], .emitFunction 1 0 2,
        .emitEntryPoint 5 3 "main" []] results e := by
  refine ⟨[some 1, some 2, some 3, none], _, rfl,
    (idOperands_defined_iff .release _ _ _ rfl ?_ ?_).mpr ?_⟩
  · intro k call hk w hw
    match k with
    | 0 =>
      cases hk
      cases hw
    | 1 =>
      cases hk
      exact ⟨0, by omega, by rw [List.mem_singleton.mp hw]; rfl⟩
    | 2 =>
      cases hk
      rcases List.mem_cons.mp hw with rfl | hw
      · exact ⟨0, by omega, rfl⟩
      · exact ⟨1, by omega, by rw [List.mem_singleton.mp hw]; rfl⟩
    | 3 =>
      cases hk
      exact ⟨2, by omega, by rw [List.mem_singleton.mp hw]; rfl⟩
    | k + 4 => cases hk
  · decide
  · intro call hcall w hw
    have hnone : [EmitCall.emitTypeVoid, .emitTypeFunction 1 [], .emitFunction 1 0 2,
        .emitEntryPoint 5 3 "main" []].flatMap EmitCall.strayWords = [] := by decide
    have hmem := List.mem_flatMap_of_mem hcall hw
    rw [hnone] at hmem
    cases hmem

/-- A vector of two literals: the constituents of the `OpConstantComposite` are 7 and 9, and
neither is an id of the run. -/
theorem literal_constituents_are_undefined :
    ∃ results e,
      (emitModule .release [.emitTypeInt 32 0, .emitTypeVector 1 2,
        .emitConstantCompositeTyped 2 [(7 : UInt32), 9]]).run Emitter.new = (.ok results, e) ∧
      IdArgsReturned [.emitTypeInt 32 0, .emitTypeVector 1 2,
        .emitConstantCompositeTyped 2 [(7 : UInt32), 9]] results ∧
      ¬ IdOperandsDefined [.emitTypeInt 32 0, .emitTypeVector 1 2,
        .emitConstantCompositeTyped 2 [(7 : UInt32), 9]] results e := by
  refine ⟨[some 1, some 2, some 3], _, rfl, ?_, ?_⟩
  · intro k call hk w hw
    match k with
    | 0 =>
      cases hk
      cases hw
    | 1 =>
      cases hk
      exact ⟨0, by omega, by rw [List.mem_singleton.mp hw]; rfl⟩
    | 2 =>
      cases hk
      exact ⟨1, by omega, by rw [List.mem_singleton.mp hw]; rfl⟩
    | k + 3 => cases hk
  · rintro ⟨bound, -, -, hdefined⟩
    have hcomposite : (⟨44, [2, 3, 7, 9]⟩ : Inst) ∈ emittedInsts [.emitTypeInt 32 0,
        .emitTypeVector 1 2, .emitConstantCompositeTyped 2 [(7 : UInt32), 9]] := by decide
    have hseven := (hdefined _ hcomposite 7 (by decide)).1
    revert hseven
    decide

end Oboromi.Analysis.Spirv
