import Oboromi.Interface.SpirvMachine
import Mathlib.Data.List.Nodup
import Mathlib.Data.List.Perm.Subperm

/-!
# Executing straight-line SPIR-V

An execution that does not get stuck defines the result of every instruction once: a step
keeps what is defined and defines its result, which was not defined before
(`step_defines`), so the results of a whole list are distinct (`exec_results_nodup`).
-/

set_option autoImplicit false

namespace Oboromi.Analysis.Spirv

open Oboromi.Model.Spirv
open Oboromi.Interface.Spirv

/-- Executing two lists is executing one after the other. -/
theorem exec_append (u32 : UInt32) (a b : List Inst) (m : Machine) :
    exec u32 (a ++ b) m = (exec u32 a m).bind (exec u32 b) := List.foldlM_append

/-- Executing a list is a step and the rest. -/
theorem exec_cons (u32 : UInt32) (i : Inst) (insts : List Inst) (m : Machine) :
    exec u32 (i :: insts) m = (step u32 m i).bind (exec u32 insts) := rfl

/-! ## Environments -/

/-- A value that was set is read back. -/
theorem setValue_values_self (m : Machine) (id v : UInt32) :
    (m.setValue id v).values id = some v := if_pos rfl

/-- Setting a value leaves the others alone. -/
theorem setValue_values_of_ne (m : Machine) {id k : UInt32} (v : UInt32) (h : k ≠ id) :
    (m.setValue id v).values k = m.values k := if_neg h

/-- Setting a value defines its id and no other. -/
theorem setValue_defines_iff (m : Machine) (id v k : UInt32) :
    (m.setValue id v).Defines k ↔ k = id ∨ m.Defines k := by
  unfold Machine.Defines
  by_cases hk : k = id
  · rw [hk, setValue_values_self]
    simp
  · rw [setValue_values_of_ne m v hk]
    simp only [hk, false_or]
    rfl

/-- Changing the contents of a variable defines nothing new. -/
theorem setVariable_defines_iff {m : Machine} {id : UInt32} (h : (m.contents id).isSome = true)
    (v k : UInt32) : (m.setVariable id v).Defines k ↔ m.Defines k := by
  unfold Machine.Defines
  have hcontents : ((m.setVariable id v).contents k).isSome = (m.contents k).isSome := by
    change (if k = id then some v else m.contents k).isSome = _
    by_cases hk : k = id
    · rw [if_pos hk, hk, h]
      rfl
    · rw [if_neg hk]
  rw [hcontents]
  rfl

/-- Defining succeeds only at a fresh id and sets the value. -/
theorem define_eq_some {m m' : Machine} {id v : UInt32} (h : m.define id v = some m') :
    ¬ m.Defines id ∧ m' = m.setValue id v := by
  unfold Machine.define at h
  split at h
  · cases h
  · next hfresh => exact ⟨hfresh, (Option.some.inj h).symm⟩

/-- A fresh id can be defined. -/
theorem define_of_fresh {m : Machine} {id : UInt32} (h : ¬ m.Defines id) (v : UInt32) :
    m.define id v = some (m.setValue id v) := if_neg h

/-! ## Single assignment -/

/-- An instruction is its opcode and its operands. -/
theorem eq_of_opcode {i : Inst} {n : ℕ} {operands : List UInt32} (hop : i.opcode.toNat = n)
    (hoperands : i.operands = operands) : i = ⟨UInt32.ofNat n, operands⟩ := by
  obtain ⟨opcode, words⟩ := i
  subst hop hoperands
  rw [UInt32.ofNat_toNat]

/-- What a step can do: nothing, define its result, or change a variable. -/
theorem step_cases {u32 : UInt32} {m m' : Machine} {i : Inst} (h : step u32 m i = some m') :
    (resultId i = none ∧ m' = m) ∨
    (∃ id v, resultId i = some id ∧ ¬ m.Defines id ∧ m' = m.setValue id v) ∨
    (∃ pointer v, resultId i = none ∧ (m.contents pointer).isSome = true ∧
      m' = m.setVariable pointer v) := by
  unfold step at h
  split at h
  · next hop hoperands =>
    left
    rw [eq_of_opcode hop hoperands]
    exact ⟨rfl, (Option.some.inj h).symm⟩
  · next ty result literal hop hoperands =>
    right; left
    rw [eq_of_opcode hop hoperands]
    split at h
    · exact ⟨result, literal, rfl, define_eq_some h⟩
    · cases h
  · next ty result pointer hop hoperands =>
    right; left
    rw [eq_of_opcode hop hoperands]
    split at h
    · obtain ⟨v, -, hdefine⟩ := Option.bind_eq_some_iff.mp h
      exact ⟨result, v, rfl, define_eq_some hdefine⟩
    · cases h
  · next pointer object hop hoperands =>
    right; right
    rw [eq_of_opcode hop hoperands]
    obtain ⟨v, -, hstore⟩ := Option.bind_eq_some_iff.mp h
    split at hstore
    · next hpointer => exact ⟨pointer, v, rfl, hpointer, (Option.some.inj hstore).symm⟩
    · cases hstore
  · next ty result a b hop hoperands =>
    right; left
    rw [eq_of_opcode hop hoperands]
    split at h
    · obtain ⟨x, -, hx⟩ := Option.bind_eq_some_iff.mp h
      obtain ⟨y, -, hdefine⟩ := Option.bind_eq_some_iff.mp hx
      exact ⟨result, x + y, rfl, define_eq_some hdefine⟩
    · cases h
  · cases h

/-- What a step leaves defined: everything before, and its result, which is new. -/
theorem step_defines {u32 : UInt32} {m m' : Machine} {i : Inst} (h : step u32 m i = some m') :
    (∀ k, m.Defines k → m'.Defines k) ∧
      ∀ id, resultId i = some id → ¬ m.Defines id ∧ m'.Defines id := by
  rcases step_cases h with ⟨hnone, rfl⟩ | ⟨result, v, hresult, hfresh, rfl⟩ |
    ⟨pointer, v, hnone, hpointer, rfl⟩
  · refine ⟨fun _ hk => hk, ?_⟩
    intro id hid
    rw [hnone] at hid
    cases hid
  · constructor
    · intro k hk
      exact (setValue_defines_iff m result v k).mpr (.inr hk)
    · intro id hid
      rw [hresult] at hid
      cases hid
      exact ⟨hfresh, (setValue_defines_iff m result v result).mpr (.inl rfl)⟩
  · constructor
    · intro k hk
      exact (setVariable_defines_iff hpointer v k).mpr hk
    · intro id hid
      rw [hnone] at hid
      cases hid

/-- The results of an execution that is not stuck are new and distinct. -/
theorem exec_results {u32 : UInt32} {insts : List Inst} {m m' : Machine}
    (h : exec u32 insts m = some m') :
    (insts.filterMap resultId).Nodup ∧ ∀ id ∈ insts.filterMap resultId, ¬ m.Defines id := by
  induction insts generalizing m with
  | nil =>
    refine ⟨List.nodup_nil, ?_⟩
    intro id hid
    cases hid
  | cons i insts ih =>
    rw [exec_cons] at h
    obtain ⟨m₁, hstep, hrest⟩ := Option.bind_eq_some_iff.mp h
    obtain ⟨hkeeps, hresult⟩ := step_defines hstep
    obtain ⟨hnodup, hfresh⟩ := ih hrest
    rw [List.filterMap_cons]
    cases hid : resultId i with
    | none =>
      refine ⟨hnodup, ?_⟩
      intro id hmem hdef
      exact hfresh id hmem (hkeeps id hdef)
    | some id =>
      obtain ⟨hnew, hdefined⟩ := hresult id hid
      refine ⟨List.nodup_cons.mpr ⟨fun hmem => hfresh id hmem hdefined, hnodup⟩, ?_⟩
      intro k hmem
      rcases List.mem_cons.mp hmem with rfl | hmem
      · exact hnew
      · exact fun hdef => hfresh k hmem (hkeeps k hdef)

/-- No execution defines more results than there are ids. -/
theorem exec_results_length {u32 : UInt32} {insts : List Inst} {m m' : Machine}
    (h : exec u32 insts m = some m') : (insts.filterMap resultId).length ≤ 2 ^ 32 := by
  have hnodup := (exec_results h).1
  have hnats : ((insts.filterMap resultId).map UInt32.toNat).Nodup :=
    hnodup.map fun a b hab => UInt32.toNat_inj.mp hab
  have hsub : (insts.filterMap resultId).map UInt32.toNat ⊆ List.range (2 ^ 32) := by
    intro n hn
    obtain ⟨id, -, rfl⟩ := List.mem_map.mp hn
    rw [List.mem_range]
    exact id.toNat_lt
  have hle := (hnats.subperm hsub).length_le
  rw [List.length_map, List.length_range] at hle
  exact hle

end Oboromi.Analysis.Spirv
