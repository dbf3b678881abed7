import Oboromi.Analysis.EmitterRuns
import Mathlib.Data.List.Nodup
import Mathlib.Data.List.Range

/-!
# The result ids of a run

While the counter does not wrap, the ids of the log are consecutive numbers (`returned_log`).
That gives distinctness and the bound at once; the words in result positions are a sublist of
them (`defined_sublist`), because each method writes the id it returns there
(`entry_resultId`).
-/

set_option autoImplicit false

namespace Oboromi.Analysis.Spirv

open Oboromi.Lib
open Oboromi.Model.Spirv
open Oboromi.Interface.Spirv

/-- An instruction defines exactly the id its call returned. -/
theorem entry_resultId (call : EmitCall) (next : UInt32) (i : Inst)
    (h : (call.effect.entry next).emitted = some i) :
    resultId i = (call.effect.entry next).returned := by
  cases call
  all_goals cases h
  all_goals rfl

/-- The ids of the log are consecutive. -/
theorem returned_log {calls : List EmitCall} {next : UInt32}
    (h : next.toNat + allocations calls < 2 ^ 32) :
    ((log next calls).filterMap Entry.returned).map UInt32.toNat =
      List.range' next.toNat (allocations calls) := by
  induction calls generalizing next with
  | nil => rfl
  | cons call calls ih =>
    rw [allocations_cons] at h
    have hnext : (call.effect.next next).toNat =
        next.toNat + (if call.effect.allocates then 1 else 0) := next_toNat (by omega)
    have hroom : (call.effect.next next).toNat + allocations calls < 2 ^ 32 := by omega
    have hrest := ih hroom
    rw [hnext] at hrest
    rw [log, allocations_cons]
    cases heff : call.effect with
    | plain i =>
      rw [heff] at hrest
      exact hrest
    | result i =>
      rw [heff] at hrest
      exact (congrArg (next.toNat :: ·) hrest).trans List.range'_succ.symm
    | alloc =>
      rw [heff] at hrest
      exact (congrArg (next.toNat :: ·) hrest).trans List.range'_succ.symm
    | patch =>
      rw [heff] at hrest
      exact hrest

/-- Below the limit every allocation counts the next id up by one. -/
theorem idAfter_toNat {calls : List EmitCall} {next : UInt32}
    (h : next.toNat + allocations calls < 2 ^ 32) :
    (idAfter next calls).toNat = next.toNat + allocations calls := by
  induction calls generalizing next with
  | nil => rfl
  | cons call calls ih =>
    rw [allocations_cons] at h
    have hnext : (call.effect.next next).toNat =
        next.toNat + (if call.effect.allocates then 1 else 0) := next_toNat (by omega)
    have hroom : (call.effect.next next).toNat + allocations calls < 2 ^ 32 := by omega
    have hrest := ih hroom
    rw [hnext] at hrest
    rw [allocations_cons]
    calc (idAfter next (call :: calls)).toNat
        = (idAfter (call.effect.next next) calls).toNat := rfl
      _ = next.toNat + (if call.effect.allocates then 1 else 0) + allocations calls := hrest
      _ = next.toNat + (allocations calls + if call.effect.allocates then 1 else 0) := by omega

/-- Fewer than 2^32 - 1 allocations leave the counter below its limit. -/
theorem one_add_allocations_lt {calls : List EmitCall} (h : allocations calls < 2 ^ 32 - 1) :
    (1 : UInt32).toNat + allocations calls < 2 ^ 32 := by
  have hone : (1 : UInt32).toNat = 1 := rfl
  omega

/-- A module's bound is one more than the number of ids it takes. -/
theorem bound_toNat {calls : List EmitCall} (h : allocations calls < 2 ^ 32 - 1) :
    (idAfter 1 calls).toNat = 1 + allocations calls := idAfter_toNat (one_add_allocations_lt h)

/-- The ids a module's calls return, while there are fewer than `2 ^ 32 - 1` of them. -/
theorem mem_returned_iff {calls : List EmitCall} (h : allocations calls < 2 ^ 32 - 1)
    (id : UInt32) :
    id ∈ (log 1 calls).filterMap Entry.returned ↔ id ≠ 0 ∧ id.toNat ≤ allocations calls := by
  have hrange := returned_log (one_add_allocations_lt h)
  have hone : (1 : UInt32).toNat = 1 := rfl
  rw [hone] at hrange
  have hzero : id ≠ 0 ↔ 1 ≤ id.toNat := by
    rw [ne_eq, ← UInt32.toNat_inj]
    exact Nat.pos_iff_ne_zero.symm
  rw [hzero]
  constructor
  · intro hid
    have hmem := List.mem_map_of_mem (f := UInt32.toNat) hid
    rw [hrange, List.mem_range'_1] at hmem
    omega
  · rintro ⟨hlow, hhigh⟩
    have hmem : id.toNat ∈ List.range' 1 (allocations calls) := by
      rw [List.mem_range'_1]
      omega
    rw [← hrange] at hmem
    obtain ⟨id', hid', heq⟩ := List.mem_map.mp hmem
    rw [UInt32.toNat_inj.mp heq] at hid'
    exact hid'

/-- The ids returned in a run are distinct. -/
theorem returned_nodup {calls : List EmitCall} (h : allocations calls < 2 ^ 32 - 1) :
    ((log 1 calls).filterMap Entry.returned).Nodup := by
  have hrange := returned_log (one_add_allocations_lt h)
  apply List.Nodup.of_map UInt32.toNat
  rw [hrange]
  exact List.nodup_range'

/-- What the instructions define is a sublist of what their calls returned. -/
theorem defined_sublist (next : UInt32) (calls : List EmitCall) :
    List.Sublist (((log next calls).filterMap Entry.emitted).filterMap resultId)
      ((log next calls).filterMap Entry.returned) := by
  induction calls generalizing next with
  | nil => exact List.Sublist.slnil
  | cons call calls ih =>
    have hrest := ih (call.effect.next next)
    have hid := entry_resultId call next
    rw [log, List.filterMap_cons, List.filterMap_cons]
    cases hemit : (call.effect.entry next).emitted with
    | none =>
      cases hret : (call.effect.entry next).returned with
      | none => exact hrest
      | some id => exact hrest.cons id
    | some i =>
      have hdefines := hid i hemit
      rw [List.filterMap_cons, hdefines]
      cases hret : (call.effect.entry next).returned with
      | none => exact hrest
      | some id => exact hrest.cons_cons id

/-- The ids returned by the logged entries. -/
theorem returnedIds_map (entries : List Entry) :
    returnedIds (entries.map Entry.returned) = entries.filterMap Entry.returned := by
  rw [returnedIds, List.filterMap_map]
  rfl

/-- The bound is one more than the largest id, or 1 when no id was allocated. -/
theorem bound_eq_largest {calls : List EmitCall} (h : allocations calls < 2 ^ 32 - 1) :
    (log 1 calls).filterMap Entry.returned = [] ∧ idAfter 1 calls = 1 ∨
      ∃ largest ∈ (log 1 calls).filterMap Entry.returned,
        (∀ id ∈ (log 1 calls).filterMap Entry.returned, id ≤ largest) ∧
        (idAfter 1 calls).toNat = largest.toNat + 1 := by
  have hbound := bound_toNat h
  by_cases hnone : allocations calls = 0
  · left
    rw [hnone] at hbound
    refine ⟨?_, UInt32.toNat_inj.mp hbound⟩
    apply List.eq_nil_iff_forall_not_mem.mpr
    intro id hid
    obtain ⟨hpos, hle⟩ := (mem_returned_iff h id).mp hid
    rw [hnone] at hle
    exact hpos (UInt32.toNat_inj.mp (Nat.le_zero.mp hle))
  · right
    have hlargest : (UInt32.ofNat (allocations calls)).toNat = allocations calls := by
      rw [UInt32.toNat_ofNat']
      omega
    refine ⟨UInt32.ofNat (allocations calls), ?_, ?_, ?_⟩
    · rw [mem_returned_iff h]
      refine ⟨fun hzero => hnone ?_, hlargest.le⟩
      rw [← hlargest, hzero]
      rfl
    · intro id hid
      rw [UInt32.le_iff_toNat_le, hlargest]
      exact ((mem_returned_iff h id).mp hid).2
    · rw [hlargest, hbound, Nat.add_comm]

/-- An id of the run is below the bound. -/
theorem returned_lt_bound {calls : List EmitCall} (h : allocations calls < 2 ^ 32 - 1)
    {id : UInt32} (hid : id ∈ (log 1 calls).filterMap Entry.returned) : id < idAfter 1 calls := by
  have hbound := bound_toNat h
  obtain ⟨-, hle⟩ := (mem_returned_iff h id).mp hid
  rw [UInt32.lt_iff_toNat_lt, hbound]
  omega

/-- **Result-id discipline.**  For every list of calls that takes fewer than `2 ^ 32 - 1` ids:
a module that is emitted has its result ids in order.  A release build always emits the
module; a debug build does when its argument checks pass.
SOURCE: core/src/gpu/spirv.rs:193-258 -/
theorem emitModule_ids_disciplined (build : Build) (calls : List EmitCall)
    (hids : allocations calls < 2 ^ 32 - 1) :
    (∀ results e, (emitModule build calls).run Emitter.new = (.ok results, e) →
      IdDiscipline calls results e) ∧
    (build = .release ∨ (∀ call ∈ calls, call.asserts = true) →
      ∃ results e, (emitModule build calls).run Emitter.new = (.ok results, e)) := by
  constructor
  · intro results e hrun
    obtain ⟨hresults, hwords⟩ := emitModule_stream hrun
    have hreturned : returnedIds results = (log 1 calls).filterMap Entry.returned := by
      rw [hresults, returnedIds_map]
    have hword3 : e.words[3]? = some (idAfter 1 calls) := by
      rw [hwords]
      rfl
    refine ⟨?_, ?_, ?_, ?_, idAfter 1 calls, hwords, hword3, ?_, ?_⟩
    · rw [hreturned]
      exact returned_nodup hids
    · intro id hid
      rw [hreturned] at hid
      obtain ⟨hpos, -⟩ := (mem_returned_iff hids id).mp hid
      rw [UInt32.le_iff_toNat_le]
      exact Nat.pos_of_ne_zero fun hzero => hpos (UInt32.toNat_inj.mp hzero)
    · intro k entry hentry
      refine ⟨?_, ?_⟩
      · rw [hresults, List.getElem?_map, hentry]
        rfl
      · intro i hi
        obtain ⟨call, -, id, rfl⟩ := mem_log (List.mem_of_getElem? hentry)
        exact entry_resultId call id i hi
    · exact (returned_nodup hids).sublist (defined_sublist 1 calls)
    · intro id hid
      rw [hreturned] at hid
      exact returned_lt_bound hids hid
    · rw [hreturned]
      exact bound_eq_largest hids
  · intro hbuild
    exact emitModule_returns (hbuild.imp_right fun hasserts => ⟨hasserts, hids⟩)

/-- Two types, whose result is the first word, an id that is only taken, a constant and a variable,
whose result is behind their type, and a store, which has none. -/
def declaringCalls : List EmitCall :=
  [.emitTypeInt 32 0, .emitTypePointer 7 1, .allocId, .emitConstant 1 [5], .emitVariable 2 7,
    .emitStore 5 4]

/-- Five declarations and a function end, with result ids at either position. -/
theorem emitModule_ids_disciplined_declaring :
    ∃ e, (emitModule .debug declaringCalls).run Emitter.new =
        (.ok [some 1, some 2, some 3, some 4, some 5, none], e) ∧
      IdDiscipline declaringCalls [some 1, some 2, some 3, some 4, some 5, none] e := by
  obtain ⟨hdisciplined, -⟩ := emitModule_ids_disciplined .debug declaringCalls (by decide)
  exact ⟨_, rfl, hdisciplined _ _ rfl⟩

end Oboromi.Analysis.Spirv
