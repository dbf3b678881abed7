import Oboromi.Analysis.EmitterRuns

/-!
# What `finalize` changes

`finalize` writes at the position of the bound in the last header, which starts out as 0.  The
emitter's position and the header of the run agree from the first header on (`BoundAt`), but
before it position 0 is a word like any other once there is one.
-/

set_option autoImplicit false

namespace Oboromi.Analysis.Spirv

open Oboromi.Lib
open Oboromi.Model.Spirv
open Oboromi.Interface.Spirv

/-! ## Runs with headers -/

/-- The emitters that calls in any order lead to from a new one, each with the position of the
bound word that the last header reserved. -/
inductive Run (build : Build) : Option ℕ → Emitter → Prop where
  | new : Run build none Emitter.new
  | header {reserved : Option ℕ} {e e' : Emitter} (hrun : Run build reserved e)
      (hcall : emitHeader.run e = (.ok (), e')) : Run build (some (e.words.length + 3)) e'
  | call {reserved : Option ℕ} {e e' : Emitter} {c : EmitCall} {result : Option UInt32}
      (hrun : Run build reserved e) (hcall : (execCall build c).run e = (.ok result, e')) :
      Run build reserved e'

/-- `finalize` changes no word but the reserved one, and nothing where none is reserved. -/
structure TouchesBoundOnly (reserved : Option ℕ) (e e' : Emitter) : Prop where
  length : e'.words.length = e.words.length
  words : ∀ i, reserved ≠ some i → e'.words[i]? = e.words[i]?
  unreserved : reserved = none → e' = e

/-! ## The position of the bound -/

/-- The emitter knows the reserved word, which lies in the stream; without one its position is
the first word of all. -/
structure BoundAt (reserved : Option ℕ) (e : Emitter) : Prop where
  position : e.boundIdx = reserved.getD 0
  inside : ∀ i, reserved = some i → i < e.words.length

/-- Patching leaves the index of the bound. -/
theorem patched_boundIdx (e : Emitter) : (patched e).boundIdx = e.boundIdx := by
  unfold patched
  split <;> rfl

/-- Patching replaces a word and adds none. -/
theorem length_patched (e : Emitter) : (patched e).words.length = e.words.length := by
  unfold patched
  split
  · exact List.length_set
  · rfl

/-- A call neither moves the position nor drops words. -/
theorem after_boundAt {reserved : Option ℕ} {e : Emitter} (h : BoundAt reserved e)
    (eff : Effect) : BoundAt reserved (after e eff) := by
  have hgrows (words : List UInt32) (i : ℕ) (hi : reserved = some i) :
      i < (e.words ++ words).length := by
    rw [List.length_append]
    exact Nat.lt_add_right _ (h.inside i hi)
  cases eff with
  | plain i => exact ⟨h.position, hgrows _⟩
  | result i => exact ⟨h.position, hgrows _⟩
  | alloc => exact ⟨h.position, h.inside⟩
  | patch =>
      refine ⟨(patched_boundIdx e).trans h.position, ?_⟩
      intro i hi
      exact (h.inside i hi).trans_eq (length_patched e).symm

/-- After any run the bound's index is the reserved one, or none was reserved. -/
theorem boundAt_of_run {build : Build} {reserved : Option ℕ} {e : Emitter}
    (hrun : Run build reserved e) : BoundAt reserved e := by
  induction hrun with
  | new => exact ⟨rfl, nofun⟩
  | @header reserved e e' hrun hcall ih =>
      cases hcall
      refine ⟨rfl, ?_⟩
      intro i hi
      cases hi
      dsimp only
      rw [List.length_append]
      exact Nat.add_lt_add_left (by decide) _
  | call hrun hcall ih =>
      obtain ⟨-, rfl⟩ := execCall_eq_ok hcall
      exact after_boundAt ih _

/-! ## Patching -/

section Patching

variable {reserved : Option ℕ} {e : Emitter}

/-- Behind a header only its bound is written. -/
theorem patched_touches_of_reserved {i : ℕ} (h : BoundAt (some i) e) :
    TouchesBoundOnly (some i) e (patched e) := by
  have hposition : e.boundIdx = i := h.position
  refine ⟨length_patched e, ?_, nofun⟩
  intro j hj
  have hne : i ≠ j := by
    rintro rfl
    exact hj rfl
  unfold patched
  split
  · rw [hposition]
    exact List.getElem?_set_ne hne
  · rfl

/-- Before any header the first word is written. -/
theorem patched_touches_iff_of_none (h : BoundAt none e) :
    TouchesBoundOnly none e (patched e) ↔ ∀ w, e.words[0]? = some w → w = e.nextId := by
  have hposition : e.boundIdx = 0 := h.position
  cases hwords : e.words with
  | nil =>
      have hshort : ¬ e.boundIdx < e.words.length := by
        rw [hposition, hwords]
        exact Nat.lt_irrefl 0
      have hsame : patched e = e := if_neg hshort
      rw [hsame]
      exact iff_of_true ⟨rfl, fun _ _ => rfl, fun _ => rfl⟩ nofun
  | cons w ws =>
      have hlong : e.boundIdx < e.words.length := by
        rw [hposition, hwords]
        exact Nat.succ_pos _
      have hpatched : patched e = { e with words := e.nextId :: ws } := by
        unfold patched
        rw [if_pos hlong, hposition, hwords]
        rfl
      rw [hpatched]
      constructor
      · intro htouches w' hw'
        have hfirst := htouches.words 0 nofun
        rw [hwords] at hfirst
        exact (Option.some.inj (hfirst.trans hw')).symm
      · intro hfirst
        have hsame : e.nextId :: ws = e.words := by
          rw [hwords, hfirst w rfl]
        rw [hsame]
        exact ⟨rfl, fun _ _ => rfl, fun _ => rfl⟩

end Patching

/-- **`finalize` touches the bound only, in every emitter that calls lead to, exactly when a
header has been emitted, or no words have, or the first word already is the next free id.**
SOURCE: core/src/gpu/spirv.rs:182-189, core/src/gpu/spirv.rs:242-258 -/
theorem finalize_touches_bound_only_iff (build : Build) (reserved : Option ℕ) (e : Emitter)
    (hrun : Run build reserved e) :
    ∃ e', finalize.run e = (.ok (), e') ∧
      (TouchesBoundOnly reserved e e' ↔
        reserved ≠ none ∨ ∀ w, e.words[0]? = some w → w = e.nextId) := by
  have hbound := boundAt_of_run hrun
  refine ⟨patched e, finalize_run e, ?_⟩
  cases reserved with
  | none => rw [patched_touches_iff_of_none hbound, or_iff_right (fun h => h rfl)]
  | some i => exact iff_of_true (patched_touches_of_reserved hbound) (.inl nofun)

/-- After a header and a capability. -/
theorem finalize_touches_bound_only_iff_header :
    ∃ e e', Run .debug (some 3) e ∧ finalize.run e = (.ok (), e') ∧
      TouchesBoundOnly (some 3) e e' := by
  have hrun : Run .debug (some 3) _ :=
    .call (c := .emitCapability 1) (.header .new rfl) rfl
  obtain ⟨e', hfinalize, htouches⟩ := finalize_touches_bound_only_iff .debug (some 3) _ hrun
  exact ⟨_, e', hrun, hfinalize, htouches.mpr (.inl nofun)⟩

/-- Without a header the first word of the stream, a capability's header, is overwritten. -/
theorem finalize_overwrites_capability :
    ∃ e e', Run .debug none e ∧ e.words = [0x00020011, 1] ∧ finalize.run e = (.ok (), e') ∧
      e'.words = [1, 1] ∧ ¬ TouchesBoundOnly none e e' := by
  have hrun : Run .debug none _ := .call (c := .emitCapability 1) .new rfl
  refine ⟨_, _, hrun, rfl, rfl, rfl, ?_⟩
  intro htouches
  have hsame := congrArg Emitter.words (htouches.unreserved rfl)
  exact absurd hsame (by decide)

end Oboromi.Analysis.Spirv
