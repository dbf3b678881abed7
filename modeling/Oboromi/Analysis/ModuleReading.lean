import Oboromi.Analysis.InstructionRoundTrip
import Oboromi.Interface.ModuleListing

/-!
# An emitted module reads back as its calls

The frames of an emitted stream decode one by one (`mapM_decode_words`), and each decodes to
what its call names exactly when the call encodes its name.  So the bytes of a module read back
as the listing of the calls exactly when all of them do.
-/

set_option autoImplicit false

namespace Oboromi.Analysis.Spirv

open Oboromi.Lib
open Oboromi.Model.Spirv
open Oboromi.Interface.Spirv

/-! ## Bytes -/

/-- An emitter gives four bytes a word. -/
theorem length_toBytes (e : Emitter) : e.toBytes.length = 4 * e.words.length := by
  rw [toBytes_eq_flatMap]
  induction e.words with
  | nil => rfl
  | cons w words ih =>
    rw [List.flatMap_cons, List.length_append, ih, List.length_cons]
    change 4 + _ = _
    omega

/-- Decoding the words of encodable instructions decodes the instructions. -/
theorem mapM_decode_words {insts : List Inst} (h : ∀ i ∈ insts, Encodable i) :
    (insts.map Inst.words).mapM decode = insts.mapM decodeInst := by
  induction insts with
  | nil => rfl
  | cons i insts ih =>
    have hrest := ih fun j hj => h j (List.mem_cons_of_mem i hj)
    rw [List.map_cons, List.mapM_cons, List.mapM_cons, hrest, decode_words (h i List.mem_cons_self)]

/-- The bytes of a stream read back as what its instructions decode to. -/
theorem readModule_toBytes {e : Emitter} {bound : UInt32} {insts : List Inst}
    (hwords : e.words = moduleWords bound insts) (h : ∀ i ∈ insts, Encodable i) :
    readModule e.toBytes = (insts.mapM decodeInst).map (ModuleListing.mk VERSION 0 bound 0) := by
  have hwhole : e.toBytes.length % 4 = 0 := by
    rw [length_toBytes]
    exact Nat.mul_mod_right 4 _
  have hframes := Framing.unframe_flatten (frames_of_encodable h)
  unfold readModule
  rw [if_pos hwhole, readWords_toBytes, hwords]
  change (if MAGIC = MAGIC then (Framing.unframe wordCount (insts.map Inst.words).flatten).bind
    fun frames => (frames.mapM decode).bind fun instructions =>
      some (ModuleListing.mk VERSION 0 bound 0 instructions) else none) = _
  rw [if_pos rfl, hframes, Option.bind_some, mapM_decode_words h]
  cases insts.mapM decodeInst <;> rfl

/-! ## Calls -/

/-- A call that names no instruction emits none, and there is nothing for it to miss. -/
theorem emitted_of_not_named {call : EmitCall} (hnamed : call.named = none) (next : UInt32) :
    (call.effect.entry next).emitted = none ∧ EncodesItsName call := by
  cases call
  case allocId => exact ⟨rfl, trivial⟩
  case finalize => exact ⟨rfl, trivial⟩
  all_goals cases hnamed

/-- Two lists that start alike are read alike when their tails are. -/
theorem mapM_cons_eq_some_iff {i : Inst} {insts : List Inst} {instruction : Instruction}
    {instructions : List Instruction} :
    (i :: insts).mapM decodeInst = some (instruction :: instructions) ↔
      decodeInst i = some instruction ∧ insts.mapM decodeInst = some instructions := by
  rw [List.mapM_cons]
  cases decodeInst i with
  | none => simp
  | some first =>
    cases insts.mapM decodeInst with
    | none => simp
    | some others => simp

/-- The instructions of a log decode to the listing exactly when every call encodes its name:
by induction over the calls. -/
theorem mapM_decodeInst_log_iff {calls : List EmitCall} (next : UInt32)
    (hnul : ∀ call ∈ calls, ∀ s ∈ call.strings, NulFree s) :
    ((log next calls).filterMap Entry.emitted).mapM decodeInst =
        some (listing calls ((log next calls).map Entry.returned)) ↔
      ∀ call ∈ calls, EncodesItsName call := by
  induction calls generalizing next with
  | nil => simp [log, listing]
  | cons call calls ih =>
    have hfirst := hnul call List.mem_cons_self
    have hrest := ih (call.effect.next next) fun c hc => hnul c (List.mem_cons_of_mem call hc)
    rw [List.forall_mem_cons, ← hrest, log, List.filterMap_cons, List.map_cons, listing]
    cases hnamed : call.named with
    | none =>
      obtain ⟨hemitted, hencodes⟩ := emitted_of_not_named hnamed next
      rw [hemitted, and_iff_right hencodes]
      rfl
    | some instruction =>
      obtain ⟨i, hemit⟩ := exists_emitted_of_named hnamed next
      have hdecode : decodeInst i = some (instruction (call.effect.entry next).returned) ↔
          EncodesItsName call := by
        constructor
        · intro heq
          by_contra hmissed
          exact decodeInst_emitted_ne hnamed hemit hmissed heq
        · exact decodeInst_emitted hnamed hemit hfirst
      rw [hemit, ← hdecode]
      exact mapM_cons_eq_some_iff

/-! ## Modules -/

/-- **Module round trip.**  For every list of calls whose strings hold no NUL and whose
instructions fit their headers: the bytes of the module that is emitted read back as exactly
the instructions the calls name, with the ids they returned, under the next free id as the
bound, if and only if every call encodes its name.
SOURCE: core/src/gpu/spirv.rs:193-258, 264-1083, 1122-1128 -/
theorem module_reads_back_iff (build : Build) (calls : List EmitCall)
    (results : List (Option UInt32)) (e : Emitter)
    (hrun : (emitModule build calls).run Emitter.new = (.ok results, e))
    (hnul : ∀ call ∈ calls, ∀ s ∈ call.strings, NulFree s)
    (hsize : ∀ i ∈ emittedInsts calls, i.operands.length ≤ 65534) :
    readModule e.toBytes = some ⟨VERSION, 0, idAfter 1 calls, 0, listing calls results⟩ ↔
      ∀ call ∈ calls, EncodesItsName call := by
  obtain ⟨hresults, hwords⟩ := emitModule_stream hrun
  have hread := readModule_toBytes hwords (emittedInsts_encodable hsize)
  rw [hread, hresults, ← mapM_decodeInst_log_iff 1 hnul]
  change (((log 1 calls).filterMap Entry.emitted).mapM decodeInst).map _ = _ ↔ _
  constructor
  · intro heq
    obtain ⟨instructions, hinstructions, hlisting⟩ := Option.map_eq_some_iff.mp heq
    rw [hinstructions]
    exact congrArg (fun l => some l.instructions) hlisting
  · intro heq
    rw [heq]
    rfl

/-- The minimal compute module, with its entry point by name. -/
theorem module_reads_back_iff_minimal :
    ∃ e : Emitter,
      (emitModule .debug [.emitCapability 1, .emitMemoryModel 0 1, .emitTypeVoid,
        .emitEntryPoint 5 3 "main" []]).run Emitter.new = (.ok [none, none, some 1, none], e) ∧
      readModule e.toBytes = some ⟨VERSION, 0, 2, 0,
        [⟨.opCapability, none, none, [.literal 1]⟩,
          ⟨.opMemoryModel, none, none, [.literal 0, .literal 1]⟩,
          ⟨.opTypeVoid, none, some 1, []⟩,
          ⟨.opEntryPoint, none, none, [.literal 5, .id 3, .string "main"]⟩]⟩ := by
  refine ⟨_, rfl, ?_⟩
  have hiff := module_reads_back_iff .debug [.emitCapability 1, .emitMemoryModel 0 1,
    .emitTypeVoid, .emitEntryPoint 5 3 "main" []] _ _ rfl (by simp [EmitCall.strings, NulFree])
    (by decide)
  exact hiff.mpr (by simp [EncodesItsName])

end Oboromi.Analysis.Spirv
