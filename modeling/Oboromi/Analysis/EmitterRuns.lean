import Oboromi.Interface.EmitterCalls

/-!
# What a run of the emitter leaves behind

`execCall_eq` is the one place where every method is opened: a call whose checks pass takes
at most one id and appends the one instruction its effect names.  From it one step of a run
(`execCall_framed`) and, by induction over the calls, a whole run (`runCalls_framed`): the
stream is the header followed by the instructions of the log, and the results are the log's.
-/

set_option autoImplicit false

namespace Oboromi.Analysis.Spirv

open Oboromi.Lib
open Oboromi.Model.Spirv
open Oboromi.Interface.Spirv

/-! ## Operand lists built by loops -/

/-- A byte of a string only ever pushes onto the buffer. -/
theorem foldl_encodeByte (bytes : List (UInt8 × ℕ)) (buf : List UInt32) (word : UInt32) :
    bytes.foldl encodeByte (buf, word) =
      (buf ++ (bytes.foldl encodeByte ([], word)).1, (bytes.foldl encodeByte ([], word)).2) := by
  induction bytes generalizing buf word with
  | nil => simp
  | cons b bytes ih =>
    rw [List.foldl_cons, List.foldl_cons]
    by_cases hlast : b.2 % 4 = 3
    · simp only [encodeByte, if_pos hlast, List.nil_append]
      rw [ih (buf ++ _), ih [_]]
      simp only [List.append_assoc]
    · simp only [encodeByte, if_neg hlast]
      exact ih buf _

/-- The loop of `encode_string` and its last push, started at a word boundary. -/
theorem foldl_encodeByte_pack (bytes : List UInt8) {i : ℕ} (hi : i % 4 = 0) :
    ((bytes.zipIdx i).foldl encodeByte ([], 0)).1 ++
      [((bytes.zipIdx i).foldl encodeByte ([], 0)).2] = packString bytes := by
  have h₁ : (i + 1) % 4 = 1 := by omega
  have h₂ : (i + 1 + 1) % 4 = 2 := by omega
  have h₃ : (i + 1 + 1 + 1) % 4 = 3 := by omega
  induction bytes using packString.induct generalizing i with
  | case1 b₀ b₁ b₂ b₃ bytes ih =>
    -- The fourth byte pushes the word, and the loop is at a boundary again.
    have hrest := ih (i := i + 4) (by omega) (by omega) (by omega) (by omega)
    have hfour : ([b₀, b₁, b₂, b₃].zipIdx i).foldl encodeByte ([], 0) =
        ([fromLeBytes b₀ b₁ b₂ b₃], 0) := by
      simp [encodeByte, fromLeBytes, hi, h₁, h₂, h₃]
    have hsplit : (b₀ :: b₁ :: b₂ :: b₃ :: bytes).zipIdx i =
        [b₀, b₁, b₂, b₃].zipIdx i ++ bytes.zipIdx (i + 4) := rfl
    rw [hsplit, List.foldl_append, hfour, foldl_encodeByte, packString, ← hrest]
    rfl
  | case2 b₀ b₁ b₂ => simp [encodeByte, packString, fromLeBytes, hi, h₁, h₂]
  | case3 b₀ b₁ => simp [encodeByte, packString, fromLeBytes, hi, h₁]
  | case4 b₀ => simp [encodeByte, packString, fromLeBytes, hi]
  | case5 => simp [packString, fromLeBytes]

/-- `encode_string` packs the bytes of the string, terminator and padding included, and appends
them.
SOURCE: core/src/gpu/spirv.rs:75-86 -/
theorem encodeString_eq (buf : List UInt32) (s : String) :
    encodeString buf s = buf ++ packedString s := by
  have hpack := foldl_encodeByte_pack (utf8Bytes s) (Nat.zero_mod 4)
  unfold encodeString packedString
  dsimp only
  rw [foldl_encodeByte _ buf, List.append_assoc, ← hpack]
  rfl

/-- The loop over pairs appends their words. -/
theorem pushPairs_eq (data : List UInt32) (pairs : List (UInt32 × UInt32)) :
    pushPairs data pairs = data ++ pairWords pairs := by
  induction pairs generalizing data with
  | nil => simp [pushPairs, pairWords]
  | cons pair pairs ih =>
    have hrest := ih (data ++ [pair.1] ++ [pair.2])
    simp only [pushPairs, pairWords, List.foldl_cons, List.flatMap_cons] at hrest ⊢
    rw [hrest]
    simp only [List.append_assoc, List.cons_append, List.nil_append]

/-- The loop over literals appends their words. -/
theorem foldl_toWords {T : Type} [Literal T] (data : List UInt32) (constituents : List T) :
    constituents.foldl (fun data e => data ++ Literal.toWords e) data =
      data ++ constituents.flatMap Literal.toWords := by
  induction constituents generalizing data with
  | nil => simp
  | cons e es ih => rw [List.foldl_cons, ih, List.flatMap_cons, List.append_assoc]

/-! ## One call -/

/-- The shape of every method that returns an id: take one, emit one instruction with it. -/
def emitResult (build : Build) (i : UInt32 → Inst) : Sys Emitter UInt32 := do
  let r ← allocId build
  inst (i r).opcode (i r).operands
  return r

/-- The program an effect stands for. -/
def effectCall (build : Build) : Effect → Sys Emitter (Option UInt32)
  | .plain i => voidCall (inst i.opcode i.operands)
  | .result i => idCall (emitResult build i)
  | .alloc => idCall (allocId build)
  | .patch => voidCall finalize

/-- An assertion that holds, or is not compiled, does nothing. -/
theorem debugAssert_of_holds {build : Build} {c : Bool} (h : build = .release ∨ c = true) :
    debugAssert build c = .ok () := by
  apply if_neg
  rintro ⟨rfl, hfalse⟩
  rcases h with h | h
  · cases h
  · rw [hfalse] at h
    cases h

/-- A check that passes leaves the rest of the method to run. -/
theorem assert_bind {build : Build} {c : Bool} (h : build = .release ∨ c = true) {α : Type}
    (x : Sys Emitter α) :
    ((debugAssert build c : Sys Emitter Unit) >>= fun _ => x) = x := by
  rw [debugAssert_of_holds h]
  rfl

/-- An integer type that passes its assertions is emitted. -/
theorem emitTypeInt_eq {build : Build} {width sign : UInt32}
    (hwidth : build = .release ∨ decide (width = 8 ∨ width = 16 ∨ width = 32 ∨ width = 64) = true)
    (hsign : build = .release ∨ decide (sign ≤ 1) = true) :
    emitTypeInt build width sign = emitResult build fun r => ⟨21, [r, width, sign]⟩ :=
  (assert_bind hwidth _).trans (assert_bind hsign _)

/-- A float type that passes its assertion is emitted. -/
theorem emitTypeFloat_eq {build : Build} {width : UInt32}
    (h : build = .release ∨ decide (width = 16 ∨ width = 32 ∨ width = 64) = true) :
    emitTypeFloat build width = emitResult build fun r => ⟨22, [r, width]⟩ := assert_bind h _

/-- A vector type that passes its assertion is emitted. -/
theorem emitTypeVector_eq {build : Build} {componentType count : UInt32}
    (h : build = .release ∨ decide (count ≥ 2 ∧ count ≤ 16) = true) :
    emitTypeVector build componentType count =
      emitResult build fun r => ⟨23, [r, componentType, count]⟩ := assert_bind h _

/-- Every method whose checks pass does what its effect says. -/
theorem execCall_eq {build : Build} {call : EmitCall} (h : build = .release ∨ call.asserts = true) :
    execCall build call = effectCall build call.effect := by
  cases call
  -- Operand lists built by a loop.
  case emitExtension name =>
    simp only [execCall, emitExtension, EmitCall.effect, effectCall, encodeString_eq,
      List.nil_append]
  case emitExtInstImport name =>
    simp only [execCall, emitExtInstImport, EmitCall.effect, effectCall, emitResult,
      encodeString_eq]
  case emitEntryPoint execModel func name interfaces =>
    simp only [execCall, emitEntryPoint, EmitCall.effect, effectCall, encodeString_eq]
  case emitName target name =>
    simp only [execCall, emitName, EmitCall.effect, effectCall, encodeString_eq]
  case emitMemberName ty member name =>
    simp only [execCall, emitMemberName, EmitCall.effect, effectCall, encodeString_eq]
  case emitConstantCompositeTyped T lit ty constituents =>
    simp only [execCall, emitConstantCompositeTyped, EmitCall.effect, effectCall, emitResult,
      foldl_toWords]
  case emitPhi ty sources =>
    simp only [execCall, emitPhi, EmitCall.effect, effectCall, emitResult, pushPairs_eq]
  case emitSwitch selector default targets =>
    simp only [execCall, emitSwitch, EmitCall.effect, effectCall, pushPairs_eq]
  -- Methods that check their arguments in a debug build.
  case emitTypeInt width sign =>
    have hchecks := h.imp_right (Bool.and_eq_true _ _).mp
    have hwidth := hchecks.imp_right And.left
    have hsign := hchecks.imp_right And.right
    exact congrArg idCall (emitTypeInt_eq hwidth hsign)
  case emitTypeFloat width => exact congrArg idCall (emitTypeFloat_eq h)
  case emitTypeVector componentType count => exact congrArg idCall (emitTypeVector_eq h)
  case emitTypeMatrix columnType columns => exact congrArg idCall (assert_bind h _)
  all_goals rfl

/-- A check that fails stops the method before it touches the emitter. -/
theorem assert_bind_panics {c : Bool} (h : c = false) {α : Type} (x : Sys Emitter α)
    (e : Emitter) :
    ((debugAssert .debug c : Sys Emitter Unit) >>= fun _ => x).run e = (.error .panic, e) := by
  rw [h]
  rfl

/-- A method that panics panics as a call. -/
theorem idCall_panics {x : Sys Emitter UInt32} {e : Emitter} (h : x.run e = (.error .panic, e)) :
    (idCall x).run e = (.error .panic, e) := Sys.run_bind_error h _

/-- A call whose check fails panics in a debug build. -/
theorem execCall_debug_of_not_asserts {call : EmitCall} (h : call.asserts = false) (e : Emitter) :
    (execCall .debug call).run e = (.error .panic, e) := by
  cases call
  case emitTypeInt width sign =>
    apply idCall_panics
    rcases (Bool.and_eq_false_iff.mp h) with hwidth | hsign
    · exact assert_bind_panics hwidth _ e
    · by_cases hwidth : decide (width = 8 ∨ width = 16 ∨ width = 32 ∨ width = 64) = true
      · unfold emitTypeInt
        rw [assert_bind (.inr hwidth)]
        exact assert_bind_panics hsign _ e
      · exact assert_bind_panics (Bool.eq_false_iff.mpr hwidth) _ e
  case emitTypeFloat width => exact idCall_panics (assert_bind_panics h _ e)
  case emitTypeVector componentType count => exact idCall_panics (assert_bind_panics h _ e)
  case emitTypeMatrix columnType columns => exact idCall_panics (assert_bind_panics h _ e)
  all_goals cases h

/-! ## The id counter -/

/-- An id is allocated while there are any. -/
theorem allocId_run {build : Build} {e : Emitter}
    (h : build = .release ∨ e.nextId.toNat + 1 < 2 ^ 32) :
    (allocId build).run e = (.ok e.nextId, { e with nextId := e.nextId + 1 }) := by
  have hnext : build.addU32 e.nextId 1 = .ok (e.nextId + 1) := by
    rcases h with rfl | hfits
    · exact Build.addU32_release
    · exact Build.addU32_of_fits hfits
  unfold allocId
  simp only [Sys.run_bind, Sys.run_get, Sys.run_liftM, hnext, Sys.run_modify, Sys.run_pure]

/-- A debug build panics when there are none left. -/
theorem allocId_panics {e : Emitter} (h : ¬ e.nextId.toNat + 1 < 2 ^ 32) :
    (allocId .debug).run e = (.error .panic, e) := by
  have hnext : Build.debug.addU32 e.nextId 1 = .error .panic := by
    unfold Build.addU32
    rw [decide_eq_false (by simpa using h), Build.debug_checked_false]
  unfold allocId
  simp only [Sys.run_bind, Sys.run_get, Sys.run_liftM, hnext]

/-! ## One step of a run -/

/-- The emitter with the bound patched into its header. -/
def patched (e : Emitter) : Emitter :=
  if e.boundIdx < e.words.length then { e with words := e.words.set e.boundIdx e.nextId } else e

/-- `finalize` patches the bound. -/
theorem finalize_run (e : Emitter) : finalize.run e = (.ok (), patched e) := rfl

/-- Patching leaves the counter. -/
theorem patched_nextId (e : Emitter) : (patched e).nextId = e.nextId := by
  unfold patched
  split <;> rfl

/-- The emitter after an effect. -/
def after (e : Emitter) : Effect → Emitter
  | .plain i => { e with words := e.words ++ i.words }
  | .result i => { e with words := e.words ++ (i e.nextId).words, nextId := e.nextId + 1 }
  | .alloc => { e with nextId := e.nextId + 1 }
  | .patch => patched e

/-- An effect that emits an instruction appends its words. -/
theorem after_words {e : Emitter} {eff : Effect} {i : Inst}
    (hemit : (eff.entry e.nextId).emitted = some i) :
    (after e eff).words = e.words ++ i.words := by
  cases eff with
  | plain j =>
    cases hemit
    rfl
  | result j =>
    cases hemit
    rfl
  | alloc => cases hemit
  | patch => cases hemit

/-- The counter after a call. -/
theorem after_nextId (e : Emitter) (eff : Effect) : (after e eff).nextId = eff.next e.nextId := by
  cases eff with
  | plain i => rfl
  | result i => rfl
  | alloc => rfl
  | patch => exact patched_nextId e

/-- A plain instruction appends its words. -/
theorem inst_run (i : Inst) (e : Emitter) :
    (inst i.opcode i.operands).run e = (.ok (), { e with words := e.words ++ i.words }) := by
  unfold inst
  rw [Sys.run_modify, List.append_assoc]
  rfl

/-- An instruction with a result takes an id and appends its words. -/
theorem emitResult_run {build : Build} {e : Emitter} (i : UInt32 → Inst)
    (h : build = .release ∨ e.nextId.toNat + 1 < 2 ^ 32) :
    (emitResult build i).run e = (.ok e.nextId,
      { e with words := e.words ++ (i e.nextId).words, nextId := e.nextId + 1 }) := by
  have hinst := inst_run (i e.nextId) { e with nextId := e.nextId + 1 }
  unfold emitResult
  rw [Sys.run_bind_ok (allocId_run h), Sys.run_bind_ok hinst, Sys.run_pure]

/-- A call may go on: a debug build needs its checks to pass and the id counter not to
overflow. -/
def Accepts (build : Build) (e : Emitter) (call : EmitCall) : Prop :=
  build = .release ∨
    call.asserts = true ∧ (call.effect.allocates = true → e.nextId.toNat + 1 < 2 ^ 32)

/-- A call with an effect returns what the effect says, and leaves it. -/
theorem effectCall_run {build : Build} {e : Emitter} {eff : Effect}
    (h : build = .release ∨ (eff.allocates = true → e.nextId.toNat + 1 < 2 ^ 32)) :
    (effectCall build eff).run e = (.ok (eff.entry e.nextId).returned, after e eff) := by
  cases eff with
  | plain i => exact Sys.run_bind_ok (inst_run i e) _
  | result i =>
    have hemit := emitResult_run i (h.imp_right fun h => h rfl)
    exact Sys.run_bind_ok hemit _
  | alloc =>
    have hid := allocId_run (h.imp_right fun h => h rfl)
    exact Sys.run_bind_ok hid _
  | patch => rfl

/-- A call that needs an id panics in a debug build without one. -/
theorem effectCall_panics {e : Emitter} {eff : Effect} (halloc : eff.allocates = true)
    (h : ¬ e.nextId.toNat + 1 < 2 ^ 32) :
    (effectCall .debug eff).run e = (.error .panic, e) := by
  have hid := allocId_panics h
  cases eff with
  | plain i => cases halloc
  | result i => exact idCall_panics (Sys.run_bind_error hid _)
  | alloc => exact idCall_panics hid
  | patch => cases halloc

/-- A call that is accepted does what its effect says. -/
theorem execCall_run {build : Build} {e : Emitter} {call : EmitCall} (h : Accepts build e call) :
    (execCall build call).run e =
      (.ok (call.effect.entry e.nextId).returned, after e call.effect) := by
  rw [execCall_eq (h.imp_right And.left)]
  exact effectCall_run (h.imp_right And.right)

/-- A call that may not go on panics. -/
theorem execCall_panics {build : Build} {e : Emitter} {call : EmitCall}
    (h : ¬ Accepts build e call) : (execCall build call).run e = (.error .panic, e) := by
  cases build with
  | release => exact absurd (.inl rfl) h
  | debug =>
    cases hasserts : call.asserts with
    | false => exact execCall_debug_of_not_asserts hasserts e
    | true =>
      have hfull : ¬ (call.effect.allocates = true → e.nextId.toNat + 1 < 2 ^ 32) := by
        intro hid
        exact h (.inr ⟨hasserts, hid⟩)
      rw [Classical.not_imp] at hfull
      rw [execCall_eq (.inr hasserts)]
      exact effectCall_panics hfull.1 hfull.2

/-- A call that returns did what its effect says. -/
theorem execCall_eq_ok {build : Build} {e e' : Emitter} {call : EmitCall}
    {result : Option UInt32} (h : (execCall build call).run e = (.ok result, e')) :
    result = (call.effect.entry e.nextId).returned ∧ e' = after e call.effect := by
  by_cases hok : Accepts build e call
  · rw [execCall_run hok] at h
    cases h
    exact ⟨rfl, rfl⟩
  · rw [execCall_panics hok] at h
    cases h

/-! ## The stream of a run -/

/-- The stream so far is the header and the given instructions, and `finalize` will patch the
header's bound. -/
structure Framed (e : Emitter) (bound : UInt32) (insts : List Inst) : Prop where
  words : e.words = moduleWords bound insts
  boundIdx : e.boundIdx = 3

/-- One more instruction in the stream. -/
theorem moduleWords_append (bound : UInt32) (insts : List Inst) (i : Inst) :
    moduleWords bound insts ++ i.words = moduleWords bound (insts ++ [i]) := by
  simp only [moduleWords, List.map_append, List.flatten_append, List.append_assoc, List.map_cons,
    List.map_nil, List.flatten_cons, List.flatten_nil, List.append_nil]

/-- The header frames an empty stream, and the first id is 1. -/
theorem emitHeader_framed :
    ∃ e, emitHeader.run Emitter.new = (.ok (), e) ∧ Framed e 0 [] ∧ e.nextId = 1 := by
  refine ⟨_, rfl, ⟨?_, rfl⟩, rfl⟩
  rfl

/-- `finalize` writes the next free id into the header and nothing else. -/
theorem patched_framed {e : Emitter} {bound : UInt32} {insts : List Inst}
    (h : Framed e bound insts) : Framed (patched e) e.nextId insts := by
  have hlong : e.boundIdx < e.words.length := by
    have hheader : (headerWords bound).length = 5 := rfl
    rw [h.boundIdx, h.words, moduleWords, List.length_append]
    omega
  unfold patched
  rw [if_pos hlong]
  refine ⟨?_, h.boundIdx⟩
  dsimp only
  rw [h.words, h.boundIdx]
  rfl

/-- An effect appends what its entry says it emits; only the bound word may change. -/
theorem after_framed {e : Emitter} {bound : UInt32} {insts : List Inst}
    (h : Framed e bound insts) (eff : Effect) :
    ∃ bound', Framed (after e eff) bound'
      (insts ++ (eff.entry e.nextId).emitted.toList) := by
  cases eff with
  | plain i =>
    have happend := moduleWords_append bound insts i
    rw [← h.words] at happend
    exact ⟨bound, happend, h.boundIdx⟩
  | result i =>
    have happend := moduleWords_append bound insts (i e.nextId)
    rw [← h.words] at happend
    exact ⟨bound, happend, h.boundIdx⟩
  | alloc =>
    have hnone : insts ++ (Effect.alloc.entry e.nextId).emitted.toList = insts := List.append_nil _
    rw [hnone]
    exact ⟨bound, h.words, h.boundIdx⟩
  | patch =>
    have hnone : insts ++ (Effect.patch.entry e.nextId).emitted.toList = insts := List.append_nil _
    rw [hnone]
    exact ⟨e.nextId, patched_framed h⟩

/-- The next free id after a list of calls. -/
def idAfter (next : UInt32) (calls : List EmitCall) : UInt32 :=
  calls.foldl (fun next call => call.effect.next next) next

/-- A run that returns leaves the stream of its log: by induction over the calls, with the
instructions so far carried by `Framed`. -/
theorem runCalls_framed {build : Build} {calls : List EmitCall} {e e' : Emitter}
    {results : List (Option UInt32)} {bound : UInt32} {insts : List Inst}
    (hrun : (runCalls build calls).run e = (.ok results, e')) (h : Framed e bound insts) :
    results = (log e.nextId calls).map Entry.returned ∧
      e'.nextId = idAfter e.nextId calls ∧
      ∃ bound', Framed e' bound' (insts ++ (log e.nextId calls).filterMap Entry.emitted) := by
  induction calls generalizing e bound insts results with
  | nil =>
    cases hrun
    refine ⟨rfl, rfl, bound, ?_⟩
    simpa [log] using h
  | cons call calls ih =>
    obtain ⟨result, e₁, hcall, hrest⟩ := Sys.run_bind_eq_ok hrun
    obtain ⟨rest, e₂, hcalls, hreturn⟩ := Sys.run_bind_eq_ok hrest
    cases hreturn
    obtain ⟨hresult, rfl⟩ := execCall_eq_ok hcall
    obtain ⟨bound₁, hframed⟩ := after_framed h call.effect
    obtain ⟨hresults, hnext, bound₂, hstream⟩ := ih hcalls hframed
    rw [after_nextId] at hresults hnext hstream
    refine ⟨?_, hnext, bound₂, ?_⟩
    · rw [hresult, hresults]
      rfl
    · have hentries : (log e.nextId (call :: calls)).filterMap Entry.emitted =
          (call.effect.entry e.nextId).emitted.toList ++
            (log (call.effect.next e.nextId) calls).filterMap Entry.emitted := by
        rw [log, List.filterMap_cons]
        cases (call.effect.entry e.nextId).emitted <;> rfl
      rw [hentries, ← List.append_assoc]
      exact hstream

/-- A module that was emitted: the results and the stream are those of the log, and the bound
is the next free id. -/
theorem emitModule_stream {build : Build} {calls : List EmitCall} {e : Emitter}
    {results : List (Option UInt32)}
    (hrun : (emitModule build calls).run Emitter.new = (.ok results, e)) :
    results = (log 1 calls).map Entry.returned ∧
      e.words = moduleWords (idAfter 1 calls) (emittedInsts calls) := by
  obtain ⟨e₀, hheader, hframed, hone⟩ := emitHeader_framed
  unfold emitModule at hrun
  rw [Sys.run_bind_ok hheader] at hrun
  obtain ⟨rs, e₁, hcalls, hrest⟩ := Sys.run_bind_eq_ok hrun
  rw [Sys.run_bind_ok (finalize_run e₁)] at hrest
  cases hrest
  obtain ⟨hresults, hnext, bound, hstream⟩ := runCalls_framed hcalls hframed
  rw [hone] at hresults hnext hstream
  have hpatched := (patched_framed hstream).words
  rw [hnext] at hpatched
  exact ⟨hresults, hpatched⟩

/-! ## Entries of the log -/

/-- An entry of the log is of one of the calls. -/
theorem mem_log {calls : List EmitCall} {next : UInt32} {entry : Entry}
    (h : entry ∈ log next calls) : ∃ call ∈ calls, ∃ id, entry = call.effect.entry id := by
  induction calls generalizing next with
  | nil => cases h
  | cons call calls ih =>
    rcases List.mem_cons.mp h with rfl | hrest
    · exact ⟨call, List.mem_cons_self, next, rfl⟩
    · obtain ⟨c, hc, id, hentry⟩ := ih hrest
      exact ⟨c, List.mem_cons_of_mem call hc, id, hentry⟩

/-- An instruction that was emitted is of one of the calls. -/
theorem mem_emittedInsts {calls : List EmitCall} {i : Inst} (h : i ∈ emittedInsts calls) :
    ∃ call ∈ calls, ∃ id, call.effect.entry id ∈ log 1 calls ∧
      (call.effect.entry id).emitted = some i := by
  obtain ⟨entry, hentry, hi⟩ := List.mem_filterMap.mp h
  obtain ⟨call, hcall, id, rfl⟩ := mem_log hentry
  exact ⟨call, hcall, id, hentry, hi⟩

/-! ## Runs that return -/

/-- An effect that takes an id moves the counter by one. -/
theorem next_toNat {next : UInt32} {eff : Effect}
    (h : next.toNat + (if eff.allocates then 1 else 0) < 2 ^ 32) :
    (eff.next next).toNat = next.toNat + (if eff.allocates then 1 else 0) := by
  cases eff with
  | plain i => rfl
  | result i =>
    have hone : next.toNat + (1 : UInt32).toNat < 2 ^ 32 := h
    exact (UInt32.toNat_add next 1).trans (Nat.mod_eq_of_lt hone)
  | alloc =>
    have hone : next.toNat + (1 : UInt32).toNat < 2 ^ 32 := h
    exact (UInt32.toNat_add next 1).trans (Nat.mod_eq_of_lt hone)
  | patch => rfl

/-- The first call takes an id or does not. -/
theorem allocations_cons (call : EmitCall) (calls : List EmitCall) :
    allocations (call :: calls) =
      allocations calls + (if call.effect.allocates then 1 else 0) := List.countP_cons

/-- The calls return in a release build, and in a debug build whose checks pass and which does
not run out of ids. -/
theorem runCalls_returns {build : Build} {calls : List EmitCall} {e : Emitter}
    (h : build = .release ∨
      (∀ call ∈ calls, call.asserts = true) ∧ e.nextId.toNat + allocations calls < 2 ^ 32) :
    ∃ results e', (runCalls build calls).run e = (.ok results, e') := by
  induction calls generalizing e with
  | nil => exact ⟨[], e, rfl⟩
  | cons call calls ih =>
    have hcall : Accepts build e call := by
      apply h.imp_right
      rintro ⟨hasserts, hids⟩
      refine ⟨hasserts call List.mem_cons_self, ?_⟩
      intro halloc
      rw [allocations_cons, if_pos halloc] at hids
      omega
    have hrest : build = .release ∨ (∀ c ∈ calls, c.asserts = true) ∧
        (after e call.effect).nextId.toNat + allocations calls < 2 ^ 32 := by
      apply h.imp_right
      rintro ⟨hasserts, hids⟩
      rw [allocations_cons] at hids
      refine ⟨fun c hc => hasserts c (List.mem_cons_of_mem call hc), ?_⟩
      rw [after_nextId, next_toNat (by omega)]
      omega
    obtain ⟨results, e', hresults⟩ := ih hrest
    refine ⟨(call.effect.entry e.nextId).returned :: results, e', ?_⟩
    rw [runCalls, Sys.run_bind_ok (execCall_run hcall), Sys.run_bind_ok hresults, Sys.run_pure]

/-- A module is emitted when its calls are accepted and the ids suffice. -/
theorem emitModule_returns {build : Build} {calls : List EmitCall}
    (h : build = .release ∨
      (∀ call ∈ calls, call.asserts = true) ∧ allocations calls < 2 ^ 32 - 1) :
    ∃ results e, (emitModule build calls).run Emitter.new = (.ok results, e) := by
  obtain ⟨e₀, hheader, -, hone⟩ := emitHeader_framed
  have hroom : build = .release ∨ (∀ call ∈ calls, call.asserts = true) ∧
      e₀.nextId.toNat + allocations calls < 2 ^ 32 := by
    apply h.imp_right
    rintro ⟨hasserts, hids⟩
    refine ⟨hasserts, ?_⟩
    rw [hone]
    have hfirst : (1 : UInt32).toNat = 1 := rfl
    omega
  obtain ⟨results, e₁, hcalls⟩ := runCalls_returns hroom
  refine ⟨results, patched e₁, ?_⟩
  rw [emitModule, Sys.run_bind_ok hheader, Sys.run_bind_ok hcalls,
    Sys.run_bind_ok (finalize_run e₁), Sys.run_pure]

end Oboromi.Analysis.Spirv
