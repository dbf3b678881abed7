import Mathlib.Data.List.Find
import Oboromi.Analysis.RangeExpressions

/-!
# Which handler a word reaches

The generator gets through a table exactly when the masks of the conditions and of the handlers
it writes can be computed (`writeHandlers_returns_iff`), and its text compiles when every arm
has one condition with ranges that start in the word (`writable_of_compiles`).  Then the decoder
calls the handler of the first name among the instructions with the opcode that is read from the
word (`translate_eq`).  So an instruction is reached exactly when that first name has its handler
(`callsOwnHandler_iff`).
-/

set_option autoImplicit false

namespace Oboromi.Analysis.DecoderGenerator

open Oboromi.Lib
open Oboromi.Model.DecoderGenerator
open Oboromi.Interface.DecoderGenerator

/-! ## Preparing the instructions -/

/-- Only fields without bits are removed. -/
theorem mem_removeEmpty {name : List Char} {kept todo : List ParserField} {f : ParserField} :
    f ∈ (removeEmpty name kept todo).2 ↔ f ∈ kept ∨ (f ∈ todo ∧ f.bits ≠ []) := by
  induction kept, todo using removeEmpty.induct name with
  | case1 kept =>
    rw [removeEmpty]
    simp
  | case2 kept g todo hempty swapped removed fields heq ih =>
    rw [removeEmpty, if_pos hempty]
    have hswapped : f ∈ swapped ↔ f ∈ todo := by
      rcases List.eq_nil_or_concat todo with rfl | ⟨init, last, rfl⟩
      · simp [swapped]
      · simp [swapped, or_comm]
    have hg : g.bits = [] := List.length_eq_zero_iff.mp hempty
    refine ih.trans (or_congr_right ?_)
    rw [hswapped, List.mem_cons]
    constructor
    · rintro ⟨hf, hne⟩
      exact ⟨.inr hf, hne⟩
    · rintro ⟨rfl | hf, hne⟩
      · exact absurd hg hne
      · exact ⟨hf, hne⟩
  | case3 kept g todo hempty ih =>
    rw [removeEmpty, if_neg hempty, ih, List.mem_append, List.mem_singleton, List.mem_cons]
    have hg : g.bits ≠ [] := fun h => hempty (by rw [h]; rfl)
    constructor
    · rintro ((hf | rfl) | ⟨hf, hne⟩)
      · exact .inl hf
      · exact .inr ⟨.inl rfl, hg⟩
      · exact .inr ⟨.inr hf, hne⟩
    · rintro (hf | ⟨rfl | hf, hne⟩)
      · exact .inl (.inl hf)
      · exact .inl (.inr rfl)
      · exact .inr ⟨hf, hne⟩

/-- An instruction with its variable fields in order and without the empty ones. -/
def tidied (inst : ParserInst) : ParserInst :=
  { inst with
    fields := (removeEmpty inst.name [] inst.fields).2.insertionSort fun f g =>
      firstBit f ≤ firstBit g }

/-- Tidying drops the fields without bits and keeps the others. -/
theorem mem_fields_tidied {inst : ParserInst} {f : ParserField} :
    f ∈ (tidied inst).fields ↔ f ∈ inst.fields ∧ f.bits ≠ [] := by
  unfold tidied
  rw [List.mem_insertionSort, mem_removeEmpty]
  simp

/-- What is prepared are the tidied instructions of the table. -/
theorem mem_prepare {table : List ParserInst} {j : ParserInst} :
    j ∈ (prepare table).2 ↔ ∃ inst ∈ table, tidied inst = j := by
  unfold prepare
  rw [List.mem_insertionSort]
  exact List.mem_map

/-- Every instruction of the table is prepared. -/
theorem mem_prepare_of_mem {table : List ParserInst} {inst : ParserInst} (h : inst ∈ table) :
    tidied inst ∈ (prepare table).2 := mem_prepare.mpr ⟨inst, h, rfl⟩

instance : Std.Total fun i j : ParserInst => i.name ≤ j.name :=
  ⟨fun i j => le_total i.name j.name⟩

instance : IsTrans ParserInst fun i j => i.name ≤ j.name := ⟨fun _ _ _ => le_trans⟩

/-- The instructions come in the order of their names. -/
theorem prepare_sorted (table : List ParserInst) :
    (prepare table).2.Pairwise fun i j => i.name ≤ j.name :=
  List.pairwise_insertionSort _ _

/-- The instruction whose handler is written for a name is the first of the table. -/
theorem written_prepare {table : List ParserInst} {j : ParserInst} :
    Written (prepare table).2 j ↔ ∃ inst, Written table inst ∧ tidied inst = j := by
  have hstable : (prepare table).2.find?
      (fun k => k.opcodeField.isSome && decide (k.name = j.name)) =
      (table.find? fun k => k.opcodeField.isSome && decide (k.name = j.name)).map tidied := by
    unfold prepare
    rw [find?_insertionSort]
    · exact List.find?_map
    · intro i k hi hk
      simp only [Bool.and_eq_true, decide_eq_true_eq] at hi hk
      exact le_of_eq (hi.2.trans hk.2.symm)
  unfold Written
  rw [hstable, Option.map_eq_some_iff]
  constructor
  · rintro ⟨inst, hinst, rfl⟩
    exact ⟨inst, hinst, rfl⟩
  · rintro ⟨inst, hinst, rfl⟩
    exact ⟨inst, hinst, rfl⟩

/-! ## Writing the arms -/

/-- The condition on a fixed field. -/
def conditionOf (f : ParserField) : Condition :=
  ⟨placed f.totalBits.toNat f.bits, f.value.getD 0⟩

/-- The arm of an instruction. -/
def armOf (lower : List Char → List Char) (inst : ParserInst) : Option Arm :=
  inst.opcodeField.map fun _ =>
    ⟨inst.name, inst.fixedFields.map conditionOf, handlerName lower inst⟩

variable {b : Build} {lower : List Char → List Char} {first second : UInt64 × UInt64}
  {table : List ParserInst}

/-- The condition on a fixed field is written when its masks can be computed. -/
theorem writeCondition_eq {f : ParserField} (hfits : FieldFits f) (hmask : Maskable b f.bits)
    (hvalue : f.value.isSome = true) : writeCondition b f = .ok (conditionOf f) := by
  obtain ⟨v, hv⟩ := Option.isSome_iff_exists.mp hvalue
  have hmerged := mergeRanges_eq (rangeFits_of_field hfits) hmask hfits.total.ge
  unfold writeCondition getMultiCmpStmt conditionOf
  rw [hv, unwrap, ok_bind, hmerged]
  rfl

/-- A condition that was written had masks that can be computed. -/
theorem maskable_of_writeCondition {f : ParserField} (hfits : FieldFits f) {c : Condition}
    (h : writeCondition b f = .ok c) : Maskable b f.bits := by
  unfold writeCondition at h
  obtain ⟨value, -, h⟩ := bind_eq_ok h
  obtain ⟨merged, hmerged, -⟩ := bind_eq_ok h
  exact (mergeRanges_returns_iff hfits).mp ⟨merged, hmerged⟩

/-- What a prepared instruction keeps of the table's guarantees. -/
structure Prepared (first second : UInt64 × UInt64) (j : ParserInst) : Prop where
  fits : InstFits j
  opcodeBits : ∀ f, j.opcodeField = some f → f.bits = [first, second]

/-- Tidying an instruction keeps what the parser guarantees. -/
theorem instFits_tidied {inst : ParserInst} (hfits : InstFits inst) : InstFits (tidied inst) := by
  refine ⟨?_, hfits.fixed, hfits.opcode⟩
  intro f hf
  rcases List.mem_append.mp hf with hfixed | hvar
  · exact hfits.fields f (List.mem_append_left _ hfixed)
  · exact hfits.fields f (List.mem_append_right _ (mem_fields_tidied.mp hvar).1)

/-- A prepared instruction has what the table guarantees. -/
theorem prepared_of_mem (htable : IsTable first second table) {j : ParserInst}
    (hj : j ∈ (prepare table).2) : Prepared first second j := by
  obtain ⟨inst, hinst, rfl⟩ := mem_prepare.mp hj
  exact ⟨instFits_tidied (htable.fits inst hinst), htable.opcodeBits inst hinst⟩

/-- An opcode field is one of the fixed fields. -/
theorem mem_of_opcodeField {j : ParserInst} {f : ParserField} (hfield : j.opcodeField = some f) :
    f ∈ j.fixedFields := List.mem_of_find?_eq_some hfield

/-- The arm of an instruction with an opcode field, when its conditions can be written. -/
theorem writeArm_of_field {j : ParserInst} (hj : Prepared first second j) {f : ParserField}
    (hfield : j.opcodeField = some f) :
    writeArm b lower j = do
      let conditions ← j.fixedFields.mapM (writeCondition b)
      return some ⟨j.name, conditions, handlerName lower j⟩ := by
  have hbits : f.bits.length = 2 := by rw [hj.opcodeBits f hfield]; rfl
  unfold writeArm
  rw [hfield]
  exact if_pos hbits

/-- The opcode field of an instruction that has no other fixed field. -/
theorem fixedFields_eq {j : ParserInst} {f : ParserField} (hfield : j.opcodeField = some f)
    (hlen : j.fixedFields.length = 1) : j.fixedFields = [f] := by
  obtain ⟨g, hg⟩ := List.length_eq_one_iff.mp hlen
  have hmem := mem_of_opcodeField hfield
  rw [hg] at hmem ⊢
  rw [List.mem_singleton.mp hmem]

/-- The arm of an instruction without a second fixed field. -/
theorem armOf_eq {j : ParserInst} {f : ParserField} (hfield : j.opcodeField = some f)
    (hlen : j.fixedFields.length = 1) :
    armOf lower j = some ⟨j.name, [conditionOf f], handlerName lower j⟩ := by
  unfold armOf
  rw [hfield, fixedFields_eq hfield hlen]
  rfl

/-- The arm of an instruction without a second fixed field is written. -/
theorem writeArm_eq (lower : List Char → List Char) {j : ParserInst} (hj : Prepared first second j)
    (hlen : j.opcodeField.isSome = true → j.fixedFields.length = 1)
    (hmask : Maskable b [first, second]) : writeArm b lower j = .ok (armOf lower j) := by
  cases hfield : j.opcodeField with
  | none =>
    unfold writeArm armOf
    rw [hfield]
    rfl
  | some f =>
    have hlen := hlen (by rw [hfield]; rfl)
    have hmem := mem_of_opcodeField hfield
    have hcondition : writeCondition b f = .ok (conditionOf f) := by
      apply writeCondition_eq (hj.fits.fields f (List.mem_append_left _ hmem)) _
        (hj.fits.fixed f hmem)
      rwa [hj.opcodeBits f hfield]
    have hconditions : [f].mapM (writeCondition b) = .ok ([f].map conditionOf) := by
      apply mapM_of_returns
      intro g hg
      rw [List.mem_singleton.mp hg]
      exact hcondition
    rw [writeArm_of_field hj hfield, armOf_eq hfield hlen, fixedFields_eq hfield hlen, hconditions]
    rfl

/-! ## Writing the handlers -/

/-- A field is read exactly when its masks can be computed. -/
theorem writeLet_returns_iff {f : ParserField} (hfits : FieldFits f) :
    (∃ l, writeLet b f = .ok l) ↔ Maskable b f.bits := by
  rw [← mergeRanges_returns_iff hfits]
  unfold writeLet getMultiMergeStmt
  constructor
  · rintro ⟨l, h⟩
    obtain ⟨merged, hmerged, -⟩ := bind_eq_ok h
    exact ⟨merged, hmerged⟩
  · rintro ⟨merged, hmerged⟩
    rw [hmerged]
    exact ⟨_, rfl⟩

/-- The statement that reads a field. -/
def letOf (f : ParserField) : List Char × List RangeExpr :=
  (f.name, placed f.totalBits.toNat f.bits)

/-- What is written for it is the statement that reads it. -/
theorem writeLet_eq {f : ParserField} (hfits : FieldFits f) (hmask : Maskable b f.bits) :
    writeLet b f = .ok (letOf f) := by
  have hmerged := mergeRanges_eq (rangeFits_of_field hfits) hmask hfits.total.ge
  unfold writeLet getMultiMergeStmt
  rw [hmerged]
  rfl

/-- A handler's statements are written exactly when all of its masks can be computed. -/
theorem lets_return_iff {fields : List ParserField} (hfits : ∀ f ∈ fields, FieldFits f) :
    (∃ lets, fields.mapM (writeLet b) = .ok lets) ↔ ∀ f ∈ fields, Maskable b f.bits := by
  rw [mapM_returns_iff]
  constructor
  · intro h f hf
    exact (writeLet_returns_iff (hfits f hf)).mp (h f hf)
  · intro hmask f hf
    exact ⟨_, writeLet_eq (hfits f hf) (hmask f hf)⟩

/-- The handler of an instruction at the front is written, unless the instruction has no opcode
field. -/
theorem written_cons_self {j : ParserInst} (hfield : j.opcodeField.isSome = true)
    (instructions : List ParserInst) : Written (j :: instructions) j := by
  unfold Written
  rw [List.find?_cons_of_pos (by simp [hfield])]

/-- An instruction of another name at the front changes nothing for this one. -/
theorem written_cons_iff {j k : ParserInst} (h : k.opcodeField.isSome = true → k.name ≠ j.name)
    (instructions : List ParserInst) :
    Written (k :: instructions) j ↔ Written instructions j := by
  unfold Written
  rw [List.find?_cons_of_neg]
  simpa using h

/-- Of the instructions of one name the first with an opcode field is written. -/
theorem Written.eq_of_name {j k : ParserInst} {instructions : List ParserInst}
    (hj : Written (k :: instructions) j) (hfield : k.opcodeField.isSome = true)
    (hname : k.name = j.name) : k = j := by
  have hself := written_cons_self hfield instructions
  unfold Written at hself hj
  rw [hname, hj] at hself
  exact (Option.some.inj hself).symm

/-- An instruction that gets no handler: it has no opcode field, or its name was seen. -/
def Skipped (seen : List (List Char)) (k : ParserInst) : Prop :=
  k.opcodeField.isSome = true → k.name ∈ seen

/-- The loop passes over an instruction that gets no handler. -/
theorem writeHandlers_of_skipped {seen : List (List Char)} {k : ParserInst}
    (hskip : Skipped seen k) (instructions : List ParserInst) :
    writeHandlers b lower seen (k :: instructions) = writeHandlers b lower seen instructions := by
  rw [writeHandlers]
  cases hfield : k.opcodeField with
  | none => rfl
  | some f => exact if_pos (hskip (by rw [hfield]; rfl))

/-- An instruction that gets no handler changes nothing for a new name. -/
theorem written_of_skipped {seen : List (List Char)} {j k : ParserInst} (hskip : Skipped seen k)
    (hnew : j.name ∉ seen) (instructions : List ParserInst) :
    Written (k :: instructions) j ↔ Written instructions j :=
  written_cons_iff (fun hsome heq => hnew (heq ▸ hskip hsome)) instructions

/-- An instruction that gets a handler has an opcode field and a new name. -/
theorem of_not_skipped {seen : List (List Char)} {k : ParserInst} (h : ¬ Skipped seen k) :
    k.opcodeField.isSome = true ∧ k.name ∉ seen := Classical.not_imp.mp h

/-- The handler of an instruction whose name is new. -/
theorem writeHandlers_of_new {seen : List (List Char)} {k : ParserInst}
    (htwo : ∀ f, k.opcodeField = some f → f.bits.length = 2)
    (hsome : k.opcodeField.isSome = true) (hnew : k.name ∉ seen)
    (instructions : List ParserInst) :
    writeHandlers b lower seen (k :: instructions) = do
      let lets ← k.fields.mapM (writeLet b)
      let handlers ← writeHandlers b lower (k.name :: seen) instructions
      return ⟨handlerName lower k, lets⟩ :: handlers := by
  obtain ⟨f, hfield⟩ := Option.isSome_iff_exists.mp hsome
  rw [writeHandlers, hfield]
  dsimp only
  rw [if_neg hnew, if_pos (htwo f hfield)]

/-- After the handler of a name, the handlers of the other names follow. -/
theorem written_of_ne {seen : List (List Char)} {j k : ParserInst} (hne : k.name ≠ j.name)
    (hnew : j.name ∉ seen) (instructions : List ParserInst) :
    (Written (k :: instructions) j ↔ Written instructions j) ∧ j.name ∉ k.name :: seen := by
  refine ⟨written_cons_iff (fun _ => hne) instructions, ?_⟩
  rw [List.mem_cons, not_or]
  exact ⟨fun heq => hne heq.symm, hnew⟩

/-- The loop over the handlers returns exactly when every handler it writes can be written. -/
theorem writeHandlers_returns_iff (b : Build) (lower : List Char → List Char)
    {instructions : List ParserInst}
    (hbits : ∀ j ∈ instructions, ∀ f, j.opcodeField = some f → f.bits.length = 2)
    (seen : List (List Char)) :
    (∃ handlers, writeHandlers b lower seen instructions = .ok handlers) ↔
      ∀ j, Written instructions j → j.name ∉ seen →
        ∃ lets, j.fields.mapM (writeLet b) = .ok lets := by
  induction instructions generalizing seen with
  | nil =>
    refine iff_of_true ⟨_, rfl⟩ ?_
    intro j hj
    cases hj
  | cons k instructions ih =>
    obtain ⟨htwo, hbits⟩ := List.forall_mem_cons.mp hbits
    by_cases hskip : Skipped seen k
    · rw [writeHandlers_of_skipped hskip, ih hbits seen]
      apply forall_congr'
      intro j
      constructor
      · intro h hj hnew
        exact h ((written_of_skipped hskip hnew instructions).mp hj) hnew
      · intro h hj hnew
        exact h ((written_of_skipped hskip hnew instructions).mpr hj) hnew
    · obtain ⟨hsome, hseen⟩ := of_not_skipped hskip
      rw [writeHandlers_of_new htwo hsome hseen]
      constructor
      · rintro ⟨handlers, h⟩ j hj hnew
        obtain ⟨lets, hlets, h⟩ := bind_eq_ok h
        obtain ⟨handlers', hhandlers, -⟩ := bind_eq_ok h
        by_cases hname : k.name = j.name
        · rw [← Written.eq_of_name hj hsome hname]
          exact ⟨lets, hlets⟩
        · obtain ⟨hwritten, hnew'⟩ := written_of_ne hname hnew instructions
          exact (ih hbits (k.name :: seen)).mp ⟨handlers', hhandlers⟩ j (hwritten.mp hj) hnew'
      · intro h
        obtain ⟨lets, hlets⟩ := h k (written_cons_self hsome instructions) hseen
        have htail : ∃ handlers,
            writeHandlers b lower (k.name :: seen) instructions = .ok handlers := by
          apply (ih hbits (k.name :: seen)).mpr
          intro j hj hnew
          rw [List.mem_cons, not_or] at hnew
          have hne : k.name ≠ j.name := fun heq => hnew.1 heq.symm
          exact h j ((written_of_ne hne hnew.2 instructions).1.mpr hj) hnew.2
        obtain ⟨handlers, hhandlers⟩ := htail
        rw [hlets, ok_bind, hhandlers]
        exact ⟨_, rfl⟩

/-- In terms of the table: what is written is what its masks allow. -/
theorem handlers_return_iff (hfits : ∀ inst ∈ table, InstFits inst)
    (htwo : ∀ inst ∈ table, ∀ f, inst.opcodeField = some f → f.bits.length = 2) :
    (∃ handlers, writeHandlers b lower [] (prepare table).2 = .ok handlers) ↔
      ∀ inst, Written table inst → ∀ f ∈ inst.fields, Maskable b f.bits := by
  have hbits : ∀ j ∈ (prepare table).2, ∀ f, j.opcodeField = some f → f.bits.length = 2 := by
    intro j hj
    obtain ⟨inst, hinst, rfl⟩ := mem_prepare.mp hj
    exact htwo inst hinst
  have hfits (inst : ParserInst) (hinst : Written table inst) (f : ParserField)
      (hf : f ∈ (tidied inst).fields) : FieldFits f :=
    (instFits_tidied (hfits inst (List.mem_of_find?_eq_some hinst))).fields f
      (List.mem_append_right _ hf)
  rw [writeHandlers_returns_iff b lower hbits]
  constructor
  · intro h inst hinst f hf
    by_cases hempty : f.bits = []
    · intro _ r hr
      rw [hempty] at hr
      cases hr
    · have hlets := h (tidied inst) (written_prepare.mpr ⟨inst, hinst, rfl⟩) List.not_mem_nil
      exact (lets_return_iff (hfits inst hinst)).mp hlets f (mem_fields_tidied.mpr ⟨hf, hempty⟩)
  · intro h j hj _
    obtain ⟨inst, hinst, rfl⟩ := written_prepare.mp hj
    apply (lets_return_iff (hfits inst hinst)).mpr
    intro f hf
    exact h inst hinst f (mem_fields_tidied.mp hf).1

/-- The opcode fields of a table have two ranges. -/
theorem two_ranges_of_isTable (htable : IsTable first second table) :
    ∀ inst ∈ table, ∀ f, inst.opcodeField = some f → f.bits.length = 2 := by
  intro inst hinst f hfield
  rw [htable.opcodeBits inst hinst f hfield]
  rfl

/-! ## Writing the decoder -/

/-- What the generator returns was written by its two loops. -/
theorem writeRust_eq_ok {out : Output} (h : writeRust b lower table = .ok out) :
    ∃ arms, (prepare table).2.mapM (writeArm b lower) = .ok arms ∧
      writeHandlers b lower [] (prepare table).2 = .ok out.handlers ∧
      out.arms = arms.filterMap id := by
  unfold writeRust at h
  obtain ⟨arms, harms, h⟩ := bind_eq_ok h
  obtain ⟨handlers, hhandlers, h⟩ := bind_eq_ok h
  cases h
  exact ⟨arms, harms, hhandlers, rfl⟩

/-- Tidying keeps the fixed fields. -/
theorem opcodesOnly_prepared (hsingle : OpcodesOnly table) {j : ParserInst}
    (hj : j ∈ (prepare table).2) (hfield : j.opcodeField.isSome = true) :
    j.fixedFields.length = 1 := by
  obtain ⟨inst, hinst, rfl⟩ := mem_prepare.mp hj
  exact hsingle inst hinst hfield

/-- The arms of a table without second fixed fields. -/
theorem arms_eq (htable : IsTable first second table) (hsingle : OpcodesOnly table)
    (hmask : Maskable b [first, second]) :
    (prepare table).2.mapM (writeArm b lower) = .ok ((prepare table).2.map (armOf lower)) :=
  mapM_of_returns fun _ hj =>
    writeArm_eq lower (prepared_of_mem htable hj) (opcodesOnly_prepared hsingle hj) hmask

/-- The generator writes a decoder for every table it can write. -/
theorem writeRust_returns (lower : List Char → List Char) (htable : IsTable first second table)
    (hsingle : OpcodesOnly table) (hwritable : Writable b first second table) :
    ∃ out, writeRust b lower table = .ok out := by
  have htwo := two_ranges_of_isTable htable
  obtain ⟨handlers, hhandlers⟩ := (handlers_return_iff htable.fits htwo).mpr hwritable.handlers
  unfold writeRust
  dsimp only
  rw [arms_eq htable hsingle hwritable.opcode, ok_bind, hhandlers]
  exact ⟨_, rfl⟩

/-- The arms are those of the prepared instructions with an opcode field. -/
theorem armsOf_writeRust (htable : IsTable first second table) (hsingle : OpcodesOnly table)
    (hmask : Maskable b [first, second]) {out : Output} (h : writeRust b lower table = .ok out) :
    out.arms = (prepare table).2.filterMap (armOf lower) := by
  obtain ⟨arms, harms, -, hout⟩ := writeRust_eq_ok h
  rw [arms_eq htable hsingle hmask] at harms
  cases harms
  rw [hout, List.filterMap_map]
  rfl

/-! ## Running the arms -/

/-- The opcode a condition compares with, as a test of the opcode bits. -/
def comparesWith (op : ℕ) (arm : Arm) : Bool :=
  arm.conditions.head?.any fun c => c.value.toNat = op

/-- The masks let through no more than an opcode, where the bits are those of one. -/
theorem readBits_le (word : BitVec 128) :
    readBits word [first, second] ≤ fieldBits word [first, second] := by
  simp only [readBits, fieldBits, List.foldl_cons, List.foldl_nil]
  have hfirst := maskedBits_le word first
  have hsecond := maskedBits_le word second
  gcongr

/-- The condition on an opcode field compares what is read with the opcode. -/
theorem evalCondition_opcode {f : ParserField} (hfits : FieldFits f)
    (hbits : f.bits = [first, second])
    (hstarts : first.1.toNat < 128 ∧ second.1.toNat < 128) (hplace : width second < 128)
    {word : BitVec 128} (hread : readBits word [first, second] < 2 ^ 128) :
    evalCondition word (conditionOf f) =
      some (decide ((f.value.getD 0).toNat = readBits word [first, second])) := by
  obtain ⟨v, hv, hvalue⟩ := evalMerged_placed (by simp) (by simpa using hstarts)
    (by simpa using hplace) word hread
  unfold conditionOf
  rw [hfits.total, hbits, evalCondition_of_evalMerged hv, hvalue]
  exact congrArg some (decide_eq_decide.mpr eq_comm)

/-- A condition on two ranges that has a value starts and places them in the word. -/
theorem starts_of_evalCondition {f : ParserField} (hfits : FieldFits f)
    (hbits : f.bits = [first, second]) {word : BitVec 128} {holds : Bool}
    (h : evalCondition word (conditionOf f) = some holds) :
    (first.1.toNat < 128 ∧ second.1.toNat < 128) ∧ width second < 128 := by
  obtain ⟨v, hv, -⟩ := Option.map_eq_some_iff.mp h
  have hexpressible := expressible_of_evalMerged hfits hv
  rw [hbits] at hexpressible
  simpa [Expressible] using hexpressible

/-- An arm compares its opcode with what is read from the word. -/
theorem evalArm_eq {j : ParserInst} (hj : Prepared first second j)
    (hlen : j.opcodeField.isSome = true → j.fixedFields.length = 1)
    (hstarts : first.1.toNat < 128 ∧ second.1.toNat < 128) (hplace : width second < 128)
    {arm : Arm} (harm : armOf lower j = some arm) {word : BitVec 128}
    (hread : readBits word [first, second] < 2 ^ 128) :
    evalArm word arm = some (comparesWith (readBits word [first, second]) arm) := by
  cases hfield : j.opcodeField with
  | none =>
    rw [armOf, hfield] at harm
    cases harm
  | some f =>
    have hfixed := List.mem_append_left j.fields (mem_of_opcodeField hfield)
    rw [armOf_eq hfield (hlen (by simp [hfield]))] at harm
    cases harm
    exact evalCondition_opcode (hj.fits.fields f hfixed) (hj.opcodeBits f hfield) hstarts hplace
      hread

/-- An arm compares with the opcode of its instruction. -/
theorem any_armOf {j : ParserInst} (hj : Prepared first second j)
    (hlen : j.opcodeField.isSome = true → j.fixedFields.length = 1) (op : UInt64) :
    (armOf lower j).any (comparesWith op.toNat) = decide (HasOpcode op j) := by
  cases hfield : j.opcodeField with
  | none =>
    have hnot : ¬ HasOpcode op j := by simp [HasOpcode, hfield]
    simp [armOf, hfield, hnot]
  | some f =>
    have hvalue := hj.fits.opcode f hfield
    have hiff : HasOpcode op j ↔ j.op = op := by simp [HasOpcode, hfield]
    rw [armOf_eq hfield (hlen (by simp [hfield]))]
    simp [comparesWith, conditionOf, hvalue, hiff, UInt64.toNat_inj]

/-- The opcode that is read from a word. -/
def opcodeRead (first second : UInt64 × UInt64) (word : BitVec 128) : UInt64 :=
  UInt64.ofNat (readBits word [first, second])

/-- Every arm of the decoder of a table without second fixed fields compares its opcode with what
is read from the word. -/
theorem evalArms_eq (htable : IsTable first second table) (hsingle : OpcodesOnly table)
    (hwritable : Writable b first second table) {out : Output}
    (hout : writeRust b lower table = .ok out) {word : BitVec 128}
    (hread : readBits word [first, second] < 2 ^ 128) :
    ∀ arm ∈ out.arms,
      evalArm word arm = some (comparesWith (readBits word [first, second]) arm) := by
  intro arm harm
  rw [armsOf_writeRust htable hsingle hwritable.opcode hout] at harm
  obtain ⟨j, hj, hjarm⟩ := List.mem_filterMap.mp harm
  exact evalArm_eq (prepared_of_mem htable hj) (opcodesOnly_prepared hsingle hj) hwritable.starts
    hwritable.place hjarm hread

/-- What is read from a word of no opcode calls nothing. -/
theorem translate_beyond (htable : IsTable first second table) (hsingle : OpcodesOnly table)
    (hwritable : Writable b first second table) {out : Output}
    (hout : writeRust b lower table = .ok out) {word : BitVec 128}
    (hread : readBits word [first, second] < 2 ^ 128)
    (hbeyond : 2 ^ 64 ≤ readBits word [first, second]) : translateWord out word = some none := by
  have hnone : out.arms.find? (comparesWith (readBits word [first, second])) = none := by
    rw [List.find?_eq_none]
    intro arm _ hcompares
    obtain ⟨c, -, hvalue⟩ := (Option.any_eq_true ..).mp hcompares
    have hlt := c.value.toNat_lt
    rw [of_decide_eq_true hvalue] at hlt
    exact absurd hbeyond (Nat.not_le.mpr hlt)
  unfold translateWord
  rw [firstMatch_eq_find? (evalArms_eq htable hsingle hwritable hout hread), hnone]
  rfl

/-- The decoder of a table without second fixed fields: the first instruction with the opcode
that is read from the word, in the order of the names, is handled. -/
theorem translate_eq (htable : IsTable first second table) (hsingle : OpcodesOnly table)
    (hwritable : Writable b first second table) {out : Output}
    (hout : writeRust b lower table = .ok out) {word : BitVec 128}
    (hop : fieldBits word [first, second] < 2 ^ 64) :
    translateWord out word =
      some (((prepare table).2.find? fun j =>
        decide (HasOpcode (opcodeRead first second word) j)).map (handlerName lower)) := by
  have harms := armsOf_writeRust htable hsingle hwritable.opcode hout
  have hlt : readBits word [first, second] < 2 ^ 64 := (readBits_le word).trans_lt hop
  have hpow : 2 ^ 64 < 2 ^ 128 := Nat.pow_lt_pow_right (by omega) (by omega)
  have hprepared (j) (hj : j ∈ (prepare table).2) : Prepared first second j :=
    prepared_of_mem htable hj
  have hlen (j) (hj : j ∈ (prepare table).2) := opcodesOnly_prepared hsingle hj
  have htests := evalArms_eq htable hsingle hwritable hout (hlt.trans hpow)
  rw [← show (opcodeRead first second word).toNat = readBits word [first, second] from
    toNat_ofNat_of_lt hlt] at htests
  have hfind : (prepare table).2.find? (fun j => (armOf lower j).any
      (comparesWith (opcodeRead first second word).toNat)) =
      (prepare table).2.find? fun j => decide (HasOpcode (opcodeRead first second word) j) := by
    apply List.find?_congr
    intro j hj
    exact any_armOf (hprepared j hj) (hlen j hj) _
  unfold translateWord
  rw [firstMatch_eq_find? htests, harms, List.find?_filterMap, hfind, Option.map_some]
  congr 1
  cases hfirst : (prepare table).2.find? fun j =>
      decide (HasOpcode (opcodeRead first second word) j) with
  | none => rfl
  | some j =>
    have hmem := List.mem_of_find?_eq_some hfirst
    have hjop : HasOpcode (opcodeRead first second word) j := by
      simpa using List.find?_some hfirst
    obtain ⟨f, hf⟩ := Option.isSome_iff_exists.mp hjop.1
    rw [Option.bind_some, armOf_eq hf (hlen j hmem hjop.1)]
    rfl

/-! ## What a decoder that compiles says about the table -/

/-- An arm with no condition, or with several, does not compile. -/
theorem evalArm_eq_none {arm : Arm} (h : arm.conditions.length ≠ 1) (word : BitVec 128) :
    evalArm word arm = none := by
  unfold evalArm
  split
  · next c hc => simp [hc] at h
  · rfl

/-- The arm of an instruction with an opcode field is written, and it has a value in a decoder
that compiles. -/
theorem exists_arm (htable : IsTable first second table) {out : Output}
    (hout : writeRust b lower table = .ok out) {word : BitVec 128}
    (hcompiles : translateWord out word ≠ none) {j : ParserInst} (hj : j ∈ (prepare table).2)
    {f : ParserField} (hfield : j.opcodeField = some f) :
    ∃ conditions, j.fixedFields.mapM (writeCondition b) = .ok conditions ∧
      ∃ holds, evalArm word ⟨j.name, conditions, handlerName lower j⟩ = some holds := by
  obtain ⟨arms, harms, -, houtArms⟩ := writeRust_eq_ok hout
  obtain ⟨arm, hmem, harm⟩ := mem_of_mapM harms hj
  rw [writeArm_of_field (prepared_of_mem htable hj) hfield] at harm
  obtain ⟨conditions, hconditions, harm⟩ := bind_eq_ok harm
  cases harm
  refine ⟨conditions, hconditions, ?_⟩
  apply Option.ne_none_iff_exists'.mp
  intro hnone
  have hin : (⟨j.name, conditions, handlerName lower j⟩ : Arm) ∈ out.arms := by
    rw [houtArms]
    exact List.mem_filterMap.mpr ⟨_, hmem, rfl⟩
  apply hcompiles
  unfold translateWord
  rw [firstMatch_eq_none hin hnone]
  rfl

/-- With a second fixed field the decoder does not compile. -/
theorem opcodesOnly_of_compiles (htable : IsTable first second table) {out : Output}
    (hout : writeRust b lower table = .ok out) {word : BitVec 128}
    (hcompiles : translateWord out word ≠ none) : OpcodesOnly table := by
  intro inst hinst hsome
  obtain ⟨f, hfield⟩ := Option.isSome_iff_exists.mp hsome
  have hj := mem_prepare_of_mem hinst
  obtain ⟨conditions, hconditions, holds, hholds⟩ := exists_arm htable hout hcompiles hj hfield
  have hlen := length_of_mapM hconditions
  by_contra hmany
  have hnone : evalArm word ⟨(tidied inst).name, conditions, handlerName lower (tidied inst)⟩ =
      none := evalArm_eq_none (by rw [hlen]; exact hmany) word
  rw [hnone] at hholds
  cases hholds

/-- The generator got through the table, and the opcode ranges start in the word. -/
theorem writable_of_compiles (htable : IsTable first second table) {out : Output}
    (hout : writeRust b lower table = .ok out) {word : BitVec 128}
    (hcompiles : translateWord out word ≠ none) {inst : ParserInst} (hinst : inst ∈ table)
    (hsome : inst.opcodeField.isSome = true) : Writable b first second table := by
  obtain ⟨f, hfield⟩ := Option.isSome_iff_exists.mp hsome
  have hfits : FieldFits f :=
    (htable.fits inst hinst).fields f (List.mem_append_left _ (mem_of_opcodeField hfield))
  have hbits := htable.opcodeBits inst hinst f hfield
  have hj := mem_prepare_of_mem hinst
  obtain ⟨conditions, hconditions, holds, hholds⟩ := exists_arm htable hout hcompiles hj hfield
  have hlen : inst.fixedFields.length = 1 :=
    opcodesOnly_of_compiles htable hout hcompiles inst hinst hsome
  obtain ⟨c, -, hc⟩ := mem_of_mapM hconditions (mem_of_opcodeField hfield)
  have hmask : Maskable b [first, second] := by
    rw [← hbits]
    exact maskable_of_writeCondition hfits hc
  obtain ⟨-, -, hhandlers, -⟩ := writeRust_eq_ok hout
  have hcondition : evalCondition word (conditionOf f) = some holds := by
    have htidied : (tidied inst).opcodeField = some f := hfield
    have harm := writeArm_eq lower (prepared_of_mem htable hj) (fun _ => hlen) hmask
    rw [writeArm_of_field (prepared_of_mem htable hj) htidied, hconditions,
      armOf_eq htidied hlen] at harm
    cases harm
    exact hholds
  obtain ⟨hstarts, hplace⟩ := starts_of_evalCondition hfits hbits hcondition
  have htwo := two_ranges_of_isTable htable
  exact ⟨hstarts, hplace, hmask, (handlers_return_iff htable.fits htwo).mp ⟨_, hhandlers⟩⟩

/-! ## Dispatch -/

/-- Instructions of one name have one handler. -/
theorem handlerName_congr {i j : ParserInst} (h : i.name = j.name) :
    handlerName lower i = handlerName lower j := by
  unfold handlerName
  rw [h]

/-- The handler that is called for an opcode is that of the first name with the opcode. -/
theorem find_handler_iff (lower : List Char → List Char) (op : UInt64) (inst : ParserInst) :
    ((prepare table).2.find? fun j => decide (HasOpcode op j)).map (handlerName lower) =
      some (handlerName lower inst) ↔ FirstOfOpcode lower table op inst := by
  constructor
  · intro h
    obtain ⟨k, hfirst, hname⟩ := Option.map_eq_some_iff.mp h
    have hk : HasOpcode op k := by simpa using List.find?_some hfirst
    obtain ⟨least, hleast, rfl⟩ := mem_prepare.mp (List.mem_of_find?_eq_some hfirst)
    refine ⟨least, hleast, hk, ?_, hname⟩
    intro i hi hiop
    have hbelow : (tidied least).name ≤ (tidied i).name :=
      rel_of_find? (fun i => le_refl i.name) (prepare_sorted table) hfirst
        (mem_prepare_of_mem hi) (decide_eq_true hiop)
    exact hbelow
  · rintro ⟨least, hleast, hop, hle, hname⟩
    cases hfirst : (prepare table).2.find? fun j => decide (HasOpcode op j) with
    | none =>
      have hnot := List.find?_eq_none.mp hfirst _ (mem_prepare_of_mem hleast)
      exact absurd (decide_eq_true hop) hnot
    | some k =>
      have hk : HasOpcode op k := by simpa using List.find?_some hfirst
      obtain ⟨origin, horigin, rfl⟩ := mem_prepare.mp (List.mem_of_find?_eq_some hfirst)
      have hbelow : (tidied origin).name ≤ (tidied least).name :=
        rel_of_find? (fun i => le_refl i.name) (prepare_sorted table) hfirst
          (mem_prepare_of_mem hleast) (decide_eq_true hop)
      have hsame : origin.name = least.name := le_antisymm hbelow (hle origin horigin hk)
      rw [Option.map_some, ← hname]
      exact congrArg some (handlerName_congr hsame)

section Dispatch

variable {inst : ParserInst} {word : BitVec 128}

/-- Two ranges of at most 63 bits each make a number of at most 126 bits. -/
theorem readBits_lt_of_narrow (hnarrow : ∀ r ∈ [first, second], width r ≤ 63) (word : BitVec 128) :
    readBits word [first, second] < 2 ^ 128 := by
  obtain ⟨hfirst, hrest⟩ := List.forall_mem_cons.mp hnarrow
  have hsecond := List.forall_mem_singleton.mp hrest
  have hhigh := maskedBits_lt word first
  have hlow := maskedBits_lt word second
  have hwhole : 2 ^ width first * 2 ^ width second < 2 ^ 128 := by
    rw [← Nat.pow_add]
    exact Nat.pow_lt_pow_right (by omega) (by omega)
  simp only [readBits, List.foldl_cons, List.foldl_nil, Nat.zero_mul, Nat.zero_add]
  calc maskedBits word first * 2 ^ width second + maskedBits word second
      < maskedBits word first * 2 ^ width second + 2 ^ width second := Nat.add_lt_add_left hlow _
    _ = (maskedBits word first + 1) * 2 ^ width second := (Nat.succ_mul _ _).symm
    _ ≤ 2 ^ width first * 2 ^ width second := Nat.mul_le_mul_right _ hhigh
    _ < 2 ^ 128 := hwhole

/-- A word of an opcode of at most 63 bits a range is read whole. -/
theorem opcodeRead_of_narrow {op : UInt64} (hnarrow : ∀ r ∈ [first, second], width r ≤ 63)
    (hword : fieldBits word [first, second] = op.toNat) : opcodeRead first second word = op := by
  rw [opcodeRead, readBits_eq_fieldBits hnarrow, hword]
  exact UInt64.ofNat_toNat

/-- Where the own handler is called, the first name with the opcode has it. -/
theorem firstOfOpcode_of_calls (htable : IsTable first second table) (hinst : inst ∈ table)
    (hfield : inst.opcodeField.isSome = true) (hop : fieldBits word [first, second] < 2 ^ 64)
    (h : CallsOwnHandler b lower table inst word) :
    Writable b first second table ∧ OpcodesOnly table ∧
      FirstOfOpcode lower table (opcodeRead first second word) inst := by
  obtain ⟨out, hout, hcalls⟩ := h
  have hcompiles : translateWord out word ≠ none := by
    rw [hcalls]
    exact Option.some_ne_none _
  have hwritable := writable_of_compiles htable hout hcompiles hinst hfield
  have hsingle := opcodesOnly_of_compiles htable hout hcompiles
  rw [translate_eq htable hsingle hwritable hout hop, Option.some.injEq] at hcalls
  exact ⟨hwritable, hsingle, (find_handler_iff lower _ inst).mp hcalls⟩

/-- Where the first name with the opcode has the handler, it is called. -/
theorem calls_of_firstOfOpcode (htable : IsTable first second table)
    (hop : fieldBits word [first, second] < 2 ^ 64) (hwritable : Writable b first second table)
    (hsingle : OpcodesOnly table)
    (hfirst : FirstOfOpcode lower table (opcodeRead first second word) inst) :
    CallsOwnHandler b lower table inst word := by
  obtain ⟨out, hout⟩ := writeRust_returns lower htable hsingle hwritable
  refine ⟨out, hout, ?_⟩
  rw [translate_eq htable hsingle hwritable hout hop, (find_handler_iff lower _ inst).mpr hfirst]

/-- **Dispatch of the generated decoder.**  For every instruction table, every instruction of
it with an opcode field and every word with its opcode: the generated decoder calls the
instruction's own handler exactly when the table can be written, no instruction with an opcode
field has a second fixed field, and the first name, in alphabetical order, among those with the
opcode that is read from the word has this handler.
SOURCE: scripts/decoder_generator.rs:111-202 -/
theorem callsOwnHandler_iff (b : Build) (lower : List Char → List Char)
    (first second : UInt64 × UInt64) (table : List ParserInst)
    (htable : IsTable first second table) (inst : ParserInst) (hinst : inst ∈ table)
    (hfield : inst.opcodeField.isSome = true) (word : BitVec 128)
    (hword : fieldBits word [first, second] = inst.op.toNat) :
    CallsOwnHandler b lower table inst word ↔
      Writable b first second table ∧ OpcodesOnly table ∧
        FirstOfOpcode lower table (opcodeRead first second word) inst := by
  have hop : fieldBits word [first, second] < 2 ^ 64 := by
    rw [hword]
    exact inst.op.toNat_lt
  constructor
  · exact firstOfOpcode_of_calls htable hinst hfield hop
  · rintro ⟨hwritable, hsingle, hfirst⟩
    exact calls_of_firstOfOpcode htable hop hwritable hsingle hfirst

end Dispatch

/-- The opcode field of `IADD` and of `IADD3`. -/
def addOpcode : ParserField where
  name := "opcode".toList
  totalBits := 13
  bits := [(91, 91), (0, 11)]
  value := some 0x810

/-- Two instructions with one opcode. -/
def iadd : ParserInst where
  name := "IADD".toList
  op := 0x810
  fixedFields := [addOpcode]
  fields := []

def iadd3 : ParserInst where
  name := "IADD3".toList
  op := 0x810
  fixedFields := [addOpcode]
  fields := []

/-- An instruction with this opcode field alone is one of a table. -/
theorem instFits_of_addOpcode (inst : ParserInst) (hop : inst.op = 0x810)
    (hfixed : inst.fixedFields = [addOpcode]) (hfields : inst.fields = []) :
    InstFits inst ∧ ∀ f, inst.opcodeField = some f → f.bits = [(91, 91), (0, 11)] := by
  have hbits : FieldFits addOpcode := ⟨by simp [addOpcode], rfl⟩
  have hopcode : inst.opcodeField = some addOpcode := by
    unfold ParserInst.opcodeField
    rw [hfixed]
    rfl
  refine ⟨⟨?_, ?_, ?_⟩, ?_⟩
  · simpa [hfixed, hfields] using hbits
  · simp [hfixed, addOpcode]
  · intro f hf
    rw [hopcode] at hf
    cases hf
    rw [hop]
    rfl
  · intro f hf
    rw [hopcode] at hf
    cases hf
    rfl

/-- The two instructions make a table. -/
theorem isTable_iadd : IsTable (91, 91) (0, 11) [iadd, iadd3] := by
  obtain ⟨hfits, hbits⟩ := instFits_of_addOpcode iadd rfl rfl rfl
  obtain ⟨hfits3, hbits3⟩ := instFits_of_addOpcode iadd3 rfl rfl rfl
  refine ⟨?_, ?_⟩
  · exact List.forall_mem_cons.mpr ⟨hfits, List.forall_mem_singleton.mpr hfits3⟩
  · exact List.forall_mem_cons.mpr ⟨hbits, List.forall_mem_singleton.mpr hbits3⟩

/-- Its opcode ranges are narrow. -/
theorem narrow_addOpcode : ∀ r ∈ [((91, 91) : UInt64 × UInt64), (0, 11)], width r ≤ 63 := by
  simp [width]

/-- It can be written. -/
theorem writable_iadd : Writable .debug (91, 91) (0, 11) [iadd, iadd3] := by
  refine ⟨by simp, by simp [width], fun _ => narrow_addOpcode, ?_⟩
  intro inst hwritten f hf
  have hmem : inst ∈ [iadd, iadd3] := List.mem_of_find?_eq_some hwritten
  simp only [List.mem_cons, List.not_mem_nil, or_false] at hmem
  rcases hmem with rfl | rfl
  · cases hf
  · cases hf

/-- `IADD` comes first and keeps its words. -/
theorem callsOwnHandler_iff_iadd :
    CallsOwnHandler .debug (List.map Char.toLower) [iadd, iadd3] iadd 0x810#128 := by
  have hword : fieldBits 0x810#128 [(91, 91), (0, 11)] = iadd.op.toNat := by decide
  have hiff := callsOwnHandler_iff .debug (List.map Char.toLower) (91, 91) (0, 11) [iadd, iadd3]
    isTable_iadd iadd List.mem_cons_self rfl 0x810#128 hword
  refine hiff.mpr ⟨writable_iadd, ?_, ?_⟩
  · simp [OpcodesOnly, iadd, iadd3]
  · rw [opcodeRead_of_narrow narrow_addOpcode hword]
    refine ⟨iadd, List.mem_cons_self, ⟨rfl, rfl⟩, ?_, rfl⟩
    intro k hk _
    simp only [List.mem_cons, List.not_mem_nil, or_false] at hk
    rcases hk with rfl | rfl
    · exact le_refl _
    · decide

/-- `IADD3` comes second: its word `0x810` is handled as an `IADD`. -/
theorem iadd3_is_handled_as_iadd :
    IsTable (91, 91) (0, 11) [iadd, iadd3] ∧ iadd3.opcodeField.isSome = true ∧
      fieldBits 0x810#128 [(91, 91), (0, 11)] = iadd3.op.toNat ∧
      ¬ CallsOwnHandler .debug (List.map Char.toLower) [iadd, iadd3] iadd3 0x810#128 := by
  have hword : fieldBits 0x810#128 [(91, 91), (0, 11)] = iadd3.op.toNat := by decide
  refine ⟨isTable_iadd, rfl, hword, ?_⟩
  intro hcalls
  have hop : fieldBits 0x810#128 [(91, 91), (0, 11)] < 2 ^ 64 := by
    rw [hword]
    exact iadd3.op.toNat_lt
  obtain ⟨-, -, j, hj, -, hle, hname⟩ :=
    firstOfOpcode_of_calls isTable_iadd (by simp) rfl hop hcalls
  rw [opcodeRead_of_narrow narrow_addOpcode hword] at hle
  simp only [List.mem_cons, List.not_mem_nil, or_false] at hj
  rcases hj with rfl | rfl
  · revert hname
    decide
  · have hbelow := hle iadd List.mem_cons_self ⟨rfl, rfl⟩
    exact absurd hbelow (by decide)

/-- No two handlers compete for a word exactly when every word with the opcode of an
instruction reaches the instruction's own handler. -/
theorem all_handlers_reached_iff (b : Build) (lower : List Char → List Char)
    {first second : UInt64 × UInt64} {table : List ParserInst}
    (htable : IsTable first second table) (hsingle : OpcodesOnly table)
    (hwritable : Writable b first second table)
    (hnarrow : ∀ r ∈ [first, second], width r ≤ 63) :
    (∀ inst ∈ table, inst.opcodeField.isSome = true → ∀ word : BitVec 128,
        fieldBits word [first, second] = inst.op.toNat →
          CallsOwnHandler b lower table inst word) ↔
      ∀ i ∈ table, ∀ j ∈ table, ∀ word : BitVec 128,
        HasOpcode i.op i → HasOpcode i.op j → fieldBits word [first, second] = i.op.toNat →
          handlerName lower i = handlerName lower j := by
  have hread (i : ParserInst) (word : BitVec 128)
      (hword : fieldBits word [first, second] = i.op.toNat) :
      fieldBits word [first, second] < 2 ^ 64 ∧ opcodeRead first second word = i.op := by
    refine ⟨?_, opcodeRead_of_narrow hnarrow hword⟩
    rw [hword]
    exact i.op.toNat_lt
  constructor
  · intro hall i hi j hj word hiop hjop hword
    have hfirst (k : ParserInst) (hk : k ∈ table) (hkop : HasOpcode i.op k) :
        FirstOfOpcode lower table i.op k := by
      have hwordk : fieldBits word [first, second] = k.op.toNat := by rw [hword, hkop.2]
      obtain ⟨hop, hopcode⟩ := hread i word hword
      rw [← hopcode]
      exact (firstOfOpcode_of_calls htable hk hkop.1 hop (hall k hk hkop.1 word hwordk)).2.2
    obtain ⟨least, hleast, hop, hle, hname⟩ := hfirst i hi hiop
    obtain ⟨least', hleast', hop', hle', hname'⟩ := hfirst j hj hjop
    have hsame : least.name = least'.name :=
      le_antisymm (hle least' hleast' hop') (hle' least hleast hop)
    rw [← hname, ← hname', handlerName_congr hsame]
  · intro hdistinct inst hinst hfield word hword
    obtain ⟨hop, hopcode⟩ := hread inst word hword
    apply calls_of_firstOfOpcode htable hop hwritable hsingle
    rw [hopcode]
    apply (find_handler_iff lower inst.op inst).mp
    cases hfirst : (prepare table).2.find? fun j => decide (HasOpcode inst.op j) with
    | none =>
      have hnot := List.find?_eq_none.mp hfirst _ (mem_prepare_of_mem hinst)
      have hself : HasOpcode inst.op (tidied inst) := ⟨hfield, rfl⟩
      exact absurd (decide_eq_true hself) hnot
    | some k =>
      have hk : HasOpcode inst.op k := by simpa using List.find?_some hfirst
      obtain ⟨origin, horigin, rfl⟩ := mem_prepare.mp (List.mem_of_find?_eq_some hfirst)
      exact congrArg some (hdistinct inst hinst origin horigin word ⟨hfield, rfl⟩ hk hword).symm

end Oboromi.Analysis.DecoderGenerator
