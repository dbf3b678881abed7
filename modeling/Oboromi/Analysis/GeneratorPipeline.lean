import Oboromi.Analysis.DecoderTables
import Oboromi.Analysis.DecoderDispatch
import Oboromi.Analysis.DecoderText

/-!
# From the dump to the decoder's text

The whole generator: the text of a dump is read as its table, the table is written as a decoder,
and the text of the decoder is read as Rust source again.  The names in the text come from the
table (`readable_of_named`), so the text means what the decoder does; with the dispatch of the
decoder, the generated text calls the right method for every word exactly when the table can be
written.
-/

set_option autoImplicit false

namespace Oboromi.Analysis.DecoderGenerator

open Oboromi.Lib
open Oboromi.Lib.Token (CommentSafe)
open Oboromi.Model.DecoderGenerator
open Oboromi.Interface.DecoderGenerator

variable {b : Build} {lower : List Char → List Char} {table : List ParserInst}

/-! ## The names in the text -/

/-- A removed field is one of the instruction's. -/
theorem origin_of_removed {name : List Char} {kept todo : List ParserField} {r : Removed}
    (h : r ∈ (removeEmpty name kept todo).1) : r.inst = name ∧ ∃ f ∈ todo, f.name = r.field := by
  induction kept, todo using removeEmpty.induct name with
  | case1 kept =>
    rw [removeEmpty] at h
    cases h
  | case2 kept g todo hempty swapped removed fields heq ih =>
    rw [removeEmpty, if_pos hempty] at h
    have hswapped : ∀ f ∈ swapped, f ∈ todo := by
      intro f hf
      rcases List.eq_nil_or_concat todo with rfl | ⟨init, last, rfl⟩
      · simp [swapped] at hf
      · simpa [swapped, or_comm] using hf
    rcases List.mem_cons.mp h with rfl | hrest
    · exact ⟨rfl, g, List.mem_cons_self, rfl⟩
    · obtain ⟨hname, f, hf, hfield⟩ := ih hrest
      exact ⟨hname, f, List.mem_cons_of_mem _ (hswapped f hf), hfield⟩
  | case3 kept g todo hempty ih =>
    rw [removeEmpty, if_neg hempty] at h
    obtain ⟨hname, f, hf, hfield⟩ := ih h
    exact ⟨hname, f, List.mem_cons_of_mem _ hf, hfield⟩

/-- An arm is an instruction's, under its name, and calls its handler. -/
theorem arm_of_writeArm {j : ParserInst} {arm : Arm} (h : writeArm b lower j = .ok (some arm)) :
    j.opcodeField.isSome = true ∧ arm.name = j.name ∧ arm.handler = handlerName lower j := by
  unfold writeArm at h
  cases hfield : j.opcodeField with
  | none =>
    rw [hfield] at h
    cases h
  | some f =>
    rw [hfield] at h
    dsimp only at h
    split at h
    · obtain ⟨conditions, -, h⟩ := bind_eq_ok h
      cases h
      exact ⟨rfl, rfl, rfl⟩
    · cases h

/-- A statement binds the name of its field. -/
theorem name_of_writeLet {f : ParserField} {l : List Char × List RangeExpr}
    (h : writeLet b f = .ok l) : l.1 = f.name := by
  obtain ⟨merged, -, h⟩ := bind_eq_ok h
  cases h
  rfl

/-- A handler is that of an instruction with an opcode field, and reads its fields. -/
theorem origin_of_handler {seen : List (List Char)} {instructions : List ParserInst}
    {handlers : List Handler} (h : writeHandlers b lower seen instructions = .ok handlers)
    {g : Handler} (hg : g ∈ handlers) :
    ∃ j ∈ instructions, j.opcodeField.isSome = true ∧ g.name = handlerName lower j ∧
      ∀ l ∈ g.lets, ∃ f ∈ j.fields, l.1 = f.name := by
  induction instructions generalizing seen handlers with
  | nil =>
    cases h
    cases hg
  | cons k instructions ih =>
    have hrest : ∀ {seen handlers}, writeHandlers b lower seen instructions = .ok handlers →
        g ∈ handlers → ∃ j ∈ k :: instructions, j.opcodeField.isSome = true ∧
          g.name = handlerName lower j ∧ ∀ l ∈ g.lets, ∃ f ∈ j.fields, l.1 = f.name := by
      intro seen handlers hwrite hmem
      obtain ⟨j, hj, hkept⟩ := ih hwrite hmem
      exact ⟨j, List.mem_cons_of_mem _ hj, hkept⟩
    rw [writeHandlers] at h
    cases hfield : k.opcodeField with
    | none =>
      rw [hfield] at h
      exact hrest h hg
    | some f =>
      rw [hfield] at h
      dsimp only at h
      split at h
      · exact hrest h hg
      · split at h
        · obtain ⟨lets, hlets, h⟩ := bind_eq_ok h
          obtain ⟨others, hothers, h⟩ := bind_eq_ok h
          cases h
          rcases List.mem_cons.mp hg with rfl | hg
          · refine ⟨k, List.mem_cons_self, by rw [hfield]; rfl, rfl, ?_⟩
            intro l hl
            obtain ⟨f, hf, hlet⟩ := origin_of_mapM hlets hl
            exact ⟨f, hf, name_of_writeLet hlet⟩
          · exact hrest hothers hg
        · cases h

/-- An output has the names of the instructions. -/
theorem readable_of_named (hnamed : ∀ inst ∈ table, Named lower inst) {out : Output}
    (hout : writeRust b lower table = .ok out) : Readable out := by
  have hremoved : out.removed = (prepare table).1 := by
    unfold writeRust at hout
    obtain ⟨arms, -, hout⟩ := bind_eq_ok hout
    obtain ⟨handlers, -, hout⟩ := bind_eq_ok hout
    cases hout
    rfl
  obtain ⟨arms, harms, hhandlers, houtArms⟩ := writeRust_eq_ok hout
  refine ⟨?_, ?_, ?_⟩
  · intro r hr
    rw [hremoved] at hr
    obtain ⟨emptied, hemptied, hr⟩ := List.mem_flatMap.mp hr
    obtain ⟨inst, hinst, rfl⟩ := List.mem_map.mp hemptied
    obtain ⟨hname, f, hf, hfield⟩ := origin_of_removed hr
    rw [← hfield, hname]
    exact ⟨((hnamed inst hinst).fields f hf).2, (hnamed inst hinst).name.2⟩
  · intro arm harm
    rw [houtArms] at harm
    obtain ⟨arm', hmem, hsome⟩ := List.mem_filterMap.mp harm
    cases hsome
    obtain ⟨j, hj, hwrite⟩ := origin_of_mapM harms hmem
    obtain ⟨hopcode, hname, hhandler⟩ := arm_of_writeArm hwrite
    obtain ⟨inst, hinst, rfl⟩ := mem_prepare.mp hj
    rw [hname, hhandler]
    exact ⟨(hnamed inst hinst).name.1, (hnamed inst hinst).handler hopcode⟩
  · intro g hg
    obtain ⟨j, hj, hopcode, hname, hlets⟩ := origin_of_handler hhandlers hg
    obtain ⟨inst, hinst, rfl⟩ := mem_prepare.mp hj
    refine ⟨?_, ?_⟩
    · rw [hname]
      exact (hnamed inst hinst).handler hopcode
    · intro l hl
      obtain ⟨f, hf, hfield⟩ := hlets l hl
      rw [hfield]
      exact ((hnamed inst hinst).fields f (mem_fields_tidied.mp hf).1).1

/-- An instruction with the name of a keyword. -/
def breakInst : ParserInst where
  name := "BREAK".toList
  op := 0x942
  fixedFields := [⟨"opcode".toList, 13, [(91, 91), (0, 11)], some 0x942⟩]
  fields := [⟨"pp".toList, 3, [(87, 89)], none⟩]

/-- Its names can be written. -/
theorem named_break : Named (List.map Char.toLower) breakInst := by
  refine ⟨⟨Token.commentSafe_of_all rfl, by decide⟩, ?_, fun _ => rfl⟩
  exact List.forall_mem_singleton.mpr ⟨Token.commentSafe_of_all rfl, by decide⟩

/-- The instruction alone is a table. -/
theorem isTable_break : IsTable (91, 91) (0, 11) [breakInst] := by
  have hopcode : breakInst.opcodeField =
      some ⟨"opcode".toList, 13, [(91, 91), (0, 11)], some 0x942⟩ := rfl
  refine ⟨List.forall_mem_singleton.mpr ⟨?_, ?_, ?_⟩, List.forall_mem_singleton.mpr ?_⟩
  · exact List.forall_mem_cons.mpr ⟨⟨ordered_of_all rfl, rfl⟩,
      List.forall_mem_singleton.mpr ⟨ordered_of_all rfl, rfl⟩⟩
  · exact List.forall_mem_singleton.mpr rfl
  · intro f hf
    cases hopcode.symm.trans hf
    rfl
  · intro f hf
    cases hopcode.symm.trans hf
    rfl

/-- It has no other fixed field. -/
theorem opcodesOnly_break : OpcodesOnly [breakInst] := List.forall_mem_singleton.mpr fun _ => rfl

/-- Its table can be written. -/
theorem writable_break : Writable .debug (91, 91) (0, 11) [breakInst] := by
  refine ⟨by simp, by simp [width], fun _ => by simp [width], ?_⟩
  intro inst hwritten f hf
  have hmem : inst = breakInst := List.mem_singleton.mp (List.mem_of_find?_eq_some hwritten)
  rw [hmem] at hf
  cases List.mem_singleton.mp hf
  exact fun _ => by simp [width]

/-- **The text of a decoder means what the decoder does.**  For every instruction table whose names
can be written, in either build: the text that the generator writes, read as Rust source, calls for
every instruction word the method of the decoder, and compiles exactly when the decoder does.
SOURCE: scripts/decoder_generator.rs:111-228 -/
theorem decoder_text_translates (b : Build) (lower : List Char → List Char)
    (table : List ParserInst) (hnamed : ∀ inst ∈ table, Named lower inst) (out : Output)
    (hout : writeRust b lower table = .ok out) (word : BitVec 128) :
    translateText out.print.toList word = translateWord out word :=
  translateText_print (readable_of_named hnamed hout) word

/-- The text of its decoder means what the decoder does. -/
theorem decoder_text_translates_break :
    ∃ out, writeRust .debug (List.map Char.toLower) [breakInst] = .ok out ∧
      translateText out.print.toList 0x942#128 = translateWord out 0x942#128 := by
  obtain ⟨out, hout⟩ :=
    writeRust_returns (List.map Char.toLower) isTable_break opcodesOnly_break writable_break
  exact ⟨out, hout, decoder_text_translates .debug _ [breakInst]
    (List.forall_mem_singleton.mpr named_break) out hout 0x942#128⟩

/-! ## The whole generator -/

/-- The dump of a table is read as the table. -/
theorem collect_of_readDump {lines : List DumpLine} (hlines : WritableDump .none lines)
    (htable : readDump lower lines = .ok table) :
    collectSassInstructions b lower (dumpText lines) = .ok (some table) := by
  obtain ⟨c, hc, hinstructions⟩ := map_eq_ok htable
  unfold collectSassInstructions
  rw [lines_dumpText hlines, readLines_text b lower hlines, hc, ← hinstructions]
  rfl

/-- Generating from the dump's text is writing its table. -/
theorem generate_eq {lines : List DumpLine} (hlines : WritableDump .none lines)
    (htable : readDump lower lines = .ok table) :
    generate b lower (dumpText lines) = do
      let out ← writeRust b lower table
      return some out.print.toList := by
  unfold generate
  rw [collect_of_readDump hlines htable, ok_bind]

section Dispatch

variable {first second : UInt64 × UInt64} {out : Output} {word : BitVec 128}

/-- A table that can be written is dispatched over. -/
theorem dispatches (htable : IsTable first second table) (hwritable : Writable b first second table)
    (hsingle : OpcodesOnly table) (hout : writeRust b lower table = .ok out)
    (hnarrow : ∀ r ∈ [first, second], width r ≤ 63) {op : UInt64}
    (hop : fieldBits word [first, second] = op.toNat) :
    Dispatches lower table op (translateWord out word) := by
  have hlt : fieldBits word [first, second] < 2 ^ 64 := by
    rw [hop]
    exact op.toNat_lt
  rw [translate_eq htable hsingle hwritable hout hlt, opcodeRead_of_narrow hnarrow hop]
  refine ⟨Option.some_ne_none _, ?_, ?_⟩
  · intro inst
    rw [Option.some.injEq]
    exact find_handler_iff lower _ inst
  · rw [Option.some.injEq, Option.map_eq_none_iff, List.find?_eq_none]
    constructor
    · intro h inst hinst hhas
      exact h (tidied inst) (mem_prepare_of_mem hinst) (decide_eq_true hhas)
    · intro h j hj hhas
      obtain ⟨inst, hinst, rfl⟩ := mem_prepare.mp hj
      exact h inst hinst (of_decide_eq_true hhas)

/-- Every word is decoded by a table that can be written. -/
theorem decodesWord (htable : IsTable first second table)
    (hwritable : Writable b first second table) (hsingle : OpcodesOnly table)
    (hout : writeRust b lower table = .ok out) (hnarrow : ∀ r ∈ [first, second], width r ≤ 63) :
    DecodesWord lower table [first, second] word (translateWord out word) := by
  refine ⟨fun op hop => dispatches htable hwritable hsingle hout hnarrow hop, ?_⟩
  intro hbeyond
  rw [← readBits_eq_fieldBits hnarrow] at hbeyond
  exact translate_beyond htable hsingle hwritable hout (readBits_lt_of_narrow hnarrow word) hbeyond

end Dispatch

/-- The opcode ranges of a table that can be written are narrow: a debug build computes no other
mask, and for a release build they are. -/
theorem narrow_of_writable {first second : UInt64 × UInt64}
    (hnarrow : b = .release → ∀ r ∈ [first, second], width r ≤ 63)
    (hwritable : Writable b first second table) : ∀ r ∈ [first, second], width r ≤ 63 := by
  cases b with
  | debug => exact hwritable.opcode rfl
  | release => exact hnarrow rfl

/-- **The generator is correct for a dump exactly when its table can be written.**  For every dump
with the same two opcode ranges throughout, for a release build of at most 63 bits each, whose
names can be written: the text generated from the dump's text, read as Rust source, compiles and
calls for every word the method of the first name with the word's opcode, or nothing where no
instruction has it, exactly when the ranges can be written and no instruction with an opcode field
has a second fixed field.
SOURCE: scripts/decoder_generator.rs:27-228, 379-382 -/
theorem dump_is_decoded_iff (b : Build) (lower : List Char → List Char) (lines : List DumpLine)
    (hlines : WritableDump .none lines) (table : List ParserInst)
    (htable : readDump lower lines = .ok table) (hnamed : ∀ inst ∈ table, Named lower inst)
    (first second : UInt64 × UInt64)
    (hopcode : ∀ inst ∈ table, ∀ f, inst.opcodeField = some f → f.bits = [first, second])
    (hnarrow : b = .release → ∀ r ∈ [first, second], width r ≤ 63)
    (hsome : ∃ inst ∈ table, inst.opcodeField.isSome = true) :
    (∃ text, generate b lower (dumpText lines) = .ok (some text) ∧
      ∀ word, DecodesWord lower table [first, second] word (translateText text word)) ↔
      Writable b first second table ∧ OpcodesOnly table := by
  have hfits : IsTable first second table :=
    isTable_of_collected (collect_of_readDump hlines htable) hopcode
  rw [generate_eq hlines htable]
  constructor
  · rintro ⟨text, htext, hdispatches⟩
    obtain ⟨out, hout, htext⟩ := bind_eq_ok htext
    obtain rfl := Option.some.inj (Except.ok.inj htext)
    -- the zero word has the opcode zero, and the decoder compiles
    have hzero : fieldBits 0 [first, second] = (0 : UInt64).toNat := by simp [fieldBits, rangeBits]
    have hcompiles := ((hdispatches 0).opcode 0 hzero).compiles
    rw [translateText_print (readable_of_named hnamed hout)] at hcompiles
    obtain ⟨inst, hinst, hfield⟩ := hsome
    exact ⟨writable_of_compiles hfits hout hcompiles hinst hfield,
      opcodesOnly_of_compiles hfits hout hcompiles⟩
  · rintro ⟨hwritable, hsingle⟩
    obtain ⟨out, hout⟩ := writeRust_returns lower hfits hsingle hwritable
    refine ⟨out.print.toList, by rw [hout]; rfl, ?_⟩
    intro word
    rw [translateText_print (readable_of_named hnamed hout)]
    exact decodesWord hfits hwritable hsingle hout (narrow_of_writable hnarrow hwritable)

/-- The dump of the one instruction. -/
def breakDump : List DumpLine :=
  [.cls, .opcodes, .opcode "BREAK".toList 0x942, .encodings,
    .encoding ⟨[(91, 91), (0, 11)], "Opcode".toList⟩ [] (.operand "Opcode;".toList),
    .encoding ⟨[(87, 89)], "Pp".toList⟩ [] (.operand "Pp;".toList)]

/-- The dump can be written. -/
theorem writableDump_break : WritableDump .none breakDump := by
  have hname : (DumpLine.opcode "BREAK".toList 0x942).Writable .opcodes :=
    ⟨plain_of_all rfl, white_of_all rfl, white_of_all rfl⟩
  have hop : DumpField.Writable ⟨[(91, 91), (0, 11)], "Opcode".toList⟩ :=
    ⟨ordered_of_all rfl, by decide, plain_of_all rfl, white_of_all rfl⟩
  have hpp : DumpField.Writable ⟨[(87, 89)], "Pp".toList⟩ :=
    ⟨ordered_of_all rfl, by decide, plain_of_all rfl, white_of_all rfl⟩
  exact ⟨trivial, trivial, hname, trivial,
    ⟨List.forall_mem_singleton.mpr hop, plain_of_all rfl, rfl⟩,
    ⟨List.forall_mem_singleton.mpr hpp, plain_of_all rfl, rfl⟩, trivial⟩

/-- The text generated from the dump decodes every word. -/
theorem dump_is_decoded_iff_break :
    ∃ text, generate .debug (List.map Char.toLower) (dumpText breakDump) = .ok (some text) ∧
      ∀ word, DecodesWord (List.map Char.toLower) [breakInst] [(91, 91), (0, 11)] word
        (translateText text word) :=
  (dump_is_decoded_iff .debug _ breakDump writableDump_break [breakInst] rfl
    (List.forall_mem_singleton.mpr named_break) (91, 91) (0, 11) isTable_break.opcodeBits
    (fun hrelease => by cases hrelease) ⟨breakInst, List.mem_singleton_self _, rfl⟩).mpr
      ⟨writable_break, opcodesOnly_break⟩

end Oboromi.Analysis.DecoderGenerator
