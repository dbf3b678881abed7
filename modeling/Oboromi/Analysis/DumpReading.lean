import Oboromi.Analysis.DecoderTables
import Oboromi.Analysis.HexDigits
import Oboromi.Interface.InstructionDump
import Oboromi.Lib.TextPieces

/-!
# A dump is read as it was written

From the inside out: the numbers and ranges of a field (`readRanges_pieces`), a field
(`readField_text`), a line in the state the reader is in (`readLine_text`), and by induction over
the lines the dump.  Names may hold underscores, which also separate the numbers in front of
them, because the reader stops at the range that completes the field's bits.
-/

set_option autoImplicit false

namespace Oboromi.Analysis.DecoderGenerator

open Oboromi.Lib
open Oboromi.Model.DecoderGenerator
open Oboromi.Interface.DecoderGenerator

/-! ## Numbers -/

/-- A digit is read as its value. -/
theorem hexDigit_digit (d : ℕ) (h : d < 16) : Text.hexDigit (Nat.digitChar d) = some d :=
  Analysis.hexDigit_digitChar ⟨d, h⟩

/-- A number in decimal is read back. -/
theorem parseUsize_toDigits {n : ℕ} (h : n < 2 ^ 64) :
    parseUsize (Nat.toDigits 10 n) = some (UInt64.ofNat n) := by
  unfold parseUsize
  rw [Text.fromStrRadix_toDigits hexDigit_digit (by decide) (by decide) h]
  rfl

/-- The digits of a number are no separators and no white space. -/
theorem digit_plain {radix n : ℕ} (hradix : 1 < radix) (hle : radix ≤ 10) {c : Char}
    (h : c ∈ Nat.toDigits radix n) : '0' ≤ c ∧ c ≤ '9' := by
  obtain ⟨d, hd, rfl⟩ := Text.digitChar_of_mem_toDigits hradix h
  have hall : ∀ d : Fin 10, '0' ≤ Nat.digitChar d ∧ Nat.digitChar d ≤ '9' := by decide
  exact hall ⟨d, by omega⟩

/-- A digit is no other character. -/
theorem ne_of_digit {c d : Char} (h : '0' ≤ c ∧ c ≤ '9') (hd : ¬ ('0' ≤ d ∧ d ≤ '9')) : c ≠ d :=
  fun heq => hd (heq ▸ h)

/-- A digit is not white space. -/
theorem digit_not_white {c : Char} (h : '0' ≤ c ∧ c ≤ '9') : Text.isWhitespace c = false := by
  have hlow : 48 ≤ c.toNat := h.1
  have hhigh : c.toNat ≤ 57 := h.2
  unfold Text.isWhitespace
  simp only [Bool.or_eq_false_iff, Bool.and_eq_false_iff, decide_eq_false_iff_not]
  omega

/-! ## Fields -/

/-- The ends of a field's ranges, the last bit first. -/
def endPieces (ranges : List (UInt64 × UInt64)) : List (List Char) :=
  ranges.flatMap fun r => [Nat.toDigits 10 r.2.toNat, Nat.toDigits 10 r.1.toNat]

/-- The ranges are read back, and the reader stops behind them: by induction over the ranges, with
the bits that remain. -/
theorem readRanges_pieces (b : Build) {ranges : List (UInt64 × UInt64)}
    (hordered : ∀ r ∈ ranges, r.1 ≤ r.2) (hfits : (ranges.map width).sum < 2 ^ 64)
    (rest : List (List Char)) :
    readRanges b (UInt64.ofNat (ranges.map width).sum) (endPieces ranges ++ rest) =
      .ok (ranges, rest) := by
  induction ranges with
  | nil =>
    unfold readRanges
    exact if_pos rfl
  | cons r ranges ih =>
    have horder := UInt64.le_iff_toNat_le.mp (hordered r List.mem_cons_self)
    rw [List.map_cons, List.sum_cons] at hfits
    have hwidth : width r = r.2.toNat - r.1.toNat + 1 := rfl
    have hrest := ih (fun q hq => hordered q (List.mem_cons_of_mem r hq)) (by omega)
    have htotal : (UInt64.ofNat (width r + (ranges.map width).sum)).toNat =
        width r + (ranges.map width).sum := UInt64.toNat_ofNat_of_lt' hfits
    have hne : UInt64.ofNat (width r + (ranges.map width).sum) ≠ 0 := by
      intro hzero
      have hnat := congrArg UInt64.toNat hzero
      rw [htotal] at hnat
      have hnone : (0 : UInt64).toNat = 0 := rfl
      omega
    have hdistance : (r.2 - r.1).toNat = r.2.toNat - r.1.toNat := toNat_sub_of_fits horder
    have hone : (1 : UInt64).toNat = 1 := rfl
    have hsize : (r.2 - r.1 + 1).toNat = width r := by
      rw [toNat_add_of_fits (by omega), hdistance, hone, hwidth]
    have hleft : UInt64.ofNat (width r + (ranges.map width).sum) - (r.2 - r.1 + 1) =
        UInt64.ofNat (ranges.map width).sum := by
      apply UInt64.toNat_inj.mp
      have hrest := Nat.lt_of_le_of_lt (Nat.le_add_left _ _) hfits
      rw [toNat_sub_of_fits (by omega), htotal, hsize, UInt64.toNat_ofNat_of_lt' hrest]
      omega
    have hpieces : endPieces (r :: ranges) ++ rest =
        Nat.toDigits 10 r.2.toNat :: Nat.toDigits 10 r.1.toNat :: (endPieces ranges ++ rest) := rfl
    rw [List.map_cons, List.sum_cons, hpieces, readRanges, if_neg hne,
      parseUsize_toDigits r.2.toNat_lt, parseUsize_toDigits r.1.toNat_lt, UInt64.ofNat_toNat,
      UInt64.ofNat_toNat]
    change (b.subU64 r.2 r.1).bind _ = _
    rw [Build.subU64_of_fits horder]
    change (b.addU64 (r.2 - r.1) 1).bind _ = _
    rw [Build.addU64_of_fits (by omega)]
    change (b.subU64 _ (r.2 - r.1 + 1)).bind _ = _
    rw [Build.subU64_of_fits (by omega), hleft]
    change (readRanges b _ (endPieces ranges ++ rest)).bind _ = _
    rw [hrest]
    rfl

/-- The numbers of a field are digits. -/
theorem ranges_plain {f : DumpField} {piece : List Char} {c : Char}
    (hpiece : piece ∈ Nat.toDigits 10 f.totalBits :: endPieces f.ranges) (hc : c ∈ piece) :
    '0' ≤ c ∧ c ≤ '9' := by
  rcases List.mem_cons.mp hpiece with rfl | hends
  · exact digit_plain (by decide) (by decide) hc
  · obtain ⟨r, -, hr⟩ := List.mem_flatMap.mp hends
    simp only [List.mem_cons, List.not_mem_nil, or_false] at hr
    rcases hr with rfl | rfl
    · exact digit_plain (by decide) (by decide) hc
    · exact digit_plain (by decide) (by decide) hc

/-- The text of a field behind `BITS_`: the numbers, an underscore, and the name. -/
theorem pieces_text (f : DumpField) :
    ['_'].intercalate f.pieces =
      ['_'].intercalate (Nat.toDigits 10 f.totalBits :: endPieces f.ranges) ++ '_' :: f.name := by
  obtain ⟨piece, others, hsplit, hjoin⟩ := Text.intercalate_split '_' f.name
  unfold DumpField.pieces
  rw [hsplit]
  change ['_'].intercalate (_ :: endPieces f.ranges ++ piece :: others) = _
  rw [Text.intercalate_append, hjoin]

/-- A field's text is split into its pieces again. -/
theorem split_pieces (f : DumpField) :
    Text.split '_' (['_'].intercalate f.pieces) = f.pieces := by
  refine Text.split_intercalate (List.cons_ne_nil _ _) ?_
  intro piece hpiece hmem
  rcases List.mem_append.mp hpiece with hnumber | hname
  · exact absurd rfl (ne_of_digit (ranges_plain hnumber hmem) (by decide))
  · exact Text.not_mem_of_mem_split hname hmem

/-- A field's text begins with a digit. -/
theorem head_pieces (f : DumpField) :
    ∀ c ∈ (['_'].intercalate f.pieces).head?, '0' ≤ c ∧ c ≤ '9' := by
  have hne : Nat.toDigits 10 f.totalBits ≠ [] := Nat.toDigits_ne_nil
  obtain ⟨d, digits, hdigits⟩ := List.exists_cons_of_ne_nil hne
  have hd : d ∈ Nat.toDigits 10 f.totalBits := hdigits ▸ List.mem_cons_self
  have hhead : (['_'].intercalate f.pieces).head? = some d := by
    unfold DumpField.pieces
    rw [List.cons_append, hdigits]
    cases (_ : List (List Char)) ++ Text.split '_' f.name with
    | nil => rfl
    | cons p pieces =>
      rw [List.intercalate_cons_cons]
      rfl
  intro c hc
  rw [hhead] at hc
  cases hc
  exact digit_plain (by decide) (by decide) hd

/-- White space around a field: there is none to trim. -/
theorem trim_pieces {f : DumpField} (h : EndsPlain f.name) :
    Text.trim (['_'].intercalate f.pieces) = ['_'].intercalate f.pieces := by
  refine Text.trim_of_ends (fun c hc => digit_not_white (head_pieces f c hc)) ?_
  intro c hc
  rw [pieces_text, List.getLast?_append_of_ne_nil _ (List.cons_ne_nil _ _)] at hc
  cases hname : f.name with
  | nil =>
    rw [hname] at hc
    cases hc
    rfl
  | cons d name =>
    rw [hname, List.getLast?_cons_cons, ← hname] at hc
    exact h c hc

/-- **A field is read back.** -/
theorem readField_text (b : Build) (lower : List Char → List Char) {value : DumpValue}
    (hvalue : parseUsize value.text = value.number?) (inst : ParserInst) {f : DumpField}
    (h : f.Writable) :
    readField b lower value.text inst f.text = .ok (f.addTo lower value inst) := by
  have hstripped : Text.trimStartMatches "BITS_".toList f.text = ['_'].intercalate f.pieces := by
    refine Text.trimStartMatches_append (List.cons_ne_nil _ _) ?_
    exact Text.isPrefixOf?_of_head fun c hc => ne_of_digit (head_pieces f c hc) (by decide)
  have hhead : f.pieces.head? = some (Nat.toDigits 10 f.totalBits) := rfl
  have htail : f.pieces.tail = endPieces f.ranges ++ Text.split '_' f.name := rfl
  have hjoin : ['_'].intercalate (Text.split '_' f.name) = f.name := by
    obtain ⟨piece, others, hsplit, hjoin⟩ := Text.intercalate_split '_' f.name
    rw [hsplit, hjoin]
  unfold readField
  simp only [hstripped, trim_pieces h.nameEnd, split_pieces, hhead, htail, Option.bind_some,
    parseUsize_toDigits h.total]
  change (readRanges b (UInt64.ofNat f.totalBits) _).bind _ = _
  unfold DumpField.totalBits
  rw [readRanges_pieces b h.ordered h.total]
  simp only [Except.bind, hjoin, hvalue]
  unfold DumpField.addTo
  dsimp only
  exact (apply_ite Except.ok _ _ _).symm

/-! ## Lines -/

/-- A loop none of whose steps fails is a plain one. -/
theorem foldlM_ok {σ α : Type} {f : σ → α → Except Fault σ} {g : σ → α → σ} {l : List α}
    (h : ∀ a ∈ l, ∀ s, f s a = .ok (g s a)) (s : σ) : l.foldlM f s = .ok (l.foldl g s) := by
  induction l generalizing s with
  | nil => rfl
  | cons a l ih =>
    rw [List.foldlM_cons, h a List.mem_cons_self]
    exact ih (fun c hc => h c (List.mem_cons_of_mem a hc)) (g s a)

/-- The reader's test for the names of pipes. -/
theorem any_isSuffixOf_iff (name : List Char) :
    (pipeSuffixes.any fun suffix => suffix.isSuffixOf name) = true ↔ IsPipe name := by
  unfold IsPipe
  simp only [List.any_eq_true, List.isSuffixOf_iff_suffix]

/-- A character that no other equals does not occur. -/
theorem not_mem_of_plain {c : Char} {s : List Char} (h : ∀ d ∈ s, d ≠ c) : c ∉ s :=
  fun hmem => h c hmem rfl

section Opcode

variable {name : List Char} (op : UInt64)

/-- An opcode is written in digits. -/
theorem opcode_digit {c : Char} (hc : c ∈ Nat.toDigits 2 op.toNat) : '0' ≤ c ∧ c ≤ '9' :=
  digit_plain (by decide) (by decide) hc

/-- The name and the value around the equals sign. -/
theorem split_opcode (hplain : Plain ['='] name) :
    Text.split '=' (DumpLine.opcode name op).text =
      ["        ".toList ++ name ++ [' '],
        [' '] ++ ("0b".toList ++ (Nat.toDigits 2 op.toNat ++ [';'])) ++ []] := by
  have hfront : '=' ∉ "        ".toList ++ name ++ [' '] := by
    have hname : '=' ∉ name :=
      not_mem_of_plain fun c hc heq => (hplain c hc).1 (List.mem_singleton.mpr heq)
    simp [hname]
  have hback : '=' ∉ [' '] ++ ("0b".toList ++ (Nat.toDigits 2 op.toNat ++ [';'])) ++ [] := by
    have hbits : '=' ∉ Nat.toDigits 2 op.toNat :=
      not_mem_of_plain fun c hc => ne_of_digit (opcode_digit op hc) (by decide)
    simp [hbits]
  have htext : (DumpLine.opcode name op).text = ("        ".toList ++ name ++ [' ']) ++
      '=' :: ([' '] ++ ("0b".toList ++ (Nat.toDigits 2 op.toNat ++ [';'])) ++ []) := by
    unfold DumpLine.text
    simp
  rw [htext, Text.split_append hfront, Text.split_of_not_mem hback]

/-- The digits of the value. -/
theorem trim_opcode :
    Text.trimEndMatches [';'] (Text.trimStartMatches "0b".toList
      (Text.trim ([' '] ++ ("0b".toList ++ (Nat.toDigits 2 op.toNat ++ [';'])) ++ []))) =
        Nat.toDigits 2 op.toNat := by
  have hvalue : Text.trim ([' '] ++ ("0b".toList ++ (Nat.toDigits 2 op.toNat ++ [';'])) ++ []) =
      "0b".toList ++ (Nat.toDigits 2 op.toNat ++ [';']) := by
    refine Text.trim_padded [' '] [] (List.forall_mem_singleton.mpr rfl) ?_ ?_ (by simp)
    · intro c hc
      cases hc
      rfl
    · intro c hc
      rw [← List.append_assoc, List.getLast?_concat] at hc
      cases hc
      rfl
  have hb : 'b' ∉ Nat.toDigits 2 op.toNat ++ [';'] := by
    have hbits : 'b' ∉ Nat.toDigits 2 op.toNat :=
      not_mem_of_plain fun c hc => ne_of_digit (opcode_digit op hc) (by decide)
    simp [hbits]
  have hlast : ∀ c ∈ (Nat.toDigits 2 op.toNat).getLast?, c ≠ ';' := fun c hc =>
    ne_of_digit (opcode_digit op (List.mem_of_getLast? hc)) (by decide)
  have hradix : "0b".toList ≠ [] := List.cons_ne_nil _ _
  rw [hvalue, Text.trimStartMatches_append hradix (Text.isPrefixOf?_of_not_mem (by decide) hb),
    Text.trimEndMatches_append hlast]

/-- **An opcode line is read back.** -/
theorem readOpcode_text (hplain : Plain ['='] name) (hend : EndsPlain name)
    (hhead : ∀ c ∈ name.head?, Text.isWhitespace c = false) :
    readOpcode (DumpLine.opcode name op).text =
      .ok (some (if IsPipe name then none else some ⟨name, op, [], []⟩)) := by
  have hname : Text.trim ("        ".toList ++ name ++ [' ']) = name :=
    Text.trim_padded _ _ (List.all_eq_true.mp rfl) hhead hend (List.forall_mem_singleton.mpr rfl)
  have hread : Text.fromStrRadix 2 (2 ^ 64) (Nat.toDigits 2 op.toNat) = some op.toNat :=
    Text.fromStrRadix_toDigits hexDigit_digit (by decide) (by decide) op.toNat_lt
  unfold readOpcode
  rw [split_opcode op hplain, List.map_cons, hname]
  by_cases hpipe : IsPipe name
  · rw [if_pos hpipe]
    exact if_pos ((any_isSuffixOf_iff name).mpr hpipe)
  · rw [if_neg hpipe]
    refine (if_neg fun hany => hpipe ((any_isSuffixOf_iff name).mp hany)).trans ?_
    have hbits : ∀ bits, unwrap (name :: List.map Text.trim [bits])[1]? = .ok (Text.trim bits) :=
      fun bits => rfl
    rw [hbits, ok_bind]
    dsimp only
    rw [trim_opcode, hread]
    simp only [UInt64.ofNat_toNat]
    rfl

end Opcode

section Encoding

variable {first : DumpField} {others : List DumpField} {value : DumpValue}

/-- A field's text has none of the characters that separate. -/
theorem field_text_plain {f : DumpField} (h : f.Writable) :
    ∀ c ∈ f.text, c ≠ ',' ∧ c ≠ '=' ∧ c ≠ '\n' ∧ c ≠ '\r' := by
  have hseparators : ∀ d ∈ [',', '=', '\n', '\r'], ¬ ('0' ≤ d ∧ d ≤ '9') ∧ d ≠ '_' ∧
      d ∉ "BITS_".toList := by
    refine List.forall_mem_cons.mpr ⟨by decide, List.forall_mem_cons.mpr ⟨by decide, ?_⟩⟩
    exact List.forall_mem_cons.mpr ⟨by decide, List.forall_mem_singleton.mpr (by decide)⟩
  have hplain : ∀ c ∈ f.text, ∀ d ∈ [',', '=', '\n', '\r'], c ≠ d := by
    intro c hc d hd
    obtain ⟨hdigit, hunderscore, hletters⟩ := hseparators d hd
    unfold DumpField.text at hc
    rw [pieces_text] at hc
    rcases List.mem_append.mp hc with hc | hc
    · exact fun heq => hletters (heq ▸ hc)
    rcases List.mem_append.mp hc with hc | hc
    · rcases Text.mem_intercalate hc with rfl | ⟨piece, hpiece, hc⟩
      · exact Ne.symm hunderscore
      · exact ne_of_digit (ranges_plain hpiece hc) hdigit
    rcases List.mem_cons.mp hc with rfl | hc
    · exact Ne.symm hunderscore
    · obtain ⟨hsep, hfeed, hreturn⟩ := h.name c hc
      simp only [List.mem_cons, List.not_mem_nil, or_false, not_or] at hsep hd
      rcases hd with rfl | rfl | rfl | rfl
      · exact hsep.1
      · exact hsep.2
      · exact hfeed
      · exact hreturn
  intro c hc
  exact ⟨hplain c hc _ (by simp), hplain c hc _ (by simp), hplain c hc _ (by simp),
    hplain c hc _ (by simp)⟩

/-- The fields of an encoding line, and what stands behind the equals sign. -/
theorem splitOnce_encoding (h : ∀ f ∈ first :: others, f.Writable) :
    Text.splitOnce '=' (DumpLine.encoding first others value).text =
      some ([','].intercalate ((first :: others).map DumpField.text), value.text) := by
  refine Text.splitOnce_append ?_ _
  intro hmem
  rcases Text.mem_intercalate hmem with heq | ⟨piece, hpiece, hc⟩
  · exact absurd heq (by decide)
  · obtain ⟨f, hf, rfl⟩ := List.mem_map.mp hpiece
    exact (field_text_plain (h f hf) _ hc).2.1 rfl

/-- An encoding's fields are split at the commas again. -/
theorem split_encoding (h : ∀ f ∈ first :: others, f.Writable) :
    Text.split ',' ([','].intercalate ((first :: others).map DumpField.text)) =
      (first :: others).map DumpField.text := by
  refine Text.split_intercalate (List.cons_ne_nil _ _) ?_
  intro piece hpiece hc
  obtain ⟨f, hf, rfl⟩ := List.mem_map.mp hpiece
  exact (field_text_plain (h f hf) _ hc).1 rfl

/-- An encoding line starts as one. -/
theorem encoding_text :
    ∃ rest, (DumpLine.encoding first others value).text =
      'B' :: 'I' :: 'T' :: 'S' :: '_' :: rest := by
  change ∃ rest, [','].intercalate ((first :: others).map DumpField.text) ++ '=' :: value.text = _
  cases others with
  | nil =>
    rw [List.map_cons, List.map_nil, List.intercalate_singleton]
    exact ⟨_, rfl⟩
  | cons f others =>
    rw [List.map_cons, List.map_cons, List.intercalate_cons_cons]
    exact ⟨_, rfl⟩

/-- The fields of an encoding line are added to an instruction one by one. -/
theorem readFields_text (b : Build) (lower : List Char → List Char)
    (hvalue : parseUsize value.text = value.number?) (h : ∀ f ∈ first :: others, f.Writable)
    (inst : ParserInst) :
    (Text.split ',' ([','].intercalate ((first :: others).map DumpField.text))).foldlM
        (readField b lower value.text) inst =
      .ok ((first :: others).foldl (DumpField.addTo lower value) inst) := by
  rw [split_encoding h, List.foldlM_map]
  exact foldlM_ok (fun f hf s => readField_text b lower hvalue s (h f hf)) inst

end Encoding

/-- The text is none of the three headings. -/
def NotHeading (text : List Char) : Prop :=
  text ≠ "OPCODES".toList ∧ text ≠ "ENCODING".toList ∧ text ≠ "CLASS".toList

/-- A line that begins otherwise is no heading. -/
theorem notHeading_of_head {c : Char} (rest : List Char) (h : c ∉ ['O', 'E', 'C']) :
    NotHeading (c :: rest) := by
  refine ⟨fun heq => h ?_, fun heq => h ?_, fun heq => h ?_⟩
  all_goals
    rw [(List.cons.inj heq).1]
    decide

/-- **A line is read back**, in any state in which it can be written. -/
theorem readLine_text (b : Build) (lower : List Char → List Char) {line : DumpLine}
    {c : Collected} (h : line.Writable c.state) :
    readLine b lower c line.text = (line.apply lower c).map some := by
  cases line with
  | opcodes => rfl
  | encodings => rfl
  | cls => rfl
  | opcode name op =>
    obtain ⟨hplain, hend, hhead⟩ := h
    have hread := readOpcode_text op hplain hend hhead
    have htext : ∃ rest, (DumpLine.opcode name op).text = ' ' :: rest := ⟨_, rfl⟩
    have hspaces : "        ".toList.isPrefixOf (DumpLine.opcode name op).text = true := by
      rw [List.isPrefixOf_iff_prefix]
      unfold DumpLine.text
      simp only [List.append_assoc]
      exact List.prefix_append _ _
    obtain ⟨rest, hrest⟩ := htext
    have hheading : NotHeading (DumpLine.opcode name op).text := by
      rw [hrest]
      exact notHeading_of_head rest (by decide)
    have hbits : "BITS".toList.isPrefixOf (DumpLine.opcode name op).text = false := by
      rw [hrest]
      rfl
    unfold readLine
    rw [if_neg hheading.1, if_neg hheading.2.1, if_neg hheading.2.2]
    dsimp only [DumpLine.apply]
    by_cases hstate : c.state = .opcodes
    · rw [if_pos ⟨hstate, hspaces⟩, hread]
      by_cases hpipe : IsPipe name
      · rw [if_pos hpipe, if_neg fun hboth => hboth.2 hpipe]
        rfl
      · rw [if_neg hpipe, if_pos ⟨hstate, hpipe⟩]
        rfl
    · have hopcode {p : Prop} : ¬ (c.state = .opcodes ∧ p) := fun hboth => hstate hboth.1
      rw [if_neg hopcode, if_neg hopcode, hbits, if_neg fun hboth => absurd hboth.2 (by decide)]
      rfl
  | encoding first others value =>
    obtain ⟨hfields, hoperand⟩ := h
    have hvalue : parseUsize value.text = value.number? := by
      cases value with
      | number n =>
        have hparse := parseUsize_toDigits n.toNat_lt
        rw [UInt64.ofNat_toNat] at hparse
        exact hparse
      | operand text => exact hoperand.2
    obtain ⟨rest, hrest⟩ := @encoding_text first others value
    have hheading : NotHeading (DumpLine.encoding first others value).text := by
      rw [hrest]
      exact notHeading_of_head _ (by decide)
    have hspaces : "        ".toList.isPrefixOf (DumpLine.encoding first others value).text =
        false := by
      rw [hrest]
      rfl
    have hbits : "BITS".toList.isPrefixOf (DumpLine.encoding first others value).text = true := by
      rw [hrest]
      rfl
    unfold readLine
    rw [if_neg hheading.1, if_neg hheading.2.1, if_neg hheading.2.2, hspaces,
      if_neg fun hboth => absurd hboth.2 (by decide)]
    dsimp only [DumpLine.apply]
    by_cases hstate : c.state = .encoding
    · rw [if_pos ⟨hstate, hbits⟩, if_pos hstate, splitOnce_encoding hfields]
      cases hlast : c.instructions.getLast? with
      | none => rfl
      | some inst =>
        have hread := readFields_text b lower hvalue hfields inst
        change ((Text.split ',' _).foldlM (readField b lower value.text) inst).bind _ = _
        rw [hread]
        rfl
    · rw [if_neg fun hboth => hstate hboth.1, if_neg hstate]
      rfl
  | other text =>
    obtain ⟨-, hheading, hopcode, hencoding⟩ := h
    simp only [List.mem_cons, List.not_mem_nil, or_false, not_or] at hheading
    obtain ⟨hopcodes, hencodings, hcls⟩ := hheading
    have htext : (DumpLine.other text).text = text := rfl
    unfold readLine
    rw [htext, if_neg hopcodes, if_neg hencodings, if_neg hcls,
      if_neg fun hboth => hopcode hboth.1 hboth.2, if_neg fun hboth => hencoding hboth.1 hboth.2]
    rfl

/-! ## Dumps -/

/-- A line that can be written has no line break in it. -/
theorem text_unbroken {line : DumpLine} {state : ParserState} (h : line.Writable state) :
    '\n' ∉ line.text ∧ '\r' ∉ line.text := by
  have hdigits {radix n : ℕ} (hradix : 1 < radix) (hle : radix ≤ 10) {d : Char}
      (hd : ¬ ('0' ≤ d ∧ d ≤ '9')) : d ∉ Nat.toDigits radix n :=
    not_mem_of_plain fun c hc => ne_of_digit (digit_plain hradix hle hc) hd
  cases line with
  | opcodes => decide
  | encodings => decide
  | cls => decide
  | opcode name op =>
    have hfeed : '\n' ∉ name := not_mem_of_plain fun c hc => (h.1 c hc).2.1
    have hreturn : '\r' ∉ name := not_mem_of_plain fun c hc => (h.1 c hc).2.2
    have hbits (d : Char) (hd : ¬ ('0' ≤ d ∧ d ≤ '9')) : d ∉ Nat.toDigits 2 op.toNat :=
      hdigits (by decide) (by decide) hd
    unfold DumpLine.text
    simp [hfeed, hreturn, hbits '\n' (by decide), hbits '\r' (by decide)]
  | encoding first others value =>
    obtain ⟨hfields, hoperand⟩ := h
    have hjoined (d : Char) (hd : d = '\n' ∨ d = '\r') :
        d ∉ [','].intercalate ((first :: others).map DumpField.text) := by
      intro hmem
      rcases Text.mem_intercalate hmem with heq | ⟨piece, hpiece, hc⟩
      · rcases hd with rfl | rfl
        · exact absurd heq (by decide)
        · exact absurd heq (by decide)
      · obtain ⟨f, hf, rfl⟩ := List.mem_map.mp hpiece
        obtain ⟨-, -, hfeed, hreturn⟩ := field_text_plain (hfields f hf) d hc
        exact hd.elim hfeed hreturn
    have hvalue (d : Char) (hd : d = '\n' ∨ d = '\r') : d ∉ value.text := by
      cases value with
      | number n =>
        refine hdigits (by decide) (by decide) ?_
        rcases hd with rfl | rfl
        · decide
        · decide
      | operand text =>
        intro hmem
        obtain ⟨-, hfeed, hreturn⟩ := hoperand.1 d hmem
        exact hd.elim hfeed hreturn
    have hline (d : Char) (hd : d = '\n' ∨ d = '\r') (hne : d ≠ '=') :
        d ∉ (DumpLine.encoding first others value).text := by
      intro hmem
      rcases List.mem_append.mp hmem with hmem | hmem
      · exact hjoined d hd hmem
      · exact (List.mem_cons.mp hmem).elim hne (hvalue d hd)
    exact ⟨hline _ (.inl rfl) (by decide), hline _ (.inr rfl) (by decide)⟩
  | other text =>
    exact ⟨not_mem_of_plain fun c hc => (h.1 c hc).2.1, not_mem_of_plain fun c hc => (h.1 c hc).2.2⟩

/-- Every line of a dump can be written in some state. -/
theorem writable_of_mem {lines : List DumpLine} {state : ParserState}
    (h : WritableDump state lines) : ∀ line ∈ lines, ∃ state', line.Writable state' := by
  induction lines generalizing state with
  | nil => exact fun line hline => (List.not_mem_nil hline).elim
  | cons line lines ih =>
    intro line' hline'
    rcases List.mem_cons.mp hline' with rfl | hrest
    · exact ⟨state, h.1⟩
    · exact ih h.2 line' hrest

/-- A dump's text is split into its lines again. -/
theorem lines_dumpText {lines : List DumpLine} (h : WritableDump .none lines) :
    Text.lines (dumpText lines) = lines.map DumpLine.text := by
  unfold dumpText
  rw [← List.flatMap_map (f := DumpLine.text) (g := fun l => l ++ ['\n'])]
  apply Text.lines_flatMap
  intro l hl
  obtain ⟨line, hline, rfl⟩ := List.mem_map.mp hl
  obtain ⟨state, hwritable⟩ := writable_of_mem h line hline
  exact text_unbroken hwritable

/-- The state behind a line. -/
theorem state_of_apply {lower : List Char → List Char} {line : DumpLine} {c c' : Collected}
    (h : line.apply lower c = .ok c') : c'.state = line.nextState c.state := by
  cases line with
  | opcodes =>
    cases h
    rfl
  | encodings =>
    cases h
    rfl
  | cls =>
    cases h
    rfl
  | opcode name op =>
    dsimp only [DumpLine.apply] at h
    split at h
    all_goals
      cases h
      rfl
  | encoding first others value =>
    dsimp only [DumpLine.apply] at h
    split at h
    · split at h
      · cases h
      · cases h
        rfl
    · cases h
      rfl
  | other text =>
    cases h
    rfl

/-- The lines are read back one after another: by induction, in the state each is written for. -/
theorem readLines_text (b : Build) (lower : List Char → List Char) {lines : List DumpLine}
    {c : Collected} (h : WritableDump c.state lines) :
    readLines b lower c (lines.map DumpLine.text) =
      (lines.foldlM (DumpLine.apply lower) c).map fun c => some c.instructions := by
  induction lines generalizing c with
  | nil => rfl
  | cons line lines ih =>
    rw [List.map_cons, readLines, readLine_text b lower h.1, List.foldlM_cons]
    cases happly : line.apply lower c with
    | error e => rfl
    | ok c' =>
      have hstate := state_of_apply happly
      exact ih (hstate ▸ h.2)

/-- **A dump is read as it was written**, in either build and whatever lower-casing does: the
generator's parser returns the instructions of the dump, and stops only where an encoding comes
before any instruction.
SOURCE: scripts/decoder_generator.rs:27-109 -/
theorem dump_reads_back (b : Build) (lower : List Char → List Char) (lines : List DumpLine)
    (h : WritableDump .none lines) :
    collectSassInstructions b lower (dumpText lines) = (readDump lower lines).map some := by
  unfold collectSassInstructions readDump
  rw [lines_dumpText h, readLines_text b lower h]
  cases lines.foldlM (DumpLine.apply lower) ⟨.none, []⟩ <;> rfl

/-- Text is plain when its characters are checked one by one. -/
theorem plain_of_all {separators text : List Char}
    (h : (text.all fun c => !separators.contains c && c != '\n' && c != '\r') = true) :
    Plain separators text := by
  intro c hc
  have hchecked := List.all_eq_true.mp h c hc
  simp only [Bool.and_eq_true, Bool.not_eq_true', List.contains_eq_mem, decide_eq_false_iff_not,
    bne_iff_ne] at hchecked
  exact ⟨hchecked.1.1, hchecked.1.2, hchecked.2⟩

/-- White space at an end, as a test. -/
theorem white_of_all {o : Option Char} (h : (o.all fun c => !Text.isWhitespace c) = true) :
    ∀ c ∈ o, Text.isWhitespace c = false := by
  intro c hc
  cases hc
  exact Bool.not_eq_true' _ ▸ h

/-- Ordered ranges, as a test. -/
theorem ordered_of_all {ranges : List (UInt64 × UInt64)}
    (h : (ranges.all fun r => decide (r.1 ≤ r.2)) = true) : ∀ r ∈ ranges, r.1 ≤ r.2 :=
  fun r hr => of_decide_eq_true (List.all_eq_true.mp h r hr)

/-- One class, with a pipe that is no instruction, a name with an underscore and a fixed field. -/
theorem dump_reads_back_fadd :
    collectSassInstructions .debug (List.map Char.toLower)
      (dumpText [.opcodes, .opcode "FADDfmalighter_pipe".toList 0x221,
        .opcode "FADD".toList 0x221, .encodings,
        .encoding ⟨[(91, 91), (0, 11)], "Opcode".toList⟩ [] (.operand "Opcode;".toList),
        .encoding ⟨[(12, 14)], "Pg".toList⟩ [⟨[(15, 15)], "Pg_not".toList⟩]
          (.operand "Pg;".toList),
        .encoding ⟨[(102, 103)], "pm.pred".toList⟩ [] (.number 0)]) =
      .ok (some [⟨"FADD".toList, 0x221,
        [⟨"opcode".toList, 13, [(91, 91), (0, 11)], some 0x221⟩,
          ⟨"pm_pred".toList, 2, [(102, 103)], some 0⟩],
        [⟨"pg".toList, 3, [(12, 14)], none⟩, ⟨"pg_not".toList, 1, [(15, 15)], none⟩]⟩]) := by
  refine (dump_reads_back .debug _ _ ?_).trans rfl
  have hpipe : (DumpLine.opcode "FADDfmalighter_pipe".toList 0x221).Writable .opcodes :=
    ⟨plain_of_all rfl, white_of_all rfl, white_of_all rfl⟩
  have hname : (DumpLine.opcode "FADD".toList 0x221).Writable .opcodes :=
    ⟨plain_of_all rfl, white_of_all rfl, white_of_all rfl⟩
  have hop : DumpField.Writable ⟨[(91, 91), (0, 11)], "Opcode".toList⟩ :=
    ⟨ordered_of_all rfl, by decide, plain_of_all rfl, white_of_all rfl⟩
  have hpg : DumpField.Writable ⟨[(12, 14)], "Pg".toList⟩ :=
    ⟨ordered_of_all rfl, by decide, plain_of_all rfl, white_of_all rfl⟩
  have hnot : DumpField.Writable ⟨[(15, 15)], "Pg_not".toList⟩ :=
    ⟨ordered_of_all rfl, by decide, plain_of_all rfl, white_of_all rfl⟩
  have hpred : DumpField.Writable ⟨[(102, 103)], "pm.pred".toList⟩ :=
    ⟨ordered_of_all rfl, by decide, plain_of_all rfl, white_of_all rfl⟩
  exact ⟨trivial, hpipe, hname, trivial,
    ⟨List.forall_mem_singleton.mpr hop, plain_of_all rfl, rfl⟩,
    ⟨List.forall_mem_cons.mpr ⟨hpg, List.forall_mem_singleton.mpr hnot⟩, plain_of_all rfl, rfl⟩,
    ⟨List.forall_mem_singleton.mpr hpred, trivial⟩, trivial⟩

end Oboromi.Analysis.DecoderGenerator
