import Oboromi.Analysis.DumpReading
import Oboromi.Interface.DecoderText

/-!
# What the text of a generated decoder says

The text of an output is read back as its arms (`readDecoder_print`), so as a program it calls what
the output calls (`translateText_print`).  The layers: every number, range, field and condition of
the text is scanned into tokens on its own (`scan_range` to `scan_conditions`); its tokens are an
expression of Rust's grammar, with the levels of the operators (`reads_mask` to `reads_merged`);
and the expression has the value of what was printed (`eval_mask` to `holds_condition`).  Comments
hold the names of instructions and the handlers, and are skipped.
-/

set_option autoImplicit false

namespace Oboromi.Analysis.DecoderGenerator

open Oboromi.Lib
open Oboromi.Lib.Token (scan scan_pieces scan_word_then CommentSafe Breaks)
open Oboromi.Model.DecoderGenerator
open Oboromi.Interface.DecoderGenerator

/-! ## Numbers -/

/-- The digits of a number belong to words. -/
theorem isWordChar_digit {radix n : ℕ} (hradix : 1 < radix) (hle : radix ≤ 16) {c : Char}
    (h : c ∈ Nat.toDigits radix n) : Token.isWordChar c = true := by
  have hdigits : ∀ d < 16, Token.isWordChar (Nat.digitChar d) = true := by decide
  obtain ⟨d, hd, rfl⟩ := Text.digitChar_of_mem_toDigits hradix h
  exact hdigits d (by omega)

/-- A decimal number, and a hexadecimal one. -/
def decimal (n : UInt64) : List Char := Nat.toDigits 10 n.toNat

def hexadecimal (n : UInt64) : List Char := '0' :: 'x' :: Nat.toDigits 16 n.toNat

/-- A number is printed in decimal. -/
theorem toList_toString (n : UInt64) : (toString n).toList = decimal n := String.toList_ofList

/-- A number is printed in hexadecimal behind `0x`. -/
theorem toList_hex (n : UInt64) : (hex n).toList = hexadecimal n := by
  unfold hex
  rw [String.toList_append, String.toList_ofList]
  simp [hexadecimal]

/-- A decimal number in front of a break is one word. -/
theorem scan_decimal (n : UInt64) {text : List Char} {ts : List Token} {m : Token.Mode}
    (h : scan .between text = (ts, m)) (hbreaks : Breaks text) :
    scan .between (decimal n ++ text) = (.word (decimal n) :: ts, m) :=
  scan_word_then Nat.toDigits_ne_nil
    (fun _ hc => isWordChar_digit (by decide) (by decide) hc) h hbreaks

/-- A hexadecimal number in front of a break is one word. -/
theorem scan_hexadecimal (n : UInt64) {text : List Char} {ts : List Token} {m : Token.Mode}
    (h : scan .between text = (ts, m)) (hbreaks : Breaks text) :
    scan .between (hexadecimal n ++ text) = (.word (hexadecimal n) :: ts, m) := by
  refine scan_word_then (List.cons_ne_nil _ _) ?_ h hbreaks
  refine List.forall_mem_cons.mpr ⟨rfl, List.forall_mem_cons.mpr ⟨rfl, ?_⟩⟩
  exact fun c hc => isWordChar_digit (by decide) (by decide) hc

/-- A 64-bit number is a value of the instruction word's type. -/
theorem lt_of_uint64 (n : UInt64) : n.toNat < 2 ^ 128 :=
  n.toNat_lt.trans (Nat.pow_lt_pow_right (by omega) (by omega))

/-- A hexadecimal literal is read back. -/
theorem readLiteral_hexadecimal (n : UInt64) : readLiteral (hexadecimal n) = some n.toNat :=
  Text.fromStrRadix_toDigits hexDigit_digit (by decide) (by decide) (lt_of_uint64 n)

/-- A decimal literal is read back. -/
theorem readLiteral_decimal (n : UInt64) : readLiteral (decimal n) = some n.toNat := by
  have hread : Text.fromStrRadix 10 (2 ^ 128) (decimal n) = some n.toNat :=
    Text.fromStrRadix_toDigits hexDigit_digit (by decide) (by decide) (lt_of_uint64 n)
  have hx : 'x' ∉ decimal n := by
    intro hc
    exact absurd (digit_plain (by decide) (by decide) hc).2 (by decide)
  unfold readLiteral
  split
  · next digits heq =>
    rw [heq] at hx
    simp at hx
  · exact hread

/-- A number starts with a digit, so it is no identifier. -/
theorem not_identifier {c : Char} {text : List Char} (h : isDigit c = true) :
    isIdentifier (c :: text) = false := by
  simp [isIdentifier, h]

/-- A hexadecimal number is a literal operand. -/
theorem readOperand_hexadecimal (n : UInt64) :
    readOperand (.word (hexadecimal n)) = some (.literal n.toNat) := by
  unfold readOperand
  dsimp only
  rw [if_neg (by rw [hexadecimal, not_identifier rfl]; exact Bool.false_ne_true),
    readLiteral_hexadecimal]
  rfl

/-- A decimal number is a literal operand. -/
theorem readOperand_decimal (n : UInt64) :
    readOperand (.word (decimal n)) = some (.literal n.toNat) := by
  have hne : decimal n ≠ [] := Nat.toDigits_ne_nil
  obtain ⟨c, digits, hdigits⟩ := List.exists_cons_of_ne_nil hne
  have hc : c ∈ decimal n := hdigits ▸ List.mem_cons_self
  have hdigit : isDigit c = true := by
    obtain ⟨hlow, hhigh⟩ := digit_plain (by decide) (by decide) hc
    simp [isDigit, hlow, hhigh]
  have hword : isIdentifier (decimal n) = false := hdigits ▸ not_identifier hdigit
  unfold readOperand
  dsimp only
  rw [if_neg (by rw [hword]; exact Bool.false_ne_true), readLiteral_decimal]
  rfl

/-! ## One range -/

/-- The tokens of a bit range. -/
def maskTokens (e : RangeExpr) : List Token :=
  if e.start > 0 then
    [.symbol ['('], .word "inst".toList, .symbol ">>".toList, .word (decimal e.start),
      .symbol [')'], .symbol ['&'], .word (hexadecimal e.mask)]
  else [.word "inst".toList, .symbol ['&'], .word (hexadecimal e.mask)]

def rangeTokens (e : RangeExpr) : List Token :=
  .symbol ['('] :: (.symbol ['('] :: (maskTokens e ++ [.symbol [')']]) ++
    .symbol "<<".toList :: [.word (decimal e.place)]) ++ [.symbol [')']]

/-- The text of a bit range in brackets. -/
def rangeText (e : RangeExpr) : String :=
  "((" ++ e.stmtMask ++ ") << " ++ toString e.place ++ ")"

/-- The tokens of a shift and its mask. -/
theorem scan_mask (e : RangeExpr) {text : List Char} {ts : List Token} {m : Token.Mode}
    (h : scan .between text = (ts, m)) (hbreaks : Breaks text) :
    scan .between (e.stmtMask.toList ++ text) = (maskTokens e ++ ts, m) := by
  have hmask := scan_hexadecimal e.mask h hbreaks
  unfold RangeExpr.stmtMask maskTokens
  split
  · simp only [String.toList_append, toList_toString, toList_hex, List.append_assoc]
    have hopen : scan .between "(inst >> ".toList =
        ([.symbol ['('], .word "inst".toList, .symbol ">>".toList], .between) := rfl
    have hand : scan .between ") & ".toList = ([.symbol [')'], .symbol ['&']], .between) := rfl
    exact (scan_pieces hopen (scan_decimal e.start (scan_pieces hand hmask) rfl)).trans rfl
  · simp only [String.toList_append, toList_hex, List.append_assoc]
    have hinst : scan .between "inst & ".toList =
        ([.word "inst".toList, .symbol ['&']], .between) := rfl
    exact (scan_pieces hinst hmask).trans rfl

/-- The tokens of a range. -/
theorem scan_range (e : RangeExpr) :
    scan .between (rangeText e).toList = (rangeTokens e, .between) := by
  have hopen : scan .between "((".toList = ([.symbol ['('], .symbol ['(']], .between) := rfl
  have hshift : scan .between ") << ".toList =
      ([.symbol [')'], .symbol "<<".toList], .between) := rfl
  have hclose : scan .between ")".toList = ([.symbol [')']], .between) := rfl
  have hplace := scan_decimal e.place hclose rfl
  have hmask := scan_mask e (scan_pieces hshift hplace) rfl
  unfold rangeText
  simp only [String.toList_append, toList_toString, List.append_assoc]
  rw [scan_pieces hopen hmask]
  simp [rangeTokens]

/-- The expression of a bit range. -/
def maskExpr (e : RangeExpr) : Expr :=
  if e.start > 0 then
    .binary .and (.binary .shr (.variable "inst".toList) (.literal e.start.toNat))
      (.literal e.mask.toNat)
  else .binary .and (.variable "inst".toList) (.literal e.mask.toNat)

def rangeExpr (e : RangeExpr) : Expr := .binary .shl (maskExpr e) (.literal e.place.toNat)

/-- A hexadecimal literal is read at any level. -/
theorem reads_hexadecimal (level : ℕ) (n : UInt64) :
    rust.Reads level [.word (hexadecimal n)] (.literal n.toNat) :=
  .operand rfl (readOperand_hexadecimal n)

/-- A decimal literal is read at any level. -/
theorem reads_decimal (level : ℕ) (n : UInt64) :
    rust.Reads level [.word (decimal n)] (.literal n.toNat) :=
  .operand rfl (readOperand_decimal n)

/-- The instruction word is read at any level. -/
theorem reads_inst (level : ℕ) :
    rust.Reads level [.word "inst".toList] (.variable "inst".toList) :=
  .operand rfl rfl

/-- An expression in brackets is read at any level. -/
theorem reads_brackets (level : ℕ) {ts : List Token} {e : Expr} (h : rust.Reads 0 ts e) :
    rust.Reads level (.symbol ['('] :: (ts ++ [.symbol [')']])) e :=
  .bracket rfl rfl rfl h

/-- A shift and its mask are read as they were meant. -/
theorem reads_mask (e : RangeExpr) : rust.Reads 0 (maskTokens e) (maskExpr e) := by
  unfold maskTokens maskExpr
  split
  · have hshift : rust.Reads 0 ([.word "inst".toList] ++ .symbol ">>".toList ::
        [.word (decimal e.start)])
        (.binary .shr (.variable "inst".toList) (.literal e.start.toNat)) :=
      .binary rfl (Nat.zero_le 3) (reads_inst 3) (reads_decimal 4 e.start)
    exact .binary rfl (Nat.zero_le 2) (reads_brackets 2 hshift) (reads_hexadecimal 3 e.mask)
  · exact .binary rfl (Nat.zero_le 2) (reads_inst 2) (reads_hexadecimal 3 e.mask)

/-- A range is read as it was meant. -/
theorem reads_range (level : ℕ) (e : RangeExpr) :
    rust.Reads level (rangeTokens e) (rangeExpr e) := by
  have hshift : rust.Reads 0 (.symbol ['('] :: (maskTokens e ++ [.symbol [')']]) ++
      .symbol "<<".toList :: [.word (decimal e.place)]) (rangeExpr e) :=
    .binary rfl (Nat.zero_le 3) (reads_brackets 3 (reads_mask e)) (reads_decimal 4 e.place)
  exact reads_brackets level hshift

/-- The value of a literal. -/
theorem toNat_literal (n : UInt64) : (BitVec.ofNat 128 n.toNat).toNat = n.toNat := by
  rw [BitVec.toNat_ofNat, Nat.mod_eq_of_lt (lt_of_uint64 n)]

/-- A left shift by a literal is the shift, unless it is past the word. -/
theorem apply_shl_literal (a : BitVec 128) (n : UInt64) :
    BinOp.shl.apply (.word a) (.word (BitVec.ofNat 128 n.toNat)) =
      if n.toNat < 128 then some (.word (a <<< n.toNat)) else none := by
  dsimp only [BinOp.apply]
  rw [toNat_literal]

/-- A right shift by a literal is the shift, unless it is past the word. -/
theorem apply_shr_literal (a : BitVec 128) (n : UInt64) :
    BinOp.shr.apply (.word a) (.word (BitVec.ofNat 128 n.toNat)) =
      if n.toNat < 128 then some (.word (a >>> n.toNat)) else none := by
  dsimp only [BinOp.apply]
  rw [toNat_literal]

/-- The value of a shift and its mask. -/
theorem eval_mask (inst : BitVec 128) (e : RangeExpr) :
    (maskExpr e).eval inst =
      if e.start.toNat < 128 then
        some (.word ((inst >>> e.start.toNat) &&& BitVec.ofNat 128 e.mask.toNat))
      else none := by
  unfold maskExpr
  split
  · simp only [Expr.eval, if_pos, Option.bind_eq_bind, Option.bind_some, apply_shr_literal]
    split <;> rfl
  · next hzero =>
    have hstart : e.start.toNat = 0 := by
      have hle := UInt64.not_lt.mp hzero
      exact Nat.le_zero.mp (UInt64.le_iff_toNat_le.mp hle)
    rw [hstart, if_pos (by decide)]
    simp [Expr.eval, BinOp.apply]

/-- The expression of a bit range has the value of the range. -/
theorem eval_range (inst : BitVec 128) (e : RangeExpr) :
    (rangeExpr e).eval inst = (evalRange inst e).map .word := by
  unfold rangeExpr evalRange
  rw [Expr.eval, eval_mask]
  by_cases hstart : e.start.toNat < 128
  · rw [if_pos hstart]
    simp only [Expr.eval, Option.bind_eq_bind, Option.bind_some, apply_shl_literal, hstart,
      true_and]
    split <;> rfl
  · simp [hstart]

/-! ## A merged field -/

/-- The tokens and the expression of ranges joined by `|`. -/
def mergedTokens (e : RangeExpr) (exprs : List RangeExpr) : List Token :=
  rangeTokens e ++ exprs.flatMap fun e => .symbol ['|'] :: rangeTokens e

def mergedExpr (e : RangeExpr) (exprs : List RangeExpr) : Expr :=
  exprs.foldl (fun left e => .binary .or left (rangeExpr e)) (rangeExpr e)

/-- The tokens of ranges joined by `|`. -/
theorem scan_merged (e : RangeExpr) (exprs : List RangeExpr) :
    scan .between (printMerged (e :: exprs)).toList = (mergedTokens e exprs, .between) := by
  have hpiece : ∀ e ∈ exprs, scan .between (" | ".toList ++ (rangeText e).toList) =
      (.symbol ['|'] :: rangeTokens e, .between) := by
    intro e _
    have hor : scan .between " | ".toList = ([.symbol ['|']], .between) := rfl
    exact scan_pieces hor (scan_range e)
  have htext : (printMerged (e :: exprs)).toList =
      (rangeText e).toList ++ exprs.flatMap fun e => " | ".toList ++ (rangeText e).toList := by
    unfold printMerged
    rw [String.toList_intercalate, List.map_map, List.map_cons, Text.intercalate_cons_eq,
      List.flatMap_map]
    rfl
  rw [htext]
  exact scan_pieces (scan_range e) (Token.scan_flatMap hpiece)

/-- Joined ranges are read as they were meant. -/
theorem reads_merged (e : RangeExpr) (exprs : List RangeExpr) :
    rust.Reads 0 (mergedTokens e exprs) (mergedExpr e exprs) := by
  have hor : rust.Reads 1 (mergedTokens e exprs) (mergedExpr e exprs) :=
    rust.reads_joined rfl exprs (reads_range 1 e) fun e _ => reads_range 2 e
  exact hor.mono (Nat.zero_le 1)

/-- Ranges joined to an expression on the left, as their values are joined. -/
theorem eval_joined (inst : BitVec 128) (exprs : List RangeExpr) {left : Expr}
    {value : Option (BitVec 128)} (h : left.eval inst = value.map .word) :
    (exprs.foldl (fun left e => .binary .or left (rangeExpr e)) left).eval inst =
      (value.bind fun v => evalFrom inst v exprs).map .word := by
  induction exprs generalizing left value with
  | nil => simpa [evalFrom] using h
  | cons e exprs ih =>
    have hjoined : (Expr.binary .or left (rangeExpr e)).eval inst =
        (value.bind fun v => (evalRange inst e).map fun w => v ||| w).map .word := by
      rw [Expr.eval, h, eval_range]
      cases value <;> cases evalRange inst e <;> rfl
    rw [List.foldl_cons, ih hjoined]
    cases value <;> cases hrange : evalRange inst e <;> simp [evalFrom, hrange]

/-- Their value is the merged field's. -/
theorem eval_merged (inst : BitVec 128) (e : RangeExpr) (exprs : List RangeExpr) :
    (mergedExpr e exprs).eval inst = (evalMerged inst (e :: exprs)).map .word := by
  unfold mergedExpr evalMerged
  rw [if_neg (List.cons_ne_nil e exprs), eval_joined inst exprs (eval_range inst e), evalFrom]
  cases evalRange inst e <;> simp

/-! ## A condition -/

/-- The tokens of a condition. -/
def conditionTokens (c : Condition) : List Token :=
  .symbol ['('] :: (match c.merged with
      | [] => []
      | e :: exprs => mergedTokens e exprs) ++
    [.symbol [')'], .symbol "==".toList, .word (hexadecimal c.value)]

/-- The tokens of a condition in front of a break. -/
theorem scan_condition (c : Condition) {text : List Char} {ts : List Token} {m : Token.Mode}
    (h : scan .between text = (ts, m)) (hbreaks : Breaks text) :
    scan .between (c.print.toList ++ text) = (conditionTokens c ++ ts, m) := by
  have hopen : scan .between "(".toList = ([.symbol ['(']], .between) := rfl
  have hclose : scan .between ") == ".toList =
      ([.symbol [')'], .symbol "==".toList], .between) := rfl
  have hvalue := scan_pieces hclose (scan_hexadecimal c.value h hbreaks)
  unfold Condition.print conditionTokens
  simp only [String.toList_append, toList_hex, List.append_assoc]
  cases c.merged with
  | nil => exact (scan_pieces hopen hvalue).trans rfl
  | cons e exprs =>
    rw [scan_pieces hopen (scan_pieces (scan_merged e exprs) hvalue)]
    simp

/-- The expression of a condition; the unit value is not compared with a number. -/
def conditionExpr (c : Condition) : Option Expr :=
  match c.merged with
  | [] => none
  | e :: exprs => some (.binary .eq (mergedExpr e exprs) (.literal c.value.toNat))

/-- A condition is read up to the token behind it. -/
theorem parse_condition (c : Condition) {t : Token} (ht : readOperator t = none)
    (rest : List Token) :
    rust.parse (conditionTokens c ++ t :: rest) =
      (conditionExpr c).map fun e => (e, t :: rest) := by
  unfold conditionTokens conditionExpr
  cases c.merged with
  | nil => rfl
  | cons e exprs =>
    have hread : rust.Reads 0 (.symbol ['('] :: (mergedTokens e exprs ++ [.symbol [')']]) ++
        .symbol "==".toList :: [.word (hexadecimal c.value)])
        (.binary .eq (mergedExpr e exprs) (.literal c.value.toNat)) :=
      .binary rfl (Nat.le_refl 0) (reads_brackets 0 (reads_merged e exprs))
        (reads_hexadecimal 1 c.value)
    have hparse := rust.parse_of_reads hread ht rest
    simpa using hparse

/-- What is read of a condition holds when the condition does. -/
theorem holds_condition (inst : BitVec 128) {c : Condition} {e : Expr}
    (h : conditionExpr c = some e) : e.holds inst = evalCondition inst c := by
  unfold conditionExpr at h
  unfold evalCondition
  split at h
  · cases h
  · next e exprs hmerged =>
    cases h
    unfold Expr.holds
    rw [Expr.eval, eval_merged, hmerged]
    cases evalMerged inst (e :: exprs) <;> rfl

/-! ## An arm -/

/-- A condition begins with a bracket, so it breaks a word. -/
theorem breaks_condition (c : Condition) (text : List Char) :
    Breaks (c.print.toList ++ text) := by
  unfold Condition.print Breaks
  simp only [String.toList_append, List.append_assoc]
  rfl

/-- Conditions written one after another. -/
theorem scan_conditions (conditions : List Condition) {text : List Char} {ts : List Token}
    {m : Token.Mode} (h : scan .between text = (ts, m)) (hbreaks : Breaks text) :
    scan .between ((String.join (conditions.map Condition.print)).toList ++ text) =
      (conditions.flatMap conditionTokens ++ ts, m) := by
  rw [String.toList_join, List.flatMap_map]
  induction conditions with
  | nil => exact h
  | cons c conditions ih =>
    have hnext : Breaks ((conditions.flatMap fun c => c.print.toList) ++ text) := by
      cases conditions with
      | nil => exact hbreaks
      | cons d conditions =>
        rw [List.flatMap_cons, List.append_assoc]
        exact breaks_condition d _
    rw [List.flatMap_cons, List.flatMap_cons, List.append_assoc, scan_condition c ih hnext,
      List.append_assoc]

/-- The tokens of an arm. -/
def armTokens (arm : Arm) : List Token :=
  template "else if" ++ (arm.conditions.flatMap conditionTokens ++
    (template "\x7b self." ++ .word arm.handler :: template "(inst); \x7d"))

/-- An identifier is a word. -/
theorem isWordChar_identifier {name : List Char} (h : isIdentifier name = true) :
    name ≠ [] ∧ ∀ c ∈ name, Token.isWordChar c = true := by
  simp only [isIdentifier, Bool.and_eq_true, List.all_eq_true] at h
  refine ⟨?_, h.1.1⟩
  rintro rfl
  exact absurd h.1.2 Bool.false_ne_true

/-- The tokens of an arm. -/
theorem scan_arm (arm : Arm) (hname : CommentSafe arm.name)
    (hhandler : isIdentifier arm.handler = true) :
    scan .between arm.print.toList = (armTokens arm, .between) := by
  obtain ⟨hne, hword⟩ := isWordChar_identifier hhandler
  have helse : scan .between "else if ".toList = (template "else if", .between) := rfl
  have hcomment : scan .between ("/*".toList ++ (arm.name ++ "*/".toList)) = ([], .between) :=
    Token.scan_comment hname
  have hspace : scan .between [' '] = ([], .between) := rfl
  have hopen : scan .between " \x7b\n\t\t\tself.".toList =
      (template "\x7b self.", .between) := rfl
  have hcall : scan .between "(inst);\n\t\t\x7d ".toList =
      (template "(inst); \x7d", .between) := rfl
  have hbody := scan_pieces hopen (scan_word_then hne hword hcall rfl)
  have hconditions := scan_conditions arm.conditions hbody rfl
  have hall := scan_pieces helse (scan_pieces hcomment (scan_pieces hspace hconditions))
  have htext : arm.print.toList = "else if ".toList ++
      (("/*".toList ++ (arm.name ++ "*/".toList)) ++ ([' '] ++
        ((String.join (arm.conditions.map Condition.print)).toList ++
          (" \x7b\n\t\t\tself.".toList ++ (arm.handler ++ "(inst);\n\t\t\x7d ".toList))))) := by
    unfold Arm.print
    simp [String.toList_append, String.toList_ofList]
  rw [htext, hall]
  rfl

/-- What the reader makes of an arm: one condition, and the method. -/
def armExpr (arm : Arm) : Option (Expr × List Char) :=
  match arm.conditions with
  | [c] => (conditionExpr c).map fun e => (e, arm.handler)
  | _ => none

/-- A condition without a range does not compile in either reading. -/
theorem evalCondition_of_none (inst : BitVec 128) {c : Condition} (h : conditionExpr c = none) :
    evalCondition inst c = none := by
  unfold conditionExpr at h
  split at h
  · next hempty => simp [evalCondition, evalMerged, hempty]
  · cases h

/-- The reader's arm has the truth value of the arm. -/
theorem holds_arm (inst : BitVec 128) (arm : Arm) :
    (armExpr arm).bind (fun a => a.1.holds inst) = evalArm inst arm := by
  obtain ⟨name, conditions, handler⟩ := arm
  match conditions with
  | [] => rfl
  | [c] =>
    show ((conditionExpr c).map _).bind _ = evalCondition inst c
    cases hexpr : conditionExpr c with
    | none => exact (evalCondition_of_none inst hexpr).symm
    | some e => exact holds_condition inst hexpr
  | _ :: _ :: _ => rfl

/-- Tokens that are expected are taken. -/
theorem expect_append (es ts : List Token) : expect es (es ++ ts) = some ts := by
  induction es with
  | nil => rfl
  | cons e es ih => rw [List.cons_append, expect, if_pos rfl, ih]

/-- The reader takes an arm and goes on, or stops where the arm has no expression. -/
theorem readArms_cons (fuel : ℕ) {arm : Arm} (hhandler : isIdentifier arm.handler = true)
    (rest : List Token) :
    readArms (fuel + 1) (armTokens arm ++ rest) =
      (armExpr arm).bind fun a => (readArms fuel rest).map fun arms => a :: arms := by
  obtain ⟨name, conditions, handler⟩ := arm
  have hcall : ∀ ts, readName (.word handler :: ts) = some (handler, ts) :=
    fun ts => if_pos hhandler
  rw [readArms]
  simp only [armTokens, List.append_assoc, List.cons_append, expect_append]
  match conditions with
  | [] => rfl
  | [c] =>
    have hparse : ∀ ts, rust.parse (conditionTokens c ++ (template "\x7b self." ++ ts)) =
        (conditionExpr c).map fun e => (e, template "\x7b self." ++ ts) :=
      fun ts => parse_condition c rfl _
    have hexpr : armExpr ⟨name, [c], handler⟩ = (conditionExpr c).map fun e => (e, handler) := rfl
    rw [List.flatMap_singleton, hparse, hexpr]
    cases conditionExpr c with
    | none => rfl
    | some e =>
      simp only [Option.map_some, Option.bind_eq_bind, Option.bind_some, expect_append, hcall]
      cases readArms fuel rest <;> rfl
  | c :: d :: conditions =>
    -- the second condition stands where the block should open
    have hparse : ∀ ts, rust.parse (conditionTokens c ++ (conditionTokens d ++ ts)) =
        (conditionExpr c).map fun e => (e, conditionTokens d ++ ts) :=
      fun ts => parse_condition c rfl _
    rw [List.flatMap_cons, List.flatMap_cons, List.append_assoc, List.append_assoc, hparse]
    cases conditionExpr c <;> rfl

/-- The arms are read one by one: by induction over them. -/
theorem readArms_eq {arms : List Arm} (h : ∀ arm ∈ arms, isIdentifier arm.handler = true)
    {fuel : ℕ} (hfuel : arms.length < fuel) :
    readArms fuel (arms.flatMap armTokens ++ template "\x7d \x7d") = arms.mapM armExpr := by
  induction arms generalizing fuel with
  | nil =>
    obtain ⟨fuel, rfl⟩ := Nat.exists_eq_add_of_lt hfuel
    rfl
  | cons arm arms ih =>
    obtain ⟨fuel, rfl⟩ : ∃ n, fuel = n + 1 := ⟨fuel - 1, by omega⟩
    have hrest := ih (fun a ha => h a (List.mem_cons_of_mem _ ha)) (Nat.lt_of_succ_lt_succ hfuel)
    rw [List.flatMap_cons, List.append_assoc, readArms_cons fuel (h arm List.mem_cons_self), hrest,
      List.mapM_cons]
    cases armExpr arm <;> cases arms.mapM armExpr <;> rfl

/-! ## The file -/

/-- The digits of a number keep to their comment. -/
theorem commentSafe_number {radix n : ℕ} (hradix : 1 < radix) (hle : radix ≤ 16) :
    CommentSafe (Nat.toDigits radix n) :=
  Token.commentSafe_of_word fun _ hc => isWordChar_digit hradix hle hc

/-- A decimal number keeps to its comment. -/
theorem commentSafe_decimal (n : UInt64) : CommentSafe (decimal n) :=
  commentSafe_number (by decide) (by decide)

/-- A hexadecimal number keeps to its comment. -/
theorem commentSafe_hexadecimal (n : UInt64) : CommentSafe (hexadecimal n) := by
  have hx : CommentSafe ['0', 'x'] := Token.commentSafe_of_all rfl
  exact hx.append (commentSafe_number (by decide) (by decide))

/-- A range keeps to its comment. -/
theorem commentSafe_range (e : RangeExpr) : CommentSafe (rangeText e).toList := by
  have hmask : CommentSafe e.stmtMask.toList := by
    unfold RangeExpr.stmtMask
    split
    · simp only [String.toList_append, toList_toString, toList_hex]
      exact (((Token.commentSafe_of_all rfl).append (commentSafe_decimal _)).text rfl).append
        (commentSafe_hexadecimal _)
    · simp only [String.toList_append, toList_hex]
      exact (Token.commentSafe_of_all rfl).append (commentSafe_hexadecimal _)
  unfold rangeText
  simp only [String.toList_append, toList_toString]
  exact ((((Token.commentSafe_of_all rfl).append hmask).text rfl).append
    (commentSafe_decimal _)).text rfl

/-- Joined ranges keep to their comment. -/
theorem commentSafe_merged (exprs : List RangeExpr) :
    CommentSafe (printMerged exprs).toList := by
  unfold printMerged
  rw [String.toList_intercalate, List.map_map]
  cases exprs with
  | nil => exact Token.commentSafe_of_all rfl
  | cons e exprs =>
    rw [List.map_cons, Text.intercalate_cons_eq, List.flatMap_map]
    refine (commentSafe_range e).append (CommentSafe.flatMap fun e _ => ?_)
    exact (Token.commentSafe_of_all rfl).append (commentSafe_range e)

/-- The names in an output can be written. -/
structure Readable (out : Output) : Prop where
  removed : ∀ r ∈ out.removed, '\n' ∉ r.field ∧ '\n' ∉ r.inst
  arms : ∀ arm ∈ out.arms, CommentSafe arm.name ∧ isIdentifier arm.handler = true
  handlers : ∀ h ∈ out.handlers, isIdentifier h.name = true ∧ ∀ l ∈ h.lets, CommentSafe l.1

/-- A handler's text keeps to the comment it is printed in. -/
theorem commentSafe_handler {h : Handler} (hname : isIdentifier h.name = true)
    (hlets : ∀ l ∈ h.lets, CommentSafe l.1) : CommentSafe h.print.toList := by
  have hlines : CommentSafe (h.lets.flatMap fun l => "\t\tlet _".toList ++ l.1 ++ " = ".toList ++
      (printMerged l.2).toList ++ ";\n".toList) := by
    refine CommentSafe.flatMap fun l hl => ?_
    exact ((((Token.commentSafe_of_all rfl).append (hlets l hl)).text rfl).append
      (commentSafe_merged l.2)).text rfl
  have hhandler : CommentSafe h.name :=
    Token.commentSafe_of_word (isWordChar_identifier hname).2
  have htext : h.print.toList = "\tpub fn ".toList ++ h.name ++
      "(&self, inst: u128) \x7b\n".toList ++ (h.lets.flatMap fun l => "\t\tlet _".toList ++ l.1 ++
        " = ".toList ++ (printMerged l.2).toList ++ ";\n".toList) ++ "\t\ttodo!();\n".toList ++
          "\t\x7d\n".toList := by
    unfold Handler.print
    simp only [String.toList_append, String.toList_ofList, String.toList_join, List.flatMap_map]
  rw [htext]
  exact (((((Token.commentSafe_of_all rfl).append hhandler).text rfl).append
    hlines).text rfl).text rfl

/-- A number has no line break. -/
theorem no_feed_number (n : ℕ) : '\n' ∉ Nat.toDigits 10 n := by
  intro hmem
  exact absurd (isWordChar_digit (by decide) (by decide) hmem) (by decide)

/-- The line on a removed field is a comment. -/
theorem scan_removed {r : Removed} (hfield : '\n' ∉ r.field) (hinst : '\n' ∉ r.inst) :
    scan .between r.print.toList = ([], .between) := by
  have hline : '\n' ∉ " removed empty field #".toList ++ Nat.toDigits 10 r.position ++
      [' '] ++ r.field ++ " of ".toList ++ r.inst := by
    simp [no_feed_number, hfield, hinst]
  have htext : r.print.toList = "//".toList ++ ((" removed empty field #".toList ++
      Nat.toDigits 10 r.position ++ [' '] ++ r.field ++ " of ".toList ++ r.inst) ++
        "\n".toList) := by
    unfold Removed.print
    simp [String.toList_append, String.toList_ofList]
  rw [htext]
  exact Token.scan_lineComment hline

/-- What stands before the arms, and what behind them. -/
def openingText (out : Output) : List Char :=
  (out.removed.flatMap fun r => r.print.toList) ++
    (("//".toList ++ (" this file is autogenered, do not modify".toList ++ "\n".toList)) ++
      ("impl<\x27a> Decoder<\x27a> \x7b\n\t".toList ++
        (("//".toList ++ ((" ".toList ++ Nat.toDigits 10 out.count ++ " instructions".toList) ++
          "\n".toList)) ++
          ("\tpub fn translate(&self, inst: u128) \x7b\n".toList ++
            "\t\tif false \x7b\n\t\t\tunreachable!();\n\t\t\x7d ".toList))))

def closingText (out : Output) : List Char :=
  "\n\t\x7d\n\x7d\n".toList ++
    (("/*".toList ++ (("\nimpl Decoder \x7b\n".toList ++
      (out.handlers.flatMap fun h => h.print.toList) ++ "\x7d\n".toList) ++ "*/".toList)) ++
        "\n".toList)

/-- The text is what stands before the arms, the arms, and what stands behind them. -/
theorem print_eq (out : Output) :
    out.print.toList =
      openingText out ++ ((out.arms.flatMap fun arm => arm.print.toList) ++ closingText out) := by
  have hcount : (toString out.count).toList = Nat.toDigits 10 out.count := String.toList_ofList
  unfold Output.print openingText closingText
  simp only [String.toList_append, String.toList_join, List.flatMap_map, hcount, List.append_assoc]
  simp

/-- The tokens before the arms: the comments are gone. -/
theorem scan_opening {out : Output} (h : Readable out) :
    scan .between (openingText out) =
      (template "impl<\x27a> Decoder<\x27a> \x7b" ++
        (template "pub fn translate(&self, inst: u128) \x7b" ++
          template "if false \x7b unreachable!(); \x7d"), .between) := by
  have hremoved : scan .between (out.removed.flatMap fun r => r.print.toList) =
      (out.removed.flatMap fun _ => [], .between) :=
    Token.scan_flatMap fun r hr => scan_removed (h.removed r hr).1 (h.removed r hr).2
  have hnotice : scan .between ("//".toList ++ (" this file is autogenered, do not modify".toList ++
      "\n".toList)) = ([], .between) := rfl
  have himpl : scan .between "impl<\x27a> Decoder<\x27a> \x7b\n\t".toList =
      (template "impl<\x27a> Decoder<\x27a> \x7b", .between) := rfl
  have hcount : scan .between ("//".toList ++ ((" ".toList ++ Nat.toDigits 10 out.count ++
      " instructions".toList) ++ "\n".toList)) = ([], .between) :=
    Token.scan_lineComment (by simp [no_feed_number])
  have hopen : scan .between "\tpub fn translate(&self, inst: u128) \x7b\n".toList =
      (template "pub fn translate(&self, inst: u128) \x7b", .between) := rfl
  have hfalse : scan .between "\t\tif false \x7b\n\t\t\tunreachable!();\n\t\t\x7d ".toList =
      (template "if false \x7b unreachable!(); \x7d", .between) := rfl
  have hall := scan_pieces hremoved (scan_pieces hnotice (scan_pieces himpl (scan_pieces hcount
    (scan_pieces hopen hfalse))))
  unfold openingText
  rw [hall]
  simp

/-- The handlers are in a comment. -/
theorem scan_closing {out : Output} (h : Readable out) :
    scan .between (closingText out) = (template "\x7d \x7d", .between) := by
  have hbody : CommentSafe (out.handlers.flatMap fun h => h.print.toList) :=
    CommentSafe.flatMap fun g hg => commentSafe_handler (h.handlers g hg).1 (h.handlers g hg).2
  have hclose : scan .between "\n\t\x7d\n\x7d\n".toList = (template "\x7d \x7d", .between) := rfl
  have hhandlers : scan .between ("/*".toList ++ (("\nimpl Decoder \x7b\n".toList ++
      (out.handlers.flatMap fun h => h.print.toList) ++ "\x7d\n".toList) ++ "*/".toList)) =
      ([], .between) :=
    Token.scan_comment (((Token.commentSafe_of_all rfl).append hbody).text rfl)
  have hend : scan .between "\n".toList = ([], .between) := rfl
  exact scan_pieces hclose (scan_pieces hhandlers hend)

/-- **The arms of an output are read back**: its text is one chain, in the order of the arms, and
is refused when an arm has no condition that is an expression, or several. -/
theorem readDecoder_print {out : Output} (h : Readable out) :
    readDecoder out.print.toList = out.arms.mapM armExpr := by
  have harms : scan .between (out.arms.flatMap fun arm => arm.print.toList) =
      (out.arms.flatMap armTokens, .between) :=
    Token.scan_flatMap fun arm harm => scan_arm arm (h.arms arm harm).1 (h.arms arm harm).2
  have hscan := scan_pieces (scan_opening h) (scan_pieces harms (scan_closing h))
  rw [← print_eq] at hscan
  have htokens : Token.ofText out.print.toList =
      some (template "impl<\x27a> Decoder<\x27a> \x7b" ++
        (template "pub fn translate(&self, inst: u128) \x7b" ++
          (template "if false \x7b unreachable!(); \x7d" ++
            (out.arms.flatMap armTokens ++ template "\x7d \x7d")))) := by
    unfold Token.ofText
    rw [hscan]
    simp [Token.finish]
  have hfuel : out.arms.length <
      (out.arms.flatMap armTokens ++ template "\x7d \x7d").length := by
    have hclose : 0 < (template "\x7d \x7d").length := by decide
    have harm : ∀ arm : Arm, 1 ≤ (armTokens arm).length := by
      intro arm
      have helse : template "else if" = [.word "else".toList, .word "if".toList] := rfl
      simp [armTokens, helse]
    have hsum : out.arms.length ≤ (out.arms.flatMap armTokens).length := by
      have hlengths := List.length_le_sum_of_one_le (out.arms.map fun arm => (armTokens arm).length)
        (by simpa using fun arm _ => harm arm)
      rwa [List.length_map, ← List.length_flatMap] at hlengths
    rw [List.length_append]
    omega
  unfold readDecoder
  rw [htokens]
  simp only [Option.bind_eq_bind, Option.bind_some, expect_append]
  exact readArms_eq (fun arm harm => (h.arms arm harm).2) hfuel

/-- The text of an output has the meaning of the output. -/
theorem translateText_print {out : Output} (h : Readable out) (word : BitVec 128) :
    translateText out.print.toList word = translateWord out word := by
  have hname : ∀ (arm : Arm) (a : Expr × List Char), armExpr arm = some a → a.2 = arm.handler := by
    intro arm a ha
    unfold armExpr at ha
    split at ha
    · obtain ⟨e, -, rfl⟩ := Option.map_eq_some_iff.mp ha
      rfl
    · cases ha
  have hchain := @firstMatch_mapM _ _ _ armExpr (fun a => a.1.holds word) Arm.handler Prod.snd
    out.arms hname
  simp only [holds_arm] at hchain
  unfold translateText translateWord
  rw [readDecoder_print h, hchain]

end Oboromi.Analysis.DecoderGenerator
