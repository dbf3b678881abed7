import Oboromi.Interface.GeneratedDecoder
import Oboromi.Lib.Precedence
import Oboromi.Lib.Tokens

/-!
# The text of a generated decoder as a program

The text is read as Rust source, apart from how it was written: tokens without the comments,
expressions over the operators it uses with their precedences in Rust, and the `translate` method
as a chain of `else if`s, each of which calls one method on the instruction word
(`readDecoder`).  Names are identifiers and no keywords.  A decoder that cannot be read, or with
an expression without a value, does not compile (`translateText`).
-/

set_option autoImplicit false

namespace Oboromi.Interface.DecoderGenerator

open Oboromi.Lib
open Oboromi.Model.DecoderGenerator

/-! ## Expressions -/

inductive BinOp where
  | shl
  | shr
  | and
  | or
  | eq
  deriving DecidableEq, Repr

inductive Expr where
  | variable (name : List Char)
  | literal (n : ℕ)
  | binary (op : BinOp) (left right : Expr)
  deriving DecidableEq, Repr

/-- The keywords of Rust in its edition of 2024, those in reserve included. -/
def keywords : List (List Char) :=
  ["as", "break", "const", "continue", "crate", "else", "enum", "extern", "false", "fn", "for",
    "if", "impl", "in", "let", "loop", "match", "mod", "move", "mut", "pub", "ref", "return",
    "self", "Self", "static", "struct", "super", "trait", "true", "type", "unsafe", "use",
    "where", "while", "async", "await", "dyn", "abstract", "become", "box", "do", "final",
    "macro", "override", "priv", "try", "gen", "typeof", "unsized", "virtual", "yield",
    "_"].map String.toList

def isDigit (c : Char) : Bool := '0' ≤ c && c ≤ '9'

def isIdentifier (text : List Char) : Bool :=
  text.all Token.isWordChar && text.head?.any (fun c => !isDigit c) && !keywords.contains text

/-- An integer literal, in decimal or hexadecimal. -/
def readLiteral (text : List Char) : Option ℕ :=
  match text with
  | '0' :: 'x' :: digits => Text.fromStrRadix 16 (2 ^ 128) digits
  | _ => Text.fromStrRadix 10 (2 ^ 128) text

def readOperand : Token → Option Expr
  | .word text =>
    if isIdentifier text then some (.variable text) else (readLiteral text).map .literal
  | .symbol _ => none

/-- The operators with their levels: shifts bind closest, then `&`, `|` and the comparison. -/
def readOperator : Token → Option (ℕ × (Expr → Expr → Expr))
  | .word _ => none
  | .symbol text =>
    if text = "<<".toList then some (3, .binary .shl)
    else if text = ">>".toList then some (3, .binary .shr)
    else if text = ['&'] then some (2, .binary .and)
    else if text = ['|'] then some (1, .binary .or)
    else if text = "==".toList then some (0, .binary .eq)
    else none

/-- The expressions of the decoder. -/
def rust : Operators Token Expr where
  operand := readOperand
  opens t := t = .symbol ['(']
  closes t := t = .symbol [')']
  operator := readOperator

/-! ## Values -/

inductive Value where
  | word (w : BitVec 128)
  | bool (holds : Bool)
  deriving DecidableEq, Repr

/-- A shift by 128 or more does not compile. -/
def BinOp.apply : BinOp → Value → Value → Option Value
  | .shl, .word a, .word b => if b.toNat < 128 then some (.word (a <<< b.toNat)) else none
  | .shr, .word a, .word b => if b.toNat < 128 then some (.word (a >>> b.toNat)) else none
  | .and, .word a, .word b => some (.word (a &&& b))
  | .or, .word a, .word b => some (.word (a ||| b))
  | .eq, .word a, .word b => some (.bool (a == b))
  | _, _, _ => none

/-- The value of an expression where `inst` is the instruction word. -/
def Expr.eval (inst : BitVec 128) : Expr → Option Value
  | .variable name => if name = "inst".toList then some (.word inst) else none
  | .literal n => some (.word (BitVec.ofNat 128 n))
  | .binary op left right => do
    let a ← left.eval inst
    let b ← right.eval inst
    op.apply a b

/-- The truth value of a condition. -/
def Expr.holds (inst : BitVec 128) (e : Expr) : Option Bool :=
  match e.eval inst with
  | some (.bool holds) => some holds
  | _ => none

/-! ## The decoder -/

/-- The tokens of a text of the decoder that is always the same. -/
def template (text : String) : List Token := (Token.ofText text.toList).getD []

/-- The tokens behind the ones that are expected. -/
def expect : List Token → List Token → Option (List Token)
  | [], ts => some ts
  | _ :: _, [] => none
  | e :: es, t :: ts => if e = t then expect es ts else none

/-- The name of a method. -/
def readName : List Token → Option (List Char × List Token)
  | .word text :: ts => if isIdentifier text then some (text, ts) else none
  | _ => none

/-- The chain of `else if`s: the condition and the method of each, to the end of the file. -/
def readArms : ℕ → List Token → Option (List (Expr × List Char))
  | 0, _ => none
  | fuel + 1, ts =>
    match expect (template "else if") ts with
    | none => if ts = template "\x7d \x7d" then some [] else none
    | some ts => do
      let (condition, ts) ← rust.parse ts
      let ts ← expect (template "\x7b self.") ts
      let (name, ts) ← readName ts
      let ts ← expect (template "(inst); \x7d") ts
      let arms ← readArms fuel ts
      return (condition, name) :: arms

/-- The arms of a decoder. -/
def readDecoder (text : List Char) : Option (List (Expr × List Char)) := do
  let ts ← Token.ofText text
  let ts ← expect (template "impl<\x27a> Decoder<\x27a> \x7b") ts
  let ts ← expect (template "pub fn translate(&self, inst: u128) \x7b") ts
  let ts ← expect (template "if false \x7b unreachable!(); \x7d") ts
  readArms ts.length ts

/-- The method a decoder calls for a word, if any; `none` for a text that does not compile. -/
def translateText (text : List Char) (inst : BitVec 128) : Option (Option (List Char)) :=
  ((readDecoder text).bind (firstMatch fun arm => arm.1.holds inst)).map (Option.map Prod.snd)

/-! ## Names -/

/-- The names of an instruction can be written: into a comment, onto one line, and as a
method. -/
structure Named (lower : List Char → List Char) (inst : ParserInst) : Prop where
  name : Token.CommentSafe inst.name ∧ '\n' ∉ inst.name
  fields : ∀ f ∈ inst.fields, Token.CommentSafe f.name ∧ '\n' ∉ f.name
  handler : inst.opcodeField.isSome = true → isIdentifier (handlerName lower inst) = true

/-! ## What a decoder should call -/

/-- The decoder compiles, and calls the method of the first name, in alphabetical order, among the
instructions with the opcode; and nothing when there is none. -/
structure Dispatches (lower : List Char → List Char) (table : List ParserInst) (op : UInt64)
    (called : Option (Option (List Char))) : Prop where
  compiles : called ≠ none
  own : ∀ inst, called = some (some (handlerName lower inst)) ↔ FirstOfOpcode lower table op inst
  other : called = some none ↔ ∀ inst ∈ table, ¬ HasOpcode op inst

/-- What a decoder should call for a word: what it should for the opcode that the word has in the
opcode ranges, and nothing where the bits there are more than those of any opcode. -/
structure DecodesWord (lower : List Char → List Char) (table : List ParserInst)
    (ranges : List (UInt64 × UInt64)) (word : BitVec 128) (called : Option (Option (List Char))) :
    Prop where
  opcode : ∀ op : UInt64, fieldBits word ranges = op.toNat → Dispatches lower table op called
  beyond : 2 ^ 64 ≤ fieldBits word ranges → called = some none

end Oboromi.Interface.DecoderGenerator
