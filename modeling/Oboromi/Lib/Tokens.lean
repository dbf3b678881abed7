import Mathlib.Data.List.Basic

/-!
# Tokens of a source text

A text in the style of the C family is a sequence of words, symbols, white space and comments.
`scan` reads it one character at a time: a word lasts until the first other character, `<`, `>`
and `=` join with a second one of their kind, a line comment ends with its line, and block
comments nest.  A text may be read in pieces, each from the mode in which the piece before it
ends (`scan_append`); a comment around text without its delimiters leaves no token.
-/

set_option autoImplicit false

namespace Oboromi.Lib

inductive Token where
  | word (text : List Char)
  | symbol (text : List Char)
  deriving DecidableEq, Repr

namespace Token

/-- What the reader is inside of. -/
inductive Mode where
  | between
  | word (text : List Char)
  | twin (c : Char)
  | slash
  | line
  | block (depth : ℕ) (last : Option Char)
  deriving DecidableEq, Repr

/-- Letters, digits and the underscore. -/
def isWordChar (c : Char) : Bool :=
  ('a' ≤ c && c ≤ 'z') || ('A' ≤ c && c ≤ 'Z') || ('0' ≤ c && c ≤ '9') || c = '_'

def isSpace (c : Char) : Bool := c = ' ' || c = '\t' || c = '\n' || c = '\r'

/-- A character that starts anew. -/
def start (c : Char) : List Token × Mode :=
  if isWordChar c then ([], .word [c])
  else if isSpace c then ([], .between)
  else if c = '/' then ([], .slash)
  else if c = '<' ∨ c = '>' ∨ c = '=' then ([], .twin c)
  else ([.symbol [c]], .between)

/-- The tokens that end before the next character, and the mode behind it. -/
def step : Mode → Char → List Token × Mode
  | .between, c => start c
  | .word text, c =>
    if isWordChar c then ([], .word (text ++ [c])) else (.word text :: (start c).1, (start c).2)
  | .twin d, c =>
    if c = d then ([.symbol [d, d]], .between) else (.symbol [d] :: (start c).1, (start c).2)
  | .slash, c =>
    if c = '/' then ([], .line)
    else if c = '*' then ([], .block 0 none)
    else (.symbol ['/'] :: (start c).1, (start c).2)
  | .line, c => ([], if c = '\n' then .between else .line)
  | .block depth last, c =>
    if last = some '*' ∧ c = '/' then ([], if depth = 0 then .between else .block (depth - 1) none)
    else if last = some '/' ∧ c = '*' then ([], .block (depth + 1) none)
    else ([], .block depth (if c = '*' ∨ c = '/' then some c else none))

/-- The tokens of a piece of text, and the mode behind it. -/
def scan : Mode → List Char → List Token × Mode
  | m, [] => ([], m)
  | m, c :: text =>
    ((step m c).1 ++ (scan (step m c).2 text).1, (scan (step m c).2 text).2)

/-- What is left at the end of a text; a comment must have ended. -/
def finish : Mode → Option (List Token)
  | .between => some []
  | .word text => some [.word text]
  | .twin c => some [.symbol [c]]
  | .slash => some [.symbol ['/']]
  | .line => some []
  | .block _ _ => none

/-- The tokens of a text. -/
def ofText (text : List Char) : Option (List Token) :=
  (finish (scan .between text).2).map fun last => (scan .between text).1 ++ last

/-! ## Pieces of a text -/

/-- Two texts are scanned one after the other, the second in the mode the first one ends in. -/
theorem scan_append (m : Mode) (s t : List Char) :
    scan m (s ++ t) =
      ((scan m s).1 ++ (scan (scan m s).2 t).1, (scan (scan m s).2 t).2) := by
  induction s generalizing m with
  | nil => rfl
  | cons c s ih =>
    rw [List.cons_append, scan, ih, scan]
    simp only [List.append_assoc]

/-- Two pieces, the second read in the mode the first ends in. -/
theorem scan_pieces {m m' m'' : Mode} {s t : List Char} {ts ts' : List Token}
    (hs : scan m s = (ts, m')) (ht : scan m' t = (ts', m'')) :
    scan m (s ++ t) = (ts ++ ts', m'') := by
  rw [scan_append, hs, ht]

/-- Pieces that are each read between tokens. -/
theorem scan_flatMap {α : Type} {text : α → List Char} {tokens : α → List Token} {l : List α}
    (h : ∀ a ∈ l, scan .between (text a) = (tokens a, .between)) :
    scan .between (l.flatMap text) = (l.flatMap tokens, .between) := by
  induction l with
  | nil => rfl
  | cons a l ih =>
    rw [List.flatMap_cons, List.flatMap_cons]
    exact scan_pieces (h a List.mem_cons_self) (ih fun b hb => h b (List.mem_cons_of_mem _ hb))

/-! ## Words -/

/-- A word goes on over word characters. -/
theorem scan_word_append {text : List Char} (h : ∀ c ∈ text, isWordChar c = true)
    (front : List Char) : scan (.word front) text = ([], .word (front ++ text)) := by
  induction text generalizing front with
  | nil => rw [List.append_nil, scan]
  | cons c text ih =>
    have hstep : step (.word front) c = ([], .word (front ++ [c])) :=
      if_pos (h c List.mem_cons_self)
    rw [scan, hstep, ih fun d hd => h d (List.mem_cons_of_mem _ hd), List.append_assoc]
    rfl

/-- A word begins with its first character. -/
theorem scan_word {text : List Char} (hne : text ≠ []) (h : ∀ c ∈ text, isWordChar c = true) :
    scan .between text = ([], .word text) := by
  cases text with
  | nil => exact absurd rfl hne
  | cons c text =>
    have hstep : step .between c = ([], .word [c]) := if_pos (h c List.mem_cons_self)
    rw [scan, hstep, scan_word_append fun d hd => h d (List.mem_cons_of_mem _ hd)]
    rfl

/-- Text that ends a word before it. -/
def Breaks (text : List Char) : Prop := text.head?.any (fun c => !isWordChar c) = true

/-- A word ends where another character stands. -/
theorem scan_word_end {text : List Char} (h : Breaks text) (word : List Char) :
    scan (.word word) text =
      (.word word :: (scan .between text).1, (scan .between text).2) := by
  cases text with
  | nil => exact absurd h Bool.false_ne_true
  | cons c text =>
    have hc : isWordChar c = false := by simpa [Breaks] using h
    have hstep : step (.word word) c = (.word word :: (start c).1, (start c).2) :=
      if_neg (by rw [hc]; exact Bool.false_ne_true)
    rw [scan, scan, hstep]
    rfl

/-- A word, and the text behind it. -/
theorem scan_word_then {word text : List Char} {ts : List Token} {m : Mode} (hne : word ≠ [])
    (hword : ∀ d ∈ word, isWordChar d = true) (htext : scan .between text = (ts, m))
    (hbreaks : Breaks text) :
    scan .between (word ++ text) = (.word word :: ts, m) := by
  have hend : scan (.word word) text = (.word word :: ts, m) := by
    rw [scan_word_end hbreaks, htext]
  exact scan_pieces (scan_word hne hword) hend

/-! ## Comments -/

/-- A line comment lasts to the end of its line. -/
theorem scan_line {text : List Char} (h : '\n' ∉ text) : scan .line text = ([], .line) := by
  induction text with
  | nil => rfl
  | cons c text ih =>
    have hc : c ≠ '\n' := fun heq => h (heq ▸ List.mem_cons_self)
    have hstep : step .line c = ([], .line) := by rw [step, if_neg hc]
    rw [scan, hstep, ih fun hmem => h (List.mem_cons_of_mem _ hmem)]
    rfl

/-- A comment on one line is no token. -/
theorem scan_lineComment {text : List Char} (h : '\n' ∉ text) :
    scan .between ("//".toList ++ (text ++ "\n".toList)) = ([], .between) := by
  have hopen : scan .between "//".toList = ([], .line) := rfl
  have hclose : scan .line "\n".toList = ([], .between) := rfl
  exact scan_pieces hopen (scan_pieces (scan_line h) hclose)

/-- Text that opens and closes no comment. -/
def CommentSafe (text : List Char) : Prop := ∀ c ∈ text, c ≠ '*' ∧ c ≠ '/'

/-- Two texts that keep to their comments do so joined. -/
theorem CommentSafe.append {s t : List Char} (hs : CommentSafe s) (ht : CommentSafe t) :
    CommentSafe (s ++ t) := by
  intro c hc
  rcases List.mem_append.mp hc with hmem | hmem
  · exact hs c hmem
  · exact ht c hmem

/-- Texts that keep to their comments do so joined. -/
theorem CommentSafe.flatMap {α : Type} {text : α → List Char} {l : List α}
    (h : ∀ a ∈ l, CommentSafe (text a)) : CommentSafe (l.flatMap text) := by
  intro c hc
  obtain ⟨a, ha, hmem⟩ := List.mem_flatMap.mp hc
  exact h a ha c hmem

/-- A text without stars and slashes keeps to its comment. -/
theorem commentSafe_of_all {text : List Char}
    (h : (text.all fun c => c != '*' && c != '/') = true) : CommentSafe text := by
  intro c hc
  simpa using List.all_eq_true.mp h c hc

/-- Safe text with a text behind it that has neither character. -/
theorem CommentSafe.text {s t : List Char} (hs : CommentSafe s)
    (ht : (t.all fun c => c != '*' && c != '/') = true) : CommentSafe (s ++ t) :=
  hs.append (commentSafe_of_all ht)

/-- A word keeps to its comment. -/
theorem commentSafe_of_word {text : List Char} (h : ∀ c ∈ text, isWordChar c = true) :
    CommentSafe text := by
  intro c hc
  have hword := h c hc
  constructor
  · rintro rfl
    exact absurd hword (by decide)
  · rintro rfl
    exact absurd hword (by decide)

/-- Safe text stays inside its comment. -/
theorem scan_block {text : List Char} (h : CommentSafe text) (depth : ℕ) :
    scan (.block depth none) text = ([], .block depth none) := by
  induction text with
  | nil => rfl
  | cons c text ih =>
    obtain ⟨hstar, hslash⟩ := h c List.mem_cons_self
    have hstep : step (.block depth none) c = ([], .block depth none) := by
      simp [step, hstar, hslash]
    rw [scan, hstep, ih fun d hd => h d (List.mem_cons_of_mem _ hd)]
    rfl

/-- A comment around safe text is no token. -/
theorem scan_comment {text : List Char} (h : CommentSafe text) :
    scan .between ("/*".toList ++ (text ++ "*/".toList)) = ([], .between) := by
  have hopen : scan .between "/*".toList = ([], .block 0 none) := rfl
  have hclose : scan (.block 0 none) "*/".toList = ([], .between) := rfl
  exact scan_pieces hopen (scan_pieces (scan_block h 0) hclose)

end Token

end Oboromi.Lib
