import Mathlib.Data.List.Basic

/-!
# Expressions with precedences

Expressions over left-associative binary operators, each with a level of precedence, and
brackets.  `Reads level ts e` is the grammar: the tokens `ts` are the expression `e`, whose
operators outside brackets have at least the level.  `parse` reads tokens with a stack of
operators that wait for their right operand and of open brackets, up to the first token that
cannot go on; it reads every expression of the grammar (`parse_of_reads`).
-/

set_option autoImplicit false

namespace Oboromi.Lib

/-- The operands, brackets and operators among the tokens; an operator has a level and builds a
node from its operands. -/
structure Operators (τ ε : Type) where
  operand : τ → Option ε
  opens : τ → Bool
  closes : τ → Bool
  operator : τ → Option (ℕ × (ε → ε → ε))

namespace Operators

variable {τ ε : Type}

/-- What waits while an operand is read: an open bracket, or an operator with its left side. -/
inductive Pending (ε : Type) where
  | bracket
  | left (level : ℕ) (node : ε → ε)

/-- The expression with the operators of at least the level that wait for it, and what still
waits. -/
def complete (level : ℕ) : List (Pending ε) → ε → ε × List (Pending ε)
  | .left k node :: stack, e =>
    if level ≤ k then complete level stack (node e) else (e, .left k node :: stack)
  | stack, e => (e, stack)

variable (g : Operators τ ε)

/-- The reader, with what waits and the operand that was read last, if one was. -/
def run : List (Pending ε) → Option ε → List τ → Option (ε × List τ)
  | _, none, [] => none
  | stack, none, t :: ts =>
    if g.opens t then run (.bracket :: stack) none ts
    else match g.operand t with
      | some e => run stack (some e) ts
      | none => none
  | stack, some e, [] =>
    match complete 0 stack e with
    | (e, []) => some (e, [])
    | _ => none
  | stack, some e, t :: ts =>
    match g.operator t with
    | some (k, node) =>
      match complete k stack e with
      | (e, stack) => run (.left k (node e) :: stack) none ts
    | none =>
      match complete 0 stack e with
      | (e, []) => some (e, t :: ts)
      | (e, _ :: stack) => if g.closes t then run stack (some e) ts else none

/-- The expression at the head of the tokens, and the tokens behind it. -/
def parse (ts : List τ) : Option (ε × List τ) := g.run [] none ts

/-- The tokens of the expressions of a level. -/
inductive Reads : ℕ → List τ → ε → Prop
  | operand {level : ℕ} {t : τ} {e : ε} :
      g.opens t = false → g.operand t = some e → Reads level [t] e
  | bracket {level : ℕ} {o c : τ} {ts : List τ} {e : ε} :
      g.opens o = true → g.closes c = true → g.operator c = none → Reads 0 ts e →
        Reads level (o :: (ts ++ [c])) e
  | binary {level k : ℕ} {t : τ} {node : ε → ε → ε} {left right : List τ} {a b : ε} :
      g.operator t = some (k, node) → level ≤ k → Reads k left a → Reads (k + 1) right b →
        Reads level (left ++ t :: right) (node a b)

variable {g} in
/-- What is read at a level is read at every looser one. -/
theorem Reads.mono {j k : ℕ} {ts : List τ} {e : ε} (h : g.Reads k ts e) (hle : j ≤ k) :
    g.Reads j ts e := by
  cases h with
  | operand hopens hoperand => exact .operand hopens hoperand
  | bracket hopens hcloses hop hread => exact .bracket hopens hcloses hop hread
  | binary hop hk hleft hright => exact .binary hop (Nat.le_trans hle hk) hleft hright

/-- No operator of a higher level comes next. -/
def Ends (level : ℕ) (ts : List τ) : Prop :=
  ∀ t ∈ ts.head?, ∀ k node, g.operator t = some (k, node) → k ≤ level

/-- No operator of the level or a higher one waits for the operand. -/
def Free (level : ℕ) : List (Pending ε) → Prop
  | .left k _ :: _ => k < level
  | _ => True

/-- Nothing is completed where nothing that binds tighter is pending. -/
theorem complete_of_free {level : ℕ} {stack : List (Pending ε)} (h : Free level stack) (e : ε) :
    complete level stack e = (e, stack) := by
  match stack with
  | [] => rfl
  | .bracket :: stack => rfl
  | .left k node :: stack => exact if_neg (Nat.not_le.mpr h)

/-- An operator that waits takes the operand once no operator of a higher level comes. -/
theorem run_left {k level : ℕ} (hle : level ≤ k) (node : ε → ε) (stack : List (Pending ε)) (e : ε)
    {rest : List τ} (h : g.Ends level rest) :
    g.run (.left k node :: stack) (some e) rest = g.run stack (some (node e)) rest := by
  have hcomplete : ∀ j ≤ k,
      complete j (.left k node :: stack) e = complete j stack (node e) := fun j hj => if_pos hj
  cases rest with
  | nil => rw [run, run, hcomplete 0 (Nat.zero_le k)]
  | cons t rest =>
    cases hop : g.operator t with
    | none =>
      rw [run, run, hop, hcomplete 0 (Nat.zero_le k)]
    | some op =>
      obtain ⟨j, f⟩ := op
      have hj : j ≤ k := Nat.le_trans (h t rfl j f hop) hle
      rw [run, run, hop]
      dsimp only
      rw [hcomplete j hj]

/-- The reader takes an expression of the grammar as one operand: by induction over the grammar,
whatever waits below the expression's level. -/
theorem run_of_reads {level : ℕ} {ts : List τ} {e : ε} (h : g.Reads level ts e)
    {stack : List (Pending ε)} (hstack : Free level stack) {rest : List τ}
    (hrest : g.Ends level rest) : g.run stack none (ts ++ rest) = g.run stack (some e) rest := by
  induction h generalizing stack rest with
  | operand hopens hoperand =>
    rw [List.singleton_append, run, hopens, hoperand]
    rfl
  | @bracket level o c ts e hopens hcloses hop hread ih =>
    have hends : g.Ends 0 (c :: rest) := by
      rintro t ht k node hoperator
      cases ht
      rw [hop] at hoperator
      cases hoperator
    have hbracket : Free 0 (.bracket :: stack) := trivial
    have hinside := ih hbracket hends
    have htokens : (o :: (ts ++ [c])) ++ rest = o :: (ts ++ c :: rest) := by simp
    rw [htokens, run, if_pos hopens, hinside, run, hop]
    dsimp only [complete]
    rw [if_pos hcloses]
  | @binary level k t node left right a b hop hle hleft hright ihleft ihright =>
    have hnext : g.Ends k (t :: (right ++ rest)) := by
      rintro u hu j f hoperator
      cases hu
      rw [hop] at hoperator
      cases hoperator
      exact Nat.le_refl k
    have hfree : Free k stack := by
      match stack, hstack with
      | [], _ => trivial
      | .bracket :: _, _ => trivial
      | .left j _ :: _, hlt => exact Nat.lt_of_lt_of_le hlt hle
    have hends : g.Ends (k + 1) rest :=
      fun u hu j f hoperator => Nat.le_trans (hrest u hu j f hoperator) (Nat.le_succ_of_le hle)
    have htokens : (left ++ t :: right) ++ rest = left ++ t :: (right ++ rest) := by simp
    rw [htokens, ihleft hfree hnext, run, hop]
    dsimp only
    have hwaits : Free (k + 1) (.left k (node a) :: stack) := Nat.lt_succ_self k
    rw [complete_of_free hfree]
    dsimp only
    rw [ihright hwaits hends, run_left g hle _ _ _ hrest]

/-- **Every expression of the grammar is read**, up to a token that does not go on with it. -/
theorem parse_of_reads {ts : List τ} {e : ε} (h : g.Reads 0 ts e) {t : τ}
    (ht : g.operator t = none) (rest : List τ) :
    g.parse (ts ++ t :: rest) = some (e, t :: rest) := by
  have hends : g.Ends 0 (t :: rest) := by
    rintro u hu k node hoperator
    cases hu
    rw [ht] at hoperator
    cases hoperator
  have hfree : Free 0 ([] : List (Pending ε)) := trivial
  rw [parse, run_of_reads g h hfree hends, run, ht]
  rfl

/-- Operands of a higher level, joined by one operator, are read from the left. -/
theorem reads_joined {α : Type} {k : ℕ} {t : τ} {node : ε → ε → ε}
    (hop : g.operator t = some (k, node)) {tokens : α → List τ} {ast : α → ε}
    (l : List α) {first : List τ} {left : ε} (hfirst : g.Reads k first left)
    (h : ∀ a ∈ l, g.Reads (k + 1) (tokens a) (ast a)) :
    g.Reads k (first ++ l.flatMap fun a => t :: tokens a)
      (l.foldl (fun left a => node left (ast a)) left) := by
  induction l generalizing first left with
  | nil => simpa using hfirst
  | cons a l ih =>
    have hhead : g.Reads k (first ++ t :: tokens a) (node left (ast a)) :=
      .binary hop (Nat.le_refl k) hfirst (h a List.mem_cons_self)
    have hrest := ih hhead fun b hb => h b (List.mem_cons_of_mem _ hb)
    simpa using hrest

end Operators

end Oboromi.Lib
