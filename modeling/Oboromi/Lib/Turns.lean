import Mathlib.Logic.Function.Basic
import Mathlib.Logic.Function.Iterate
import Mathlib.Tactic.Common

/-!
# Processes that take turns

Processes have a context each, seats a leftover each, and the memory is everyone's.  In a turn
the process of a seat runs once: it finds the seat's leftover and the memory, and changes its
own context and those two.  A round is one turn of every seat in order, and a run is a number
of rounds with the same seating.
-/

set_option autoImplicit false

namespace Oboromi.Lib

/-- The contexts of processes `ρ`, the leftovers of seats `κ`, and the memory. -/
@[ext]
structure Board (ρ κ γ φ μ : Type) where
  context : ρ → Option γ
  leftover : κ → φ
  memory : μ

namespace Board

variable {ρ κ γ φ μ : Type} [DecidableEq ρ] [DecidableEq κ] (run : γ → φ → μ → γ × φ × μ)
  (seat : κ → Option ρ)

/-- One turn of a seat. -/
def turn (s : Board ρ κ γ φ μ) (i : κ) : Board ρ κ γ φ μ :=
  match seat i with
  | none => s
  | some r =>
    match s.context r with
    | none => s
    | some c =>
      let out := run c (s.leftover i) s.memory
      { context := Function.update s.context r (some out.1)
        leftover := Function.update s.leftover i out.2.1
        memory := out.2.2 }

/-- One turn of every seat. -/
def round (seats : List κ) (s : Board ρ κ γ φ μ) : Board ρ κ γ φ μ := seats.foldl (turn run seat) s

variable {run seat} {s : Board ρ κ γ φ μ} {i : κ}

/-- An empty seat takes no turn. -/
theorem turn_of_empty (h : seat i = none) : s.turn run seat i = s := by
  unfold turn
  rw [h]

/-- A seat with a runner that exists runs it from its context. -/
theorem turn_of_seated {r : ρ} {c : γ} (hseat : seat i = some r) (hc : s.context r = some c) :
    s.turn run seat i =
      { context := Function.update s.context r (some (run c (s.leftover i) s.memory).1)
        leftover := Function.update s.leftover i (run c (s.leftover i) s.memory).2.1
        memory := (run c (s.leftover i) s.memory).2.2 } := by
  unfold turn
  simp only [hseat, hc]

end Board

end Oboromi.Lib
