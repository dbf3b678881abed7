import Mathlib.Data.List.Basic
import Mathlib.Tactic.Common

/-!
# Runs of a machine with outputs, and simulation between two machines

A machine is a step function from an input and a state to an output and a state;
`runSteps` drives it over a list of inputs.  The two rules used throughout are the
invariant rule (`runSteps_invariant`) and the simulation rule (`runSteps_simulates`):
what one step preserves, a whole run preserves.
-/

set_option autoImplicit false

namespace Oboromi.Lib

section Runs

variable {ι σ τ ο ο' ω : Type}

/-- Drive a machine over a list of inputs, collecting its outputs. -/
def runSteps (step : ι → σ → ο × σ) : List ι → σ → List ο × σ
  | [], s => ([], s)
  | i :: is, s =>
    let r := step i s
    let rest := runSteps step is r.2
    (r.1 :: rest.1, rest.2)

/-- A run of no steps. -/
@[simp] theorem runSteps_nil (step : ι → σ → ο × σ) (s : σ) :
    runSteps step [] s = ([], s) := rfl

/-- A run is its first step and the run of the others from there. -/
@[simp] theorem runSteps_cons (step : ι → σ → ο × σ) (i : ι) (is : List ι) (s : σ) :
    runSteps step (i :: is) s =
      ((step i s).1 :: (runSteps step is (step i s).2).1,
        (runSteps step is (step i s).2).2) := rfl

/-- Two runs one after the other are one run. -/
theorem runSteps_append (step : ι → σ → ο × σ) (is js : List ι) (s : σ) :
    runSteps step (is ++ js) s =
      ((runSteps step is s).1 ++ (runSteps step js (runSteps step is s).2).1,
        (runSteps step js (runSteps step is s).2).2) := by
  induction is generalizing s with
  | nil => rfl
  | cons i is ih => simp only [List.cons_append, runSteps_cons, ih]

/-- A run of steps none of which moves the state is the list of their outputs there. -/
theorem runSteps_of_stationary {step : ι → σ → ο × σ} {s : σ} (is : List ι)
    (h : ∀ i ∈ is, (step i s).2 = s) : runSteps step is s = (is.map fun i => (step i s).1, s) := by
  induction is with
  | nil => rfl
  | cons i is ih =>
      have hi : (step i s).2 = s := h i (by simp)
      have his := ih fun j hj => h j (List.mem_cons_of_mem _ hj)
      rw [runSteps_cons, hi, his, List.map_cons]

/-- **The invariant rule.**  A property that every admissible step preserves holds at the
end of every admissible run. -/
theorem runSteps_invariant {step : ι → σ → ο × σ} {Admissible : ι → Prop} {Inv : σ → Prop}
    (hstep : ∀ i s, Admissible i → Inv s → Inv (step i s).2)
    (is : List ι) (his : ∀ i ∈ is, Admissible i) {s : σ} (hs : Inv s) :
    Inv (runSteps step is s).2 := by
  induction is generalizing s with
  | nil => exact hs
  | cons i is ih =>
      have hi : Admissible i := his i (by simp)
      exact ih (fun j hj => his j (List.mem_cons_of_mem _ hj)) (hstep i s hi hs)

/-- **The simulation rule.**  If one step of `step` is matched by one step of `spec` under
`R`, with outputs that look the same to the observers, then so is a whole run. -/
theorem runSteps_simulates {step : ι → σ → ο × σ} {spec : ι → τ → ο' × τ}
    {Admissible : ι → Prop} {R : σ → τ → Prop} {view : ο → ω} {view' : ο' → ω}
    (hstep : ∀ i s t, Admissible i → R s t →
      view (step i s).1 = view' (spec i t).1 ∧ R (step i s).2 (spec i t).2)
    (is : List ι) (his : ∀ i ∈ is, Admissible i) {s : σ} {t : τ} (hR : R s t) :
    (runSteps step is s).1.map view = (runSteps spec is t).1.map view' ∧
      R (runSteps step is s).2 (runSteps spec is t).2 := by
  induction is generalizing s t with
  | nil => exact ⟨rfl, hR⟩
  | cons i is ih =>
      obtain ⟨hout, hR'⟩ := hstep i s t (his i (by simp)) hR
      obtain ⟨houts, hend⟩ := ih (fun j hj => his j (List.mem_cons_of_mem _ hj)) hR'
      refine ⟨?_, hend⟩
      simp only [runSteps_cons, List.map_cons, hout, houts]

end Runs

end Oboromi.Lib
