import Mathlib.Algebra.Ring.Nat
import Mathlib.Tactic.Common

/-!
# Programs that fail, panic and change state

The host-side vocabulary shared by every model below.  A program step returns a
value, an I/O error with its kind and text, or a panic (`Fault`), and it leaves a
state behind in all three cases (`Sys`).  Machine arithmetic on `u64` and `u32` is
checked or wrapping according to how the crate is built (`Build`): the debug profile
panics on overflow, the release profile wraps.

The arithmetic lemmas come in pairs: `_of_fits` when the exact result is representable
(both builds agree), `_of_wraps` when it is not.
-/

set_option autoImplicit false

namespace Oboromi.Lib

/-- How the program is built: `debug` panics on an arithmetic overflow, `release` wraps. -/
inductive Build where
  | debug
  | release
  deriving DecidableEq, Repr

/-- The kinds of I/O error the models distinguish. -/
inductive ErrorKind where
  | notFound
  | permissionDenied
  | invalidInput
  | invalidData
  | unexpectedEof
  | fileTooLarge
  | uncategorized
  deriving DecidableEq, Repr

/-- An I/O error: its kind and its message. -/
structure IoError where
  kind : ErrorKind
  message : String
  deriving DecidableEq, Repr

/-- Why a call did not return a value: an error it reports, or a panic. -/
inductive Fault where
  | io (e : IoError)
  | panic
  deriving DecidableEq, Repr

/-- What a caller can observe of a result: a value or an error kind, and `none` when the
call panicked and there is nothing to observe. -/
def observe {α : Type} : Except Fault α → Option (Except ErrorKind α)
  | .ok a => some (.ok a)
  | .error (.io e) => some (.error e.kind)
  | .error .panic => none

/-- A value is observed as it is. -/
@[simp] theorem observe_ok {α : Type} (a : α) :
    observe (.ok a : Except Fault α) = some (.ok a) := rfl

/-- Of an error its kind is observed. -/
@[simp] theorem observe_io {α : Type} (e : IoError) :
    observe (.error (.io e) : Except Fault α) = some (.error e.kind) := rfl

/-- A panic is not observed as a result. -/
@[simp] theorem observe_panic {α : Type} :
    observe (.error .panic : Except Fault α) = none := rfl

/-- What is observed as a value is that value. -/
theorem eq_ok_of_observe {α : Type} {r : Except Fault α} {a : α}
    (h : observe r = some (.ok a)) : r = .ok a := by
  rcases r with (e | _) | a'
  · cases h
  · cases h
  · cases h
    rfl

/-- Mapping the values maps what is observed. -/
theorem observe_map {α β : Type} (f : α → β) (r : Except Fault α) :
    observe (r.map f) = (observe r).map (Except.map f) := by
  rcases r with (e | _) | a <;> rfl

/-! ## Stateful programs -/

/-- A program over a state `σ` that returns a value or stops with a fault.  The state it
leaves behind is part of the result in either case. -/
def Sys (σ α : Type) : Type := σ → Except Fault α × σ

namespace Sys

variable {σ α β : Type}

/-- Run a program from a state. -/
def run (x : Sys σ α) (s : σ) : Except Fault α × σ := x s

instance : Monad (Sys σ) where
  pure a := fun s => (.ok a, s)
  bind x f := fun s => match x s with
    | (.ok a, s') => f a s'
    | (.error e, s') => (.error e, s')

/-- Read the state. -/
def get : Sys σ σ := fun s => (.ok s, s)

/-- Apply a function to the state. -/
def modify (f : σ → σ) : Sys σ Unit := fun s => (.ok (), f s)

/-- Stop with a fault, leaving the state as it is. -/
def fail (e : Fault) : Sys σ α := fun s => (.error e, s)

/-- Stop with an I/O error. -/
def ioError (kind : ErrorKind) (message : String) : Sys σ α := fail (.io ⟨kind, message⟩)

/-- `assert!`: panic unless the condition holds. -/
def assert (p : Prop) [Decidable p] : Sys σ Unit := if p then pure () else fail .panic

/-- A pure result that may be a fault, as a program. -/
def ofExcept (r : Except Fault α) : Sys σ α := fun s => (r, s)

instance : MonadLift (Except Fault) (Sys σ) where
  monadLift := ofExcept

/-- `pure` returns its value and leaves the state. -/
@[simp] theorem run_pure (a : α) (s : σ) : (pure a : Sys σ α).run s = (.ok a, s) := rfl

/-- `get` returns the state and leaves it. -/
@[simp] theorem run_get (s : σ) : (get : Sys σ σ).run s = (.ok s, s) := rfl

/-- `modify` changes the state as its function says. -/
@[simp] theorem run_modify (f : σ → σ) (s : σ) : (modify f).run s = (.ok (), f s) := rfl

/-- `fail` ends with its fault and leaves the state. -/
@[simp] theorem run_fail (e : Fault) (s : σ) : (fail e : Sys σ α).run s = (.error e, s) := rfl

/-- `ioError` ends with its error and leaves the state. -/
@[simp] theorem run_ioError (k : ErrorKind) (m : String) (s : σ) :
    (ioError k m : Sys σ α).run s = (.error (.io ⟨k, m⟩), s) := rfl

/-- An assertion that holds does nothing. -/
theorem run_assert {p : Prop} [Decidable p] (h : p) (s : σ) :
    (assert p : Sys σ Unit).run s = (.ok (), s) := by
  unfold assert
  rw [if_pos h]
  rfl

/-- An assertion that fails panics. -/
theorem run_assert_of_not {p : Prop} [Decidable p] (h : ¬ p) (s : σ) :
    (assert p : Sys σ Unit).run s = (.error .panic, s) := by
  unfold assert
  rw [if_neg h]
  rfl

/-- A lifted result leaves the state. -/
@[simp] theorem run_monadLift (r : Except Fault α) (s : σ) :
    (monadLift r : Sys σ α).run s = (r, s) := rfl

/-- A lifted result leaves the state. -/
@[simp] theorem run_liftM (r : Except Fault α) (s : σ) :
    (liftM r : Sys σ α).run s = (r, s) := rfl

/-- One step of a bind: the first program's result decides whether the second runs. -/
theorem run_bind (x : Sys σ α) (f : α → Sys σ β) (s : σ) :
    (x >>= f).run s = match x.run s with
      | (.ok a, s') => (f a).run s'
      | (.error e, s') => (.error e, s') := rfl

/-- After a step that returns, the rest runs on its value and state. -/
theorem run_bind_ok {x : Sys σ α} {s s' : σ} {a : α} (h : x.run s = (.ok a, s'))
    (f : α → Sys σ β) : (x >>= f).run s = (f a).run s' := by
  rw [run_bind, h]

/-- After a step that fails, nothing else runs. -/
theorem run_bind_error {x : Sys σ α} {s s' : σ} {e : Fault} (h : x.run s = (.error e, s'))
    (f : α → Sys σ β) : (x >>= f).run s = (.error e, s') := by
  rw [run_bind, h]

/-- Three steps in a row can be grouped either way. -/
theorem bind_assoc {γ : Type} (x : Sys σ α) (f : α → Sys σ β) (g : β → Sys σ γ) :
    x >>= f >>= g = x >>= fun a => f a >>= g := by
  funext s
  change (x >>= f >>= g).run s = (x >>= fun a => f a >>= g).run s
  rw [run_bind, run_bind, run_bind]
  rcases x.run s with ⟨e | a, s'⟩ <;> rfl

/-- A program followed by a pure function of its value. -/
theorem run_bind_pure (x : Sys σ α) (f : α → β) (s : σ) :
    (x >>= fun a => pure (f a)).run s = ((x.run s).1.map f, (x.run s).2) := by
  rw [run_bind]
  rcases x.run s with ⟨(e | a), s'⟩ <;> rfl

/-- The bind inversion rule: a bind that returned a value ran both of its parts. -/
theorem run_bind_eq_ok {x : Sys σ α} {f : α → Sys σ β} {s s'' : σ} {b : β}
    (h : (x >>= f).run s = (.ok b, s'')) :
    ∃ a s', x.run s = (.ok a, s') ∧ (f a).run s' = (.ok b, s'') := by
  rw [run_bind] at h
  rcases hx : x.run s with ⟨r, s'⟩
  rw [hx] at h
  cases r with
  | ok a => exact ⟨a, s', rfl, h⟩
  | error e => simp at h

/-- From `s` the program returns exactly when `p` holds, and then with this value and state. -/
def Returns (x : Sys σ α) (s : σ) (p : Prop) (a : α) (s' : σ) : Prop :=
  ∀ b t, x.run s = (.ok b, t) ↔ p ∧ b = a ∧ t = s'

section Returns

variable {x : Sys σ α} {s s' : σ} {p : Prop} {a : α}

/-- Where its condition holds, the computation returns its value and state. -/
theorem Returns.run (h : x.Returns s p a s') (hp : p) : x.run s = (.ok a, s') :=
  (h a s').mpr ⟨hp, rfl, rfl⟩

/-- A computation that returns does so under any condition that holds. -/
theorem returns_of_run (h : x.run s = (.ok a, s')) (hp : p) : x.Returns s p a s' := by
  intro b t
  rw [h]
  constructor
  · intro heq
    cases heq
    exact ⟨hp, rfl, rfl⟩
  · rintro ⟨-, rfl, rfl⟩
    rfl

/-- A computation that fails returns under no condition, so one that is false will do. -/
theorem returns_of_error {e : Fault} {t : σ} (h : x.run s = (.error e, t)) (hp : ¬ p) :
    x.Returns s p a s' := by
  intro b u
  rw [h]
  constructor
  · intro heq
    cases heq
  · intro hall
    exact absurd hall.1 hp

/-- The condition may be put differently. -/
theorem Returns.of_iff {q : Prop} (h : x.Returns s p a s') (hpq : q ↔ p) :
    x.Returns s q a s' := by
  intro b t
  rw [hpq]
  exact h b t

/-- An assertion returns exactly when it holds. -/
theorem returns_assert {q : Prop} [Decidable q] (s : σ) :
    (assert q : Sys σ Unit).Returns s q () s := by
  by_cases hq : q
  · exact returns_of_run (run_assert hq s) hq
  · exact returns_of_error (run_assert_of_not hq s) hq

/-- A computation that begins by reading the state continues from it. -/
theorem returns_get {f : σ → Sys σ α} (h : (f s).Returns s p a s') :
    (get >>= f).Returns s p a s' := h

/-- The rule of sequencing. -/
theorem Returns.bind {f : α → Sys σ β} {q : Prop} {b : β} {s'' : σ} (hx : x.Returns s p a s')
    (hf : (f a).Returns s' q b s'') : (x >>= f).Returns s (p ∧ q) b s'' := by
  intro c t
  constructor
  · intro h
    obtain ⟨a', t', hfirst, hrest⟩ := run_bind_eq_ok h
    obtain ⟨hp, rfl, rfl⟩ := (hx a' t').mp hfirst
    obtain ⟨hq, hvalue⟩ := (hf c t).mp hrest
    exact ⟨⟨hp, hq⟩, hvalue⟩
  · rintro ⟨⟨hp, hq⟩, hvalue⟩
    rw [run_bind_ok (hx.run hp)]
    exact (hf c t).mpr ⟨hq, hvalue⟩

end Returns

end Sys

/-! ## Machine arithmetic -/

namespace Build

/-- The outcome of an operation whose wrapped result is `w` and which overflows unless
`fits` holds. -/
def checked {α : Type} (b : Build) (fits : Bool) (w : α) : Except Fault α :=
  if fits then .ok w else match b with
    | .debug => .error .panic
    | .release => .ok w

/-- A result that fits is returned in both builds. -/
@[simp] theorem checked_true {α : Type} (b : Build) (w : α) : b.checked true w = .ok w := rfl

/-- A debug build panics at a result that does not fit. -/
@[simp] theorem debug_checked_false {α : Type} (w : α) :
    Build.debug.checked false w = .error .panic := rfl

/-- A release build returns the wrapped result. -/
@[simp] theorem release_checked {α : Type} (fits : Bool) (w : α) :
    Build.release.checked fits w = .ok w := by
  cases fits <;> rfl

/-- `x + y` on `u64`. -/
def addU64 (b : Build) (x y : UInt64) : Except Fault UInt64 :=
  b.checked (x.toNat + y.toNat < 2 ^ 64) (x + y)

/-- `x - y` on `u64`. -/
def subU64 (b : Build) (x y : UInt64) : Except Fault UInt64 :=
  b.checked (y.toNat ≤ x.toNat) (x - y)

/-- `x * y` on `u64`. -/
def mulU64 (b : Build) (x y : UInt64) : Except Fault UInt64 :=
  b.checked (x.toNat * y.toNat < 2 ^ 64) (x * y)

/-- `x + y` on `u32`. -/
def addU32 (b : Build) (x y : UInt32) : Except Fault UInt32 :=
  b.checked (x.toNat + y.toNat < 2 ^ 32) (x + y)

/-- `x - y` on `u32`. -/
def subU32 (b : Build) (x y : UInt32) : Except Fault UInt32 :=
  b.checked (y.toNat ≤ x.toNat) (x - y)

/-- `x << n` on `u64`; the release build takes the distance modulo 64. -/
def shlU64 (b : Build) (x n : UInt64) : Except Fault UInt64 :=
  b.checked (n.toNat < 64) (x <<< n)

/-- A result that fits is the same in both builds. -/
theorem checked_of_fits {α : Type} {p : Prop} [Decidable p] (h : p) (b : Build) (w : α) :
    b.checked p w = .ok w := by
  rw [decide_eq_true h]
  exact checked_true b w

/-- A result that is returned is the wrapped one. -/
theorem eq_of_checked {α : Type} {b : Build} {fits : Bool} {w z : α}
    (h : b.checked fits w = .ok z) : z = w := by
  unfold checked at h
  split at h
  · exact (Except.ok.inj h).symm
  · cases b with
    | debug => cases h
    | release => exact (Except.ok.inj h).symm

/-- In a debug build a result that is returned did not overflow. -/
theorem eq_of_debug_checked {α : Type} {p : Prop} [Decidable p] {w z : α}
    (h : Build.debug.checked p w = .ok z) : p ∧ z = w := by
  refine ⟨?_, eq_of_checked h⟩
  by_contra hp
  rw [decide_eq_false hp] at h
  cases h

variable {b : Build} {x y : UInt64}

/-- A sum that fits is returned in both builds. -/
theorem addU64_of_fits (h : x.toNat + y.toNat < 2 ^ 64) : b.addU64 x y = .ok (x + y) :=
  checked_of_fits h b (x + y)

/-- A sum that is returned is the wrapping one. -/
theorem eq_add_of_addU64 {z : UInt64} (h : b.addU64 x y = .ok z) : z = x + y :=
  eq_of_checked h

/-- A debug build panics at a sum that wraps. -/
theorem addU64_debug_of_wraps (h : 2 ^ 64 ≤ x.toNat + y.toNat) :
    Build.debug.addU64 x y = .error .panic := by
  unfold addU64
  rw [decide_eq_false (Nat.not_lt.mpr h)]
  exact debug_checked_false (x + y)

/-- A release build returns the wrapping sum. -/
@[simp] theorem addU64_release : Build.release.addU64 x y = .ok (x + y) :=
  release_checked _ (x + y)

/-- A difference that is not negative is returned in both builds. -/
theorem subU64_of_fits (h : y.toNat ≤ x.toNat) : b.subU64 x y = .ok (x - y) :=
  checked_of_fits h b (x - y)

/-- A shift by less than 64 places is made in both builds. -/
theorem shlU64_of_fits (h : y.toNat < 64) : b.shlU64 x y = .ok (x <<< y) :=
  checked_of_fits h b (x <<< y)

/-- A release build shifts by the distance modulo 64. -/
@[simp] theorem shlU64_release : Build.release.shlU64 x y = .ok (x <<< y) :=
  release_checked _ (x <<< y)

/-- A product that fits is returned in both builds. -/
theorem mulU64_of_fits (h : x.toNat * y.toNat < 2 ^ 64) : b.mulU64 x y = .ok (x * y) :=
  checked_of_fits h b (x * y)

/-- A debug build panics at a product that wraps. -/
theorem mulU64_debug_of_wraps (h : 2 ^ 64 ≤ x.toNat * y.toNat) :
    Build.debug.mulU64 x y = .error .panic := by
  unfold mulU64
  rw [decide_eq_false (Nat.not_lt.mpr h)]
  exact debug_checked_false (x * y)

/-- A release build returns the wrapping product. -/
@[simp] theorem mulU64_release : Build.release.mulU64 x y = .ok (x * y) :=
  release_checked _ (x * y)

/-- A sum that fits is returned in both builds. -/
theorem addU32_of_fits {x y : UInt32} (h : x.toNat + y.toNat < 2 ^ 32) :
    b.addU32 x y = .ok (x + y) :=
  checked_of_fits h b (x + y)

/-- A sum that is returned is the wrapping one. -/
theorem eq_add_of_addU32 {x y z : UInt32} (h : b.addU32 x y = .ok z) : z = x + y :=
  eq_of_checked h

/-- A difference that is not negative is returned in both builds. -/
theorem subU32_of_fits {x y : UInt32} (h : y.toNat ≤ x.toNat) :
    b.subU32 x y = .ok (x - y) :=
  checked_of_fits h b (x - y)

/-- A release build returns the wrapping sum. -/
@[simp] theorem addU32_release {x y : UInt32} : Build.release.addU32 x y = .ok (x + y) :=
  release_checked _ (x + y)

end Build

/-! ## Exact values of in-range results -/

/-- A sum that fits is the sum of the numbers. -/
theorem toNat_add_of_fits {x y : UInt64} (h : x.toNat + y.toNat < 2 ^ 64) :
    (x + y).toNat = x.toNat + y.toNat := by
  rw [UInt64.toNat_add, Nat.mod_eq_of_lt h]

/-- A sum that wraps is short of the sum of the numbers by `2 ^ 64`. -/
theorem toNat_add_of_wraps {x y : UInt64} (h : 2 ^ 64 ≤ x.toNat + y.toNat) :
    (x + y).toNat = x.toNat + y.toNat - 2 ^ 64 := by
  have hx := x.toNat_lt
  have hy := y.toNat_lt
  rw [UInt64.toNat_add]
  omega

/-- A difference that is not negative is the difference of the numbers. -/
theorem toNat_sub_of_fits {x y : UInt64} (h : y.toNat ≤ x.toNat) :
    (x - y).toNat = x.toNat - y.toNat := by
  have hx := x.toNat_lt
  rw [UInt64.toNat_sub]
  omega

/-- A product that fits is the product of the numbers. -/
theorem toNat_mul_of_fits {x y : UInt64} (h : x.toNat * y.toNat < 2 ^ 64) :
    (x * y).toNat = x.toNat * y.toNat := by
  rw [UInt64.toNat_mul, Nat.mod_eq_of_lt h]

end Oboromi.Lib
