/-
This file is a small library for operations that can fail to return: an
assertion of a debug build fires, a container refuses to grow, or an access
leaves its storage. Such operations are functions into `Except Fault`, written
with `do` as the source is written, and the lemmas here peel such a computation
apart one statement at a time.

Assertions exist in one of the two builds only, so the operations take the
build as an argument and `assert` reads it.
-/

import Mathlib

namespace Checked

/-- Why an operation did not return. -/
inductive Fault
  | assertFailed
  | lengthError
  | outOfBounds
  deriving DecidableEq, Repr

/-- The two builds: assertions are compiled in or compiled out. -/
inductive Build
  | debug
  | release
  deriving DecidableEq, Repr

/-- An assertion stops a debug build when its condition fails and is nothing in a release
build. -/
def assert (build : Build) (condition : Prop) [Decidable condition] : Except Fault Unit :=
  if build = .debug ∧ ¬ condition then .error .assertFailed else .ok ()

theorem assert_of_holds (build : Build) {condition : Prop} [Decidable condition]
    (holds : condition) : assert build condition = .ok () :=
  if_neg fun failed => failed.2 holds

theorem assert_release (condition : Prop) [Decidable condition] :
    assert .release condition = .ok () :=
  if_neg fun failed => Build.noConfusion failed.1

theorem assert_debug_of_fails {condition : Prop} [Decidable condition] (fails : ¬ condition) :
    assert .debug condition = .error .assertFailed :=
  if_pos ⟨rfl, fails⟩

/-- An assertion passes or stops the program. -/
theorem assert_cases (build : Build) (condition : Prop) [Decidable condition] :
    assert build condition = .ok () ∨ assert build condition = .error .assertFailed := by
  unfold assert
  split
  · exact .inr rfl
  · exact .inl rfl

/-! ### Peeling a computation apart -/

section

variable {Error Value Result : Type}

@[simp] theorem ok_bind (value : Value) (continuation : Value → Except Error Result) :
    (Except.ok value >>= continuation) = continuation value := rfl

@[simp] theorem error_bind (error : Error) (continuation : Value → Except Error Result) :
    (Except.error error >>= continuation) = .error error := rfl

@[simp] theorem pure_eq_ok (value : Value) : (pure value : Except Error Value) = .ok value := rfl

@[simp] theorem throw_eq_error (error : Error) :
    (throw error : Except Error Value) = .error error := rfl

/-- A computation that returned ran its first statement. -/
theorem bind_eq_ok {computation : Except Error Value} {continuation : Value → Except Error Result}
    {result : Result} (returned : (computation >>= continuation) = .ok result) :
    ∃ value, computation = .ok value ∧ continuation value = .ok result := by
  cases computation with
  | error error => cases returned
  | ok value => exact ⟨value, rfl, returned⟩

theorem toOption_eq_some {computation : Except Error Value} {value : Value}
    (returned : computation.toOption = some value) : computation = .ok value := by
  cases computation with
  | error error => cases returned
  | ok result => rw [Option.some.inj returned]

end

end Checked
