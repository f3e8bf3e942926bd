/-
This file is a small library of loops that run until a round returns. A round is
a function that fails, or returns, or leads to the state the next round starts
in. The loop is executable with fuel, and the rounds it passes are a relation, so
that a fact about every round of a call can be stated without counting them.

The rule for termination asks for an invariant of the rounds and a measure that
every round lowers unless it returns.
-/

import Mathlib

namespace Loop

variable {State Fault : Type}

/-! ### Running a loop -/

/-- Run the rounds of a loop until one returns, at most as many as the fuel. -/
def run (round : State → Except Fault (Bool × State)) :
    Nat → State → Option (Except Fault State)
  | 0, _ => none
  | fuel + 1, state =>
    match round state with
    | .error fault => some (.error fault)
    | .ok (true, final) => some (.ok final)
    | .ok (false, next) => run round fuel next

variable {round : State → Except Fault (Bool × State)}

/-- More fuel does not change what a loop returned. -/
theorem run_mono {state : State} {fuel : Nat} {outcome : Except Fault State}
    (returned : run round fuel state = some outcome) {more : Nat} (enough : fuel ≤ more) :
    run round more state = some outcome := by
  induction fuel generalizing state more with
  | zero => cases returned
  | succ fuel inductionHypothesis =>
    obtain ⟨more, rfl⟩ : ∃ less, more = less + 1 := ⟨more - 1, by omega⟩
    rw [run] at returned ⊢
    split at returned
    · exact returned
    · exact returned
    · exact inductionHypothesis returned (by omega)

/-! ### The rounds of a loop -/

/-- The states in which the rounds of a loop start. -/
def Rounds (round : State → Except Fault (Bool × State)) : State → State → Prop :=
  Relation.ReflTransGen fun state next => round state = .ok (false, next)

/-- A loop that returned did so in one of its rounds. -/
theorem rounds_of_run {start final : State} {fuel : Nat}
    (returned : run round fuel start = some (.ok final)) :
    ∃ last, Rounds round start last ∧ round last = .ok (true, final) := by
  induction fuel generalizing start with
  | zero => cases returned
  | succ fuel inductionHypothesis =>
    rw [run] at returned
    split at returned
    · cases returned
    · rename_i found
      obtain rfl := Except.ok.inj (Option.some.inj returned)
      exact ⟨start, .refl, found⟩
    · rename_i next found
      obtain ⟨last, reached, returns⟩ := inductionHypothesis returned
      exact ⟨last, .head found reached, returns⟩

/-- The rounds of a loop whose first round goes on are the first one and the rounds from the
next state. -/
theorem Rounds.eq_or_next {start state : State} (reached : Rounds round start state) :
    state = start ∨ ∃ next, round start = .ok (false, next) ∧ Rounds round next state := by
  rcases Relation.ReflTransGen.cases_head reached with same | ⟨next, first, later⟩
  · exact .inl same.symm
  · exact .inr ⟨next, first, later⟩

/-- A round that is reached and returns is what the loop returns. -/
theorem Rounds.outcome {start last final : State} (reached : Rounds round start last)
    (returns : round last = .ok (true, final)) {fuel : Nat} {outcome : Except Fault State}
    (ran : run round fuel start = some outcome) : outcome = .ok final := by
  induction reached using Relation.ReflTransGen.head_induction_on generalizing fuel with
  | refl =>
    cases fuel with
    | zero => cases ran
    | succ fuel =>
      rw [run, returns] at ran
      exact (Option.some.inj ran).symm
  | head taken _ inductionHypothesis =>
    cases fuel with
    | zero => cases ran
    | succ fuel =>
      rw [run, taken] at ran
      exact inductionHypothesis ran

/-- An invariant that the rounds keep holds in every round. -/
theorem Rounds.always (invariant : State → Prop) {start state : State}
    (reached : Rounds round start state) (initially : invariant start)
    (keeps : ∀ state next, Rounds round start state → invariant state →
      round state = .ok (false, next) → invariant next) : invariant state := by
  induction reached with
  | refl => exact initially
  | tail earlier last inductionHypothesis => exact keeps _ _ earlier inductionHypothesis last

/-- A loop ends when every round that does not return lowers a measure. -/
theorem run_ends (measure : State → Nat) {start : State}
    (lowers : ∀ state next, Rounds round start state → round state = .ok (false, next) →
      measure next < measure state) :
    ∃ outcome, run round (measure start + 1) start = some outcome := by
  have ends : ∀ fuel state, Rounds round start state → measure state < fuel →
      ∃ outcome, run round fuel state = some outcome := by
    intro fuel
    induction fuel with
    | zero =>
      intro state _ small
      exact absurd small (Nat.not_lt_zero _)
    | succ fuel inductionHypothesis =>
      intro state reached small
      rw [run]
      split
      · exact ⟨_, rfl⟩
      · exact ⟨_, rfl⟩
      · rename_i next taken
        have lower := lowers state next reached taken
        exact inductionHypothesis next (reached.tail taken) (by omega)
  exact ends _ start .refl (Nat.lt_succ_self _)

/-- A loop does not end when no round of it returns. -/
theorem run_eq_none (invariant : State → Prop)
    (stays : ∀ state, invariant state → ∃ next, round state = .ok (false, next) ∧ invariant next)
    {start : State} (initially : invariant start) (fuel : Nat) : run round fuel start = none := by
  induction fuel generalizing start with
  | zero => rfl
  | succ fuel inductionHypothesis =>
    obtain ⟨next, taken, holds⟩ := stays start initially
    rw [run, taken]
    exact inductionHypothesis holds

end Loop
