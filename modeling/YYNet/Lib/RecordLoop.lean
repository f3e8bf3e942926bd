/-
A loop that takes records off the front of a list of symbols, in general.

A reader takes a prefix of what it is given and does not look behind it. A round of
the loop reads a record into the state. It takes a symbol at least, so the loop
ends, and what the loop makes of one list behind another is what it makes of the
second one in the state in which the first one has left it.
-/

import Mathlib.Tactic.Common

namespace YYNet

variable {Symbol Value State : Type}

/-! ### Readers -/

/-- What a reader reads, and what is left. -/
abbrev Reader (Symbol Value : Type) := List Symbol → Option (Value × List Symbol)

namespace Reader

/-- A reader takes a prefix, for each value of at least this size, and reads the same whatever
follows. -/
structure Local (read : Reader Symbol Value) (size : Value → Nat) : Prop where
  takes : ∀ symbols value rest, read symbols = some (value, rest) →
    size value + rest.length ≤ symbols.length
  before : ∀ symbols value rest, read symbols = some (value, rest) → ∀ more,
    read (symbols ++ more) = some (value, rest ++ more)

end Reader

/-! ### The loop -/

/-- How a round ends, and how the loop ends: it has failed, or it has been told to stop, or it
has reached the end of a record. -/
inductive Ending (Symbol State : Type)
  | failed
  | stopped (state : State) (rest : List Symbol)
  | reached (state : State) (rest : List Symbol)
  deriving DecidableEq

namespace Ending

/-- The same ending with more symbols behind those that are left. -/
def before (more : List Symbol) : Ending Symbol State → Ending Symbol State
  | failed => failed
  | stopped state rest => stopped state (rest ++ more)
  | reached state rest => reached state (rest ++ more)

end Ending

namespace RecordLoop

/-- The loop, with a bound on the number of its rounds. -/
def readRecords (round : State → List Symbol → Ending Symbol State) :
    Nat → State → List Symbol → Ending Symbol State
  | _, state, [] => .reached state []
  | 0, _, _ :: _ => .failed
  | fuel + 1, state, symbol :: symbols =>
    match round state (symbol :: symbols) with
    | .failed => .failed
    | .stopped next rest => .stopped next rest
    | .reached next rest => readRecords round fuel next rest

/-- The loop. There are no more records than symbols. -/
def readAll (round : State → List Symbol → Ending Symbol State) (state : State)
    (symbols : List Symbol) : Ending Symbol State :=
  readRecords round symbols.length state symbols

/-- A round takes a symbol, and does the same whatever follows what it takes. -/
structure Rounds (round : State → List Symbol → Ending Symbol State) : Prop where
  shorter : ∀ state symbols next rest, round state symbols = .reached next rest →
    rest.length < symbols.length
  before : ∀ state symbols next rest, round state symbols = .reached next rest → ∀ more,
    round state (symbols ++ more) = .reached next (rest ++ more)

section

variable {round : State → List Symbol → Ending Symbol State} (rounds : Rounds round)

include rounds

/-- More fuel than there are symbols changes nothing. -/
theorem readRecords_of_le {fuel : Nat} {state : State} {symbols : List Symbol}
    (enough : symbols.length ≤ fuel) :
    readRecords round fuel state symbols = readAll round state symbols := by
  unfold readAll
  induction fuel using Nat.strongRecOn generalizing state symbols with
  | ind fuel inductionHypothesis =>
    cases symbols with
    | nil => cases fuel <;> rfl
    | cons symbol symbols =>
      obtain ⟨more, rfl⟩ : ∃ more, fuel = more + 1 := ⟨fuel - 1, by
        rw [List.length_cons] at enough
        omega⟩
      rw [List.length_cons, readRecords, readRecords]
      cases here : round state (symbol :: symbols) with
      | failed => rfl
      | stopped next rest => rfl
      | reached next rest =>
        have shorter := rounds.shorter _ _ _ _ here
        rw [List.length_cons] at shorter enough
        have first : readRecords round more next rest = readRecords round rest.length next rest :=
          inductionHypothesis more (Nat.lt_succ_self more) (by omega)
        have second : readRecords round symbols.length next rest =
            readRecords round rest.length next rest :=
          inductionHypothesis symbols.length (by omega) (by omega)
        exact first.trans second.symm

/-- Behind a record the loop goes on. -/
theorem readAll_reached {state next : State} {symbols rest : List Symbol}
    (here : round state symbols = .reached next rest) :
    readAll round state symbols = readAll round next rest := by
  have shorter := rounds.shorter _ _ _ _ here
  cases symbols with
  | nil => exact absurd shorter (Nat.not_lt_zero _)
  | cons symbol symbols =>
    have unfolded : readAll round state (symbol :: symbols) =
        readRecords round symbols.length next rest := by
      rw [readAll, List.length_cons, readRecords, here]
    rw [unfolded]
    exact readRecords_of_le rounds (Nat.lt_succ_iff.mp shorter)

/-- Where the loop reaches an end, it has made its rounds up to there: what each of them keeps, it
has kept. -/
theorem readAll_invariant (invariant : State → List Symbol → Prop)
    (step : ∀ state symbols next rest, round state symbols = .reached next rest →
      invariant state symbols → invariant next rest)
    {state next : State} {symbols rest : List Symbol}
    (reaches : readAll round state symbols = .reached next rest)
    (initially : invariant state symbols) : invariant next rest ∧ rest = [] := by
  induction size : symbols.length using Nat.strongRecOn generalizing state symbols with
  | ind fuel inductionHypothesis =>
    subst size
    cases symbols with
    | nil =>
      obtain ⟨rfl, rfl⟩ := Ending.reached.inj reaches
      exact ⟨initially, rfl⟩
    | cons symbol symbols =>
      cases here : round state (symbol :: symbols) with
      | failed =>
        rw [readAll, List.length_cons, readRecords, here] at reaches
        cases reaches
      | stopped middle left =>
        rw [readAll, List.length_cons, readRecords, here] at reaches
        cases reaches
      | reached middle left =>
        rw [readAll_reached rounds here] at reaches
        exact inductionHypothesis _ (rounds.shorter _ _ _ _ here) reaches
          (step _ _ _ _ here initially) rfl

/-- What the loop makes of two lists, one behind the other. -/
theorem readAll_append {state next : State} {first rest : List Symbol}
    (reaches : readAll round state first = .reached next rest) (second : List Symbol) :
    readAll round state (first ++ second) = readAll round next second := by
  have kept := readAll_invariant rounds
    (fun middle symbols => readAll round state (first ++ second) =
      readAll round middle (symbols ++ second))
    (fun _ _ _ _ here before =>
      before.trans (readAll_reached rounds (rounds.before _ _ _ _ here second)))
    reaches rfl
  rw [kept.1, kept.2, List.nil_append]

end

end RecordLoop

end YYNet
