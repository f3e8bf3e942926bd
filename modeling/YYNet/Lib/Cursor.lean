/-
This file is a small library of scans over a buffer with two positions, as
pointer code writes them: a position moves forward to a stop while the cell it is
at passes a test, or a stop moves back to a position. Every cell is read through
a function that fails outside the buffer, and every loop has fuel and fails
without it, so that a scan that returns has read inside the buffer only and has
ended.

What lies between two positions is a window of the buffer. A window of two
positions that have passed each other is empty, and the scans leave such
positions as they are.
-/

import YYNet.Lib.Loop
import YYNet.Lib.Checked

namespace Cursor

/-- Why a scan did not return. -/
inductive Fault
  | outOfBounds
  /-- A range to be copied ends before it starts. -/
  | lengthError
  | outOfFuel
  deriving DecidableEq, Repr

section

variable {Cell State : Type}

/-- Read one cell. -/
def read (cells : List Cell) (position : Nat) : Except Fault Cell :=
  match cells[position]? with
  | some cell => .ok cell
  | none => .error .outOfBounds

/-- The cells between two positions. -/
def window (cells : List Cell) (first stop : Nat) : List Cell :=
  (cells.take stop).drop first

/-- Copy the cells between two positions. -/
def readRange (cells : List Cell) (first stop : Nat) : Except Fault (List Cell) :=
  if stop < first then .error .lengthError
  else if cells.length < stop then .error .outOfBounds
  else .ok (window cells first stop)

/-- A loop that fails when its fuel is used up. -/
def loop (fuel : Nat) (round : State → Except Fault (Bool × State)) (state : State) :
    Except Fault State :=
  (Loop.run round fuel state).getD (.error .outOfFuel)

/-! ### Scans -/

/-- One round of a scan forward. -/
def skipRound (cells : List Cell) (test : Cell → Bool) (stop position : Nat) :
    Except Fault (Bool × Nat) :=
  if position < stop then do
    let cell ← read cells position
    if test cell then return (false, position + 1) else return (true, position)
  else return (true, position)

/-- Move a position forward while its cell passes a test. -/
def skip (fuel : Nat) (cells : List Cell) (test : Cell → Bool) (stop position : Nat) :
    Except Fault Nat :=
  loop fuel (skipRound cells test stop) position

/-- One round of a scan back. -/
def skipBackRound (cells : List Cell) (test : Cell → Bool) (position stop : Nat) :
    Except Fault (Bool × Nat) :=
  if position < stop then do
    let cell ← read cells (stop - 1)
    if test cell then return (false, stop - 1) else return (true, stop)
  else return (true, stop)

/-- Move a stop back while the cell in front of it passes a test. -/
def skipBack (fuel : Nat) (cells : List Cell) (test : Cell → Bool) (position stop : Nat) :
    Except Fault Nat :=
  loop fuel (skipBackRound cells test position) stop

/-! ### Windows -/

theorem read_eq {cells : List Cell} {position : Nat} (inside : position < cells.length) :
    read cells position = .ok cells[position] := by
  unfold read
  rw [List.getElem?_eq_getElem inside]

theorem readRange_eq {cells : List Cell} {first stop : Nat} (ordered : first ≤ stop)
    (inside : stop ≤ cells.length) : readRange cells first stop = .ok (window cells first stop) := by
  unfold readRange
  rw [if_neg (by omega), if_neg (by omega)]

theorem window_length (cells : List Cell) {first stop : Nat} (inside : stop ≤ cells.length) :
    (window cells first stop).length = stop - first := by
  unfold window
  rw [List.length_drop, List.length_take, Nat.min_eq_left inside]

theorem window_eq_nil_iff {cells : List Cell} {first stop : Nat} (inside : stop ≤ cells.length) :
    window cells first stop = [] ↔ stop ≤ first := by
  rw [← List.length_eq_zero_iff, window_length cells inside]
  omega

theorem window_eq_cons {cells : List Cell} {first stop : Nat} (ordered : first < stop)
    (inside : stop ≤ cells.length) :
    window cells first stop = cells[first] :: window cells (first + 1) stop := by
  have within : first < (cells.take stop).length := by
    rw [List.length_take]
    omega
  unfold window
  rw [List.drop_eq_getElem_cons within, List.getElem_take]

theorem window_eq_snoc {cells : List Cell} {first stop : Nat} (ordered : first ≤ stop)
    (inside : stop < cells.length) :
    window cells first (stop + 1) = window cells first stop ++ [cells[stop]] := by
  have front : (cells.take stop).length = stop := by
    rw [List.length_take]
    omega
  unfold window
  rw [List.take_succ_eq_append_getElem inside, List.drop_append_of_le_length (by omega)]

/-- A window splits where its cells are split. -/
theorem window_split {cells front rest : List Cell} {first stop : Nat}
    (inside : stop ≤ cells.length) (split : window cells first stop = front ++ rest) :
    window cells first (first + front.length) = front ∧
      window cells (first + front.length) stop = rest := by
  have size := congrArg List.length split
  rw [window_length cells inside, List.length_append] at size
  unfold window at split ⊢
  constructor
  · rw [List.drop_take] at split
    have part := congrArg (List.take front.length) split
    rw [List.take_take, List.take_left, Nat.min_eq_left (by omega)] at part
    rw [List.drop_take, Nat.add_sub_cancel_left, part]
  · rw [← List.drop_drop, split, List.drop_left]

/-! ### What the scans find -/

/-- A loop that returned in one of its rounds returns what the round does. -/
theorem loop_of_run {round : State → Except Fault (Bool × State)} {fuel : Nat}
    {state : State} {outcome : Except Fault State}
    (returned : Loop.run round fuel state = some outcome) : loop fuel round state = outcome := by
  unfold loop
  rw [returned]
  rfl

/-- A round that returns ends the loop. -/
theorem loop_returns {round : State → Except Fault (Bool × State)} {state final : State}
    (returns : round state = .ok (true, final)) (fuel : Nat) :
    loop (fuel + 1) round state = .ok final := by
  refine loop_of_run ?_
  rw [Loop.run, returns]

/-- A round that goes on leads to the rest of the loop. -/
theorem loop_continues {round : State → Except Fault (Bool × State)} {state next : State}
    (goesOn : round state = .ok (false, next)) (fuel : Nat) :
    loop (fuel + 1) round state = loop fuel round next := by
  unfold loop
  rw [Loop.run, goesOn]

/-- A round that is reached and returns is what a loop that ends returns. -/
theorem loop_of_rounds {round : State → Except Fault (Bool × State)} {start last final other : State}
    (reached : Loop.Rounds round start last) (returns : round last = .ok (true, final)) {fuel : Nat}
    (ends : loop fuel round start = .ok other) : other = final := by
  unfold loop at ends
  cases ran : Loop.run round fuel start with
  | none =>
    rw [ran] at ends
    cases ends
  | some outcome =>
    rw [ran, reached.outcome returns ran] at ends
    exact (Except.ok.inj ends).symm

/-- A scan forward stops behind the cells that pass the test, or where it is when it has passed
its stop. -/
theorem skip_eq {cells : List Cell} {test : Cell → Bool} {fuel stop position : Nat}
    (inside : stop ≤ cells.length) (enough : stop - position < fuel) :
    skip fuel cells test stop position =
      .ok (position + ((window cells position stop).takeWhile test).length) := by
  induction fuel generalizing position with
  | zero => omega
  | succ fuel inductionHypothesis =>
    unfold skip at inductionHypothesis ⊢
    by_cases ordered : position < stop
    · have cell := read_eq (show position < cells.length by omega)
      rw [window_eq_cons ordered inside]
      by_cases passes : test cells[position] = true
      · have goesOn : skipRound cells test stop position = .ok (false, position + 1) := by
          rw [skipRound, if_pos ordered, cell]
          exact if_pos passes
        rw [loop_continues goesOn, inductionHypothesis (by omega),
          List.takeWhile_cons_of_pos passes, List.length_cons]
        congr 1
        omega
      · have ends : skipRound cells test stop position = .ok (true, position) := by
          rw [skipRound, if_pos ordered, cell]
          exact if_neg passes
        rw [loop_returns ends, List.takeWhile_cons_of_neg passes]
        rfl
    · rw [(window_eq_nil_iff inside).mpr (not_lt.mp ordered)]
      have ends : skipRound cells test stop position = .ok (true, position) := if_neg ordered
      exact loop_returns ends fuel

/-- A scan back stops in front of the cells that pass the test. -/
theorem skipBack_eq {cells : List Cell} {test : Cell → Bool} {fuel stop position : Nat}
    (ordered : position ≤ stop) (inside : stop ≤ cells.length) (enough : stop - position < fuel) :
    skipBack fuel cells test position stop =
      .ok (position + ((window cells position stop).rdropWhile test).length) := by
  induction fuel generalizing stop with
  | zero => omega
  | succ fuel inductionHypothesis =>
    unfold skipBack at inductionHypothesis ⊢
    by_cases nonempty : position < stop
    · obtain ⟨stop, rfl⟩ : ∃ less, stop = less + 1 := ⟨stop - 1, by omega⟩
      have cell := read_eq (show stop < cells.length by omega)
      rw [window_eq_snoc (by omega) (by omega)]
      by_cases passes : test cells[stop] = true
      · have goesOn : skipBackRound cells test position (stop + 1) = .ok (false, stop) := by
          rw [skipBackRound, if_pos nonempty, Nat.add_sub_cancel, cell]
          exact if_pos passes
        rw [loop_continues goesOn, inductionHypothesis (by omega) (by omega) (by omega),
          List.rdropWhile_concat_pos _ _ _ passes]
      · have ends : skipBackRound cells test position (stop + 1) = .ok (true, stop + 1) := by
          rw [skipBackRound, if_pos nonempty, Nat.add_sub_cancel, cell]
          exact if_neg passes
        rw [loop_returns ends, List.rdropWhile_concat_neg _ _ _ passes, List.length_append,
          window_length cells (by omega), List.length_singleton]
        congr 1
        omega
    · obtain rfl : stop = position := by omega
      rw [(window_eq_nil_iff inside).mpr (le_refl _)]
      have ends : skipBackRound cells test stop stop = .ok (true, stop) := if_neg nonempty
      exact loop_returns ends fuel

end

end Cursor
