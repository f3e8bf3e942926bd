/-
This file is a small library of durations as a clock library has them: a signed
64-bit count of ticks, where the length of a tick is part of the type. An
operation whose result does not fit in 64 bits has none.

The span of a duration is the time it stands for, as a number of the shortest
ticks. Casting to a tick that divides the old one keeps the span, and so do sums
and differences.
-/

import Mathlib

namespace Duration

/-- What a signed 64-bit counter holds. -/
def InRange (count : Int) : Prop := -2 ^ 63 ≤ count ∧ count < 2 ^ 63

instance inRangeDecidable (count : Int) : Decidable (InRange count) :=
  inferInstanceAs (Decidable (_ ∧ _))

end Duration

open Duration

/-- A count of ticks, where one tick is `tick` of the shortest ticks. -/
@[ext]
structure Duration (tick : Nat) where
  count : Int
  inRange : InRange count
  deriving DecidableEq

namespace Duration

variable {tick other : Nat}

/-- The duration with a given count, if there is one. -/
def ofCount (count : Int) : Option (Duration tick) :=
  if inRange : InRange count then some ⟨count, inRange⟩ else none

/-- The time that a duration stands for. -/
def span (duration : Duration tick) : Int := duration.count * tick

/-- Change the tick. What does not fill a tick is cut off, towards zero. -/
def cast (duration : Duration tick) : Option (Duration other) :=
  ofCount (duration.span.tdiv other)

def add (first second : Duration tick) : Option (Duration tick) :=
  ofCount (first.count + second.count)

def sub (first second : Duration tick) : Option (Duration tick) :=
  ofCount (first.count - second.count)

/-- A duration several times. -/
def scale (factor : Int) (duration : Duration tick) : Option (Duration tick) :=
  ofCount (factor * duration.count)

@[simp]
theorem ofCount_eq_some_iff {count : Int} {duration : Duration tick} :
    ofCount count = some duration ↔ duration.count = count := by
  unfold ofCount
  split
  · rename_i inRange
    rw [Option.some.injEq]
    exact ⟨fun same => same ▸ rfl, fun same => Duration.ext same.symm⟩
  · rename_i outside
    refine ⟨nofun, fun same => absurd ?_ outside⟩
    rw [← same]
    exact duration.inRange

/-- Every count that is in range is the count of a duration. -/
theorem ofCount_count (duration : Duration tick) : ofCount duration.count = some duration :=
  ofCount_eq_some_iff.mpr rfl

/-- A cast to a tick that divides the old one keeps the span. -/
theorem span_of_cast {duration : Duration tick} {result : Duration other} (divides : other ∣ tick)
    (casts : duration.cast = some result) : result.span = duration.span := by
  have count := ofCount_eq_some_iff.mp casts
  have multiple : (other : Int) ∣ duration.span :=
    Dvd.dvd.mul_left (Int.natCast_dvd_natCast.mpr divides) _
  rw [span, count, Int.tdiv_mul_cancel multiple]

end Duration
