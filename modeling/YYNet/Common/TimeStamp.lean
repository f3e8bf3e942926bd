/-
This file models `TimeStamp` and `TimeInterval` and proves when their
arithmetic is consistent.

Both clocks count nanoseconds, and an interval counts seconds or microseconds.
The sum of a stamp and an interval converts the interval to nanoseconds. The
difference of two stamps does not convert back: it takes the number of
nanoseconds between them for a number of seconds or microseconds. So a
difference stands for a thousand, or a thousand million, times the time between
the stamps.
-/

import YYNet.Lib.Duration

namespace YYNet

/-! ### Stamps and intervals -/

/-- `LowPrecisionTag` and `HighPrecisionTag`. -/
inductive Precision
  | lowPrecision
  | highPrecision
  deriving DecidableEq, Repr

namespace ClockTraits

/-- The tick of `ClockTraits::S` in nanoseconds: `std::chrono::seconds` and
`std::chrono::microseconds`. -/
def period : Precision → Nat
  | .lowPrecision => 1000000000
  | .highPrecision => 1000

end ClockTraits

open ClockTraits

/-- `TimeStamp`: `time_point_` as the nanoseconds since the epoch of the clock. -/
@[ext]
structure TimeStamp (precision : Precision) where
  timePoint : Duration 1
  deriving DecidableEq

/-- `TimeInterval`. -/
@[ext]
structure TimeInterval (precision : Precision) where
  timePeriod : Duration (period precision)
  deriving DecidableEq

variable {precision other : Precision}

namespace TimeInterval

/-- The constructor from a number of ticks. -/
def ofTimes (times : Int) : Option (TimeInterval precision) :=
  (Duration.ofCount times).map .mk

/-- The constructor from any duration. -/
def ofDuration {tick : Nat} (duration : Duration tick) : Option (TimeInterval precision) :=
  duration.cast.map .mk

/-- `getTimes`. -/
def times (interval : TimeInterval precision) : Int := interval.timePeriod.count

instance ltTimeInterval : LT (TimeInterval precision) :=
  ⟨fun lhs rhs => lhs.timePeriod.count < rhs.timePeriod.count⟩

instance leTimeInterval : LE (TimeInterval precision) := ⟨fun lhs rhs => ¬ rhs < lhs⟩

instance ltTimeIntervalDecidable (lhs rhs : TimeInterval precision) : Decidable (lhs < rhs) :=
  inferInstanceAs (Decidable (lhs.timePeriod.count < rhs.timePeriod.count))

/-- `operator*`. -/
def scale (count : Int) (interval : TimeInterval precision) : Option (TimeInterval precision) :=
  (interval.timePeriod.scale count).map .mk

end TimeInterval

namespace TimeStamp

/-- `operator+`. The two precisions may differ. -/
def add (lhs : TimeStamp precision) (rhs : TimeInterval other) : Option (TimeStamp precision) := do
  let period ← rhs.timePeriod.cast
  let timePoint ← lhs.timePoint.add period
  some ⟨timePoint⟩

/-- `operator-`: the number of nanoseconds is handed to the constructor that takes a number of
ticks. -/
def sub (lhs rhs : TimeStamp precision) : Option (TimeInterval precision) := do
  let between ← lhs.timePoint.sub rhs.timePoint
  TimeInterval.ofTimes between.count

instance ltTimeStamp : LT (TimeStamp precision) :=
  ⟨fun lhs rhs => lhs.timePoint.count < rhs.timePoint.count⟩

instance leTimeStamp : LE (TimeStamp precision) := ⟨fun lhs rhs => ¬ rhs < lhs⟩

instance ltTimeStampDecidable (lhs rhs : TimeStamp precision) : Decidable (lhs < rhs) :=
  inferInstanceAs (Decidable (lhs.timePoint.count < rhs.timePoint.count))

end TimeStamp

/-- Whether `checkAlive` disconnects: `LTimeStamp::now()-lastFulsh>LTimeInterval(10s)`. -/
def checkAlive (now lastFlush : TimeStamp .lowPrecision) : Option Bool := do
  let idle ← now.sub lastFlush
  let limit ← TimeInterval.ofTimes 10
  some (limit < idle)

/-! ### What the operations mean -/

theorem one_lt_period (precision : Precision) : 1 < period precision := by
  cases precision <;> decide

namespace TimeStamp

/-- A sum is later by the time that the interval stands for. -/
theorem count_of_add {stamp later : TimeStamp precision} {interval : TimeInterval other}
    (sum : stamp.add interval = some later) :
    later.timePoint.count = stamp.timePoint.count + interval.timePeriod.span := by
  obtain ⟨converted, casts, rest⟩ := Option.bind_eq_some_iff.mp sum
  obtain ⟨timePoint, added, isLater⟩ := Option.bind_eq_some_iff.mp rest
  obtain rfl := Option.some.inj isLater
  have sameSpan := Duration.span_of_cast (one_dvd _) casts
  rw [Duration.ofCount_eq_some_iff.mp added, ← sameSpan, Duration.span, Nat.cast_one, mul_one]

/-- A difference has as many ticks as there are nanoseconds between the stamps. -/
theorem sub_eq_some_iff {lhs rhs : TimeStamp precision} {interval : TimeInterval precision} :
    lhs.sub rhs = some interval ↔
      interval.times = lhs.timePoint.count - rhs.timePoint.count := by
  constructor
  · intro difference
    obtain ⟨between, subtracted, built⟩ := Option.bind_eq_some_iff.mp difference
    obtain ⟨period, counted, rfl⟩ := Option.map_eq_some_iff.mp built
    rw [TimeInterval.times, Duration.ofCount_eq_some_iff.mp counted,
      Duration.ofCount_eq_some_iff.mp subtracted]
  · intro counted
    let between : Duration 1 := ⟨interval.times, interval.timePeriod.inRange⟩
    have subtracted : lhs.timePoint.sub rhs.timePoint = some between :=
      Duration.ofCount_eq_some_iff.mpr counted
    have built : TimeInterval.ofTimes between.count = some interval := by
      rw [TimeInterval.ofTimes, show between.count = interval.timePeriod.count from rfl,
        Duration.ofCount_count]
      rfl
    exact Option.bind_eq_some_iff.mpr ⟨between, subtracted, built⟩

/-- Taking a stamp from a sum gives the interval back when it is empty and at no other time. -/
theorem sub_of_add_iff {stamp later : TimeStamp precision} {interval : TimeInterval precision}
    (sum : stamp.add interval = some later) :
    later.sub stamp = some interval ↔ interval.times = 0 := by
  have long := one_lt_period precision
  rw [sub_eq_some_iff, count_of_add sum, add_sub_cancel_left, Duration.span, TimeInterval.times]
  constructor
  · intro fixed
    have factored : interval.timePeriod.count * ((period precision : Int) - 1) = 0 := by
      rw [mul_sub, mul_one, ← fixed, sub_self]
    exact (mul_eq_zero.mp factored).resolve_right (by omega)
  · intro empty
    rw [empty, zero_mul]

/-- Comparing a difference with an interval is comparing the stamps when the stamps are apart by
more ticks than the interval has, or the interval has as many ticks as there are nanoseconds
between the stamps. -/
theorem compare_iff {earlier stamp bound : TimeStamp precision}
    {interval difference : TimeInterval precision} {ticks : Nat}
    (sum : earlier.add interval = some bound) (taken : stamp.sub earlier = some difference)
    (apart : stamp.timePoint.count = earlier.timePoint.count + ticks * period precision) :
    (difference > interval ↔ stamp > bound) ↔
      interval.times < ticks ∨ (ticks * period precision : Int) ≤ interval.times := by
  have long := one_lt_period precision
  have counted : difference.times = ticks * period precision := by
    rw [sub_eq_some_iff.mp taken, apart, add_sub_cancel_left]
  have code : difference > interval ↔ interval.times < ticks * period precision := by
    rw [← counted]
    rfl
  have law : stamp > bound ↔ interval.times < ticks := by
    show bound.timePoint.count < stamp.timePoint.count ↔ _
    rw [apart, count_of_add sum, add_lt_add_iff_left, Duration.span]
    exact mul_lt_mul_iff_left₀ (by omega)
  have grows : (ticks : Int) ≤ ticks * period precision :=
    le_mul_of_one_le_right (Int.natCast_nonneg _) (by omega)
  rw [code, law]
  omega

/-- Differences are consistent with sums and with the order of stamps at empty intervals and where
the comparison does not fall between the ticks and the nanoseconds, and nowhere else. -/
theorem consistent_iff (precision : Precision) :
    (∀ (stamp later : TimeStamp precision) (interval : TimeInterval precision),
      stamp.add interval = some later → (later.sub stamp = some interval ↔ interval.times = 0)) ∧
    ∀ (earlier stamp bound : TimeStamp precision) (interval difference : TimeInterval precision)
      (ticks : Nat), earlier.add interval = some bound → stamp.sub earlier = some difference →
      stamp.timePoint.count = earlier.timePoint.count + ticks * period precision →
      ((difference > interval ↔ stamp > bound) ↔
        interval.times < ticks ∨ (ticks * period precision : Int) ≤ interval.times) :=
  ⟨fun _ _ _ sum => sub_of_add_iff sum,
    fun _ _ _ _ _ _ sum taken apart => compare_iff sum taken apart⟩

/-- The stamp that many seconds behind the epoch. -/
def atSecond (second : Nat) (small : second < 2 ^ 33) : TimeStamp .lowPrecision :=
  ⟨⟨second * 1000000000, by constructor <;> omega⟩⟩

/-- The interval of that many seconds. -/
def seconds (count : Nat) (small : count < 2 ^ 33) : TimeInterval .lowPrecision :=
  ⟨⟨count, by constructor <;> omega⟩⟩

/-- No time at all is given back, and stamps twelve seconds apart are found to be more than ten
seconds apart. -/
theorem consistent_iff_twelve :
    (atSecond 3 (by decide)).sub (atSecond 3 (by decide)) = some (seconds 0 (by decide)) ∧
      ∃ difference : TimeInterval .lowPrecision,
        (atSecond 15 (by decide)).sub (atSecond 3 (by decide)) = some difference ∧
        (difference > seconds 10 (by decide) ↔
          atSecond 15 (by decide) > atSecond 13 (by decide)) :=
  have laws := consistent_iff .lowPrecision
  ⟨(laws.1 (atSecond 3 (by decide)) _ (seconds 0 (by decide)) rfl).mpr rfl, _, rfl,
    (laws.2 (atSecond 3 (by decide)) (atSecond 15 (by decide)) (atSecond 13 (by decide))
      (seconds 10 (by decide)) _ 12 rfl rfl (by decide)).mpr (.inl (by decide))⟩

/-- `checkAlive` disconnects as soon as more than ten nanoseconds have passed. -/
theorem checkAlive_eq {now lastFlush : TimeStamp .lowPrecision} {idle : TimeInterval .lowPrecision}
    (difference : now.sub lastFlush = some idle) :
    checkAlive now lastFlush =
      some (decide (lastFlush.timePoint.count + 10 < now.timePoint.count)) := by
  have limit : (TimeInterval.ofTimes 10 : Option (TimeInterval .lowPrecision)) =
      some ⟨⟨10, by decide⟩⟩ := rfl
  have counted := sub_eq_some_iff.mp difference
  rw [checkAlive, difference, limit]
  refine congrArg some (decide_eq_decide.mpr ?_)
  show 10 < idle.times ↔ _
  rw [counted, lt_sub_iff_add_lt']

/-- A second added to the epoch comes back as a thousand million seconds, and stamps one second
apart are found to be more than ten seconds apart, so that `checkAlive` disconnects. -/
theorem not_consistent :
    (∃ later, (atSecond 0 (by decide)).add (seconds 1 (by decide)) = some later ∧
      later.sub (atSecond 0 (by decide)) ≠ some (seconds 1 (by decide))) ∧
    ∃ bound difference,
      (atSecond 0 (by decide)).add (seconds 10 (by decide)) = some bound ∧
      (atSecond 1 (by decide)).sub (atSecond 0 (by decide)) = some difference ∧
      difference > seconds 10 (by decide) ∧ ¬ atSecond 1 (by decide) > bound ∧
      checkAlive (atSecond 1 (by decide)) (atSecond 0 (by decide)) = some true :=
  ⟨⟨_, rfl, by decide⟩, _, _, rfl, rfl, by decide, by decide,
    (checkAlive_eq rfl).trans (congrArg some (by decide))⟩

end TimeStamp

end YYNet
