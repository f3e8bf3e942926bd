/-
This file proves when the timerfd of a `TimerQueue` is armed early enough.

`modifyTimerfd` arms the timerfd for the whole interval of the first timer,
counted from the moment of the call. If part of that interval has already
passed, or another timer expires before the first one's interval is over, the
timerfd fires too late. With positive intervals, along any run, the timerfd is
armed in every state with pending timers and fires no later than the earliest
expiration (or than now, if that has passed), if and only if each call of
`modifyTimerfd` finds the end of the first timer's interval, counted from the
call, no later than the expiration of any pending timer.
-/

import YYNet.Net.TimerQueue

namespace YYNet

open Checked Transition OrderedSet

namespace TimerQueue

/-! ### What is promised, and when -/

/-- With timers pending, the timerfd is armed and fires no later than any of them expires, or
than now if that has passed. -/
def ArmedInTime (s : TimerQueue) : Prop :=
  s.timers ≠ [] → ∃ expiry, s.timerfd = some expiry ∧
    ∀ entry ∈ s.timers, expiry ≤ max (s.timer entry.timer).expiration s.clock

/-- The first timer's interval, counted from `armAt`, ends before any pending timer expires. -/
def WholeInterval (s : TimerQueue) (armAt : Int) : Prop :=
  ∀ first ∈ s.timers.head?, ∀ entry ∈ s.timers,
    armAt + (s.timer first.timer).interval ≤ (s.timer entry.timer).expiration

/-- The queue as `modifyTimerfd` finds it has the whole interval of its first timer ahead. -/
def FindsWholeInterval (s : TimerQueue) : TimerAction → Prop
  | .insertInLoop timer armAt =>
    WholeInterval { s with timers := put (s.entryOf timer) s.timers } armAt
  | .handlerRead now readings armAt =>
    ∀ t newTasks, runExpired now (upTo (sentry now) s.timers) readings
      { s with timers := beyond (sentry now) s.timers, clock := now } = some (t, newTasks) →
      WholeInterval { t with timers := putAll newTasks t.timers } armAt
  | _ => True

instance wholeIntervalDecidable (s : TimerQueue) (armAt : Int) :
    Decidable (s.WholeInterval armAt) :=
  inferInstanceAs (Decidable (∀ _ ∈ _, ∀ _ ∈ _, _))

instance findsWholeIntervalDecidable (s : TimerQueue) : (action : TimerAction) →
    Decidable (FindsWholeInterval s action)
  | .insertInLoop .. => inferInstanceAs (Decidable (WholeInterval ..))
  | .handlerRead now readings armAt =>
    match ran : runExpired now (upTo (sentry now) s.timers) readings
      { s with timers := beyond (sentry now) s.timers, clock := now } with
    | none => .isTrue fun t newTasks returned => by cases ran.symm.trans returned
    | some (t, newTasks) =>
      decidable_of_iff (WholeInterval { t with timers := putAll newTasks t.timers } armAt)
        ⟨fun whole u tasks returned => by cases ran.symm.trans returned; exact whole,
          fun finds => finds t newTasks ran⟩
  | .makeTimer .. | .cancelTimerInLoop .. => .isTrue trivial

/-- All intervals are positive. -/
def Positive (s : TimerQueue) : Prop := ∀ timer, 0 < (s.timer timer).interval

/-- The timers an action makes have positive intervals. -/
def MakesPositive : TimerAction → Prop
  | .makeTimer _ interval _ _ => 0 < interval
  | _ => True

/-! ### Arming with positive intervals -/

theorem execute_interval (s : TimerQueue) (now : Int) (timer other : Nat) (reading : Int) :
    ((s.execute now timer reading).timer other).interval = (s.timer other).interval := by
  by_cases same : other = timer
  · subst same
    rw [execute_self]
    rfl
  · rw [execute_other s now timer other reading same]

theorem runExpired_interval (now : Int) (entries : List Entry) (readings : List Int)
    (s t : TimerQueue) (newTasks : List Entry)
    (returned : runExpired now entries readings s = some (t, newTasks)) (timer : Nat) :
    (t.timer timer).interval = (s.timer timer).interval := by
  induction entries generalizing readings s newTasks with
  | nil =>
    obtain ⟨rfl, -⟩ := Prod.mk.inj (Option.some.inj returned)
    rfl
  | cons entry rest inductionHypothesis =>
    rcases runExpired_cons now entry rest readings s t newTasks returned with
      ⟨-, inner⟩ | ⟨-, reading, later, tasks, -, -, inner, -⟩
    · exact inductionHypothesis readings s newTasks inner
    · rw [inductionHypothesis later _ tasks inner, execute_interval]

/-- With positive intervals the first `timerfd_settime` succeeds. -/
theorem arm_positive (s t : TimerQueue) (armAt : Int) (positive : Positive s)
    (returned : s.arm armAt = some t) :
    t = { s with
      clock := armAt
      timerfd := match s.timers.head? with
        | none => s.timerfd
        | some first => some (armAt + (s.timer first.timer).interval) } := by
  unfold arm at returned
  split at returned
  · rw [modifyTimerfd] at returned
    split at returned
    · rename_i empty
      obtain rfl := Option.some.inj returned
      have empty : s.timers = [] := empty
      simp [empty]
    · rename_i first rest shape
      have shape : s.timers = first :: rest := shape
      have ahead := positive first.timer
      simp only [if_pos (le_of_lt ahead), if_neg (ne_of_gt ahead)] at returned
      obtain rfl := Option.some.inj returned
      simp [shape]
  · cases returned

/-- Arming leaves the timerfd in time exactly when the whole interval is ahead. -/
theorem arm_inTime_iff (s t : TimerQueue) (armAt : Int) (positive : Positive s)
    (returned : s.arm armAt = some t) :
    t.timer = s.timer ∧ (ArmedInTime t ↔ WholeInterval s armAt) := by
  obtain rfl := arm_positive s t armAt positive returned
  refine ⟨rfl, ?_⟩
  cases shape : s.timers with
  | nil => simp [ArmedInTime, WholeInterval, shape]
  | cons first rest =>
    have ahead := positive first.timer
    simp only [ArmedInTime, WholeInterval, shape, ne_eq, reduceCtorEq, not_false_eq_true,
      true_implies, List.head?_cons, Option.some.injEq, exists_eq_left', Option.mem_def,
      forall_eq']
    refine forall_congr' fun entry => imp_congr_right fun _ => ?_
    rw [le_max_iff]
    constructor
    · rintro (early | late)
      · exact early
      · omega
    · exact .inl

/-! ### One operation -/

/-- One operation on a queue with positive intervals that is armed in time. -/
theorem step_armed (build : Build) (s t : TimerQueue) (action : TimerAction)
    (positive : Positive s) (makes : MakesPositive action) (inTime : ArmedInTime s)
    (taken : s.step build action = some t) :
    Positive t ∧ (ArmedInTime t ↔ FindsWholeInterval s action) := by
  cases moved_of_step build s t action taken with
  | makeTimer timer interval executeCount now later unused =>
    refine ⟨fun other => ?_, iff_of_true (fun pending => ?_) trivial⟩
    · by_cases same : other = timer
      · subst same
        simp only [Function.update_self]
        exact makes
      · simp only [Function.update_of_ne same]
        exact positive other
    · obtain ⟨expiry, armed, early⟩ := inTime pending
      refine ⟨expiry, armed, fun entry member => ?_⟩
      simp only [Function.update_of_ne (unused entry member)]
      exact (early entry member).trans (max_le_max_left _ later)
  | insertInLoop timer armAt t checked armed =>
    obtain ⟨same, iff⟩ := arm_inTime_iff
      { s with timers := put (s.entryOf timer) s.timers } t armAt positive armed
    exact ⟨by rw [Positive, same]; exact positive, iff⟩
  | cancelTimerInLoop timer now later checked =>
    refine ⟨positive, iff_of_true (fun pending => ?_) trivial⟩
    have before : s.timers ≠ [] := fun empty => pending (by simp [empty])
    obtain ⟨expiry, armed, early⟩ := inTime before
    exact ⟨expiry, armed, fun entry member =>
      (early entry (List.mem_of_mem_erase member)).trans (max_le_max_left _ later)⟩
  | handlerRead now readings armAt u t newTasks later checked ran armed =>
    have kept : Positive { u with timers := putAll newTasks u.timers } := fun other => by
      simp only [runExpired_interval now _ _ _ u newTasks ran other]
      exact positive other
    obtain ⟨same, iff⟩ := arm_inTime_iff _ t armAt kept armed
    refine ⟨by rw [Positive, same]; exact kept, iff.trans ⟨fun whole v tasks again => ?_,
      fun finds => finds u newTasks ran⟩⟩
    rw [ran] at again
    obtain ⟨rfl, rfl⟩ := Prod.mk.inj (Option.some.inj again)
    exact whole

/-! ### Whole runs -/

/-- The invariant of a run that is armed in time. -/
def Prompt (s : TimerQueue) : Prop := Positive s ∧ ArmedInTime s

/-- Along any run with positive intervals the timerfd is armed in time in every state, if and
only if every call of `modifyTimerfd` finds the first timer's whole interval ahead. -/
theorem armedInTime_iff (build : Build) (timer : Nat → Timer)
    (positive : ∀ id, 0 < (timer id).interval) (clock : Int) (actions : List TimerAction)
    (makes : ∀ action ∈ actions, MakesPositive action) (final : TimerQueue)
    (run : Run (StepOf (step build)) (initial timer clock) actions final) :
    (∀ before, before <+: actions → ∀ s,
      Run (StepOf (step build)) (initial timer clock) before s → ArmedInTime s) ↔
    Meets (StepOf (step build)) FindsWholeInterval (initial timer clock) actions := by
  have start : Prompt (initial timer clock) := ⟨positive, fun pending => absurd rfl pending⟩
  refine run.always_iff (stepOf_deterministic _) start (fun _ prompt => prompt.2)
    (fun s action t member prompt met taken => ?_) fun s action t member prompt taken inTime => ?_
  · obtain ⟨kept, iff⟩ := step_armed build s t action prompt.1 (makes action member) prompt.2 taken
    exact ⟨kept, iff.mpr met⟩
  · exact (step_armed build s t action prompt.1 (makes action member) prompt.2 taken).2.mp inTime

/-- A queue whose timers have positive intervals. -/
def ticking : Nat → Timer := fun _ => ⟨1, 0, 0⟩

/-- A timer with three executions runs twice, and a second, longer one is inserted at once. -/
def onTime : List TimerAction :=
  [.makeTimer 1 10 3 0, .insertInLoop 1 0, .handlerRead 11 [11] 11,
    .handlerRead 22 [22] 22, .makeTimer 2 15 1 22, .insertInLoop 2 22]

theorem armedInTime_iff_onTime :
    ∃ final, Run (StepOf (step .debug)) (initial ticking 0) onTime final ∧
      final.executed = [⟨1, 10, 11⟩, ⟨1, 21, 22⟩] ∧ final.timerfd = some 32 ∧
      Meets (StepOf (step .debug)) FindsWholeInterval (initial ticking 0) onTime ∧
      ∀ before, before <+: onTime → ∀ s, Run (StepOf (step .debug)) (initial ticking 0) before s →
        ArmedInTime s := by
  have done : ((exec (step .debug) (initial ticking 0) onTime).map fun s =>
      (s.executed, s.timerfd)) = some ([⟨1, 10, 11⟩, ⟨1, 21, 22⟩], some 32) := by
    decide
  have whole : checks (step .debug) FindsWholeInterval (initial ticking 0) onTime = true := by
    decide
  obtain ⟨final, executed, same⟩ := Option.map_eq_some_iff.mp done
  obtain ⟨ran, armed⟩ := Prod.mk.inj same
  have run := run_of_exec executed
  refine ⟨final, run, ran, armed, meets_of_checks whole,
    (armedInTime_iff .debug ticking (fun _ => by simp [ticking]) 0 onTime ?_ final run).mpr
      (meets_of_checks whole)⟩
  simp [onTime, MakesPositive]

/-- A second, longer timer is inserted when half of the first one's interval has passed. -/
def halfway : List TimerAction :=
  [.makeTimer 1 10 1 0, .insertInLoop 1 0, .makeTimer 2 20 1 5, .insertInLoop 2 5]

/-- The timerfd is armed for 15, and the first timer expires at 10. -/
theorem armedInTime_fails :
    (∀ id, 0 < (ticking id).interval) ∧ (∀ action ∈ halfway, MakesPositive action) ∧
      ∃ final, Run (StepOf (step .debug)) (initial ticking 0) halfway final ∧
        ¬ ArmedInTime final := by
  have done : ((exec (step .debug) (initial ticking 0) halfway).map fun s =>
      (s.timers, s.timerfd, (s.timer 1).expiration, s.clock)) =
        some ([toLex (10, 1), toLex (25, 2)], some 15, 10, 5) := by
    decide
  obtain ⟨final, executed, shape⟩ := Option.map_eq_some_iff.mp done
  simp only [Prod.mk.injEq] at shape
  obtain ⟨timers, timerfd, expiration, clock⟩ := shape
  refine ⟨fun _ => by simp [ticking], by simp [halfway, MakesPositive], final, run_of_exec executed,
    fun inTime => ?_⟩
  obtain ⟨expiry, armed, early⟩ := inTime (by rw [timers]; simp)
  have first : expiry ≤ max (final.timer 1).expiration final.clock :=
    early (toLex (10, 1)) (by rw [timers]; simp)
  rw [timerfd] at armed
  obtain rfl := Option.some.inj armed
  rw [expiration, clock] at first
  exact absurd first (by decide)

end TimerQueue

end YYNet
