/-
This file proves what becomes of a timer on a `TimerWheel` that is cancelled
while it is on the wheel.

`cancel` writes a count of zero and leaves the nodes of the timer where they
are. Until one of them comes due nothing happens to the timer. In the tick in
which the first of them comes due, `tick` executes the timer like any other: a
debug build stops at the assertion of `execute`, and a release build takes the
count from 0 to -1, which is `FOREVER`, and calls the callback.
-/

import YYNet.Net.WheelRepeat

namespace YYNet

open Checked Transition

namespace TimerWheel

/-! ### What trips the assertion -/

/-- In a tick from here the loop comes to a node that is due and whose timer has a count of zero, in
a build with assertions. -/
def Trips (build : Build) (callback : Nat → CallbackRun) (start : TimerWheel) (timer : Nat) :
    Prop :=
  build = .debug ∧ ∃ w node, Visits build callback start w (some node) ∧
    (w.node node).rotation = 0 ∧ (w.node node).timer = timer ∧ (w.timer timer).executeCount = 0

theorem insert_fault {w : TimerWheel} {timer : Nat} {fault : WheelFault}
    (stopped : w.insert timer = .error fault) : fault = .overflow := by
  rcases insert_cases w timer with overflow | ⟨v, returned⟩
  · exact Except.error.inj (stopped.symm.trans overflow)
  · rw [returned] at stopped
    cases stopped

theorem runSteps_fault {w : TimerWheel} {steps : List CallbackStep} {fault : WheelFault}
    (stopped : w.runSteps steps = .error fault) : fault = .overflow := by
  induction steps generalizing w with
  | nil => cases stopped
  | cons step rest inductionHypothesis =>
    cases step with
    | insert timer =>
      rw [runSteps] at stopped
      cases inserted : w.insert timer with
      | error other =>
        rw [inserted] at stopped
        obtain rfl := Except.error.inj stopped
        exact insert_fault inserted
      | ok v =>
        rw [inserted, ok_bind] at stopped
        exact inductionHypothesis stopped
    | setRemainCount timer count => exact inductionHypothesis stopped

/-- The assertion is the one of a timer with a count of zero. -/
theorem execute_asserts {w : TimerWheel} {build : Build} {node : Nat} {run : CallbackRun}
    (stopped : w.execute build node run = .error .assertFailed) :
    build = .debug ∧ (w.timer (w.node node).timer).executeCount = 0 := by
  simp only [execute] at stopped
  split at stopped
  · rename_i spent
    exact spent
  · cases called : (w.countDown node).runSteps run.steps with
    | error fault =>
      rw [called] at stopped
      obtain rfl := Except.error.inj stopped
      cases runSteps_fault called
    | ok v =>
      rw [called] at stopped
      cases stopped

theorem unlink_fault {w : TimerWheel} {node : Nat} {fault : WheelFault}
    (stopped : w.unlink node = .error fault) : fault = .nullDereference := by
  unfold unlink at stopped
  split at stopped
  · cases stopped
  · split at stopped
    · exact (Except.error.inj stopped).symm
    · simp only at stopped
      split at stopped <;> cases stopped

theorem reinsert_fault {w : TimerWheel} {node : Nat} {fault : WheelFault}
    (stopped : w.reinsert node = .error fault) : fault = .overflow := by
  unfold reinsert at stopped
  split at stopped
  · exact insert_fault stopped
  · cases stopped

/-- A walk that stops at an assertion has come to a timer that trips it. -/
theorem Visits.trips {build : Build} {callback : Nat → CallbackRun} {start w : TimerWheel}
    {place : Option Nat} (visits : Visits build callback start w place) {fuel : Nat}
    (stopped : TimerWheel.walk build callback fuel place w = .error .assertFailed) :
    ∃ timer, Trips build callback start timer := by
  induction fuel generalizing w place with
  | zero => cases place <;> cases stopped
  | succ fuel inductionHypothesis =>
    cases place with
    | none => cases stopped
    | some node =>
      rw [TimerWheel.walk] at stopped
      split at stopped
      · rename_i left
        exact inductionHypothesis (visits.rotated w node left) stopped
      · rename_i spent
        cases executes : w.execute build node (callback node) with
        | error fault =>
          rw [executes] at stopped
          obtain rfl := Except.error.inj stopped
          obtain ⟨isDebug, zero⟩ := execute_asserts executes
          exact ⟨_, isDebug, w, node, visits, by omega, rfl, zero⟩
        | ok executed =>
          rw [executes, ok_bind] at stopped
          cases inserts : executed.reinsert node with
          | error fault =>
            rw [inserts] at stopped
            obtain rfl := Except.error.inj stopped
            cases reinsert_fault inserts
          | ok inserted =>
            rw [inserts, ok_bind] at stopped
            cases unlinks : inserted.unlink node with
            | error fault =>
              rw [unlinks] at stopped
              obtain rfl := Except.error.inj stopped
              cases unlink_fault unlinks
            | ok unlinked =>
              rw [unlinks, ok_bind] at stopped
              exact inductionHypothesis
                (visits.ran w _ _ _ node spent executes inserts unlinks) stopped

/-- A tick that stops at an assertion stops at that of some timer. -/
theorem trips_of_tick {w : TimerWheel} {build : Build} {callback : Nat → CallbackRun}
    (stopped : w.tick build callback = .error .assertFailed) :
    ∃ timer, Trips build callback w timer := by
  unfold tick at stopped
  cases walked : TimerWheel.walk build callback w.made (w.slots w.curSlot) w with
  | error fault =>
    rw [walked] at stopped
    obtain rfl := Except.error.inj stopped
    exact Visits.start.trips walked
  | ok v =>
    rw [walked] at stopped
    cases stopped

/-! ### A cancelled timer in a tick -/

/-- One of some nodes is of a timer, and has no rotations left. -/
def DueAmong (w : TimerWheel) (timer : Nat) (nodes : List Nat) : Prop :=
  ∃ node ∈ nodes, (w.node node).timer = timer ∧ (w.node node).rotation = 0

/-- A node of a timer stands in the current slot with no rotations left. -/
def ComesDue (w : TimerWheel) (timer : Nat) : Prop :=
  ∃ node, LinkedList.Reached w.next (w.slots w.curSlot) node ∧ (w.node node).timer = timer ∧
    (w.node node).rotation = 0

theorem comesDue_iff {w : TimerWheel} {lists : Nat → List Nat} (laid : Laid w lists)
    (timer : Nat) : w.ComesDue timer ↔ w.DueAmong timer (lists w.curSlot) :=
  exists_congr fun node =>
    and_congr_left fun _ => LinkedList.reached_iff (laid.linked w.curSlot).visits node

theorem dueAmong_cons (w : TimerWheel) (timer node : Nat) (after : List Nat) :
    w.DueAmong timer (node :: after) ↔
      (w.node node).timer = timer ∧ (w.node node).rotation = 0 ∨ w.DueAmong timer after := by
  unfold DueAmong
  simp

theorem dueAmong_congr {w v : TimerWheel} {nodes : List Nat} (timer : Nat)
    (same : ∀ node ∈ nodes, (v.node node).timer = (w.node node).timer ∧
      (v.node node).rotation = (w.node node).rotation) :
    v.DueAmong timer nodes ↔ w.DueAmong timer nodes := by
  refine exists_congr fun node => and_congr_right fun member => ?_
  rw [(same node member).1, (same node member).2]

/-- A cancelled timer in the middle of a tick that began when it had run in some ticks: nothing has
happened to it and it comes due in this tick or not, or it has come due, in a build without
assertions, and has run. -/
def Cancelled (build : Build) (timer : Nat) (ran : List Nat) (due : Prop) (w : TimerWheel)
    (ahead : List Nat) : Prop :=
  (w.executions timer = ran ∧ (w.timer timer).executeCount = 0 ∧
    (due ↔ w.DueAmong timer ahead)) ∨
  (due ∧ build = .release ∧ (w.timer timer).executeCount = Timer.forever ∧
    ∃ more, more ≠ [] ∧ w.executions timer = ran ++ more)

/-- A node with rotations left is not due, and does not run. -/
theorem Cancelled.rotate {build : Build} {timer : Nat} {ran : List Nat} {due : Prop}
    {w : TimerWheel} {lists : Nat → List Nat} {before after : List Nat} {node : Nat}
    (laid : Laid w lists) (shape : lists w.curSlot = before ++ node :: after)
    (left : 0 < (w.node node).rotation)
    (cancelled : Cancelled build timer ran due w (node :: after)) :
    Cancelled build timer ran due
      (w.setNode node { w.node node with rotation := (w.node node).rotation - 1 }) after := by
  have moved := moved_of_rotation laid shape left
  have executions : TimerWheel.executions (w.setNode node { w.node node with
      rotation := (w.node node).rotation - 1 }) timer = w.executions timer := by
    refine executions_congr laid ?_ moved.timers timer
    rfl
  have behind : ∀ other ∈ after, other ≠ node := by
    have nodup := (laid.linked w.curSlot).nodup
    rw [shape] at nodup
    rintro other member rfl
    exact (List.nodup_cons.mp (List.nodup_append.mp nodup).2.1).1 member
  unfold Cancelled
  rw [executions]
  refine cancelled.imp (fun ⟨same, zero, isDue⟩ => ⟨same, zero, isDue.trans ?_⟩) id
  rw [dueAmong_cons, or_iff_right fun here => left.ne' here.2]
  refine (dueAmong_congr timer fun other member => ?_).symm
  rw [setNode_node, if_neg (behind other member)]
  exact ⟨rfl, rfl⟩

section

variable {build : Build} {run : CallbackRun} {w v u : TimerWheel} {lists longer : Nat → List Nat}
  {node : Nat} {after new : List Nat}

/-- The nodes that a walk has ahead of it keep their timers and rotations. -/
theorem Fires.ahead (fires : Fires build run w lists node after v longer new u) :
    ∀ other ∈ after, (u.node other).timer = (w.node other).timer ∧
      (u.node other).rotation = (w.node other).rotation := by
  intro other member
  obtain ⟨before, shape⟩ := fires.shape
  have known : other < w.made := by
    refine (fires.laid.known w.curSlot other ?_).1
    rw [shape]
    simp [member]
  obtain ⟨rotation, timer⟩ := fires.grown.data other known
  exact ⟨(fires.unlinked.data other).2.trans timer, (fires.unlinked.data other).1.trans rotation⟩

/-- A run of another timer leaves a timer as it is. -/
theorem Fires.same_timer (fires : Fires build run w lists node after v longer new u) {timer : Nat}
    (quiet : Quiet timer run.steps) (different : (w.node node).timer ≠ timer) :
    u.timer timer = w.timer timer := by
  rw [fires.timer, (fires.apart quiet different).same]
  exact Function.update_of_ne different.symm _ _

/-- A timer that runs with a count of zero or forever has the count forever behind it. -/
theorem Fires.forever (fires : Fires build run w lists node after v longer new u) {timer : Nat}
    (quiet : Quiet timer run.steps) (isTimer : (w.node node).timer = timer)
    (spent : (w.timer timer).executeCount = 0 ∨ (w.timer timer).executeCount = Timer.forever) :
    (u.timer timer).executeCount = Timer.forever := by
  obtain ⟨called, between, value, -, apart, count, -, last⟩ := fires.stages quiet
  rw [isTimer] at count last
  have down : ((w.countDown node).timer timer).executeCount = Timer.forever := by
    subst isTimer
    simp only [countDown, setTimer, Function.update_self]
    rcases spent with zero | forever
    · rw [zero]
      decide
    · rw [forever, if_neg (not_not.mpr rfl)]
  rw [apart.same, down] at count
  rw [if_neg (by rw [count]; decide)] at last
  rw [fires.timer, last]
  simp only [setTimer, Function.update_self]
  exact count

/-- A timer with a count of zero runs in a build without assertions only. -/
theorem Fires.release (fires : Fires build run w lists node after v longer new u)
    (zero : (w.timer (w.node node).timer).executeCount = 0) : build = .release := by
  cases build with
  | release => rfl
  | debug =>
    have returned := fires.returned
    simp only [execute] at returned
    rw [if_pos ⟨trivial, zero⟩] at returned
    cases returned

/-- A node that runs keeps what is known of a cancelled timer. -/
theorem Fires.cancelled (fires : Fires build run w lists node after v longer new u) {timer : Nat}
    {ran : List Nat} {due : Prop} (quiet : Quiet timer run.steps)
    (cancelled : Cancelled build timer ran due w (node :: after)) :
    Cancelled build timer ran due u after := by
  have executions := fires.executions timer
  by_cases isTimer : (w.node node).timer = timer
  · rw [if_pos isTimer] at executions
    rcases cancelled with ⟨same, zero, isDue⟩ | ⟨isDue, release, forever, more, nonempty, ran'⟩
    · refine .inr ⟨?_, fires.release (isTimer ▸ zero), fires.forever quiet isTimer (.inl zero),
        [w.ticks], List.cons_ne_nil _ _, by rw [executions, same]⟩
      rw [isDue, dueAmong_cons]
      exact .inl ⟨isTimer, fires.spent⟩
    · refine .inr ⟨isDue, release, fires.forever quiet isTimer (.inr forever),
        more ++ [w.ticks], by simp, ?_⟩
      rw [executions, ran', List.append_assoc]
  · rw [if_neg isTimer, List.append_nil] at executions
    have same := fires.same_timer quiet isTimer
    unfold Cancelled
    rw [executions, same]
    refine cancelled.imp (fun ⟨same, zero, isDue⟩ => ⟨same, zero, isDue.trans ?_⟩) id
    rw [dueAmong_cons, or_iff_right fun here => isTimer here.1]
    exact (dueAmong_congr timer fires.ahead).symm

end

/-- Wherever the loop of a tick comes to, it is known what has become of a cancelled timer. -/
theorem Visits.cancelled {build : Build} {callback : Nat → CallbackRun} {start w : TimerWheel}
    {lists : Nat → List Nat} {place : Option Nat} {timer : Nat} (settled : Settled start lists)
    (quiet : ∀ node, Quiet timer (callback node).steps)
    (zero : (start.timer timer).executeCount = 0)
    (visits : Visits build callback start w place) :
    ∃ ahead, place = ahead.head? ∧
      Cancelled build timer (start.executions timer) (start.ComesDue timer) w ahead := by
  obtain ⟨-, -, ahead, isPlace, -, -, cancelled⟩ := Visits.invariant
    (fun v _ ahead => Cancelled build timer (start.executions timer) (start.ComesDue timer) v ahead)
    (fun laid shape left cancelled => cancelled.rotate laid shape left)
    (fun fires cancelled => fires.cancelled (quiet _) cancelled) settled
    (.inl ⟨rfl, zero, comesDue_iff settled.laid timer⟩) visits
  exact ⟨ahead, isPlace, cancelled⟩

/-- A timer that does not come due trips no assertion. -/
theorem not_trips_of_not_comesDue {build : Build} {callback : Nat → CallbackRun}
    {w : TimerWheel} {lists : Nat → List Nat} {timer : Nat} (settled : Settled w lists)
    (quiet : ∀ node, Quiet timer (callback node).steps)
    (zero : (w.timer timer).executeCount = 0) (undue : ¬ w.ComesDue timer) :
    ¬ Trips build callback w timer := by
  rintro ⟨-, v, node, visits, spent, isTimer, -⟩
  obtain ⟨ahead, place, ⟨-, -, isDue⟩ | ⟨isDue, -⟩⟩ := visits.cancelled settled quiet zero
  · obtain ⟨after, rfl⟩ := List.head?_eq_some_iff.mp place.symm
    exact undue (isDue.mpr ⟨node, List.mem_cons_self, isTimer, spent⟩)
  · exact undue isDue

/-- What a tick that returns does with a cancelled timer: nothing, or it comes due and runs, in a
build without assertions, and has the count forever. -/
theorem tick_cancelled {build : Build} {callback : Nat → CallbackRun} {w v : TimerWheel}
    {lists : Nat → List Nat} {timer : Nat} (settled : Settled w lists)
    (quiet : ∀ node, Quiet timer (callback node).steps)
    (zero : (w.timer timer).executeCount = 0) (returned : w.tick build callback = .ok v) :
    (¬ w.ComesDue timer ∧ v.executions timer = w.executions timer ∧
      (v.timer timer).executeCount = 0) ∨
    (w.ComesDue timer ∧ build = .release ∧ v.executions timer ≠ w.executions timer ∧
      (v.timer timer).executeCount = Timer.forever) := by
  obtain ⟨walked, walks, last⟩ := bind_eq_ok returned
  obtain rfl := Except.ok.inj last
  have visits : Visits build callback w walked none := Visits.start.walk walks
  obtain ⟨ahead, place, cancelled⟩ := visits.cancelled settled quiet zero
  obtain rfl := List.head?_eq_none_iff.mp place.symm
  rcases cancelled with ⟨same, count, isDue⟩ | ⟨isDue, release, forever, more, nonempty, ran⟩
  · refine .inl ⟨fun due => ?_, same, count⟩
    obtain ⟨node, member, -⟩ := isDue.mp due
    cases member
  · refine .inr ⟨isDue, release, fun same => nonempty ?_, forever⟩
    exact List.append_right_eq_self.mp (ran.symm.trans same)

/-! ### Runs behind the cancellation -/

/-- A step other than a tick that is about other timers leaves a timer as it is. -/
theorem step_same {build : Build} {w v : TimerWheel} {lists : Nat → List Nat} {timer : Nat}
    {action : WheelAction} (untouched : Untouched timer action)
    (noTick : ∀ callback, action ≠ .tick callback) (settled : Settled w lists)
    (stepped : step build w action = some v) :
    v.executions timer = w.executions timer ∧ v.timer timer = w.timer timer := by
  obtain ⟨longer, kept⟩ := step_kept settled stepped
  have changes : v.fired = w.fired ∧ Apart timer w v := by
    cases action with
    | insert other =>
      have returned : w.insert other = .ok v := toOption_eq_some stepped
      obtain ⟨-, grown, -⟩ := insert_eq_ok settled.laid settled.positive returned
      exact ⟨grown.fired, insert_apart settled.laid settled.positive untouched returned⟩
    | insertElsewhere other =>
      exact insertElsewhere_apart untouched (toOption_eq_some stepped)
    | runTask node => exact runTask_apart stepped
    | setRemainCount other count =>
      obtain rfl := Option.some.inj stepped
      exact ⟨rfl, setTimer_apart w untouched _⟩
    | tick callback => exact absurd rfl (noTick callback)
  exact ⟨executions_congr settled.laid changes.1 kept.timers timer, changes.2.same⟩

/-- A tick does not start when a timer comes due. -/
def TicksUndue (timer : Nat) (w : TimerWheel) : WheelAction → Prop
  | .tick _ => ¬ w.ComesDue timer
  | _ => True

/-- Nothing has happened to a timer since it was cancelled: it has not run, and it is not to run
forever. -/
def Silent (cancelledAt : TimerWheel) (timer : Nat) (w : TimerWheel) : Prop :=
  w.executions timer = cancelledAt.executions timer ∧
    (w.timer timer).executeCount ≠ Timer.forever

/-- What holds of a wheel until a cancelled timer comes due. -/
def Spared (cancelledAt : TimerWheel) (timer : Nat) (w : TimerWheel) : Prop :=
  (∃ lists, Settled w lists) ∧ w.executions timer = cancelledAt.executions timer ∧
    (w.timer timer).executeCount = 0

theorem Spared.silent {cancelledAt w : TimerWheel} {timer : Nat}
    (spared : Spared cancelledAt timer w) : Silent cancelledAt timer w := by
  refine ⟨spared.2.1, ?_⟩
  rw [spared.2.2]
  decide

/-- One step keeps a cancelled timer, unless it is a tick in which it comes due. -/
theorem Spared.step {build : Build} {cancelledAt w v : TimerWheel} {timer : Nat}
    {action : WheelAction} (spared : Spared cancelledAt timer w) (untouched : Untouched timer action)
    (stepped : step build w action = some v) :
    (TicksUndue timer w action → Spared cancelledAt timer v) ∧
      (Silent cancelledAt timer v → TicksUndue timer w action) := by
  obtain ⟨⟨lists, settled⟩, executions, zero⟩ := spared
  obtain ⟨longer, kept⟩ := step_kept settled stepped
  by_cases isTick : ∃ callback, action = .tick callback
  · obtain ⟨callback, rfl⟩ := isTick
    have returned : w.tick build callback = .ok v := toOption_eq_some stepped
    rcases tick_cancelled settled untouched zero returned with
      ⟨undue, same, count⟩ | ⟨isDue, -, -, forever⟩
    · exact ⟨fun _ => ⟨⟨longer, kept.settled⟩, same.trans executions, count⟩, fun _ => undue⟩
    · exact ⟨fun undue => absurd isDue undue, fun silent => absurd forever silent.2⟩
  · obtain ⟨same, sameTimer⟩ := step_same untouched (not_exists.mp isTick) settled stepped
    refine ⟨fun _ => ⟨⟨longer, kept.settled⟩, same.trans executions, by rw [sameTimer, zero]⟩,
      fun _ => ?_⟩
    cases action with
    | tick callback => exact absurd ⟨callback, rfl⟩ isTick
    | insert | insertElsewhere | runTask | setRemainCount => trivial

/-- For every reachable wheel, every timer that is cancelled there and every later run that does
nothing to this timer: the timer stays as it is in all states of the run, if and only if no tick of
the run starts when it comes due; and then the next tick does not trip the assertion over the timer
if it does not come due (it may over another one), and else runs it or, with assertions, does not
return. -/
theorem cancelled_silent_iff (build : Build) (maxSlots : Nat) (si : Int) (timers : Nat → Timer)
    (positive : 1 ≤ maxSlots) (before : List WheelAction) (w : TimerWheel)
    (reached : Run (StepOf (step build)) (initial maxSlots si timers) before w) (timer : Nat)
    (actions : List WheelAction) (v : TimerWheel)
    (run : Run (StepOf (step build)) (w.setRemainCount timer 0) actions v)
    (untouched : ∀ action ∈ actions, Untouched timer action) :
    ((∀ early, early <+: actions → ∀ state,
        Run (StepOf (step build)) (w.setRemainCount timer 0) early state → Silent w timer state) ↔
      Meets (StepOf (step build)) (TicksUndue timer) (w.setRemainCount timer 0) actions) ∧
    (Meets (StepOf (step build)) (TicksUndue timer) (w.setRemainCount timer 0) actions →
      ∀ callback, (∀ node, Quiet timer (callback node).steps) →
        (¬ v.ComesDue timer → ¬ Trips build callback v timer ∧
          (v.tick build callback = .error .assertFailed →
            ∃ other, other ≠ timer ∧ Trips build callback v other)) ∧
        (v.ComesDue timer → ∀ u, v.tick build callback = .ok u →
          build = .release ∧ u.executions timer ≠ w.executions timer ∧
            (u.timer timer).executeCount = Timer.forever)) := by
  obtain ⟨lists, kept⟩ := run_kept (initial_settled maxSlots si timers positive) reached
  have grown : Grown w lists (w.setRemainCount timer 0) lists :=
    grown_of_setTimer kept.settled.laid _ _
  have start : Spared w timer (w.setRemainCount timer 0) := by
    refine ⟨⟨lists, (kept_of_grown kept.settled grown).settled⟩, ?_, ?_⟩
    · exact executions_congr kept.settled.laid rfl (fun node low => (grown.data node low).2) timer
    · simp only [setRemainCount, setTimer, Function.update_self]
  constructor
  · exact run.always_iff (stepOf_deterministic _) start (fun _ spared => spared.silent)
      (fun state action next member spared undue stepped =>
        (spared.step (untouched action member) stepped).1 undue)
      (fun state action next member spared stepped silent =>
        (spared.step (untouched action member) stepped).2 silent)
  · intro undue callback quiet
    obtain ⟨⟨longer, settled⟩, executions, zero⟩ := run.invariant_on start
      (fun state action next member spared undue stepped =>
        (spared.step (untouched action member) stepped).1 undue) undue
    refine ⟨fun undueNext => ?_, fun isDue u returned => ?_⟩
    · have spares : ¬ Trips build callback v timer :=
        not_trips_of_not_comesDue settled quiet zero undueNext
      refine ⟨spares, fun stopped => ?_⟩
      obtain ⟨other, trips⟩ := trips_of_tick stopped
      exact ⟨other, fun same => spares (same ▸ trips), trips⟩
    rcases tick_cancelled settled quiet zero returned with
      ⟨never, -⟩ | ⟨-, release, ran, forever⟩
    · exact absurd isDue never
    · exact ⟨release, fun same => ran (same.trans executions.symm), forever⟩

/-- The tick before the one in which a timer of one tick comes due. -/
theorem cancelled_silent_iff_one_tick :
    ∃ w v, (smallWheel 1 1).insert 0 = .ok w ∧
      Run (StepOf (step .debug)) (w.setRemainCount 0 0) [.tick fun _ => {}] v ∧
      ∀ early, early <+: [WheelAction.tick fun _ => {}] → ∀ state,
        Run (StepOf (step .debug)) (w.setRemainCount 0 0) early state → Silent w 0 state := by
  have done : ((step .debug (smallWheel 1 1) (.insert 0)).bind fun w =>
      (step .debug (w.setRemainCount 0 0) (.tick fun _ => {})).map fun v =>
        (w.slots w.curSlot, v.ticks)) = some (none, 1) := by decide
  obtain ⟨w, stepped, done⟩ := Option.bind_eq_some_iff.mp done
  obtain ⟨v, ticked, shape⟩ := Option.map_eq_some_iff.mp done
  have empty : w.slots w.curSlot = none := (Prod.mk.inj shape).1
  have run : Run (StepOf (step .debug)) (w.setRemainCount 0 0) ([] ++ [.tick fun _ => {}]) v :=
    (Run.nil _).snoc ticked
  refine ⟨w, v, toOption_eq_some stepped, run, ?_⟩
  refine (cancelled_silent_iff .debug 4 1 _ (by decide) [.insert 0] w
    (Run.cons stepped (.nil w)) 0 _ v run fun action member => ?_).1.mpr ?_
  · rw [List.mem_singleton.mp member]
    exact fun _ => nofun
  · refine (meets_snoc _ _ _ [] _).mpr ⟨meets_nil _ _ _, fun state reached => ?_⟩
    obtain rfl := reached.of_nil
    rintro ⟨node, onSlot, -⟩
    rw [show (w.setRemainCount 0 0).slots (w.setRemainCount 0 0).curSlot = w.slots w.curSlot from
      rfl, empty] at onSlot
    cases onSlot

/-- A cancelled timer runs in the tick in which it comes due, and is to run forever. -/
theorem not_cancelled_silent :
    ¬ ∀ (build : Build) (maxSlots : Nat) (si : Int) (timers : Nat → Timer), 1 ≤ maxSlots →
      ∀ (before : List WheelAction) (w : TimerWheel),
      Run (StepOf (step build)) (initial maxSlots si timers) before w → ∀ timer : Nat,
      (∃ node, w.OnWheel timer node) → ∀ (actions : List WheelAction) (v : TimerWheel),
      Run (StepOf (step build)) (w.setRemainCount timer 0) actions v →
      (∀ action ∈ actions, Untouched timer action) → Silent w timer v := by
  intro silent
  have done : ((step .release (smallWheel 1 1) (.insert 0)).bind fun w =>
      (exec (step .release) (w.setRemainCount 0 0) (List.replicate 2 (.tick fun _ => {}))).map
        fun v => (v.timer 0).executeCount) = some Timer.forever := by decide
  obtain ⟨w, stepped, done⟩ := Option.bind_eq_some_iff.mp done
  obtain ⟨v, executed, forever⟩ := Option.map_eq_some_iff.mp done
  have inserted : (smallWheel 1 1).insert 0 = .ok w := toOption_eq_some stepped
  obtain ⟨node, onWheel, -⟩ := (smallWheel_scheduledOnce inserted).once
  refine (silent .release 4 1 _ (by decide) [.insert 0] w (Run.cons stepped (.nil w)) 0
    ⟨node, onWheel⟩ _ v (run_of_exec executed) fun action member => ?_).2 forever
  rw [List.eq_of_mem_replicate member]
  exact fun _ => nofun

end TimerWheel

end YYNet
