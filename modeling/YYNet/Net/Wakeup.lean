/-
This file proves when `EventLoop` loses no wake-up.

A thread that queues a functor writes the eventfd only if neither of the flags
`EventHandling` and `PendingFunctions` is set, since a loop that is handling
events or draining the list will come to the functor anyway. The last
`try_dequeue` of a drain and the clearing of `PendingFunctions` are two steps,
though, and a functor queued between them is left on the list by a loop that
goes on to block in `poll`; so is one left behind when a drain ends at its
batch limit.

The main theorem says that no other step loses one: along every run in which
no flag test falls into that gap, and no drain ends at its limit, with
functors on the list, no signal in the eventfd and no other thread about to
test the flags, a loop that blocks in `poll` with no submitting call in
progress has an empty list or a signal waiting.
-/

import YYNet.Net.EventLoop

namespace YYNet

open Transition ProducerQueue

namespace LoopPoint

/-- The points at which `PendingFunctions` is set. -/
def drains : LoopPoint → Bool
  | draining _ _ => true
  | running _ _ => true
  | drained _ => true
  | _ => false

/-- The points from which the loop goes to `poll` without a further look at the list. -/
def bound : LoopPoint → Bool
  | idle => true
  | loopTest => true
  | polling => true
  | drained final => !final
  | _ => false

end LoopPoint

namespace EventLoop

variable {Producer : Type}

/-! ### What is promised, and when -/

/-- There is nothing to do, a signal is waiting, or a thread is about to test the flags. -/
def Heard (s : EventLoop Producer) : Prop :=
  s.functionList = [] ∨ 0 < s.wakeCounter ∨ s.waking ≠ []

/-- A loop blocked in `poll` with no submitting call in progress has nothing to do or a signal
waiting. -/
def NoLostWakeup (s : EventLoop Producer) : Prop :=
  s.point = .polling → s.waking = [] → s.functionList = [] ∨ 0 < s.wakeCounter

/-- A flag test between the last `try_dequeue` of a drain and the clearing of
`PendingFunctions`, and a drain that ends at its limit, leave nothing on the list, or a signal
is waiting, or another thread is about to test the flags. -/
def TestedInTime [DecidableEq Producer] (s : EventLoop Producer) : LoopAction Producer → Prop
  | .wakeup producer => s.point = .drained false →
      s.functionList = [] ∨ 0 < s.wakeCounter ∨ s.waking.erase producer ≠ []
  | .tryDequeue producer => ∀ finishNum ticket rest, s.point = .draining false finishNum →
      batchLimit ≤ finishNum → dequeue producer s.functionList = some (ticket, rest) →
      rest = [] ∨ 0 < s.wakeCounter ∨ s.waking ≠ []
  | _ => True

/-! ### The invariant -/

/-- The flags say where the loop is, and a loop bound for `poll` is heard. -/
structure Attentive (s : EventLoop Producer) : Prop where
  handling : s.eventHandling = decide (s.point = .handling)
  pending : s.pendingFunctions = s.point.drains
  heard : s.point.bound = true → s.Heard

theorem initial_attentive : Attentive (initial : EventLoop Producer) :=
  ⟨rfl, rfl, fun _ => .inl rfl⟩

theorem Attentive.noLostWakeup (s : EventLoop Producer) (attentive : Attentive s) :
    NoLostWakeup s := by
  intro polling calm
  rcases attentive.heard (by rw [polling]; rfl) with empty | signal | busy
  · exact .inl empty
  · exact .inr signal
  · exact absurd calm busy

section

variable [DecidableEq Producer]

/-- The flag test of a thread: where it is suppressed, the loop still has to look at the list,
or the condition of the step speaks. -/
theorem wakeup_attentive (s : EventLoop Producer) (producer : Producer)
    (attentive : Attentive s) (inTime : TestedInTime s (.wakeup producer)) :
    Attentive (s.wakeup producer) := by
  refine ⟨attentive.handling, attentive.pending, fun isBound => ?_⟩
  by_cases gap : s.point = .drained false
  · have suppressed : (!s.eventHandling && !s.pendingFunctions) = false := by
      rw [attentive.pending, gap]
      simp [LoopPoint.drains]
    rcases inTime gap with empty | signal | busy
    · exact .inl empty
    · refine .inr (.inl ?_)
      simp only [wakeup, suppressed, Bool.false_eq_true, if_false]
      exact signal
    · exact .inr (.inr busy)
  · have written : (!s.eventHandling && !s.pendingFunctions) = true := by
      have place : s.point.bound = true := isBound
      rw [attentive.handling, attentive.pending]
      cases point : s.point <;> simp_all [LoopPoint.bound, LoopPoint.drains]
    refine .inr (.inl ?_)
    simp only [wakeup, written, if_true]
    omega

/-- Every step whose flag test is in time keeps the loop attentive. -/
theorem step_attentive (s t : EventLoop Producer) (action : LoopAction Producer)
    (attentive : Attentive s) (inTime : TestedInTime s action)
    (taken : s.step action = some t) : Attentive t := by
  obtain ⟨handling, pending, heard⟩ := attentive
  cases moved_of_step s t action taken with
  | enqueue producer => exact ⟨handling, pending, fun _ => .inr (.inr (by simp))⟩
  | wakeup producer => exact wakeup_attentive s producer ⟨handling, pending, heard⟩ inTime
  | start producer final finishNum ticket rest place =>
    rw [place] at handling pending
    exact ⟨handling, pending, fun isBound => Bool.noConfusion isBound⟩
  | drop producer final finishNum ticket rest place found full =>
    rw [place] at handling pending
    refine ⟨handling, pending, fun isBound => ?_⟩
    obtain rfl : final = false := by simpa [LoopPoint.bound] using isBound
    exact inTime finishNum ticket rest place full found
  | tryDequeueFails final finishNum place empty =>
    rw [place] at handling pending
    exact ⟨handling, pending, fun _ => .inl empty⟩
  | quitRuns => exact ⟨handling, pending, heard⟩
  | readWakeFd place =>
    exact ⟨handling, pending, fun isBound => absurd isBound (by simp [place, LoopPoint.bound])⟩
  | enterLoop place =>
    rw [place] at handling pending heard
    exact ⟨handling, pending, fun _ => heard rfl⟩
  | testLooping place =>
    rw [place] at handling pending heard
    refine ⟨?_, ?_, fun _ => heard rfl⟩
    · simp only [handling]
      split <;> rfl
    · simp only [pending]
      split <;> rfl
  | endDrain final place =>
    rw [place] at handling pending heard
    cases final with
    | true => exact ⟨handling, rfl, fun isBound => Bool.noConfusion isBound⟩
    | false => exact ⟨handling, rfl, fun _ => heard rfl⟩
  | leave place | drainAgain place | pollReturns place | handlersDone place | startDrain place
  | functorDone _ _ place =>
    rw [place] at handling pending
    refine ⟨?_, ?_, fun isBound => Bool.noConfusion isBound⟩ <;> simp_all [LoopPoint.drains]

/-- Along every run whose flag tests are in time no wake-up is lost, in every state. -/
theorem noLostWakeup_of_testedInTime (actions : List (LoopAction Producer))
    (inTime : Meets (StepOf step) TestedInTime initial actions)
    (before : List (LoopAction Producer)) (earlier : before <+: actions)
    (s : EventLoop Producer) (run : Run (StepOf step) initial before s) : NoLostWakeup s := by
  obtain ⟨after, rfl⟩ := earlier
  have attentive : Attentive s := run.invariant initial_attentive
    (fun state action next => step_attentive state next action) (inTime.of_append _ _)
  exact attentive.noLostWakeup s

instance testedInTimeDecidable (s : EventLoop Producer) :
    (action : LoopAction Producer) → Decidable (TestedInTime s action)
  | .wakeup _ => inferInstanceAs (Decidable (_ → _ ∨ _ ∨ _))
  | .tryDequeue producer =>
    match place : s.point with
    | .draining false finishNum =>
      decidable_of_iff (batchLimit ≤ finishNum → ∀ entry ∈ dequeue producer s.functionList,
          entry.2 = [] ∨ 0 < s.wakeCounter ∨ s.waking ≠ [])
        ⟨fun left _ _ _ same full found => by
            cases place.symm.trans same
            exact left full _ found,
          fun left full _ found => left finishNum _ _ place full found⟩
    | .draining true _ | .idle | .loopTest | .polling | .handling | .handled | .running _ _
    | .drained _ | .finalTest | .returned =>
      .isTrue fun _ _ _ same => by cases place.symm.trans same
  | .enqueue _ | .enterLoop | .testLooping | .pollReturns | .readWakeFd | .quitRuns
  | .handlersDone | .startDrain | .tryDequeueFails | .functorDone | .endDrain | .testSize =>
    .isTrue trivial

end

/-- A functor is queued for a loop in `poll`, which is woken and runs it; another one is queued
while its batch runs, whose flag test writes no signal, and a third one when the loop is back in
`poll`. -/
def woken : List (LoopAction Unit) :=
  [.enterLoop, .testLooping, .enqueue (), .wakeup (), .pollReturns, .readWakeFd, .handlersDone,
    .startDrain, .tryDequeue (), .enqueue (), .wakeup (), .functorDone, .tryDequeue (),
    .functorDone, .tryDequeueFails, .endDrain, .testLooping, .enqueue (), .wakeup ()]

theorem noLostWakeup_of_testedInTime_woken : ∃ s : EventLoop Unit,
    Run (StepOf step) initial woken s ∧ s.point = .polling ∧ s.waking = [] ∧
      s.executed = [0, 1] ∧ s.functionList = [((), 2)] ∧ NoLostWakeup s := by
  have done : ((exec step initial woken).map fun s =>
      (s.point, s.waking, s.executed, s.functionList)) =
        some (.polling, [], [0, 1], [((), 2)]) := by
    decide
  obtain ⟨s, executed, shape⟩ := Option.map_eq_some_iff.mp done
  simp only [Prod.mk.injEq] at shape
  obtain ⟨polling, calm, ran, list⟩ := shape
  refine ⟨s, run_of_exec executed, polling, calm, ran, list, ?_⟩
  exact noLostWakeup_of_testedInTime woken (meets_of_checks (by decide)) _ List.prefix_rfl s
    (run_of_exec executed)

/-- A functor is queued, and the flags tested, behind the last `try_dequeue` of a drain. -/
def unheard : List (LoopAction Unit) :=
  [.enterLoop, .testLooping, .pollReturns, .handlersDone, .startDrain, .tryDequeueFails,
    .enqueue (), .wakeup (), .endDrain, .testLooping]

/-- The loop blocks in `poll` with a functor on the list and no signal. -/
theorem noLostWakeup_fails :
    ∃ final : EventLoop Unit, Run (StepOf step) initial unheard final ∧ ¬ NoLostWakeup final := by
  have done : ((exec step initial unheard).map fun s =>
      (s.point, s.waking, s.functionList, s.wakeCounter)) =
        some (.polling, [], [((), 0)], 0) := by
    decide
  obtain ⟨final, executed, shape⟩ := Option.map_eq_some_iff.mp done
  simp only [Prod.mk.injEq] at shape
  obtain ⟨polling, calm, list, silent⟩ := shape
  refine ⟨final, run_of_exec executed, fun kept => ?_⟩
  rcases kept polling calm with empty | signal
  · rw [list] at empty
    cases empty
  · omega

end EventLoop

end YYNet
