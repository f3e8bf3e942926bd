/-
This file models `EventLoop` with its task queue and proves when no queued task
is lost.

Any thread puts functors on `FunctionList_` (`submit` from another thread,
`DelayedExecution` from any thread) and then tests the status flags to decide
whether to write the wake-up eventfd. The loop thread polls, runs the ready
handlers, and drains the list in batches. A functor it runs may queue more
functors and may clear the `Looping` flag, which is all that `quit` does. The
list is the vendored concurrent queue: first in, first out for each producer,
and in no fixed order between producers.

`doPendingFunctions` takes a functor off the list before it looks at the batch
limit. With a hundred functors already run it takes one more and drops it. The
main theorem says that this is the only way to lose a functor: along any
schedule, every functor is in the list or has run exactly once, at all times,
if and only if the loop never takes a functor off the list with its batch full.
-/

import YYNet.Lib.Transition
import YYNet.Lib.ProducerQueue

namespace YYNet

open Transition ProducerQueue

/-! ### The state of the loop -/

/-- The batch limit of `doPendingFunctions`. -/
def batchLimit : Nat := 100

/-- Where the loop thread is. `final` tells the drain behind the loop from the one inside. -/
inductive LoopPoint
  | idle
  | loopTest
  | polling
  | handling
  | handled
  | draining (final : Bool) (finishNum : Nat)
  | running (final : Bool) (finishNum : Nat)
  | drained (final : Bool)
  | finalTest
  | returned
  deriving DecidableEq, Repr

/-- `EventLoop`: the status flags, the list, the eventfd counter and the threads between their
`enqueue` and their `wakeup`. A functor is a ticket, its place in the order of all queueings,
and stands on the list beside the thread that queued it. `issued`, `executed` and `quitAt` record
history: how many functors have been queued, which ones have been started, and how many had been
queued when a quit functor last ran. -/
structure EventLoop (Producer : Type) where
  point : LoopPoint
  looping : Bool
  eventHandling : Bool
  pendingFunctions : Bool
  functionList : List (Producer × Nat)
  wakeCounter : Nat
  waking : List Producer
  issued : Nat
  executed : List Nat
  quitAt : Option Nat
  deriving DecidableEq, Repr

/-- One step of some thread. -/
inductive LoopAction (Producer : Type)
  | enqueue (producer : Producer)
  | wakeup (producer : Producer)
  | enterLoop
  | testLooping
  | pollReturns
  | readWakeFd
  | quitRuns
  | handlersDone
  | startDrain
  | tryDequeue (producer : Producer)
  | tryDequeueFails
  | functorDone
  | endDrain
  | testSize
  deriving DecidableEq, Repr

namespace EventLoop

variable {Producer : Type}

/-- The constructed loop. -/
def initial : EventLoop Producer where
  point := .idle
  looping := false
  eventHandling := false
  pendingFunctions := false
  functionList := []
  wakeCounter := 0
  waking := []
  issued := 0
  executed := []
  quitAt := none

/-! ### What the task queue promises -/

/-- The tickets still on the list. -/
def waiting (s : EventLoop Producer) : List Nat := s.functionList.map Prod.snd

/-- Every queued functor is on the list and has not run, or has run exactly once and is not on
the list. -/
def NoLostTask (s : EventLoop Producer) : Prop :=
  ∀ ticket < s.issued,
    (s.waiting.count ticket = 1 ∧ s.executed.count ticket = 0) ∨
      (s.waiting.count ticket = 0 ∧ s.executed.count ticket = 1)

/-- When `loop()` has returned, every functor queued before the quit functor ran has run. -/
def QuitDrained (s : EventLoop Producer) : Prop :=
  s.point = .returned → ∀ count, s.quitAt = some count →
    ∀ ticket < count, s.executed.count ticket = 1

/-- The tickets the loop can account for: those on the list and those it has run. -/
def accounted (s : EventLoop Producer) : List Nat := s.waiting ++ s.executed

/-- A ticket is in one place only when it is accounted for once. -/
theorem noLostTask_iff (s : EventLoop Producer) :
    NoLostTask s ↔ ∀ ticket < s.issued, s.accounted.count ticket = 1 := by
  refine forall_congr' fun ticket => imp_congr_right fun _ => ?_
  rw [accounted, List.count_append]
  omega

/-! ### The books of the queue -/

/-- No ticket is accounted for twice, and none before it is issued. -/
def NoDuplicate (s : EventLoop Producer) : Prop := s.accounted.Subperm (List.range s.issued)

/-- The books are complete: the tickets accounted for are exactly the issued ones, and once
`loop()` has returned only functors queued behind the quit functor are on the list. -/
structure Complete (s : EventLoop Producer) : Prop where
  perm : s.accounted.Perm (List.range s.issued)
  quit_le : ∀ count, s.quitAt = some count → count ≤ s.issued
  drained : s.point = .returned → ∀ count, s.quitAt = some count →
    ∀ ticket ∈ s.waiting, count ≤ ticket

theorem initial_complete : Complete (initial : EventLoop Producer) :=
  ⟨List.Perm.refl _, nofun, nofun⟩

theorem initial_noDuplicate : NoDuplicate (initial : EventLoop Producer) :=
  initial_complete.perm.subperm

theorem Complete.noLostTask (s : EventLoop Producer) (complete : Complete s) : NoLostTask s := by
  rw [noLostTask_iff]
  intro ticket inside
  rw [complete.perm.count_eq, List.count_range, if_pos inside]

theorem Complete.quitDrained (s : EventLoop Producer) (complete : Complete s) :
    QuitDrained s := by
  intro back count at_ ticket below
  have inside : ticket < s.issued := lt_of_lt_of_le below (complete.quit_le count at_)
  rcases complete.noLostTask s ticket inside with ⟨once, -⟩ | ⟨-, ran⟩
  · have member : ticket ∈ s.waiting := List.count_pos_iff.mp (by omega)
    exact absurd (complete.drained back count at_ ticket member) (by omega)
  · exact ran

/-- A ticket that drops out of books without duplicates is lost. -/
theorem not_noLostTask (s t : EventLoop Producer) (ticket : Nat) (before : NoDuplicate s)
    (sameIssued : t.issued = s.issued) (dropped : s.accounted.Perm (ticket :: t.accounted)) :
    ¬ NoLostTask t := by
  have inside : ticket < s.issued :=
    List.mem_range.mp (before.subset (dropped.mem_iff.mpr List.mem_cons_self))
  have once : (ticket :: t.accounted).count ticket ≤ 1 := by
    calc (ticket :: t.accounted).count ticket = s.accounted.count ticket :=
          (dropped.count_eq ticket).symm
      _ ≤ (List.range s.issued).count ticket := before.count_le ticket
      _ = 1 := by rw [List.count_range, if_pos inside]
  rw [List.count_cons_self] at once
  intro kept
  have found := (noLostTask_iff t).mp kept ticket (by rw [sameIssued]; exact inside)
  omega

/-! ### Steps -/

/-- A step that leaves the list and the history alone, and returns from `loop()` only with an
empty list. -/
structure Quiet (s t : EventLoop Producer) : Prop where
  functionList : t.functionList = s.functionList
  issued : t.issued = s.issued
  executed : t.executed = s.executed
  quitAt : t.quitAt = s.quitAt
  returned : t.point = .returned → s.point = .returned ∨ s.functionList = []

theorem accounted_of_quiet (s t : EventLoop Producer) (quiet : Quiet s t) :
    t.accounted = s.accounted := by
  rw [accounted, accounted, waiting, waiting, quiet.functionList, quiet.executed]

theorem accounted_enqueue (s : EventLoop Producer) (producer : Producer)
    (waking : List Producer) :
    ({ s with
        functionList := s.functionList ++ [(producer, s.issued)]
        issued := s.issued + 1
        waking := waking } : EventLoop Producer).accounted.Perm (s.issued :: s.accounted) := by
  simp only [accounted, waiting, List.map_append, List.map_cons, List.map_nil,
    List.append_assoc, List.singleton_append]
  exact List.perm_middle

variable [DecidableEq Producer]

/-- `wakeup`: write the eventfd unless the loop is known to be awake. -/
def wakeup (s : EventLoop Producer) (producer : Producer) : EventLoop Producer :=
  { s with
    waking := s.waking.erase producer
    wakeCounter :=
      if !s.eventHandling && !s.pendingFunctions then s.wakeCounter + 1 else s.wakeCounter }

/-- One step. A functor that is running, or a handler, may queue functors through `enqueue` and
may run the body of `quit` through `quitRuns`. -/
def step (s : EventLoop Producer) : LoopAction Producer → Option (EventLoop Producer)
  | .enqueue producer => some { s with
      functionList := s.functionList ++ [(producer, s.issued)]
      issued := s.issued + 1
      waking := s.waking ++ [producer] }
  | .wakeup producer => if producer ∈ s.waking then some (s.wakeup producer) else none
  | .enterLoop =>
    match s.point with
    | .idle => some { s with point := .loopTest, looping := true }
    | _ => none
  | .testLooping =>
    match s.point with
    | .loopTest => some { s with point := if s.looping then .polling else .finalTest }
    | _ => none
  | .pollReturns =>
    match s.point with
    | .polling => some { s with point := .handling, eventHandling := true }
    | _ => none
  | .readWakeFd =>
    match s.point with
    | .handling => some { s with wakeCounter := 0 }
    | _ => none
  | .quitRuns =>
    match s.point with
    | .handling => some { s with looping := false, quitAt := some s.issued }
    | .running _ _ => some { s with looping := false, quitAt := some s.issued }
    | _ => none
  | .handlersDone =>
    match s.point with
    | .handling => some { s with point := .handled, eventHandling := false }
    | _ => none
  | .startDrain =>
    match s.point with
    | .handled => some { s with point := .draining false 0, pendingFunctions := true }
    | _ => none
  | .tryDequeue producer =>
    match s.point, dequeue producer s.functionList with
    | .draining final finishNum, some (ticket, rest) =>
      -- `try_dequeue` has taken the functor before `FinishNum<100` is looked at
      if finishNum < batchLimit then some { s with
        functionList := rest
        executed := s.executed ++ [ticket]
        point := .running final finishNum }
      else some { s with functionList := rest, point := .drained final }
    | _, _ => none
  | .tryDequeueFails =>
    match s.point, s.functionList with
    | .draining final _, [] => some { s with point := .drained final }
    | _, _ => none
  | .functorDone =>
    match s.point with
    | .running final finishNum => some { s with point := .draining final (finishNum + 1) }
    | _ => none
  | .endDrain =>
    match s.point with
    | .drained final => some { s with
        point := if final then .finalTest else .loopTest
        pendingFunctions := false }
    | _ => none
  | .testSize =>
    match s.point with
    | .finalTest =>
      if s.functionList.length = 0 then some { s with point := .returned }
      else some { s with point := .draining true 0, pendingFunctions := true }
    | _ => none

/-- The loop does not take a functor off the list with its batch full. -/
def BatchHasRoom (s : EventLoop Producer) : LoopAction Producer → Prop
  | .tryDequeue producer => ∀ final finishNum, s.point = .draining final finishNum →
      (dequeue producer s.functionList).isSome → finishNum < batchLimit
  | _ => True

/-! ### What one step does to the list -/

/-- Every step, one constructor for each branch that is taken. -/
inductive Moved (s : EventLoop Producer) : LoopAction Producer → EventLoop Producer → Prop
  | enqueue (producer : Producer) : Moved s (.enqueue producer)
      { s with
        functionList := s.functionList ++ [(producer, s.issued)]
        issued := s.issued + 1
        waking := s.waking ++ [producer] }
  | wakeup (producer : Producer) (waits : producer ∈ s.waking) :
      Moved s (.wakeup producer) (s.wakeup producer)
  | enterLoop (place : s.point = .idle) :
      Moved s .enterLoop { s with point := .loopTest, looping := true }
  | testLooping (place : s.point = .loopTest) :
      Moved s .testLooping { s with point := if s.looping then .polling else .finalTest }
  | pollReturns (place : s.point = .polling) :
      Moved s .pollReturns { s with point := .handling, eventHandling := true }
  | readWakeFd (place : s.point = .handling) : Moved s .readWakeFd { s with wakeCounter := 0 }
  | quitRuns (place : s.point = .handling ∨ ∃ final finishNum, s.point = .running final finishNum) :
      Moved s .quitRuns { s with looping := false, quitAt := some s.issued }
  | handlersDone (place : s.point = .handling) :
      Moved s .handlersDone { s with point := .handled, eventHandling := false }
  | startDrain (place : s.point = .handled) :
      Moved s .startDrain { s with point := .draining false 0, pendingFunctions := true }
  | start (producer : Producer) (final : Bool) (finishNum ticket : Nat)
      (rest : List (Producer × Nat)) (place : s.point = .draining final finishNum)
      (found : dequeue producer s.functionList = some (ticket, rest))
      (room : finishNum < batchLimit) :
      Moved s (.tryDequeue producer)
        { s with
          functionList := rest
          executed := s.executed ++ [ticket]
          point := .running final finishNum }
  | drop (producer : Producer) (final : Bool) (finishNum ticket : Nat)
      (rest : List (Producer × Nat)) (place : s.point = .draining final finishNum)
      (found : dequeue producer s.functionList = some (ticket, rest))
      (full : batchLimit ≤ finishNum) :
      Moved s (.tryDequeue producer) { s with functionList := rest, point := .drained final }
  | tryDequeueFails (final : Bool) (finishNum : Nat) (place : s.point = .draining final finishNum)
      (empty : s.functionList = []) :
      Moved s .tryDequeueFails { s with point := .drained final }
  | functorDone (final : Bool) (finishNum : Nat) (place : s.point = .running final finishNum) :
      Moved s .functorDone { s with point := .draining final (finishNum + 1) }
  | endDrain (final : Bool) (place : s.point = .drained final) :
      Moved s .endDrain
        { s with point := if final then .finalTest else .loopTest, pendingFunctions := false }
  | leave (place : s.point = .finalTest) (empty : s.functionList = []) :
      Moved s .testSize { s with point := .returned }
  | drainAgain (place : s.point = .finalTest) (more : s.functionList ≠ []) :
      Moved s .testSize { s with point := .draining true 0, pendingFunctions := true }

theorem moved_of_step (s t : EventLoop Producer) (action : LoopAction Producer)
    (taken : s.step action = some t) : Moved s action t := by
  cases action with
  | enqueue producer =>
    obtain rfl := Option.some.inj taken
    exact .enqueue producer
  | wakeup producer =>
    simp only [step] at taken
    split at taken
    · obtain rfl := Option.some.inj taken
      exact .wakeup producer ‹_›
    · cases taken
  | tryDequeue producer =>
    simp only [step] at taken
    split at taken
    · rename_i final finishNum ticket rest place found
      split at taken
      · rename_i room
        obtain rfl := Option.some.inj taken
        exact .start producer final finishNum ticket rest place found room
      · rename_i full
        obtain rfl := Option.some.inj taken
        exact .drop producer final finishNum ticket rest place found (not_lt.mp full)
    · cases taken
  | tryDequeueFails =>
    simp only [step] at taken
    split at taken
    · rename_i final finishNum place empty
      obtain rfl := Option.some.inj taken
      exact .tryDequeueFails final finishNum place empty
    · cases taken
  | quitRuns =>
    simp only [step] at taken
    split at taken
    · obtain rfl := Option.some.inj taken
      exact .quitRuns (.inl ‹_›)
    · obtain rfl := Option.some.inj taken
      exact .quitRuns (.inr ⟨_, _, ‹_›⟩)
    · cases taken
  | functorDone =>
    simp only [step] at taken
    split at taken
    · rename_i final finishNum place
      obtain rfl := Option.some.inj taken
      exact .functorDone final finishNum place
    · cases taken
  | endDrain =>
    simp only [step] at taken
    split at taken
    · rename_i final place
      obtain rfl := Option.some.inj taken
      exact .endDrain final place
    · cases taken
  | testSize =>
    simp only [step] at taken
    split at taken
    · rename_i place
      split at taken
      · rename_i empty
        obtain rfl := Option.some.inj taken
        exact .leave place (List.length_eq_zero_iff.mp empty)
      · rename_i more
        obtain rfl := Option.some.inj taken
        exact .drainAgain place (mt List.length_eq_zero_iff.mpr more)
    · cases taken
  | enterLoop | testLooping | pollReturns | readWakeFd | handlersDone | startDrain =>
    simp only [step] at taken
    split at taken
    · rename_i place
      obtain rfl := Option.some.inj taken
      constructor
      exact place
    · cases taken

/-- Everything a step can do: leave the list alone, queue a functor, run the body of `quit`,
start a functor, or drop one. -/
theorem step_cases (s t : EventLoop Producer) (action : LoopAction Producer)
    (taken : s.step action = some t) :
    Quiet s t ∨
    (∃ producer, action = .enqueue producer ∧ t = { s with
      functionList := s.functionList ++ [(producer, s.issued)]
      issued := s.issued + 1
      waking := s.waking ++ [producer] }) ∨
    (s.point ≠ .returned ∧ t = { s with looping := false, quitAt := some s.issued }) ∨
    (∃ producer final finishNum ticket rest, action = .tryDequeue producer ∧
      s.point = .draining final finishNum ∧
      dequeue producer s.functionList = some (ticket, rest) ∧
      ((finishNum < batchLimit ∧ t = { s with
          functionList := rest
          executed := s.executed ++ [ticket]
          point := .running final finishNum }) ∨
        (batchLimit ≤ finishNum ∧
          t = { s with functionList := rest, point := .drained final }))) := by
  cases moved_of_step s t action taken with
  | enqueue producer => exact .inr (.inl ⟨producer, rfl, rfl⟩)
  | start producer final finishNum ticket rest place found room =>
    exact .inr (.inr (.inr ⟨producer, final, finishNum, ticket, rest, rfl, place, found,
      .inl ⟨room, rfl⟩⟩))
  | drop producer final finishNum ticket rest place found full =>
    exact .inr (.inr (.inr ⟨producer, final, finishNum, ticket, rest, rfl, place, found,
      .inr ⟨full, rfl⟩⟩))
  | quitRuns place =>
    refine .inr (.inr (.inl ⟨fun back => ?_, rfl⟩))
    rcases place with place | ⟨_, _, place⟩ <;> cases back.symm.trans place
  | leave place empty => exact .inl ⟨rfl, rfl, rfl, rfl, fun _ => .inr empty⟩
  | wakeup | readWakeFd => exact .inl ⟨rfl, rfl, rfl, rfl, Or.inl⟩
  | testLooping | endDrain =>
    refine .inl ⟨rfl, rfl, rfl, rfl, fun back => ?_⟩
    simp only [] at back
    split at back <;> cases back
  | enterLoop | pollReturns | handlersDone | startDrain | tryDequeueFails | functorDone
  | drainAgain =>
    exact .inl ⟨rfl, rfl, rfl, rfl, fun back => by cases back⟩

/-- What was accounted for before a functor is taken off the list, with its ticket in front. -/
theorem accounted_dequeue (s : EventLoop Producer) (producer : Producer)
    (ticket : Nat) (rest : List (Producer × Nat))
    (found : dequeue producer s.functionList = some (ticket, rest)) :
    s.accounted.Perm (ticket :: (rest.map Prod.snd ++ s.executed)) :=
  (dequeue_items_perm _ _ _ _ found).append_right s.executed

/-- A functor that is started moves from the list to the functors that have run. -/
theorem accounted_run (s : EventLoop Producer) (producer : Producer) (ticket : Nat)
    (rest : List (Producer × Nat)) (point : LoopPoint)
    (found : dequeue producer s.functionList = some (ticket, rest)) :
    ({ s with
        functionList := rest
        executed := s.executed ++ [ticket]
        point := point } : EventLoop Producer).accounted.Perm s.accounted := by
  refine List.Perm.trans ?_ (accounted_dequeue s producer ticket rest found).symm
  show (rest.map Prod.snd ++ (s.executed ++ [ticket])).Perm _
  rw [← List.append_assoc]
  exact List.perm_append_singleton _ _

/-- Every step keeps the books free of duplicates. -/
theorem step_noDuplicate (s t : EventLoop Producer) (action : LoopAction Producer)
    (taken : s.step action = some t) (before : NoDuplicate s) : NoDuplicate t := by
  rcases step_cases s t action taken with quiet | ⟨producer, -, rfl⟩ | ⟨-, rfl⟩ |
    ⟨producer, final, finishNum, ticket, rest, -, -, found, ⟨-, rfl⟩ | ⟨-, rfl⟩⟩
  · rw [NoDuplicate, accounted_of_quiet s t quiet, quiet.issued]
    exact before
  · refine (accounted_enqueue s producer _).subperm.trans ?_
    rw [List.range_succ]
    exact ((List.subperm_cons s.issued).mpr before).trans (List.perm_append_singleton _ _).symm.subperm
  · exact before
  · exact (accounted_run s producer ticket rest _ found).subperm.trans before
  · refine List.Subperm.trans ?_ before
    exact (List.sublist_cons_self _ _).subperm.trans
      (accounted_dequeue s producer ticket rest found).symm.subperm

/-- A step that does not take a functor off with its batch full keeps the books complete. -/
theorem step_complete (s t : EventLoop Producer) (action : LoopAction Producer)
    (before : Complete s) (room : BatchHasRoom s action) (taken : s.step action = some t) :
    Complete t := by
  rcases step_cases s t action taken with quiet | ⟨producer, -, rfl⟩ | ⟨open_, rfl⟩ |
    ⟨producer, final, finishNum, ticket, rest, rfl, place, found, ⟨-, rfl⟩ | ⟨full, -⟩⟩
  · refine ⟨?_, ?_, fun back count at_ ticket member => ?_⟩
    · rw [accounted_of_quiet s t quiet, quiet.issued]
      exact before.perm
    · rw [quiet.quitAt, quiet.issued]
      exact before.quit_le
    · rw [quiet.quitAt] at at_
      rw [waiting, quiet.functionList] at member
      rcases quiet.returned back with already | empty
      · exact before.drained already count at_ ticket member
      · simp [empty] at member
  · refine ⟨?_, fun count at_ => Nat.le_succ_of_le (before.quit_le count at_),
      fun back count at_ ticket member => ?_⟩
    · refine (accounted_enqueue s producer _).trans ?_
      rw [List.range_succ]
      exact (before.perm.cons s.issued).trans (List.perm_append_singleton _ _).symm
    · simp only [waiting, List.map_append, List.map_cons, List.map_nil, List.mem_append,
        List.mem_singleton] at member
      rcases member with old | rfl
      · exact before.drained back count at_ ticket old
      · exact before.quit_le count at_
  · refine ⟨before.perm, fun count at_ => ?_, fun back => absurd back open_⟩
    obtain rfl : s.issued = count := Option.some.inj at_
    exact le_refl _
  · exact ⟨(accounted_run s producer ticket rest _ found).trans before.perm, before.quit_le,
      fun back => by cases back⟩
  · have below := room final finishNum place (by rw [found]; rfl)
    omega

/-- A functor taken off with its batch full is not accounted for any more. -/
theorem step_of_full (s : EventLoop Producer) (action : LoopAction Producer)
    (full : ¬ BatchHasRoom s action) :
    ∃ t ticket, s.step action = some t ∧ t.issued = s.issued ∧
      s.accounted.Perm (ticket :: t.accounted) := by
  cases action with
  | tryDequeue producer =>
    simp only [BatchHasRoom, not_forall, Option.isSome_iff_exists] at full
    obtain ⟨final, finishNum, place, ⟨⟨ticket, rest⟩, found⟩, above⟩ := full
    refine ⟨{ s with functionList := rest, point := .drained final }, ticket, ?_, rfl,
      accounted_dequeue s producer ticket rest found⟩
    simp only [step, place, found, if_neg above]
  | _ => exact absurd trivial full

/-! ### The main theorem -/

/-- Along a schedule, no queued functor is lost or run twice, and `loop()` returns only after
every functor queued before the quit functor ran has run. -/
def KeepsTasks (actions : List (LoopAction Producer)) : Prop :=
  ∀ before, before <+: actions → ∀ s, Run (StepOf step) initial before s →
    NoLostTask s ∧ QuitDrained s

/-- The task queue keeps its tasks along a schedule if and only if the loop never takes a
functor off the list with its batch full. -/
theorem keepsTasks_iff (actions : List (LoopAction Producer)) :
    KeepsTasks actions ↔ Meets (StepOf step) BatchHasRoom initial actions := by
  constructor
  · intro keeps before action after split s run
    by_contra full
    obtain ⟨t, ticket, taken, sameIssued, dropped⟩ := step_of_full s action full
    have noDuplicate : NoDuplicate s := run.invariant_of_step initial_noDuplicate
      fun state action next holds taken => step_noDuplicate state next action taken holds
    refine not_noLostTask s t ticket noDuplicate sameIssued dropped ?_
    refine (keeps (before ++ [action]) ⟨after, ?_⟩ t (run.snoc taken)).1
    rw [split, List.append_assoc, List.singleton_append]
  · rintro meets before ⟨after, rfl⟩ s run
    have complete : Complete s := run.invariant initial_complete
      (fun state action next => step_complete state next action) (meets.of_append _ _)
    exact ⟨complete.noLostTask s, complete.quitDrained s⟩

/-- A loop that has run a full batch of a hundred functors and finds one more. -/
def overfullBatch : List (LoopAction Unit) :=
  .enterLoop :: (List.replicate 101 (.enqueue ()) ++
    [.testLooping, .pollReturns, .handlersDone, .startDrain] ++
    (List.replicate 100 [.tryDequeue (), .functorDone]).flatten ++ [.tryDequeue ()])

/-- The functor that finds the batch full is neither on the list nor run. -/
theorem keepsTasks_fails : ¬ KeepsTasks overfullBatch := by
  intro keeps
  have lost : ((exec step initial overfullBatch).map fun s => (s.issued, s.accounted.count 100)) =
      some (101, 0) := by
    decide +kernel
  obtain ⟨s, executed, final⟩ := Option.map_eq_some_iff.mp lost
  obtain ⟨issued, gone⟩ := Prod.mk.inj final
  have kept := (keeps _ List.prefix_rfl s (run_of_exec executed)).1
  have found := (noLostTask_iff s).mp kept 100 (by omega)
  omega

end EventLoop

end YYNet
