/-
This file proves when a pool with one worker serves first come, first served.

A submitted task goes to the local queue of the worker, or to the global queue
when the local queue is full. The global queue hands out the task that arrived
first, and the worker prefers its local queue. So a task that found room in the
local queue again overtakes the tasks that were sent to the global queue before
it. The other way round, a worker that has found its local queue empty looks at
the global queue next, and takes from it although tasks that arrived earlier
have reached the local queue in the meantime.

Where neither happens, the tasks start in the order in which they were
submitted.
-/

import YYNet.Lib.Arrivals
import YYNet.ThreadPool.Conserve

namespace YYNet

open Checked Transition Arrivals

/-- A call of `submit`, or none. -/
def SubmitPoint.ofSubmit : SubmitPoint → Prop
  | idle => True
  | registering call _ => call = .submit
  | checking call _ => call = .submit
  | locking call _ => call = .submit
  | trying call _ _ => call = .submit
  | pushing call _ _ => call = .submit
  | enqueueing call _ => call = .submit

namespace ThreadPool

/-! ### The order of the starts -/

/-- The tasks whose functions were called are the first that were submitted, in the same order. -/
def FirstComeFirstServed (s : ThreadPool 1) : Prop := s.history.ran <:+ s.history.submitted

/-- One thread calls `submit`, and nobody anything else, and each task arrives later than the
ones before. -/
def SubmitsInTurn (submitter : Nat) (s : ThreadPool 1) : PoolAction 1 → Prop
  | .makeTask thread call rank => thread = submitter ∧ call = .submit ∧
      ∀ task ∈ List.range s.counter, (s.task (task + 1)).rank < rank
  | .addDependency _ _ => False
  | _ => True

/-- The worker takes no task while one that arrived earlier is in its other queue. -/
def TakesEarliest (s : ThreadPool 1) : PoolAction 1 → Prop
  | .popFront worker => ∀ task ∈ (s.worker worker).localQueue.head?,
      ∀ other ∈ s.globalQueue, (s.task task).rank < (s.task other).rank
  | .dequeueTask worker top => s.IsTop top →
      ∀ other ∈ (s.worker worker).localQueue, (s.task top).rank < (s.task other).rank
  | _ => True

/-! ### What holds in every state -/

/-- One thread submits, no task has dependents, and the waiting tasks are behind the ones that
were taken. -/
structure Serving (submitter : Nat) (s : ThreadPool 1) : Prop where
  others : ∀ thread, thread ≠ submitter → s.thread thread = .idle
  submits : (s.thread submitter).ofSubmit
  current : ∀ task, (s.thread submitter).task = some task →
    task = s.counter ∧ 1 ≤ task ∧ ∀ other ∈ s.history.submitted, other < task
  known : ∀ task ∈ s.history.submitted, 1 ≤ task ∧ task ≤ s.counter
  plain : ∀ task, (s.task task).status = .pending ∧ (s.task task).dependents = []
  unlinked : s.adding = none
  alone : ∀ worker, (s.worker worker).point.dependent = none
  ranked : ∀ first second, 1 ≤ first → first < second → second ≤ s.counter →
    (s.task first).rank < (s.task second).rank
  waiting : ∀ worker, Arrivals.Waiting s.history.submitted
    ((s.worker worker).point.held.toList ++ s.history.ran) (s.worker worker).localQueue
    s.globalQueue

variable {submitter : Nat} {s t : ThreadPool 1}

theorem initial_serving (submitter : Nat) : Serving submitter (initial 1) where
  others _ _ := rfl
  submits := trivial
  current := nofun
  known := nofun
  plain _ := ⟨rfl, rfl⟩
  unlinked := rfl
  alone _ := rfl
  ranked first second positive less small := by
    have small : second ≤ 0 := small
    omega
  waiting _ := waiting_nil

theorem Serving.firstCome (serving : Serving submitter s) : FirstComeFirstServed s :=
  (List.suffix_append _ _).trans (serving.waiting (Fin.last 0)).taken_suffix

namespace Serving

variable (serving : Serving submitter s)
include serving

/-- Only the submitter is in a call. -/
theorem thread_eq {thread : Nat} (busy : s.thread thread ≠ .idle) : thread = submitter := by
  by_contra other
  exact busy (serving.others thread other)

/-- The ranks of waiting tasks are in the order of their ids. -/
theorem lt_of_rank_lt {first second : Nat} (worker : Fin 1)
    (firstWaits : first ∈ (s.worker worker).localQueue ++ s.globalQueue)
    (secondWaits : second ∈ (s.worker worker).localQueue ++ s.globalQueue)
    (earlier : (s.task first).rank < (s.task second).rank) : first < second := by
  have firstKnown := serving.known first ((serving.waiting worker).arrived_of_waits firstWaits)
  have secondKnown := serving.known second ((serving.waiting worker).arrived_of_waits secondWaits)
  rcases lt_trichotomy first second with less | same | greater
  · exact less
  · exact absurd earlier (same ▸ lt_irrefl _)
  · exact absurd earlier
      (not_lt_of_gt (serving.ranked second first secondKnown.1 greater firstKnown.2))

theorem le_of_rank_le {first second : Nat} (worker : Fin 1)
    (firstWaits : first ∈ (s.worker worker).localQueue ++ s.globalQueue)
    (secondWaits : second ∈ (s.worker worker).localQueue ++ s.globalQueue)
    (notLater : (s.task first).rank ≤ (s.task second).rank) : first ≤ second := by
  by_contra later
  have firstKnown := serving.known first ((serving.waiting worker).arrived_of_waits firstWaits)
  have secondKnown := serving.known second ((serving.waiting worker).arrived_of_waits secondWaits)
  have less := serving.ranked second first secondKnown.1 (not_le.mp later) firstKnown.2
  exact absurd notLater (not_le_of_gt less)

/-! ### Steps of the submitter -/

/-- The submitter moves within a call. -/
theorem moveThread (point : SubmitPoint) (ofSubmit : point.ofSubmit)
    (sameTask : point.task = (s.thread submitter).task)
    (thread : t.thread = Function.update s.thread submitter point)
    (counter : t.counter = s.counter) (task : t.task = s.task) (adding : t.adding = s.adding)
    (globalQueue : t.globalQueue = s.globalQueue) (worker : t.worker = s.worker)
    (history : t.history = s.history) : Serving submitter t where
  others other isOther := by
    rw [thread, Function.update_of_ne isOther]
    exact serving.others other isOther
  submits := by
    rw [thread, Function.update_self]
    exact ofSubmit
  current := by
    rw [thread, Function.update_self, sameTask, counter, history]
    exact serving.current
  known := by
    rw [counter, history]
    exact serving.known
  plain := by
    rw [task]
    exact serving.plain
  unlinked := adding.trans serving.unlinked
  alone := by
    rw [worker]
    exact serving.alone
  ranked := by
    rw [counter, task]
    exact serving.ranked
  waiting := by
    rw [history, worker, globalQueue]
    exact serving.waiting

/-- The task of the call is pushed onto a queue, and the call returns. -/
theorem submit {new : Nat} (isNew : (s.thread submitter).task = some new)
    (thread : t.thread = Function.update s.thread submitter .idle)
    (counter : t.counter = s.counter) (task : t.task = s.task) (adding : t.adding = s.adding)
    (submitted : t.history.submitted = new :: s.history.submitted)
    (points : ∀ worker, (t.worker worker).point = (s.worker worker).point)
    (waiting : ∀ worker, Arrivals.Waiting (new :: s.history.submitted)
      ((s.worker worker).point.held.toList ++ t.history.ran) (t.worker worker).localQueue
      t.globalQueue) : Serving submitter t where
  others other isOther := by
    rw [thread, Function.update_of_ne isOther]
    exact serving.others other isOther
  submits := by
    rw [thread, Function.update_self]
    trivial
  current := by
    rw [thread, Function.update_self]
    nofun
  known := by
    obtain ⟨isCounter, positive, -⟩ := serving.current new isNew
    rw [submitted, counter]
    exact List.forall_mem_cons.mpr ⟨⟨positive, isCounter.le⟩, serving.known⟩
  plain := by
    rw [task]
    exact serving.plain
  unlinked := adding.trans serving.unlinked
  alone worker := by
    rw [points]
    exact serving.alone worker
  ranked := by
    rw [counter, task]
    exact serving.ranked
  waiting worker := by
    rw [submitted, points]
    exact waiting worker

/-- A new task is made. -/
theorem make {rank : Int}
    (later : ∀ task ∈ List.range s.counter, (s.task (task + 1)).rank < rank) :
    Serving submitter
      { (s.setThread submitter (.registering .submit (s.counter + 1))).setTask (s.counter + 1)
          { rank := rank, status := .pending } with
        counter := s.counter + 1 } where
  others other isOther := by
    show Function.update s.thread submitter _ other = _
    rw [Function.update_of_ne isOther]
    exact serving.others other isOther
  submits := by
    show SubmitPoint.ofSubmit (Function.update s.thread submitter _ submitter)
    rw [Function.update_self]
    rfl
  current task isCurrent := by
    have isNew : SubmitPoint.task (Function.update s.thread submitter
      (.registering .submit (s.counter + 1)) submitter) = some task := isCurrent
    rw [Function.update_self] at isNew
    obtain rfl := Option.some.inj isNew
    refine ⟨rfl, Nat.succ_le_succ (Nat.zero_le _), fun other submitted => ?_⟩
    exact Nat.lt_succ_of_le (serving.known other submitted).2
  known task submitted :=
    ⟨(serving.known task submitted).1, (serving.known task submitted).2.trans (Nat.le_succ _)⟩
  plain task := by
    show (Function.update s.task (s.counter + 1) _ task).status = _ ∧
      (Function.update s.task (s.counter + 1) _ task).dependents = _
    by_cases isNew : task = s.counter + 1
    · rw [isNew, Function.update_self]
      exact ⟨rfl, rfl⟩
    · rw [Function.update_of_ne isNew]
      exact serving.plain task
  unlinked := serving.unlinked
  alone := serving.alone
  ranked first second positive less small := by
    show (Function.update s.task (s.counter + 1) _ first).rank <
      (Function.update s.task (s.counter + 1) _ second).rank
    have small : second ≤ s.counter + 1 := small
    rw [Function.update_of_ne (show first ≠ s.counter + 1 by omega)]
    by_cases isNew : second = s.counter + 1
    · rw [isNew, Function.update_self]
      have before := later (first - 1) (List.mem_range.mpr (by omega))
      rwa [Nat.sub_add_cancel positive] at before
    · rw [Function.update_of_ne isNew]
      exact serving.ranked first second positive less (by omega)
  waiting := serving.waiting

/-! ### Steps of the worker -/

/-- The worker moves, and what it takes was the earliest. -/
theorem moveWorker (worker : Fin 1) (thread : t.thread = s.thread)
    (counter : t.counter = s.counter) (task : t.task = s.task) (adding : t.adding = s.adding)
    (submitted : t.history.submitted = s.history.submitted)
    (alone : (t.worker worker).point.dependent = none)
    (waiting : Arrivals.Waiting s.history.submitted
      ((t.worker worker).point.held.toList ++ t.history.ran) (t.worker worker).localQueue
      t.globalQueue) : Serving submitter t where
  others := by
    rw [thread]
    exact serving.others
  submits := by
    rw [thread]
    exact serving.submits
  current := by
    rw [thread, counter, submitted]
    exact serving.current
  known := by
    rw [counter, submitted]
    exact serving.known
  plain := by
    rw [task]
    exact serving.plain
  unlinked := adding.trans serving.unlinked
  alone other := by
    rw [Subsingleton.elim other worker]
    exact alone
  ranked := by
    rw [counter, task]
    exact serving.ranked
  waiting other := by
    rw [Subsingleton.elim other worker, submitted]
    exact waiting

/-- The worker moves between two points at which it holds no task. -/
theorem moveOn (worker : Fin 1) (point : WorkerPoint)
    (alone : point.dependent = none) (holdsNone : point.held = none)
    (heldNone : (s.worker worker).point.held = none)
    (thread : t.thread = s.thread) (counter : t.counter = s.counter) (task : t.task = s.task)
    (adding : t.adding = s.adding) (submitted : t.history.submitted = s.history.submitted)
    (ran : t.history.ran = s.history.ran) (globalQueue : t.globalQueue = s.globalQueue)
    (moved : t.worker = (s.setPoint worker point).worker) : Serving submitter t := by
  have isPoint : (t.worker worker).point = point := by
    rw [moved, setPoint_point, if_pos rfl]
  refine serving.moveWorker worker thread counter task adding submitted (isPoint ▸ alone) ?_
  have waiting := serving.waiting worker
  rw [heldNone] at waiting
  rw [isPoint, holdsNone, ran, globalQueue, moved, setPoint_localQueue]
  exact waiting

end Serving

/-! ### Every step -/

theorem moved_serving (build : Build) (address : Nat → Nat) (s t : ThreadPool 1)
    (action : PoolAction 1) (serving : Serving submitter s)
    (inTurn : SubmitsInTurn submitter s action) (earliest : TakesEarliest s action)
    (moved : Moved build address s action t) : Serving submitter t := by
  have isSubmitter {thread : Nat} {point : SubmitPoint} (isPoint : s.thread thread = point)
      (busy : point ≠ .idle) : thread = submitter :=
    serving.thread_eq (isPoint ▸ busy)
  have isSubmit {point : SubmitPoint} (isPoint : s.thread submitter = point) : point.ofSubmit :=
    isPoint ▸ serving.submits
  have isAlone {worker : Fin 1} {point : WorkerPoint} (isPoint : (s.worker worker).point = point) :
      point.dependent = none := isPoint ▸ serving.alone worker
  have noDependent (task : Nat) (passed : Option TaskPtr) :
      nextDependent (s.task task).dependents passed = none := by
    rw [(serving.plain task).2]
    cases passed <;> rfl
  cases moved with
  | make thread call rank idle =>
    obtain ⟨rfl, rfl, later⟩ := inTurn
    exact serving.make later
  | register thread call task point unlocked =>
    obtain rfl := isSubmitter point (by simp)
    obtain rfl : call = .submit := isSubmit point
    exact serving.moveThread (.checking .submit task) rfl (by rw [point]; rfl)
      rfl rfl rfl rfl rfl rfl rfl
  | ready thread call task point ready =>
    obtain rfl := isSubmitter point (by simp)
    obtain rfl : call = .submit := isSubmit point
    exact serving.moveThread (.locking .submit task) rfl (by rw [point]; rfl)
      rfl rfl rfl rfl rfl rfl rfl
  | notReady thread call task point waits =>
    rw [BaseTask.isReady, (serving.plain task).1] at waits
    cases waits
  | lockWorkers thread call task point unlocked =>
    obtain rfl := isSubmitter point (by simp)
    obtain rfl : call = .submit := isSubmit point
    exact serving.moveThread (.trying .submit task 0) rfl (by rw [point]; rfl)
      rfl rfl rfl rfl rfl rfl rfl
  | full thread call task index point inside atCapacity =>
    obtain rfl := isSubmitter point (by simp)
    obtain rfl : call = .submit := isSubmit point
    exact serving.moveThread (.trying .submit task (index + 1)) rfl
      (by rw [point]; rfl) rfl rfl rfl rfl rfl rfl rfl
  | room thread call task index point inside below =>
    obtain rfl := isSubmitter point (by simp)
    obtain rfl : call = .submit := isSubmit point
    exact serving.moveThread (.pushing .submit task index) rfl
      (by rw [point]; rfl) rfl rfl rfl rfl rfl rfl rfl
  | allFull thread call task index point behind =>
    obtain rfl := isSubmitter point (by simp)
    obtain rfl : call = .submit := isSubmit point
    exact serving.moveThread (.enqueueing .submit task) rfl (by rw [point]; rfl)
      rfl rfl rfl rfl rfl rfl rfl
  | push thread call task index point inside =>
    obtain rfl := isSubmitter point (by simp)
    obtain rfl : call = .submit := isSubmit point
    have isNew : (s.thread thread).task = some task := by rw [point]; rfl
    refine serving.submit isNew rfl rfl rfl rfl rfl
      (fun worker => setLocalQueue_point s ⟨index, inside⟩ worker _) fun worker => ?_
    obtain rfl : worker = ⟨index, inside⟩ := Subsingleton.elim _ _
    have joined := (serving.waiting ⟨index, inside⟩).joinQueue (serving.current task isNew).2.2
    have queue := setLocalQueue_localQueue s ⟨index, inside⟩ ⟨index, inside⟩
      ((s.worker ⟨index, inside⟩).localQueue ++ [task])
    rw [if_pos rfl] at queue
    rw [← queue] at joined
    exact joined
  | enqueueGlobal thread call task point =>
    obtain rfl := isSubmitter point (by simp)
    obtain rfl : call = .submit := isSubmit point
    have isNew : (s.thread thread).task = some task := by rw [point]; rfl
    exact serving.submit isNew rfl rfl rfl rfl rfl (fun _ => rfl)
      fun worker => (serving.waiting worker).joinBag (serving.current task isNew).2.2
  | count | nullTask => exact inTurn.elim
  | link task dependency locked | nullDependency task dependency locked =>
    rw [serving.unlinked] at locked
    cases locked
  | pop worker task rest point queue =>
    have isPoint : (((s.setLocalQueue worker rest).setPoint worker (.holding task)).worker
        worker).point = .holding task := by rw [setPoint_point, if_pos rfl]
    have isQueue : (((s.setLocalQueue worker rest).setPoint worker (.holding task)).worker
        worker).localQueue = rest := by
      rw [setPoint_localQueue, setLocalQueue_localQueue, if_pos rfl]
    have waiting := serving.waiting worker
    rw [point, queue] at waiting
    refine serving.moveWorker worker rfl rfl rfl rfl rfl (congrArg WorkerPoint.dependent isPoint) ?_
    rw [isPoint, isQueue]
    refine waiting.takeFront fun other member => ?_
    refine serving.lt_of_rank_lt worker (by rw [queue]; exact List.mem_cons_self)
      (List.mem_append_right _ member) (earliest task ?_ other member)
    rw [queue]
    rfl
  | localEmpty worker point queue =>
    exact serving.moveOn worker (.dequeueing) rfl rfl (by rw [point]; rfl) rfl rfl rfl rfl
      rfl rfl rfl rfl
  | globalEmpty worker top point queue =>
    exact serving.moveOn worker (.lockingWorkers) rfl rfl (by rw [point]; rfl) rfl rfl rfl
      rfl rfl rfl rfl rfl
  | dequeue worker top point isTop =>
    have isPoint : ((s.setPoint worker (.holding top)).worker worker).point = .holding top := by
      rw [setPoint_point, if_pos rfl]
    have isQueue := setPoint_localQueue s worker worker (.holding top)
    have waiting := serving.waiting worker
    rw [point] at waiting
    have inBag := List.mem_append_right (s.worker worker).localQueue isTop.1
    refine serving.moveWorker worker rfl rfl rfl rfl rfl (congrArg WorkerPoint.dependent isPoint) ?_
    show Arrivals.Waiting _
      (((s.setPoint worker (.holding top)).worker worker).point.held.toList ++ _)
      ((s.setPoint worker (.holding top)).worker worker).localQueue _
    rw [isPoint, isQueue]
    refine waiting.takeBag isTop.1 (fun other member => ?_) fun other member => ?_
    · exact serving.le_of_rank_le worker inBag (List.mem_append_right _ member)
        (isTop.2 other member)
    · exact serving.lt_of_rank_lt worker inBag (List.mem_append_left _ member)
        (earliest isTop other member)
  | lockVictims worker point unlocked =>
    exact serving.moveOn worker (.stealing 0) rfl rfl (by rw [point]; rfl) rfl rfl rfl rfl
      rfl rfl rfl rfl
  | pass worker ownsLock victim point inside =>
    exact serving.moveOn worker (.stealing (victim + 1)) rfl rfl (by rw [point]; rfl) rfl
      rfl rfl rfl rfl rfl rfl rfl
  | steal worker victim task point other back =>
    exact absurd (Subsingleton.elim victim worker) other
  | nothing worker ownsLock victim point behind =>
    exact serving.moveOn worker (.waiting) rfl rfl (by rw [point]; rfl) rfl rfl rfl rfl
      rfl rfl rfl rfl
  | wait worker point =>
    exact serving.moveOn worker (.top) rfl rfl (by rw [point]; rfl) rfl rfl rfl rfl
      rfl rfl rfl rfl
  | run worker task point =>
    have isPoint : ((s.setPoint worker (.visiting task none)).worker worker).point =
        .visiting task none := by rw [setPoint_point, if_pos rfl]
    have isQueue := setPoint_localQueue s worker worker (.visiting task none)
    have waiting := serving.waiting worker
    rw [point] at waiting
    refine serving.moveWorker worker rfl rfl rfl rfl rfl (congrArg WorkerPoint.dependent isPoint) ?_
    show Arrivals.Waiting _
      (((s.setPoint worker (.visiting task none)).worker worker).point.held.toList ++ _)
      ((s.setPoint worker (.visiting task none)).worker worker).localQueue _
    rw [isPoint, isQueue]
    exact waiting
  | finish worker task passed point last =>
    exact serving.moveOn worker (.deregistering task) rfl rfl (by rw [point]; rfl) rfl rfl
      rfl rfl rfl rfl rfl rfl
  | visit worker task passed dependent point next =>
    rw [noDependent] at next
    cases next
  | decrement worker task dependent point | zero worker task dependent point
  | notZero worker task dependent point | store worker task dependent point
  | enqueue worker task dependent point =>
    have none := isAlone point
    cases none
  | deregister worker task point unlocked =>
    exact serving.moveOn worker (.top) rfl rfl (by rw [point]; rfl) rfl rfl rfl rfl
      rfl rfl rfl rfl

/-! ### First come, first served -/

/-- With one worker and one submitter, in every run in which the worker takes no task while one
that arrived earlier is in its other queue, the tasks start in the order in which they were
submitted. -/
theorem firstComeFirstServed_of_takesEarliest (build : Build) (address : Nat → Nat)
    (submitter : Nat) (actions : List (PoolAction 1)) (final : ThreadPool 1)
    (run : Run (StepOf (step build address)) (initial 1) actions final)
    (inTurn : Meets (StepOf (step build address)) (SubmitsInTurn submitter) (initial 1) actions)
    (earliest : Meets (StepOf (step build address)) TakesEarliest (initial 1) actions) :
    FirstComeFirstServed final := by
  have serving : Serving submitter final := by
    refine run.invariant (initial_serving submitter) (fun s action t holds met taken => ?_)
      (inTurn.and earliest)
    exact moved_serving build address s t action holds met.1 met.2
      (moved_of_step build address s t action taken).2
  exact serving.firstCome

instance submitsInTurnDecidable (submitter : Nat) (s : ThreadPool 1) (action : PoolAction 1) :
    Decidable (SubmitsInTurn submitter s action) :=
  match action with
  | .makeTask _ _ _ => inferInstanceAs (Decidable (_ ∧ _ ∧ ∀ task ∈ List.range _, _))
  | .addDependency _ _ => isFalse id
  | .insertDependent => isTrue trivial
  | .registerTask _ | .checkReady _ | .lockWorkers _ | .tryPushTask _
  | .emplaceBack _ | .enqueueGlobal _ | .popFront _ | .dequeueTask _ _ | .lockVictims _
  | .tryStealTask _ _ | .wait _ | .runFunction _ | .visit _ | .decrement _ | .reread _
  | .storeStatus _ | .enqueueTask _ | .deregisterTask _ => isTrue trivial

instance takesEarliestDecidable (s : ThreadPool 1) (action : PoolAction 1) :
    Decidable (TakesEarliest s action) :=
  match action with
  | .popFront worker =>
    inferInstanceAs (Decidable (∀ task ∈ (s.worker worker).localQueue.head?, _))
  | .dequeueTask _ _ => inferInstanceAs (Decidable (_ → _))
  | .insertDependent => isTrue trivial
  | .makeTask _ _ _ | .addDependency _ _ | .registerTask _ | .checkReady _ | .lockWorkers _
  | .tryPushTask _ | .emplaceBack _ | .enqueueGlobal _ | .lockVictims _
  | .tryStealTask _ _ | .wait _ | .runFunction _ | .visit _ | .decrement _ | .reread _
  | .storeStatus _ | .enqueueTask _ | .deregisterTask _ => isTrue trivial

/-- A task is submitted and finds room in the local queue. -/
def submitLocal (rank : Int) : List (PoolAction 1) :=
  [.makeTask 0 .submit rank, .registerTask 0, .checkReady 0, .lockWorkers 0, .tryPushTask 0,
    .emplaceBack 0]

/-- A task is submitted and the local queue is full. -/
def submitGlobal (rank : Int) : List (PoolAction 1) :=
  [.makeTask 0 .submit rank, .registerTask 0, .checkReady 0, .lockWorkers 0, .tryPushTask 0,
    .tryPushTask 0, .enqueueGlobal 0]

/-- The worker runs the task it holds. -/
def runHeld : List (PoolAction 1) :=
  [.runFunction (Fin.last 0), .visit (Fin.last 0), .deregisterTask (Fin.last 0)]

/-- The worker empties its local queue and then the global queue. -/
def overflowInOrder : List (PoolAction 1) :=
  submitLocal 1 ++ submitLocal 2 ++ submitGlobal 3 ++ .popFront (Fin.last 0) :: runHeld ++
    .popFront (Fin.last 0) :: runHeld ++ .popFront (Fin.last 0) ::
    .dequeueTask (Fin.last 0) 3 :: runHeld

theorem firstComeFirstServed_of_takesEarliest_overflow :
    ∃ final, Run (StepOf (step .debug id)) (initial 1) overflowInOrder final ∧
      final.history.ran = [3, 2, 1] ∧ FirstComeFirstServed final := by
  have done : ((exec (step .debug id) (initial 1) overflowInOrder).map fun s => s.history.ran) =
      some [3, 2, 1] := by
    decide
  obtain ⟨final, executed, ran⟩ := Option.map_eq_some_iff.mp done
  have run := run_of_exec executed
  refine ⟨final, run, ran, firstComeFirstServed_of_takesEarliest .debug id 0 _ final run
    (meets_of_checks ?_) (meets_of_checks ?_)⟩
  · decide
  · decide

/-- The fourth task finds room in the local queue while the third is in the global queue. -/
def overtaken : List (PoolAction 1) :=
  submitLocal 1 ++ submitLocal 2 ++ submitGlobal 3 ++ .popFront (Fin.last 0) :: runHeld ++
    submitLocal 4 ++ .popFront (Fin.last 0) :: runHeld ++ .popFront (Fin.last 0) :: runHeld

/-- The worker has found its local queue empty, and then three tasks are submitted. -/
def overlooked : List (PoolAction 1) :=
  .popFront (Fin.last 0) :: submitLocal 1 ++ submitLocal 2 ++ submitGlobal 3 ++
    .dequeueTask (Fin.last 0) 3 :: runHeld

/-- The fourth task starts before the third, or the third before the first. -/
theorem not_firstComeFirstServed :
    (∃ final, Run (StepOf (step .debug id)) (initial 1) overtaken final ∧
      Meets (StepOf (step .debug id)) (SubmitsInTurn 0) (initial 1) overtaken ∧
      final.history.ran = [4, 2, 1] ∧ ¬ FirstComeFirstServed final) ∧
    ∃ final, Run (StepOf (step .debug id)) (initial 1) overlooked final ∧
      Meets (StepOf (step .debug id)) (SubmitsInTurn 0) (initial 1) overlooked ∧
      final.history.ran = [3] ∧ ¬ FirstComeFirstServed final := by
  have first : ((exec (step .debug id) (initial 1) overtaken).map fun s =>
      (s.history.ran, s.history.submitted)) = some ([4, 2, 1], [4, 3, 2, 1]) := by
    decide
  have second : ((exec (step .debug id) (initial 1) overlooked).map fun s =>
      (s.history.ran, s.history.submitted)) = some ([3], [3, 2, 1]) := by
    decide
  obtain ⟨final, executed, shape⟩ := Option.map_eq_some_iff.mp first
  obtain ⟨other, alsoExecuted, otherShape⟩ := Option.map_eq_some_iff.mp second
  obtain ⟨ran, submitted⟩ := Prod.mk.inj shape
  obtain ⟨otherRan, otherSubmitted⟩ := Prod.mk.inj otherShape
  refine ⟨⟨final, run_of_exec executed, meets_of_checks (by decide), ran, ?_⟩,
    other, run_of_exec alsoExecuted, meets_of_checks (by decide), otherRan, ?_⟩
  · rw [FirstComeFirstServed, ran, submitted]
    decide
  · rw [FirstComeFirstServed, otherRan, otherSubmitted]
    decide

end ThreadPool

end YYNet
