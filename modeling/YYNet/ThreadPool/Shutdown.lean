/-
This file models `shutdown` and proves what becomes of the tasks.

A worker looks at its status at the head of its loop and nowhere else. `shutdown` sets
the status of all workers and joins them one after another. So a worker that is told
to stop finishes the round it is in, which calls one function at most, and does not
begin another. Nobody empties the queues: when `shutdown` has returned, a task has
been executed to its end or stands in one queue, and there it stays. `submit` does
not look at `running`, so tasks that are submitted later only join the queues.

The machine of the pool is the one without shutdown; what is added is the status of
the workers and the thread that shuts down.
-/

import YYNet.ThreadPool.Conserve
import YYNet.ThreadPool.Counted

namespace YYNet

open Checked Transition

/-! ### The machine -/

/-- Where a worker is with its status: it has not looked in this round, it has found that it may go
on, or it has found `Stoping` and left `run`. -/
inductive Round
  | unchecked
  | checked
  | ended
  deriving DecidableEq, Repr

/-- Where the thread in `shutdown` is. -/
inductive ShutPoint
  | notBegun
  | stopping (index : Nat)
  | joining (index : Nat)
  | returned
  deriving DecidableEq, Repr

/-- The pool, whether each `status_` is `Stoping`, and where the threads are. -/
structure StoppingPool (n : Nat) where
  pool : ThreadPool n
  stoping : Fin n → Bool
  round : Fin n → Round
  shut : ShutPoint

/-- A step of the pool, the test of a status, or a step of `shutdown`. -/
inductive StoppingAction (n : Nat)
  | pool (action : PoolAction n)
  | testStatus (worker : Fin n)
  | shutdown
  deriving DecidableEq

/-- The worker that makes a step. -/
def PoolAction.mover {n : Nat} : PoolAction n → Option (Fin n)
  | .popFront worker | .dequeueTask worker _ | .lockVictims worker | .tryStealTask worker _
  | .wait worker | .runFunction worker | .visit worker | .decrement worker | .reread worker
  | .storeStatus worker | .enqueueTask worker | .deregisterTask worker => some worker
  | .makeTask .. | .registerTask _ | .checkReady _ | .lockWorkers _ | .tryPushTask _
  | .emplaceBack _ | .enqueueGlobal _ | .addDependency .. | .insertDependent => none

namespace StoppingPool

variable {n : Nat}

/-- A new pool. -/
def initial (n : Nat) : StoppingPool n where
  pool := .initial n
  stoping _ := false
  round _ := .unchecked
  shut := .notBegun

/-- The head of the loop in `Worker::run`. -/
def testStatus (s : StoppingPool n) (worker : Fin n) : Option (StoppingPool n) :=
  match s.round worker with
  | .unchecked => some { s with
      round := Function.update s.round worker (if s.stoping worker then .ended else .checked) }
  | _ => none

/-- `shutdown`: the loop over `stop`, the loop over `join`, and the return. -/
def shutdown (s : StoppingPool n) : Option (StoppingPool n) :=
  match s.shut with
  | .notBegun => some { s with shut := .stopping 0 }
  | .stopping index =>
    if inside : index < n then
      some { s with
        stoping := Function.update s.stoping ⟨index, inside⟩ true
        shut := .stopping (index + 1) }
    else some { s with shut := .joining 0 }
  | .joining index =>
    if inside : index < n then
      if s.round ⟨index, inside⟩ = .ended then some { s with shut := .joining (index + 1) }
      else none
    else some { s with shut := .returned }
  | .returned => none

/-- A step of the pool. A worker that is back at the head of its loop has to look again. -/
def poolStep (build : Build) (address : Nat → Nat) (s : StoppingPool n) (action : PoolAction n) :
    Option (StoppingPool n) :=
  match action.mover with
  | none => (s.pool.step build address action).map fun pool => { s with pool := pool }
  | some worker =>
    if s.round worker = .checked then
      (s.pool.step build address action).map fun pool => { s with
        pool := pool
        round := if (pool.worker worker).point = .top then
          Function.update s.round worker .unchecked else s.round }
    else none

def step (build : Build) (address : Nat → Nat) (s : StoppingPool n) :
    StoppingAction n → Option (StoppingPool n)
  | .pool action => s.poolStep build address action
  | .testStatus worker => s.testStatus worker
  | .shutdown => s.shutdown

/-! ### What a step can do -/

/-- Every step: the pool moves without a worker, a worker goes on or begins a new round, a worker
looks at its status, or `shutdown` goes on. -/
theorem step_cases {build : Build} {address : Nat → Nat} {s t : StoppingPool n}
    {action : StoppingAction n} (taken : s.step build address action = some t) :
    (∃ move pool, action = .pool move ∧ move.mover = none ∧
      ThreadPool.Moved build address s.pool move pool ∧ t = { s with pool := pool }) ∨
    (∃ move worker pool, action = .pool move ∧ move.mover = some worker ∧
      s.round worker = .checked ∧ ThreadPool.Moved build address s.pool move pool ∧
      t = { s with
        pool := pool
        round := if (pool.worker worker).point = .top then
          Function.update s.round worker .unchecked else s.round }) ∨
    (∃ worker, action = .testStatus worker ∧ s.round worker = .unchecked ∧
      t = { s with
        round := Function.update s.round worker
          (if s.stoping worker then .ended else .checked) }) ∨
    action = .shutdown ∧ s.shutdown = some t := by
  cases action with
  | pool move =>
    simp only [step, poolStep] at taken
    split at taken
    · rename_i isNone
      obtain ⟨pool, moves, rfl⟩ := Option.map_eq_some_iff.mp taken
      exact .inl ⟨move, pool, rfl, isNone,
        (ThreadPool.moved_of_step build address _ _ move moves).2, rfl⟩
    · rename_i worker isSome
      split at taken
      · rename_i checked
        obtain ⟨pool, moves, rfl⟩ := Option.map_eq_some_iff.mp taken
        exact .inr (.inl ⟨move, worker, pool, rfl, isSome, checked,
          (ThreadPool.moved_of_step build address _ _ move moves).2, rfl⟩)
      · cases taken
  | testStatus worker =>
    simp only [step, testStatus] at taken
    split at taken
    · rename_i unchecked
      exact .inr (.inr (.inl ⟨worker, rfl, unchecked, (Option.some.inj taken).symm⟩))
    · cases taken
  | shutdown => exact .inr (.inr (.inr ⟨rfl, taken⟩))

end StoppingPool

/-! ### The round a worker is in -/

/-- The functions a worker calls at most before it is behind the next one. -/
def WorkerPoint.calls : WorkerPoint → Nat
  | .top | .dequeueing | .lockingWorkers | .stealing _ | .holding _ => 1
  | _ => 0

/-- Whether a step calls a function, as a number. -/
def PoolAction.runs {n : Nat} : PoolAction n → Nat
  | .runFunction _ => 1
  | _ => 0

namespace ThreadPool

variable {n : Nat} {build : Build} {address : Nat → Nat} {s t : ThreadPool n}
  {action : PoolAction n}

/-- Nobody else moves a worker. -/
theorem moved_others (moved : Moved build address s action t) (worker : Fin n)
    (other : action.mover ≠ some worker) : (t.worker worker).point = (s.worker worker).point := by
  cases moved with
  | make | register | ready | lockWorkers | full | room | allFull | count | nullTask | link
  | nullDependency => rfl
  | notReady thread call | enqueueGlobal thread call => cases call <;> rfl
  | push thread call task index point inside =>
    cases call <;> exact setLocalQueue_point s ⟨index, inside⟩ worker _
  | pop mover | steal mover =>
    refine (setPoint_point _ mover worker _).trans ?_
    rw [if_neg fun same => other (congrArg some same.symm), setLocalQueue_point]
  | localEmpty mover | globalEmpty mover | dequeue mover | lockVictims mover | pass mover
  | nothing mover | wait mover | run mover | finish mover | visit mover | decrement mover
  | zero mover | notZero mover | store mover | enqueue mover | deregister mover =>
    refine (setPoint_point s mover worker _).trans ?_
    rw [if_neg fun same => other (congrArg some same.symm)]

/-- A worker that moves gets nearer to the head of its loop, and calls a function on the way where
it may. -/
theorem moved_calls (moved : Moved build address s action t) {worker : Fin n}
    (moves : action.mover = some worker) :
    (if (t.worker worker).point = .top then 0 else (t.worker worker).point.calls) + action.runs ≤
      (s.worker worker).point.calls := by
  cases moved with
  | make | register | ready | lockWorkers | full | room | allFull | count | nullTask | link
  | nullDependency | notReady | enqueueGlobal | push => cases moves
  | pop mover task rest point | steal mover victim task point =>
    obtain rfl := Option.some.inj moves
    simp [setPoint, setLocalQueue, point, WorkerPoint.calls, PoolAction.runs]
  | localEmpty mover point | globalEmpty mover _ point | dequeue mover _ point
  | lockVictims mover point | pass mover _ _ point | nothing mover _ _ point | wait mover point
  | run mover _ point | finish mover _ _ point | visit mover _ _ _ point
  | decrement mover _ _ point | zero mover _ _ point | notZero mover _ _ point
  | store mover _ _ point | enqueue mover _ _ point | deregister mover _ point =>
    obtain rfl := Option.some.inj moves
    simp [setPoint, setTask, point, WorkerPoint.calls, PoolAction.runs]

end ThreadPool

namespace StoppingPool

variable {n : Nat} {build : Build} {address : Nat → Nat} {s t : StoppingPool n}

/-! ### Behind `stop` -/

/-- The functions a worker that has been told to stop may still call. -/
def budget (s : StoppingPool n) (worker : Fin n) : Nat :=
  if s.round worker = .checked then (s.pool.worker worker).point.calls else 0

/-- Whether a step is the call of a function by a worker, as a number. -/
def runsOn (worker : Fin n) : StoppingAction n → Nat
  | .pool action => if action.mover = some worker then action.runs else 0
  | _ => 0

theorem budget_le_one (s : StoppingPool n) (worker : Fin n) : s.budget worker ≤ 1 := by
  unfold budget
  split
  · cases (s.pool.worker worker).point <;> simp [WorkerPoint.calls]
  · exact Nat.zero_le _

/-- A step of a worker that has been told to stop is paid for out of its budget. -/
theorem step_budget {action : StoppingAction n} (taken : s.step build address action = some t)
    {worker : Fin n} (stoping : s.stoping worker = true) :
    t.stoping worker = true ∧ t.budget worker + runsOn worker action ≤ s.budget worker := by
  rcases step_cases taken with ⟨move, pool, rfl, isNone, moved, rfl⟩ |
    ⟨move, mover, pool, rfl, isSome, checked, moved, rfl⟩ | ⟨tested, rfl, unchecked, rfl⟩ |
    ⟨rfl, shuts⟩
  · have still := ThreadPool.moved_others moved worker (by rw [isNone]; simp)
    refine ⟨stoping, ?_⟩
    simp [budget, runsOn, isNone, still]
  · refine ⟨stoping, ?_⟩
    by_cases same : mover = worker
    · subst same
      have calls := ThreadPool.moved_calls moved isSome
      simp only [budget, runsOn, isSome, checked, if_true]
      split
      · rename_i atTop
        rw [if_pos atTop] at calls
        simpa using calls
      · rename_i notTop
        rw [if_neg notTop] at calls
        simpa [checked] using calls
    · have still := ThreadPool.moved_others moved worker
        (by rw [isSome]; simpa using same)
      have other : (if (pool.worker mover).point = .top then
          Function.update s.round mover .unchecked else s.round) worker = s.round worker := by
        split
        · exact Function.update_of_ne (Ne.symm same) ..
        · rfl
      simp [budget, runsOn, isSome, same, still, other]
  · refine ⟨stoping, ?_⟩
    by_cases same : tested = worker
    · subst same
      simp [budget, runsOn, stoping]
    · have other : Function.update s.round tested (if s.stoping tested then .ended else .checked)
          worker = s.round worker := Function.update_of_ne (Ne.symm same) ..
      simp [budget, runsOn, other]
  · unfold shutdown at shuts
    split at shuts
    · obtain rfl := Option.some.inj shuts
      exact ⟨stoping, le_rfl⟩
    · split at shuts
      · obtain rfl := Option.some.inj shuts
        refine ⟨?_, le_rfl⟩
        simp [Function.update_apply, stoping]
      · obtain rfl := Option.some.inj shuts
        exact ⟨stoping, le_rfl⟩
    · split at shuts
      · split at shuts
        · obtain rfl := Option.some.inj shuts
          exact ⟨stoping, le_rfl⟩
        · cases shuts
      · obtain rfl := Option.some.inj shuts
        exact ⟨stoping, le_rfl⟩
    · cases shuts

/-- The calls of a worker that has been told to stop are paid for out of its budget. -/
theorem run_budget {actions : List (StoppingAction n)}
    (run : Run (StepOf (step build address)) s actions t) {worker : Fin n}
    (stoping : s.stoping worker = true) :
    t.stoping worker = true ∧
      t.budget worker + (actions.map (runsOn worker)).sum ≤ s.budget worker := by
  induction run with
  | nil => exact ⟨stoping, le_rfl⟩
  | snoc _ last inductionHypothesis =>
    obtain ⟨still, before⟩ := inductionHypothesis
    obtain ⟨next, now⟩ := step_budget last still
    refine ⟨next, ?_⟩
    rw [List.map_append, List.sum_append, List.map_singleton, List.sum_singleton]
    omega

/-- Whatever the threads do after a worker has been told to stop, it calls one function at most,
and that in the round it is in: from the first state in which it is in none, it calls no other. -/
theorem one_call_after_stop (build : Build) (address : Nat → Nat)
    (actions : List (StoppingAction n)) (s t : StoppingPool n)
    (run : Run (StepOf (step build address)) s actions t) (worker : Fin n)
    (stoping : s.stoping worker = true) :
    (actions.map (runsOn worker)).sum ≤ 1 ∧
      ∀ early later middle, actions = early ++ later →
        Run (StepOf (step build address)) s early middle →
        Run (StepOf (step build address)) middle later t →
        middle.round worker ≠ .checked → (later.map (runsOn worker)).sum = 0 := by
  obtain ⟨-, paid⟩ := run_budget run stoping
  have once := s.budget_le_one worker
  refine ⟨by omega, fun early later middle _ before behind outside => ?_⟩
  obtain ⟨still, -⟩ := run_budget before stoping
  obtain ⟨-, nothing⟩ := run_budget behind still
  rw [show middle.budget worker = 0 from if_neg outside] at nothing
  omega

/-! ### Behind `shutdown` -/

/-- Nothing has been executed since, and what stood in the queues stands there. -/
structure Abandoned (s t : ThreadPool n) : Prop where
  ran : t.history.ran = s.history.ran
  finished : t.history.finished = s.history.finished
  localQueue : ∀ worker, (s.worker worker).localQueue <+: (t.worker worker).localQueue
  globalQueue : s.globalQueue <:+ t.globalQueue

theorem Abandoned.refl (s : ThreadPool n) : Abandoned s s :=
  ⟨rfl, rfl, fun _ => List.prefix_rfl, List.suffix_rfl⟩

theorem Abandoned.trans {first second third : ThreadPool n} (before : Abandoned first second)
    (after : Abandoned second third) : Abandoned first third where
  ran := after.ran.trans before.ran
  finished := after.finished.trans before.finished
  localQueue worker := (before.localQueue worker).trans (after.localQueue worker)
  globalQueue := before.globalQueue.trans after.globalQueue

/-- A step that no worker makes executes nothing and takes nothing off a queue. -/
theorem abandoned_of_moved {s t : ThreadPool n} {action : PoolAction n}
    (moved : ThreadPool.Moved build address s action t) (noWorker : action.mover = none) :
    Abandoned s t := by
  cases moved with
  | make | register | ready | lockWorkers | full | room | allFull | count | nullTask | link
  | nullDependency => exact ⟨rfl, rfl, fun _ => List.prefix_rfl, List.suffix_rfl⟩
  | notReady thread call =>
    cases call <;> exact ⟨rfl, rfl, fun _ => List.prefix_rfl, List.suffix_rfl⟩
  | enqueueGlobal thread call task =>
    have more : s.globalQueue <:+ task :: s.globalQueue := List.suffix_cons _ _
    cases call <;> exact ⟨rfl, rfl, fun _ => List.prefix_rfl, more⟩
  | push thread call task index point inside =>
    have more : ∀ worker, (s.worker worker).localQueue <+: ((s.setLocalQueue ⟨index, inside⟩
        ((s.worker ⟨index, inside⟩).localQueue ++ [task])).worker worker).localQueue := by
      intro worker
      rw [ThreadPool.setLocalQueue_localQueue]
      split
      · rename_i same
        rw [same]
        exact List.prefix_append _ _
      · exact List.prefix_rfl
    cases call <;> exact ⟨rfl, rfl, more, List.suffix_rfl⟩
  | _ => cases noWorker

/-- What holds with and behind `shutdown`: a worker that does not run a round is at the head of its
loop, and the workers that were joined have ended. -/
structure Stopped (s : StoppingPool n) : Prop where
  conserved : ThreadPool.Conserved s.pool
  executed : ThreadPool.Executed s.pool
  atTop : ∀ worker, s.round worker ≠ .checked → (s.pool.worker worker).point = .top
  joined : ∀ index, s.shut = .joining index → ∀ worker : Fin n, worker.val < index →
    s.round worker = .ended
  returned : s.shut = .returned → ∀ worker, s.round worker = .ended

theorem initial_stopped : Stopped (initial n) :=
  ⟨ThreadPool.initial_conserved, ThreadPool.initial_executed, fun _ _ => rfl,
    by rintro _ ⟨⟩, by rintro ⟨⟩⟩

/-- A worker that has ended stays where it is. -/
theorem ended_stays {action : StoppingAction n} (taken : s.step build address action = some t)
    (worker : Fin n) (ended : s.round worker = .ended) : t.round worker = .ended := by
  rcases step_cases taken with ⟨move, pool, rfl, isNone, moved, rfl⟩ |
    ⟨move, mover, pool, rfl, isSome, checked, moved, rfl⟩ | ⟨tested, rfl, unchecked, rfl⟩ |
    ⟨rfl, shuts⟩
  · exact ended
  · have different : worker ≠ mover := by
      rintro rfl
      rw [ended] at checked
      cases checked
    dsimp only
    split
    · rwa [Function.update_of_ne different]
    · exact ended
  · have different : worker ≠ tested := by
      rintro rfl
      rw [ended] at unchecked
      cases unchecked
    exact (Function.update_of_ne different ..).trans ended
  · unfold shutdown at shuts
    split at shuts
    · obtain rfl := Option.some.inj shuts
      exact ended
    · split at shuts <;> obtain rfl := Option.some.inj shuts <;> exact ended
    · split at shuts
      · split at shuts
        · obtain rfl := Option.some.inj shuts
          exact ended
        · cases shuts
      · obtain rfl := Option.some.inj shuts
        exact ended
    · cases shuts

/-- Every step keeps it. -/
theorem step_stopped {action : StoppingAction n} (stopped : Stopped s)
    (taken : s.step build address action = some t) : Stopped t := by
  have stays := ended_stays taken
  rcases step_cases taken with ⟨move, pool, rfl, isNone, moved, rfl⟩ |
    ⟨move, mover, pool, rfl, isSome, checked, moved, rfl⟩ | ⟨tested, rfl, unchecked, rfl⟩ |
    ⟨rfl, shuts⟩
  · refine ⟨ThreadPool.moved_conserved build address _ _ _ stopped.conserved moved,
      ThreadPool.moved_executed build address _ _ _ stopped.executed moved, fun worker idle => ?_,
      stopped.joined, stopped.returned⟩
    exact (ThreadPool.moved_others moved _ (by rw [isNone]; simp)).trans (stopped.atTop worker idle)
  · refine ⟨ThreadPool.moved_conserved build address _ _ _ stopped.conserved moved,
      ThreadPool.moved_executed build address _ _ _ stopped.executed moved, fun worker idle => ?_,
      fun index joins worker below => stays _ (stopped.joined index joins worker below),
      fun returns worker => stays _ (stopped.returned returns worker)⟩
    by_cases same : worker = mover
    · subst same
      by_contra notTop
      exact idle ((congrFun (if_neg notTop) worker).trans checked)
    · refine (ThreadPool.moved_others moved _
        (by rw [isSome]; simpa using Ne.symm same)).trans (stopped.atTop worker fun busy => idle ?_)
      dsimp only
      split
      · rwa [Function.update_of_ne same]
      · exact busy
  · refine ⟨stopped.conserved, stopped.executed, fun worker idle => ?_,
      fun index joins worker below => stays _ (stopped.joined index joins worker below),
      fun returns worker => stays _ (stopped.returned returns worker)⟩
    by_cases same : worker = tested
    · subst same
      exact stopped.atTop worker (by rw [unchecked]; simp)
    · exact stopped.atTop worker fun busy => idle ((Function.update_of_ne same ..).trans busy)
  · unfold shutdown at shuts
    split at shuts
    · obtain rfl := Option.some.inj shuts
      exact ⟨stopped.conserved, stopped.executed, stopped.atTop, by rintro _ ⟨⟩, by rintro ⟨⟩⟩
    · split at shuts
      · obtain rfl := Option.some.inj shuts
        exact ⟨stopped.conserved, stopped.executed, stopped.atTop, by rintro _ ⟨⟩, by rintro ⟨⟩⟩
      · obtain rfl := Option.some.inj shuts
        refine ⟨stopped.conserved, stopped.executed, stopped.atTop, ?_, by rintro ⟨⟩⟩
        rintro _ ⟨⟩ worker below
        cases below
    · rename_i index joining
      split at shuts
      · rename_i inside
        split at shuts
        · rename_i ended
          obtain rfl := Option.some.inj shuts
          refine ⟨stopped.conserved, stopped.executed, stopped.atTop, ?_, by rintro ⟨⟩⟩
          rintro _ ⟨⟩ worker below
          rcases Nat.lt_succ_iff_lt_or_eq.mp below with earlier | last
          · exact stopped.joined index joining worker earlier
          · rwa [show worker = ⟨index, inside⟩ from Fin.ext last]
        · cases shuts
      · rename_i behind
        obtain rfl := Option.some.inj shuts
        refine ⟨stopped.conserved, stopped.executed, stopped.atTop, by rintro _ ⟨⟩, ?_⟩
        intro _ worker
        exact stopped.joined index joining worker (by omega)
    · cases shuts

/-- When all workers have ended, nothing is executed any more. -/
theorem abandoned_of_ended {actions : List (StoppingAction n)}
    (run : Run (StepOf (step build address)) s actions t)
    (ended : ∀ worker, s.round worker = .ended) : Abandoned s.pool t.pool := by
  suffices both : (∀ worker, t.round worker = .ended) ∧ Abandoned s.pool t.pool from both.2
  induction run with
  | nil => exact ⟨ended, .refl _⟩
  | snoc _ last inductionHypothesis =>
    obtain ⟨stillEnded, before⟩ := inductionHypothesis
    refine ⟨fun worker => ended_stays last worker (stillEnded worker), ?_⟩
    rcases step_cases last with ⟨move, pool, rfl, isNone, moved, rfl⟩ |
      ⟨move, mover, pool, rfl, isSome, checked, moved, rfl⟩ | ⟨tested, rfl, unchecked, rfl⟩ |
      ⟨rfl, shuts⟩
    · exact before.trans (abandoned_of_moved moved isNone)
    · rw [stillEnded mover] at checked
      cases checked
    · exact before
    · unfold shutdown at shuts
      split at shuts
      · obtain rfl := Option.some.inj shuts
        exact before
      · split at shuts <;> obtain rfl := Option.some.inj shuts <;> exact before
      · split at shuts
        · split at shuts
          · obtain rfl := Option.some.inj shuts
            exact before
          · cases shuts
        · obtain rfl := Option.some.inj shuts
          exact before
      · cases shuts

/-- When `shutdown` has returned, every worker has left its loop with nothing in its hands. A task
whose `submit` has returned and that was given no dependency has been executed to its end once and is
in no queue, or it was never executed and is in exactly one queue. Whatever the user threads do from
then on, nothing is executed and nothing leaves a queue. -/
theorem shutdown_abandons (build : Build) (address : Nat → Nat) (actions : List (StoppingAction n))
    (s : StoppingPool n) (run : Run (StepOf (step build address)) (initial n) actions s)
    (returned : s.shut = .returned) :
    (∀ worker, s.round worker = .ended ∧ (s.pool.worker worker).point = .top) ∧
      (∀ task ∈ s.pool.history.submitted, ¬ s.pool.Given task →
        s.pool.InOnePlace task ∧
          s.pool.history.finished.count task = s.pool.history.ran.count task) ∧
      ∀ more t, Run (StepOf (step build address)) s more t → Abandoned s.pool t.pool := by
  have stopped : Stopped s := run.invariant_of_step initial_stopped
    fun state action next stopped taken => step_stopped stopped taken
  have ended := stopped.returned returned
  have atTop : ∀ worker, (s.pool.worker worker).point = .top := fun worker =>
    stopped.atTop worker (by rw [ended worker]; simp)
  refine ⟨fun worker => ⟨ended worker, atTop worker⟩, fun task submitted notGiven => ⟨?_, ?_⟩,
    fun more t later => abandoned_of_ended later ended⟩
  · refine ThreadPool.inOnePlace_of_located s.pool task ?_
    rw [stopped.conserved.accounted task, stopped.conserved.owned.once task submitted notGiven]
  · have executed := stopped.executed task
    have idle : ThreadPool.pointSum (ThreadPool.executes task) s.pool = 0 :=
      Finset.sum_eq_zero fun worker _ => by rw [atTop worker]; rfl
    omega

/-- There is a first worker of one. -/
local instance oneWorkerNonzero : NeZero 1 := ⟨one_ne_zero⟩

/-- A task is submitted, the worker has looked at its status, and then it is told to stop. -/
def stopInRound : List (StoppingAction 1) :=
  (ThreadPool.submitOne 0).map .pool ++ [.testStatus 0, .shutdown, .shutdown]

/-- The worker finishes its round. -/
def finishRound : List (StoppingAction 1) :=
  [.pool (.popFront 0), .pool (.runFunction 0), .pool (.visit 0), .pool (.deregisterTask 0)]

/-- The worker ends, with a second task in its queue. -/
def endWorker : List (StoppingAction 1) :=
  (ThreadPool.submitOne 0).map .pool ++ [.testStatus 0, .shutdown, .shutdown, .shutdown]

/-- One function is called in the round, and none behind it. -/
theorem one_call_after_stop_round : ∃ s middle t : StoppingPool 1,
    exec (step .debug id) (initial 1) stopInRound = some s ∧ s.stoping 0 = true ∧
      exec (step .debug id) s finishRound = some middle ∧ middle.round 0 ≠ .checked ∧
      exec (step .debug id) middle endWorker = some t ∧ t.pool.history.ran = [1] ∧
      ((finishRound ++ endWorker).map (runsOn 0)).sum ≤ 1 ∧
      (endWorker.map (runsOn 0)).sum = 0 := by
  have started : ((exec (step .debug id) (initial 1) stopInRound).map fun s =>
      (s.stoping 0, (exec (step .debug id) s finishRound).map fun middle =>
        (middle.round 0, (exec (step .debug id) middle endWorker).map fun t =>
          t.pool.history.ran))) = some (true, some (.unchecked, some [1])) := by decide
  obtain ⟨s, executed, same⟩ := Option.map_eq_some_iff.mp started
  have stoping : s.stoping 0 = true := congrArg Prod.fst same
  obtain ⟨middle, finished, same⟩ := Option.map_eq_some_iff.mp (congrArg Prod.snd same)
  have outside : middle.round 0 ≠ .checked := by
    rw [show middle.round 0 = .unchecked from congrArg Prod.fst same]
    decide
  obtain ⟨t, later, ran⟩ := Option.map_eq_some_iff.mp (congrArg Prod.snd same)
  have before := run_of_exec finished
  have behind := run_of_exec later
  obtain ⟨once, none⟩ := one_call_after_stop .debug id (finishRound ++ endWorker) s t
    (before.append behind) 0 stoping
  exact ⟨s, middle, t, executed, stoping, finished, outside, later, ran, once,
    none finishRound endWorker middle rfl before behind outside⟩

/-- A task is submitted, and the pool is shut down before the worker has looked at its status. -/
def stopBefore : List (StoppingAction 1) :=
  (ThreadPool.submitOne 0).map .pool ++
    [.shutdown, .shutdown, .testStatus 0, .shutdown, .shutdown, .shutdown]

theorem shutdown_abandons_before : ∃ s : StoppingPool 1,
    exec (step .debug id) (initial 1) stopBefore = some s ∧ s.shut = .returned ∧
      s.round 0 = .ended ∧ s.pool.history.submitted = [1] ∧ s.pool.history.ran = [] ∧
      s.pool.InOnePlace 1 ∧
      s.pool.history.finished.count 1 = s.pool.history.ran.count 1 ∧
      ∀ more t, Run (StepOf (step .debug id)) s more t → Abandoned s.pool t.pool := by
  have done : ((exec (step .debug id) (initial 1) stopBefore).map fun s =>
      (s.shut, s.pool.history.submitted, s.pool.history.ran, s.pool.history.given)) =
        some (.returned, [1], [], []) := by decide
  obtain ⟨s, executed, same⟩ := Option.map_eq_some_iff.mp done
  have returned : s.shut = .returned := congrArg Prod.fst same
  have submitted : s.pool.history.submitted = [1] := congrArg (fun state => state.2.1) same
  have ran : s.pool.history.ran = [] := congrArg (fun state => state.2.2.1) same
  have given : s.pool.history.given = [] := congrArg (fun state => state.2.2.2) same
  obtain ⟨ended, tasks, nothing⟩ := shutdown_abandons .debug id stopBefore s
    (run_of_exec executed) returned
  obtain ⟨place, whole⟩ := tasks 1 (by simp [submitted]) (by simp [ThreadPool.Given, given])
  exact ⟨s, executed, returned, (ended 0).1, submitted, ran, place, whole, nothing⟩

end StoppingPool

end YYNet
