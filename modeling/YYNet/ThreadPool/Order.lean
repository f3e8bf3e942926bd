/-
This file proves when dependent tasks run in order, and when none is left
behind.

If the last two dependencies of a task are finished by two workers, both may
decrement its counter before either reads it again, both read zero, and the task
is enqueued twice. A task that runs twice decrements the counters of its own
dependents twice, so from there on nothing need be in order. The first main
theorem says what is enough: where the dependencies are given before they
start, and no decrement to zero is made while another worker is between its
decrement and its second reading of the same counter, each dependent task is
enqueued at most once and only after the functions of all its dependencies have
been called.

The calls of `add_dependency` count up on each call but link the task only once,
look up tasks that may have been deregistered, and may come after the dependency
has visited its dependents. The second main theorem says what is enough for no
dependent task to be left behind: the run is in order, and each call names two
registered tasks and a new pair.
-/

import YYNet.ThreadPool.Dependency

namespace YYNet

open Checked Transition OrderedSet

namespace ThreadPool

variable {n : Nat}

/-! ### Dependent tasks run in order -/

/-- Each task that was given a dependency is enqueued at most once, and only after the functions
of all its dependencies have been called. -/
def RunsInOrder (s : ThreadPool n) : Prop :=
  ∀ task, s.Given task → s.history.enqueued.count task ≤ 1 ∧
    (task ∈ s.history.enqueued →
      ∀ dependency, (task, dependency) ∈ s.history.given → dependency ∈ s.history.ran)

/-- Runs in order run their dependent tasks in order. -/
theorem Dependable.runsInOrder {address : Nat → Nat} {s : ThreadPool n}
    (dependable : Dependable address s) : RunsInOrder s := by
  intro task given
  refine ⟨dependable.enqueued_le_one task, fun enqueued dependency isGiven => ?_⟩
  have all : s.drops task = s.calls task := by
    by_contra waits
    have none := dependable.readied.waits task given waits
    have positive := List.count_pos_iff.mpr enqueued
    unfold found at none
    omega
  have dropped := dependable.dropped_of_eq all isGiven
  exact (dependable.kept.counted.dropped task dependency dropped).2

/-- The graph is built first: `add_dependency` is called on a task whose `dep_submit` has
returned, and neither the new dependency nor an earlier one of the task has been started. -/
def BuiltFirst (s : ThreadPool n) : PoolAction n → Prop
  | .addDependency task dependency => task ∈ s.history.depSubmitted ∧
      dependency ∉ s.history.ran ∧
      ∀ pair ∈ s.history.given, pair.1 = task → pair.2 ∉ s.history.ran
  | .insertDependent => ∀ pair ∈ s.adding, pair.2 ∉ s.history.ran
  | _ => True

instance (s : ThreadPool n) (action : PoolAction n) : Decidable (BuiltFirst s action) :=
  match action with
  | .addDependency _ _ => inferInstanceAs (Decidable (_ ∧ _ ∧ _))
  | .insertDependent => inferInstanceAs (Decidable (∀ pair ∈ s.adding, _))
  | .decrement _ => isTrue trivial
  | .makeTask _ _ _ | .registerTask _ | .checkReady _ | .lockWorkers _ | .tryPushTask _
  | .emplaceBack _ | .enqueueGlobal _ | .popFront _ | .dequeueTask _ _ | .lockVictims _
  | .tryStealTask _ _ | .wait _ | .runFunction _ | .visit _ | .reread _ | .storeStatus _
  | .enqueueTask _ | .deregisterTask _ => isTrue trivial

/-- A decrement to zero is made while no other worker is between its decrement and its second
reading of the same counter, and a task is given fewer than `2 ^ 32` dependencies. -/
def DropsClear (s : ThreadPool n) : PoolAction n → Prop
  | .addDependency task _ => s.calls task + 1 < 2 ^ 32
  | .decrement worker => ∀ dependent ∈ (s.worker worker).point.decrements,
      (s.task dependent.task).unresolvedDependencies = 1 →
      ∀ other, (s.worker other).point.rereads dependent.task = 0
  | _ => True

instance (s : ThreadPool n) (action : PoolAction n) : Decidable (DropsClear s action) :=
  match action with
  | .addDependency _ _ => inferInstanceAs (Decidable (_ < _))
  | .insertDependent => isTrue trivial
  | .decrement _ => inferInstanceAs (Decidable (∀ dependent ∈ WorkerPoint.decrements _, _))
  | .makeTask _ _ _ | .registerTask _ | .checkReady _ | .lockWorkers _ | .tryPushTask _
  | .emplaceBack _ | .enqueueGlobal _ | .popFront _ | .dequeueTask _ _ | .lockVictims _
  | .tryStealTask _ _ | .wait _ | .runFunction _ | .visit _ | .reread _ | .storeStatus _
  | .enqueueTask _ | .deregisterTask _ => isTrue trivial

/-- No worker has found a task ready that was given no dependency. -/
theorem found_eq_zero {address : Nat → Nat} {s : ThreadPool n} (dependable : Dependable address s)
    {task : Nat} (submitted : task ∈ s.history.depSubmitted) (notGiven : ¬ s.Given task) :
    s.found task = 0 := by
  have pushes := List.count_eq_zero_of_not_mem (dependable.waiting.unpushed task submitted notGiven)
  have workers : pointSum (WorkerPoint.readies task) s = 0 := by
    refine Finset.sum_eq_zero fun worker _ => ?_
    have visited := dependable.kept.conserved.linked.visited worker
    cases point : (s.worker worker).point with
    | storing running dependent | enqueueing running dependent =>
      have given := visited dependent (by rw [point]; rfl)
      refine if_neg fun same => ?_
      exact notGiven (same ▸ given)
    | _ => rfl
  rw [found, pushes, workers]

/-- Where the graph is built first and decrements are clear, the run is in order. -/
theorem inOrder_of_builtFirst {address : Nat → Nat} {s : ThreadPool n} {action : PoolAction n}
    (dependable : Dependable address s) (built : BuiltFirst s action) (clear : DropsClear s action) :
    InOrder s action := by
  cases action with
  | addDependency task dependency =>
    obtain ⟨submitted, early, earlier⟩ := built
    refine ⟨submitted, ?_, early, clear⟩
    by_cases given : s.Given task
    · refine dependable.readied.waits task given fun all => ?_
      obtain ⟨known, member⟩ := given
      have dropped := dependable.dropped_of_eq all member
      exact earlier _ member rfl (dependable.kept.counted.dropped task known dropped).2
    · exact found_eq_zero dependable submitted given
  | insertDependent => exact built
  | decrement worker => exact clear
  | _ => trivial

/-- In every run in which the dependencies are given before any of them starts, and in which
decrements are clear, each dependent task is enqueued at most once and only after the functions
of all its dependencies have been called. -/
theorem runsInOrder_of_dropsClear (build : Build) (address : Nat → Nat)
    (actions : List (PoolAction n)) (final : ThreadPool n)
    (run : Run (StepOf (step build address)) (initial n) actions final)
    (built : Meets (StepOf (step build address)) BuiltFirst (initial n) actions)
    (clear : Meets (StepOf (step build address)) DropsClear (initial n) actions) :
    RunsInOrder final := by
  have dependable : Dependable address final := by
    refine run.invariant (initial_dependable address) (fun s action t holds met taken => ?_)
      (built.and clear)
    exact moved_dependable build address s t action holds
      (inOrder_of_builtFirst holds met.1 met.2) (moved_of_step build address s t action taken).2
  exact dependable.runsInOrder

/-- There is a first worker of two. -/
local instance twoWorkers : NeZero 2 := ⟨two_ne_zero⟩

/-- A thread submits two tasks to a pool with two workers and gives them both as dependencies
to a third one. -/
def buildThree : List (PoolAction 2) :=
  [.makeTask 0 .submit 0, .registerTask 0, .checkReady 0, .lockWorkers 0, .tryPushTask 0,
    .emplaceBack 0, .makeTask 0 .submit 0, .registerTask 0, .checkReady 0, .lockWorkers 0,
    .tryPushTask 0, .emplaceBack 0, .makeTask 0 .depSubmit 0, .registerTask 0, .checkReady 0,
    .addDependency 3 1, .insertDependent, .addDependency 3 2, .insertDependent]

/-- The first worker pops the first task, the second one steals the second task, and both come
to the dependent. -/
def bothVisit : List (PoolAction 2) :=
  [.popFront 0, .popFront 1, .dequeueTask 1 0, .lockVictims 1, .tryStealTask 1 true,
    .runFunction 0, .visit 0, .runFunction 1, .visit 1]

/-- One worker decrements and reads again, then the other. -/
def inTurn : List (PoolAction 2) :=
  buildThree ++ bothVisit ++
    [.decrement 0, .reread 0, .decrement 1, .reread 1, .storeStatus 1, .enqueueTask 1]

theorem runsInOrder_of_dropsClear_inTurn :
    ∃ final, Run (StepOf (step .debug id)) (initial 2) inTurn final ∧
      final.history.enqueued = [3, 2, 1] ∧ RunsInOrder final := by
  have done : ((exec (step .debug id) (initial 2) inTurn).map fun s => s.history.enqueued) =
      some [3, 2, 1] := by
    decide
  obtain ⟨final, executed, enqueued⟩ := Option.map_eq_some_iff.mp done
  have run := run_of_exec executed
  refine ⟨final, run, enqueued, runsInOrder_of_dropsClear .debug id _ final run
    (meets_of_checks ?_) (meets_of_checks ?_)⟩
  · decide
  · decide

/-- Both workers decrement before either reads the counter again. -/
def together : List (PoolAction 2) :=
  buildThree ++ bothVisit ++
    [.decrement 0, .decrement 1, .reread 0, .reread 1, .storeStatus 0, .storeStatus 1,
      .enqueueTask 0, .enqueueTask 1]

/-- Then the dependent is enqueued twice. -/
theorem runsInOrder_fails :
    ∃ final, Run (StepOf (step .debug id)) (initial 2) together final ∧
      Meets (StepOf (step .debug id)) BuiltFirst (initial 2) together ∧
      final.history.enqueued = [3, 3, 2, 1] ∧ ¬ RunsInOrder final := by
  have done : ((exec (step .debug id) (initial 2) together).map fun s =>
      (s.history.enqueued, s.history.given)) = some ([3, 3, 2, 1], [(3, 2), (3, 1)]) := by
    decide
  obtain ⟨final, executed, shape⟩ := Option.map_eq_some_iff.mp done
  obtain ⟨enqueued, given⟩ := Prod.mk.inj shape
  refine ⟨final, run_of_exec executed, meets_of_checks (by decide), enqueued,
    fun inOrder => ?_⟩
  obtain ⟨once, -⟩ := inOrder 3 ⟨1, by simp [given]⟩
  rw [enqueued] at once
  exact absurd once (by decide)

/-! ### No dependent task is left behind -/

/-- No call of `add_dependency` and no `execute` is in progress. -/
def Quiet (s : ThreadPool n) : Prop :=
  s.adding = none ∧ ∀ worker, (s.worker worker).point.executing = none

/-- A task is in a queue, running or done. -/
def Present (s : ThreadPool n) (task : Nat) : Prop :=
  task ∈ s.globalQueue ∨ (∃ worker, task ∈ (s.worker worker).localQueue) ∨
    (∃ worker, (s.worker worker).point.held = some task) ∨
    (∃ worker, (s.worker worker).point.executing = some task) ∨ task ∈ s.history.finished

/-- No null pointer was dereferenced, and in a quiet state a task that was given a dependency
and whose dependencies have all finished is in a queue, running or done. -/
def NoneStranded (s : ThreadPool n) : Prop :=
  s.crashed = false ∧ (Quiet s → ∀ task ∈ s.history.depSubmitted, s.Given task →
    (∀ dependency, (task, dependency) ∈ s.history.given → dependency ∈ s.history.finished) →
    s.Present task)

/-- Each call of `add_dependency` names two registered tasks and a new pair. -/
def NamesNewPair (s : ThreadPool n) : PoolAction n → Prop
  | .addDependency task dependency => s.allTasks task = true ∧ s.allTasks dependency = true ∧
      (task, dependency) ∉ s.history.given
  | _ => True

instance (s : ThreadPool n) (action : PoolAction n) : Decidable (NamesNewPair s action) :=
  match action with
  | .addDependency _ _ => inferInstanceAs (Decidable (_ ∧ _ ∧ _))
  | .insertDependent | .decrement _ | .makeTask _ _ _ | .registerTask _ | .checkReady _
  | .lockWorkers _ | .tryPushTask _ | .emplaceBack _ | .enqueueGlobal _ | .popFront _
  | .dequeueTask _ _ | .lockVictims _ | .tryStealTask _ _ | .wait _ | .runFunction _ | .visit _
  | .reread _ | .storeStatus _ | .enqueueTask _ | .deregisterTask _ => isTrue trivial

/-- The invariant of runs in order in which each call names two registered tasks and a new
pair. -/
structure Timely (address : Nat → Nat) (s : ThreadPool n) : Prop where
  dependable : Dependable address s
  alive : s.crashed = false
  distinct : s.history.given.Nodup
  registered : ∀ pair ∈ s.adding, s.allTasks pair.2 = true

theorem initial_timely (address : Nat → Nat) : Timely address (initial n) where
  dependable := initial_dependable address
  alive := rfl
  distinct := List.nodup_nil
  registered pair member := by simp [initial] at member

/-- Every such step keeps the invariant. -/
theorem moved_timely (build : Build) (address : Nat → Nat) (s t : ThreadPool n)
    (action : PoolAction n) (timely : Timely address s) (named : NamesNewPair s action)
    (inOrder : InOrder s action) (moved : Moved build address s action t) : Timely address t := by
  have dependable := moved_dependable build address s t action timely.dependable inOrder moved
  obtain ⟨-, alive, distinct, registered⟩ := timely
  cases moved with
  | register thread call task point unlocked =>
    refine ⟨dependable, alive, distinct, fun pair member => ?_⟩
    have none : s.adding = some pair := member
    rw [unlocked] at none
    cases none
  | notReady thread call | push thread call | enqueueGlobal thread call =>
    cases call
    · exact ⟨dependable, alive, distinct, registered⟩
    · exact ⟨dependable, alive, distinct, registered⟩
  | count task dependency unlocked isRegistered =>
    obtain ⟨-, known, new⟩ := named
    refine ⟨dependable, alive, List.nodup_cons.mpr ⟨new, distinct⟩, fun pair member => ?_⟩
    obtain rfl := Option.some.inj member
    exact known
  | nullTask task dependency unlocked missing =>
    rw [named.1] at missing
    cases missing
  | link task dependency locked isRegistered =>
    exact ⟨dependable, alive, distinct, fun pair member => by cases member⟩
  | nullDependency task dependency locked missing =>
    rw [registered (task, dependency) locked] at missing
    cases missing
  | deregister worker task point unlocked =>
    refine ⟨dependable, alive, distinct, fun pair member => ?_⟩
    have none : s.adding = some pair := member
    rw [unlocked] at none
    cases none
  | _ => exact ⟨dependable, alive, distinct, registered⟩

/-- A task all of whose dependencies have finished is dropped by all of them. -/
theorem Timely.all_dropped {address : Nat → Nat} {s : ThreadPool n} (timely : Timely address s)
    (unlocked : s.adding = none) (task : Nat)
    (finished : ∀ dependency, (task, dependency) ∈ s.history.given →
      dependency ∈ s.history.finished) : s.drops task = s.calls task := by
  refine le_antisymm (timely.dependable.drops_le task) ?_
  rw [drops, calls, List.countP_eq_length_filter, List.countP_eq_length_filter]
  refine ((timely.distinct.filter _).subperm fun pair member => ?_).length_le
  rw [List.mem_filter] at member ⊢
  obtain ⟨given, same⟩ := member
  have same : pair.1 = task := by simpa using same
  obtain ⟨other, dependency⟩ := pair
  obtain rfl : other = task := same
  have linked := (timely.dependable.kept.counted.dependents other dependency).mp given
  rw [unlocked] at linked
  have inside := linked.resolve_right (by simp)
  refine ⟨?_, by simp⟩
  exact timely.dependable.passed.finished dependency (finished dependency given) _ inside

/-- A task that was enqueued is in a queue, running or done. -/
theorem Dependable.present {address : Nat → Nat} {s : ThreadPool n}
    (dependable : Dependable address s) (task : Nat) (enqueued : task ∈ s.history.enqueued) :
    s.Present task := by
  have account := dependable.kept.conserved.accounted task
  have positive := List.count_pos_iff.mpr enqueued
  have execution := dependable.kept.executed task
  by_contra absent
  simp only [Present, not_or, not_exists] at absent
  obtain ⟨notGlobal, notLocal, notHeld, notExecuting, notFinished⟩ := absent
  have global := List.count_eq_zero_of_not_mem notGlobal
  have finished := List.count_eq_zero_of_not_mem notFinished
  have queues : localCount task s = 0 :=
    Finset.sum_eq_zero fun worker _ => List.count_eq_zero_of_not_mem (notLocal worker)
  have hands : pointSum (holds task) s = 0 :=
    Finset.sum_eq_zero fun worker _ => if_neg (notHeld worker)
  have running : pointSum (executes task) s = 0 :=
    Finset.sum_eq_zero fun worker _ => if_neg (notExecuting worker)
  unfold located at account
  omega

theorem Timely.noneStranded {address : Nat → Nat} {s : ThreadPool n} (timely : Timely address s) :
    NoneStranded s := by
  refine ⟨timely.alive, fun quiet task submitted given finished => ?_⟩
  have all := timely.all_dropped quiet.1 task finished
  have once := timely.dependable.readied.ready task given all
  have idle : ∀ worker, (s.worker worker).point.readies task = 0 ∧
      (s.worker worker).point.rereads task = 0 := by
    intro worker
    have none := quiet.2 worker
    cases point : (s.worker worker).point <;> rw [point] at none <;>
      simp_all [WorkerPoint.executing, WorkerPoint.readies, WorkerPoint.rereads]
  have noReadies : pointSum (WorkerPoint.readies task) s = 0 :=
    Finset.sum_eq_zero fun worker _ => (idle worker).1
  have noRereads : pointSum (WorkerPoint.rereads task) s = 0 :=
    Finset.sum_eq_zero fun worker _ => (idle worker).2
  refine timely.dependable.present task (List.count_pos_iff.mp ?_)
  rw [found, noReadies, noRereads] at once
  omega

/-- In every run in order in which each call of `add_dependency` names two registered tasks and
a new pair, no dependent task is left behind and no null pointer is dereferenced. -/
theorem noneStranded_of_inOrder (build : Build) (address : Nat → Nat)
    (actions : List (PoolAction n)) (final : ThreadPool n)
    (run : Run (StepOf (step build address)) (initial n) actions final)
    (named : Meets (StepOf (step build address)) NamesNewPair (initial n) actions)
    (inOrder : Meets (StepOf (step build address)) InOrder (initial n) actions) :
    NoneStranded final := by
  have timely : Timely address final := by
    refine run.invariant (initial_timely address) (fun s action t holds met taken => ?_)
      (named.and inOrder)
    exact moved_timely build address s t action holds met.1 met.2
      (moved_of_step build address s t action taken).2
  exact timely.noneStranded

/-- There is a first worker of one. -/
local instance oneWorker : NeZero 1 := ⟨one_ne_zero⟩

/-- A thread submits a task and gives it once as a dependency to a second one, and the worker
executes it. -/
def givenOnce : List (PoolAction 1) :=
  [.makeTask 0 .submit 0, .registerTask 0, .checkReady 0, .lockWorkers 0, .tryPushTask 0,
    .emplaceBack 0, .makeTask 0 .depSubmit 0, .registerTask 0, .checkReady 0,
    .addDependency 2 1, .insertDependent, .popFront 0, .runFunction 0, .visit 0, .decrement 0,
    .reread 0, .storeStatus 0, .enqueueTask 0, .visit 0, .deregisterTask 0]

theorem noneStranded_of_inOrder_givenOnce :
    ∃ final, Run (StepOf (step .debug id)) (initial 1) givenOnce final ∧
      final.history.finished = [1] ∧ NoneStranded final := by
  have done : ((exec (step .debug id) (initial 1) givenOnce).map fun s => s.history.finished) =
      some [1] := by
    decide
  obtain ⟨final, executed, finished⟩ := Option.map_eq_some_iff.mp done
  have run := run_of_exec executed
  refine ⟨final, run, finished, noneStranded_of_inOrder .debug id _ final run
    (meets_of_checks ?_) (meets_of_checks ?_)⟩
  · decide
  · decide

/-- The same pair is given twice, and the worker executes the dependency. -/
def givenTwice : List (PoolAction 1) :=
  [.makeTask 0 .submit 0, .registerTask 0, .checkReady 0, .lockWorkers 0, .tryPushTask 0,
    .emplaceBack 0, .makeTask 0 .depSubmit 0, .registerTask 0, .checkReady 0,
    .addDependency 2 1, .insertDependent, .addDependency 2 1, .insertDependent, .popFront 0,
    .runFunction 0, .visit 0, .decrement 0, .reread 0, .visit 0, .deregisterTask 0]

/-- The second task is left behind with a counter of one, and its only dependency has
finished. -/
theorem noneStranded_fails :
    ∃ final, Run (StepOf (step .debug id)) (initial 1) givenTwice final ∧
      ¬ NoneStranded final := by
  have done : ((exec (step .debug id) (initial 1) givenTwice).map fun s =>
      (s.adding, (s.worker 0).localQueue, (s.worker 0).point, s.globalQueue)) =
      some (none, [], .top, []) := by
    decide
  have logged : ((exec (step .debug id) (initial 1) givenTwice).map fun s =>
      (s.history.depSubmitted, s.history.given, s.history.finished)) =
      some ([2], [(2, 1), (2, 1)], [1]) := by
    decide
  obtain ⟨final, executed, shape⟩ := Option.map_eq_some_iff.mp done
  rw [executed, Option.map_some, Option.some.injEq] at logged
  simp only [Prod.mk.injEq] at shape logged
  obtain ⟨adding, localQueue, point, globalQueue⟩ := shape
  obtain ⟨depSubmitted, given, finished⟩ := logged
  have only : ∀ any : Fin 1, any = 0 := fun any => Subsingleton.elim any 0
  refine ⟨final, run_of_exec executed, fun none => ?_⟩
  have present := none.2 ⟨adding, fun any => by rw [only any, point]; rfl⟩ 2
    (by simp [depSubmitted]) ⟨1, by simp [given]⟩ (by simp [given, finished])
  simp [Present, globalQueue, localQueue, point, WorkerPoint.held, WorkerPoint.executing,
    finished] at present

end ThreadPool

end YYNet
