/-
This file follows the counters of unresolved dependencies.

`add_dependency` increments the counter of a task on every call, and puts the
task into the set of dependents of its dependency. `BaseTask::execute` decrements
the counter of every dependent the iteration over that set comes to. The
counter, a 32-bit integer, is the number of calls less the number of
decrements; the dependents of a task are the tasks that were given it as a
dependency; and a decrement is made for a task whose function has been called
and on a dependent of that task. All of this holds in every reachable state,
under any interleaving.
-/

import YYNet.ThreadPool.Conserve

namespace YYNet

open Checked Transition OrderedSet

namespace WorkerPoint

/-- The task whose function a worker has called and whose dependents it visits. -/
def executing : WorkerPoint → Option Nat
  | visiting task _ => some task
  | decrementing task _ => some task
  | rereading task _ => some task
  | storing task _ => some task
  | enqueueing task _ => some task
  | _ => none

/-- The dependent of a task at which a worker is. -/
def place : WorkerPoint → Option (Nat × TaskPtr)
  | decrementing task dependent => some (task, dependent)
  | rereading task dependent => some (task, dependent)
  | storing task dependent => some (task, dependent)
  | enqueueing task dependent => some (task, dependent)
  | _ => none

end WorkerPoint

namespace ThreadPool

variable {n : Nat}

/-! ### Calls and decrements -/

/-- How often a task was given a dependency. -/
def calls (s : ThreadPool n) (task : Nat) : Nat :=
  s.history.given.countP fun pair => pair.1 = task

/-- How often the counter of a task was decremented. -/
def drops (s : ThreadPool n) (task : Nat) : Nat :=
  s.history.dropped.countP fun pair => pair.1 = task

/-- The pointer to a task. -/
def pointer (address : Nat → Nat) (task : Nat) : TaskPtr := toLex (address task, task)

theorem pointer_task (address : Nat → Nat) (task : Nat) : (pointer address task).task = task := rfl

/-! ### Executions -/

/-- Whether a worker is executing a task, as a number. -/
def executes (task : Nat) (point : WorkerPoint) : Nat :=
  if point.executing = some task then 1 else 0

/-- A call of a function is behind an execution that is going on or has finished. -/
def Executed (s : ThreadPool n) : Prop :=
  ∀ task, pointSum (executes task) s + s.history.finished.count task = s.history.ran.count task

theorem initial_executed : Executed (initial n) := by
  intro task
  simp [pointSum, executes, initial, WorkerPoint.executing]

/-- The executions when one worker moves. -/
theorem executed_of_point {s t : ThreadPool n} (executed : Executed s) (worker : Fin n)
    (point : WorkerPoint)
    (points : ∀ other, (t.worker other).point =
      if other = worker then point else (s.worker other).point)
    (balance : ∀ task, executes task point + t.history.finished.count task +
        s.history.ran.count task =
      executes task (s.worker worker).point + s.history.finished.count task +
        t.history.ran.count task) : Executed t := by
  intro task
  have moved := pointSum_of_points (executes task) worker point points
  have before := executed task
  have balanced := balance task
  omega

/-- Every step keeps the executions. -/
theorem moved_executed (build : Build) (address : Nat → Nat) (s t : ThreadPool n)
    (action : PoolAction n) (executed : Executed s) (moved : Moved build address s action t) :
    Executed t := by
  cases moved with
  | make | register | ready | lockWorkers | full | room | allFull | count | nullTask | link
  | nullDependency => exact executed
  | notReady thread call | enqueueGlobal thread call =>
    cases call
    · exact executed
    · exact executed
  | push thread call task index point inside =>
    have points (task' : Nat) := pointSum_setLocalQueue (executes task') s ⟨index, inside⟩
      ((s.worker ⟨index, inside⟩).localQueue ++ [task])
    cases call
    · exact fun task' => (congrArg (· + _) (points task')).trans (executed task')
    · exact fun task' => (congrArg (· + _) (points task')).trans (executed task')
  | pop worker task rest point queue =>
    refine executed_of_point executed worker (.holding task) (fun other => ?_) fun task => ?_
    · rw [setPoint_point, setLocalQueue_point]
    · rw [point]
      rfl
  | steal worker victim task point other back =>
    refine executed_of_point executed worker (.holding task) (fun other => ?_) fun task => ?_
    · show (((s.setLocalQueue victim _).setPoint worker _).worker other).point = _
      rw [setPoint_point, setLocalQueue_point]
    · rw [point]
      rfl
  | localEmpty worker point | globalEmpty worker _ point | dequeue worker _ point
  | lockVictims worker point | pass worker _ _ point | nothing worker _ _ point
  | wait worker point | visit worker _ _ _ point | decrement worker _ _ point
  | zero worker _ _ point | notZero worker _ _ point | store worker _ _ point
  | enqueue worker _ _ point | deregister worker _ point =>
    refine executed_of_point executed worker _ (setPoint_point s worker · _) fun task => ?_
    rw [point]
    rfl
  | run worker called point =>
    refine executed_of_point executed worker _ (setPoint_point s worker · _) fun task => ?_
    rw [point, List.count_cons]
    simp only [executes, WorkerPoint.executing, reduceCtorEq, if_false, Option.some.injEq,
      beq_iff_eq]
    show _ + s.history.finished.count task + _ = _
    omega
  | finish worker task passed point last =>
    refine executed_of_point executed worker _ (setPoint_point s worker · _) fun task => ?_
    rw [point, List.count_cons]
    simp only [executes, WorkerPoint.executing, reduceCtorEq, if_false, Option.some.injEq,
      beq_iff_eq]
    show _ + s.history.ran.count task = _ + s.history.ran.count task
    omega

/-- A worker that executes a task has called its function. -/
theorem Executed.ran {s : ThreadPool n} (executed : Executed s) {worker : Fin n} {task : Nat}
    (execution : (s.worker worker).point.executing = some task) : task ∈ s.history.ran := by
  have share : executes task (s.worker worker).point = 1 := by simp [executes, execution]
  have part := share_le_pointSum (executes task) s worker
  have whole := executed task
  exact List.count_pos_iff.mp (by omega)

/-! ### The counters and the sets of dependents -/

/-- What the counters and the sets of dependents say about the calls and the decrements. -/
structure Counted (address : Nat → Nat) (s : ThreadPool n) : Prop where
  untouched : ∀ task, s.counter < task → (s.task task).dependents = []
  counter : ∀ task, (s.task task).unresolvedDependencies =
    BitVec.ofNat 32 (s.calls task) - BitVec.ofNat 32 (s.drops task)
  dependents : ∀ task dependency, (task, dependency) ∈ s.history.given ↔
    pointer address task ∈ (s.task dependency).dependents ∨ s.adding = some (task, dependency)
  pointers : ∀ task, ∀ dependent ∈ (s.task task).dependents,
    dependent = pointer address dependent.task
  ordered : ∀ task, Ordered (s.task task).dependents
  places : ∀ worker task dependent, (s.worker worker).point.place = some (task, dependent) →
    dependent ∈ (s.task task).dependents
  dropped : ∀ task dependency, (task, dependency) ∈ s.history.dropped →
    (task, dependency) ∈ s.history.given ∧ dependency ∈ s.history.ran

theorem initial_counted (address : Nat → Nat) : Counted address (initial n) where
  untouched task _ := rfl
  counter task := by simp [initial, calls, drops]
  dependents task dependency := by simp [initial]
  pointers task dependent member := by simp [initial] at member
  ordered task := List.Pairwise.nil
  places worker task dependent place := by simp [initial, WorkerPoint.place] at place
  dropped task dependency member := by simp [initial] at member

theorem setTask_task (s : ThreadPool n) (id other : Nat) (task : BaseTask) :
    (s.setTask id task).task other = if other = id then task else s.task other := by
  simp [setTask, Function.update_apply]

/-- What the new value of a task has in common with the old one, every task keeps. -/
theorem setTask_field {Field : Type} (field : BaseTask → Field) {s : ThreadPool n} {id : Nat}
    {task : BaseTask} (same : field task = field (s.task id)) (other : Nat) :
    field ((s.setTask id task).task other) = field (s.task other) := by
  rw [setTask_task]
  split
  · rename_i isId
    rw [same, isId]
  · rfl

/-- A task that was never given a dependency was not called for. -/
theorem calls_eq_zero {s : ThreadPool n} {task : Nat} (notGiven : ¬ s.Given task) :
    s.calls task = 0 := by
  refine List.countP_eq_zero.mpr fun pair member => ?_
  simp only [decide_eq_true_eq]
  rintro rfl
  exact notGiven ⟨pair.2, member⟩

/-- A task that was never given a dependency was never decremented. -/
theorem drops_eq_zero {address : Nat → Nat} {s : ThreadPool n} (counted : Counted address s)
    {task : Nat} (notGiven : ¬ s.Given task) : s.drops task = 0 := by
  refine List.countP_eq_zero.mpr fun pair member => ?_
  simp only [decide_eq_true_eq]
  rintro rfl
  exact notGiven ⟨pair.2, (counted.dropped pair.1 pair.2 member).1⟩

/-- A step of a worker that changes neither counters nor dependents. -/
theorem counted_of_point {address : Nat → Nat} {s t : ThreadPool n} (counted : Counted address s)
    (worker : Fin n) (point : WorkerPoint)
    (points : ∀ other, (t.worker other).point =
      if other = worker then point else (s.worker other).point)
    (counter : t.counter = s.counter)
    (unresolved : ∀ task, (t.task task).unresolvedDependencies =
      (s.task task).unresolvedDependencies)
    (dependents : ∀ task, (t.task task).dependents = (s.task task).dependents)
    (adding : t.adding = s.adding) (given : t.history.given = s.history.given)
    (dropped : t.history.dropped = s.history.dropped)
    (ran : ∀ task ∈ s.history.ran, task ∈ t.history.ran)
    (place : ∀ task dependent, point.place = some (task, dependent) →
      dependent ∈ (s.task task).dependents) : Counted address t where
  untouched task unused := by
    rw [dependents]
    exact counted.untouched task (counter ▸ unused)
  counter task := by
    rw [unresolved, calls, drops, given, dropped]
    exact counted.counter task
  dependents task dependency := by
    rw [given, dependents, adding]
    exact counted.dependents task dependency
  pointers task := by
    rw [dependents]
    exact counted.pointers task
  ordered task := by
    rw [dependents]
    exact counted.ordered task
  places other task dependent at' := by
    rw [points] at at'
    rw [dependents]
    split at at'
    · exact place task dependent at'
    · exact counted.places other task dependent at'
  dropped task dependency member := by
    rw [given]
    rw [dropped] at member
    exact ⟨(counted.dropped task dependency member).1,
      ran dependency (counted.dropped task dependency member).2⟩

/-- A step of a user thread that changes neither counters nor dependents. -/
theorem counted_of_same {address : Nat → Nat} {s t : ThreadPool n} (counted : Counted address s)
    (points : ∀ worker, (t.worker worker).point = (s.worker worker).point)
    (counter : t.counter = s.counter) (tasks : t.task = s.task) (adding : t.adding = s.adding)
    (given : t.history.given = s.history.given)
    (dropped : t.history.dropped = s.history.dropped)
    (ran : t.history.ran = s.history.ran) : Counted address t where
  untouched := by
    rw [counter, tasks]
    exact counted.untouched
  counter task := by
    rw [tasks, calls, drops, given, dropped]
    exact counted.counter task
  dependents := by
    rw [given, tasks, adding]
    exact counted.dependents
  pointers := by
    rw [tasks]
    exact counted.pointers
  ordered := by
    rw [tasks]
    exact counted.ordered
  places worker task dependent at' := by
    rw [points] at at'
    rw [tasks]
    exact counted.places worker task dependent at'
  dropped := by
    rw [dropped, given, ran]
    exact counted.dropped

theorem returned_dropped (s : ThreadPool n) (thread : Nat) (call : SubmitCall) (task : Nat) :
    (s.returned thread call task).history.dropped = s.history.dropped := by
  cases call <;> rfl

/-- Making a task. -/
theorem counted_of_make {address : Nat → Nat} {s t : ThreadPool n} (counted : Counted address s)
    (numbered : Numbered s) (task : BaseTask) (unresolved : task.unresolvedDependencies = 0)
    (dependents : task.dependents = []) (workers : t.worker = s.worker)
    (counter : t.counter = s.counter + 1)
    (tasks : t.task = Function.update s.task (s.counter + 1) task) (adding : t.adding = s.adding)
    (history : t.history = s.history) : Counted address t := by
  have new : ¬ s.Given (s.counter + 1) := fun given =>
    absurd (numbered.given _ given) (Nat.not_succ_le_self _)
  have sets : ∀ other, (t.task other).dependents = (s.task other).dependents := by
    intro other
    rw [tasks, Function.update_apply]
    split
    · rename_i same
      rw [dependents, same, counted.untouched _ (Nat.lt_succ_self _)]
    · rfl
  refine ⟨fun other unused => ?_, fun other => ?_, fun other dependency => ?_, fun other => ?_,
    fun other => ?_, fun worker other dependent at' => ?_, ?_⟩
  · rw [sets]
    exact counted.untouched other (by omega)
  · rw [tasks, Function.update_apply, calls, drops, history]
    split
    · rename_i same
      have noCalls := calls_eq_zero new
      have noDrops := drops_eq_zero counted new
      rw [unresolved, same, ← calls, ← drops, noCalls, noDrops]
      rfl
    · exact counted.counter other
  · rw [history, sets, adding]
    exact counted.dependents other dependency
  · rw [sets]
    exact counted.pointers other
  · rw [sets]
    exact counted.ordered other
  · rw [sets]
    rw [workers] at at'
    exact counted.places worker other dependent at'
  · rw [history]
    exact counted.dropped

/-- The first half of `add_dependency` counts the call. -/
theorem counted_of_count {address : Nat → Nat} {s : ThreadPool n} (counted : Counted address s)
    (task dependency : Nat) (unlocked : s.adding = none) :
    Counted address { s.setTask task { s.task task with
        unresolvedDependencies := (s.task task).unresolvedDependencies + 1 } with
      adding := some (task, dependency)
      history := { s.history with given := (task, dependency) :: s.history.given } } := by
  have sets : ∀ other, ((s.setTask task { s.task task with
      unresolvedDependencies := (s.task task).unresolvedDependencies + 1 }).task other).dependents =
        (s.task other).dependents := by
    exact setTask_field BaseTask.dependents rfl
  refine ⟨fun other unused => ?_, fun other => ?_, fun other known => ?_, fun other => ?_,
    fun other => ?_, fun worker other dependent at' => ?_, fun other known member => ?_⟩
  · exact (sets other).trans (counted.untouched other unused)
  · show ((s.setTask task _).task other).unresolvedDependencies =
      BitVec.ofNat 32 (((task, dependency) :: s.history.given).countP _) -
        BitVec.ofNat 32 (s.drops other)
    have before := counted.counter other
    rw [setTask_task, List.countP_cons]
    by_cases same : other = task
    · subst same
      rw [if_pos rfl, if_pos (by simp), ← calls, BitVec.ofNat_add]
      show (s.task other).unresolvedDependencies + 1 = _
      rw [before]
      bv_omega
    · rw [if_neg same, if_neg (by simpa using Ne.symm same), ← calls, Nat.add_zero]
      exact before
  · have before := counted.dependents other known
    rw [unlocked] at before
    show _ ↔ _ ∈ ((s.setTask task _).task known).dependents ∨ _
    rw [sets]
    simp only [List.mem_cons, Prod.mk.injEq, before, Option.some.injEq, reduceCtorEq, or_false]
    tauto
  · exact (sets other).symm ▸ counted.pointers other
  · exact (sets other).symm ▸ counted.ordered other
  · exact (sets other).symm ▸ counted.places worker other dependent at'
  · have before := counted.dropped other known member
    exact ⟨List.mem_cons_of_mem _ before.1, before.2⟩

/-- The second half of `add_dependency` links the dependent. -/
theorem counted_of_link {address : Nat → Nat} {s : ThreadPool n} (counted : Counted address s)
    (numbered : Numbered s) (task dependency : Nat)
    (locked : s.adding = some (task, dependency)) (registered : s.allTasks dependency = true) :
    Counted address { s.setTask dependency { s.task dependency with
        dependents := put (toLex (address task, task)) (s.task dependency).dependents } with
      adding := none } := by
  have members : ∀ other dependent, dependent ∈ ((s.setTask dependency { s.task dependency with
      dependents := put (toLex (address task, task)) (s.task dependency).dependents }).task
        other).dependents ↔
      (other = dependency ∧ dependent = pointer address task) ∨
        dependent ∈ (s.task other).dependents := by
    intro other dependent
    rw [setTask_task]
    by_cases same : other = dependency
    · subst same
      simp only [if_true, mem_put, true_and]
      rfl
    · simp [same]
  refine ⟨fun other unused => ?_, fun other => ?_, fun other known => ?_,
    fun other dependent member => ?_, fun other => ?_, fun worker other dependent at' => ?_,
    counted.dropped⟩
  · have different : other ≠ dependency := by
      rintro rfl
      exact absurd (numbered.registered other registered) (not_le.mpr unused)
    show ((s.setTask dependency _).task other).dependents = []
    rw [setTask_task, if_neg different]
    exact counted.untouched other unused
  · have before := counted.counter other
    exact (setTask_field BaseTask.unresolvedDependencies (by rfl) other).trans before
  · have before := counted.dependents other known
    rw [locked] at before
    show (other, known) ∈ s.history.given ↔
      _ ∈ ((s.setTask dependency _).task known).dependents ∨ none = _
    rw [members, before]
    simp only [Option.some.injEq, Prod.mk.injEq, reduceCtorEq, or_false]
    constructor
    · rintro (old | ⟨rfl, rfl⟩)
      · exact .inr old
      · exact .inl ⟨rfl, rfl⟩
    · rintro (⟨rfl, same⟩ | old)
      · have tasks := congrArg TaskPtr.task same
        rw [pointer_task, pointer_task] at tasks
        exact .inr ⟨tasks.symm, rfl⟩
      · exact .inl old
  · rcases (members other dependent).mp member with ⟨-, rfl⟩ | old
    · rfl
    · exact counted.pointers other dependent old
  · show Ordered ((s.setTask dependency _).task other).dependents
    rw [setTask_task]
    split
    · exact ordered_put _ _ (counted.ordered dependency)
    · exact counted.ordered other
  · exact (members other dependent).mpr (.inr (counted.places worker other dependent at'))

/-- A decrement is counted. -/
theorem counted_of_decrement {address : Nat → Nat} {s : ThreadPool n}
    (counted : Counted address s) (executed : Executed s) (worker : Fin n) (task : Nat)
    (dependent : TaskPtr) (point : (s.worker worker).point = .decrementing task dependent) :
    Counted address { (s.setPoint worker (.rereading task dependent)).setTask dependent.task
        { s.task dependent.task with
          unresolvedDependencies := (s.task dependent.task).unresolvedDependencies - 1 } with
      history := { s.history with
        dropped := (dependent.task, task) :: s.history.dropped } } := by
  have inside : dependent ∈ (s.task task).dependents :=
    counted.places worker task dependent (by rw [point]; rfl)
  have sets : ∀ other, (((s.setPoint worker (.rereading task dependent)).setTask dependent.task
      { s.task dependent.task with
        unresolvedDependencies := (s.task dependent.task).unresolvedDependencies - 1 }).task
          other).dependents = (s.task other).dependents := by
    exact setTask_field BaseTask.dependents rfl
  refine ⟨fun other unused => ?_, fun other => ?_, fun other known => ?_, fun other => ?_,
    fun other => ?_, fun other known visited at' => ?_, fun other known member => ?_⟩
  · exact (sets other).trans (counted.untouched other unused)
  · show (((s.setPoint worker _).setTask dependent.task _).task other).unresolvedDependencies =
      BitVec.ofNat 32 (s.calls other) -
        BitVec.ofNat 32 (((dependent.task, task) :: s.history.dropped).countP _)
    have before := counted.counter other
    rw [setTask_task, List.countP_cons]
    by_cases same : other = dependent.task
    · subst same
      rw [if_pos rfl, if_pos (by simp), ← drops, BitVec.ofNat_add]
      show (s.task dependent.task).unresolvedDependencies - 1 = _
      rw [before]
      bv_omega
    · rw [if_neg same, if_neg (by simpa using Ne.symm same), ← drops, Nat.add_zero]
      exact before
  · show _ ↔ _ ∈ (((s.setPoint worker _).setTask dependent.task _).task known).dependents ∨ _
    rw [sets]
    exact counted.dependents other known
  · exact (sets other).symm ▸ counted.pointers other
  · exact (sets other).symm ▸ counted.ordered other
  · refine (sets known).symm ▸ ?_
    have place : ((s.setPoint worker (.rereading task dependent)).worker other).point.place =
        some (known, visited) := at'
    rw [setPoint_point] at place
    split at place
    · obtain ⟨rfl, rfl⟩ := Prod.mk.inj (Option.some.inj place)
      exact inside
    · exact counted.places other known visited place
  · rcases List.mem_cons.mp member with same | old
    · obtain ⟨rfl, rfl⟩ := Prod.mk.inj same
      have execution : (s.worker worker).point.executing = some known := by
        rw [point]
        rfl
      refine ⟨(counted.dependents _ _).mpr (.inl ?_), executed.ran execution⟩
      exact counted.pointers _ dependent inside ▸ inside
    · exact counted.dropped other known old

/-- Every step keeps the count. -/
theorem moved_counted (build : Build) (address : Nat → Nat) (s t : ThreadPool n)
    (action : PoolAction n) (numbered : Numbered s) (executed : Executed s)
    (counted : Counted address s) (moved : Moved build address s action t) :
    Counted address t := by
  cases moved with
  | make thread call rank idle =>
    exact counted_of_make counted numbered _ rfl rfl rfl rfl rfl rfl rfl
  | register | ready | lockWorkers | full | room | allFull | nullTask | nullDependency =>
    exact counted_of_same counted (fun _ => rfl) rfl rfl rfl rfl rfl rfl
  | notReady | enqueueGlobal =>
    exact counted_of_same counted (fun _ => rfl) rfl rfl rfl (returned_given _ _ _ _)
      (returned_dropped _ _ _ _) (returned_ran _ _ _ _)
  | push =>
    exact counted_of_same counted (fun worker => setLocalQueue_point s _ worker _) rfl rfl rfl
      (returned_given _ _ _ _) (returned_dropped _ _ _ _) (returned_ran _ _ _ _)
  | count task dependency unlocked => exact counted_of_count counted task dependency unlocked
  | link task dependency locked registered =>
    exact counted_of_link counted numbered task dependency locked registered
  | pop worker task rest point queue =>
    refine counted_of_point counted worker (.holding task) (fun other => ?_) rfl (fun _ => rfl)
      (fun _ => rfl) rfl rfl rfl (fun _ => id) (fun _ _ impossible => by cases impossible)
    rw [setPoint_point, setLocalQueue_point]
  | steal worker victim task point other back =>
    refine counted_of_point counted worker (.holding task) (fun other => ?_) rfl (fun _ => rfl)
      (fun _ => rfl) rfl rfl rfl (fun _ => id) (fun _ _ impossible => by cases impossible)
    show (((s.setLocalQueue victim _).setPoint worker _).worker other).point = _
    rw [setPoint_point, setLocalQueue_point]
  | localEmpty worker | globalEmpty worker | dequeue worker | lockVictims worker | pass worker
  | nothing worker | wait worker | finish worker | notZero worker | enqueue worker
  | deregister worker =>
    exact counted_of_point counted worker _ (setPoint_point s worker · _) rfl (fun _ => rfl)
      (fun _ => rfl) rfl rfl rfl (fun _ => id) (fun _ _ impossible => by cases impossible)
  | run worker task point =>
    exact counted_of_point counted worker _ (setPoint_point s worker · _) rfl (fun _ => rfl)
      (fun _ => rfl) rfl rfl rfl (fun _ => List.mem_cons_of_mem _)
      (fun _ _ impossible => by cases impossible)
  | visit worker task passed dependent point next =>
    refine counted_of_point counted worker _ (setPoint_point s worker · _) rfl (fun _ => rfl)
      (fun _ => rfl) rfl rfl rfl (fun _ => id) (fun _ _ place => ?_)
    obtain ⟨rfl, rfl⟩ := Prod.mk.inj (Option.some.inj place)
    exact nextDependent_mem next
  | decrement worker task dependent point =>
    exact counted_of_decrement counted executed worker task dependent point
  | zero worker task dependent point =>
    exact counted_of_point counted worker _ (setPoint_point s worker · _) rfl (fun _ => rfl)
      (fun _ => rfl) rfl rfl rfl (fun _ => id)
      (fun task dependent place => counted.places worker task dependent (by rw [point]; exact place))
  | store worker task dependent point =>
    exact counted_of_point counted worker _ (setPoint_point s worker · _) rfl
      (setTask_field BaseTask.unresolvedDependencies rfl)
      (setTask_field BaseTask.dependents rfl) rfl rfl rfl (fun _ => id)
      (fun task dependent place => counted.places worker task dependent (by rw [point]; exact place))

/-- The invariant of the pool's tasks and their counters. -/
structure Kept (address : Nat → Nat) (s : ThreadPool n) : Prop where
  conserved : Conserved s
  executed : Executed s
  counted : Counted address s

theorem initial_kept (address : Nat → Nat) : Kept address (initial n) :=
  ⟨initial_conserved, initial_executed, initial_counted address⟩

theorem moved_kept (build : Build) (address : Nat → Nat) (s t : ThreadPool n)
    (action : PoolAction n) (kept : Kept address s) (moved : Moved build address s action t) :
    Kept address t where
  conserved := moved_conserved build address s t action kept.conserved moved
  executed := moved_executed build address s t action kept.executed moved
  counted := moved_counted build address s t action kept.conserved.numbered kept.executed
    kept.counted moved

end ThreadPool

end YYNet
