/-
This file models `ThreadPool` as a state machine over the steps of its threads.

Any number of user threads call `submit`, `dep_submit` and `add_dependency`
and `n` workers run `Worker::run`. What a thread does under a mutex is one
step, with two exceptions: `workers_mutex` is held across several steps, since
`try_add_task` tests the size of a local queue without that queue's own mutex,
and `add_dependency` holds `tasks_mutex` across two steps, since it does not
hold off the steps of `BaseTask::execute`. Steps of `execute` (the function,
and for each dependent the assertion, the decrement, the second reading of the
counter, the store of the status and the enqueueing) are steps of the machine.

The action holds what the environment chooses: which thread moves, at which
address a task is allocated (through `address`), which of several equally ranked
tasks is the top of the global queue, and whether a `try_to_lock` succeeds. The
pool has not been shut down and no monitor strategy is set, so the workers stay
the same. Condition variables are left out: a wait ends at any time.
-/

import YYNet.Lib.Transition
import YYNet.Lib.Checked
import YYNet.Lib.OrderedSet
import YYNet.Lib.Tally

namespace YYNet

open Checked Transition OrderedSet

/-! ### Tasks -/

/-- `TaskStatus`. -/
inductive TaskStatus
  | dependency
  | pending
  | running
  | completed
  | failed
  deriving DecidableEq, Repr

/-- A shared pointer to a task: its address and the task's id, in dictionary order. -/
abbrev TaskPtr := Nat ×ₗ Nat

/-- The task of a pointer. -/
def TaskPtr.task (ptr : TaskPtr) : Nat := (ofLex ptr).2

/-- `BaseTask`; the rank is `arrival_time` of an `FsfcTask` or `priority_` of a
`PriorityTask`. -/
structure BaseTask where
  rank : Int := 0
  status : TaskStatus := .pending
  unresolvedDependencies : BitVec 32 := 0
  dependents : List TaskPtr := []
  deriving DecidableEq

/-- `is_ready`. -/
def BaseTask.isReady (task : BaseTask) : Bool := task.status = .pending

/-! ### Where the threads are -/

/-- The two calls that make a task. -/
inductive SubmitCall
  | submit
  | depSubmit
  deriving DecidableEq, Repr

/-- Where a user thread is in `submit` or `dep_submit`. -/
inductive SubmitPoint
  | idle
  | registering (call : SubmitCall) (task : Nat)
  | checking (call : SubmitCall) (task : Nat)
  | locking (call : SubmitCall) (task : Nat)
  /-- In `try_add_task`, about to test the size of a local queue. -/
  | trying (call : SubmitCall) (task : Nat) (index : Nat)
  /-- In `try_push_task`, the size having passed the test. -/
  | pushing (call : SubmitCall) (task : Nat) (index : Nat)
  | enqueueing (call : SubmitCall) (task : Nat)
  deriving DecidableEq, Repr

/-- Where a worker is in `run`. -/
inductive WorkerPoint
  | top
  | dequeueing
  | lockingWorkers
  /-- In `try_steal_task`, about to look at a victim. -/
  | stealing (victim : Nat)
  | waiting
  /-- The worker has a task and has not called its function. -/
  | holding (task : Nat)
  /-- At the head of the loop over the dependents, behind the ones up to `passed`. -/
  | visiting (task : Nat) (passed : Option TaskPtr)
  | decrementing (task : Nat) (dependent : TaskPtr)
  | rereading (task : Nat) (dependent : TaskPtr)
  | storing (task : Nat) (dependent : TaskPtr)
  | enqueueing (task : Nat) (dependent : TaskPtr)
  | deregistering (task : Nat)
  deriving DecidableEq

/-- `Worker`. -/
structure Worker where
  localQueue : List Nat := []
  point : WorkerPoint := .top
  deriving DecidableEq

/-- Who holds `workers_mutex`. -/
inductive Holder (n : Nat)
  | thread (thread : Nat)
  | worker (worker : Fin n)
  deriving DecidableEq

/-! ### The pool -/

/-- What has happened: the tasks whose `submit` and `dep_submit` have returned, the pairs given
to `add_dependency`, the pushes onto any queue, the calls of functions, the decrements (of a
dependent, for a task) and the returns of `execute`. -/
structure PoolHistory where
  submitted : List Nat := []
  depSubmitted : List Nat := []
  given : List (Nat × Nat) := []
  enqueued : List Nat := []
  ran : List Nat := []
  dropped : List (Nat × Nat) := []
  finished : List Nat := []

/-- `ThreadPool` with `n` workers. -/
structure ThreadPool (n : Nat) where
  /-- The counter of `generate_id`. -/
  counter : Nat
  task : Nat → BaseTask
  /-- The ids in `all_tasks`. -/
  allTasks : Nat → Bool
  /-- The pair of an `add_dependency` between its two locked sections; it holds
  `tasks_mutex`. -/
  adding : Option (Nat × Nat)
  globalQueue : List Nat
  worker : Fin n → Worker
  workersMutex : Option (Holder n)
  thread : Nat → SubmitPoint
  /-- A null pointer was dereferenced. -/
  crashed : Bool
  history : PoolHistory

namespace ThreadPool

/-- `queue_capacity`, which is never changed. -/
def queueCapacity : Nat := 2

variable {n : Nat}

/-- A new pool. -/
def initial (n : Nat) : ThreadPool n where
  counter := 0
  task _ := {}
  allTasks _ := false
  adding := none
  globalQueue := []
  worker _ := {}
  workersMutex := none
  thread _ := .idle
  crashed := false
  history := {}

/-- Write one task. -/
def setTask (s : ThreadPool n) (id : Nat) (task : BaseTask) : ThreadPool n :=
  { s with task := Function.update s.task id task }

/-- Move one user thread. -/
def setThread (s : ThreadPool n) (thread : Nat) (point : SubmitPoint) : ThreadPool n :=
  { s with thread := Function.update s.thread thread point }

/-- Move one worker. -/
def setPoint (s : ThreadPool n) (worker : Fin n) (point : WorkerPoint) : ThreadPool n :=
  { s with worker := Function.update s.worker worker { s.worker worker with point := point } }

/-- Write the local queue of one worker. -/
def setLocalQueue (s : ThreadPool n) (worker : Fin n) (queue : List Nat) : ThreadPool n :=
  { s with worker := Function.update s.worker worker { s.worker worker with localQueue := queue } }

/-- The call of a user thread returns. -/
def returned (s : ThreadPool n) (thread : Nat) (call : SubmitCall) (task : Nat) : ThreadPool n :=
  { s.setThread thread .idle with
    history := match call with
      | .submit => { s.history with submitted := task :: s.history.submitted }
      | .depSubmit => { s.history with depSubmitted := task :: s.history.depSubmitted } }

/-! ### `submit` and `dep_submit` -/

/-- Make a task: a new id, the status of the call, and the rank. -/
def makeTask (s : ThreadPool n) (thread : Nat) (call : SubmitCall) (rank : Int) :
    Option (ThreadPool n) :=
  match s.thread thread with
  | .idle =>
    let id := s.counter + 1
    some { (s.setThread thread (.registering call id)).setTask id
        { rank := rank
          status := match call with
            | .submit => .pending
            | .depSubmit => .dependency } with
      counter := id }
  | _ => none

/-- `TaskManager::register_task`, under `tasks_mutex`. -/
def registerTask (s : ThreadPool n) (thread : Nat) : Option (ThreadPool n) :=
  match s.thread thread, s.adding with
  | .registering call task, none =>
    some { s.setThread thread (.checking call task) with
      allTasks := Function.update s.allTasks task true }
  | _, _ => none

/-- The test `task->is_ready()`. -/
def checkReady (s : ThreadPool n) (thread : Nat) : Option (ThreadPool n) :=
  match s.thread thread with
  | .checking call task =>
    if (s.task task).isReady then some (s.setThread thread (.locking call task))
    else some (s.returned thread call task)
  | _ => none

/-- `try_add_task` locks `workers_mutex`. -/
def lockWorkers (s : ThreadPool n) (thread : Nat) : Option (ThreadPool n) :=
  match s.thread thread, s.workersMutex with
  | .locking call task, none =>
    some { s.setThread thread (.trying call task 0) with workersMutex := some (.thread thread) }
  | _, _ => none

/-- The loop of `try_add_task` and the size test of `try_push_task`. Behind the last worker
`workers_mutex` is unlocked. -/
def tryPushTask (s : ThreadPool n) (thread : Nat) : Option (ThreadPool n) :=
  match s.thread thread with
  | .trying call task index =>
    if inside : index < n then
      if queueCapacity ≤ (s.worker ⟨index, inside⟩).localQueue.length then
        some (s.setThread thread (.trying call task (index + 1)))
      else some (s.setThread thread (.pushing call task index))
    else some { s.setThread thread (.enqueueing call task) with workersMutex := none }
  | _ => none

/-- `try_push_task` pushes the task, `try_add_task` unlocks `workers_mutex` and the call
returns. -/
def emplaceBack (s : ThreadPool n) (thread : Nat) : Option (ThreadPool n) :=
  match s.thread thread with
  | .pushing call task index =>
    if inside : index < n then
      let pushed := s.setLocalQueue ⟨index, inside⟩
        ((s.worker ⟨index, inside⟩).localQueue ++ [task])
      some (returned { pushed with
        workersMutex := none
        history := { s.history with enqueued := task :: s.history.enqueued } } thread call task)
    else none
  | _ => none

/-- `GlobalTaskManager::enqueue_task` by a submitting thread, whose call then returns. -/
def enqueueGlobal (s : ThreadPool n) (thread : Nat) : Option (ThreadPool n) :=
  match s.thread thread with
  | .enqueueing call task =>
    some (returned { s with
      globalQueue := task :: s.globalQueue
      history := { s.history with enqueued := task :: s.history.enqueued } } thread call task)
  | _ => none

/-! ### `add_dependency` -/

/-- The first half: look up both ids under `tasks_mutex` and increment the counter of the
task. -/
def addDependency (s : ThreadPool n) (task dependency : Nat) : Option (ThreadPool n) :=
  match s.adding with
  | none =>
    if s.allTasks task then
      some { s.setTask task { s.task task with
          unresolvedDependencies := (s.task task).unresolvedDependencies + 1 } with
        adding := some (task, dependency)
        history := { s.history with given := (task, dependency) :: s.history.given } }
    else some { s with crashed := true }
  | some _ => none

/-- The second half: insert the task into the dependents of its dependency. -/
def insertDependent (s : ThreadPool n) (address : Nat → Nat) : Option (ThreadPool n) :=
  match s.adding with
  | some (task, dependency) =>
    if s.allTasks dependency then
      some { s.setTask dependency { s.task dependency with
          dependents := put (toLex (address task, task)) (s.task dependency).dependents } with
        adding := none }
    else some { s with crashed := true }
  | none => none

/-! ### `Worker::run` -/

/-- Pop the front of the worker's own queue. -/
def popFront (s : ThreadPool n) (worker : Fin n) : Option (ThreadPool n) :=
  match (s.worker worker).point, (s.worker worker).localQueue with
  | .top, task :: rest => some ((s.setLocalQueue worker rest).setPoint worker (.holding task))
  | .top, [] => some (s.setPoint worker .dequeueing)
  | _, _ => none

/-- A task that the comparison of either strategy puts behind no other. -/
def IsTop (s : ThreadPool n) (task : Nat) : Prop :=
  task ∈ s.globalQueue ∧ ∀ other ∈ s.globalQueue, (s.task task).rank ≤ (s.task other).rank

instance (s : ThreadPool n) (task : Nat) : Decidable (s.IsTop task) :=
  inferInstanceAs (Decidable (_ ∧ _))

/-- `GlobalTaskManager::dequeue_task`: take the top of a queue that is not empty. -/
def dequeueTask (s : ThreadPool n) (worker : Fin n) (top : Nat) : Option (ThreadPool n) :=
  match (s.worker worker).point, s.globalQueue with
  | .dequeueing, [] => some (s.setPoint worker .lockingWorkers)
  | .dequeueing, _ :: _ =>
    if s.IsTop top then
      some { s.setPoint worker (.holding top) with globalQueue := s.globalQueue.erase top }
    else none
  | _, _ => none

/-- `try_steal_task` locks `workers_mutex`. -/
def lockVictims (s : ThreadPool n) (worker : Fin n) : Option (ThreadPool n) :=
  match (s.worker worker).point, s.workersMutex with
  | .lockingWorkers, none =>
    some { s.setPoint worker (.stealing 0) with workersMutex := some (.worker worker) }
  | _, _ => none

/-- The loop of `try_steal_task`: pass over oneself, and over a victim whose mutex is not owned
or whose queue is empty; else take the back of its queue. -/
def tryStealTask (s : ThreadPool n) (worker : Fin n) (ownsLock : Bool) : Option (ThreadPool n) :=
  match (s.worker worker).point with
  | .stealing victim =>
    if inside : victim < n then
      if (⟨victim, inside⟩ : Fin n) = worker then
        some (s.setPoint worker (.stealing (victim + 1)))
      else
        match ownsLock, (s.worker ⟨victim, inside⟩).localQueue.getLast? with
        | true, some task =>
          some { (s.setLocalQueue ⟨victim, inside⟩
              (s.worker ⟨victim, inside⟩).localQueue.dropLast).setPoint worker
              (.holding task) with
            workersMutex := none }
        | _, _ => some (s.setPoint worker (.stealing (victim + 1)))
    else some { s.setPoint worker .waiting with workersMutex := none }
  | _ => none

/-- The wait ends. -/
def wait (s : ThreadPool n) (worker : Fin n) : Option (ThreadPool n) :=
  match (s.worker worker).point with
  | .waiting => some (s.setPoint worker .top)
  | _ => none

/-- `TaskManager::deregister_task`, under `tasks_mutex`. -/
def deregisterTask (s : ThreadPool n) (worker : Fin n) : Option (ThreadPool n) :=
  match (s.worker worker).point, s.adding with
  | .deregistering task, none =>
    some { s.setPoint worker .top with allTasks := Function.update s.allTasks task false }
  | _, _ => none

/-! ### `BaseTask::execute` -/

/-- Call the function. -/
def runFunction (s : ThreadPool n) (worker : Fin n) : Option (ThreadPool n) :=
  match (s.worker worker).point with
  | .holding task =>
    some { s.setPoint worker (.visiting task none) with
      history := { s.history with ran := task :: s.history.ran } }
  | _ => none

/-- The dependent behind the ones passed, as the iterator over the set finds it. -/
def nextDependent (dependents : List TaskPtr) : Option TaskPtr → Option TaskPtr
  | none => dependents.head?
  | some passed => (beyond passed dependents).head?

/-- The head of the loop: `execute` returns behind the last dependent, and asserts the status
of the next one. -/
def visit (s : ThreadPool n) (build : Build) (worker : Fin n) : Option (ThreadPool n) :=
  match (s.worker worker).point with
  | .visiting task passed =>
    match nextDependent (s.task task).dependents passed with
    | none => some { s.setPoint worker (.deregistering task) with
        history := { s.history with finished := task :: s.history.finished } }
    | some dependent =>
      match assert build ((s.task dependent.task).status = .dependency) with
      | .ok () => some (s.setPoint worker (.decrementing task dependent))
      | .error _ => none
  | _ => none

/-- `dep->unresolved_dependencies--`. -/
def decrement (s : ThreadPool n) (worker : Fin n) : Option (ThreadPool n) :=
  match (s.worker worker).point with
  | .decrementing task dependent =>
    some { (s.setPoint worker (.rereading task dependent)).setTask dependent.task
        { s.task dependent.task with
          unresolvedDependencies := (s.task dependent.task).unresolvedDependencies - 1 } with
      history := { s.history with dropped := (dependent.task, task) :: s.history.dropped } }
  | _ => none

/-- The test `dep->unresolved_dependencies.load() == 0`. -/
def reread (s : ThreadPool n) (worker : Fin n) : Option (ThreadPool n) :=
  match (s.worker worker).point with
  | .rereading task dependent =>
    if (s.task dependent.task).unresolvedDependencies = 0 then
      some (s.setPoint worker (.storing task dependent))
    else some (s.setPoint worker (.visiting task (some dependent)))
  | _ => none

/-- `dep->status.store(TaskStatus::PENDING)`. -/
def storeStatus (s : ThreadPool n) (worker : Fin n) : Option (ThreadPool n) :=
  match (s.worker worker).point with
  | .storing task dependent =>
    some ((s.setPoint worker (.enqueueing task dependent)).setTask dependent.task
      { s.task dependent.task with status := .pending })
  | _ => none

/-- `pool->enqueue_task(dep)`. -/
def enqueueTask (s : ThreadPool n) (worker : Fin n) : Option (ThreadPool n) :=
  match (s.worker worker).point with
  | .enqueueing task dependent =>
    some { s.setPoint worker (.visiting task (some dependent)) with
      globalQueue := dependent.task :: s.globalQueue
      history := { s.history with enqueued := dependent.task :: s.history.enqueued } }
  | _ => none

/-! ### The machine -/

end ThreadPool

/-- The steps of the threads. -/
inductive PoolAction (n : Nat)
  | makeTask (thread : Nat) (call : SubmitCall) (rank : Int)
  | registerTask (thread : Nat)
  | checkReady (thread : Nat)
  | lockWorkers (thread : Nat)
  | tryPushTask (thread : Nat)
  | emplaceBack (thread : Nat)
  | enqueueGlobal (thread : Nat)
  | addDependency (task dependency : Nat)
  | insertDependent
  | popFront (worker : Fin n)
  | dequeueTask (worker : Fin n) (top : Nat)
  | lockVictims (worker : Fin n)
  | tryStealTask (worker : Fin n) (ownsLock : Bool)
  | wait (worker : Fin n)
  | runFunction (worker : Fin n)
  | visit (worker : Fin n)
  | decrement (worker : Fin n)
  | reread (worker : Fin n)
  | storeStatus (worker : Fin n)
  | enqueueTask (worker : Fin n)
  | deregisterTask (worker : Fin n)
  deriving DecidableEq

namespace ThreadPool

variable {n : Nat}

/-- One step of one thread. A crashed pool takes none. -/
def step (build : Build) (address : Nat → Nat) (s : ThreadPool n) (action : PoolAction n) :
    Option (ThreadPool n) :=
  if s.crashed then none
  else match action with
    | .makeTask thread call rank => s.makeTask thread call rank
    | .registerTask thread => s.registerTask thread
    | .checkReady thread => s.checkReady thread
    | .lockWorkers thread => s.lockWorkers thread
    | .tryPushTask thread => s.tryPushTask thread
    | .emplaceBack thread => s.emplaceBack thread
    | .enqueueGlobal thread => s.enqueueGlobal thread
    | .addDependency task dependency => s.addDependency task dependency
    | .insertDependent => s.insertDependent address
    | .popFront worker => s.popFront worker
    | .dequeueTask worker top => s.dequeueTask worker top
    | .lockVictims worker => s.lockVictims worker
    | .tryStealTask worker ownsLock => s.tryStealTask worker ownsLock
    | .wait worker => s.wait worker
    | .runFunction worker => s.runFunction worker
    | .visit worker => s.visit build worker
    | .decrement worker => s.decrement worker
    | .reread worker => s.reread worker
    | .storeStatus worker => s.storeStatus worker
    | .enqueueTask worker => s.enqueueTask worker
    | .deregisterTask worker => s.deregisterTask worker

/-! ### What a step can do -/

/-- The steps of the pool, one case for each way a step can go. -/
inductive Moved (build : Build) (address : Nat → Nat) (s : ThreadPool n) :
    PoolAction n → ThreadPool n → Prop
  | make (thread : Nat) (call : SubmitCall) (rank : Int) (idle : s.thread thread = .idle) :
      Moved build address s (.makeTask thread call rank)
        { (s.setThread thread (.registering call (s.counter + 1))).setTask (s.counter + 1)
            { rank := rank
              status := match call with
                | .submit => .pending
                | .depSubmit => .dependency } with
          counter := s.counter + 1 }
  | register (thread : Nat) (call : SubmitCall) (task : Nat)
      (point : s.thread thread = .registering call task) (unlocked : s.adding = none) :
      Moved build address s (.registerTask thread)
        { s.setThread thread (.checking call task) with
          allTasks := Function.update s.allTasks task true }
  | ready (thread : Nat) (call : SubmitCall) (task : Nat)
      (point : s.thread thread = .checking call task) (ready : (s.task task).isReady = true) :
      Moved build address s (.checkReady thread) (s.setThread thread (.locking call task))
  | notReady (thread : Nat) (call : SubmitCall) (task : Nat)
      (point : s.thread thread = .checking call task) (waits : (s.task task).isReady = false) :
      Moved build address s (.checkReady thread) (s.returned thread call task)
  | lockWorkers (thread : Nat) (call : SubmitCall) (task : Nat)
      (point : s.thread thread = .locking call task) (unlocked : s.workersMutex = none) :
      Moved build address s (.lockWorkers thread)
        { s.setThread thread (.trying call task 0) with workersMutex := some (.thread thread) }
  | full (thread : Nat) (call : SubmitCall) (task index : Nat)
      (point : s.thread thread = .trying call task index) (inside : index < n)
      (atCapacity : queueCapacity ≤ (s.worker ⟨index, inside⟩).localQueue.length) :
      Moved build address s (.tryPushTask thread)
        (s.setThread thread (.trying call task (index + 1)))
  | room (thread : Nat) (call : SubmitCall) (task index : Nat)
      (point : s.thread thread = .trying call task index) (inside : index < n)
      (below : (s.worker ⟨index, inside⟩).localQueue.length < queueCapacity) :
      Moved build address s (.tryPushTask thread)
        (s.setThread thread (.pushing call task index))
  | allFull (thread : Nat) (call : SubmitCall) (task index : Nat)
      (point : s.thread thread = .trying call task index) (behind : ¬ index < n) :
      Moved build address s (.tryPushTask thread)
        { s.setThread thread (.enqueueing call task) with workersMutex := none }
  | push (thread : Nat) (call : SubmitCall) (task index : Nat)
      (point : s.thread thread = .pushing call task index) (inside : index < n) :
      Moved build address s (.emplaceBack thread)
        (returned { s.setLocalQueue ⟨index, inside⟩
            ((s.worker ⟨index, inside⟩).localQueue ++ [task]) with
          workersMutex := none
          history := { s.history with enqueued := task :: s.history.enqueued } } thread call task)
  | enqueueGlobal (thread : Nat) (call : SubmitCall) (task : Nat)
      (point : s.thread thread = .enqueueing call task) :
      Moved build address s (.enqueueGlobal thread)
        (returned { s with
          globalQueue := task :: s.globalQueue
          history := { s.history with enqueued := task :: s.history.enqueued } } thread call task)
  | count (task dependency : Nat) (unlocked : s.adding = none)
      (registered : s.allTasks task = true) :
      Moved build address s (.addDependency task dependency)
        { s.setTask task { s.task task with
            unresolvedDependencies := (s.task task).unresolvedDependencies + 1 } with
          adding := some (task, dependency)
          history := { s.history with given := (task, dependency) :: s.history.given } }
  | nullTask (task dependency : Nat) (unlocked : s.adding = none)
      (missing : s.allTasks task = false) :
      Moved build address s (.addDependency task dependency) { s with crashed := true }
  | link (task dependency : Nat) (locked : s.adding = some (task, dependency))
      (registered : s.allTasks dependency = true) :
      Moved build address s .insertDependent
        { s.setTask dependency { s.task dependency with
            dependents := put (toLex (address task, task)) (s.task dependency).dependents } with
          adding := none }
  | nullDependency (task dependency : Nat) (locked : s.adding = some (task, dependency))
      (missing : s.allTasks dependency = false) :
      Moved build address s .insertDependent { s with crashed := true }
  | pop (worker : Fin n) (task : Nat) (rest : List Nat) (point : (s.worker worker).point = .top)
      (queue : (s.worker worker).localQueue = task :: rest) :
      Moved build address s (.popFront worker)
        ((s.setLocalQueue worker rest).setPoint worker (.holding task))
  | localEmpty (worker : Fin n) (point : (s.worker worker).point = .top)
      (queue : (s.worker worker).localQueue = []) :
      Moved build address s (.popFront worker) (s.setPoint worker .dequeueing)
  | globalEmpty (worker : Fin n) (top : Nat) (point : (s.worker worker).point = .dequeueing)
      (queue : s.globalQueue = []) :
      Moved build address s (.dequeueTask worker top) (s.setPoint worker .lockingWorkers)
  | dequeue (worker : Fin n) (top : Nat) (point : (s.worker worker).point = .dequeueing)
      (isTop : s.IsTop top) :
      Moved build address s (.dequeueTask worker top)
        { s.setPoint worker (.holding top) with globalQueue := s.globalQueue.erase top }
  | lockVictims (worker : Fin n) (point : (s.worker worker).point = .lockingWorkers)
      (unlocked : s.workersMutex = none) :
      Moved build address s (.lockVictims worker)
        { s.setPoint worker (.stealing 0) with workersMutex := some (.worker worker) }
  | pass (worker : Fin n) (ownsLock : Bool) (victim : Nat)
      (point : (s.worker worker).point = .stealing victim) (inside : victim < n) :
      Moved build address s (.tryStealTask worker ownsLock)
        (s.setPoint worker (.stealing (victim + 1)))
  | steal (worker victim : Fin n) (task : Nat)
      (point : (s.worker worker).point = .stealing victim) (other : victim ≠ worker)
      (back : (s.worker victim).localQueue.getLast? = some task) :
      Moved build address s (.tryStealTask worker true)
        { (s.setLocalQueue victim (s.worker victim).localQueue.dropLast).setPoint worker
            (.holding task) with
          workersMutex := none }
  | nothing (worker : Fin n) (ownsLock : Bool) (victim : Nat)
      (point : (s.worker worker).point = .stealing victim) (behind : ¬ victim < n) :
      Moved build address s (.tryStealTask worker ownsLock)
        { s.setPoint worker .waiting with workersMutex := none }
  | wait (worker : Fin n) (point : (s.worker worker).point = .waiting) :
      Moved build address s (.wait worker) (s.setPoint worker .top)
  | run (worker : Fin n) (task : Nat) (point : (s.worker worker).point = .holding task) :
      Moved build address s (.runFunction worker)
        { s.setPoint worker (.visiting task none) with
          history := { s.history with ran := task :: s.history.ran } }
  | finish (worker : Fin n) (task : Nat) (passed : Option TaskPtr)
      (point : (s.worker worker).point = .visiting task passed)
      (last : nextDependent (s.task task).dependents passed = none) :
      Moved build address s (.visit worker)
        { s.setPoint worker (.deregistering task) with
          history := { s.history with finished := task :: s.history.finished } }
  | visit (worker : Fin n) (task : Nat) (passed : Option TaskPtr) (dependent : TaskPtr)
      (point : (s.worker worker).point = .visiting task passed)
      (next : nextDependent (s.task task).dependents passed = some dependent) :
      Moved build address s (.visit worker) (s.setPoint worker (.decrementing task dependent))
  | decrement (worker : Fin n) (task : Nat) (dependent : TaskPtr)
      (point : (s.worker worker).point = .decrementing task dependent) :
      Moved build address s (.decrement worker)
        { (s.setPoint worker (.rereading task dependent)).setTask dependent.task
            { s.task dependent.task with
              unresolvedDependencies := (s.task dependent.task).unresolvedDependencies - 1 } with
          history := { s.history with dropped := (dependent.task, task) :: s.history.dropped } }
  | zero (worker : Fin n) (task : Nat) (dependent : TaskPtr)
      (point : (s.worker worker).point = .rereading task dependent)
      (zero : (s.task dependent.task).unresolvedDependencies = 0) :
      Moved build address s (.reread worker) (s.setPoint worker (.storing task dependent))
  | notZero (worker : Fin n) (task : Nat) (dependent : TaskPtr)
      (point : (s.worker worker).point = .rereading task dependent)
      (notZero : (s.task dependent.task).unresolvedDependencies ≠ 0) :
      Moved build address s (.reread worker)
        (s.setPoint worker (.visiting task (some dependent)))
  | store (worker : Fin n) (task : Nat) (dependent : TaskPtr)
      (point : (s.worker worker).point = .storing task dependent) :
      Moved build address s (.storeStatus worker)
        ((s.setPoint worker (.enqueueing task dependent)).setTask dependent.task
          { s.task dependent.task with status := .pending })
  | enqueue (worker : Fin n) (task : Nat) (dependent : TaskPtr)
      (point : (s.worker worker).point = .enqueueing task dependent) :
      Moved build address s (.enqueueTask worker)
        { s.setPoint worker (.visiting task (some dependent)) with
          globalQueue := dependent.task :: s.globalQueue
          history := { s.history with enqueued := dependent.task :: s.history.enqueued } }
  | deregister (worker : Fin n) (task : Nat)
      (point : (s.worker worker).point = .deregistering task) (unlocked : s.adding = none) :
      Moved build address s (.deregisterTask worker)
        { s.setPoint worker .top with allTasks := Function.update s.allTasks task false }

/-- The search for a victim passes one over, takes a task or ends. -/
theorem moved_of_tryStealTask (build : Build) (address : Nat → Nat) (s t : ThreadPool n)
    (worker : Fin n) (ownsLock : Bool) (taken : s.tryStealTask worker ownsLock = some t) :
    Moved build address s (.tryStealTask worker ownsLock) t := by
  unfold tryStealTask at taken
  split at taken
  · rename_i victim point
    split at taken
    · rename_i inside
      split at taken
      · obtain rfl := Option.some.inj taken
        exact .pass worker ownsLock victim point inside
      · rename_i other
        split at taken
        · rename_i task back
          obtain rfl := Option.some.inj taken
          exact .steal worker ⟨victim, inside⟩ task point other back
        · obtain rfl := Option.some.inj taken
          exact .pass worker _ victim point inside
    · rename_i behind
      obtain rfl := Option.some.inj taken
      exact .nothing worker ownsLock victim point behind
  · cases taken

/-- A visit passes the assertion or finds no further dependent. -/
theorem moved_of_visit (build : Build) (address : Nat → Nat) (s t : ThreadPool n)
    (worker : Fin n) (taken : s.visit build worker = some t) :
    Moved build address s (.visit worker) t := by
  unfold visit at taken
  split at taken
  · rename_i task passed point
    split at taken
    · rename_i last
      obtain rfl := Option.some.inj taken
      exact .finish worker task passed point last
    · rename_i dependent next
      split at taken
      · obtain rfl := Option.some.inj taken
        exact .visit worker task passed dependent point next
      · cases taken
  · cases taken

/-- Every step goes one of these ways, and only a pool that has not crashed takes one. -/
theorem moved_of_step (build : Build) (address : Nat → Nat) (s t : ThreadPool n)
    (action : PoolAction n) (taken : s.step build address action = some t) :
    s.crashed = false ∧ Moved build address s action t := by
  unfold step at taken
  split at taken
  · cases taken
  rename_i alive
  refine ⟨by simpa using alive, ?_⟩
  cases action with
  | makeTask thread call rank =>
    simp only [makeTask] at taken
    split at taken
    · rename_i idle
      obtain rfl := Option.some.inj taken
      exact .make thread call rank idle
    · cases taken
  | registerTask thread =>
    simp only [registerTask] at taken
    split at taken
    · rename_i call task point unlocked
      obtain rfl := Option.some.inj taken
      exact .register thread call task point unlocked
    · cases taken
  | checkReady thread =>
    simp only [checkReady] at taken
    split at taken
    · rename_i call task point
      split at taken
      · rename_i ready
        obtain rfl := Option.some.inj taken
        exact .ready thread call task point ready
      · rename_i waits
        obtain rfl := Option.some.inj taken
        exact .notReady thread call task point (by simpa using waits)
    · cases taken
  | lockWorkers thread =>
    simp only [ThreadPool.lockWorkers] at taken
    split at taken
    · rename_i call task point unlocked
      obtain rfl := Option.some.inj taken
      exact .lockWorkers thread call task point unlocked
    · cases taken
  | tryPushTask thread =>
    simp only [tryPushTask] at taken
    split at taken
    · rename_i call task index point
      split at taken
      · rename_i inside
        split at taken
        · rename_i atCapacity
          obtain rfl := Option.some.inj taken
          exact .full thread call task index point inside atCapacity
        · rename_i below
          obtain rfl := Option.some.inj taken
          exact .room thread call task index point inside (not_le.mp below)
      · rename_i behind
        obtain rfl := Option.some.inj taken
        exact .allFull thread call task index point behind
    · cases taken
  | emplaceBack thread =>
    simp only [emplaceBack] at taken
    split at taken
    · rename_i call task index point
      split at taken
      · rename_i inside
        obtain rfl := Option.some.inj taken
        exact .push thread call task index point inside
      · cases taken
    · cases taken
  | enqueueGlobal thread =>
    simp only [ThreadPool.enqueueGlobal] at taken
    split at taken
    · rename_i call task point
      obtain rfl := Option.some.inj taken
      exact .enqueueGlobal thread call task point
    · cases taken
  | addDependency task dependency =>
    simp only [addDependency] at taken
    split at taken
    · rename_i unlocked
      split at taken
      · rename_i registered
        obtain rfl := Option.some.inj taken
        exact .count task dependency unlocked registered
      · rename_i missing
        obtain rfl := Option.some.inj taken
        exact .nullTask task dependency unlocked (by simpa using missing)
    · cases taken
  | insertDependent =>
    simp only [insertDependent] at taken
    split at taken
    · rename_i task dependency locked
      split at taken
      · rename_i registered
        obtain rfl := Option.some.inj taken
        exact .link task dependency locked registered
      · rename_i missing
        obtain rfl := Option.some.inj taken
        exact .nullDependency task dependency locked (by simpa using missing)
    · cases taken
  | popFront worker =>
    simp only [popFront] at taken
    split at taken
    · rename_i task rest point queue
      obtain rfl := Option.some.inj taken
      exact .pop worker task rest point queue
    · rename_i point queue
      obtain rfl := Option.some.inj taken
      exact .localEmpty worker point queue
    · cases taken
  | dequeueTask worker top =>
    simp only [dequeueTask] at taken
    split at taken
    · rename_i point queue
      obtain rfl := Option.some.inj taken
      exact .globalEmpty worker top point queue
    · rename_i point queue
      split at taken
      · rename_i isTop
        obtain rfl := Option.some.inj taken
        exact .dequeue worker top point isTop
      · cases taken
    · cases taken
  | lockVictims worker =>
    simp only [ThreadPool.lockVictims] at taken
    split at taken
    · rename_i point unlocked
      obtain rfl := Option.some.inj taken
      exact .lockVictims worker point unlocked
    · cases taken
  | tryStealTask worker ownsLock =>
    exact moved_of_tryStealTask build address s t worker ownsLock taken
  | wait worker =>
    simp only [ThreadPool.wait] at taken
    split at taken
    · rename_i point
      obtain rfl := Option.some.inj taken
      exact .wait worker point
    · cases taken
  | runFunction worker =>
    simp only [runFunction] at taken
    split at taken
    · rename_i task point
      obtain rfl := Option.some.inj taken
      exact .run worker task point
    · cases taken
  | visit worker => exact moved_of_visit build address s t worker taken
  | decrement worker =>
    simp only [ThreadPool.decrement] at taken
    split at taken
    · rename_i task dependent point
      obtain rfl := Option.some.inj taken
      exact .decrement worker task dependent point
    · cases taken
  | reread worker =>
    simp only [reread] at taken
    split at taken
    · rename_i task dependent point
      split at taken
      · rename_i zero
        obtain rfl := Option.some.inj taken
        exact .zero worker task dependent point zero
      · rename_i notZero
        obtain rfl := Option.some.inj taken
        exact .notZero worker task dependent point notZero
    · cases taken
  | storeStatus worker =>
    simp only [storeStatus] at taken
    split at taken
    · rename_i task dependent point
      obtain rfl := Option.some.inj taken
      exact .store worker task dependent point
    · cases taken
  | enqueueTask worker =>
    simp only [enqueueTask] at taken
    split at taken
    · rename_i task dependent point
      obtain rfl := Option.some.inj taken
      exact .enqueue worker task dependent point
    · cases taken
  | deregisterTask worker =>
    simp only [deregisterTask] at taken
    split at taken
    · rename_i task point unlocked
      obtain rfl := Option.some.inj taken
      exact .deregister worker task point unlocked
    · cases taken

end ThreadPool

end YYNet
