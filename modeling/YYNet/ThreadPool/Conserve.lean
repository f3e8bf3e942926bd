/-
This file proves that the thread pool conserves its tasks.

Every push onto a queue is accounted for: in every reachable state the number of
pushes of a task is the number of its copies in the local queues, in the global
queue and in the hands of workers, plus the number of calls of its function. A
call of `submit` makes one push, so a task whose `submit` has returned and that
is not given a dependency is in exactly one of these places, once.

The size test of `try_push_task` is made without the mutex of the local queue,
but under `workers_mutex`, which every other thread that could push holds too. A
worker can only make the queue shorter between the test and the push, so no
local queue outgrows its capacity.
-/

import YYNet.ThreadPool.Pool

namespace YYNet

open Checked Transition OrderedSet

/-- The task a call in progress is about. -/
def SubmitPoint.task : SubmitPoint → Option Nat
  | idle => none
  | registering _ task => some task
  | checking _ task => some task
  | locking _ task => some task
  | trying _ task _ => some task
  | pushing _ task _ => some task
  | enqueueing _ task => some task

/-- Whether a call is in `try_add_task`. -/
def SubmitPoint.locks : SubmitPoint → Bool
  | trying _ _ _ => true
  | pushing _ _ _ => true
  | _ => false

namespace WorkerPoint

/-- The task a worker has and whose function it has not called. -/
def held : WorkerPoint → Option Nat
  | holding task => some task
  | _ => none

/-- The dependent a worker is at. -/
def dependent : WorkerPoint → Option TaskPtr
  | decrementing _ dependent => some dependent
  | rereading _ dependent => some dependent
  | storing _ dependent => some dependent
  | enqueueing _ dependent => some dependent
  | _ => none

end WorkerPoint

namespace ThreadPool

variable {n : Nat}

/-! ### Sums over the workers -/

/-- A sum over the points the workers are at. -/
def pointSum (share : WorkerPoint → Nat) (s : ThreadPool n) : Nat :=
  ∑ worker, share (s.worker worker).point

/-- The copies of a task in the local queues. -/
def localCount (task : Nat) (s : ThreadPool n) : Nat :=
  ∑ worker, (s.worker worker).localQueue.count task

theorem pointSum_setPoint (share : WorkerPoint → Nat) (s : ThreadPool n) (worker : Fin n)
    (point : WorkerPoint) :
    pointSum share (s.setPoint worker point) + share (s.worker worker).point =
      pointSum share s + share point :=
  Tally.sum_update (fun worker : Worker => share worker.point) s.worker worker _

theorem pointSum_setLocalQueue (share : WorkerPoint → Nat) (s : ThreadPool n) (worker : Fin n)
    (queue : List Nat) : pointSum share (s.setLocalQueue worker queue) = pointSum share s :=
  Tally.sum_update_same (fun worker : Worker => share worker.point) s.worker worker _ rfl

/-- A worker's share of a sum is part of it. -/
theorem share_le_pointSum (share : WorkerPoint → Nat) (s : ThreadPool n) (worker : Fin n) :
    share (s.worker worker).point ≤ pointSum share s :=
  Finset.single_le_sum (f := fun worker => share (s.worker worker).point)
    (fun _ _ => Nat.zero_le _) (Finset.mem_univ worker)

theorem localCount_setPoint (task : Nat) (s : ThreadPool n) (worker : Fin n)
    (point : WorkerPoint) : localCount task (s.setPoint worker point) = localCount task s :=
  Tally.sum_update_same (fun worker : Worker => worker.localQueue.count task) s.worker worker _
    rfl

theorem localCount_setLocalQueue (task : Nat) (s : ThreadPool n) (worker : Fin n)
    (queue : List Nat) :
    localCount task (s.setLocalQueue worker queue) + (s.worker worker).localQueue.count task =
      localCount task s + queue.count task :=
  Tally.sum_update (fun worker : Worker => worker.localQueue.count task) s.worker worker _

theorem setLocalQueue_point (s : ThreadPool n) (worker other : Fin n) (queue : List Nat) :
    ((s.setLocalQueue worker queue).worker other).point = (s.worker other).point := by
  by_cases same : other = worker
  · subst same
    simp [setLocalQueue]
  · simp [setLocalQueue, same]

theorem setPoint_point (s : ThreadPool n) (worker other : Fin n) (point : WorkerPoint) :
    ((s.setPoint worker point).worker other).point =
      if other = worker then point else (s.worker other).point := by
  by_cases same : other = worker
  · subst same
    simp [setPoint]
  · simp [setPoint, same]

theorem setPoint_localQueue (s : ThreadPool n) (worker other : Fin n) (point : WorkerPoint) :
    ((s.setPoint worker point).worker other).localQueue = (s.worker other).localQueue := by
  by_cases same : other = worker
  · subst same
    simp [setPoint]
  · simp [setPoint, same]

theorem setLocalQueue_localQueue (s : ThreadPool n) (worker other : Fin n) (queue : List Nat) :
    ((s.setLocalQueue worker queue).worker other).localQueue =
      if other = worker then queue else (s.worker other).localQueue := by
  by_cases same : other = worker
  · subst same
    simp [setLocalQueue]
  · simp [setLocalQueue, same]

/-- The sum over the points when one worker moves. -/
theorem pointSum_of_points (share : WorkerPoint → Nat) {s t : ThreadPool n} (worker : Fin n)
    (point : WorkerPoint)
    (points : ∀ other, (t.worker other).point =
      if other = worker then point else (s.worker other).point) :
    pointSum share t + share (s.worker worker).point = pointSum share s + share point := by
  have same : pointSum share t = pointSum share (s.setPoint worker point) := by
    unfold pointSum
    refine Finset.sum_congr rfl fun other _ => ?_
    rw [points, setPoint_point]
  rw [same, pointSum_setPoint]

/-- The sum over the points when no worker moves. -/
theorem pointSum_congr (share : WorkerPoint → Nat) {s t : ThreadPool n}
    (points : ∀ worker, (t.worker worker).point = (s.worker worker).point) :
    pointSum share t = pointSum share s := by
  unfold pointSum
  exact Finset.sum_congr rfl fun worker _ => by rw [points]

/-! ### Every push is accounted for -/

/-- Whether a worker holds a task, as a number. -/
def holds (task : Nat) (point : WorkerPoint) : Nat := if point.held = some task then 1 else 0

theorem holds_of_none {point : WorkerPoint} (empty : point.held = none) (task : Nat) :
    holds task point = 0 := by
  simp [holds, empty]

theorem holds_holding (task taken : Nat) :
    holds task (.holding taken) = if taken = task then 1 else 0 := by
  simp [holds, WorkerPoint.held]

/-- The copies of a task in the queues and in the hands of workers, and the calls of its
function. -/
def located (s : ThreadPool n) (task : Nat) : Nat :=
  localCount task s + pointSum (holds task) s + s.globalQueue.count task +
    s.history.ran.count task

/-- Every push is accounted for. -/
def Accounted (s : ThreadPool n) : Prop :=
  ∀ task, s.located task = s.history.enqueued.count task

theorem initial_accounted : Accounted (initial n) := by
  intro task
  simp [located, localCount, pointSum, holds, initial, WorkerPoint.held]

theorem returned_enqueued (s : ThreadPool n) (thread : Nat) (call : SubmitCall) (task : Nat) :
    (s.returned thread call task).history.enqueued = s.history.enqueued := by
  cases call <;> rfl

theorem returned_ran (s : ThreadPool n) (thread : Nat) (call : SubmitCall) (task : Nat) :
    (s.returned thread call task).history.ran = s.history.ran := by
  cases call <;> rfl

/-- The account when one local queue changes. -/
theorem located_of_setLocalQueue {s t : ThreadPool n} {task amount : Nat} (worker : Fin n)
    (queue : List Nat) (workers : t.worker = (s.setLocalQueue worker queue).worker)
    (globalQueue : t.globalQueue = s.globalQueue) (ran : t.history.ran = s.history.ran)
    (balance : s.located task + queue.count task =
      amount + (s.worker worker).localQueue.count task) : t.located task = amount := by
  have queues := localCount_setLocalQueue task s worker queue
  have points := pointSum_setLocalQueue (holds task) s worker queue
  simp only [located, pointSum, localCount, workers, globalQueue, ran] at queues points balance ⊢
  omega

/-- The account when one worker moves, with what becomes of the global queue and the calls. -/
theorem located_of_setPoint {s t : ThreadPool n} {task amount : Nat} (worker : Fin n)
    (point : WorkerPoint) (globalQueue ran : List Nat)
    (workers : t.worker = (s.setPoint worker point).worker)
    (global : t.globalQueue = globalQueue) (calls : t.history.ran = ran)
    (balance : s.located task + holds task point + globalQueue.count task + ran.count task =
      amount + holds task (s.worker worker).point + s.globalQueue.count task +
        s.history.ran.count task) : t.located task = amount := by
  have moved := pointSum_setPoint (holds task) s worker point
  have queues := localCount_setPoint task s worker point
  simp only [located, pointSum, localCount, workers, global, calls] at moved queues balance ⊢
  omega

/-- A worker that moves between points at which it holds nothing leaves the account. -/
theorem located_of_walk {s t : ThreadPool n} {task amount : Nat} (worker : Fin n)
    (point : WorkerPoint) (workers : t.worker = (s.setPoint worker point).worker)
    (global : t.globalQueue = s.globalQueue) (calls : t.history.ran = s.history.ran)
    (before : (s.worker worker).point.held = none) (after : point.held = none)
    (balance : s.located task = amount) : t.located task = amount := by
  refine located_of_setPoint worker point _ _ workers global calls ?_
  rw [holds_of_none before, holds_of_none after]
  omega

/-- A worker that takes a task off a local queue has it in its hands. -/
theorem located_of_take {s t : ThreadPool n} {task amount : Nat} (worker victim : Fin n)
    (taken : Nat) (queue : List Nat)
    (workers : t.worker = ((s.setLocalQueue victim queue).setPoint worker (.holding taken)).worker)
    (global : t.globalQueue = s.globalQueue) (calls : t.history.ran = s.history.ran)
    (before : (s.worker worker).point.held = none)
    (split : (s.worker victim).localQueue.count task = queue.count task + [taken].count task)
    (balance : s.located task = amount) : t.located task = amount := by
  have shorter : (s.setLocalQueue victim queue).located task + [taken].count task = amount := by
    have queues := localCount_setLocalQueue task s victim queue
    have points := pointSum_setLocalQueue (holds task) s victim queue
    show localCount task (s.setLocalQueue victim queue) +
      pointSum (holds task) (s.setLocalQueue victim queue) + s.globalQueue.count task +
        s.history.ran.count task + _ = amount
    unfold located at balance
    omega
  refine located_of_setPoint (s := s.setLocalQueue victim queue) worker (.holding taken)
    (s.setLocalQueue victim queue).globalQueue (s.setLocalQueue victim queue).history.ran
    workers global calls ?_
  rw [List.count_singleton] at shorter
  rw [setLocalQueue_point, holds_of_none before, holds_holding]
  simp only [beq_iff_eq] at shorter
  omega

/-- Every step keeps the account. -/
theorem moved_accounted (build : Build) (address : Nat → Nat) (s t : ThreadPool n)
    (action : PoolAction n) (accounted : Accounted s) (moved : Moved build address s action t) :
    Accounted t := by
  intro task
  have account := accounted task
  cases moved with
  | make | register | ready | lockWorkers | full | room | allFull | count | nullTask | link
  | nullDependency => exact account
  | notReady thread call =>
    cases call
    · exact account
    · exact account
  | push thread call pushed index point inside =>
    refine located_of_setLocalQueue ⟨index, inside⟩ _ rfl rfl (returned_ran _ _ _ _) ?_
    rw [returned_enqueued, List.count_append, List.count_singleton, List.count_cons]
    omega
  | enqueueGlobal thread call pushed =>
    rw [returned_enqueued]
    simp only [located, returned_ran] at account ⊢
    show localCount task s + pointSum (holds task) s + (pushed :: s.globalQueue).count task +
      s.history.ran.count task = (pushed :: s.history.enqueued).count task
    rw [List.count_cons, List.count_cons]
    omega
  | pop worker popped rest point queue =>
    refine located_of_take worker worker popped rest rfl rfl rfl (by rw [point]; rfl) ?_ account
    rw [queue, List.count_cons, List.count_singleton]
  | localEmpty worker point | globalEmpty worker _ point | lockVictims worker point
  | pass worker _ _ point | nothing worker _ _ point | wait worker point
  | finish worker _ _ point | visit worker _ _ _ point | decrement worker _ _ point
  | zero worker _ _ point | notZero worker _ _ point | store worker _ _ point
  | deregister worker _ point =>
    exact located_of_walk worker _ rfl rfl rfl (by rw [point]; rfl) rfl account
  | dequeue worker top point isTop =>
    refine located_of_setPoint worker _ _ s.history.ran rfl rfl rfl ?_
    have present : 0 < s.globalQueue.count top := List.count_pos_iff.mpr isTop.1
    rw [point, holds_holding, holds_of_none rfl, List.count_erase]
    show _ = s.history.enqueued.count task + 0 + _ + _
    simp only [beq_iff_eq]
    by_cases same : top = task
    · subst same
      simp only [if_true]
      omega
    · simp only [if_neg same]
      omega
  | steal worker victim stolen point other back =>
    refine located_of_take worker victim stolen _ rfl rfl rfl (by rw [point]; rfl) ?_ account
    rw [← List.count_append, List.dropLast_append_getLast? stolen back]
  | run worker called point =>
    refine located_of_setPoint worker _ s.globalQueue _ rfl rfl rfl ?_
    rw [point, holds_holding, holds_of_none rfl, List.count_cons]
    simp only [beq_iff_eq]
    show _ = s.history.enqueued.count task + _ + _ + _
    omega
  | enqueue worker _ dependent point =>
    refine located_of_setPoint worker _ _ s.history.ran rfl rfl rfl ?_
    rw [point, holds_of_none rfl, holds_of_none rfl, List.count_cons, List.count_cons]
    omega

/-! ### One push for each `submit` -/

/-- The task was given a dependency. -/
def Given (s : ThreadPool n) (task : Nat) : Prop :=
  ∃ dependency, (task, dependency) ∈ s.history.given

/-- Only ids that were generated are registered, given dependencies, in a call or pushed. -/
structure Numbered (s : ThreadPool n) : Prop where
  registered : ∀ task, s.allTasks task = true → task ≤ s.counter
  given : ∀ task, s.Given task → task ≤ s.counter
  owned : ∀ thread task, (s.thread thread).task = some task → task ≤ s.counter
  enqueued : ∀ task ∈ s.history.enqueued, task ≤ s.counter

/-- Dependents are tasks that were given a dependency. -/
structure Linked (s : ThreadPool n) : Prop where
  adding : ∀ task dependency, s.adding = some (task, dependency) → s.Given task
  dependents : ∀ task, ∀ dependent ∈ (s.task task).dependents, s.Given dependent.task
  visited : ∀ worker dependent, (s.worker worker).point.dependent = some dependent →
    s.Given dependent.task

theorem initial_numbered : Numbered (initial n) where
  registered task registered := by simp [initial] at registered
  given task given := by simp [initial, Given] at given
  owned thread task owned := by simp [initial, SubmitPoint.task] at owned
  enqueued task enqueued := by simp [initial] at enqueued

theorem initial_linked : Linked (initial n) where
  adding task dependency adding := by simp [initial] at adding
  dependents task dependent member := by simp [initial] at member
  visited worker dependent visited := by simp [initial, WorkerPoint.dependent] at visited

/-- The task a thread's call is about, when one thread moves. -/
theorem setThread_task {s : ThreadPool n} {thread other task : Nat} {point : SubmitPoint}
    (owned : ((s.setThread thread point).thread other).task = some task) :
    (other = thread ∧ point.task = some task) ∨
      (other ≠ thread ∧ (s.thread other).task = some task) := by
  by_cases same : other = thread
  · subst same
    exact .inl ⟨rfl, by simpa [setThread] using owned⟩
  · exact .inr ⟨same, by simpa [setThread, same] using owned⟩

theorem returned_given (s : ThreadPool n) (thread : Nat) (call : SubmitCall) (task : Nat) :
    (s.returned thread call task).history.given = s.history.given := by
  cases call <;> rfl

theorem nextDependent_mem {dependents : List TaskPtr} {passed : Option TaskPtr}
    {dependent : TaskPtr} (next : nextDependent dependents passed = some dependent) :
    dependent ∈ dependents := by
  cases passed with
  | none => exact List.mem_of_mem_head? next
  | some passed => exact (beyond_sublist passed dependents).subset (List.mem_of_mem_head? next)

/-- A thread that moves on with its task leaves the numbers. -/
theorem numbered_of_thread {s t : ThreadPool n} (numbered : Numbered s) (thread : Nat)
    (point : SubmitPoint) (counter : t.counter = s.counter)
    (registered : ∀ task, t.allTasks task = true → task ≤ s.counter)
    (given : t.history.given = s.history.given)
    (threads : t.thread = (s.setThread thread point).thread)
    (enqueued : ∀ task ∈ t.history.enqueued, task ≤ s.counter)
    (same : ∀ task, point.task = some task → (s.thread thread).task = some task) :
    Numbered t where
  registered := by rwa [counter]
  given task isGiven := by
    rw [Given, given] at isGiven
    rw [counter]
    exact numbered.given task isGiven
  owned other task owned := by
    rw [threads] at owned
    rw [counter]
    rcases setThread_task owned with ⟨rfl, new⟩ | ⟨_, old⟩
    · exact numbered.owned _ task (same task new)
    · exact numbered.owned other task old
  enqueued := by rwa [counter]

/-- Every step keeps the numbers. -/
theorem moved_numbered (build : Build) (address : Nat → Nat) (s t : ThreadPool n)
    (action : PoolAction n) (linked : Linked s) (numbered : Numbered s)
    (moved : Moved build address s action t) : Numbered t := by
  cases moved with
  | make thread call rank idle =>
    obtain ⟨registered, given, owned, enqueued⟩ := numbered
    refine ⟨fun task is => (registered task is).trans (Nat.le_succ _),
      fun task is => (given task is).trans (Nat.le_succ _), fun other task owns => ?_,
      fun task member => (enqueued task member).trans (Nat.le_succ _)⟩
    rcases setThread_task (s := s) owns with ⟨-, new⟩ | ⟨-, old⟩
    · obtain rfl := Option.some.inj new
      exact le_refl _
    · exact (owned other task old).trans (Nat.le_succ _)
  | register thread call task point unlocked =>
    refine numbered_of_thread numbered thread _ rfl (fun other is => ?_) rfl rfl numbered.enqueued
      (fun other new => by rw [point]; exact new)
    by_cases same : other = task
    · subst same
      exact numbered.owned thread other (by rw [point]; rfl)
    · exact numbered.registered other (by simpa [same] using is)
  | ready thread call task point | lockWorkers thread call task point
  | full thread call task index point | room thread call task index point
  | allFull thread call task index point =>
    exact numbered_of_thread numbered thread _ rfl numbered.registered rfl rfl numbered.enqueued
      (fun other new => by rw [point]; exact new)
  | notReady thread call task point =>
    refine numbered_of_thread numbered thread .idle rfl numbered.registered (returned_given _ _ _ _) rfl
      ?_ (fun other new => by cases new)
    rw [returned_enqueued]
    exact numbered.enqueued
  | push thread call task index point =>
    refine numbered_of_thread numbered thread .idle rfl numbered.registered (returned_given _ _ _ _) rfl
      ?_ (fun other new => by cases new)
    rw [returned_enqueued]
    refine List.forall_mem_cons.mpr ⟨numbered.owned thread task (by rw [point]; rfl), ?_⟩
    exact numbered.enqueued
  | enqueueGlobal thread call task point =>
    refine numbered_of_thread numbered thread .idle rfl numbered.registered (returned_given _ _ _ _) rfl
      ?_ (fun other new => by cases new)
    rw [returned_enqueued]
    refine List.forall_mem_cons.mpr ⟨numbered.owned thread task (by rw [point]; rfl), ?_⟩
    exact numbered.enqueued
  | count task dependency unlocked registered =>
    refine ⟨numbered.registered, fun other is => ?_, numbered.owned, numbered.enqueued⟩
    obtain ⟨known, member⟩ := is
    rcases List.mem_cons.mp member with same | old
    · obtain ⟨rfl, -⟩ := Prod.mk.inj same
      exact numbered.registered other registered
    · exact numbered.given other ⟨known, old⟩
  | enqueue worker task dependent point =>
    refine ⟨numbered.registered, numbered.given, numbered.owned, ?_⟩
    refine List.forall_mem_cons.mpr ⟨numbered.given _ (linked.visited worker dependent ?_), ?_⟩
    · rw [point]; rfl
    · exact numbered.enqueued
  | deregister worker task point unlocked =>
    refine ⟨fun other is => ?_, numbered.given, numbered.owned, numbered.enqueued⟩
    by_cases same : other = task
    · subst same
      simp at is
    · exact numbered.registered other (by simpa [same] using is)
  | _ => exact ⟨numbered.registered, numbered.given, numbered.owned, numbered.enqueued⟩

/-- A worker that moves leaves the links, if the dependent it comes to was given a
dependency. -/
theorem linked_of_point {s t : ThreadPool n} (linked : Linked s) (worker : Fin n)
    (point : WorkerPoint)
    (points : ∀ other, (t.worker other).point =
      if other = worker then point else (s.worker other).point)
    (dependents : ∀ task, (t.task task).dependents = (s.task task).dependents)
    (adding : t.adding = s.adding) (given : t.history.given = s.history.given)
    (known : ∀ dependent, point.dependent = some dependent → s.Given dependent.task) :
    Linked t := by
  refine ⟨fun task dependency locked => ?_, fun task dependent member => ?_,
    fun other dependent visited => ?_⟩
  · rw [Given, given]
    exact linked.adding task dependency (adding ▸ locked)
  · rw [Given, given]
    exact linked.dependents task dependent (dependents task ▸ member)
  · rw [Given, given]
    rw [points] at visited
    split at visited
    · exact known dependent visited
    · exact linked.visited other dependent visited

/-- Every step keeps the links. -/
theorem moved_linked (build : Build) (address : Nat → Nat) (s t : ThreadPool n)
    (action : PoolAction n) (linked : Linked s) (moved : Moved build address s action t) :
    Linked t := by
  cases moved with
  | make thread call rank idle =>
    refine ⟨linked.adding, fun task dependent member => ?_, linked.visited⟩
    by_cases same : task = s.counter + 1
    · subst same
      simp [setTask] at member
    · exact linked.dependents task dependent (by simpa [setTask, setThread, same] using member)
  | notReady thread call =>
    cases call
    · exact ⟨linked.adding, linked.dependents, linked.visited⟩
    · exact ⟨linked.adding, linked.dependents, linked.visited⟩
  | push thread call task index point inside =>
    have visited : ∀ worker dependent, ((s.setLocalQueue ⟨index, inside⟩
        ((s.worker ⟨index, inside⟩).localQueue ++ [task])).worker worker).point.dependent =
          some dependent → s.Given dependent.task := by
      intro worker dependent at'
      rw [setLocalQueue_point] at at'
      exact linked.visited worker dependent at'
    cases call
    · exact ⟨linked.adding, linked.dependents, visited⟩
    · exact ⟨linked.adding, linked.dependents, visited⟩
  | enqueueGlobal thread call =>
    cases call
    · exact ⟨linked.adding, linked.dependents, linked.visited⟩
    · exact ⟨linked.adding, linked.dependents, linked.visited⟩
  | count task dependency unlocked registered =>
    have grows : ∀ other, s.Given other →
        ∃ known, (other, known) ∈ (task, dependency) :: s.history.given :=
      fun other given => given.imp fun known member => List.mem_cons_of_mem _ member
    refine ⟨fun other known locked => ?_, fun other dependent member => ?_,
      fun worker dependent visited => grows _ (linked.visited worker dependent visited)⟩
    · obtain ⟨rfl, rfl⟩ := Prod.mk.inj (Option.some.inj locked)
      exact ⟨dependency, List.mem_cons_self⟩
    · refine grows _ (linked.dependents other dependent ?_)
      by_cases same : other = task
      · subst same
        simpa [setTask] using member
      · simpa [setTask, same] using member
  | link task dependency locked registered =>
    refine ⟨fun other known impossible => ?_, fun other dependent member => ?_, linked.visited⟩
    · cases impossible
    by_cases same : other = dependency
    · subst same
      simp only [setTask, Function.update_self, mem_put] at member
      rcases member with rfl | old
      · exact linked.adding task other locked
      · exact linked.dependents other dependent old
    · exact linked.dependents other dependent (by simpa [setTask, same] using member)
  | pop worker task rest point queue =>
    refine linked_of_point linked worker (.holding task) (fun other => ?_) (fun _ => rfl) rfl rfl
      (fun dependent impossible => by cases impossible)
    rw [setPoint_point, setLocalQueue_point]
  | steal worker victim task point other back =>
    refine linked_of_point linked worker (.holding task) (fun other => ?_) (fun _ => rfl) rfl rfl
      (fun dependent impossible => by cases impossible)
    show (((s.setLocalQueue victim _).setPoint worker _).worker other).point = _
    rw [setPoint_point, setLocalQueue_point]
  | localEmpty worker | globalEmpty worker | dequeue worker | lockVictims worker | pass worker
  | nothing worker | wait worker | run worker | finish worker | notZero worker | enqueue worker
  | deregister worker =>
    exact linked_of_point linked worker _ (setPoint_point s worker · _) (fun _ => rfl) rfl rfl
      (fun dependent impossible => by cases impossible)
  | visit worker task passed dependent point next =>
    refine linked_of_point linked worker _ (setPoint_point s worker · _) (fun _ => rfl) rfl rfl
      (fun other same => ?_)
    obtain rfl := Option.some.inj same
    exact linked.dependents task _ (nextDependent_mem next)
  | zero worker task dependent point =>
    refine linked_of_point linked worker _ (setPoint_point s worker · _) (fun _ => rfl) rfl rfl
      (fun other same => ?_)
    exact linked.visited worker other (by rw [point]; exact same)
  | decrement worker task dependent point | store worker task dependent point =>
    refine linked_of_point linked worker _ (setPoint_point s worker · _) (fun other => ?_) rfl rfl
      (fun other same => linked.visited worker other (by rw [point]; exact same))
    by_cases same : other = dependent.task
    · subst same
      simp [setTask]
    · simp [setTask, setPoint, same]
  | _ => exact ⟨linked.adding, linked.dependents, linked.visited⟩

/-- A call in progress is the only one about its task and has not pushed it, and a `submit`
that has returned has pushed its task once; tasks that were given a dependency may be pushed
by others too. -/
structure Owned (s : ThreadPool n) : Prop where
  alone : ∀ first second task, (s.thread first).task = some task →
    (s.thread second).task = some task → first = second
  fresh : ∀ thread task, (s.thread thread).task = some task → ¬ s.Given task →
    task ∉ s.history.enqueued
  notSubmitted : ∀ thread task, (s.thread thread).task = some task →
    task ∉ s.history.submitted
  pending : ∀ thread task, s.thread thread = .registering .submit task ∨
    s.thread thread = .checking .submit task → (s.task task).status = .pending
  once : ∀ task ∈ s.history.submitted, ¬ s.Given task → s.history.enqueued.count task = 1

theorem initial_owned : Owned (initial n) where
  alone first second task owned := by simp [initial, SubmitPoint.task] at owned
  fresh thread task owned := by simp [initial, SubmitPoint.task] at owned
  notSubmitted thread task owned := by simp [initial, SubmitPoint.task] at owned
  pending thread task point := by simp [initial] at point
  once task submitted := by simp [initial] at submitted

/-- A task whose `submit` has returned has an id that was generated. -/
theorem Owned.le_counter {s : ThreadPool n} (owned : Owned s) (numbered : Numbered s) {task : Nat}
    (submitted : task ∈ s.history.submitted) : task ≤ s.counter := by
  by_cases given : s.Given task
  · exact numbered.given task given
  · refine numbered.enqueued task (List.count_pos_iff.mp ?_)
    rw [owned.once task submitted given]
    exact Nat.one_pos

/-- A thread that moves on with its task, with nothing else changed for the tasks. -/
theorem owned_of_thread {s t : ThreadPool n} (owned : Owned s) (thread : Nat)
    (point : SubmitPoint) (threads : t.thread = (s.setThread thread point).thread)
    (submitted : t.history.submitted = s.history.submitted)
    (enqueued : t.history.enqueued = s.history.enqueued)
    (given : t.history.given = s.history.given) (tasks : t.task = s.task)
    (same : ∀ task, point.task = some task → (s.thread thread).task = some task)
    (pending : ∀ task, point = .registering .submit task ∨ point = .checking .submit task →
      (s.task task).status = .pending) : Owned t := by
  have earlier : ∀ other task, (t.thread other).task = some task →
      (s.thread other).task = some task := by
    intro other task owns
    rw [threads] at owns
    rcases setThread_task owns with ⟨rfl, new⟩ | ⟨-, old⟩
    · exact same task new
    · exact old
  refine ⟨fun first second task left right => ?_, fun other task owns => ?_,
    fun other task owns => ?_, fun other task at' => ?_, ?_⟩
  · exact owned.alone first second task (earlier first task left) (earlier second task right)
  · rw [Given, given, enqueued]
    exact owned.fresh other task (earlier other task owns)
  · rw [submitted]
    exact owned.notSubmitted other task (earlier other task owns)
  · rw [tasks]
    rw [threads] at at'
    by_cases here : other = thread
    · subst here
      exact pending task (by simpa [setThread] using at')
    · exact owned.pending other task (by simpa [setThread, here] using at')
  · simp only [Given, given, submitted, enqueued]
    exact owned.once

/-- A step that touches neither the threads nor the logs of `submit` and the pushes. -/
theorem owned_of_same {s t : ThreadPool n} (owned : Owned s) (threads : t.thread = s.thread)
    (submitted : t.history.submitted = s.history.submitted)
    (enqueued : t.history.enqueued = s.history.enqueued)
    (given : ∀ task, s.Given task → t.Given task)
    (pending : ∀ task, (s.task task).status = .pending → (t.task task).status = .pending) :
    Owned t := by
  refine ⟨?_, fun thread task owns notGiven => ?_, fun thread task owns => ?_,
    fun thread task at' => ?_, fun task isSubmitted notGiven => ?_⟩
  · rw [threads]
    exact owned.alone
  · rw [enqueued]
    exact owned.fresh thread task (threads ▸ owns) (mt (given task) notGiven)
  · rw [submitted]
    exact owned.notSubmitted thread task (threads ▸ owns)
  · exact pending task (owned.pending thread task (threads ▸ at'))
  · rw [enqueued]
    exact owned.once task (submitted ▸ isSubmitted) (mt (given task) notGiven)

/-- A call that pushes its task and returns. -/
theorem owned_of_push {s t : ThreadPool n} (owned : Owned s) (thread task : Nat)
    (owns : (s.thread thread).task = some task)
    (threads : t.thread = (s.setThread thread .idle).thread)
    (submitted : ∀ other, other ∈ t.history.submitted →
      other = task ∨ other ∈ s.history.submitted)
    (enqueued : t.history.enqueued = task :: s.history.enqueued)
    (given : t.history.given = s.history.given) (tasks : t.task = s.task) : Owned t := by
  have earlier : ∀ other known, (t.thread other).task = some known →
      other ≠ thread ∧ (s.thread other).task = some known := by
    intro other known later
    rw [threads] at later
    rcases setThread_task later with ⟨-, new⟩ | old
    · cases new
    · exact old
  have different : ∀ other known, (t.thread other).task = some known → known ≠ task := by
    intro other known later same
    obtain ⟨elsewhere, before⟩ := earlier other known later
    exact elsewhere (owned.alone other thread task (same ▸ before) owns)
  refine ⟨fun first second known left right => ?_, fun other known later notGiven => ?_,
    fun other known later => ?_, fun other known at' => ?_, fun known isSubmitted notGiven => ?_⟩
  · exact owned.alone first second known (earlier first known left).2 (earlier second known right).2
  · rw [Given, given] at notGiven
    rw [enqueued, List.mem_cons, not_or]
    exact ⟨different other known later,
      owned.fresh other known (earlier other known later).2 notGiven⟩
  · intro isSubmitted
    rcases submitted known isSubmitted with same | old
    · exact different other known later same
    · exact owned.notSubmitted other known (earlier other known later).2 old
  · have later : (t.thread other).task = some known := by rcases at' with is | is <;> rw [is] <;> rfl
    have elsewhere := (earlier other known later).1
    rw [threads] at at'
    rw [tasks]
    exact owned.pending other known (by simpa [setThread, elsewhere] using at')
  · rw [Given, given] at notGiven
    rw [enqueued, List.count_cons]
    by_cases same : known = task
    · subst same
      have none := owned.fresh thread known owns notGiven
      simp [List.count_eq_zero_of_not_mem none]
    · have old : known ∈ s.history.submitted := (submitted known isSubmitted).resolve_left same
      rw [owned.once known old notGiven]
      simp [Ne.symm same]

/-- Every step keeps the calls in order. -/
theorem moved_owned (build : Build) (address : Nat → Nat) (s t : ThreadPool n)
    (action : PoolAction n) (numbered : Numbered s) (linked : Linked s) (owned : Owned s)
    (moved : Moved build address s action t) : Owned t := by
  cases moved with
  | make thread call rank idle =>
    have beyond : ∀ task, task ≤ s.counter → task ≠ s.counter + 1 := fun task le => by omega
    refine ⟨fun first second task left right => ?_, fun other task owns notGiven => ?_,
      fun other task owns => ?_, fun other task at' => ?_, owned.once⟩
    · rcases setThread_task (s := s) left with ⟨rfl, new⟩ | ⟨-, old⟩ <;>
        rcases setThread_task (s := s) right with ⟨rfl, new'⟩ | ⟨-, old'⟩
      · rfl
      · exact absurd (Option.some.inj new).symm (beyond task (numbered.owned second task old'))
      · exact absurd (Option.some.inj new').symm (beyond task (numbered.owned first task old))
      · exact owned.alone first second task old old'
    · rcases setThread_task (s := s) owns with ⟨rfl, new⟩ | ⟨-, old⟩
      · obtain rfl := Option.some.inj new
        exact fun member => beyond _ (numbered.enqueued _ member) rfl
      · exact owned.fresh other task old notGiven
    · rcases setThread_task (s := s) owns with ⟨rfl, new⟩ | ⟨-, old⟩
      · obtain rfl := Option.some.inj new
        exact fun member => beyond _ (owned.le_counter numbered member) rfl
      · exact owned.notSubmitted other task old
    · by_cases here : other = thread
      · subst here
        simp only [setTask, setThread, Function.update_self, SubmitPoint.registering.injEq,
          reduceCtorEq, or_false] at at'
        obtain ⟨rfl, rfl⟩ := at'
        simp [setTask]
      · have before : s.thread other = .registering .submit task ∨
            s.thread other = .checking .submit task := by
          simpa [setTask, setThread, here] using at'
        have old := numbered.owned other task (by rcases before with is | is <;> rw [is] <;> rfl)
        have status := owned.pending other task before
        simpa [setTask, setThread, beyond task old] using status
  | register thread call task point unlocked =>
    refine owned_of_thread owned thread _ rfl rfl rfl rfl rfl
      (fun other new => by rw [point]; exact new) (fun other at' => ?_)
    rcases at' with is | is
    · cases is
    · cases is
      exact owned.pending thread task (.inl point)
  | ready thread call task point | lockWorkers thread call task point
  | full thread call task index point | room thread call task index point
  | allFull thread call task index point =>
    exact owned_of_thread owned thread _ rfl rfl rfl rfl rfl
      (fun other new => by rw [point]; exact new) (fun other at' => by simp at at')
  | notReady thread call task point waits =>
    cases call with
    | submit =>
      have status := owned.pending thread task (.inr point)
      simp [BaseTask.isReady, status] at waits
    | depSubmit =>
      exact owned_of_thread owned thread .idle rfl rfl rfl rfl rfl (fun other new => by cases new)
        (fun other at' => by simp at at')
  | push thread call task index point inside =>
    have owns : (s.thread thread).task = some task := by rw [point]; rfl
    cases call with
    | submit =>
      exact owned_of_push owned thread task owns rfl (fun other => List.mem_cons.mp) rfl rfl rfl
    | depSubmit => exact owned_of_push owned thread task owns rfl (fun other => .inr) rfl rfl rfl
  | enqueueGlobal thread call task point =>
    have owns : (s.thread thread).task = some task := by rw [point]; rfl
    cases call with
    | submit =>
      exact owned_of_push owned thread task owns rfl (fun other => List.mem_cons.mp) rfl rfl rfl
    | depSubmit => exact owned_of_push owned thread task owns rfl (fun other => .inr) rfl rfl rfl
  | count task dependency unlocked registered =>
    refine owned_of_same owned rfl rfl rfl
      (fun other given => given.imp fun known member => List.mem_cons_of_mem _ member)
      (fun other status => ?_)
    by_cases same : other = task
    · subst same
      simpa [setTask] using status
    · simpa [setTask, same] using status
  | link task dependency locked registered =>
    refine owned_of_same owned rfl rfl rfl (fun other given => given) (fun other status => ?_)
    by_cases same : other = dependency
    · subst same
      simpa [setTask] using status
    · simpa [setTask, same] using status
  | decrement worker task dependent point | store worker task dependent point =>
    refine owned_of_same owned rfl rfl rfl (fun other given => given) (fun other status => ?_)
    by_cases same : other = dependent.task
    · subst same
      simp [setTask, status]
    · simpa [setTask, setPoint, same] using status
  | enqueue worker task dependent point =>
    have given := linked.visited worker dependent (by rw [point]; rfl)
    have other : ∀ task, ¬ s.Given task → task ≠ dependent.task :=
      fun task notGiven same => notGiven (same ▸ given)
    refine ⟨owned.alone, fun thread task owns notGiven => ?_, owned.notSubmitted, owned.pending,
      fun task submitted notGiven => ?_⟩
    · intro member
      rcases List.mem_cons.mp member with same | old
      · exact other task notGiven same
      · exact owned.fresh thread task owns notGiven old
    · have old := owned.once task submitted notGiven
      rw [List.count_cons_of_ne (Ne.symm (other task notGiven))]
      exact old
  | _ => exact owned_of_same owned rfl rfl rfl (fun _ given => given) (fun _ status => status)

/-! ### The capacity of the local queues -/

/-- Only the thread in `try_add_task` may push, what it tested still holds, and no local queue
is too long. -/
structure Bounded (s : ThreadPool n) : Prop where
  threads : ∀ thread, (s.thread thread).locks = true → s.workersMutex = some (.thread thread)
  workers : ∀ worker victim, (s.worker worker).point = .stealing victim →
    s.workersMutex = some (.worker worker)
  room : ∀ thread call task index, s.thread thread = .pushing call task index →
    ∀ inside : index < n, (s.worker ⟨index, inside⟩).localQueue.length < queueCapacity
  capacity : ∀ worker, (s.worker worker).localQueue.length ≤ queueCapacity

theorem initial_bounded : Bounded (initial n) where
  threads thread locks := by simp [initial, SubmitPoint.locks] at locks
  workers worker victim point := by simp [initial] at point
  room thread call task index point := by simp [initial] at point
  capacity worker := by simp [initial]

/-- A thread that is not in `try_add_task` before or behind its step. -/
theorem bounded_of_thread {s t : ThreadPool n} (bounded : Bounded s) (thread : Nat)
    (point : SubmitPoint) (threads : t.thread = (s.setThread thread point).thread)
    (workers : t.worker = s.worker)
    (locks : point.locks = true → t.workersMutex = some (.thread thread))
    (others : ∀ holder, holder ≠ .thread thread → s.workersMutex = some holder →
      t.workersMutex = some holder)
    (room : ∀ call task index, point = .pushing call task index →
      ∀ inside : index < n, (s.worker ⟨index, inside⟩).localQueue.length < queueCapacity) :
    Bounded t := by
  refine ⟨fun other inside => ?_, fun worker victim at' => ?_,
    fun other call task index at' inside => ?_, fun worker => ?_⟩
  · rw [threads] at inside
    by_cases here : other = thread
    · subst here
      exact locks (by simpa [setThread] using inside)
    · refine others _ (by simpa using here) (bounded.threads other ?_)
      simpa [setThread, here] using inside
  · rw [workers] at at'
    exact others _ (by simp) (bounded.workers worker victim at')
  · rw [threads] at at'
    rw [workers]
    by_cases here : other = thread
    · subst here
      exact room call task index (by simpa [setThread] using at') inside
    · exact bounded.room other call task index (by simpa [setThread, here] using at') inside
  · rw [workers]
    exact bounded.capacity worker

/-- A worker that moves, with no local queue growing. -/
theorem bounded_of_worker {s t : ThreadPool n} (bounded : Bounded s) (worker : Fin n)
    (point : WorkerPoint) (threads : t.thread = s.thread)
    (points : ∀ other, (t.worker other).point =
      if other = worker then point else (s.worker other).point)
    (queues : ∀ other, (t.worker other).localQueue.length ≤ (s.worker other).localQueue.length)
    (locks : ∀ victim, point = .stealing victim → t.workersMutex = some (.worker worker))
    (others : ∀ holder, holder ≠ .worker worker → s.workersMutex = some holder →
      t.workersMutex = some holder) : Bounded t := by
  refine ⟨fun thread inside => ?_, fun other victim at' => ?_,
    fun thread call task index at' inside => ?_, fun other => ?_⟩
  · rw [threads] at inside
    exact others _ (by simp) (bounded.threads thread inside)
  · rw [points] at at'
    split at at'
    · rename_i here
      subst here
      exact locks victim at'
    · rename_i elsewhere
      exact others _ (by simpa using elsewhere) (bounded.workers other victim at')
  · rw [threads] at at'
    exact (queues _).trans_lt (bounded.room thread call task index at' inside)
  · exact (queues other).trans (bounded.capacity other)

/-- A worker that moves with all queues and the mutex as they were. -/
theorem bounded_of_walk {s t : ThreadPool n} (bounded : Bounded s) (worker : Fin n)
    (point : WorkerPoint) (threads : t.thread = s.thread)
    (workers : t.worker = (s.setPoint worker point).worker)
    (mutex : t.workersMutex = s.workersMutex)
    (locks : ∀ victim, point = .stealing victim → s.workersMutex = some (.worker worker)) :
    Bounded t := by
  refine bounded_of_worker bounded worker point threads (fun other => ?_) (fun other => ?_)
    (fun victim is => mutex ▸ locks victim is) (fun holder _ held => mutex ▸ held)
  · rw [workers, setPoint_point]
  · rw [workers, setPoint_localQueue]

/-- A push by the thread that holds `workers_mutex` fills the room it has tested. -/
theorem bounded_of_push {s t : ThreadPool n} (bounded : Bounded s) (thread : Nat)
    (call : SubmitCall) (task index : Nat) (point : s.thread thread = .pushing call task index)
    (inside : index < n) (threads : t.thread = (s.setThread thread .idle).thread)
    (workers : t.worker = (s.setLocalQueue ⟨index, inside⟩
      ((s.worker ⟨index, inside⟩).localQueue ++ [task])).worker) : Bounded t := by
  have mutex : s.workersMutex = some (.thread thread) :=
    bounded.threads thread (by rw [point]; rfl)
  have outside : ∀ other, (t.thread other).locks = false := by
    intro other
    rw [threads]
    by_cases here : other = thread
    · subst here
      simp [setThread, SubmitPoint.locks]
    · by_contra locks
      have held := bounded.threads other (by simpa [setThread, here] using locks)
      rw [mutex] at held
      exact here (by simpa using held.symm)
  refine ⟨fun other locks => ?_, fun worker victim at' => ?_, fun other call task index at' => ?_,
    fun worker => ?_⟩
  · rw [outside other] at locks
    cases locks
  · rw [workers, setLocalQueue_point] at at'
    have held := bounded.workers worker victim at'
    rw [mutex] at held
    cases held
  · have locks := outside other
    rw [at'] at locks
    cases locks
  · rw [workers, setLocalQueue_localQueue]
    split
    · rw [List.length_append, List.length_singleton]
      exact bounded.room thread call task index point inside
    · exact bounded.capacity worker

/-- Every step keeps the bound. -/
theorem moved_bounded (build : Build) (address : Nat → Nat) (s t : ThreadPool n)
    (action : PoolAction n) (bounded : Bounded s) (moved : Moved build address s action t) :
    Bounded t := by
  have stealer : ∀ worker victim, (s.worker worker).point = .stealing victim →
      ∀ holder, holder ≠ .worker worker → s.workersMutex ≠ some holder := by
    intro worker victim point holder other held
    rw [bounded.workers worker victim point] at held
    exact other (Option.some.inj held).symm
  cases moved with
  | make thread call rank idle | register thread call task point
  | ready thread call task point | notReady thread call task point
  | enqueueGlobal thread call task point =>
    exact bounded_of_thread bounded thread _ rfl rfl (fun locks => by cases locks)
      (fun holder _ held => held) (fun call task index impossible => by cases impossible)
  | lockWorkers thread call task point unlocked =>
    refine bounded_of_thread bounded thread _ rfl rfl (fun _ => rfl) (fun holder _ held => ?_)
      (fun call task index impossible => by cases impossible)
    rw [unlocked] at held
    cases held
  | full thread call task index point inside atCapacity =>
    exact bounded_of_thread bounded thread _ rfl rfl
      (fun _ => bounded.threads thread (by rw [point]; rfl)) (fun holder _ held => held)
      (fun call task index impossible => by cases impossible)
  | room thread call task index point inside below =>
    refine bounded_of_thread bounded thread _ rfl rfl
      (fun _ => bounded.threads thread (by rw [point]; rfl)) (fun holder _ held => held)
      (fun call task other same => ?_)
    cases same
    exact fun _ => below
  | allFull thread call task index point behind =>
    refine bounded_of_thread bounded thread _ rfl rfl (fun locks => by cases locks)
      (fun holder other held => ?_) (fun call task index impossible => by cases impossible)
    rw [bounded.threads thread (by rw [point]; rfl)] at held
    exact absurd (Option.some.inj held).symm other
  | push thread call task index point inside =>
    exact bounded_of_push bounded thread call task index point inside rfl rfl
  | count | nullTask | link | nullDependency =>
    exact ⟨bounded.threads, bounded.workers, bounded.room, bounded.capacity⟩
  | pop worker task rest point queue =>
    refine bounded_of_worker bounded worker (.holding task) rfl (fun other => ?_)
      (fun other => ?_) (fun victim impossible => by cases impossible) (fun holder _ held => held)
    · rw [setPoint_point, setLocalQueue_point]
    · rw [setPoint_localQueue, setLocalQueue_localQueue]
      split
      · rename_i here
        subst here
        simp [queue]
      · exact le_refl _
  | steal worker victim task point other back =>
    refine bounded_of_worker bounded worker (.holding task) rfl (fun other => ?_)
      (fun other => ?_) (fun victim impossible => by cases impossible)
      (fun holder different held => absurd held (stealer worker victim point holder different))
    · show (((s.setLocalQueue victim _).setPoint worker _).worker other).point = _
      rw [setPoint_point, setLocalQueue_point]
    · show (((s.setLocalQueue victim _).setPoint worker _).worker other).localQueue.length ≤ _
      rw [setPoint_localQueue, setLocalQueue_localQueue]
      split
      · rename_i here
        subst here
        simp
      · exact le_refl _
  | lockVictims worker point unlocked =>
    refine bounded_of_worker bounded worker _ rfl (setPoint_point s worker · _)
      (fun other => ?_) (fun victim _ => rfl) (fun holder _ held => ?_)
    · exact (setPoint_localQueue s worker other _ ▸ le_refl _)
    · rw [unlocked] at held
      cases held
  | pass worker ownsLock victim point inside =>
    exact bounded_of_walk bounded worker _ rfl rfl rfl
      (fun _ _ => bounded.workers worker victim point)
  | nothing worker ownsLock victim point behind =>
    refine bounded_of_worker bounded worker _ rfl (setPoint_point s worker · _)
      (fun other => ?_) (fun victim impossible => by cases impossible)
      (fun holder different held => absurd held (stealer worker victim point holder different))
    exact (setPoint_localQueue s worker other _ ▸ le_refl _)
  | localEmpty worker | globalEmpty worker | dequeue worker | wait worker | run worker
  | finish worker | visit worker | decrement worker | zero worker | notZero worker | store worker
  | enqueue worker | deregister worker =>
    exact bounded_of_walk bounded worker _ rfl rfl rfl (fun _ impossible => by cases impossible)

/-! ### Whole runs -/

/-- The invariant of the pool's tasks. -/
structure Conserved (s : ThreadPool n) : Prop where
  accounted : Accounted s
  numbered : Numbered s
  linked : Linked s
  owned : Owned s
  bounded : Bounded s

theorem initial_conserved : Conserved (initial n) :=
  ⟨initial_accounted, initial_numbered, initial_linked, initial_owned, initial_bounded⟩

theorem moved_conserved (build : Build) (address : Nat → Nat) (s t : ThreadPool n)
    (action : PoolAction n) (conserved : Conserved s) (moved : Moved build address s action t) :
    Conserved t where
  accounted := moved_accounted build address s t action conserved.accounted moved
  numbered := moved_numbered build address s t action conserved.linked conserved.numbered moved
  linked := moved_linked build address s t action conserved.linked moved
  owned := moved_owned build address s t action conserved.numbered conserved.linked
    conserved.owned moved
  bounded := moved_bounded build address s t action conserved.bounded moved

theorem run_conserved {build : Build} {address : Nat → Nat} {actions : List (PoolAction n)}
    {final : ThreadPool n} (run : Run (StepOf (step build address)) (initial n) actions final) :
    Conserved final :=
  run.invariant_of_step initial_conserved fun s action t conserved taken =>
    moved_conserved build address s t action conserved
      (moved_of_step build address s t action taken).2

/-- Where a task can be. -/
inductive Place (n : Nat)
  | localQueue (worker : Fin n)
  | globalQueue
  | held (worker : Fin n)
  | executed

/-- How often a task is in a place. -/
def amount (s : ThreadPool n) (task : Nat) : Place n → Nat
  | .localQueue worker => (s.worker worker).localQueue.count task
  | .globalQueue => s.globalQueue.count task
  | .held worker => holds task (s.worker worker).point
  | .executed => s.history.ran.count task

/-- The task is in exactly one place, once. -/
def InOnePlace (s : ThreadPool n) (task : Nat) : Prop :=
  ∃ place, s.amount task place = 1 ∧ ∀ other, other ≠ place → s.amount task other = 0

/-- A task that was located once is in exactly one place. -/
theorem inOnePlace_of_located (s : ThreadPool n) (task : Nat) (once : s.located task = 1) :
    s.InOnePlace task := by
  have locals (none : localCount task s = 0) (worker : Fin n) :
      s.amount task (.localQueue worker) = 0 :=
    Finset.sum_eq_zero_iff.mp none worker (Finset.mem_univ worker)
  have hands (none : pointSum (holds task) s = 0) (worker : Fin n) :
      s.amount task (.held worker) = 0 :=
    Finset.sum_eq_zero_iff.mp none worker (Finset.mem_univ worker)
  unfold located at once
  by_cases inLocal : localCount task s = 1
  · obtain ⟨worker, here, elsewhere⟩ := Tally.one_of_sum_eq_one inLocal
    refine ⟨.localQueue worker, here, fun other different => ?_⟩
    cases other with
    | localQueue victim => exact elsewhere victim fun same => different (same ▸ rfl)
    | globalQueue => show s.globalQueue.count task = 0; omega
    | held victim => exact hands (by omega) victim
    | executed => show s.history.ran.count task = 0; omega
  · by_cases inHands : pointSum (holds task) s = 1
    · obtain ⟨worker, here, elsewhere⟩ := Tally.one_of_sum_eq_one inHands
      refine ⟨.held worker, here, fun other different => ?_⟩
      cases other with
      | localQueue victim => exact locals (by omega) victim
      | globalQueue => show s.globalQueue.count task = 0; omega
      | held victim => exact elsewhere victim fun same => different (same ▸ rfl)
      | executed => show s.history.ran.count task = 0; omega
    · by_cases inGlobal : s.globalQueue.count task = 1
      · refine ⟨.globalQueue, inGlobal, fun other different => ?_⟩
        cases other with
        | localQueue victim => exact locals (by omega) victim
        | globalQueue => exact absurd rfl different
        | held victim => exact hands (by omega) victim
        | executed => show s.history.ran.count task = 0; omega
      · refine ⟨.executed, ?_, fun other different => ?_⟩
        · show s.history.ran.count task = 1
          omega
        · cases other with
          | localQueue victim => exact locals (by omega) victim
          | globalQueue => show s.globalQueue.count task = 0; omega
          | held victim => exact hands (by omega) victim
          | executed => exact absurd rfl different

/-- Only `add_dependency` gives a task a dependency. -/
theorem moved_given (build : Build) (address : Nat → Nat) (s t : ThreadPool n)
    (action : PoolAction n) (moved : Moved build address s action t) (task : Nat)
    (given : t.Given task) : s.Given task ∨ ∃ dependency, action = .addDependency task dependency := by
  cases moved with
  | notReady | push | enqueueGlobal =>
    rw [Given, returned_given] at given
    exact .inl given
  | count other dependency =>
    obtain ⟨known, member⟩ := given
    rcases List.mem_cons.mp member with same | old
    · obtain ⟨rfl, -⟩ := Prod.mk.inj same
      exact .inr ⟨dependency, rfl⟩
    · exact .inl ⟨known, old⟩
  | _ => exact .inl given

theorem run_given {build : Build} {address : Nat → Nat} {actions : List (PoolAction n)}
    {final : ThreadPool n} (run : Run (StepOf (step build address)) (initial n) actions final)
    (task : Nat) (given : final.Given task) :
    ∃ dependency, .addDependency task dependency ∈ actions := by
  generalize start : initial n = first at run
  induction run with
  | nil =>
    subst start
    simp [initial, Given] at given
  | snoc earlier last inductionHypothesis =>
    obtain ⟨-, moved⟩ := moved_of_step build address _ _ _ last
    rcases moved_given build address _ _ _ moved task given with old | ⟨dependency, rfl⟩
    · obtain ⟨dependency, member⟩ := inductionHypothesis old
      exact ⟨dependency, List.mem_append_left _ member⟩
    · exact ⟨dependency, by simp⟩

/-- Before shutdown, a task whose `submit` has returned is in exactly one of the local queues,
the global queue, the hands of the workers and the executed tasks, and it is there once, unless
it was itself given a dependency; and no local queue holds more than its capacity. -/
theorem submitted_inOnePlace (build : Build) (address : Nat → Nat) (actions : List (PoolAction n))
    (final : ThreadPool n)
    (run : Run (StepOf (step build address)) (initial n) actions final) :
    (∀ task ∈ final.history.submitted,
      (∀ dependency, .addDependency task dependency ∉ actions) → final.InOnePlace task) ∧
      ∀ worker, (final.worker worker).localQueue.length ≤ queueCapacity := by
  have conserved := run_conserved run
  refine ⟨fun task submitted alone => ?_, conserved.bounded.capacity⟩
  have notGiven : ¬ final.Given task := by
    intro given
    obtain ⟨dependency, member⟩ := run_given run task given
    exact alone dependency member
  refine inOnePlace_of_located final task ?_
  rw [conserved.accounted task, conserved.owned.once task submitted notGiven]

/-- One thread submits one task to a pool with one worker, whose queue has room. -/
def submitOne (thread : Nat) : List (PoolAction 1) :=
  [.makeTask thread .submit 0, .registerTask thread, .checkReady thread, .lockWorkers thread,
    .tryPushTask thread, .emplaceBack thread]

/-- Two threads fill the queue of the worker, and the third task goes to the global queue. The
worker executes the first task and takes the second one, and the fourth task finds room. -/
def submitFour : List (PoolAction 1) :=
  submitOne 0 ++ submitOne 1 ++
    [.makeTask 0 .submit 0, .registerTask 0, .checkReady 0, .lockWorkers 0, .tryPushTask 0,
      .popFront 0, .tryPushTask 0, .runFunction 0, .enqueueGlobal 0, .visit 0, .deregisterTask 0,
      .popFront 0] ++ submitOne 1

/-- Each of the four places holds one task. -/
theorem submitted_inOnePlace_four :
    ∃ final, Run (StepOf (step .debug id)) (initial 1) submitFour final ∧
      final.history.submitted = [4, 3, 2, 1] ∧ final.history.ran = [1] ∧
      (final.worker 0).point = .holding 2 ∧ final.globalQueue = [3] ∧
      (final.worker 0).localQueue = [4] ∧
      (∀ task ∈ final.history.submitted, final.InOnePlace task) ∧
      ∀ worker, (final.worker worker).localQueue.length ≤ queueCapacity := by
  have done : ((exec (step .debug id) (initial 1) submitFour).map fun s =>
      (s.history.submitted, s.history.ran, (s.worker 0).point, s.globalQueue,
        (s.worker 0).localQueue)) = some ([4, 3, 2, 1], [1], .holding 2, [3], [4]) := by
    decide
  obtain ⟨final, executed, same⟩ := Option.map_eq_some_iff.mp done
  simp only [Prod.mk.injEq] at same
  obtain ⟨submitted, ran, point, globalQueue, localQueue⟩ := same
  have run := run_of_exec executed
  obtain ⟨places, capacity⟩ := submitted_inOnePlace .debug id submitFour final run
  refine ⟨final, run, submitted, ran, point, globalQueue, localQueue,
    fun task member => places task member ?_, capacity⟩
  intro dependency
  simp [submitFour, submitOne]

end ThreadPool

end YYNet
