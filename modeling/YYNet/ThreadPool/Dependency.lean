/-
This file keeps the invariant of runs in which dependencies are in order.

`BaseTask::execute` decrements the counter of a dependent and then reads it
again, in a step of its own, and `add_dependency` may be called at any time. A
run is in order where dependencies are given to tasks that wait, before the
dependency's function is called, and where no decrement to zero is made while
another worker is between its decrement and its second reading of the same
counter. In such a run every task runs at most once, every execution decrements
each of its dependents once, and a task is found ready once, by the worker that
made the last decrement.
-/

import YYNet.ThreadPool.Counted

namespace YYNet

open Checked Transition OrderedSet

/-- The call of a thread that goes on to push its task. -/
def SubmitPoint.adds : SubmitPoint → Option SubmitCall
  | locking call _ => some call
  | trying call _ _ => some call
  | pushing call _ _ => some call
  | enqueueing call _ => some call
  | _ => none

namespace WorkerPoint

/-- Whether a worker is between its decrement of a task's counter and its second reading, as a
number. -/
def rereads (task : Nat) : WorkerPoint → Nat
  | rereading _ dependent => if dependent.task = task then 1 else 0
  | _ => 0

/-- Whether a worker has read a task's counter as zero and not enqueued the task yet, as a
number. -/
def readies (task : Nat) : WorkerPoint → Nat
  | storing _ dependent => if dependent.task = task then 1 else 0
  | enqueueing _ dependent => if dependent.task = task then 1 else 0
  | _ => 0

/-- The dependent whose counter a worker is about to decrement. -/
def decrements : WorkerPoint → Option TaskPtr
  | decrementing _ dependent => some dependent
  | _ => none

/-- Whether an execution has decremented the counter of a dependent. -/
def Passes : WorkerPoint → TaskPtr → Prop
  | visiting _ (some passed), dependent => dependent ≤ passed
  | decrementing _ current, dependent => dependent < current
  | rereading _ current, dependent => dependent ≤ current
  | storing _ current, dependent => dependent ≤ current
  | enqueueing _ current, dependent => dependent ≤ current
  | _, _ => False

end WorkerPoint

namespace ThreadPool

variable {n : Nat}

/-! ### When dependencies are in order -/

/-- How often a task was found to be ready: its pushes, and the workers about to push it. -/
def found (s : ThreadPool n) (task : Nat) : Nat :=
  s.history.enqueued.count task + pointSum (WorkerPoint.readies task) s

/-- Dependencies are given to tasks that wait, before the dependency's function is called, and
fewer than `2 ^ 32` to one task; and a decrement to zero is made while no other worker is
between its decrement and its second reading of the same counter. -/
def InOrder (s : ThreadPool n) : PoolAction n → Prop
  | .addDependency task dependency => task ∈ s.history.depSubmitted ∧ s.found task = 0 ∧
      dependency ∉ s.history.ran ∧ s.calls task + 1 < 2 ^ 32
  | .insertDependent => ∀ pair ∈ s.adding, pair.2 ∉ s.history.ran
  | .decrement worker => ∀ dependent ∈ (s.worker worker).point.decrements,
      (s.task dependent.task).unresolvedDependencies = 1 →
      ∀ other, (s.worker other).point.rereads dependent.task = 0
  | _ => True

instance (s : ThreadPool n) (action : PoolAction n) : Decidable (InOrder s action) :=
  match action with
  | .addDependency _ _ => inferInstanceAs (Decidable (_ ∧ _ ∧ _ ∧ _))
  | .insertDependent => inferInstanceAs (Decidable (∀ pair ∈ s.adding, _))
  | .decrement _ => inferInstanceAs (Decidable (∀ dependent ∈ WorkerPoint.decrements _, _))
  | .makeTask _ _ _ | .registerTask _ | .checkReady _ | .lockWorkers _ | .tryPushTask _
  | .emplaceBack _ | .enqueueGlobal _ | .popFront _ | .dequeueTask _ _ | .lockVictims _
  | .tryStealTask _ _ | .wait _ | .runFunction _ | .visit _ | .reread _ | .storeStatus _
  | .enqueueTask _ | .deregisterTask _ => isTrue trivial

/-- Tasks that were given a dependency wait: their `dep_submit` has returned and did not push
them; and without a dependency a task is pushed at most once. -/
structure Waiting (s : ThreadPool n) : Prop where
  numbered : ∀ task ∈ s.history.depSubmitted, task ≤ s.counter
  given : ∀ task, s.Given task → task ∈ s.history.depSubmitted
  owned : ∀ thread task, (s.thread thread).task = some task → task ∉ s.history.depSubmitted
  status : ∀ thread task, s.thread thread = .registering .depSubmit task ∨
    s.thread thread = .checking .depSubmit task → (s.task task).status = .dependency
  early : ∀ thread, (s.thread thread).adds ≠ some .depSubmit
  unpushed : ∀ task ∈ s.history.depSubmitted, ¬ s.Given task → task ∉ s.history.enqueued
  single : ∀ task, ¬ s.Given task → s.history.enqueued.count task ≤ 1

/-- Each execution has decremented the dependents it has passed, once, and those only. -/
structure Passed (s : ThreadPool n) : Prop where
  worker : ∀ worker task, (s.worker worker).point.executing = some task →
    ∀ dependent ∈ (s.task task).dependents,
      ((dependent.task, task) ∈ s.history.dropped ↔ (s.worker worker).point.Passes dependent)
  finished : ∀ task ∈ s.history.finished, ∀ dependent ∈ (s.task task).dependents,
    (dependent.task, task) ∈ s.history.dropped
  nodup : s.history.dropped.Nodup

/-- A task that all its dependencies have dropped was found ready or is about to be, by one
worker, and no other task was found ready. -/
structure Readied (s : ThreadPool n) : Prop where
  bound : ∀ task, s.calls task < 2 ^ 32
  waits : ∀ task, s.Given task → s.drops task ≠ s.calls task → s.found task = 0
  ready : ∀ task, s.Given task → s.drops task = s.calls task →
    s.found task + pointSum (WorkerPoint.rereads task) s = 1

/-- The invariant of runs in order. -/
structure Dependable (address : Nat → Nat) (s : ThreadPool n) : Prop where
  kept : Kept address s
  waiting : Waiting s
  passed : Passed s
  readied : Readied s

theorem initial_dependable (address : Nat → Nat) : Dependable address (initial n) where
  kept := initial_kept address
  waiting :=
    { numbered := fun task member => by simp [initial] at member
      given := fun task given => by simp [initial, Given] at given
      owned := fun thread task owned => by simp [initial, SubmitPoint.task] at owned
      status := fun thread task point => by simp [initial] at point
      early := fun thread => by simp [initial, SubmitPoint.adds]
      unpushed := fun task member => by simp [initial] at member
      single := fun task _ => by simp [initial] }
  passed :=
    { worker := fun worker task execution => by simp [initial, WorkerPoint.executing] at execution
      finished := fun task member => by simp [initial] at member
      nodup := by simp [initial] }
  readied :=
    { bound := fun task => by simp [initial, calls]
      waits := fun task given => by simp [initial, Given] at given
      ready := fun task given => by simp [initial, Given] at given }

/-! ### Decrements and calls -/

/-- Pairs that are all different and among the given ones are counted by the calls. -/
theorem countP_le_calls {s : ThreadPool n} {pairs : List (Nat × Nat)} (nodup : pairs.Nodup)
    (among : ∀ pair ∈ pairs, pair ∈ s.history.given) (task : Nat) :
    pairs.countP (fun pair => pair.1 = task) ≤ s.calls task := by
  rw [calls, List.countP_eq_length_filter, List.countP_eq_length_filter]
  refine ((nodup.filter _).subperm fun pair member => ?_).length_le
  rw [List.mem_filter] at member ⊢
  exact ⟨among pair member.1, member.2⟩

/-- When as many decrements were made as dependencies given, every dependency has made its
own. -/
theorem Dependable.dropped_of_eq {address : Nat → Nat} {s : ThreadPool n}
    (dependable : Dependable address s) {task dependency : Nat} (all : s.drops task = s.calls task)
    (given : (task, dependency) ∈ s.history.given) : (task, dependency) ∈ s.history.dropped := by
  rw [drops, calls, List.countP_eq_length_filter, List.countP_eq_length_filter] at all
  have among : List.Subperm (s.history.dropped.filter fun pair => pair.1 = task)
      (s.history.given.filter fun pair => pair.1 = task) := by
    refine (dependable.passed.nodup.filter _).subperm fun pair member => ?_
    rw [List.mem_filter] at member ⊢
    exact ⟨(dependable.kept.counted.dropped pair.1 pair.2 member.1).1, member.2⟩
  have same := among.perm_of_length_le all.ge
  have member := same.mem_iff.mpr (List.mem_filter.mpr ⟨given, by simp⟩)
  exact (List.mem_filter.mp member).1

theorem Dependable.drops_le {address : Nat → Nat} {s : ThreadPool n}
    (dependable : Dependable address s) (task : Nat) : s.drops task ≤ s.calls task :=
  countP_le_calls dependable.passed.nodup
    (fun pair member => (dependable.kept.counted.dropped pair.1 pair.2 member).1) task

/-- The counter is zero when as many decrements were made as dependencies given. -/
theorem Dependable.zero_iff {address : Nat → Nat} {s : ThreadPool n}
    (dependable : Dependable address s) (task : Nat) :
    (s.task task).unresolvedDependencies = 0 ↔ s.drops task = s.calls task := by
  have le := dependable.drops_le task
  have bound := dependable.readied.bound task
  rw [dependable.kept.counted.counter task]
  constructor
  · intro zero
    have same : BitVec.ofNat 32 (s.calls task) = BitVec.ofNat 32 (s.drops task) := by bv_omega
    have values := congrArg BitVec.toNat same
    simp only [BitVec.toNat_ofNat] at values
    omega
  · intro same
    rw [same]
    bv_omega

/-! ### Every task runs at most once -/

theorem Dependable.enqueued_le_one {address : Nat → Nat} {s : ThreadPool n}
    (dependable : Dependable address s) (task : Nat) : s.history.enqueued.count task ≤ 1 := by
  by_cases given : s.Given task
  · by_cases all : s.drops task = s.calls task
    · have once := dependable.readied.ready task given all
      unfold found at once
      omega
    · have none := dependable.readied.waits task given all
      unfold found at none
      omega
  · exact dependable.waiting.single task given

theorem Dependable.ran_le_one {address : Nat → Nat} {s : ThreadPool n}
    (dependable : Dependable address s) (task : Nat) : s.history.ran.count task ≤ 1 := by
  have account := dependable.kept.conserved.accounted task
  have once := dependable.enqueued_le_one task
  unfold located at account
  omega

/-- A task is executed by one worker at a time, and it has not finished then. -/
theorem Dependable.execution {address : Nat → Nat} {s : ThreadPool n}
    (dependable : Dependable address s) {worker : Fin n} {task : Nat}
    (execution : (s.worker worker).point.executing = some task) :
    (∀ other, (s.worker other).point.executing = some task → other = worker) ∧
      task ∉ s.history.finished := by
  have share : executes task (s.worker worker).point = 1 := by simp [executes, execution]
  have part := share_le_pointSum (executes task) s worker
  have whole := dependable.kept.executed task
  have once := dependable.ran_le_one task
  constructor
  · intro other too
    have sum : pointSum (executes task) s = 1 := by omega
    obtain ⟨party, -, none⟩ := Tally.one_of_sum_eq_one sum
    have is (this : Fin n) (executing : (s.worker this).point.executing = some task) :
        this = party := by
      by_contra different
      have zero := none this different
      simp [executes, executing] at zero
    rw [is other too, is worker execution]
  · intro finished
    have positive := List.count_pos_iff.mpr finished
    omega

/-- A worker that holds a task is the first to call its function. -/
theorem Dependable.holding {address : Nat → Nat} {s : ThreadPool n}
    (dependable : Dependable address s) {worker : Fin n} {task : Nat}
    (point : (s.worker worker).point = .holding task) : task ∉ s.history.ran := by
  have share : holds task (s.worker worker).point = 1 := by rw [point, holds_holding, if_pos rfl]
  have part := share_le_pointSum (holds task) s worker
  have account := dependable.kept.conserved.accounted task
  have once := dependable.enqueued_le_one task
  unfold located at account
  intro ran
  have positive := List.count_pos_iff.mpr ran
  omega

/-! ### Tasks that wait -/

/-- A thread that moves on with its task. -/
theorem waiting_of_thread {s t : ThreadPool n} (waiting : Waiting s) (thread : Nat)
    (point : SubmitPoint) (threads : t.thread = (s.setThread thread point).thread)
    (counter : t.counter = s.counter) (history : t.history = s.history) (tasks : t.task = s.task)
    (same : ∀ task, point.task = some task → (s.thread thread).task = some task)
    (status : ∀ task, point = .registering .depSubmit task ∨ point = .checking .depSubmit task →
      (s.task task).status = .dependency)
    (early : point.adds ≠ some .depSubmit) : Waiting t := by
  refine ⟨?_, ?_, fun other task owns => ?_, fun other task at' => ?_, fun other => ?_, ?_, ?_⟩
  · rw [history, counter]
    exact waiting.numbered
  · simp only [Given, history]
    exact waiting.given
  · rw [threads] at owns
    rw [history]
    rcases setThread_task owns with ⟨rfl, new⟩ | ⟨-, old⟩
    · exact waiting.owned _ task (same task new)
    · exact waiting.owned other task old
  · rw [threads] at at'
    rw [tasks]
    by_cases here : other = thread
    · subst here
      exact status task (by simpa [setThread] using at')
    · exact waiting.status other task (by simpa [setThread, here] using at')
  · rw [threads]
    by_cases here : other = thread
    · subst here
      simpa [setThread] using early
    · simpa [setThread, here] using waiting.early other
  · simp only [Given, history]
    exact waiting.unpushed
  · simp only [Given, history]
    exact waiting.single

/-- A step that touches neither the threads nor the pushes. -/
theorem waiting_of_same {s t : ThreadPool n} (waiting : Waiting s) (threads : t.thread = s.thread)
    (counter : t.counter = s.counter)
    (depSubmitted : t.history.depSubmitted = s.history.depSubmitted)
    (given : t.history.given = s.history.given)
    (enqueued : t.history.enqueued = s.history.enqueued)
    (status : ∀ thread task, (s.thread thread).task = some task →
      (s.task task).status = .dependency → (t.task task).status = .dependency) : Waiting t := by
  refine ⟨?_, ?_, ?_, fun thread task at' => ?_, ?_, ?_, ?_⟩
  · rw [depSubmitted, counter]
    exact waiting.numbered
  · simp only [Given, given, depSubmitted]
    exact waiting.given
  · rw [threads, depSubmitted]
    exact waiting.owned
  · rw [threads] at at'
    refine status thread task ?_ (waiting.status thread task at')
    rcases at' with is | is <;> rw [is] <;> rfl
  · rw [threads]
    exact waiting.early
  · simp only [Given, given, depSubmitted, enqueued]
    exact waiting.unpushed
  · simp only [Given, given, enqueued]
    exact waiting.single

/-- A `submit` that pushes its task and returns. -/
theorem waiting_of_push {s t : ThreadPool n} (waiting : Waiting s) (owned : Owned s)
    (thread task : Nat) (owns : (s.thread thread).task = some task)
    (threads : t.thread = (s.setThread thread .idle).thread) (counter : t.counter = s.counter)
    (depSubmitted : t.history.depSubmitted = s.history.depSubmitted)
    (given : t.history.given = s.history.given)
    (enqueued : t.history.enqueued = task :: s.history.enqueued) (tasks : t.task = s.task) :
    Waiting t := by
  have outside : ∀ other, other ≠ thread → (t.thread other) = s.thread other := by
    intro other elsewhere
    rw [threads]
    simp [setThread, elsewhere]
  have here : t.thread thread = .idle := by
    rw [threads]
    simp [setThread]
  refine ⟨?_, ?_, fun other known later => ?_, fun other known at' => ?_, fun other => ?_,
    fun known member notGiven => ?_, fun known notGiven => ?_⟩
  · rw [depSubmitted, counter]
    exact waiting.numbered
  · simp only [Given, given, depSubmitted]
    exact waiting.given
  · rw [depSubmitted]
    by_cases same : other = thread
    · rw [same, here] at later
      cases later
    · exact waiting.owned other known (outside other same ▸ later)
  · rw [tasks]
    by_cases same : other = thread
    · rw [same, here] at at'
      simp at at'
    · exact waiting.status other known (outside other same ▸ at')
  · by_cases same : other = thread
    · rw [same, here]
      simp [SubmitPoint.adds]
    · rw [outside other same]
      exact waiting.early other
  · rw [depSubmitted] at member
    rw [Given, given] at notGiven
    rw [enqueued, List.mem_cons, not_or]
    refine ⟨fun same => ?_, waiting.unpushed known member notGiven⟩
    subst same
    exact waiting.owned thread known owns member
  · rw [Given, given] at notGiven
    rw [enqueued, List.count_cons]
    by_cases same : known = task
    · subst same
      have none := owned.fresh thread known owns notGiven
      simp [List.count_eq_zero_of_not_mem none]
    · have old := waiting.single known notGiven
      simpa [Ne.symm same] using old

/-- Every step in order keeps the tasks waiting. -/
theorem moved_waiting (build : Build) (address : Nat → Nat) (s t : ThreadPool n)
    (action : PoolAction n) (kept : Kept address s) (waiting : Waiting s)
    (inOrder : InOrder s action) (moved : Moved build address s action t) : Waiting t := by
  have owned := kept.conserved.owned
  have numbered := kept.conserved.numbered
  cases moved with
  | make thread call rank idle =>
    have beyond : ∀ task, task ≤ s.counter → task ≠ s.counter + 1 := fun task le => by omega
    refine ⟨fun task member => (waiting.numbered task member).trans (Nat.le_succ _), waiting.given,
      fun other task owns => ?_, fun other task at' => ?_, fun other => ?_, waiting.unpushed,
      waiting.single⟩
    · rcases setThread_task (s := s) owns with ⟨rfl, new⟩ | ⟨-, old⟩
      · obtain rfl := Option.some.inj new
        exact fun member => beyond _ (waiting.numbered _ member) rfl
      · exact waiting.owned other task old
    · by_cases here : other = thread
      · subst here
        simp only [setTask, setThread, Function.update_self, SubmitPoint.registering.injEq,
          reduceCtorEq, or_false] at at'
        obtain ⟨rfl, rfl⟩ := at'
        simp [setTask]
      · have before : s.thread other = .registering .depSubmit task ∨
            s.thread other = .checking .depSubmit task := by
          simpa [setTask, setThread, here] using at'
        have old := numbered.owned other task (by rcases before with is | is <;> rw [is] <;> rfl)
        have status := waiting.status other task before
        simpa [setTask, setThread, beyond task old] using status
    · by_cases here : other = thread
      · subst here
        simp [setTask, setThread, SubmitPoint.adds]
      · simpa [setTask, setThread, here] using waiting.early other
  | register thread call task point unlocked =>
    refine waiting_of_thread waiting thread _ rfl rfl rfl rfl
      (fun other new => by rw [point]; exact new) (fun other at' => ?_) (by simp [SubmitPoint.adds])
    rcases at' with is | is
    · cases is
    · cases is
      exact waiting.status thread task (.inl point)
  | ready thread call task point ready =>
    refine waiting_of_thread waiting thread _ rfl rfl rfl rfl
      (fun other new => by rw [point]; exact new) (fun other at' => by simp at at') (fun adds => ?_)
    obtain rfl := Option.some.inj adds
    have status := waiting.status thread task (.inr point)
    simp [BaseTask.isReady, status] at ready
  | lockWorkers thread call task point | full thread call task index point
  | room thread call task index point | allFull thread call task index point =>
    have early := waiting.early thread
    rw [point] at early
    exact waiting_of_thread waiting thread _ rfl rfl rfl rfl
      (fun other new => by rw [point]; exact new) (fun other at' => by simp at at') early
  | notReady thread call task point waits =>
    have owns : (s.thread thread).task = some task := by rw [point]; rfl
    cases call with
    | submit =>
      have status := owned.pending thread task (.inr point)
      simp [BaseTask.isReady, status] at waits
    | depSubmit =>
      refine ⟨?_, fun known given => List.mem_cons_of_mem _ (waiting.given known given),
        fun other known later => ?_, fun other known at' => ?_, fun other => ?_,
        fun known member notGiven => ?_, waiting.single⟩
      · exact List.forall_mem_cons.mpr ⟨numbered.owned thread task owns, waiting.numbered⟩
      · rcases setThread_task (s := s) later with ⟨-, new⟩ | ⟨elsewhere, old⟩
        · cases new
        · intro member
          rcases List.mem_cons.mp member with rfl | before
          · exact elsewhere (owned.alone other thread known old owns)
          · exact waiting.owned other known old before
      · by_cases here : other = thread
        · subst here
          simp [returned, setThread] at at'
        · exact waiting.status other known (by simpa [returned, setThread, here] using at')
      · by_cases here : other = thread
        · subst here
          simp [returned, setThread, SubmitPoint.adds]
        · simpa [returned, setThread, here] using waiting.early other
      · rcases List.mem_cons.mp member with rfl | before
        · exact owned.fresh thread known owns notGiven
        · exact waiting.unpushed known before notGiven
  | push thread call task index point inside =>
    have owns : (s.thread thread).task = some task := by rw [point]; rfl
    have early := waiting.early thread
    cases call with
    | submit => exact waiting_of_push waiting owned thread task owns rfl rfl rfl rfl rfl rfl
    | depSubmit =>
      rw [point] at early
      exact absurd rfl early
  | enqueueGlobal thread call task point =>
    have owns : (s.thread thread).task = some task := by rw [point]; rfl
    have early := waiting.early thread
    cases call with
    | submit => exact waiting_of_push waiting owned thread task owns rfl rfl rfl rfl rfl rfl
    | depSubmit =>
      rw [point] at early
      exact absurd rfl early
  | count task dependency unlocked registered =>
    have grows : ∀ other, s.Given other →
        ∃ known, (other, known) ∈ (task, dependency) :: s.history.given :=
      fun other given => given.imp fun known member => List.mem_cons_of_mem _ member
    refine ⟨waiting.numbered, fun other given => ?_, waiting.owned, fun thread other at' => ?_,
      waiting.early, fun other member notGiven => ?_, fun other notGiven => ?_⟩
    · obtain ⟨known, member⟩ := given
      rcases List.mem_cons.mp member with same | old
      · obtain ⟨rfl, -⟩ := Prod.mk.inj same
        exact inOrder.1
      · exact waiting.given other ⟨known, old⟩
    · have status := waiting.status thread other at'
      exact (setTask_field BaseTask.status (by rfl) other).trans status
    · exact waiting.unpushed other member (mt (grows other) notGiven)
    · exact waiting.single other (mt (grows other) notGiven)
  | link task dependency locked registered =>
    refine waiting_of_same waiting rfl rfl rfl rfl rfl fun thread other owns status => ?_
    exact (setTask_field BaseTask.status (by rfl) other).trans status
  | decrement worker task dependent point =>
    refine waiting_of_same waiting rfl rfl rfl rfl rfl fun thread other owns status => ?_
    exact (setTask_field BaseTask.status (by rfl) other).trans status
  | store worker task dependent point =>
    have given := kept.conserved.linked.visited worker dependent (by rw [point]; rfl)
    refine waiting_of_same waiting rfl rfl rfl rfl rfl fun thread other owns status => ?_
    rw [setTask_task, if_neg]
    · exact status
    · rintro rfl
      exact waiting.owned thread _ owns (waiting.given _ given)
  | enqueue worker task dependent point =>
    have given := kept.conserved.linked.visited worker dependent (by rw [point]; rfl)
    have other : ∀ task, ¬ s.Given task → task ≠ dependent.task :=
      fun task notGiven same => notGiven (same ▸ given)
    refine ⟨waiting.numbered, waiting.given, waiting.owned, waiting.status, waiting.early,
      fun known member notGiven => ?_, fun known notGiven => ?_⟩
    · intro pushed
      rcases List.mem_cons.mp pushed with same | old
      · exact other known notGiven same
      · exact waiting.unpushed known member notGiven old
    · have old := waiting.single known notGiven
      rw [List.count_cons_of_ne (Ne.symm (other known notGiven))]
      exact old
  | _ => exact waiting_of_same waiting rfl rfl rfl rfl rfl fun _ _ _ status => status

/-! ### Dependents that were passed -/

/-- The iteration comes to the dependents in order. -/
theorem passes_iff_lt_next {dependents : List TaskPtr} {passed : Option TaskPtr}
    {next dependent : TaskPtr} (task : Nat) (ordered : Ordered dependents)
    (isNext : nextDependent dependents passed = some next) (member : dependent ∈ dependents) :
    (WorkerPoint.visiting task passed).Passes dependent ↔ dependent < next := by
  cases passed with
  | none =>
    obtain ⟨rest, rfl⟩ := List.head?_eq_some_iff.mp isNext
    refine iff_of_false id (not_lt.mpr ?_)
    rcases List.mem_cons.mp member with rfl | later
    · exact le_refl _
    · exact ((List.pairwise_cons.mp ordered).1 dependent later).le
  | some passed => exact le_iff_lt_head_beyond ordered isNext member

/-- Behind the last dependent all were passed. -/
theorem passes_of_last {dependents : List TaskPtr} {passed : Option TaskPtr}
    {dependent : TaskPtr} (task : Nat) (last : nextDependent dependents passed = none)
    (member : dependent ∈ dependents) : (WorkerPoint.visiting task passed).Passes dependent := by
  cases passed with
  | none =>
    obtain rfl := List.head?_eq_none_iff.mp last
    cases member
  | some passed => exact le_of_head_beyond_eq_none last member

/-- A worker moves, and where it is executing a task it has passed what was decremented. -/
theorem passed_of_point {s t : ThreadPool n} (passed : Passed s) (worker : Fin n)
    (point : WorkerPoint)
    (points : ∀ other, (t.worker other).point =
      if other = worker then point else (s.worker other).point)
    (dependents : ∀ task, (t.task task).dependents = (s.task task).dependents)
    (dropped : t.history.dropped = s.history.dropped)
    (finished : ∀ task ∈ t.history.finished, task ∈ s.history.finished ∨
      ∀ dependent ∈ (s.task task).dependents, (dependent.task, task) ∈ s.history.dropped)
    (passes : ∀ task, point.executing = some task → ∀ dependent ∈ (s.task task).dependents,
      ((dependent.task, task) ∈ s.history.dropped ↔ point.Passes dependent)) : Passed t := by
  refine ⟨fun other task execution => ?_, fun task member => ?_, ?_⟩
  · rw [points] at execution ⊢
    rw [dependents, dropped]
    split at execution
    · rename_i here
      rw [if_pos here]
      exact passes task execution
    · rename_i elsewhere
      rw [if_neg elsewhere]
      exact passed.worker other task execution
  · rw [dependents, dropped]
    rcases finished task member with before | all
    · exact passed.finished task before
    · exact all
  · rw [dropped]
    exact passed.nodup

/-- A step that leaves the executions, the dependents and the decrements. -/
theorem passed_of_same {s t : ThreadPool n} (passed : Passed s)
    (points : ∀ worker, (t.worker worker).point = (s.worker worker).point)
    (dependents : ∀ task, (t.task task).dependents = (s.task task).dependents)
    (dropped : t.history.dropped = s.history.dropped)
    (finished : t.history.finished = s.history.finished) : Passed t := by
  refine ⟨fun worker task => ?_, fun task => ?_, ?_⟩
  · rw [points, dependents, dropped]
    exact passed.worker worker task
  · rw [finished, dependents, dropped]
    exact passed.finished task
  · rw [dropped]
    exact passed.nodup

theorem returned_finished (s : ThreadPool n) (thread : Nat) (call : SubmitCall) (task : Nat) :
    (s.returned thread call task).history.finished = s.history.finished := by
  cases call <;> rfl

/-- A new dependent of a task whose function was not called. -/
theorem passed_of_link {address : Nat → Nat} {s t : ThreadPool n}
    (dependable : Dependable address s) (dependency : Nat)
    (early : dependency ∉ s.history.ran) (workers : t.worker = s.worker)
    (dependents : ∀ task, task ≠ dependency →
      (t.task task).dependents = (s.task task).dependents)
    (history : t.history = s.history) : Passed t := by
  refine ⟨fun worker task execution => ?_, fun task member => ?_, ?_⟩
  · rw [workers] at execution ⊢
    have ran := dependable.kept.executed.ran execution
    rw [dependents task (fun same => early (same ▸ ran)), history]
    exact dependable.passed.worker worker task execution
  · rw [history] at member ⊢
    have ran : task ∈ s.history.ran := by
      have whole := dependable.kept.executed task
      have positive := List.count_pos_iff.mpr member
      exact List.count_pos_iff.mp (by omega)
    rw [dependents task (fun same => early (same ▸ ran))]
    exact dependable.passed.finished task member
  · rw [history]
    exact dependable.passed.nodup

/-- A decrement passes one more dependent. -/
theorem passed_of_decrement {address : Nat → Nat} {s t : ThreadPool n}
    (dependable : Dependable address s) (worker : Fin n) (task : Nat) (current : TaskPtr)
    (point : (s.worker worker).point = .decrementing task current)
    (points : ∀ other, (t.worker other).point =
      if other = worker then .rereading task current else (s.worker other).point)
    (dependents : ∀ task, (t.task task).dependents = (s.task task).dependents)
    (dropped : t.history.dropped = (current.task, task) :: s.history.dropped)
    (finished : t.history.finished = s.history.finished) : Passed t := by
  have execution : (s.worker worker).point.executing = some task := by rw [point]; rfl
  obtain ⟨alone, unfinished⟩ := dependable.execution execution
  have counted := dependable.kept.counted
  have inside : current ∈ (s.task task).dependents :=
    counted.places worker task current (by rw [point]; rfl)
  have before := dependable.passed.worker worker task execution
  rw [point] at before
  refine ⟨fun other known executes dependent member => ?_, fun known member dependent inner => ?_,
    ?_⟩
  · rw [points] at executes ⊢
    rw [dependents] at member
    rw [dropped, List.mem_cons]
    split at executes
    · rename_i here
      obtain rfl := Option.some.inj executes
      rw [if_pos here, before dependent member]
      show _ ∨ dependent < current ↔ dependent ≤ current
      rw [le_iff_eq_or_lt]
      refine or_congr_left ⟨fun same => ?_, fun same => same ▸ rfl⟩
      rw [counted.pointers task dependent member, counted.pointers task current inside,
        (Prod.mk.inj same).1]
    · rename_i elsewhere
      rw [if_neg elsewhere, dependable.passed.worker other known executes dependent member]
      refine or_iff_right fun same => ?_
      obtain ⟨-, rfl⟩ := Prod.mk.inj same
      exact elsewhere (alone other executes)
  · rw [finished] at member
    rw [dependents] at inner
    rw [dropped]
    exact List.mem_cons_of_mem _ (dependable.passed.finished known member dependent inner)
  · rw [dropped, List.nodup_cons]
    refine ⟨fun already => ?_, dependable.passed.nodup⟩
    exact absurd ((before current inside).mp already) (lt_irrefl current)

/-- Every step in order passes dependents in order. -/
theorem moved_passed (build : Build) (address : Nat → Nat) (s t : ThreadPool n)
    (action : PoolAction n) (dependable : Dependable address s) (inOrder : InOrder s action)
    (moved : Moved build address s action t) : Passed t := by
  have passed := dependable.passed
  have counted := dependable.kept.counted
  -- A worker that goes on from one dependent of its task.
  have goesOn : ∀ (worker : Fin n) (task : Nat) (old new : WorkerPoint),
      (s.worker worker).point = old → old.executing = some task → new.executing = some task →
      (∀ dependent, old.Passes dependent ↔ new.Passes dependent) →
      ∀ other, new.executing = some other → ∀ dependent ∈ (s.task other).dependents,
        ((dependent.task, other) ∈ s.history.dropped ↔ new.Passes dependent) := by
    intro worker task old new point executing goes same other executes dependent member
    obtain rfl : task = other := Option.some.inj (goes.symm.trans executes)
    rw [← same dependent, ← point]
    exact passed.worker worker task (point ▸ executing) dependent member
  cases moved with
  | make thread call rank idle =>
    refine passed_of_same passed (fun _ => rfl) (fun task => ?_) rfl rfl
    have none := counted.untouched _ (Nat.lt_succ_self s.counter)
    exact setTask_field BaseTask.dependents none.symm task
  | register | ready | lockWorkers | full | room | allFull | nullTask | nullDependency =>
    exact passed_of_same passed (fun _ => rfl) (fun _ => rfl) rfl rfl
  | notReady | enqueueGlobal =>
    exact passed_of_same passed (fun _ => rfl) (fun _ => rfl) (returned_dropped _ _ _ _)
      (returned_finished _ _ _ _)
  | push =>
    exact passed_of_same passed (fun worker => setLocalQueue_point s _ worker _) (fun _ => rfl)
      (returned_dropped _ _ _ _) (returned_finished _ _ _ _)
  | count task dependency unlocked registered =>
    exact passed_of_same passed (fun _ => rfl) (setTask_field BaseTask.dependents rfl) rfl rfl
  | link task dependency locked registered =>
    refine passed_of_link dependable dependency (inOrder (task, dependency) locked) rfl
      (fun other different => ?_) rfl
    show ((s.setTask dependency _).task other).dependents = _
    rw [setTask_task, if_neg different]
  | pop worker task rest point queue =>
    refine passed_of_point passed worker (.holding task) (fun other => ?_) (fun _ => rfl) rfl
      (fun _ => .inl) (fun _ impossible => by cases impossible)
    rw [setPoint_point, setLocalQueue_point]
  | steal worker victim task point other back =>
    refine passed_of_point passed worker (.holding task) (fun other => ?_) (fun _ => rfl) rfl
      (fun _ => .inl) (fun _ impossible => by cases impossible)
    show (((s.setLocalQueue victim _).setPoint worker _).worker other).point = _
    rw [setPoint_point, setLocalQueue_point]
  | localEmpty worker | globalEmpty worker | dequeue worker | lockVictims worker | pass worker
  | nothing worker | wait worker | deregister worker =>
    exact passed_of_point passed worker _ (setPoint_point s worker · _) (fun _ => rfl) rfl
      (fun _ => .inl) (fun _ impossible => by cases impossible)
  | run worker task point =>
    refine passed_of_point passed worker _ (setPoint_point s worker · _) (fun _ => rfl) rfl
      (fun _ => .inl) (fun other executes dependent member => ?_)
    obtain rfl := Option.some.inj executes
    refine iff_of_false (fun already => ?_) id
    exact dependable.holding point (counted.dropped _ _ already).2
  | finish worker task behind point last =>
    refine passed_of_point passed worker _ (setPoint_point s worker · _) (fun _ => rfl) rfl
      (fun other member => ?_) (fun _ impossible => by cases impossible)
    rcases List.mem_cons.mp member with rfl | old
    · refine .inr fun dependent inner => ?_
      rw [passed.worker worker other (by rw [point]; rfl) dependent inner, point]
      exact passes_of_last other last inner
    · exact .inl old
  | visit worker task behind dependent point next =>
    refine passed_of_point passed worker _ (setPoint_point s worker · _) (fun _ => rfl) rfl
      (fun _ => .inl) (fun other executes visited member => ?_)
    obtain rfl := Option.some.inj executes
    rw [passed.worker worker task (by rw [point]; rfl) visited member, point]
    exact passes_iff_lt_next task (counted.ordered task) next member
  | decrement worker task dependent point =>
    refine passed_of_decrement dependable worker task dependent point (setPoint_point s worker · _)
      (fun other => ?_) rfl rfl
    show ((ThreadPool.setTask _ dependent.task _).task other).dependents = _
    rw [setTask_task]
    split
    · rename_i same
      rw [same]
    · rfl
  | zero worker task dependent point | notZero worker task dependent point
  | enqueue worker task dependent point =>
    exact passed_of_point passed worker _ (setPoint_point s worker · _) (fun _ => rfl) rfl
      (fun _ => .inl) (goesOn worker task _ _ point rfl rfl fun _ => Iff.rfl)
  | store worker task dependent point =>
    refine passed_of_point passed worker _ (setPoint_point s worker · _) (fun other => ?_) rfl
      (fun _ => .inl) (goesOn worker task _ _ point rfl rfl fun _ => Iff.rfl)
    rw [setTask_task]
    split
    · rename_i same
      rw [same]
    · rfl

/-! ### Tasks that are ready -/

/-- How often a task was found ready, when one worker moves. -/
theorem found_of_points {s t : ThreadPool n} (worker : Fin n) (point : WorkerPoint)
    (points : ∀ other, (t.worker other).point =
      if other = worker then point else (s.worker other).point) (task : Nat) :
    t.found task + (s.worker worker).point.readies task + s.history.enqueued.count task =
      s.found task + point.readies task + t.history.enqueued.count task := by
  have moved := pointSum_of_points (WorkerPoint.readies task) worker point points
  unfold found
  omega

/-- A worker moves, what it found ready it still has or has pushed, and the ones about to read
again are as many as before for every task that is ready. -/
theorem readied_of_point {s t : ThreadPool n} (readied : Readied s) (worker : Fin n)
    (point : WorkerPoint)
    (points : ∀ other, (t.worker other).point =
      if other = worker then point else (s.worker other).point)
    (given : t.history.given = s.history.given) (dropped : t.history.dropped = s.history.dropped)
    (found : ∀ task, s.Given task → s.drops task ≠ s.calls task →
      point.readies task + t.history.enqueued.count task =
        (s.worker worker).point.readies task + s.history.enqueued.count task)
    (ready : ∀ task, s.Given task → s.drops task = s.calls task →
      point.readies task + point.rereads task + t.history.enqueued.count task =
        (s.worker worker).point.readies task + (s.worker worker).point.rereads task +
          s.history.enqueued.count task) : Readied t := by
  refine ⟨fun task => ?_, fun task isGiven waits => ?_, fun task isGiven all => ?_⟩
  · rw [calls, given]
    exact readied.bound task
  · rw [Given, given] at isGiven
    rw [drops, calls, given, dropped] at waits
    have before := readied.waits task isGiven waits
    have moved := found_of_points worker point points task
    have balance := found task isGiven waits
    omega
  · rw [Given, given] at isGiven
    rw [drops, calls, given, dropped] at all
    have before := readied.ready task isGiven all
    have moved := found_of_points worker point points task
    have rereading := pointSum_of_points (WorkerPoint.rereads task) worker point points
    have balance := ready task isGiven all
    omega

/-- A worker moves between points at which it is about no counter. -/
theorem readied_of_walk {s t : ThreadPool n} (readied : Readied s) (worker : Fin n)
    (point : WorkerPoint)
    (points : ∀ other, (t.worker other).point =
      if other = worker then point else (s.worker other).point)
    (given : t.history.given = s.history.given) (dropped : t.history.dropped = s.history.dropped)
    (enqueued : t.history.enqueued = s.history.enqueued)
    (readies : ∀ task, point.readies task = (s.worker worker).point.readies task)
    (rereads : ∀ task, point.rereads task = (s.worker worker).point.rereads task) : Readied t := by
  refine readied_of_point readied worker point points given dropped (fun task _ _ => ?_)
    (fun task _ _ => ?_)
  · rw [readies, enqueued]
  · rw [readies, rereads, enqueued]

/-- A step of a user thread that pushes at most a task without dependencies. -/
theorem readied_of_thread {s t : ThreadPool n} (readied : Readied s)
    (points : ∀ worker, (t.worker worker).point = (s.worker worker).point)
    (given : t.history.given = s.history.given) (dropped : t.history.dropped = s.history.dropped)
    (enqueued : ∀ task, s.Given task →
      t.history.enqueued.count task = s.history.enqueued.count task) : Readied t := by
  have same : ∀ task, s.Given task → t.found task = s.found task := by
    intro task isGiven
    rw [found, found, enqueued task isGiven, pointSum_congr _ points]
  refine ⟨fun task => ?_, fun task isGiven waits => ?_, fun task isGiven all => ?_⟩
  · rw [calls, given]
    exact readied.bound task
  · rw [Given, given] at isGiven
    rw [drops, calls, given, dropped] at waits
    rw [same task isGiven]
    exact readied.waits task isGiven waits
  · rw [Given, given] at isGiven
    rw [drops, calls, given, dropped] at all
    rw [same task isGiven, pointSum_congr _ points]
    exact readied.ready task isGiven all

/-- The first half of `add_dependency` for a task that waits. -/
theorem readied_of_count {address : Nat → Nat} {s t : ThreadPool n}
    (dependable : Dependable address s) (task dependency : Nat)
    (waits : s.found task = 0) (bound : s.calls task + 1 < 2 ^ 32) (workers : t.worker = s.worker)
    (given : t.history.given = (task, dependency) :: s.history.given)
    (dropped : t.history.dropped = s.history.dropped)
    (enqueued : t.history.enqueued = s.history.enqueued) : Readied t := by
  have readied := dependable.readied
  have found : ∀ other, t.found other = s.found other := by
    intro other
    rw [ThreadPool.found, ThreadPool.found, enqueued, pointSum, pointSum, workers]
  have drops : ∀ other, t.drops other = s.drops other := by
    intro other
    rw [ThreadPool.drops, ThreadPool.drops, dropped]
  have callsHere : t.calls task = s.calls task + 1 := by
    rw [calls, calls, given, List.countP_cons, if_pos (by simp)]
  have callsElse : ∀ other, other ≠ task → t.calls other = s.calls other := by
    intro other different
    rw [calls, calls, given, List.countP_cons, if_neg (by simpa using Ne.symm different)]
    rfl
  have givenElse : ∀ other, other ≠ task → t.Given other → s.Given other := by
    rintro other different ⟨known, member⟩
    rw [given] at member
    rcases List.mem_cons.mp member with same | old
    · exact absurd (Prod.mk.inj same).1 different
    · exact ⟨known, old⟩
  refine ⟨fun other => ?_, fun other isGiven notAll => ?_, fun other isGiven all => ?_⟩
  · by_cases same : other = task
    · rw [same, callsHere]
      exact bound
    · rw [callsElse other same]
      exact readied.bound other
  · rw [found]
    by_cases same : other = task
    · rw [same]
      exact waits
    · rw [drops, callsElse other same] at notAll
      exact readied.waits other (givenElse other same isGiven) notAll
  · have different : other ≠ task := by
      rintro rfl
      have le := dependable.drops_le other
      rw [drops, callsHere] at all
      omega
    rw [drops, callsElse other different] at all
    have once := readied.ready other (givenElse other different isGiven) all
    rw [found, pointSum, workers]
    exact once

/-- A decrement: where it is the last one, its worker is the only one to read again. -/
theorem readied_of_decrement {address : Nat → Nat} {s t : ThreadPool n}
    (dependable : Dependable address s) (worker : Fin n) (task : Nat) (current : TaskPtr)
    (point : (s.worker worker).point = .decrementing task current)
    (clear : (s.task current.task).unresolvedDependencies = 1 →
      pointSum (WorkerPoint.rereads current.task) s = 0)
    (points : ∀ other, (t.worker other).point =
      if other = worker then .rereading task current else (s.worker other).point)
    (given : t.history.given = s.history.given)
    (dropped : t.history.dropped = (current.task, task) :: s.history.dropped)
    (enqueued : t.history.enqueued = s.history.enqueued)
    (nodup : t.history.dropped.Nodup) : Readied t := by
  have readied := dependable.readied
  have counted := dependable.kept.counted
  have inside : current ∈ (s.task task).dependents :=
    counted.places worker task current (by rw [point]; rfl)
  have isGiven : (current.task, task) ∈ s.history.given :=
    (counted.dependents _ _).mpr (.inl (counted.pointers task current inside ▸ inside))
  have calls : ∀ other, t.calls other = s.calls other := by
    intro other
    rw [ThreadPool.calls, ThreadPool.calls, given]
  have dropsHere : t.drops current.task = s.drops current.task + 1 := by
    rw [drops, drops, dropped, List.countP_cons, if_pos (by simp)]
  have dropsElse : ∀ other, other ≠ current.task → t.drops other = s.drops other := by
    intro other different
    rw [drops, drops, dropped, List.countP_cons, if_neg (by simpa using Ne.symm different)]
    rfl
  have found : ∀ other, t.found other = s.found other := by
    intro other
    have moved := found_of_points worker _ points other
    rw [point, enqueued] at moved
    simp only [WorkerPoint.readies] at moved
    omega
  have rereading : ∀ other, pointSum (WorkerPoint.rereads other) t =
      pointSum (WorkerPoint.rereads other) s + if current.task = other then 1 else 0 := by
    intro other
    have moved := pointSum_of_points (WorkerPoint.rereads other) worker _ points
    rw [point] at moved
    simpa [WorkerPoint.rereads] using moved
  have more : s.drops current.task + 1 ≤ s.calls current.task := by
    have le : t.history.dropped.countP (fun pair => pair.1 = current.task) ≤
        s.calls current.task := by
      refine countP_le_calls nodup (fun pair member => ?_) current.task
      rw [dropped] at member
      rcases List.mem_cons.mp member with rfl | old
      · exact isGiven
      · exact (counted.dropped pair.1 pair.2 old).1
    rw [← dropsHere]
    exact le
  refine ⟨fun other => ?_, fun other hasCalls notAll => ?_, fun other hasCalls all => ?_⟩
  · rw [calls]
    exact readied.bound other
  · rw [Given, given] at hasCalls
    rw [found]
    by_cases same : other = current.task
    · rw [same] at hasCalls ⊢
      exact readied.waits _ hasCalls (by omega)
    · rw [calls, dropsElse other same] at notAll
      exact readied.waits other hasCalls notAll
  · rw [Given, given] at hasCalls
    rw [found, rereading]
    by_cases same : other = current.task
    · rw [same] at hasCalls all ⊢
      rw [calls, dropsHere] at all
      have none := readied.waits _ hasCalls (by omega)
      have last : (s.task current.task).unresolvedDependencies = 1 := by
        rw [counted.counter, ← all, BitVec.ofNat_add]
        bv_omega
      rw [none, clear last, if_pos rfl]
    · rw [calls, dropsElse other same] at all
      have once := readied.ready other hasCalls all
      rw [if_neg (Ne.symm same)]
      omega

/-- Every step in order finds tasks ready once. -/
theorem moved_readied (build : Build) (address : Nat → Nat) (s t : ThreadPool n)
    (action : PoolAction n) (dependable : Dependable address s) (inOrder : InOrder s action)
    (moved : Moved build address s action t) (nodup : t.history.dropped.Nodup) : Readied t := by
  have readied := dependable.readied
  have waiting := dependable.waiting
  cases moved with
  | make | register | ready | lockWorkers | full | room | allFull | nullTask | nullDependency
  | link =>
    exact readied_of_thread readied (fun _ => rfl) rfl rfl (fun _ _ => rfl)
  | notReady =>
    exact readied_of_thread readied (fun _ => rfl) (returned_given _ _ _ _)
      (returned_dropped _ _ _ _) (fun _ _ => by rw [returned_enqueued])
  | push thread call task index point inside =>
    refine readied_of_thread readied (fun worker => setLocalQueue_point s _ worker _)
      (returned_given _ _ _ _) (returned_dropped _ _ _ _) (fun other given => ?_)
    rw [returned_enqueued, List.count_cons_of_ne]
    rintro rfl
    exact waiting.owned thread task (by rw [point]; rfl) (waiting.given task given)
  | enqueueGlobal thread call task point =>
    refine readied_of_thread readied (fun worker => rfl)
      (returned_given _ _ _ _) (returned_dropped _ _ _ _) (fun other given => ?_)
    rw [returned_enqueued, List.count_cons_of_ne]
    rintro rfl
    exact waiting.owned thread task (by rw [point]; rfl) (waiting.given task given)
  | count task dependency unlocked registered =>
    exact readied_of_count dependable task dependency inOrder.2.1 inOrder.2.2.2 rfl rfl rfl rfl
  | pop worker task rest point queue =>
    refine readied_of_walk readied worker (.holding task) (fun other => ?_) rfl rfl rfl
      (fun _ => by rw [point]; rfl) (fun _ => by rw [point]; rfl)
    rw [setPoint_point, setLocalQueue_point]
  | steal worker victim task point other back =>
    refine readied_of_walk readied worker (.holding task) (fun other => ?_) rfl rfl rfl
      (fun _ => by rw [point]; rfl) (fun _ => by rw [point]; rfl)
    show (((s.setLocalQueue victim _).setPoint worker _).worker other).point = _
    rw [setPoint_point, setLocalQueue_point]
  | localEmpty worker point | globalEmpty worker _ point | dequeue worker _ point
  | lockVictims worker point | pass worker _ _ point | nothing worker _ _ point
  | wait worker point | run worker _ point | finish worker _ _ point | visit worker _ _ _ point
  | store worker _ _ point | deregister worker _ point =>
    exact readied_of_walk readied worker _ (setPoint_point s worker · _) rfl rfl rfl
      (fun _ => by rw [point]; rfl) (fun _ => by rw [point]; rfl)
  | decrement worker task dependent point =>
    refine readied_of_decrement dependable worker task dependent point (fun last => ?_)
      (setPoint_point s worker · _) rfl rfl rfl nodup
    exact Finset.sum_eq_zero fun other _ => inOrder dependent (by rw [point]; rfl) last other
  | zero worker task dependent point zero =>
    have all := (dependable.zero_iff dependent.task).mp zero
    refine readied_of_point readied worker _ (setPoint_point s worker · _) rfl rfl
      (fun other given waits => ?_) (fun other given ready => ?_)
    · have different : dependent.task ≠ other := by
        rintro rfl
        exact waits all
      rw [point]
      simp only [WorkerPoint.readies, if_neg different]
      rfl
    · rw [point]
      simp only [WorkerPoint.readies, WorkerPoint.rereads]
      rw [Nat.add_zero, Nat.zero_add]
      rfl
  | notZero worker task dependent point notZero =>
    have waits := mt (dependable.zero_iff dependent.task).mpr notZero
    refine readied_of_point readied worker _ (setPoint_point s worker · _) rfl rfl
      (fun other given _ => ?_) (fun other given all => ?_)
    · rw [point]
      rfl
    · have different : dependent.task ≠ other := by
        rintro rfl
        exact waits all
      rw [point]
      simp only [WorkerPoint.readies, WorkerPoint.rereads, if_neg different]
      rfl
  | enqueue worker task dependent point =>
    have balance : ∀ other, 0 + (dependent.task :: s.history.enqueued).count other =
        (if dependent.task = other then 1 else 0) + s.history.enqueued.count other := by
      intro other
      rw [List.count_cons]
      simp only [beq_iff_eq]
      omega
    refine readied_of_point readied worker _ (setPoint_point s worker · _) rfl rfl
      (fun other given _ => ?_) (fun other given _ => ?_)
    · rw [point]
      exact balance other
    · rw [point]
      exact balance other

/-- Every step in order keeps the invariant. -/
theorem moved_dependable (build : Build) (address : Nat → Nat) (s t : ThreadPool n)
    (action : PoolAction n) (dependable : Dependable address s) (inOrder : InOrder s action)
    (moved : Moved build address s action t) : Dependable address t := by
  have passed := moved_passed build address s t action dependable inOrder moved
  exact
    { kept := moved_kept build address s t action dependable.kept moved
      waiting := moved_waiting build address s t action dependable.kept dependable.waiting inOrder
        moved
      passed := passed
      readied := moved_readied build address s t action dependable inOrder moved passed.nodup }

end ThreadPool

end YYNet
