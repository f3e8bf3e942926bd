/-
This file models `FairMutex` and proves when it excludes.

A thread that finds the mutex locked puts a condition variable of its own into a
queue and waits on it. The thread that unlocks takes the first condition variable
out of the queue, notifies it, and leaves `locked_` as it is: the lock is handed
to the thread that was notified. That thread does not look at anything when its
wait returns, so a wait that returns without a notification takes a lock that
another thread owns. As long as waits return for notifications only, a locked
mutex has exactly one owner, which holds it or is about to.

Every step runs under `mtx_` and is atomic. The return from a wait is a step of
its own.
-/

import YYNet.Lib.Transition

namespace YYNet

open Transition

/-! ### The mutex -/

/-- Where a thread is: outside, waiting on its condition variable, notified but still inside
`wait`, or between a returned `lock` and its `unlock`. -/
inductive LockPhase
  | outside
  | waiting (variableId : Nat)
  | notified
  | holding
  deriving DecidableEq, Repr

/-- `FairMutex` with the threads that use it. A condition variable is a number that is used
once. -/
structure FairMutex (Thread : Type) where
  locked : Bool
  waiters : List Nat
  made : Nat
  phase : Thread → LockPhase

/-- What a thread does next. A wait may return that was not notified. -/
inductive LockAction (Thread : Type)
  | lock (thread : Thread)
  | unlock (thread : Thread)
  | wakeup (thread : Thread)
  | spuriousWakeup (thread : Thread)

namespace FairMutex

variable {Thread : Type}

/-- A new mutex, with no thread inside. -/
def initial : FairMutex Thread where
  locked := false
  waiters := []
  made := 0
  phase _ := .outside

section

variable [DecidableEq Thread]

/-- `lock`, up to its return or its wait. -/
def lock (mutex : FairMutex Thread) (thread : Thread) : FairMutex Thread :=
  if mutex.locked then
    { mutex with
      waiters := mutex.waiters ++ [mutex.made]
      made := mutex.made + 1
      phase := Function.update mutex.phase thread (.waiting mutex.made) }
  else
    { mutex with
      locked := true
      phase := Function.update mutex.phase thread .holding }

/-- `notify_one`: the thread that waits on the condition variable, if there is one. -/
def notifyOne (mutex : FairMutex Thread) (variableId : Nat) : FairMutex Thread :=
  { mutex with
    phase := fun thread =>
      if mutex.phase thread = .waiting variableId then .notified else mutex.phase thread }

/-- `unlock`. -/
def unlock (mutex : FairMutex Thread) (thread : Thread) : FairMutex Thread :=
  let left := { mutex with phase := Function.update mutex.phase thread .outside }
  match left.waiters with
  | [] => { left with locked := false }
  | front :: rest => { left.notifyOne front with waiters := rest }

/-- The return from `wait`, and from `lock`. -/
def returned (mutex : FairMutex Thread) (thread : Thread) : FairMutex Thread :=
  { mutex with phase := Function.update mutex.phase thread .holding }

/-- One step of a thread. -/
def step (mutex : FairMutex Thread) : LockAction Thread → Option (FairMutex Thread)
  | .lock thread => if mutex.phase thread = .outside then some (mutex.lock thread) else none
  | .unlock thread => if mutex.phase thread = .holding then some (mutex.unlock thread) else none
  | .wakeup thread => if mutex.phase thread = .notified then some (mutex.returned thread) else none
  | .spuriousWakeup thread =>
    match mutex.phase thread with
    | .waiting _ => some (mutex.returned thread)
    | _ => none

end

/-! ### Exclusion -/

/-- At most one thread holds the lock, and without a thread that holds it or was handed it, the
mutex is not locked. -/
structure Exclusive (mutex : FairMutex Thread) : Prop where
  single : ∀ first second, mutex.phase first = .holding → mutex.phase second = .holding →
    first = second
  unlocked : (∀ thread, mutex.phase thread ≠ .holding ∧ mutex.phase thread ≠ .notified) →
    mutex.locked = false

/-- Waits return for notifications only. -/
def Solicited (_ : FairMutex Thread) : LockAction Thread → Prop
  | .spuriousWakeup _ => False
  | _ => True

/-- A thread that has the lock, or was handed it. -/
def Owns (mutex : FairMutex Thread) (thread : Thread) : Prop :=
  mutex.phase thread = .holding ∨ mutex.phase thread = .notified

/-- The queue holds the condition variables of the threads that wait, and a mutex is locked
exactly as long as one thread owns it. -/
structure Handed (mutex : FairMutex Thread) : Prop where
  waits : ∀ variableId, variableId ∈ mutex.waiters ↔
    ∃ thread, mutex.phase thread = .waiting variableId
  distinct : ∀ first second variableId, mutex.phase first = .waiting variableId →
    mutex.phase second = .waiting variableId → first = second
  nodup : mutex.waiters.Nodup
  known : ∀ variableId ∈ mutex.waiters, variableId < mutex.made
  owned : mutex.locked = true → ∃! thread, mutex.Owns thread
  free : mutex.locked = false → mutex.waiters = [] ∧ ∀ thread, ¬ mutex.Owns thread

theorem initial_handed : (initial : FairMutex Thread).Handed where
  waits variableId := by simp [initial]
  distinct first second variableId waits := by simp [initial] at waits
  nodup := List.nodup_nil
  known variableId member := by simp [initial] at member
  owned isLocked := by simp [initial] at isLocked
  free _ := ⟨rfl, fun thread owns => by simp [Owns, initial] at owns⟩

theorem Handed.exclusive {mutex : FairMutex Thread} (handed : mutex.Handed) :
    mutex.Exclusive := by
  constructor
  · intro first second holdsFirst holdsSecond
    cases isLocked : mutex.locked with
    | false => exact absurd (.inl holdsFirst) ((handed.free isLocked).2 first)
    | true => exact (handed.owned isLocked).unique (.inl holdsFirst) (.inl holdsSecond)
  · intro nobody
    by_contra isLocked
    obtain ⟨thread, owns, -⟩ := handed.owned (Bool.eq_true_of_not_eq_false isLocked)
    rcases owns with holds | isNotified
    · exact (nobody thread).1 holds
    · exact (nobody thread).2 isNotified

/-- A thread that holds the lock is its only owner. -/
theorem Handed.owner {mutex : FairMutex Thread} {thread : Thread} (handed : mutex.Handed)
    (holds : mutex.Owns thread) :
    mutex.locked = true ∧ ∀ other, mutex.Owns other → other = thread := by
  cases isLocked : mutex.locked with
  | false => exact absurd holds ((handed.free isLocked).2 thread)
  | true => exact ⟨rfl, fun other owns => (handed.owned isLocked).unique owns holds⟩

/-- With an empty queue no thread waits. -/
theorem Handed.unwaited {mutex : FairMutex Thread} (handed : mutex.Handed)
    (empty : mutex.waiters = []) (thread : Thread) (variableId : Nat) :
    mutex.phase thread ≠ .waiting variableId := by
  intro waits
  have member := (handed.waits variableId).mpr ⟨thread, waits⟩
  rw [empty] at member
  cases member

/-! ### Every step -/

section

variable [DecidableEq Thread] {mutex : FairMutex Thread} {thread : Thread}

/-- A mutex that is not locked is taken. -/
theorem Handed.lock_free (handed : mutex.Handed) (isFree : mutex.locked = false) :
    (mutex.lock thread).Handed := by
  obtain ⟨empty, nobody⟩ := handed.free isFree
  have phase : ∀ other, (mutex.lock thread).phase other =
      if other = thread then .holding else mutex.phase other := by
    intro other
    simp [lock, isFree, Function.update_apply]
  have isLocked : (mutex.lock thread).locked = true := by simp [lock, isFree]
  have waiters : (mutex.lock thread).waiters = [] := by simp [lock, isFree, empty]
  have stays : ∀ other variableId, (mutex.lock thread).phase other ≠ .waiting variableId := by
    intro other variableId
    rw [phase]
    split
    · exact LockPhase.noConfusion
    · exact handed.unwaited empty other variableId
  refine ⟨fun variableId => ?_, fun first second variableId waits => ?_, ?_, ?_, fun _ => ?_, ?_⟩
  · rw [waiters]
    exact iff_of_false List.not_mem_nil fun ⟨other, waits⟩ => stays other variableId waits
  · exact absurd waits (stays first variableId)
  · rw [waiters]
    exact List.nodup_nil
  · rw [waiters]
    exact fun variableId member => absurd member List.not_mem_nil
  · refine ⟨thread, .inl (by rw [phase, if_pos rfl]), fun other owns => ?_⟩
    by_contra different
    have owns : (mutex.lock thread).phase other = .holding ∨
        (mutex.lock thread).phase other = .notified := owns
    rw [phase, if_neg different] at owns
    exact nobody other owns
  · rw [isLocked]
    exact Bool.noConfusion

/-- A thread that finds the mutex locked waits at the end of the queue. -/
theorem Handed.lock_locked (handed : mutex.Handed) (isLocked : mutex.locked = true)
    (isOutside : mutex.phase thread = .outside) : (mutex.lock thread).Handed := by
  have phase : ∀ other, (mutex.lock thread).phase other =
      if other = thread then .waiting mutex.made else mutex.phase other := by
    intro other
    simp [lock, isLocked, Function.update_apply]
  have waiters : (mutex.lock thread).waiters = mutex.waiters ++ [mutex.made] := by
    simp [lock, isLocked]
  have made : (mutex.lock thread).made = mutex.made + 1 := by simp [lock, isLocked]
  have unused : mutex.made ∉ mutex.waiters := fun member =>
    absurd (handed.known _ member) (lt_irrefl _)
  have notMade : ∀ other, mutex.phase other ≠ .waiting mutex.made := fun other waits =>
    unused ((handed.waits _).mpr ⟨other, waits⟩)
  have owns : ∀ other, (mutex.lock thread).Owns other ↔ mutex.Owns other := by
    intro other
    unfold Owns
    rw [phase]
    split
    · rename_i same
      rw [same, isOutside]
      simp
    · exact Iff.rfl
  have waiting : ∀ other variableId, (mutex.lock thread).phase other = .waiting variableId ↔
      (other = thread ∧ variableId = mutex.made) ∨ mutex.phase other = .waiting variableId := by
    intro other variableId
    rw [phase]
    split
    · rename_i same
      rw [same, isOutside]
      simp [eq_comm]
    · rename_i different
      simp [different]
  refine ⟨fun variableId => ?_, fun first second variableId waits waits' => ?_, ?_,
    fun variableId member => ?_, fun _ => ?_, ?_⟩
  · rw [waiters, List.mem_append, List.mem_singleton, handed.waits]
    constructor
    · rintro (⟨other, waits⟩ | rfl)
      · exact ⟨other, (waiting other variableId).mpr (.inr waits)⟩
      · exact ⟨thread, (waiting thread _).mpr (.inl ⟨rfl, rfl⟩)⟩
    · rintro ⟨other, waits⟩
      rcases (waiting other variableId).mp waits with ⟨-, rfl⟩ | old
      · exact .inr rfl
      · exact .inl ⟨other, old⟩
  · rcases (waiting first variableId).mp waits with ⟨rfl, rfl⟩ | old <;>
      rcases (waiting second _).mp waits' with ⟨rfl, same⟩ | old'
    · rfl
    · exact absurd old' (notMade second)
    · rw [same] at old
      exact absurd old (notMade first)
    · exact handed.distinct first second variableId old old'
  · rw [waiters]
    refine List.nodup_append.mpr ⟨handed.nodup, List.nodup_singleton _, ?_⟩
    intro old member new isNew same
    rw [List.mem_singleton.mp isNew] at same
    exact unused (same ▸ member)
  · rw [made]
    rw [waiters, List.mem_append, List.mem_singleton] at member
    rcases member with old | rfl
    · exact (handed.known variableId old).trans (Nat.lt_succ_self _)
    · exact Nat.lt_succ_self _
  · obtain ⟨owner, isOwner, unique⟩ := handed.owned isLocked
    exact ⟨owner, (owns owner).mpr isOwner, fun other other' => unique other ((owns other).mp other')⟩
  · intro isFree
    simp [lock, isLocked] at isFree

/-- `unlock` without waiting threads leaves the mutex unlocked. -/
theorem Handed.unlock_empty (handed : mutex.Handed) (holds : mutex.phase thread = .holding)
    (empty : mutex.waiters = []) : (mutex.unlock thread).Handed := by
  have shape : mutex.unlock thread = { mutex with
      locked := false
      phase := Function.update mutex.phase thread .outside } := by
    simp [unlock, empty]
  have stays : ∀ other variableId, (mutex.unlock thread).phase other ≠ .waiting variableId := by
    intro other variableId
    rw [shape]
    simp only [Function.update_apply]
    split
    · exact LockPhase.noConfusion
    · exact handed.unwaited empty other variableId
  have waiters : (mutex.unlock thread).waiters = [] := by rw [shape, ← empty]
  refine ⟨fun variableId => ?_, fun first second variableId waits => ?_, ?_, ?_, fun isLocked => ?_,
    fun _ => ⟨waiters, fun other owns => ?_⟩⟩
  · rw [waiters]
    exact iff_of_false List.not_mem_nil fun ⟨other, waits⟩ => stays other variableId waits
  · exact absurd waits (stays first variableId)
  · rw [waiters]
    exact List.nodup_nil
  · rw [waiters]
    exact fun variableId member => absurd member List.not_mem_nil
  · rw [shape] at isLocked
    cases isLocked
  · unfold Owns at owns
    rw [shape] at owns
    simp only [Function.update_apply] at owns
    split at owns
    · simp at owns
    · rename_i different
      exact different ((handed.owner (.inl holds)).2 other owns)

/-- `unlock` hands the lock to the first thread of the queue. -/
theorem Handed.unlock_waiters (handed : mutex.Handed) (holds : mutex.phase thread = .holding)
    {front : Nat} {rest : List Nat} (queue : mutex.waiters = front :: rest) :
    (mutex.unlock thread).Handed := by
  obtain ⟨isLocked, onlyOwner⟩ := handed.owner (.inl holds)
  have nodup := handed.nodup
  rw [queue, List.nodup_cons] at nodup
  obtain ⟨next, waitsFront⟩ := (handed.waits front).mp (by rw [queue]; exact List.mem_cons_self)
  have different : next ≠ thread := by
    rintro rfl
    rw [holds] at waitsFront
    cases waitsFront
  have phase : ∀ other, (mutex.unlock thread).phase other =
      if other = thread then .outside else if other = next then .notified
      else mutex.phase other := by
    intro other
    simp only [unlock, queue, notifyOne, Function.update_apply]
    by_cases same : other = thread
    · simp [same]
    · rw [if_neg same, if_neg same]
      by_cases isNext : other = next
      · rw [isNext, waitsFront, if_pos rfl, if_pos rfl]
      · rw [if_neg isNext, if_neg]
        exact fun waits => isNext (handed.distinct other next front waits waitsFront)
  have waiters : (mutex.unlock thread).waiters = rest := by simp [unlock, queue]
  have made : (mutex.unlock thread).made = mutex.made := by simp [unlock, queue, notifyOne]
  have waiting : ∀ other variableId, (mutex.unlock thread).phase other = .waiting variableId ↔
      mutex.phase other = .waiting variableId ∧ other ≠ next := by
    intro other variableId
    rw [phase]
    split
    · rename_i same
      rw [same, holds]
      simp
    · split
      · rename_i same
        simp [same]
      · rename_i notNext
        simp [notNext]
  refine ⟨fun variableId => ?_, fun first second variableId waits waits' => ?_, ?_,
    fun variableId member => ?_, fun _ => ⟨next, .inr ?_, fun other owns => ?_⟩, fun isFree => ?_⟩
  · rw [waiters]
    constructor
    · intro member
      have inQueue : variableId ∈ mutex.waiters := by
        rw [queue]
        exact List.mem_cons_of_mem _ member
      obtain ⟨other, waits⟩ := (handed.waits variableId).mp inQueue
      refine ⟨other, (waiting other variableId).mpr ⟨waits, ?_⟩⟩
      rintro rfl
      rw [waits] at waitsFront
      cases waitsFront
      exact nodup.1 member
    · rintro ⟨other, waits⟩
      obtain ⟨waits, notNext⟩ := (waiting other variableId).mp waits
      have inQueue := (handed.waits variableId).mpr ⟨other, waits⟩
      rw [queue] at inQueue
      rcases List.mem_cons.mp inQueue with rfl | member
      · exact absurd (handed.distinct other next variableId waits waitsFront) notNext
      · exact member
  · exact handed.distinct first second variableId ((waiting first variableId).mp waits).1
      ((waiting second variableId).mp waits').1
  · rw [waiters]
    exact nodup.2
  · rw [made]
    rw [waiters] at member
    exact handed.known variableId (by rw [queue]; exact List.mem_cons_of_mem _ member)
  · rw [phase, if_neg different, if_pos rfl]
  · have owns : (mutex.unlock thread).phase other = .holding ∨
        (mutex.unlock thread).phase other = .notified := owns
    rw [phase] at owns
    split at owns
    · simp at owns
    · rename_i notThread
      split at owns
      · assumption
      · exact absurd (onlyOwner other owns) notThread
  · have stays : (mutex.unlock thread).locked = mutex.locked := by simp [unlock, queue, notifyOne]
    rw [stays, isLocked] at isFree
    cases isFree

/-- A thread that was notified returns and keeps what it was handed. -/
theorem Handed.wakeup (handed : mutex.Handed) (isNotified : mutex.phase thread = .notified) :
    (mutex.returned thread).Handed := by
  have phase : ∀ other, (mutex.returned thread).phase other =
      if other = thread then .holding else mutex.phase other := by
    intro other
    simp [returned, Function.update_apply]
  have waiting : ∀ other variableId, (mutex.returned thread).phase other = .waiting variableId ↔
      mutex.phase other = .waiting variableId := by
    intro other variableId
    rw [phase]
    split
    · rename_i same
      rw [same, isNotified]
      simp
    · exact Iff.rfl
  have owns : ∀ other, (mutex.returned thread).Owns other ↔ mutex.Owns other := by
    intro other
    unfold Owns
    rw [phase]
    split
    · rename_i same
      rw [same, isNotified]
      simp
    · exact Iff.rfl
  refine ⟨fun variableId => ?_, fun first second variableId waits waits' => ?_, handed.nodup,
    handed.known, fun isLocked => ?_, fun isFree => ?_⟩
  · simp only [waiting]
    exact handed.waits variableId
  · exact handed.distinct first second variableId ((waiting first variableId).mp waits)
      ((waiting second variableId).mp waits')
  · simp only [owns]
    exact handed.owned isLocked
  · simp only [owns]
    exact handed.free isFree

/-- Every step without an unsolicited wake-up keeps the invariant. -/
theorem step_handed {action : LockAction Thread} {next : FairMutex Thread}
    (handed : mutex.Handed) (solicited : Solicited mutex action)
    (taken : mutex.step action = some next) : next.Handed := by
  cases action with
  | lock thread =>
    obtain ⟨isOutside, same⟩ := Option.ite_none_right_eq_some.mp taken
    obtain rfl := Option.some.inj same
    cases isLocked : mutex.locked with
    | false => exact handed.lock_free isLocked
    | true => exact handed.lock_locked isLocked isOutside
  | unlock thread =>
    obtain ⟨holds, same⟩ := Option.ite_none_right_eq_some.mp taken
    obtain rfl := Option.some.inj same
    cases queue : mutex.waiters with
    | nil => exact handed.unlock_empty holds queue
    | cons front rest => exact handed.unlock_waiters holds queue
  | wakeup thread =>
    obtain ⟨isNotified, same⟩ := Option.ite_none_right_eq_some.mp taken
    obtain rfl := Option.some.inj same
    exact handed.wakeup isNotified
  | spuriousWakeup thread => exact absurd solicited id

/-- In every run of any number of threads in which waits return for notifications only, at most
one thread is between a returned `lock` and its `unlock`, and a mutex that nobody has and nobody
was handed is not locked. -/
theorem fairMutex_exclusive (actions : List (LockAction Thread)) (final : FairMutex Thread)
    (run : Run (StepOf step) initial actions final)
    (solicited : Meets (StepOf step) Solicited initial actions) : final.Exclusive := by
  refine (run.invariant initial_handed ?_ solicited).exclusive
  intro state action next handed met taken
  exact step_handed handed met taken

end

/-- Two threads: the second one waits, is handed the lock, and unlocks. -/
def handover : List (LockAction Nat) := [.lock 0, .lock 1, .unlock 0, .wakeup 1]

theorem fairMutex_exclusive_handover :
    ∃ final, Run (StepOf step) initial handover final ∧ final.phase 1 = .holding ∧
      final.Exclusive := by
  have done : (exec step initial handover).map (fun mutex => mutex.phase 1) =
      some .holding := by
    decide
  obtain ⟨final, executed, holds⟩ := Option.map_eq_some_iff.mp done
  refine ⟨final, run_of_exec executed, holds,
    fairMutex_exclusive handover final (run_of_exec executed) ?_⟩
  intro before action after split state _
  have member : action ∈ handover := by
    rw [split]
    simp
  simp only [handover, List.mem_cons, List.not_mem_nil, or_false] at member
  rcases member with rfl | rfl | rfl | rfl <;> trivial

/-- A wait that returns without a notification: two threads hold the lock. -/
theorem not_fairMutex_exclusive :
    ∃ final, Run (StepOf step) (initial : FairMutex Nat)
      [.lock 0, .lock 1, .spuriousWakeup 1] final ∧ ¬ final.Exclusive := by
  have done : (exec step (initial : FairMutex Nat) [.lock 0, .lock 1, .spuriousWakeup 1]).map
      (fun mutex => (mutex.phase 0, mutex.phase 1)) = some (.holding, .holding) := by
    decide
  obtain ⟨final, executed, both⟩ := Option.map_eq_some_iff.mp done
  refine ⟨final, run_of_exec executed, fun exclusive => ?_⟩
  have same := exclusive.single 0 1 (congrArg Prod.fst both) (congrArg Prod.snd both)
  cases same

end FairMutex

end YYNet
