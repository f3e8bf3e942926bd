/-
This file proves that `FairMutex` is fair: threads get the lock in the order in which
they have called `lock`.

What the mutex is for is a line of threads. A call of `lock` goes to its end, the
thread at its front has the lock or is about to return with it, and `unlock` lets
the front leave. The queue of condition variables is this line without its front, each
variable in the place of the thread that waits on it. So the threads leave in the
order in which they came, a thread has to wait for those in front of it only, and
there is always one that can go on. This needs what exclusion needs, that waits
return for notifications only.
-/

import YYNet.Common.FairMutex

namespace YYNet

open Transition

namespace FairMutex

variable {Thread : Type}

/-! ### The line -/

/-- The threads that have called `lock`, in the order of their calls. -/
def asked (actions : List (LockAction Thread)) : List Thread :=
  actions.filterMap fun
    | .lock thread => some thread
    | _ => none

/-- The threads that have called `unlock`, in the order of their calls. -/
def left (actions : List (LockAction Thread)) : List Thread :=
  actions.filterMap fun
    | .unlock thread => some thread
    | _ => none

/-- The mutex keeps a line: its front has the lock or was handed it, and the others wait in
this order, each on the condition variable in its place of the queue. -/
structure Lined (mutex : FairMutex Thread) (line : List Thread) : Prop where
  front : ∀ thread, mutex.Owns thread ↔ line.head? = some thread
  behind : List.Forall₂ (fun thread variableId => mutex.phase thread = .waiting variableId)
    line.tail mutex.waiters

/-- How an action changes the line. -/
def moved (line : List Thread) : LockAction Thread → List Thread
  | .lock thread => line ++ [thread]
  | .unlock _ => line.tail
  | .wakeup _ | .spuriousWakeup _ => line

/-! ### One step -/

section

variable {mutex : FairMutex Thread} {thread : Thread} {line : List Thread}

/-- What the threads in the queue wait for is still so when other threads have moved. -/
theorem behind_congr {next : FairMutex Thread} {threads : List Thread} {queue : List Nat}
    (behind : List.Forall₂ (fun thread variableId => mutex.phase thread = .waiting variableId)
      threads queue)
    (same : ∀ other, ∀ variableId ∈ queue, mutex.phase other = .waiting variableId →
      next.phase other = .waiting variableId) :
    List.Forall₂ (fun thread variableId => next.phase thread = .waiting variableId)
      threads queue := by
  induction behind with
  | nil => exact .nil
  | cons waits _ inductionHypothesis =>
    refine .cons (same _ _ List.mem_cons_self waits) (inductionHypothesis ?_)
    exact fun other variableId member => same other variableId (List.mem_cons_of_mem _ member)

/-- A mutex that is not locked has an empty line. -/
theorem Lined.free (lined : mutex.Lined line) (handed : mutex.Handed)
    (isFree : mutex.locked = false) : line = [] := by
  cases line with
  | nil => rfl
  | cons front rest => exact absurd ((lined.front front).mpr rfl) ((handed.free isFree).2 front)

/-- A mutex that is locked has a front. -/
theorem Lined.locked (lined : mutex.Lined line) (handed : mutex.Handed)
    (isLocked : mutex.locked = true) : ∃ front rest, line = front :: rest := by
  obtain ⟨owner, owns, -⟩ := handed.owned isLocked
  cases line with
  | nil => cases (lined.front owner).mp owns
  | cons front rest => exact ⟨front, rest, rfl⟩

variable [DecidableEq Thread]

/-- `lock` goes to the end of the line. -/
theorem Lined.lock (lined : mutex.Lined line) (handed : mutex.Handed)
    (isOutside : mutex.phase thread = .outside) :
    (mutex.lock thread).Lined (line ++ [thread]) := by
  cases isLocked : mutex.locked with
  | false =>
    obtain rfl := lined.free handed isLocked
    obtain ⟨empty, nobody⟩ := handed.free isLocked
    have shape : mutex.lock thread = { mutex with
        locked := true
        phase := Function.update mutex.phase thread .holding } := by
      simp [FairMutex.lock, isLocked]
    refine ⟨fun other => ?_, ?_⟩
    · rw [shape, Owns]
      by_cases same : other = thread
      · simp [same]
      · simpa [Owns, Function.update_of_ne same, Ne.symm same] using nobody other
    · rw [shape, List.nil_append, List.tail_cons, empty]
      exact .nil
  | true =>
    obtain ⟨front, rest, rfl⟩ := lined.locked handed isLocked
    have shape : mutex.lock thread = { mutex with
        waiters := mutex.waiters ++ [mutex.made]
        made := mutex.made + 1
        phase := Function.update mutex.phase thread (.waiting mutex.made) } := by
      simp [FairMutex.lock, isLocked]
    refine ⟨fun other => ?_, ?_⟩
    · rw [List.cons_append, List.head?_cons, ← List.head?_cons (l := rest), ← lined.front other,
        shape]
      by_cases same : other = thread
      · simp [Owns, same, isOutside]
      · simp [Owns, Function.update_of_ne same]
    · rw [shape]
      refine List.rel_append ?_ (.cons (Function.update_self ..) .nil)
      refine behind_congr lined.behind fun other variableId _ waits => ?_
      have different : other ≠ thread := by
        rintro rfl
        rw [isOutside] at waits
        cases waits
      exact (Function.update_of_ne different ..).trans waits

/-- `unlock` lets the front leave and hands the lock to the thread behind it. -/
theorem Lined.unlock (lined : mutex.Lined line) (handed : mutex.Handed)
    (holds : mutex.phase thread = .holding) :
    line.head? = some thread ∧ (mutex.unlock thread).Lined line.tail := by
  have isFront := (lined.front thread).mp (.inl holds)
  obtain ⟨rest, rfl⟩ : ∃ rest, line = thread :: rest := by
    cases line with
    | nil => cases isFront
    | cons front rest => exact ⟨rest, by rw [Option.some.inj isFront]⟩
  have onlyOwner : ∀ other, mutex.Owns other → other = thread := fun other owns =>
    (Option.some.inj ((lined.front other).mp owns)).symm
  have behind := lined.behind
  rw [List.tail_cons] at behind
  refine ⟨isFront, ?_⟩
  rw [List.tail_cons]
  cases queue : mutex.waiters with
  | nil =>
    rw [queue, List.forall₂_nil_right_iff] at behind
    subst behind
    have shape : mutex.unlock thread = { mutex with
        locked := false
        phase := Function.update mutex.phase thread .outside } := by
      simp [FairMutex.unlock, queue]
    refine ⟨fun other => ?_, ?_⟩
    · rw [shape, Owns]
      by_cases same : other = thread
      · simp [same]
      · have nobody := mt (onlyOwner other) same
        simpa [Owns, Function.update_of_ne same] using nobody
    · rw [shape, queue]
      exact .nil
  | cons first others =>
    rw [queue] at behind
    obtain ⟨next, later, waits, waitBehind, rfl⟩ :
        ∃ next later, mutex.phase next = .waiting first ∧
          List.Forall₂ (fun thread variableId => mutex.phase thread = .waiting variableId)
            later others ∧ rest = next :: later := by
      cases behind with
      | cons waits waitBehind => exact ⟨_, _, waits, waitBehind, rfl⟩
    have nodup := handed.nodup
    rw [queue, List.nodup_cons] at nodup
    have waiters : (mutex.unlock thread).waiters = others := by simp [FairMutex.unlock, queue]
    have phase : ∀ other, (mutex.unlock thread).phase other =
        if other = thread then .outside else if other = next then .notified
        else mutex.phase other := by
      intro other
      simp only [FairMutex.unlock, queue, notifyOne, Function.update_apply]
      by_cases same : other = thread
      · simp [same]
      · rw [if_neg same, if_neg same]
        by_cases isNext : other = next
        · rw [isNext, waits, if_pos rfl, if_pos rfl]
        · rw [if_neg isNext, if_neg]
          exact fun waitsToo => isNext (handed.distinct other next first waitsToo waits)
    have different : next ≠ thread := by
      rintro rfl
      rw [holds] at waits
      cases waits
    refine ⟨fun other => ?_, ?_⟩
    · rw [Owns, phase, List.head?_cons]
      split
      · rename_i same
        simp [same, different]
      · rename_i notThread
        split
        · rename_i isNext
          simp [isNext]
        · rename_i notNext
          have nobody := mt (onlyOwner other) notThread
          simpa [Owns, Ne.symm notNext] using nobody
    · rw [waiters]
      refine behind_congr waitBehind fun other variableId member waitsToo => ?_
      have notThread : other ≠ thread := by
        rintro rfl
        rw [holds] at waitsToo
        cases waitsToo
      have notNext : other ≠ next := by
        rintro rfl
        rw [waits] at waitsToo
        cases waitsToo
        exact nodup.1 member
      rw [phase, if_neg notThread, if_neg notNext, waitsToo]

/-- A thread that returns from its wait stays the front. -/
theorem Lined.wakeup (lined : mutex.Lined line) (isNotified : mutex.phase thread = .notified) :
    (mutex.returned thread).Lined line := by
  refine ⟨fun other => ?_, behind_congr lined.behind fun other variableId _ waits => ?_⟩
  · rw [← lined.front other, Owns, Owns, returned]
    by_cases same : other = thread
    · simp [same, isNotified]
    · simp [Function.update_of_ne same]
  · have different : other ≠ thread := by
      rintro rfl
      rw [isNotified] at waits
      cases waits
    exact (Function.update_of_ne different ..).trans waits

/-- Every step without an unsolicited wake-up moves the line, and only its front leaves. -/
theorem Lined.step {action : LockAction Thread} {next : FairMutex Thread}
    (lined : mutex.Lined line) (handed : mutex.Handed) (solicited : Solicited mutex action)
    (taken : mutex.step action = some next) :
    next.Lined (moved line action) ∧ line ++ asked [action] = left [action] ++ moved line action := by
  cases action with
  | lock thread =>
    obtain ⟨isOutside, same⟩ := Option.ite_none_right_eq_some.mp taken
    obtain rfl := Option.some.inj same
    exact ⟨lined.lock handed isOutside, rfl⟩
  | unlock thread =>
    obtain ⟨holds, same⟩ := Option.ite_none_right_eq_some.mp taken
    obtain rfl := Option.some.inj same
    obtain ⟨isFront, leaves⟩ := lined.unlock handed holds
    refine ⟨leaves, ?_⟩
    show line ++ [] = [thread] ++ line.tail
    rw [List.append_nil]
    exact (List.cons_head?_tail isFront).symm
  | wakeup thread =>
    obtain ⟨isNotified, same⟩ := Option.ite_none_right_eq_some.mp taken
    obtain rfl := Option.some.inj same
    exact ⟨lined.wakeup isNotified, List.append_nil line⟩
  | spuriousWakeup thread => exact absurd solicited id

/-! ### A run -/

/-- The mutex keeps its line, and is handed from one thread to the next. -/
structure Served (mutex : FairMutex Thread) (line : List Thread) : Prop where
  handed : mutex.Handed
  lined : mutex.Lined line

omit [DecidableEq Thread] in
theorem initial_served : (initial : FairMutex Thread).Served [] :=
  ⟨initial_handed, fun thread => by simp [Owns, initial], .nil⟩

/-- In every run of any number of threads in which waits return for notifications only, the threads
leave in the order of their calls of `lock`. Those that have not left form a line: the one at its
front, and no other, has the lock or was handed it, and the others wait in the order of the
queue. -/
theorem in_order_of_calls (actions : List (LockAction Thread)) (final : FairMutex Thread)
    (run : Run (StepOf step) initial actions final)
    (solicited : Meets (StepOf step) Solicited initial actions) :
    ∃ line, asked actions = left actions ++ line ∧
      (∀ thread, final.Owns thread ↔ line.head? = some thread) ∧
      List.Forall₂ (fun thread variableId => final.phase thread = .waiting variableId)
        line.tail final.waiters := by
  suffices served : ∃ line, asked actions = left actions ++ line ∧ final.Served line by
    obtain ⟨line, order, -, lined⟩ := served
    exact ⟨line, order, lined.front, lined.behind⟩
  induction run with
  | nil => exact ⟨[], rfl, initial_served⟩
  | snoc earlier last inductionHypothesis =>
    obtain ⟨before, here⟩ := (meets_snoc _ _ _ _ _).mp solicited
    obtain ⟨line, order, handed, lined⟩ := inductionHypothesis before
    obtain ⟨next, moves⟩ := lined.step handed (here _ earlier) last
    refine ⟨moved line _, ?_, step_handed handed (here _ earlier) last, next⟩
    have calls (first second : List (LockAction Thread)) :
        asked (first ++ second) = asked first ++ asked second := List.filterMap_append
    have returns (first second : List (LockAction Thread)) :
        left (first ++ second) = left first ++ left second := List.filterMap_append
    rw [calls, returns, order, List.append_assoc, List.append_assoc, moves]

end

/-- Three threads: the first one leaves, the second one was handed the lock, the third one waits. -/
def threeInLine : List (LockAction Nat) := [.lock 0, .lock 1, .lock 2, .unlock 0]

theorem in_order_of_calls_three : ∃ final, exec step initial threeInLine = some final ∧
    final.phase 1 = .notified ∧ ∃ line, asked threeInLine = left threeInLine ++ line ∧
      (∀ thread, final.Owns thread ↔ line.head? = some thread) ∧
      List.Forall₂ (fun thread variableId => final.phase thread = .waiting variableId)
        line.tail final.waiters := by
  have done : (exec step initial threeInLine).map (fun mutex => mutex.phase 1) =
      some .notified := by decide
  obtain ⟨final, executed, isNotified⟩ := Option.map_eq_some_iff.mp done
  refine ⟨final, executed, isNotified,
    in_order_of_calls threeInLine final (run_of_exec executed) ?_⟩
  intro before action after split state _
  have member : action ∈ threeInLine := by
    rw [split]
    simp
  simp only [threeInLine, List.mem_cons, List.not_mem_nil, or_false] at member
  rcases member with rfl | rfl | rfl | rfl <;> trivial

end FairMutex

end YYNet
