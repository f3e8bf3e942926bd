/-
This file proves in which order `EventLoop` runs its functors.

The list keeps the order of each thread that puts functors on it, and the loop
takes one functor after another. So whatever the threads do in between, the
functors of one thread run in the order in which that thread has queued them, those
that still wait stand behind those that have run, and none runs twice. A functor that
is dropped because the batch was full leaves a gap and changes no order. While none
is dropped, there is no gap.
-/

import YYNet.Net.EventLoop

namespace YYNet

open Transition ProducerQueue

namespace EventLoop

variable {Producer : Type}

/-! ### What a thread has queued, and what has come of it -/

/-- The threads that have queued a functor, in the order of the tickets. -/
def queuers (actions : List (LoopAction Producer)) : List Producer :=
  actions.filterMap fun
    | .enqueue producer => some producer
    | _ => none

theorem queuers_append (first second : List (LoopAction Producer)) :
    queuers (first ++ second) = queuers first ++ queuers second :=
  List.filterMap_append

variable [DecidableEq Producer]

/-- Whether a ticket is that of a functor a thread has queued. -/
def isFor (actions : List (LoopAction Producer)) (producer : Producer) (ticket : Nat) : Bool :=
  (queuers actions)[ticket]? = some producer

/-- The functors a thread has queued, in its order. -/
def queuedBy (actions : List (LoopAction Producer)) (producer : Producer) : List Nat :=
  (List.range (queuers actions).length).filter (isFor actions producer)

/-- The functors of a thread that have run, and behind them those that wait. -/
def servedFor (actions : List (LoopAction Producer)) (s : EventLoop Producer)
    (producer : Producer) : List Nat :=
  s.executed.filter (isFor actions producer) ++ itemsOf producer s.functionList

/-- The ticket an action gives to a thread. -/
def given (s : EventLoop Producer) (action : LoopAction Producer) (producer : Producer) :
    List Nat :=
  match action with
  | .enqueue other => if other = producer then [s.issued] else []
  | _ => []

/-! ### One step -/

/-- The tickets are the places in the order of all queueings, and the list and the history hold
no others. -/
structure Ticketed (actions : List (LoopAction Producer)) (s : EventLoop Producer) : Prop where
  issued : s.issued = (queuers actions).length
  owner : ∀ entry ∈ s.functionList, (queuers actions)[entry.2]? = some entry.1
  started : ∀ ticket ∈ s.executed, ticket < s.issued

section

variable {actions : List (LoopAction Producer)} {s t : EventLoop Producer}
  {action : LoopAction Producer}

/-- Whom an earlier ticket is for does not change. -/
theorem Ticketed.isFor_snoc (ticketed : Ticketed actions s) (action : LoopAction Producer)
    (producer : Producer) {ticket : Nat} (earlier : ticket < s.issued) :
    isFor (actions ++ [action]) producer ticket = isFor actions producer ticket := by
  have inside : ticket < (queuers actions).length := by rw [← ticketed.issued]; exact earlier
  rw [isFor, isFor, queuers_append, List.getElem?_append_left inside]

/-- A thread's list of queued functors grows by the ticket it is given. -/
theorem Ticketed.queuedBy_snoc (ticketed : Ticketed actions s) (action : LoopAction Producer)
    (producer : Producer) :
    queuedBy (actions ++ [action]) producer = queuedBy actions producer ++ s.given action producer := by
  have old : (List.range (queuers actions).length).filter (isFor (actions ++ [action]) producer) =
      queuedBy actions producer :=
    List.filter_congr fun ticket member => ticketed.isFor_snoc action producer
      (by rw [ticketed.issued]; exact List.mem_range.mp member)
  cases action with
  | enqueue other =>
    have length : (queuers (actions ++ [LoopAction.enqueue other])).length =
        (queuers actions).length + 1 := by rw [queuers_append, List.length_append]; rfl
    have last : isFor (actions ++ [.enqueue other]) producer (queuers actions).length =
        decide (other = producer) := by
      rw [isFor, queuers_append]
      simp [queuers]
    rw [queuedBy, length, List.range_succ, List.filter_append, old, given, ticketed.issued]
    by_cases same : other = producer
    · subst same
      simp [last]
    · simp [last, same]
  | _ =>
    rw [queuedBy, queuers_append]
    show List.filter _ (List.range (queuers actions ++ []).length) = _ ++ []
    rw [List.append_nil, List.append_nil, old]

/-- What a thread has been served for is as before, with the ticket it is given behind it, unless
the action takes a functor off with the batch full: then at most one ticket drops out. -/
theorem Ticketed.servedFor_step (ticketed : Ticketed actions s) (taken : s.step action = some t)
    (producer : Producer) :
    Ticketed (actions ++ [action]) t ∧
      (servedFor (actions ++ [action]) t producer).Sublist
        (servedFor actions s producer ++ s.given action producer) ∧
      (BatchHasRoom s action → servedFor (actions ++ [action]) t producer =
        servedFor actions s producer ++ s.given action producer) := by
  have sameRan (others : List Nat) (earlier : ∀ ticket ∈ others, ticket < s.issued) :
      others.filter (isFor (actions ++ [action]) producer) =
        others.filter (isFor actions producer) :=
    List.filter_congr fun ticket member => ticketed.isFor_snoc action producer
      (earlier ticket member)
  have owned {entry : Producer × Nat} (onList : entry ∈ s.functionList) : entry.2 < s.issued := by
    rw [ticketed.issued]
    exact List.getElem?_eq_some_iff.mp (ticketed.owner entry onList) |>.1
  have keepsOwner {entry : Producer × Nat} (onList : entry ∈ s.functionList) :
      (queuers (actions ++ [action]))[entry.2]? = some entry.1 := by
    rw [queuers_append, List.getElem?_append_left (by rw [← ticketed.issued]; exact owned onList)]
    exact ticketed.owner entry onList
  -- A functor that is taken off stood on the list, and what stays stood there too.
  have off {other : Producer} {ticket : Nat} {rest : List (Producer × Nat)}
      (found : dequeue other s.functionList = some (ticket, rest)) :
      (other, ticket) ∈ s.functionList ∧ ∀ entry ∈ rest, entry ∈ s.functionList := by
    have perm := dequeue_perm other s.functionList rest ticket found
    exact ⟨perm.mem_iff.mpr List.mem_cons_self, fun entry member =>
      perm.mem_iff.mpr (List.mem_cons_of_mem _ member)⟩
  cases moved_of_step s t action taken with
  | enqueue other =>
    have length : s.issued + 1 = (queuers (actions ++ [.enqueue other])).length := by
      rw [queuers_append, List.length_append, ← ticketed.issued]
      rfl
    have whole : servedFor (actions ++ [.enqueue other]) { s with
          functionList := s.functionList ++ [(other, s.issued)]
          issued := s.issued + 1
          waking := s.waking ++ [other] } producer =
        servedFor actions s producer ++ s.given (.enqueue other) producer := by
      rw [servedFor, servedFor, sameRan _ ticketed.started, itemsOf_append, ← List.append_assoc]
      congr 1
      by_cases same : other = producer
      · subst same
        simp [given, itemsOf]
      · simp [given, itemsOf, same]
    refine ⟨⟨length, ?_, fun ticket ran => (ticketed.started ticket ran).trans (Nat.lt_succ_self _)⟩,
      whole ▸ List.Sublist.refl _, fun _ => whole⟩
    intro entry member
    rcases List.mem_append.mp member with old | new
    · exact keepsOwner old
    · obtain rfl := List.mem_singleton.mp new
      rw [queuers_append, ticketed.issued]
      simp [queuers]
  | start other final finishNum ticket rest place found room =>
    obtain ⟨onList, stays⟩ := off found
    have whole : servedFor (actions ++ [.tryDequeue other]) { s with
          functionList := rest
          executed := s.executed ++ [ticket]
          point := .running final finishNum } producer = servedFor actions s producer := by
      have ran := sameRan (s.executed ++ [ticket]) fun old member => by
        rcases List.mem_append.mp member with earlier | last
        · exact ticketed.started old earlier
        · obtain rfl := List.mem_singleton.mp last
          exact owned onList
      have isTicket : isFor actions producer ticket = decide (other = producer) := by
        rw [isFor, ticketed.owner _ onList]
        simp
      rw [servedFor, servedFor, ran, List.filter_append, List.append_assoc]
      congr 1
      by_cases same : other = producer
      · subst same
        rw [itemsOf_dequeue_self found]
        simp [isTicket]
      · rw [itemsOf_dequeue_other same found]
        simp [isTicket, same]
    refine ⟨⟨?_, fun entry member => keepsOwner (stays entry member), ?_⟩, ?_, fun _ => ?_⟩
    · rw [queuers_append, List.length_append, ← ticketed.issued]
      rfl
    · intro old member
      rcases List.mem_append.mp member with earlier | last
      · exact ticketed.started old earlier
      · obtain rfl := List.mem_singleton.mp last
        exact owned onList
    · rw [whole]
      exact List.sublist_append_left _ _
    · rw [whole]
      exact (List.append_nil _).symm
  | drop other final finishNum ticket rest place found full =>
    obtain ⟨onList, stays⟩ := off found
    refine ⟨⟨?_, fun entry member => keepsOwner (stays entry member), ticketed.started⟩, ?_,
      fun room => ?_⟩
    · rw [queuers_append, List.length_append, ← ticketed.issued]
      rfl
    · rw [servedFor, servedFor, sameRan _ ticketed.started]
      refine List.Sublist.trans (List.Sublist.append_left ?_ _) (List.sublist_append_left _ _)
      by_cases same : other = producer
      · subst same
        rw [itemsOf_dequeue_self found]
        exact List.sublist_cons_self _ _
      · rw [itemsOf_dequeue_other same found]
    · have below := room final finishNum place (by rw [found]; rfl)
      omega
  | _ =>
    -- The other steps touch neither the list nor the history.
    have ran := sameRan _ ticketed.started
    refine ⟨⟨?_, fun entry => keepsOwner, ticketed.started⟩, ?_, fun _ => ?_⟩
    · rw [queuers_append, List.length_append, ← ticketed.issued]
      rfl
    · show (List.filter _ s.executed ++ itemsOf producer s.functionList).Sublist _
      rw [ran]
      exact List.sublist_append_left _ _
    · show List.filter _ s.executed ++ itemsOf producer s.functionList = _ ++ []
      rw [ran, List.append_nil]
      rfl

end

/-! ### A run -/

/-- What each thread has been served for, after every run. -/
theorem served_of_run {actions : List (LoopAction Producer)} {s : EventLoop Producer}
    (isRun : Run (StepOf step) initial actions s) (producer : Producer) :
    Ticketed actions s ∧ (servedFor actions s producer).Sublist (queuedBy actions producer) ∧
      (Meets (StepOf step) BatchHasRoom initial actions →
        servedFor actions s producer = queuedBy actions producer) := by
  induction isRun with
  | nil => exact ⟨⟨rfl, by rintro _ ⟨⟩, by rintro _ ⟨⟩⟩, List.Sublist.refl _, fun _ => rfl⟩
  | snoc earlier last inductionHypothesis =>
    obtain ⟨ticketed, sublist, whole⟩ := inductionHypothesis
    obtain ⟨next, fewer, same⟩ := ticketed.servedFor_step last producer
    rw [ticketed.queuedBy_snoc]
    refine ⟨next, fewer.trans (sublist.append (List.Sublist.refl _)), fun meets => ?_⟩
    obtain ⟨before, here⟩ := (meets_snoc _ _ _ _ _).mp meets
    rw [same (here _ earlier), whole before]

/-- In every run, the functors of one thread that have run, followed by those that still wait, are
in the order in which the thread has queued them, each once at most. While the loop takes no functor
off with its batch full, they are all of them. -/
theorem in_queued_order (actions : List (LoopAction Producer)) (s : EventLoop Producer)
    (isRun : Run (StepOf step) initial actions s) (producer : Producer) :
    (servedFor actions s producer).Sublist (queuedBy actions producer) ∧
      (queuedBy actions producer).Pairwise (· < ·) ∧
      (Meets (StepOf step) BatchHasRoom initial actions →
        servedFor actions s producer = queuedBy actions producer) := by
  obtain ⟨-, sublist, whole⟩ := served_of_run isRun producer
  exact ⟨sublist, List.pairwise_lt_range.filter _, whole⟩

/-- There is a first thread of two. -/
local instance twoQueuersNonzero : NeZero 2 := ⟨two_ne_zero⟩

/-- Two threads queue three functors, and the loop runs two. -/
def twoQueuers : List (LoopAction (Fin 2)) :=
  [.enqueue 0, .enqueue 1, .enterLoop, .testLooping, .pollReturns, .enqueue 0, .handlersDone,
    .startDrain, .tryDequeue 1, .functorDone, .tryDequeue 0]

instance batchHasRoomDecidable (s : EventLoop Producer) :
    (action : LoopAction Producer) → Decidable (BatchHasRoom s action)
  | .tryDequeue producer =>
    match place : s.point with
    | .draining final finishNum =>
      decidable_of_iff ((dequeue producer s.functionList).isSome → finishNum < batchLimit)
        ⟨fun room _ _ same => by cases place.symm.trans same; exact room,
          fun room => room final finishNum place⟩
    | .idle | .loopTest | .polling | .handling | .handled | .running _ _ | .drained _
    | .finalTest | .returned =>
      .isTrue fun _ _ same => by cases place.symm.trans same
  | .enqueue _ | .wakeup _ | .enterLoop | .testLooping | .pollReturns | .readWakeFd | .quitRuns
  | .handlersDone | .startDrain | .tryDequeueFails | .functorDone | .endDrain | .testSize =>
    .isTrue trivial

theorem in_queued_order_two : ∃ s : EventLoop (Fin 2),
    exec step initial twoQueuers = some s ∧ s.executed = [1, 0] ∧
      queuedBy twoQueuers 0 = [0, 2] ∧
      servedFor twoQueuers s 0 = queuedBy twoQueuers 0 := by
  have done : ((exec step initial twoQueuers).map fun s => s.executed) = some [1, 0] := by
    decide +kernel
  obtain ⟨s, executed, ran⟩ := Option.map_eq_some_iff.mp done
  exact ⟨s, executed, ran, by decide, (in_queued_order twoQueuers s (run_of_exec executed) 0).2.2
    (meets_of_checks (by decide +kernel))⟩

end EventLoop

end YYNet
