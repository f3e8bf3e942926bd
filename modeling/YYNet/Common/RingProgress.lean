/-
This file proves two things about the ring that safety does not say: the threads
do not keep one another from finishing, and a call is refused for a reason.

A thread repeats its loop only when another one has won a ticket since it looked,
or when its exchange has failed spuriously. Each frame has a rank, the number of
steps the call still makes when neither happens any more. A step lowers the rank of
its thread by one, a ticket raises that of every other thread by two at most, and
so the steps are bounded by the calls, the spurious failures and the tickets.

`enqueue` returns false when the sequence number of a slot lies behind. The slot of
the position that is next is behind when its ticket of the lap before has not been
taken, which is what `full` says, or has been won and not released yet.
-/

import YYNet.Lib.Tally
import YYNet.Common.LockFreeThreads

namespace YYNet

open Checked Storage Transition

namespace LockFreeCurcularQueue

variable {Thread Value : Type}

/-! ### The steps that are left -/

/-- The steps a call still makes when no other thread wins a ticket and no exchange fails
spuriously. A position that is not the next one any more costs another round. -/
def Frame.rank (q : LockFreeCurcularQueue Value) : Frame Value → Nat
  | .enqueueLoad _ => 5
  | .enqueueRead _ pos => if pos = q.enqueuePos then 4 else 6
  | .enqueueSwap _ pos => if pos = q.enqueuePos then 3 else 5
  | .enqueueWrite .. => 2
  | .enqueuePublish _ => 1
  | .dequeueLoad => 5
  | .dequeueRead pos => if pos = q.dequeuePos then 4 else 6
  | .dequeueSwap pos => if pos = q.dequeuePos then 3 else 5
  | .dequeueTake _ => 2
  | .dequeueRelease .. => 1

/-- The rank of a thread; one that has no call has none. -/
def rankOf (q : LockFreeCurcularQueue Value) : Option (Frame Value) → Nat
  | some frame => frame.rank q
  | none => 0

/-- The tickets that have been won. -/
def won (q : LockFreeCurcularQueue Value) : Nat := q.enqueuePos + q.dequeuePos

/-- How many steps of running calls a schedule has. -/
def proceeds (acts : List (Act Thread Value)) : Nat :=
  acts.countP fun
    | .proceed .. => true
    | _ => false

/-- How many of them fail spuriously where they can. -/
def spuriousFailures (acts : List (Act Thread Value)) : Nat :=
  acts.countP fun
    | .proceed _ spurious => spurious
    | _ => false

/-- How many calls are running. -/
def Concurrent.busy [Fintype Thread] (s : Concurrent Thread Value) : Nat :=
  ∑ thread, if (s.running thread).isSome then 1 else 0

section

variable {q after : LockFreeCurcularQueue Value} {frame : Frame Value}

theorem Frame.rank_le_six (q : LockFreeCurcularQueue Value) (frame : Frame Value) :
    frame.rank q ≤ 6 := by
  cases frame <;> simp only [Frame.rank] <;> first | omega | (split <;> omega)

/-- A rank depends on the counters only. -/
theorem rankOf_congr (tail : after.enqueuePos = q.enqueuePos)
    (head : after.dequeuePos = q.dequeuePos) (running : Option (Frame Value)) :
    rankOf after running = rankOf q running := by
  rcases running with _ | frame
  · rfl
  · cases frame <;> simp only [rankOf, Frame.rank, tail, head]

/-- Whatever happens to the counters, a rank rises by two at most. -/
theorem rankOf_le_add_two (q after : LockFreeCurcularQueue Value)
    (running : Option (Frame Value)) : rankOf after running ≤ rankOf q running + 2 := by
  rcases running with _ | frame
  · exact Nat.zero_le _
  · cases frame <;> simp only [rankOf, Frame.rank] <;> first | omega | (split <;> split <;> omega)

end

/-! ### One step -/

section

variable {q queue : LockFreeCurcularQueue Value} {exponent : Nat} {spurious : Bool}
  {next : Next Value}

/-- What a look of `enqueueImpl` at a sequence number leads to. -/
theorem Ring.read_enqueue (ring : q.Ring exponent) {data : Value} {pos : Nat}
    (advances : q.advance spurious (.enqueueRead data pos) = .ok (queue, next)) :
    queue = q ∧
      (castIntptr (q.sequenceAt pos) = castIntptr pos ∧ next = .goesOn (.enqueueSwap data pos) ∨
        castIntptr (q.sequenceAt pos) < castIntptr pos ∧ next = .returns (.enqueued false) ∨
        castIntptr pos < castIntptr (q.sequenceAt pos) ∧ next = .goesOn (.enqueueLoad data)) := by
  obtain ⟨old, found, -⟩ := ring.slot_eq pos
  rw [advance, found, ok_bind] at advances
  dsimp only at advances
  split at advances
  · obtain ⟨rfl, rfl⟩ := Prod.mk.inj (Except.ok.inj advances)
    exact ⟨rfl, .inl ⟨by omega, rfl⟩⟩
  · split at advances
    · obtain ⟨rfl, rfl⟩ := Prod.mk.inj (Except.ok.inj advances)
      exact ⟨rfl, .inr (.inl ⟨by omega, rfl⟩)⟩
    · obtain ⟨rfl, rfl⟩ := Prod.mk.inj (Except.ok.inj advances)
      exact ⟨rfl, .inr (.inr ⟨by omega, rfl⟩)⟩

/-- What a look of `dequeue` at a sequence number leads to. -/
theorem Ring.read_dequeue (ring : q.Ring exponent) {pos : Nat} (unwrapped : pos + 1 < 2 ^ 64)
    (advances : q.advance spurious (.dequeueRead pos) = .ok (queue, next)) :
    queue = q ∧
      (castIntptr (q.sequenceAt pos) = castIntptr (pos + 1) ∧ next = .goesOn (.dequeueSwap pos) ∨
        castIntptr (q.sequenceAt pos) < castIntptr (pos + 1) ∧ next = .returns (.dequeued none) ∨
        castIntptr (pos + 1) < castIntptr (q.sequenceAt pos) ∧ next = .goesOn .dequeueLoad) := by
  obtain ⟨old, found, -⟩ := ring.slot_eq pos
  have one : addSize pos 1 = pos + 1 := addSize_of_lt (by unfold sizeModulus; omega)
  rw [advance, found, ok_bind, one] at advances
  dsimp only at advances
  split at advances
  · obtain ⟨rfl, rfl⟩ := Prod.mk.inj (Except.ok.inj advances)
    exact ⟨rfl, .inl ⟨by omega, rfl⟩⟩
  · split at advances
    · obtain ⟨rfl, rfl⟩ := Prod.mk.inj (Except.ok.inj advances)
      exact ⟨rfl, .inr (.inl ⟨by omega, rfl⟩)⟩
    · obtain ⟨rfl, rfl⟩ := Prod.mk.inj (Except.ok.inj advances)
      exact ⟨rfl, .inr (.inr ⟨by omega, rfl⟩)⟩

/-- Where a call returns, and what. -/
theorem Ring.returns_eq (ring : q.Ring exponent) {frame : Frame Value} {answer : Answer Value}
    (advances : q.advance spurious frame = .ok (queue, .returns answer)) :
    (∃ data pos, frame = .enqueueRead data pos ∧ answer = .enqueued false) ∨
      (∃ pos, frame = .enqueuePublish pos ∧ answer = .enqueued true) ∨
      (∃ pos, frame = .dequeueRead pos ∧ answer = .dequeued none) ∨
      ∃ pos data, frame = .dequeueRelease pos data ∧ answer = .dequeued (some data) := by
  cases frame with
  | enqueueRead data pos =>
    obtain ⟨-, ⟨-, isNext⟩ | ⟨-, isNext⟩ | ⟨-, isNext⟩⟩ := ring.read_enqueue advances <;>
      cases isNext
    exact .inl ⟨data, pos, rfl, rfl⟩
  | enqueueSwap data pos =>
    rw [advance] at advances
    split at advances <;> cases (Prod.mk.inj (Except.ok.inj advances)).2
  | enqueuePublish pos =>
    cases (Prod.mk.inj (Except.ok.inj advances)).2
    exact .inr (.inl ⟨pos, rfl, rfl⟩)
  | dequeueRead pos =>
    obtain ⟨old, found, -⟩ := ring.slot_eq pos
    rw [advance, found, ok_bind] at advances
    dsimp only at advances
    split at advances
    · cases (Prod.mk.inj (Except.ok.inj advances)).2
    · split at advances <;> cases (Prod.mk.inj (Except.ok.inj advances)).2
      exact .inr (.inr (.inl ⟨pos, rfl, rfl⟩))
  | dequeueSwap pos =>
    rw [advance] at advances
    split at advances <;> cases (Prod.mk.inj (Except.ok.inj advances)).2
  | dequeueTake pos =>
    obtain ⟨old, found, -⟩ := ring.slot_eq pos
    rw [advance, found, ok_bind] at advances
    cases (Prod.mk.inj (Except.ok.inj advances)).2
  | dequeueRelease pos data =>
    cases (Prod.mk.inj (Except.ok.inj advances)).2
    exact .inr (.inr (.inr ⟨pos, data, rfl, rfl⟩))
  | _ => cases (Prod.mk.inj (Except.ok.inj advances)).2

end

section

variable [DecidableEq Thread] {exponent : Nat} {s : Concurrent Thread Value} {thread : Thread}
  {frame : Frame Value}

omit [DecidableEq Thread] in
/-- A step lowers the rank of its call by one, a spurious failure aside. The counters stay, or
the call has won one ticket. -/
theorem Consistent.work (consistent : Consistent exponent s) (total : s.started < 2 ^ 63)
    (runs : s.running thread = some frame) {spurious : Bool} {queue : LockFreeCurcularQueue Value}
    {next : Next Value} (advances : s.queue.advance spurious frame = .ok (queue, next)) :
    rankOf queue next.frame + 1 ≤ frame.rank s.queue + (if spurious then 2 else 0) ∧
      (queue.enqueuePos = s.queue.enqueuePos ∧ queue.dequeuePos = s.queue.dequeuePos ∨
        queue.won = s.queue.won + 1) := by
  have modulus : sizeModulus = 2 ^ 64 := by unfold sizeModulus; rfl
  have ring := consistent.shared.ring
  have tickets := consistent.shared.tickets
  have ok := consistent.shared.owners.frames thread frame runs
  have counters := (consistent.few.counters thread frame).1
  have headLe := tickets.head_le
  cases frame with
  | enqueueRead data pos =>
    have less : pos ≤ s.queue.enqueuePos := ok
    obtain ⟨rfl, ⟨-, rfl⟩ | ⟨-, rfl⟩ | ⟨ahead, rfl⟩⟩ := ring.read_enqueue advances
    · refine ⟨?_, .inl ⟨rfl, rfl⟩⟩
      simp only [Next.frame, rankOf, Frame.rank]
      split <;> omega
    · refine ⟨?_, .inl ⟨rfl, rfl⟩⟩
      simp only [Next.frame, rankOf, Frame.rank]
      split <;> omega
    · -- The slot of the position that is next is not ahead of it.
      have stale : pos ≠ s.queue.enqueuePos := by
        intro current
        have behind : s.queue.sequenceAt pos ≤ pos := by
          by_contra later
          have := (tickets.published pos (by omega)).1
          omega
        rw [castIntptr_of_lt (by omega), castIntptr_of_lt (by omega)] at ahead
        omega
      refine ⟨?_, .inl ⟨rfl, rfl⟩⟩
      simp only [Next.frame, rankOf, Frame.rank, if_neg stale]
      omega
  | enqueueSwap data pos =>
    rw [LockFreeCurcularQueue.advance] at advances
    split at advances
    · rename_i wins
      obtain ⟨rfl, rfl⟩ := Prod.mk.inj (Except.ok.inj advances)
      have next : addSize pos 1 = pos + 1 := addSize_of_lt (by omega)
      refine ⟨?_, .inr ?_⟩
      · simp only [Next.frame, rankOf, Frame.rank, if_pos wins.2.symm]
        omega
      · simp only [won, next, wins.2]
        omega
    · rename_i loses
      obtain ⟨rfl, rfl⟩ := Prod.mk.inj (Except.ok.inj advances)
      refine ⟨?_, .inl ⟨rfl, rfl⟩⟩
      cases spurious
      · have stale : pos ≠ s.queue.enqueuePos := fun current => loses ⟨rfl, current.symm⟩
        simp [Next.frame, rankOf, Frame.rank, if_neg stale]
      · simp only [Next.frame, rankOf, Frame.rank, if_true]
        split <;> omega
  | dequeueRead pos =>
    have less : pos ≤ s.queue.dequeuePos := ok
    obtain ⟨rfl, ⟨-, rfl⟩ | ⟨-, rfl⟩ | ⟨ahead, rfl⟩⟩ := ring.read_dequeue (by omega) advances
    · refine ⟨?_, .inl ⟨rfl, rfl⟩⟩
      simp only [Next.frame, rankOf, Frame.rank]
      split <;> omega
    · refine ⟨?_, .inl ⟨rfl, rfl⟩⟩
      simp only [Next.frame, rankOf, Frame.rank]
      split <;> omega
    · have stale : pos ≠ s.queue.dequeuePos := by
        intro current
        have behind : s.queue.sequenceAt pos ≤ pos + 1 := by
          by_contra later
          have := (tickets.released pos (by omega)).1
          omega
        rw [castIntptr_of_lt (by omega), castIntptr_of_lt (by omega)] at ahead
        omega
      refine ⟨?_, .inl ⟨rfl, rfl⟩⟩
      simp only [Next.frame, rankOf, Frame.rank, if_neg stale]
      omega
  | dequeueSwap pos =>
    rw [LockFreeCurcularQueue.advance] at advances
    split at advances
    · rename_i wins
      obtain ⟨rfl, rfl⟩ := Prod.mk.inj (Except.ok.inj advances)
      have next : addSize pos 1 = pos + 1 := addSize_of_lt (by omega)
      refine ⟨?_, .inr ?_⟩
      · simp only [Next.frame, rankOf, Frame.rank, if_pos wins.2.symm]
        omega
      · simp only [won, next, wins.2]
        omega
    · rename_i loses
      obtain ⟨rfl, rfl⟩ := Prod.mk.inj (Except.ok.inj advances)
      refine ⟨?_, .inl ⟨rfl, rfl⟩⟩
      cases spurious
      · have stale : pos ≠ s.queue.dequeuePos := fun current => loses ⟨rfl, current.symm⟩
        simp [Next.frame, rankOf, Frame.rank, if_neg stale]
      · simp only [Next.frame, rankOf, Frame.rank, if_true]
        split <;> omega
  | dequeueTake pos =>
    obtain ⟨data, found, -⟩ := ring.slot_eq pos
    rw [LockFreeCurcularQueue.advance, found, ok_bind] at advances
    obtain ⟨rfl, rfl⟩ := Prod.mk.inj (Except.ok.inj advances)
    exact ⟨by simp [Next.frame, rankOf, Frame.rank], .inl ⟨rfl, rfl⟩⟩
  | _ =>
    -- A load of a counter, a write and a store of a sequence number always go on in one way.
    obtain ⟨rfl, rfl⟩ := Prod.mk.inj (Except.ok.inj advances)
    exact ⟨by simp [Next.frame, rankOf, Frame.rank], .inl ⟨rfl, rfl⟩⟩

/-- A call that begins changes its thread only. -/
theorem Concurrent.begin_eq {first : Frame Value} {after : Concurrent Thread Value}
    (begins : s.begin thread first = some after) :
    s.running thread = none ∧ after = { s with
      running := Function.update s.running thread (some first)
      started := s.started + 1 } := by
  unfold Concurrent.begin at begins
  split at begins
  · rename_i guard
    exact ⟨Option.isNone_iff_eq_none.mp guard.2, (Option.some.inj begins).symm⟩
  · cases begins

/-- What a call that goes on does in a consistent state. -/
theorem Consistent.proceed (consistent : Consistent exponent s) (total : s.started < 2 ^ 63)
    {spurious : Bool} {after : Concurrent Thread Value}
    (steps : s.step (.proceed thread spurious) = some after) :
    ∃ frame queue next, s.running thread = some frame ∧
      s.queue.advance spurious frame = .ok (queue, next) ∧ after = { s with
        queue := queue
        running := Function.update s.running thread next.frame
        history := s.history ++ record frame next } := by
  simp only [Concurrent.step] at steps
  rw [if_pos consistent.inside] at steps
  cases runs : s.running thread with
  | none =>
    rw [runs] at steps
    cases steps
  | some frame =>
    obtain ⟨queue, next, advances, -⟩ := consistent.advance total runs spurious
    simp only [runs, advances] at steps
    exact ⟨frame, queue, next, rfl, advances, (Option.some.inj steps).symm⟩

/-! ### A run -/

/-- What is paid for a schedule: the steps that are made and the ranks that are left, against the
calls that begin, the spurious failures, and the tickets, each of which sends the other threads
back. -/
theorem Consistent.pays [Fintype Thread] (consistent : Consistent exponent s)
    {act : Act Thread Value} {after : Concurrent Thread Value} (total : after.started < 2 ^ 63)
    (steps : s.step act = some after) :
    (∑ other, rankOf after.queue (after.running other)) + proceeds [act] + 5 * s.started +
        (Fintype.card Thread - 1) * 2 * s.queue.won ≤
      (∑ other, rankOf s.queue (s.running other)) + 5 * after.started +
        2 * spuriousFailures [act] + (Fintype.card Thread - 1) * 2 * after.queue.won ∧
      s.queue.won ≤ after.queue.won := by
  have begins {thread : Thread} {first : Frame Value} (five : first.rank s.queue = 5)
      (begun : s.begin thread first = some after) :
      (∑ other, rankOf after.queue (after.running other)) + 5 * s.started =
        (∑ other, rankOf s.queue (s.running other)) + 5 * after.started ∧
        after.queue = s.queue := by
    obtain ⟨idle, rfl⟩ := Concurrent.begin_eq begun
    have changed := Tally.sum_update (rankOf s.queue) s.running thread (some first)
    have free : rankOf s.queue (s.running thread) = 0 := by rw [idle]; rfl
    have rank : rankOf s.queue (some first) = 5 := five
    exact ⟨by dsimp only; omega, rfl⟩
  have before := (Concurrent.started_le steps).trans_lt total
  cases act with
  | enqueue thread data =>
    obtain ⟨paid, same⟩ := begins rfl steps
    rw [same] at paid ⊢
    exact ⟨by simp [proceeds, spuriousFailures]; omega, le_rfl⟩
  | dequeue thread =>
    obtain ⟨paid, same⟩ := begins rfl steps
    rw [same] at paid ⊢
    exact ⟨by simp [proceeds, spuriousFailures]; omega, le_rfl⟩
  | proceed thread spurious =>
    obtain ⟨frame, queue, next, runs, advances, rfl⟩ := consistent.proceed before steps
    obtain ⟨rank, counters⟩ := consistent.work before runs advances
    have own : rankOf s.queue (s.running thread) = frame.rank s.queue := by rw [runs]; rfl
    have failures : 2 * spuriousFailures [(Act.proceed thread spurious : Act Thread Value)] =
        if spurious then 2 else 0 := by cases spurious <;> rfl
    have one : proceeds [(Act.proceed thread spurious : Act Thread Value)] = 1 := rfl
    rcases counters with ⟨tail, head⟩ | ticket
    · have others : ∀ other ≠ thread,
          rankOf queue (s.running other) ≤ rankOf s.queue (s.running other) + 0 :=
        fun other _ => (rankOf_congr tail head _).le
      have changed := Tally.sum_update_le _ _ s.running thread next.frame others
      have same : queue.won = s.queue.won := by rw [won, won, tail, head]
      dsimp only
      rw [same]
      exact ⟨by omega, le_rfl⟩
    · have others : ∀ other ≠ thread,
          rankOf queue (s.running other) ≤ rankOf s.queue (s.running other) + 2 :=
        fun other _ => rankOf_le_add_two _ _ _
      have changed := Tally.sum_update_le _ _ s.running thread next.frame others
      dsimp only
      rw [ticket, Nat.mul_add, Nat.mul_one]
      exact ⟨by omega, by omega⟩

/-- No operation is forgotten in a run. -/
theorem Concurrent.started_le_run {acts : List (Act Thread Value)}
    {after : Concurrent Thread Value} (isRun : Run (StepOf Concurrent.step) s acts after) :
    s.started ≤ after.started := by
  induction isRun with
  | nil => exact le_rfl
  | snoc _ last inductionHypothesis =>
    exact inductionHypothesis.trans (Concurrent.started_le last)

/-- What is paid for a run that starts in a consistent state. -/
theorem Consistent.pays_run [Fintype Thread] (consistent : Consistent exponent s)
    {acts : List (Act Thread Value)} {after : Concurrent Thread Value}
    (isRun : Run (StepOf Concurrent.step) s acts after) (total : after.started < 2 ^ 63) :
    Consistent exponent after ∧
      (∑ other, rankOf after.queue (after.running other)) + proceeds acts + 5 * s.started +
          (Fintype.card Thread - 1) * 2 * s.queue.won ≤
        (∑ other, rankOf s.queue (s.running other)) + 5 * after.started +
          2 * spuriousFailures acts + (Fintype.card Thread - 1) * 2 * after.queue.won ∧
      s.queue.won ≤ after.queue.won := by
  induction isRun with
  | nil => exact ⟨consistent, by simp [proceeds, spuriousFailures], le_rfl⟩
  | snoc _ last inductionHypothesis =>
    have before := (Concurrent.started_le last).trans_lt total
    obtain ⟨middle, paid, won⟩ := inductionHypothesis before
    obtain ⟨pays, more⟩ := middle.pays total last
    refine ⟨middle.step total last, ?_, won.trans more⟩
    have steps (first second : List (Act Thread Value)) :
        proceeds (first ++ second) = proceeds first + proceeds second := List.countP_append
    have failures (first second : List (Act Thread Value)) :
        spuriousFailures (first ++ second) = spuriousFailures first + spuriousFailures second :=
      List.countP_append
    rw [steps, failures]
    omega

omit [DecidableEq Thread] in
/-- The ranks of the running calls. -/
theorem sum_rankOf_le [Fintype Thread] (s : Concurrent Thread Value) :
    ∑ other, rankOf s.queue (s.running other) ≤ 6 * s.busy := by
  rw [Concurrent.busy, Finset.mul_sum]
  refine Finset.sum_le_sum fun other _ => ?_
  cases s.running other with
  | none => exact Nat.zero_le _
  | some frame => exact frame.rank_le_six s.queue

end

/-- A ring as the constructor makes it is consistent. -/
theorem consistent_create [Inhabited Value] {build : Build} {slotSize capacity : Nat}
    (least : 2 ≤ capacity) (most : capacity ≤ 2 ^ 63) {q : LockFreeCurcularQueue Value}
    (created : create build slotSize capacity = .ok q) :
    Consistent (capacity - 1).size (Concurrent.start q : Concurrent Thread Value) := by
  obtain ⟨holds, head, small⟩ := create_holds build slotSize (by omega) most created
  exact consistent_start holds head (Nat.lt_size.mpr (by omega)) small

/-- The threads do not keep one another from finishing, in a ring whose capacity is between two and
`2 ^ 63`. In every run of fewer than `2 ^ 63` operations and from every state of it, the steps that
are made are bounded by the calls that were running and that have begun, the exchanges that failed
spuriously, and the tickets that were won: whoever steps on and on makes somebody win. -/
theorem proceeds_le [Inhabited Value] [Fintype Thread] [DecidableEq Thread] (build : Build)
    (slotSize capacity : Nat) (least : 2 ≤ capacity) (most : capacity ≤ 2 ^ 63)
    (q : LockFreeCurcularQueue Value) (created : create build slotSize capacity = .ok q)
    (earlier acts : List (Act Thread Value)) (s after : Concurrent Thread Value)
    (reached : Run (StepOf Concurrent.step) (Concurrent.start q) earlier s)
    (isRun : Run (StepOf Concurrent.step) s acts after) (total : after.started < 2 ^ 63) :
    s.queue.won ≤ after.queue.won ∧ s.started ≤ after.started ∧
      proceeds acts ≤ 6 * s.busy + 5 * (after.started - s.started) + 2 * spuriousFailures acts +
        (Fintype.card Thread - 1) * 2 * (after.queue.won - s.queue.won) := by
  have started := Concurrent.started_le_run isRun
  have before := started.trans_lt total
  have consistent := consistent_run (consistent_create least most created) reached before
  obtain ⟨-, paid, won⟩ := consistent.pays_run isRun total
  have ranks := sum_rankOf_le s
  refine ⟨won, started, ?_⟩
  rw [Nat.mul_sub, Nat.mul_sub]
  have := Nat.mul_le_mul_left ((Fintype.card Thread - 1) * 2) won
  omega

/-- In the run of two threads eighteen steps are made or begun. -/
theorem proceeds_le_two : ∃ s : Concurrent (Fin 2) Nat,
    exec Concurrent.step (Concurrent.start ⟨0, 0, [⟨0, 0⟩, ⟨1, 0⟩], 1⟩) twoThreads = some s ∧
      proceeds twoThreads = 15 ∧ s.started = 3 ∧ s.queue.won = 3 ∧
      proceeds twoThreads ≤ 6 * 0 + 5 * (s.started - 0) + 2 * spuriousFailures twoThreads +
        (Fintype.card (Fin 2) - 1) * 2 * (s.queue.won - 0) := by
  have done : ((exec Concurrent.step (Concurrent.start ⟨0, 0, [⟨0, 0⟩, ⟨1, 0⟩], 1⟩)
      twoThreads).map fun s => (s.queue.won, s.started)) = some (3, 3) := by decide +kernel
  obtain ⟨s, executed, same⟩ := Option.map_eq_some_iff.mp done
  have started : s.started = 3 := congrArg Prod.snd same
  refine ⟨s, executed, by decide, started, congrArg Prod.fst same, ?_⟩
  exact (proceeds_le .debug 16 2 (by decide) (by decide) ⟨0, 0, [⟨0, 0⟩, ⟨1, 0⟩], 1⟩
    (by decide +kernel) [] twoThreads _ s (Run.nil _) (run_of_exec executed)
      (by rw [started]; norm_num)).2.2

/-! ### Sequence numbers -/

/-- Every sequence number is the position of its slot in some lap, or one more. -/
def Aligned (exponent : Nat) (q : LockFreeCurcularQueue Value) : Prop :=
  ∀ pos, ∃ lap, q.sequenceAt pos = pos % 2 ^ exponent + lap * 2 ^ exponent ∨
    q.sequenceAt pos = pos % 2 ^ exponent + lap * 2 ^ exponent + 1

section

variable {q : LockFreeCurcularQueue Value} {exponent : Nat}

/-- A ring as the constructor makes it is aligned. -/
theorem Holds.aligned (holds : q.Holds exponent []) (head : q.dequeuePos = 0) :
    q.Aligned exponent := by
  intro pos
  have inside : pos % 2 ^ exponent < 2 ^ exponent := Nat.mod_lt _ (Nat.two_pow_pos _)
  obtain ⟨data, there⟩ := holds.free (pos % 2 ^ exponent) (Nat.zero_le _) inside
  rw [head, Nat.zero_add, Nat.mod_mod] at there
  refine ⟨0, .inl ?_⟩
  rw [sequenceAt, holds.mask, Nat.and_two_pow_sub_one_eq_mod, there, Nat.zero_mul, Nat.add_zero]

/-- Storing a sequence number of the slot keeps the ring aligned. -/
theorem Aligned.store (aligned : q.Aligned exponent) (ring : q.Ring exponent) {pos sequence : Nat}
    (fits : ∃ lap, sequence = pos % 2 ^ exponent + lap * 2 ^ exponent ∨
      sequence = pos % 2 ^ exponent + lap * 2 ^ exponent + 1) :
    (q.updateSlot pos ({ · with sequence := sequence })).Aligned exponent := by
  intro position
  rw [ring.sequenceAt_store]
  split
  · rename_i same
    rwa [same]
  · exact aligned position

/-- A slot that lies behind its position is at the ticket of some earlier lap: not yet written,
or written and not yet released. -/
theorem Aligned.behind (aligned : q.Aligned exponent) {pos : Nat}
    (behind : q.sequenceAt pos < pos) :
    (∃ ticket, ticket + 2 ^ exponent ≤ pos ∧ ticket % 2 ^ exponent = pos % 2 ^ exponent ∧
      (q.sequenceAt pos = ticket ∨ q.sequenceAt pos = ticket + 1)) := by
  obtain ⟨lap, same⟩ := aligned pos
  have split := Nat.mod_add_div' pos (2 ^ exponent)
  have less : lap < pos / 2 ^ exponent := by
    by_contra later
    have := Nat.mul_le_mul_right (2 ^ exponent) (not_lt.mp later)
    omega
  have next := Nat.mul_le_mul_right (2 ^ exponent) (Nat.succ_le_of_lt less)
  rw [Nat.succ_mul] at next
  refine ⟨pos % 2 ^ exponent + lap * 2 ^ exponent, by omega, ?_, same⟩
  rw [Nat.add_mul_mod_self_right, Nat.mod_mod]

end

section

variable [DecidableEq Thread] {exponent : Nat} {s : Concurrent Thread Value} {thread : Thread}
  {frame : Frame Value}

omit [DecidableEq Thread] in
/-- A step keeps the ring aligned. -/
theorem Consistent.aligned (consistent : Consistent exponent s) (total : s.started < 2 ^ 63)
    (aligned : s.queue.Aligned exponent) (runs : s.running thread = some frame) {spurious : Bool}
    {queue : LockFreeCurcularQueue Value} {next : Next Value}
    (advances : s.queue.advance spurious frame = .ok (queue, next)) :
    queue.Aligned exponent := by
  have modulus : sizeModulus = 2 ^ 64 := by unfold sizeModulus; rfl
  have ring := consistent.shared.ring
  have small := ring.small
  have headLe := consistent.shared.tickets.head_le
  have ok := consistent.shared.owners.frames thread frame runs
  have counters := (consistent.few.counters thread frame).1
  cases frame with
  | enqueueRead data pos =>
    obtain ⟨rfl, -⟩ := ring.read_enqueue advances
    exact aligned
  | enqueueSwap data pos =>
    rw [LockFreeCurcularQueue.advance] at advances
    split at advances
    · obtain ⟨rfl, -⟩ := Prod.mk.inj (Except.ok.inj advances)
      exact aligned
    · obtain ⟨rfl, -⟩ := Prod.mk.inj (Except.ok.inj advances)
      exact aligned
  | enqueueWrite data pos =>
    obtain ⟨rfl, -⟩ := Prod.mk.inj (Except.ok.inj advances)
    intro position
    rw [ring.sequenceAt_write]
    exact aligned position
  | enqueuePublish pos =>
    obtain ⟨rfl, -⟩ := Prod.mk.inj (Except.ok.inj advances)
    have less : pos < s.queue.enqueuePos := ok.1
    rw [addSize_of_lt (by omega)]
    refine aligned.store ring ⟨pos / 2 ^ exponent, .inr ?_⟩
    rw [Nat.mod_add_div']
  | dequeueRead pos =>
    have less : pos ≤ s.queue.dequeuePos := ok
    obtain ⟨rfl, -⟩ := ring.read_dequeue (by omega) advances
    exact aligned
  | dequeueSwap pos =>
    rw [LockFreeCurcularQueue.advance] at advances
    split at advances
    · obtain ⟨rfl, -⟩ := Prod.mk.inj (Except.ok.inj advances)
      exact aligned
    · obtain ⟨rfl, -⟩ := Prod.mk.inj (Except.ok.inj advances)
      exact aligned
  | dequeueTake pos =>
    obtain ⟨data, found, -⟩ := ring.slot_eq pos
    rw [LockFreeCurcularQueue.advance, found, ok_bind] at advances
    obtain ⟨rfl, -⟩ := Prod.mk.inj (Except.ok.inj advances)
    exact aligned
  | dequeueRelease pos data =>
    obtain ⟨rfl, -⟩ := Prod.mk.inj (Except.ok.inj advances)
    have less : pos < s.queue.dequeuePos := ok.1
    rw [ring.size, addSize_of_lt (by omega)]
    refine aligned.store ring ⟨pos / 2 ^ exponent + 1, .inl ?_⟩
    rw [Nat.succ_mul, ← Nat.add_assoc, Nat.mod_add_div']
  | _ =>
    obtain ⟨rfl, -⟩ := Prod.mk.inj (Except.ok.inj advances)
    exact aligned

/-- In every run of fewer than `2 ^ 63` operations the ring stays aligned. -/
theorem aligned_run {q : LockFreeCurcularQueue Value}
    (initially : Consistent exponent (Concurrent.start q : Concurrent Thread Value))
    (aligned : q.Aligned exponent) {acts : List (Act Thread Value)}
    (isRun : Run (StepOf Concurrent.step) (Concurrent.start q) acts s)
    (total : s.started < 2 ^ 63) : s.queue.Aligned exponent := by
  induction isRun with
  | nil => exact aligned
  | snoc earlier last inductionHypothesis =>
    have before := (Concurrent.started_le last).trans_lt total
    have middle := consistent_run initially earlier before
    have still := inductionHypothesis before
    rename_i _ _ _ action
    cases action with
    | enqueue thread data =>
      obtain ⟨-, rfl⟩ := Concurrent.begin_eq last
      exact still
    | dequeue thread =>
      obtain ⟨-, rfl⟩ := Concurrent.begin_eq last
      exact still
    | proceed thread spurious =>
      obtain ⟨frame, queue, next, runs, advances, rfl⟩ := middle.proceed before last
      exact middle.aligned before still runs advances

/-! ### Refusals -/

omit [DecidableEq Thread] in
/-- A slot is never so far ahead that its cast is negative: half of the operations at most have
taken something. -/
theorem Consistent.sequence_lt (consistent : Consistent exponent s) (total : s.started < 2 ^ 63)
    (aligned : s.queue.Aligned exponent) (pos : Nat) : s.queue.sequenceAt pos < 2 ^ 63 := by
  obtain ⟨waiting, -, enough⟩ := consistent.few
  have ring := consistent.shared.ring
  have tickets := consistent.shared.tickets
  have several := ring.several
  have small := ring.small
  have headLe := tickets.head_le
  have inside : pos % 2 ^ exponent < 2 ^ exponent := Nat.mod_lt _ (Nat.two_pow_pos _)
  have slot (lap : Nat) : s.queue.sequenceAt (pos % 2 ^ exponent + lap * 2 ^ exponent) =
      s.queue.sequenceAt pos :=
    ring.sequenceAt_congr (by rw [Nat.add_mul_mod_self_right, Nat.mod_mod])
  obtain ⟨lap, free | full⟩ := aligned pos
  · cases lap with
    | zero => omega
    | succ lap =>
      rw [Nat.succ_mul] at free
      have taken := (tickets.released (pos % 2 ^ exponent + lap * 2 ^ exponent)
        (by rw [slot]; omega)).1
      omega
  · have written := (tickets.published (pos % 2 ^ exponent + lap * 2 ^ exponent)
      (by rw [slot]; omega)).1
    omega

omit [DecidableEq Thread] in
/-- `enqueue` is refused at the position that is next, whose slot is behind. -/
theorem Consistent.refused (consistent : Consistent exponent s) (total : s.started < 2 ^ 63)
    (aligned : s.queue.Aligned exponent) (runs : s.running thread = some frame) {spurious : Bool}
    {queue : LockFreeCurcularQueue Value}
    (refused : s.queue.advance spurious frame = .ok (queue, .returns (.enqueued false))) :
    s.queue.full = true ∨ ∃ other taker, s.running other = some taker ∧
      taker.reads = some (s.queue.enqueuePos - 2 ^ exponent) := by
  obtain ⟨waiting, -, enough⟩ := consistent.few
  have ring := consistent.shared.ring
  have tickets := consistent.shared.tickets
  have several := ring.several
  have headLe := tickets.head_le
  have small := consistent.sequence_lt total aligned
  obtain ⟨data, pos, rfl, -⟩ | ⟨_, -, isOther⟩ | ⟨_, -, isOther⟩ | ⟨_, _, -, isOther⟩ :=
    ring.returns_eq refused
  case inr.inl => cases isOther
  case inr.inr.inl => cases isOther
  case inr.inr.inr => cases isOther
  have less : pos ≤ s.queue.enqueuePos := consistent.shared.owners.frames _ _ runs
  obtain ⟨-, ⟨-, isNext⟩ | ⟨cast, -⟩ | ⟨-, isNext⟩⟩ := ring.read_enqueue refused
  · cases isNext
  · rw [castIntptr_of_lt (small pos), castIntptr_of_lt (by omega)] at cast
    have behind : s.queue.sequenceAt pos < pos := by omega
    have current : pos = s.queue.enqueuePos := by
      have := tickets.unwon pos behind
      omega
    obtain ⟨ticket, lap, sameSlot, sequence⟩ := aligned.behind behind
    have slot := ring.sequenceAt_congr sameSlot
    -- The ticket is that of the lap before: those of earlier laps are over.
    have before : ticket = pos - 2 ^ exponent := by
      have reached : pos - 2 ^ exponent ≤ s.queue.sequenceAt pos := by
        by_contra earlier
        have := tickets.unwon (pos - 2 ^ exponent)
          (by rw [ring.sequenceAt_congr (Nat.mod_eq_sub_mod (by omega)).symm]; omega)
        omega
      have same : ticket % 2 ^ exponent = (pos - 2 ^ exponent) % 2 ^ exponent := by
        rw [sameSlot, Nat.mod_eq_sub_mod (by omega)]
      have := lap_apart same
      omega
    by_cases taken : ticket < s.queue.dequeuePos
    · right
      rw [← current, ← before]
      refine tickets.reader ticket ?_ taken
      rcases sequence with unwritten | written
      · have := tickets.untaken ticket (by omega)
        omega
      · rw [slot, written]
    · left
      rw [LockFreeCurcularQueue.full, decide_eq_true_eq, ring.size, subSize_of_le headLe]
      omega
  · cases isNext

omit [DecidableEq Thread] in
/-- `dequeue` finds nothing at the position that is next, whose slot nobody has published. -/
theorem Consistent.found_nothing (consistent : Consistent exponent s)
    (total : s.started < 2 ^ 63) (aligned : s.queue.Aligned exponent)
    (runs : s.running thread = some frame) {spurious : Bool} {queue : LockFreeCurcularQueue Value}
    (refused : s.queue.advance spurious frame = .ok (queue, .returns (.dequeued none))) :
    s.queue.empty = true ∨ ∃ other writer, s.running other = some writer ∧
      writer.writes = some s.queue.dequeuePos := by
  obtain ⟨waiting, -, enough⟩ := consistent.few
  have ring := consistent.shared.ring
  have tickets := consistent.shared.tickets
  have headLe := tickets.head_le
  have small := consistent.sequence_lt total aligned
  obtain ⟨_, _, -, isOther⟩ | ⟨_, -, isOther⟩ | ⟨pos, rfl, -⟩ | ⟨_, _, -, isOther⟩ :=
    ring.returns_eq refused
  case inl => cases isOther
  case inr.inl => cases isOther
  case inr.inr.inr => cases isOther
  have less : pos ≤ s.queue.dequeuePos := consistent.shared.owners.frames _ _ runs
  obtain ⟨-, ⟨-, isNext⟩ | ⟨cast, -⟩ | ⟨-, isNext⟩⟩ := ring.read_dequeue (by omega) refused
  · cases isNext
  · rw [castIntptr_of_lt (small pos), castIntptr_of_lt (by omega)] at cast
    have current : pos = s.queue.dequeuePos := by
      have := tickets.untaken pos (by omega)
      omega
    by_cases isWon : pos < s.queue.enqueuePos
    · have unwritten : s.queue.sequenceAt pos = pos := by
        by_contra different
        have := tickets.unwon pos (by omega)
        omega
      rw [← current]
      exact .inr (tickets.writer pos unwritten isWon)
    · left
      rw [LockFreeCurcularQueue.empty, decide_eq_true_eq]
      omega
  · cases isNext

end

/-- No call is refused without a reason, in a ring whose capacity is between two and `2 ^ 63`. In
every run of fewer than `2 ^ 63` operations, when `enqueue` is about to return false the ring is
full, or some `dequeue` has won the ticket of the slot in question and not released it; when
`dequeue` is about to return false the ring is empty, or some `enqueue` has won the next ticket and
not published it. -/
theorem refused_for_a_reason [Inhabited Value] [DecidableEq Thread] (build : Build)
    (slotSize capacity size : Nat) (least : 2 ≤ capacity) (most : capacity ≤ 2 ^ 63)
    (q : LockFreeCurcularQueue Value) (rounded : roundUpToPowerOf2 build capacity = .ok size)
    (created : create build slotSize capacity = .ok q) (acts : List (Act Thread Value))
    (s : Concurrent Thread Value)
    (isRun : Run (StepOf Concurrent.step) (Concurrent.start q) acts s) (total : s.started < 2 ^ 63)
    (thread : Thread) (frame : Frame Value) (runs : s.running thread = some frame)
    (spurious : Bool) (queue : LockFreeCurcularQueue Value) :
    (s.queue.advance spurious frame = .ok (queue, .returns (.enqueued false)) →
      s.queue.full = true ∨ ∃ other taker, s.running other = some taker ∧
        taker.reads = some (s.queue.enqueuePos - size)) ∧
    (s.queue.advance spurious frame = .ok (queue, .returns (.dequeued none)) →
      s.queue.empty = true ∨ ∃ other writer, s.running other = some writer ∧
        writer.writes = some s.queue.dequeuePos) := by
  obtain ⟨holds, head, -⟩ := create_holds build slotSize (by omega) most created
  have initially : Consistent (capacity - 1).size (Concurrent.start q : Concurrent Thread Value) :=
    consistent_create least most created
  have consistent := consistent_run initially isRun total
  have aligned := aligned_run initially (holds.aligned head) isRun total
  rw [roundUpToPowerOf2_eq build (by omega) (by omega), if_pos most] at rounded
  obtain rfl := Except.ok.inj rounded
  exact ⟨consistent.refused total aligned runs, consistent.found_nothing total aligned runs⟩

/-- There is a first thread of two. -/
local instance twoThreadsNonzero : NeZero 2 := ⟨two_ne_zero⟩

/-- One thread has won the first ticket and not published it when another one looks for it. -/
def stalledWriter : List (Act (Fin 2) Nat) :=
  [.enqueue 0 7, .proceed 0 false, .proceed 0 false, .proceed 0 false, .dequeue 1,
    .proceed 1 false]

theorem refused_for_a_reason_stalled : ∃ s : Concurrent (Fin 2) Nat,
    exec Concurrent.step (Concurrent.start ⟨0, 0, [⟨0, 0⟩, ⟨1, 0⟩], 1⟩) stalledWriter = some s ∧
      s.running 1 = some (.dequeueRead 0) ∧
      s.queue.advance false (.dequeueRead 0) = .ok (s.queue, .returns (.dequeued none)) ∧
      (s.queue.empty = true ∨ ∃ other writer, s.running other = some writer ∧
        writer.writes = some s.queue.dequeuePos) := by
  have done : ((exec Concurrent.step (Concurrent.start ⟨0, 0, [⟨0, 0⟩, ⟨1, 0⟩], 1⟩)
      stalledWriter).map fun s => (s.started, s.running 1, s.queue)) =
        some (2, some (.dequeueRead 0), ⟨1, 0, [⟨0, 0⟩, ⟨1, 0⟩], 1⟩) := by decide +kernel
  obtain ⟨s, executed, same⟩ := Option.map_eq_some_iff.mp done
  have started : s.started = 2 := congrArg Prod.fst same
  have runs : s.running 1 = some (.dequeueRead 0) := congrArg (fun state => state.2.1) same
  have queue : s.queue = ⟨1, 0, [⟨0, 0⟩, ⟨1, 0⟩], 1⟩ := congrArg (fun state => state.2.2) same
  have refused : s.queue.advance false (.dequeueRead 0) =
      .ok (s.queue, .returns (.dequeued none)) := by
    rw [queue]
    decide +kernel
  refine ⟨s, executed, runs, refused, ?_⟩
  exact (refused_for_a_reason .debug 16 2 2 (by decide) (by decide) ⟨0, 0, [⟨0, 0⟩, ⟨1, 0⟩], 1⟩
    (by decide +kernel) (by decide +kernel) stalledWriter s (run_of_exec executed)
      (by rw [started]; norm_num) 1 _ runs false s.queue).2 refused

end LockFreeCurcularQueue

end YYNet
