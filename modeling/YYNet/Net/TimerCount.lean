/-
This file proves when `getDueTasks` splits a `TimerQueue` at the clock reading
and how often `handlerRead` executes one timer.

The split is an `upper_bound` with the reading and a null pointer. In the order
of pairs this lies before every entry with the same time stamp, so an entry
whose stamp is the reading itself stays behind, and the assertion that the
first entry left is later fails. The split is exact if and only if no stamp is
the reading.

One counter says both how often a timer is still to run and, as -1, that it
runs forever, and `handlerRead` skips every timer whose counter is not
positive. A timer with a finite count is executed once by each `handlerRead`
that finds it due until the count is used up, and is then gone. A timer that
is to run forever is dropped by the first `handlerRead` that finds it due, and
is never executed.
-/

import YYNet.Net.TimerArm

namespace YYNet

open Checked Transition OrderedSet

namespace TimerQueue

/-! ### The split -/

/-- `getDueTasks`: the expired entries, and the entries that are left in `timers_`. -/
def getDueTasks (build : Build) (now : Int) (timers : List Entry) :
    Except Fault (List Entry × List Entry) := do
  assert build (SplitsAt now (beyond (sentry now) timers))
  return (upTo (sentry now) timers, beyond (sentry now) timers)

/-- `handlerRead` runs the entries that `getDueTasks` returns. -/
theorem step_handlerRead (build : Build) (s : TimerQueue) (now armAt : Int) (readings : List Int) :
    s.step build (.handlerRead now readings armAt) =
      if s.clock ≤ now then
        (getDueTasks build now s.timers).toOption.bind fun (expired, left) =>
          (runExpired now expired readings { s with timers := left, clock := now }).bind
            fun (t, newTasks) => { t with timers := putAll newTasks t.timers }.arm armAt
      else none := by
  simp only [step, getDueTasks]
  split
  · rcases assert_cases build (SplitsAt now (beyond (sentry now) s.timers)) with passed | failed
    · rw [passed]
      rfl
    · rw [failed]
      rfl
  · rfl

/-- In both builds `getDueTasks` returns the entries whose stamp is not later than the reading
and keeps the others, each in order. -/
def SplitsExactly (now : Int) (timers : List Entry) : Prop :=
  ∀ build, getDueTasks build now timers =
    .ok (timers.filter fun entry => entry.stamp ≤ now, timers.filter fun entry => now < entry.stamp)

/-- The sentry lies before every entry of a timer with the same stamp. -/
theorem le_sentry_iff (now : Int) (entry : Entry) (live : entry.timer ≠ 0) :
    entry ≤ sentry now ↔ entry.stamp < now := by
  constructor
  · intro below
    rcases Prod.Lex.le_iff.mp below with before | ⟨-, null⟩
    · exact before
    · exact absurd (Nat.le_zero.mp null) live
  · exact fun before => Prod.Lex.le_iff.mpr (.inl before)

theorem sentry_lt_iff (now : Int) (entry : Entry) (live : entry.timer ≠ 0) :
    sentry now < entry ↔ now ≤ entry.stamp := by
  rw [← not_le, le_sentry_iff now entry live, not_lt]

/-- `getDueTasks` splits exactly at the reading if and only if no entry's stamp is the
reading. -/
theorem getDueTasks_exact_iff (now : Int) (timers : List Entry) (ordered : Ordered timers)
    (live : ∀ entry ∈ timers, entry.timer ≠ 0) :
    SplitsExactly now timers ↔ ∀ entry ∈ timers, entry.stamp ≠ now := by
  constructor
  · intro exactly entry member same
    obtain ⟨-, -, returned⟩ := bind_eq_ok (exactly .release)
    have left := (Prod.mk.inj (Except.ok.inj returned)).2
    have kept : entry ∈ beyond (sentry now) timers := by
      rw [beyond_eq_filter _ _ ordered, List.mem_filter]
      exact ⟨member, by simpa using (sentry_lt_iff now entry (live entry member)).mpr same.ge⟩
    rw [left, List.mem_filter, decide_eq_true_eq] at kept
    exact absurd same (ne_of_gt kept.2)
  · intro apart build
    have low : upTo (sentry now) timers = timers.filter fun entry => entry.stamp ≤ now := by
      rw [upTo_eq_filter _ _ ordered]
      refine List.filter_congr fun entry member => ?_
      rw [decide_eq_decide, le_sentry_iff now entry (live entry member)]
      exact ⟨le_of_lt, fun notLater => lt_of_le_of_ne notLater (apart entry member)⟩
    have high : beyond (sentry now) timers = timers.filter fun entry => now < entry.stamp := by
      rw [beyond_eq_filter _ _ ordered]
      refine List.filter_congr fun entry member => ?_
      rw [decide_eq_decide, sentry_lt_iff now entry (live entry member)]
      exact ⟨fun notBefore => lt_of_le_of_ne notBefore (apart entry member).symm, le_of_lt⟩
    have splits : SplitsAt now (beyond (sentry now) timers) := by
      intro entry first
      rw [high] at first
      have member := List.mem_of_mem_head? first
      simpa using (List.mem_filter.mp member).2
    unfold getDueTasks
    rw [assert_of_holds build splits, low, high]
    rfl

theorem getDueTasks_exact_iff_between : SplitsExactly 10 [toLex (5, 1), toLex (15, 2)] :=
  (getDueTasks_exact_iff 10 [toLex (5, 1), toLex (15, 2)] (by unfold Ordered; decide)
    (by decide)).mpr (by decide)

/-- An entry stamped 10 at the reading 10: a debug build stops in the assertion, and a release
build leaves the entry where it is. -/
theorem not_getDueTasks_exact :
    ¬ SplitsExactly 10 [toLex (10, 1)] ∧
      getDueTasks .debug 10 [toLex (10, 1)] = .error .assertFailed ∧
      getDueTasks .release 10 [toLex (10, 1)] = .ok ([], [toLex (10, 1)]) := by
  have stopped : getDueTasks .debug 10 [toLex (10, 1)] = .error .assertFailed := by decide
  refine ⟨fun exactly => ?_, stopped, by decide⟩
  have returned := exactly .debug
  rw [stopped] at returned
  cases returned

/-! ### The executions of one timer -/

/-- How often a timer has been executed. -/
def executions (timer : Nat) (s : TimerQueue) : Nat :=
  s.executed.countP fun execution => execution.timer = timer

/-- The timer has an entry in `timers_`. -/
def Pending (timer : Nat) (s : TimerQueue) : Prop := ∃ entry ∈ s.timers, entry.timer = timer

/-- A call of `handlerRead` that would find an entry due. -/
def Reaches (entry : Entry) : TimerAction → Prop
  | .handlerRead now _ _ => entry ≤ sentry now
  | _ => False

instance (entry : Entry) : DecidablePred (Reaches entry)
  | .handlerRead now _ _ => inferInstanceAs (Decidable (entry ≤ sentry now))
  | .makeTimer .. | .insertInLoop .. | .cancelTimerInLoop .. => inferInstanceAs (Decidable False)

/-- How many calls of `handlerRead` would find an entry due. -/
def dueReads (entry : Entry) (actions : List TimerAction) : Nat :=
  actions.countP fun action => Reaches entry action

/-- An operation on a given timer. -/
def Touches (timer : Nat) : TimerAction → Prop
  | .makeTimer other _ _ _ | .insertInLoop other _ | .cancelTimerInLoop other _ => other = timer
  | .handlerRead .. => False

/-- After `reads` calls of `handlerRead` that would find it due, a timer with a finite count has
been executed once by each of them until the count was used up, and is pending until then; a
timer that is to run forever has been executed by all of them and is pending. -/
def KeepsCount (timer : Nat) (count : Int) (reads : Nat) (start s : TimerQueue) : Prop :=
  if count = Timer.forever then
    executions timer s = executions timer start + reads ∧ Pending timer s
  else
    executions timer s = executions timer start + min count.toNat reads ∧
      (Pending timer s ↔ reads < count.toNat)

/-- The set is in order, and a timer whose interval is not negative has at most the one
entry. -/
structure Alone (entry : Entry) (s : TimerQueue) : Prop where
  ordered : Ordered s.timers
  only : ∀ other ∈ s.timers, other.timer = entry.timer → other = entry
  interval : 0 ≤ (s.timer entry.timer).interval

theorem Alone.pending_iff (entry : Entry) (s : TimerQueue) (alone : Alone entry s) :
    Pending entry.timer s ↔ entry ∈ s.timers := by
  constructor
  · rintro ⟨other, member, same⟩
    rw [← alone.only other member same]
    exact member
  · exact fun member => ⟨entry, member, rfl⟩

/-! ### One operation -/

/-- Arming erases entries of timers with negative intervals only. -/
theorem modifyTimerfd_keeps (armAt : Int) (fuel : Nat) (s t : TimerQueue) (entry : Entry)
    (interval : 0 ≤ (s.timer entry.timer).interval) (member : entry ∈ s.timers)
    (returned : modifyTimerfd armAt fuel s = some t) : entry ∈ t.timers := by
  induction fuel generalizing s with
  | zero => cases returned
  | succ fuel inductionHypothesis =>
    rw [modifyTimerfd] at returned
    split at returned
    · obtain rfl := Option.some.inj returned
      exact member
    · rename_i first rest shape
      simp only at returned
      split at returned
      · obtain rfl := Option.some.inj returned
        exact member
      · rename_i negative
        have different : entry ≠ s.entryOf first.timer := by
          rintro rfl
          exact negative interval
        exact inductionHypothesis { s with timers := s.timers.erase (s.entryOf first.timer) }
          interval ((List.mem_erase_of_ne different).mpr member) returned

theorem arm_mem_iff (armAt : Int) (s t : TimerQueue) (entry : Entry) (ordered : Ordered s.timers)
    (interval : 0 ≤ (s.timer entry.timer).interval) (returned : s.arm armAt = some t) :
    entry ∈ t.timers ↔ entry ∈ s.timers := by
  constructor
  · exact fun member => (arm_armed armAt s t ordered returned).sublist.subset member
  · intro member
    unfold arm at returned
    split at returned
    · exact modifyTimerfd_keeps armAt _ { s with clock := armAt } t entry interval member returned
    · cases returned

/-- Arming keeps a timer with an interval that is not negative. -/
theorem Alone.arm (entry : Entry) (s t : TimerQueue) (armAt : Int) (alone : Alone entry s)
    (returned : s.arm armAt = some t) :
    Alone entry t ∧ t.timer = s.timer ∧ t.executed = s.executed ∧
      (entry ∈ t.timers ↔ entry ∈ s.timers) := by
  have armed := arm_armed armAt s t alone.ordered returned
  refine ⟨⟨ordered_of_sublist armed.sublist alone.ordered, fun other member =>
    alone.only other (armed.sublist.subset member), ?_⟩, armed.timer, armed.executed,
    arm_mem_iff armAt s t entry alone.ordered alone.interval returned⟩
  rw [armed.timer]
  exact alone.interval

/-- One when a condition holds. -/
def once (condition : Prop) [Decidable condition] : Nat := if condition then 1 else 0

theorem once_congr (first second : Prop) [Decidable first] [Decidable second]
    (same : first ↔ second) : once first = once second := if_congr same rfl rfl

/-- The loop of `handlerRead` leaves the set alone and collects expired entries only. -/
theorem runExpired_timers (now : Int) (entries : List Entry) (readings : List Int)
    (s t : TimerQueue) (newTasks : List Entry)
    (returned : runExpired now entries readings s = some (t, newTasks)) :
    t.timers = s.timers ∧ newTasks ⊆ entries := by
  induction entries generalizing readings s newTasks with
  | nil =>
    obtain ⟨rfl, rfl⟩ := Prod.mk.inj (Option.some.inj returned)
    exact ⟨rfl, List.Subset.refl _⟩
  | cons first rest inductionHypothesis =>
    rcases runExpired_cons now first rest readings s t newTasks returned with
      ⟨-, inner⟩ | ⟨-, reading, later, tasks, -, -, inner, rfl⟩
    · obtain ⟨timers, again⟩ := inductionHypothesis readings s newTasks inner
      exact ⟨timers, fun other member => List.mem_cons_of_mem _ (again member)⟩
    · obtain ⟨timers, again⟩ := inductionHypothesis later _ tasks inner
      refine ⟨timers, ?_⟩
      split
      · exact List.cons_subset_cons _ again
      · exact fun other member => List.mem_cons_of_mem _ (again member)

theorem step_ordered (build : Build) (s t : TimerQueue) (action : TimerAction)
    (ordered : Ordered s.timers) (taken : s.step build action = some t) : Ordered t.timers := by
  cases moved_of_step build s t action taken with
  | makeTimer => exact ordered
  | insertInLoop timer armAt t checked armed =>
    have grown := ordered_put (s.entryOf timer) s.timers ordered
    exact ordered_of_sublist (arm_armed armAt _ t grown armed).sublist grown
  | cancelTimerInLoop => exact ordered_of_sublist List.erase_sublist ordered
  | handlerRead now readings armAt u t newTasks later checked ran armed =>
    have left : Ordered u.timers := by
      rw [(runExpired_timers now _ readings _ u newTasks ran).1]
      exact ordered_of_sublist (beyond_sublist _ _) ordered
    have grown := ordered_putAll newTasks u.timers left
    exact ordered_of_sublist (arm_armed armAt _ t grown armed).sublist grown

/-- What the loop of `handlerRead` does for one entry, the only one of its timer. -/
structure Served (entry : Entry) (entries : List Entry) (s t : TimerQueue)
    (newTasks : List Entry) : Prop where
  count : (t.timer entry.timer).executeCount = (s.timer entry.timer).executeCount -
    once (entry ∈ entries ∧ 0 < (s.timer entry.timer).executeCount)
  executed : executions entry.timer t = executions entry.timer s +
    once (entry ∈ entries ∧ 0 < (s.timer entry.timer).executeCount)
  returns : entry ∈ newTasks ↔ entry ∈ entries ∧ 1 < (s.timer entry.timer).executeCount

theorem executions_execute (s : TimerQueue) (now reading : Int) (timer other : Nat) :
    executions other (s.execute now timer reading) =
      executions other s + once (timer = other) := by
  simp only [executions, execute, List.countP_append, List.countP_singleton, once,
    decide_eq_true_eq]

theorem runExpired_served (entry : Entry) (now : Int) (entries : List Entry) (readings : List Int)
    (s t : TimerQueue) (newTasks : List Entry) (distinct : entries.Nodup)
    (only : ∀ other ∈ entries, other.timer = entry.timer → other = entry)
    (returned : runExpired now entries readings s = some (t, newTasks)) :
    Served entry entries s t newTasks := by
  induction entries generalizing readings s newTasks with
  | nil =>
    obtain ⟨rfl, rfl⟩ := Prod.mk.inj (Option.some.inj returned)
    exact ⟨by simp [once], by simp [once], by simp⟩
  | cons first rest inductionHypothesis =>
    obtain ⟨absent, distinctRest⟩ := List.nodup_cons.mp distinct
    have later := fun readings s newTasks => inductionHypothesis readings s newTasks distinctRest
      fun other member => only other (List.mem_cons_of_mem _ member)
    rcases runExpired_cons now first rest readings s t newTasks returned with
      ⟨spent, inner⟩ | ⟨left, reading, readings, tasks, rfl, -, inner, rfl⟩
    · obtain ⟨count, executed, returns⟩ := later readings s newTasks inner
      have same (bound : Int) (bounded : 0 ≤ bound) :
          (entry ∈ first :: rest ∧ bound < (s.timer entry.timer).executeCount) ↔
            entry ∈ rest ∧ bound < (s.timer entry.timer).executeCount := by
        refine and_congr_left fun left => ⟨fun member => ?_, List.mem_cons_of_mem _⟩
        rcases List.mem_cons.mp member with rfl | inside
        · omega
        · exact inside
      refine ⟨?_, ?_, ?_⟩
      · rw [once_congr _ _ (same 0 le_rfl)]
        exact count
      · rw [once_congr _ _ (same 0 le_rfl)]
        exact executed
      · rw [same 1 zero_le_one]
        exact returns
    · obtain ⟨count, executed, returns⟩ := later readings _ tasks inner
      rw [executions_execute] at executed
      by_cases here : first = entry
      · subst here
        have ran : (s.timer first.timer).executeCount ≠ Timer.forever := by
          unfold Timer.forever
          omega
        simp only [absent, false_and, once, if_false, Nat.cast_zero, sub_zero, add_zero,
          if_true, execute_self, Timer.execute, if_pos ran] at count executed returns
        have due : first ∈ first :: rest ∧ 0 < (s.timer first.timer).executeCount :=
          ⟨List.mem_cons_self, not_le.mp left⟩
        refine ⟨?_, ?_, ?_⟩
        · rw [once, if_pos due]
          exact count
        · rw [once, if_pos due]
          exact executed
        · split <;> simp_all
      · have other : first.timer ≠ entry.timer := fun same =>
          here (only first List.mem_cons_self same)
        rw [execute_other s now _ _ reading other.symm] at count executed returns
        have member : entry ∈ first :: rest ↔ entry ∈ rest :=
          List.mem_cons.trans (or_iff_right (Ne.symm here))
        refine ⟨?_, ?_, ?_⟩
        · rw [once_congr _ _ (and_congr_left' member)]
          exact count
        · rw [once_congr _ _ (and_congr_left' member)]
          simpa [once, other] using executed
        · rw [member, ← returns]
          split
          · exact List.mem_cons.trans (or_iff_right (Ne.symm here))
          · rfl

/-- What one operation does to a timer it is not about. -/
structure Counts (entry : Entry) (action : TimerAction) (s t : TimerQueue) : Prop where
  alone : Alone entry t
  count : (t.timer entry.timer).executeCount = (s.timer entry.timer).executeCount -
    once ((Reaches entry action ∧ entry ∈ s.timers) ∧ 0 < (s.timer entry.timer).executeCount)
  executed : executions entry.timer t = executions entry.timer s +
    once ((Reaches entry action ∧ entry ∈ s.timers) ∧ 0 < (s.timer entry.timer).executeCount)
  pending : entry ∈ t.timers ↔
    entry ∈ s.timers ∧ (Reaches entry action → 1 < (s.timer entry.timer).executeCount)

/-- An operation other than `handlerRead` changes nothing about the timer. -/
theorem Counts.quiet (entry : Entry) (action : TimerAction) (s t : TimerQueue)
    (alone : Alone entry t) (unread : ¬ Reaches entry action)
    (timer : t.timer entry.timer = s.timer entry.timer) (executed : t.executed = s.executed)
    (pending : entry ∈ t.timers ↔ entry ∈ s.timers) : Counts entry action s t := by
  refine ⟨alone, ?_, ?_, ?_⟩
  · simp [once, unread, timer]
  · simp [once, unread, executions, executed]
  · simp [unread, pending]

theorem handlerRead_counts (entry : Entry) (s t u : TimerQueue) (now armAt : Int)
    (readings : List Int) (newTasks : List Entry) (alone : Alone entry s)
    (ran : runExpired now (upTo (sentry now) s.timers) readings
      { s with timers := beyond (sentry now) s.timers, clock := now } = some (u, newTasks))
    (returned : { u with timers := putAll newTasks u.timers }.arm armAt = some t) :
    Counts entry (.handlerRead now readings armAt) s t := by
  have low := upTo_sublist (sentry now) s.timers
  have high := beyond_sublist (sentry now) s.timers
  have served := runExpired_served entry now _ readings _ u newTasks
    (low.nodup alone.ordered.nodup) (fun other member => alone.only other (low.subset member)) ran
  obtain ⟨timers, subset⟩ := runExpired_timers now _ readings _ u newTasks ran
  have due : entry ∈ upTo (sentry now) s.timers ↔ entry ≤ sentry now ∧ entry ∈ s.timers := by
    rw [upTo_eq_filter _ _ alone.ordered, List.mem_filter, decide_eq_true_eq, and_comm]
  have left : entry ∈ beyond (sentry now) s.timers ↔
      ¬ entry ≤ sentry now ∧ entry ∈ s.timers := by
    rw [beyond_eq_filter _ _ alone.ordered, List.mem_filter, decide_eq_true_eq, and_comm, not_le]
  have again : Alone entry { u with timers := putAll newTasks u.timers } := by
    refine ⟨ordered_putAll _ _ ?_, fun other member => ?_, ?_⟩
    · rw [timers]
      exact ordered_of_sublist high alone.ordered
    · rcases (mem_putAll _ _ _).mp member with new | old
      · exact alone.only other (low.subset (subset new))
      · rw [timers] at old
        exact alone.only other (high.subset old)
    · show 0 ≤ (u.timer entry.timer).interval
      rw [runExpired_interval now _ readings _ u newTasks ran]
      exact alone.interval
  obtain ⟨armed, timer, executed, pending⟩ := again.arm entry _ t armAt returned
  refine ⟨armed, ?_, ?_, ?_⟩
  · rw [timer]
    refine served.count.trans ?_
    rw [once_congr _ _ (and_congr_left' due)]
    rfl
  · have same : executions entry.timer t = executions entry.timer u := by
      unfold executions
      rw [executed]
    rw [same]
    refine served.executed.trans ?_
    rw [once_congr _ _ (and_congr_left' due)]
    rfl
  · rw [pending, mem_putAll, served.returns, timers, due, left]
    show (_ ∧ 1 < (s.timer entry.timer).executeCount) ∨ _ ↔
      _ ∧ (entry ≤ sentry now → 1 < (s.timer entry.timer).executeCount)
    tauto

theorem step_counts (build : Build) (entry : Entry) (action : TimerAction) (s t : TimerQueue)
    (alone : Alone entry s) (untouched : ¬ Touches entry.timer action)
    (taken : s.step build action = some t) : Counts entry action s t := by
  cases moved_of_step build s t action taken with
  | makeTimer timer interval executeCount now =>
    have different : entry.timer ≠ timer := fun same => untouched same.symm
    have kept := Function.update_of_ne different (Timer.create interval executeCount now) s.timer
    refine Counts.quiet entry _ s _ ⟨alone.ordered, alone.only, ?_⟩ id kept rfl Iff.rfl
    show 0 ≤ (Function.update s.timer timer _ entry.timer).interval
    rw [kept]
    exact alone.interval
  | insertInLoop timer armAt t checked returned =>
    have different : s.entryOf timer ≠ entry := fun same =>
      untouched (congrArg Entry.timer same)
    have grown : Alone entry { s with timers := put (s.entryOf timer) s.timers } := by
      refine ⟨ordered_put _ _ alone.ordered, fun other member same => ?_, alone.interval⟩
      rcases (mem_put _ _ _).mp member with rfl | old
      · exact absurd same untouched
      · exact alone.only other old same
    obtain ⟨armed, timers, executed, pending⟩ := grown.arm entry _ t armAt returned
    refine Counts.quiet entry _ s t armed id (congrFun timers entry.timer) executed ?_
    rw [pending, mem_put, or_iff_right different.symm]
  | cancelTimerInLoop timer now =>
    have different : entry ≠ s.entryOf timer := fun same =>
      untouched (congrArg Entry.timer same).symm
    refine Counts.quiet entry _ s _ ⟨ordered_of_sublist List.erase_sublist alone.ordered,
      fun other member => alone.only other (List.mem_of_mem_erase member), alone.interval⟩
      id rfl rfl (List.mem_erase_of_ne different)
  | handlerRead now readings armAt u t newTasks later checked ran armed =>
    exact handlerRead_counts entry s t u now armAt readings newTasks alone ran armed

/-! ### Whole runs -/

/-- What a run leaves of a timer that started with a count and was found due a number of
times. -/
structure Counted (entry : Entry) (count : Int) (reads : Nat) (start s : TimerQueue) : Prop where
  alone : Alone entry s
  remaining : (s.timer entry.timer).executeCount = count - min count.toNat reads
  executed : executions entry.timer s = executions entry.timer start + min count.toNat reads
  pending : entry ∈ s.timers ↔ reads = 0 ∨ reads < count.toNat

/-- The step lemma for counts: a count that is not positive is never used. -/
theorem Counted.next (entry : Entry) (count : Int) (reads : Nat) (action : TimerAction)
    (start s t : TimerQueue) (counted : Counted entry count reads start s)
    (counts : Counts entry action s t) :
    Counted entry count (reads + once (Reaches entry action)) start t := by
  obtain ⟨-, left, executed, pending⟩ := counted
  obtain ⟨alone, leftNext, executedNext, pendingNext⟩ := counts
  simp only [left, executed, pending, once] at leftNext executedNext pendingNext
  unfold once
  by_cases reaches : Reaches entry action
  · simp only [reaches, true_and, if_true, forall_const] at leftNext executedNext pendingNext ⊢
    refine ⟨alone, ?_, ?_, ?_⟩
    · rw [leftNext]
      split <;> omega
    · rw [executedNext]
      split <;> omega
    · rw [pendingNext]
      omega
  · simp only [reaches, false_and, if_false, Nat.cast_zero, sub_zero, add_zero,
      IsEmpty.forall_iff, and_true] at leftNext executedNext pendingNext ⊢
    exact ⟨alone, leftNext, executedNext, pendingNext⟩

theorem dueReads_snoc (entry : Entry) (actions : List TimerAction) (action : TimerAction) :
    dueReads entry (actions ++ [action]) = dueReads entry actions + once (Reaches entry action) := by
  simp only [dueReads, List.countP_append, List.countP_singleton, once, decide_eq_true_eq]

theorem run_counted (build : Build) (entry : Entry) (count : Int) (actions : List TimerAction)
    (start s t : TimerQueue) (initially : Counted entry count 0 start s)
    (untouched : ∀ action ∈ actions, ¬ Touches entry.timer action)
    (run : Run (StepOf (step build)) s actions t) :
    Counted entry count (dueReads entry actions) start t := by
  induction run with
  | nil => exact initially
  | snoc _ last inductionHypothesis =>
    have before := inductionHypothesis fun action member =>
      untouched action (List.mem_append_left _ member)
    rw [dueReads_snoc]
    exact before.next entry count _ _ start _ _ (step_counts build entry _ _ _ before.alone
      (untouched _ (List.mem_append_right _ (List.mem_singleton_self _))) last)

/-- The insertion of a timer that is not pending. -/
theorem insertInLoop_counted (build : Build) (timer : Nat) (armAt : Int) (s t : TimerQueue)
    (ordered : Ordered s.timers) (absent : ¬ Pending timer s)
    (interval : 0 ≤ (s.timer timer).interval)
    (inserted : s.step build (.insertInLoop timer armAt) = some t) :
    Counted (s.entryOf timer) (s.timer timer).executeCount 0 s t := by
  simp only [step] at inserted
  split at inserted
  · have grown : Alone (s.entryOf timer) { s with timers := put (s.entryOf timer) s.timers } := by
      refine ⟨ordered_put _ _ ordered, fun other member same => ?_, interval⟩
      rcases (mem_put _ _ _).mp member with rfl | old
      · rfl
      · exact absurd ⟨other, old, same⟩ absent
    obtain ⟨alone, timers, executed, pending⟩ := grown.arm _ _ t armAt inserted
    refine ⟨alone, ?_, ?_, ?_⟩
    · rw [timers]
      simp [entryOf, Entry.timer]
    · simp [executions, executed]
    · rw [pending, mem_put]
      simp
  · cases inserted

/-- In every run, a timer with an interval that is not negative, inserted with a positive count
or to run forever and not touched by the operations behind, keeps its count if and only if the
count is finite or no call of `handlerRead` has found the timer due. -/
theorem keepsCount_iff (build : Build) (timers : Nat → Timer) (clock : Int) (timer : Nat)
    (armAt : Int) (before after : List TimerAction) (s t u : TimerQueue)
    (reached : Run (StepOf (step build)) (initial timers clock) before s)
    (absent : ¬ Pending timer s) (interval : 0 ≤ (s.timer timer).interval)
    (count : 1 ≤ (s.timer timer).executeCount ∨ (s.timer timer).executeCount = Timer.forever)
    (inserted : s.step build (.insertInLoop timer armAt) = some t)
    (untouched : ∀ action ∈ after, ¬ Touches timer action)
    (run : Run (StepOf (step build)) t after u) :
    KeepsCount timer (s.timer timer).executeCount (dueReads (s.entryOf timer) after) s u ↔
      (s.timer timer).executeCount ≠ Timer.forever ∨ dueReads (s.entryOf timer) after = 0 := by
  have ordered : Ordered s.timers := reached.invariant_of_step (List.Pairwise.nil)
    fun state action next holds taken => step_ordered build state next action holds taken
  obtain ⟨alone, -, executed, pending⟩ := run_counted build (s.entryOf timer) _ after s t u
    (insertInLoop_counted build timer armAt s t ordered absent interval inserted) untouched run
  have pending : Pending timer u ↔ _ := (alone.pending_iff _ _).trans pending
  have executed : executions timer u = executions timer s + _ := executed
  rw [KeepsCount, executed, pending]
  rcases count with positive | forever
  · have finite : (s.timer timer).executeCount ≠ Timer.forever := by
      unfold Timer.forever
      omega
    rw [if_neg finite]
    refine iff_of_true ⟨rfl, ?_⟩ (.inl finite)
    omega
  · rw [if_pos forever, forever]
    simp only [Timer.forever, ne_eq, not_true_eq_false, false_or]
    omega

/-- A timer with interval 5 and two executions, found due at 6 and 12. -/
theorem keepsCount_iff_twice :
    ∃ s t u, s.step .debug (.insertInLoop 1 0) = some t ∧
      Run (StepOf (step .debug)) t [.handlerRead 6 [6] 6, .handlerRead 12 [12] 12] u ∧
      (s.timer 1).executeCount = 2 ∧
      KeepsCount 1 (s.timer 1).executeCount
        (dueReads (s.entryOf 1) [.handlerRead 6 [6] 6, .handlerRead 12 [12] 12]) s u := by
  have made : (exec (step .debug) unmade [.makeTimer 1 5 2 0]).isSome := by decide
  obtain ⟨s, first⟩ := Option.isSome_iff_exists.mp made
  have shape : s = { unmade with timer := Function.update unmade.timer 1 (Timer.create 5 2 0) } :=
    Option.some.inj first.symm
  have inserted : (s.step .debug (.insertInLoop 1 0)).isSome := by
    subst shape
    decide
  obtain ⟨t, second⟩ := Option.isSome_iff_exists.mp inserted
  have ran : ((s.step .debug (.insertInLoop 1 0)).bind fun t =>
      exec (step .debug) t [.handlerRead 6 [6] 6, .handlerRead 12 [12] 12]).isSome := by
    subst shape
    decide
  rw [second] at ran
  obtain ⟨u, third⟩ := Option.isSome_iff_exists.mp ran
  have count : (s.timer 1).executeCount = 2 := by
    rw [shape]
    decide
  refine ⟨s, t, u, second, run_of_exec third, count, (keepsCount_iff .debug _ _ 1 0 _ _ s t u
    (run_of_exec first) ?_ ?_ ?_ second ?_ (run_of_exec third)).mpr (.inl ?_)⟩
  · rw [shape]
    rintro ⟨entry, member, -⟩
    cases member
  · rw [shape]
    decide
  · exact .inl (by rw [count]; decide)
  · intro action member
    fin_cases member <;> exact id
  · rw [count]
    decide

/-- The queue in which a timer with interval 5 that is to run forever has been made. -/
def endless : TimerQueue :=
  { unmade with timer := Function.update unmade.timer 1 (Timer.create 5 Timer.forever 0) }

/-- A timer that is to run forever is found due once: it has not run, and it is gone. -/
theorem not_keepsCount_forever :
    ∃ t u, Run (StepOf (step .debug)) unmade [.makeTimer 1 5 Timer.forever 0] endless ∧
      endless.step .debug (.insertInLoop 1 0) = some t ∧
      Run (StepOf (step .debug)) t [.handlerRead 6 [] 6] u ∧
      (endless.timer 1).executeCount = Timer.forever ∧
      u.executed = [] ∧ u.timers = [] ∧
      ¬ KeepsCount 1 (endless.timer 1).executeCount
        (dueReads (endless.entryOf 1) [.handlerRead 6 [] 6]) endless u := by
  have done : ((endless.step .debug (.insertInLoop 1 0)).bind fun t =>
      (exec (step .debug) t [.handlerRead 6 [] 6]).map fun u => (u.executed, u.timers)) =
      some ([], []) := by decide
  obtain ⟨t, inserted, rest⟩ := Option.bind_eq_some_iff.mp done
  obtain ⟨u, executed, shape⟩ := Option.map_eq_some_iff.mp rest
  obtain ⟨nothing, gone⟩ := Prod.mk.inj shape
  have forever : (endless.timer 1).executeCount = Timer.forever := rfl
  refine ⟨t, u, run_of_exec rfl, inserted, run_of_exec executed, forever, nothing, gone, ?_⟩
  rw [KeepsCount, if_pos forever]
  rintro ⟨-, entry, member, -⟩
  rw [gone] at member
  cases member

end TimerQueue

end YYNet
