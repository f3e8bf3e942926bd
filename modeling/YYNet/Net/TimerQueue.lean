/-
This file models `TimerQueue` and proves when the keys of its entries stay in
step with their timers.

The queue is an ordered set of pairs of a time stamp and a timer. The stamp is
a copy of the timer's expiration, made when the entry is inserted. When a due
timer has run and is to run again, its expiration has moved, but `handlerRead`
puts the old pair back. The main theorem says that along any run the keys are
in step in every state, together with what follows from that (no timer runs
before its expiration, and cancelling removes exactly the timer's entry), if
and only if every due timer with more than one execution left gets the
expiration it had: its new expiration, the clock reading behind its callback
plus its interval, is its old key.

Time is counted in nanoseconds. Callbacks do not touch the queue.
-/

import YYNet.Lib.Transition
import YYNet.Lib.Checked
import YYNet.Lib.OrderedSet

namespace YYNet

open Checked Transition OrderedSet

/-! ### Timers -/

/-- `Timer`. -/
structure Timer where
  interval : Int
  executeCount : Int
  expiration : Int
  deriving DecidableEq, Repr

namespace Timer

/-- `FOREVER`. -/
def forever : Int := -1

/-- The constructor, at a clock reading. -/
def create (interval executeCount now : Int) : Timer := ⟨interval, executeCount, now + interval⟩

/-- `execute`, with the clock reading behind the callback. -/
def execute (timer : Timer) (reading : Int) : Timer where
  interval := timer.interval
  executeCount :=
    if timer.executeCount ≠ forever then timer.executeCount - 1 else timer.executeCount
  expiration := reading + timer.interval

end Timer

/-! ### The queue -/

/-- An entry of `timers_`: a time stamp and the address of a timer, in dictionary order. -/
abbrev Entry := Int ×ₗ Nat

/-- The stamp of an entry. -/
def Entry.stamp (entry : Entry) : Int := (ofLex entry).1

/-- The timer of an entry. -/
def Entry.timer (entry : Entry) : Nat := (ofLex entry).2

/-- One execution of a timer: its expiration when it was run, and the clock reading that
decided which timers are due. -/
structure Execution where
  timer : Nat
  expiration : Int
  now : Int
  deriving DecidableEq, Repr

/-- `TimerQueue` with the timer objects, the absolute expiry the timerfd is armed for, the
latest clock reading, and the executions so far. -/
structure TimerQueue where
  timer : Nat → Timer
  timers : List Entry
  timerfd : Option Int
  clock : Int
  executed : List Execution

/-- What happens to a queue, with the clock readings of each operation: a timer is constructed
at an address not in use, or one of the members runs. -/
inductive TimerAction
  | makeTimer (timer : Nat) (interval executeCount now : Int)
  | insertInLoop (timer : Nat) (armAt : Int)
  | cancelTimerInLoop (timer : Nat) (now : Int)
  | handlerRead (now : Int) (readings : List Int) (armAt : Int)
  deriving DecidableEq, Repr

namespace TimerQueue

def initial (timer : Nat → Timer) (clock : Int) : TimerQueue where
  timer := timer
  timers := []
  timerfd := none
  clock := clock
  executed := []

/-- `Entry(timer->getTimerStamp(),timer)`. -/
def entryOf (s : TimerQueue) (timer : Nat) : Entry := toLex ((s.timer timer).expiration, timer)

/-- `modifyTimerfd`: `timerfd_settime` arms for the interval of the first timer from now on, a
zero interval disarms, and a negative one fails; then the timer's entry is erased and the next
one is tried. The call does not return if there is no such entry. -/
def modifyTimerfd (armAt : Int) : Nat → TimerQueue → Option TimerQueue
  | 0, _ => none
  | fuel + 1, s =>
    match s.timers with
    | [] => some s
    | first :: _ =>
      let interval := (s.timer first.timer).interval
      if 0 ≤ interval then
        some { s with timerfd := if interval = 0 then none else some (armAt + interval) }
      else modifyTimerfd armAt fuel { s with timers := s.timers.erase (s.entryOf first.timer) }

/-- Arm the timerfd at a clock reading. -/
def arm (s : TimerQueue) (armAt : Int) : Option TimerQueue :=
  if s.clock ≤ armAt then
    modifyTimerfd armAt (s.timers.length + 1) { s with clock := armAt }
  else none

/-- Run one due timer. -/
def execute (s : TimerQueue) (now : Int) (timer : Nat) (reading : Int) : TimerQueue :=
  { s with
    timer := Function.update s.timer timer ((s.timer timer).execute reading)
    clock := reading
    executed := s.executed ++ [⟨timer, (s.timer timer).expiration, now⟩] }

/-- The loop of `handlerRead` over the expired entries, with the clock readings behind the
callbacks; it collects `NewTasks`. -/
def runExpired (now : Int) :
    List Entry → List Int → TimerQueue → Option (TimerQueue × List Entry)
  | [], _, s => some (s, [])
  | entry :: rest, readings, s =>
    if (s.timer entry.timer).executeCount ≤ 0 then runExpired now rest readings s
    else
      match readings with
      | [] => none
      | reading :: later =>
        if s.clock ≤ reading then
          let ran := s.execute now entry.timer reading
          (runExpired now rest later ran).map fun (t, newTasks) =>
            (t, if (ran.timer entry.timer).executeCount ≠ 0 then entry :: newTasks else newTasks)
        else none

/-- The sentry of `getDueTasks`: the reading with a null pointer. -/
def sentry (now : Int) : Entry := toLex (now, 0)

/-- The assertion of `getDueTasks`: the first entry that is left is later than the reading. -/
def SplitsAt (now : Int) (left : List Entry) : Prop := ∀ entry ∈ left.head?, now < entry.stamp

instance (now : Int) (left : List Entry) : Decidable (SplitsAt now left) :=
  inferInstanceAs (Decidable (∀ _ ∈ _, _))

/-- One operation. -/
def step (build : Build) (s : TimerQueue) : TimerAction → Option TimerQueue
  | .makeTimer timer interval executeCount now =>
    if s.clock ≤ now ∧ ∀ entry ∈ s.timers, entry.timer ≠ timer then
      some { s with
        timer := Function.update s.timer timer (Timer.create interval executeCount now)
        clock := now }
    else none
  | .insertInLoop timer armAt =>
    match assert build (s.entryOf timer ∉ s.timers) with
    | .ok _ => { s with timers := put (s.entryOf timer) s.timers }.arm armAt
    | .error _ => none
  | .cancelTimerInLoop timer now =>
    if s.clock ≤ now then
      match assert build (s.entryOf timer ∈ s.timers) with
      | .ok _ => some { s with timers := s.timers.erase (s.entryOf timer), clock := now }
      | .error _ => none
    else none
  | .handlerRead now readings armAt =>
    if s.clock ≤ now then
      match assert build (SplitsAt now (beyond (sentry now) s.timers)) with
      | .ok _ =>
        (runExpired now (upTo (sentry now) s.timers) readings
          { s with timers := beyond (sentry now) s.timers, clock := now }).bind
          fun (t, newTasks) => { t with timers := putAll newTasks t.timers }.arm armAt
      | .error _ => none
    else none

/-- What one operation does that no assertion stops. -/
inductive Moved (build : Build) (s : TimerQueue) : TimerAction → TimerQueue → Prop
  | makeTimer (timer : Nat) (interval executeCount now : Int) (later : s.clock ≤ now)
      (unused : ∀ entry ∈ s.timers, entry.timer ≠ timer) :
      Moved build s (.makeTimer timer interval executeCount now)
        { s with
          timer := Function.update s.timer timer (Timer.create interval executeCount now)
          clock := now }
  | insertInLoop (timer : Nat) (armAt : Int) (t : TimerQueue)
      (checked : assert build (s.entryOf timer ∉ s.timers) = .ok ())
      (armed : { s with timers := put (s.entryOf timer) s.timers }.arm armAt = some t) :
      Moved build s (.insertInLoop timer armAt) t
  | cancelTimerInLoop (timer : Nat) (now : Int) (later : s.clock ≤ now)
      (checked : assert build (s.entryOf timer ∈ s.timers) = .ok ()) :
      Moved build s (.cancelTimerInLoop timer now)
        { s with timers := s.timers.erase (s.entryOf timer), clock := now }
  | handlerRead (now : Int) (readings : List Int) (armAt : Int) (u t : TimerQueue)
      (newTasks : List Entry) (later : s.clock ≤ now)
      (checked : assert build (SplitsAt now (beyond (sentry now) s.timers)) = .ok ())
      (ran : runExpired now (upTo (sentry now) s.timers) readings
        { s with timers := beyond (sentry now) s.timers, clock := now } = some (u, newTasks))
      (armed : { u with timers := putAll newTasks u.timers }.arm armAt = some t) :
      Moved build s (.handlerRead now readings armAt) t

theorem moved_of_step (build : Build) (s t : TimerQueue) (action : TimerAction)
    (taken : s.step build action = some t) : Moved build s action t := by
  cases action with
  | makeTimer timer interval executeCount now =>
    simp only [step] at taken
    split at taken
    · rename_i allowed
      obtain rfl := Option.some.inj taken
      exact .makeTimer timer interval executeCount now allowed.1 allowed.2
    · cases taken
  | insertInLoop timer armAt =>
    simp only [step] at taken
    split at taken
    · rename_i checked
      exact .insertInLoop timer armAt t checked taken
    · cases taken
  | cancelTimerInLoop timer now =>
    simp only [step] at taken
    split at taken
    · rename_i later
      split at taken
      · rename_i checked
        obtain rfl := Option.some.inj taken
        exact .cancelTimerInLoop timer now later checked
      · cases taken
    · cases taken
  | handlerRead now readings armAt =>
    simp only [step] at taken
    split at taken
    · rename_i later
      split at taken
      · rename_i checked
        obtain ⟨⟨u, newTasks⟩, ran, armed⟩ := Option.bind_eq_some_iff.mp taken
        exact .handlerRead now readings armAt u t newTasks later checked ran armed
      · cases taken
    · cases taken

/-! ### What is promised, and when -/

/-- Every entry's stamp is its timer's expiration. -/
def Keyed (s : TimerQueue) : Prop :=
  ∀ entry ∈ s.timers, entry.stamp = (s.timer entry.timer).expiration

/-- The keys are in step with the timers, no timer has run before its expiration, and
cancelling a pending timer would remove exactly its entry. -/
structure InStep (s : TimerQueue) : Prop where
  keyed : Keyed s
  due : ∀ execution ∈ s.executed, execution.expiration ≤ execution.now
  cancels : ∀ timer, (∃ entry ∈ s.timers, entry.timer = timer) →
    s.timers.erase (s.entryOf timer) = s.timers.filter fun entry => entry.timer ≠ timer

/-- Every entry whose timer has more than one execution left finds its new expiration, the
clock reading behind its callback plus its interval, where its old one was. -/
def Restamps (timer : Nat → Timer) : List Entry → List Int → Prop
  | [], _ => True
  | entry :: rest, readings =>
    if (timer entry.timer).executeCount ≤ 0 then Restamps timer rest readings
    else
      match readings with
      | [] => True
      | reading :: later =>
        (1 < (timer entry.timer).executeCount →
          reading + (timer entry.timer).interval = entry.stamp) ∧ Restamps timer rest later

/-- The condition on one operation. -/
def KeysStay (s : TimerQueue) : TimerAction → Prop
  | .handlerRead now readings _ => Restamps s.timer (upTo (sentry now) s.timers) readings
  | _ => True

instance restampsDecidable (timer : Nat → Timer) : (entries : List Entry) →
    (readings : List Int) → Decidable (Restamps timer entries readings)
  | [], _ => .isTrue trivial
  | entry :: rest, [] =>
    have := restampsDecidable timer rest []
    inferInstanceAs (Decidable
      (if (timer entry.timer).executeCount ≤ 0 then Restamps timer rest [] else True))
  | entry :: rest, reading :: later =>
    have := restampsDecidable timer rest (reading :: later)
    have := restampsDecidable timer rest later
    inferInstanceAs (Decidable
      (if (timer entry.timer).executeCount ≤ 0 then Restamps timer rest (reading :: later)
      else (1 < (timer entry.timer).executeCount →
        reading + (timer entry.timer).interval = entry.stamp) ∧ Restamps timer rest later))

instance keysStayDecidable (s : TimerQueue) : (action : TimerAction) →
    Decidable (KeysStay s action)
  | .handlerRead .. => inferInstanceAs (Decidable (Restamps ..))
  | .makeTimer .. | .insertInLoop .. | .cancelTimerInLoop .. => .isTrue trivial

/-! ### Arming -/

/-- Arming touches neither the timers nor the executions; it erases only entries that are in
step with their timers. -/
structure Armed (s t : TimerQueue) : Prop where
  timer : t.timer = s.timer
  executed : t.executed = s.executed
  sublist : t.timers.Sublist s.timers
  erased : ∀ entry ∈ s.timers, entry ∉ t.timers → entry = s.entryOf entry.timer

theorem modifyTimerfd_armed (armAt : Int) (fuel : Nat) (s t : TimerQueue) (ordered : Ordered s.timers)
    (returned : modifyTimerfd armAt fuel s = some t) : Armed s t := by
  induction fuel generalizing s with
  | zero => cases returned
  | succ fuel inductionHypothesis =>
    rw [modifyTimerfd] at returned
    split at returned
    · obtain rfl := Option.some.inj returned
      exact ⟨rfl, rfl, List.Sublist.refl _, fun entry member absent => absurd member absent⟩
    · rename_i first rest shape
      simp only at returned
      split at returned
      · obtain rfl := Option.some.inj returned
        exact ⟨rfl, rfl, List.Sublist.refl _, fun entry member absent => absurd member absent⟩
      · obtain ⟨timer, executed, sublist, erased⟩ := inductionHypothesis
          { s with timers := s.timers.erase (s.entryOf first.timer) }
          (ordered_of_sublist List.erase_sublist ordered) returned
        refine ⟨timer, executed, sublist.trans List.erase_sublist, fun entry member absent => ?_⟩
        by_cases here : entry = s.entryOf first.timer
        · rw [here]
          rfl
        · exact erased entry ((List.mem_erase_of_ne here).mpr member) absent

theorem arm_armed (armAt : Int) (s t : TimerQueue) (ordered : Ordered s.timers)
    (returned : s.arm armAt = some t) : Armed s t := by
  unfold arm at returned
  split at returned
  · obtain ⟨timer, executed, sublist, erased⟩ :=
      modifyTimerfd_armed armAt _ { s with clock := armAt } t ordered returned
    exact ⟨timer, executed, sublist, erased⟩
  · cases returned

/-- Arming decides nothing about the keys. -/
theorem Armed.keyed_iff (s t : TimerQueue) (armed : Armed s t) : Keyed t ↔ Keyed s := by
  constructor
  · intro keyed entry member
    by_cases kept : entry ∈ t.timers
    · rw [← armed.timer]
      exact keyed entry kept
    · rw [armed.erased entry member kept]
      rfl
  · intro keyed entry member
    rw [armed.timer]
    exact keyed entry (armed.sublist.subset member)

/-! ### Running the expired timers -/

/-- What the loop of `handlerRead` does, for entries with different timers. -/
structure Ran (s : TimerQueue) (now : Int) (entries : List Entry) (readings : List Int)
    (t : TimerQueue) (newTasks : List Entry) : Prop where
  timers : t.timers = s.timers
  others : ∀ timer, (∀ entry ∈ entries, entry.timer ≠ timer) → t.timer timer = s.timer timer
  again : newTasks ⊆ entries
  restamps : (∀ entry ∈ newTasks, entry.stamp = (t.timer entry.timer).expiration) ↔
    Restamps s.timer entries readings
  executed : ∀ execution ∈ t.executed, execution ∈ s.executed ∨
    ∃ entry ∈ entries, execution.expiration = (s.timer entry.timer).expiration ∧
      execution.now = now

theorem restamps_spent (timer : Nat → Timer) (entry : Entry) (rest : List Entry)
    (readings : List Int) (spent : (timer entry.timer).executeCount ≤ 0) :
    Restamps timer (entry :: rest) readings ↔ Restamps timer rest readings := by
  cases readings <;> simp only [Restamps, if_pos spent]

theorem restamps_left (timer : Nat → Timer) (entry : Entry) (rest : List Entry) (reading : Int)
    (later : List Int) (left : ¬ (timer entry.timer).executeCount ≤ 0) :
    Restamps timer (entry :: rest) (reading :: later) ↔
      (1 < (timer entry.timer).executeCount →
        reading + (timer entry.timer).interval = entry.stamp) ∧ Restamps timer rest later := by
  simp only [Restamps, if_neg left]

/-- The condition looks at the timers of the entries only. -/
theorem restamps_congr (first second : Nat → Timer) (entries : List Entry) (readings : List Int)
    (same : ∀ entry ∈ entries, first entry.timer = second entry.timer) :
    Restamps first entries readings ↔ Restamps second entries readings := by
  induction entries generalizing readings with
  | nil => exact Iff.rfl
  | cons entry rest inductionHypothesis =>
    have here := same entry List.mem_cons_self
    have later := fun readings => inductionHypothesis readings fun other member =>
      same other (List.mem_cons_of_mem _ member)
    by_cases spent : (second entry.timer).executeCount ≤ 0
    · rw [restamps_spent second entry rest readings spent,
        restamps_spent first entry rest readings (by rw [here]; exact spent)]
      exact later readings
    · cases readings with
      | nil => simp only [Restamps, here, if_neg spent]
      | cons reading readings =>
        rw [restamps_left second entry rest reading readings spent,
          restamps_left first entry rest reading readings (by rw [here]; exact spent), here]
        exact and_congr_right fun _ => later readings

theorem execute_other (s : TimerQueue) (now : Int) (timer other : Nat) (reading : Int)
    (different : other ≠ timer) : (s.execute now timer reading).timer other = s.timer other :=
  Function.update_of_ne different _ _

theorem execute_self (s : TimerQueue) (now : Int) (timer : Nat) (reading : Int) :
    (s.execute now timer reading).timer timer = (s.timer timer).execute reading :=
  Function.update_self _ _ _

/-- A timer with executions left is to run again exactly when it had more than one. -/
theorem execute_count_ne_zero (timer : Timer) (reading : Int) (left : ¬ timer.executeCount ≤ 0) :
    (timer.execute reading).executeCount ≠ 0 ↔ 1 < timer.executeCount := by
  have finite : timer.executeCount ≠ Timer.forever := by
    unfold Timer.forever
    omega
  rw [Timer.execute, if_pos finite]
  simp only
  omega

/-- The loop of `handlerRead` at one entry: the timer is spent, or it is run and taken up for
another execution when it had more than one left. -/
theorem runExpired_cons (now : Int) (entry : Entry) (rest : List Entry) (readings : List Int)
    (s t : TimerQueue) (newTasks : List Entry)
    (returned : runExpired now (entry :: rest) readings s = some (t, newTasks)) :
    ((s.timer entry.timer).executeCount ≤ 0 ∧
      runExpired now rest readings s = some (t, newTasks)) ∨
    (¬ (s.timer entry.timer).executeCount ≤ 0 ∧ ∃ reading later tasks,
      readings = reading :: later ∧ s.clock ≤ reading ∧
      runExpired now rest later (s.execute now entry.timer reading) = some (t, tasks) ∧
      newTasks = if 1 < (s.timer entry.timer).executeCount then entry :: tasks else tasks) := by
  rw [runExpired.eq_def] at returned
  simp only at returned
  split at returned
  · rename_i spent
    exact .inl ⟨spent, returned⟩
  · rename_i left
    cases readings with
    | nil => cases returned
    | cons reading later =>
      simp only at returned
      split at returned
      · rename_i ahead
        obtain ⟨⟨u, tasks⟩, inner, same⟩ := Option.map_eq_some_iff.mp returned
        simp only [execute_self, execute_count_ne_zero _ _ left, Prod.mk.injEq] at same
        obtain ⟨rfl, rfl⟩ := same
        exact .inr ⟨left, reading, later, tasks, rfl, ahead, inner, rfl⟩
      · cases returned

theorem runExpired_ran (now : Int) (entries : List Entry) (readings : List Int)
    (s t : TimerQueue) (newTasks : List Entry)
    (distinct : entries.Pairwise fun first second => first.timer ≠ second.timer)
    (returned : runExpired now entries readings s = some (t, newTasks)) :
    Ran s now entries readings t newTasks := by
  induction entries generalizing readings s newTasks with
  | nil =>
    obtain ⟨rfl, rfl⟩ := Prod.mk.inj (Option.some.inj returned)
    exact ⟨rfl, fun _ _ => rfl, List.Subset.refl _, iff_of_true nofun trivial, fun _ => .inl⟩
  | cons entry rest inductionHypothesis =>
    obtain ⟨apart, distinctRest⟩ := List.pairwise_cons.mp distinct
    rcases runExpired_cons now entry rest readings s t newTasks returned with
      ⟨spent, inner⟩ | ⟨left, reading, later, tasks, rfl, -, inner, rfl⟩
    · obtain ⟨timers, others, again, restamps, executed⟩ :=
        inductionHypothesis readings s newTasks distinctRest inner
      refine ⟨timers, fun timer different => others timer fun other member =>
        different other (List.mem_cons_of_mem _ member), fun other member =>
        List.mem_cons_of_mem _ (again member), ?_, fun execution member => ?_⟩
      · rw [restamps_spent _ _ _ _ spent]
        exact restamps
      · rcases executed execution member with old | ⟨other, inside, rest⟩
        · exact .inl old
        · exact .inr ⟨other, List.mem_cons_of_mem _ inside, rest⟩
    · obtain ⟨timers, others, again, restamps, executed⟩ :=
        inductionHypothesis later _ tasks distinctRest inner
      have stays (other : Entry) (member : other ∈ rest) :
          (s.execute now entry.timer reading).timer other.timer = s.timer other.timer :=
        execute_other s now entry.timer other.timer reading (apart other member).symm
      have moved : t.timer entry.timer = (s.timer entry.timer).execute reading := by
        rw [others entry.timer fun other member => (apart other member).symm,
          execute_self]
      rw [restamps_congr _ _ rest later stays] at restamps
      refine ⟨timers, fun timer different => ?_, ?_, ?_, fun execution member => ?_⟩
      · rw [others timer fun other member => different other (List.mem_cons_of_mem _ member)]
        exact execute_other s now _ _ _ (different entry List.mem_cons_self).symm
      · split
        · exact List.cons_subset_cons _ again
        · exact fun other member => List.mem_cons_of_mem _ (again member)
      · rw [restamps_left _ _ _ _ _ left, ← restamps]
        split
        · rename_i more
          rw [List.forall_mem_cons, moved]
          refine and_congr_left fun _ => ?_
          simp only [Timer.execute, more, true_implies]
          exact eq_comm
        · rename_i last
          simp [last]
      · rcases executed execution member with old | ⟨other, inside, expiration, reading⟩
        · rcases List.mem_append.mp old with older | new
          · exact .inl older
          · obtain rfl := List.mem_singleton.mp new
            exact .inr ⟨entry, List.mem_cons_self, rfl, rfl⟩
        · rw [stays other inside] at expiration
          exact .inr ⟨other, List.mem_cons_of_mem _ inside, expiration, reading⟩

/-! ### One operation -/

/-- With the keys in step, a timer has one entry. -/
theorem Keyed.unique (s : TimerQueue) (keyed : Keyed s) (first second : Entry)
    (member : first ∈ s.timers) (other : second ∈ s.timers) (same : first.timer = second.timer) :
    first = second := by
  have stamps : first.stamp = second.stamp := by
    rw [keyed first member, keyed second other, same]
  exact Prod.ext stamps same

theorem distinct_upTo (s : TimerQueue) (keyed : Keyed s) (ordered : Ordered s.timers)
    (bound : Entry) :
    (upTo bound s.timers).Pairwise fun first second => first.timer ≠ second.timer := by
  have sublist := upTo_sublist bound s.timers
  refine List.Pairwise.imp_of_mem ?_ (ordered_of_sublist sublist ordered)
  intro first second member other below same
  exact ne_of_lt below
    (keyed.unique s first second (sublist.subset member) (sublist.subset other) same)

/-- A timer with an entry beyond the bound has none up to it. -/
theorem apart_of_beyond (s : TimerQueue) (keyed : Keyed s) (ordered : Ordered s.timers)
    (bound entry : Entry) (member : entry ∈ beyond bound s.timers) (other : Entry)
    (due : other ∈ upTo bound s.timers) : other.timer ≠ entry.timer := by
  intro same
  have equal := keyed.unique s other entry ((upTo_sublist _ _).subset due)
    ((beyond_sublist _ _).subset member) same
  have early := le_of_mem_upTo due
  rw [equal] at early
  exact absurd (lt_of_mem_beyond ordered member) (not_lt.mpr early)

/-- A due entry's stamp is not later than the clock reading. -/
theorem stamp_le_of_due (s : TimerQueue) (now : Int) (entry : Entry)
    (due : entry ∈ upTo (sentry now) s.timers) : entry.stamp ≤ now := by
  rcases Prod.Lex.le_iff.mp (le_of_mem_upTo due) with before | ⟨same, -⟩
  · exact le_of_lt before
  · exact le_of_eq same

/-- `handlerRead` keeps the keys in step exactly when every timer that is to run again is
restamped, and it runs due timers only. -/
theorem handlerRead_spec (s t u : TimerQueue) (now armAt : Int) (readings : List Int)
    (newTasks : List Entry) (ordered : Ordered s.timers) (keyed : Keyed s)
    (ran : runExpired now (upTo (sentry now) s.timers) readings
      { s with timers := beyond (sentry now) s.timers, clock := now } = some (u, newTasks))
    (returned : { u with timers := putAll newTasks u.timers }.arm armAt = some t) :
    Ordered t.timers ∧ (Keyed t ↔ Restamps s.timer (upTo (sentry now) s.timers) readings) ∧
      ∀ execution ∈ t.executed, execution ∈ s.executed ∨ execution.expiration ≤ execution.now := by
  obtain ⟨timers, others, -, restamps, executed⟩ :=
    runExpired_ran now _ readings _ u newTasks (distinct_upTo s keyed ordered _) ran
  have later : Ordered (putAll newTasks u.timers) := by
    refine ordered_putAll _ _ ?_
    rw [timers]
    exact ordered_of_sublist (beyond_sublist _ _) ordered
  have armed := arm_armed armAt _ t later returned
  refine ⟨ordered_of_sublist armed.sublist later, ?_, fun execution member => ?_⟩
  · rw [armed.keyed_iff, ← restamps]
    constructor
    · exact fun all entry member => all entry ((mem_putAll _ _ _).mpr (.inl member))
    · intro fresh entry member
      rcases (mem_putAll _ _ _).mp member with new | old
      · exact fresh entry new
      · rw [timers] at old
        have stays := others entry.timer (apart_of_beyond s keyed ordered _ entry old)
        simp only [stays]
        exact keyed entry ((beyond_sublist _ _).subset old)
  · rw [armed.executed] at member
    rcases executed execution member with old | ⟨entry, due, expiration, reading⟩
    · exact .inl old
    · have stamp := keyed entry ((upTo_sublist _ _).subset due)
      rw [expiration, reading]
      exact .inr (stamp ▸ stamp_le_of_due s now entry due)

/-- One operation on a queue whose keys are in step. -/
theorem step_spec (build : Build) (s t : TimerQueue) (action : TimerAction)
    (ordered : Ordered s.timers) (keyed : Keyed s) (taken : s.step build action = some t) :
    Ordered t.timers ∧ (Keyed t ↔ KeysStay s action) ∧
      ∀ execution ∈ t.executed, execution ∈ s.executed ∨ execution.expiration ≤ execution.now := by
  cases moved_of_step build s t action taken with
  | makeTimer timer interval executeCount now later unused =>
    refine ⟨ordered, iff_of_true (fun entry member => ?_) trivial, fun _ => .inl⟩
    simp only [Function.update_of_ne (unused entry member)]
    exact keyed entry member
  | insertInLoop timer armAt t checked returned =>
    have grown := ordered_put (s.entryOf timer) s.timers ordered
    have armed := arm_armed armAt _ t grown returned
    refine ⟨ordered_of_sublist armed.sublist grown, iff_of_true ?_ trivial,
      fun execution member => .inl (armed.executed ▸ member)⟩
    rw [armed.keyed_iff]
    intro entry member
    rcases (mem_put _ _ _).mp member with rfl | old
    · rfl
    · exact keyed entry old
  | cancelTimerInLoop timer now later checked =>
    exact ⟨ordered_of_sublist List.erase_sublist ordered,
      iff_of_true (fun entry member => keyed entry (List.mem_of_mem_erase member)) trivial,
      fun _ => .inl⟩
  | handlerRead now readings armAt u t newTasks later checked ran armed =>
    exact handlerRead_spec s t u now armAt readings newTasks ordered keyed ran armed

/-- Erasing by the current expiration removes exactly the timer's entry. -/
theorem cancels_of_keyed (s : TimerQueue) (ordered : Ordered s.timers) (keyed : Keyed s)
    (timer : Nat) :
    s.timers.erase (s.entryOf timer) = s.timers.filter fun entry => entry.timer ≠ timer := by
  rw [ordered.nodup.erase_eq_filter]
  refine List.filter_congr fun entry member => ?_
  have same : entry = s.entryOf timer ↔ entry.timer = timer := by
    constructor
    · rintro rfl
      rfl
    · rintro rfl
      exact Prod.ext (keyed entry member) rfl
  rw [Bool.eq_iff_iff, bne_iff_ne, decide_eq_true_eq, ne_eq, ne_eq, same]

/-! ### Whole runs -/

/-- The invariant of a run whose keys stay in step. -/
structure Tidy (s : TimerQueue) : Prop where
  ordered : Ordered s.timers
  keyed : Keyed s
  due : ∀ execution ∈ s.executed, execution.expiration ≤ execution.now

theorem initial_tidy (timer : Nat → Timer) (clock : Int) : Tidy (initial timer clock) :=
  ⟨List.Pairwise.nil, nofun, nofun⟩

theorem step_tidy (build : Build) (s t : TimerQueue) (action : TimerAction) (tidy : Tidy s)
    (stay : KeysStay s action) (taken : s.step build action = some t) : Tidy t := by
  obtain ⟨ordered, keyed, executed⟩ := step_spec build s t action tidy.ordered tidy.keyed taken
  refine ⟨ordered, keyed.mpr stay, fun execution member => ?_⟩
  rcases executed execution member with old | due
  · exact tidy.due execution old
  · exact due

/-- Along any run the keys are in step with the timers in every state, no timer has run early
and cancelling is exact, if and only if every timer that is to run again keeps its stamp. -/
theorem inStep_iff (build : Build) (timer : Nat → Timer) (clock : Int)
    (actions : List TimerAction) (final : TimerQueue)
    (run : Run (StepOf (step build)) (initial timer clock) actions final) :
    (∀ before, before <+: actions → ∀ s,
      Run (StepOf (step build)) (initial timer clock) before s → InStep s) ↔
    Meets (StepOf (step build)) KeysStay (initial timer clock) actions := by
  refine run.always_iff (stepOf_deterministic _) (initial_tidy timer clock) (fun s tidy => ?_)
    (fun s action t _ => step_tidy build s t action) fun s action t _ tidy taken inStep => ?_
  · exact ⟨tidy.keyed, tidy.due, fun timer _ => cancels_of_keyed s tidy.ordered tidy.keyed timer⟩
  · exact (step_spec build s t action tidy.ordered tidy.keyed taken).2.1.mp inStep.keyed

/-- A queue with no timer made yet. -/
def unmade : TimerQueue := initial (fun _ => ⟨0, 0, 0⟩) 0

/-- Two timers that run once are due together, and a timer that runs for ever is cancelled. -/
def runOnce : List TimerAction :=
  [.makeTimer 1 5 1 0, .insertInLoop 1 0, .makeTimer 2 3 1 1, .insertInLoop 2 1,
    .makeTimer 3 50 Timer.forever 2, .insertInLoop 3 2, .handlerRead 6 [6, 7] 8,
    .cancelTimerInLoop 3 9]

theorem inStep_iff_once : ∃ final, Run (StepOf (step .debug)) unmade runOnce final ∧
    final.executed = [⟨2, 4, 6⟩, ⟨1, 5, 6⟩] ∧ final.timers = [] ∧
    Meets (StepOf (step .debug)) KeysStay unmade runOnce ∧
    ∀ before, before <+: runOnce → ∀ s, Run (StepOf (step .debug)) unmade before s →
      InStep s := by
  have done : ((exec (step .debug) unmade runOnce).map fun s => (s.executed, s.timers)) =
      some ([⟨2, 4, 6⟩, ⟨1, 5, 6⟩], []) := by
    decide
  have stay : checks (step .debug) KeysStay unmade runOnce = true := by decide
  obtain ⟨final, executed, same⟩ := Option.map_eq_some_iff.mp done
  obtain ⟨ran, empty⟩ := Prod.mk.inj same
  have run := run_of_exec executed
  exact ⟨final, run, ran, empty, meets_of_checks stay,
    (inStep_iff .debug (fun _ => ⟨0, 0, 0⟩) 0 runOnce final run).mpr (meets_of_checks stay)⟩

/-- A timer with interval 5 and two executions, run once at 6. -/
def repeated : List TimerAction := [.makeTimer 1 5 2 0, .insertInLoop 1 0, .handlerRead 6 [6] 6]

/-- The timer is back in the queue under its old stamp 5, and expires at 11. -/
theorem inStep_fails :
    ∃ final, Run (StepOf (step .debug)) unmade repeated final ∧ ¬ InStep final := by
  have done : ((exec (step .debug) unmade repeated).map fun s =>
      (s.timers, (s.timer 1).expiration)) = some ([toLex (5, 1)], 11) := by
    decide
  obtain ⟨final, executed, shape⟩ := Option.map_eq_some_iff.mp done
  obtain ⟨timers, expiration⟩ := Prod.mk.inj shape
  refine ⟨final, run_of_exec executed, fun inStep => ?_⟩
  have keyed := inStep.keyed (toLex (5, 1)) (by rw [timers]; exact List.mem_singleton_self _)
  have stamp : (5 : Int) = (final.timer 1).expiration := keyed
  omega

end TimerQueue

end YYNet
