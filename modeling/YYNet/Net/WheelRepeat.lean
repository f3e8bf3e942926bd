/-
This file proves how often and in which ticks a timer on a `TimerWheel` runs
that is to run more than once.

For one timer the wheel is a small machine: the ticks in which the timer has
run, the number of runs that are left, and the tick in which it runs next.
Every tick of the wheel is a tick of that machine, whatever else the wheel
holds and whatever the callbacks of other timers insert.

`tick` inserts a timer that is to run again while the slot it ran in is still
the current one, and the walk has passed the front of that slot's list. If the
number of ticks of the timer is a multiple of the number of slots, the new node
lands in that very slot and is visited one whole round later than it should. A
timer that is to run forever has the count -1; `tick` inserts a timer again if
its count is positive, so it runs once and is gone.
-/

import YYNet.Net.WheelDue

namespace YYNet

open Checked Transition

/-! ### One timer -/

/-- What the wheel does with one timer: the ticks in which it has run, its count, and the tick in
which it runs next. -/
structure Schedule where
  ran : List Nat
  left : Int
  next : Option Nat

namespace Schedule

/-- The timer runs; it is scheduled again if its count is positive. -/
def fire (s : Schedule) (period now : Nat) : Schedule :=
  let left := if s.left ≠ Timer.forever then s.left - 1 else s.left
  { ran := s.ran ++ [now]
    left := left
    next := if 0 < left then some (now + period) else none }

/-- A timer that has run runs next when its period is over. -/
theorem fire_next (s : Schedule) {period now due : Nat}
    (next : (s.fire period now).next = some due) : due = now + period := by
  have next : (if 0 < (s.fire period now).left then some (now + period) else none) = some due :=
    next
  split at next
  · exact (Option.some.inj next).symm
  · cases next

/-- One tick. -/
def tick (s : Schedule) (period now : Nat) : Schedule :=
  if s.next = some now then s.fire period now else s

/-- The schedule after a number of ticks. -/
def after (s : Schedule) (period now : Nat) : Nat → Schedule
  | 0 => s
  | count + 1 => (s.after period now count).tick period (now + count)

/-- A timer with a finite count that has run some times. -/
def partway (ran : List Nat) (count first period done : Nat) : Schedule where
  ran := ran ++ (List.range done).map fun index => first + index * period
  left := count - done
  next := if done < count then some (first + done * period) else none

/-- A run of a timer with a finite count. -/
theorem partway_fire (ran : List Nat) (count first period done : Nat) (more : done < count) :
    (partway ran count first period done).fire period (first + done * period) =
      partway ran count first period (done + 1) := by
  have finite : (count : Int) - done ≠ Timer.forever := by
    unfold Timer.forever
    omega
  have left : (count : Int) - done - 1 = count - (done + 1 : Nat) := by omega
  simp only [fire, partway, if_pos finite, left, List.range_succ, List.map_append,
    List.append_assoc, List.map_singleton, Schedule.mk.injEq, true_and]
  by_cases again : done + 1 < count
  · rw [if_pos (by omega), if_pos again, Nat.succ_mul, Nat.add_assoc]
  · rw [if_neg (by omega), if_neg again]

/-- A timer with a finite count runs in the ticks it should, as far as the ticks have gone. -/
theorem after_partway (ran : List Nat) (count first period now ticks : Nat) (ahead : now ≤ first)
    (spaced : 0 < period) :
    ∃ done ≤ count, (partway ran count first period 0).after period now ticks =
        partway ran count first period done ∧
      (∀ index < done, first + index * period < now + ticks) ∧
      (done < count → now + ticks ≤ first + done * period) := by
  induction ticks with
  | zero => exact ⟨0, Nat.zero_le _, rfl, nofun, fun _ => by simpa using ahead⟩
  | succ ticks inductionHypothesis =>
    obtain ⟨done, within, shape, past, future⟩ := inductionHypothesis
    rw [after, shape, tick]
    by_cases due : done < count ∧ first + done * period = now + ticks
    · obtain ⟨more, same⟩ := due
      have next : (partway ran count first period done).next = some (now + ticks) := by
        rw [← same]
        exact if_pos more
      rw [if_pos next, ← same, partway_fire ran count first period done more]
      refine ⟨done + 1, more, rfl, fun index earlier => ?_, fun _ => ?_⟩
      · have bound : index * period ≤ done * period :=
          Nat.mul_le_mul_right _ (Nat.lt_succ_iff.mp earlier)
        omega
      · rw [Nat.succ_mul]
        omega
    · have next : (partway ran count first period done).next ≠ some (now + ticks) := by
        unfold partway
        split
        · rename_i more
          exact fun same => due ⟨more, Option.some.inj same⟩
        · exact nofun
      rw [if_neg next]
      refine ⟨done, within, rfl, fun index earlier => ?_, fun more => ?_⟩
      · have early := past index earlier
        omega
      · have late := future more
        have different : first + done * period ≠ now + ticks := fun same => due ⟨more, same⟩
        omega

/-- A timer that is to run forever runs once and is not scheduled again. -/
theorem after_forever (ran : List Nat) (first period now ticks : Nat) (ahead : now ≤ first) :
    (Schedule.mk ran Timer.forever (some first)).after period now ticks =
      if first < now + ticks then ⟨ran ++ [first], Timer.forever, none⟩
      else ⟨ran, Timer.forever, some first⟩ := by
  induction ticks with
  | zero => exact (if_neg (by omega)).symm
  | succ ticks inductionHypothesis =>
    rw [after, inductionHypothesis]
    by_cases past : first < now + ticks
    · rw [if_pos past, if_pos (by omega)]
      rfl
    · rw [if_neg past, tick]
      by_cases due : first = now + ticks
      · rw [if_pos (by rw [due]), if_pos (by omega), due]
        rfl
      · rw [if_neg fun same => due (Option.some.inj same), if_neg (by omega)]

end Schedule

namespace TimerWheel

/-- The ticks in which a timer has run. -/
def executions (w : TimerWheel) (timer : Nat) : List Nat :=
  (w.fired.filter fun firing => (w.node firing.1).timer = timer).map Prod.snd

/-- A node of a timer is in a list. -/
def Held (w : TimerWheel) (lists : Nat → List Nat) (timer node : Nat) : Prop :=
  (∃ slot, node ∈ lists slot) ∧ (w.node node).timer = timer

/-- The timer has no node, or one that is due in a given tick. -/
def Waits (w : TimerWheel) (lists : Nat → List Nat) (ahead : List Nat) (begun timer : Nat) :
    Option Nat → Prop
  | none => ∀ node, ¬ Held w lists timer node
  | some due => ∃ node, Held w lists timer node ∧
      (∀ other, Held w lists timer other → other = node) ∧ Due w lists ahead begun node due

/-- The number of ticks until a timer runs that is inserted by a tick: a node that lands in the
current slot waits for a whole round. -/
def period (w : TimerWheel) (timer : Nat) : Nat :=
  w.delay timer + if w.maxSlots ∣ w.delay timer then w.maxSlots else 0

/-- A wheel does with a timer what a schedule says. -/
structure Tracks (timer period : Nat) (w : TimerWheel) (lists : Nat → List Nat) (ahead : List Nat)
    (begun : Nat) (s : Schedule) : Prop where
  ran : w.executions timer = s.ran
  left : (w.timer timer).executeCount = s.left
  every : w.period timer = period
  waits : Waits w lists ahead begun timer s.next
  tasks : ∀ task ∈ w.tasks, (w.node task.2).timer ≠ timer

theorem Waits.keep {w v : TimerWheel} {lists longer : Nat → List Nat} {ahead behind : List Nat}
    {begun begun' timer : Nat} {next : Option Nat} (waits : Waits w lists ahead begun timer next)
    (held : ∀ node, Held v longer timer node ↔ Held w lists timer node)
    (keeps : ∀ node due, Due w lists ahead begun node due → Due v longer behind begun' node due) :
    Waits v longer behind begun' timer next := by
  cases next with
  | none => exact fun node there => waits node ((held node).mp there)
  | some due =>
    obtain ⟨node, here, only, isDue⟩ := waits
    exact ⟨node, (held node).mpr here, fun other there => only other ((held other).mp there),
      keeps node due isDue⟩

/-! ### Steps that are about other timers -/

/-- A callback does nothing to a timer. -/
def Quiet (timer : Nat) (steps : List CallbackStep) : Prop :=
  ∀ step ∈ steps, match step with
    | .insert other => other ≠ timer
    | .setRemainCount other _ => other ≠ timer

/-- A part of a run leaves a timer as it is and makes no node of it. -/
structure Apart (timer : Nat) (w v : TimerWheel) : Prop where
  same : v.timer timer = w.timer timer
  fresh : ∀ node, w.made ≤ node → node < v.made → (v.node node).timer ≠ timer

theorem Apart.refl (timer : Nat) (w : TimerWheel) : Apart timer w w :=
  ⟨rfl, fun _ low high => absurd high (not_lt.mpr low)⟩

theorem Apart.trans {timer : Nat} {w v u : TimerWheel} {lists longer : Nat → List Nat}
    (first : Apart timer w v) (second : Apart timer v u) (grown : Grown v lists u longer) :
    Apart timer w u := by
  refine ⟨second.same.trans first.same, fun node low high => ?_⟩
  by_cases old : node < v.made
  · rw [(grown.data node old).2]
    exact first.fresh node low old
  · exact second.fresh node (not_lt.mp old) high

theorem insert_timer {w v : TimerWheel} {timer : Nat} (returned : w.insert timer = .ok v) :
    v.timer = w.timer := by
  obtain ⟨u, isPrepared, linked⟩ := bind_eq_ok returned
  obtain rfl := Except.ok.inj linked
  exact (link_rest u _ w.made).2.2.2.2.1.trans (prepared_of_prepare isPrepared).timers

theorem insert_apart {w v : TimerWheel} {lists : Nat → List Nat} {timer other : Nat}
    (laid : Laid w lists) (positive : 0 < w.maxSlots) (different : other ≠ timer)
    (returned : w.insert other = .ok v) : Apart timer w v := by
  obtain ⟨-, -, made, -, isOther⟩ := insert_eq_ok laid positive returned
  refine ⟨by rw [insert_timer returned], fun node low high => ?_⟩
  obtain rfl : node = w.made := by omega
  rw [isOther]
  exact different

theorem setTimer_apart (w : TimerWheel) {timer other : Nat} (different : other ≠ timer)
    (value : Timer) : Apart timer w (w.setTimer other value) :=
  ⟨Function.update_of_ne different.symm _ _, fun _ low high => absurd high (not_lt.mpr low)⟩

/-- A callback that does nothing to a timer. -/
theorem runSteps_apart {w v : TimerWheel} {lists : Nat → List Nat} {timer : Nat}
    {steps : List CallbackStep} (laid : Laid w lists) (positive : 0 < w.maxSlots)
    (quiet : Quiet timer steps) (returned : w.runSteps steps = .ok v) :
    ∃ longer, Grown w lists v longer ∧ Apart timer w v := by
  induction steps generalizing w lists with
  | nil =>
    obtain rfl := Except.ok.inj returned
    exact ⟨lists, Grown.refl laid, Apart.refl timer w⟩
  | cons step rest inductionHypothesis =>
    have here := quiet step List.mem_cons_self
    have later : Quiet timer rest := fun other member => quiet other (List.mem_cons_of_mem _ member)
    cases step with
    | insert other =>
      obtain ⟨middle, inserted, returned⟩ := bind_eq_ok returned
      obtain ⟨-, grown, -⟩ := insert_eq_ok laid positive inserted
      obtain ⟨longer, grows, apart⟩ := inductionHypothesis grown.laid
        (by rwa [grown.maxSlots]) later returned
      exact ⟨longer, grown.trans grows,
        (insert_apart laid positive here inserted).trans apart grows⟩
    | setRemainCount other count =>
      have grown : Grown w lists (w.setRemainCount other count) lists := grown_of_setTimer laid _ _
      obtain ⟨longer, grows, apart⟩ := inductionHypothesis grown.laid positive later returned
      exact ⟨longer, grown.trans grows, (setTimer_apart w here _).trans apart grows⟩

/-- The nodes of a timer in grown lists. -/
theorem Grown.held_iff {w v : TimerWheel} {lists longer : Nat → List Nat} {timer : Nat}
    (grown : Grown w lists v longer) (laid : Laid w lists) (apart : Apart timer w v) (node : Nat) :
    Held v longer timer node ↔ Held w lists timer node := by
  by_cases old : node < w.made
  · unfold Held
    rw [(grown.data node old).2]
    exact and_congr_left fun _ => exists_congr fun slot => (grown.members old slot).symm
  · refine iff_of_false ?_ ?_
    · rintro ⟨⟨slot, member⟩, isTimer⟩
      exact apart.fresh node (not_lt.mp old) (grown.laid.known slot node member).1 isTimer
    · rintro ⟨⟨slot, member⟩, -⟩
      exact old (laid.known slot node member).1

/-- What has run is told by the firings, when the nodes keep their timers. -/
theorem executions_congr {w v : TimerWheel} {lists : Nat → List Nat} (laid : Laid w lists)
    (fired : v.fired = w.fired)
    (timers : ∀ node, node < w.made → (v.node node).timer = (w.node node).timer) (timer : Nat) :
    v.executions timer = w.executions timer := by
  unfold executions
  rw [fired]
  refine congrArg _ (List.filter_congr fun firing member => ?_)
  rw [timers _ (laid.fired firing member)]

theorem period_congr {w v : TimerWheel} {timer : Nat} (maxSlots : v.maxSlots = w.maxSlots)
    (si : v.si = w.si) (interval : (v.timer timer).interval = (w.timer timer).interval) :
    v.period timer = w.period timer := by
  unfold period delay
  rw [maxSlots, si, interval]

/-- A heap holds one family of lists. -/
theorem Laid.unique {w : TimerWheel} {lists others : Nat → List Nat} (laid : Laid w lists)
    (other : Laid w others) : lists = others := by
  funext slot
  exact LinkedList.visits_unique (laid.linked slot).visits (other.linked slot).visits

/-! ### A node that runs -/

/-- A node without rotations runs its timer and is taken out of its list. -/
structure Fires (build : Build) (run : CallbackRun) (w : TimerWheel) (lists : Nat → List Nat)
    (node : Nat) (after : List Nat) (v : TimerWheel) (longer : Nat → List Nat) (new : List Nat)
    (u : TimerWheel) : Prop where
  laid : Laid w lists
  positive : 0 < w.maxSlots
  inside : w.curSlot < w.maxSlots
  shape : ∃ before, lists w.curSlot = before ++ node :: after
  spent : (w.node node).rotation = 0
  returned : (w.execute build node run >>= fun executed => executed.reinsert node) = .ok v
  grown : Grown (w.countDown node) lists v longer
  grownShape : longer w.curSlot = new ++ node :: after
  unlinked : Unlinked v u
  timer : u.timer = v.timer
  relaid : Laid u (Function.update longer w.curSlot (new ++ after))

section

variable {build : Build} {run : CallbackRun} {w v u : TimerWheel} {lists longer : Nat → List Nat}
  {node : Nat} {after new : List Nat}

theorem Fires.moved (fires : Fires build run w lists node after v longer new u) :
    Moved (w.ticks + 1) w lists (node :: after) u
      (Function.update longer w.curSlot (new ++ after)) after := by
  obtain ⟨before, shape⟩ := fires.shape
  exact moved_of_fire fires.laid shape fires.spent fires.grown fires.grownShape fires.unlinked
    fires.relaid

theorem Fires.here (fires : Fires build run w lists node after v longer new u) :
    node ∈ lists w.curSlot := by
  obtain ⟨before, shape⟩ := fires.shape
  rw [shape]
  simp

theorem Fires.known (fires : Fires build run w lists node after v longer new u) :
    node < w.made :=
  (fires.laid.known _ _ fires.here).1

theorem Fires.counted (fires : Fires build run w lists node after v longer new u) :
    Laid (w.countDown node) lists :=
  fires.laid.countDown fires.known

/-- The lists lose the node, and only the node. -/
theorem Fires.mem_iff (fires : Fires build run w lists node after v longer new u)
    (other slot : Nat) : other ∈ Function.update longer w.curSlot (new ++ after) slot ↔
      other ∈ longer slot ∧ other ≠ node :=
  fires.grown.laid.mem_remove fires.grownShape other slot

/-- The execution is recorded for the node's timer. -/
theorem Fires.executions (fires : Fires build run w lists node after v longer new u)
    (timer : Nat) : u.executions timer =
      w.executions timer ++ if (w.node node).timer = timer then [w.ticks] else [] := by
  have fired : u.fired = w.fired ++ [(node, w.ticks)] :=
    fires.unlinked.fired.trans fires.grown.fired
  have old : (w.fired.filter fun firing => (u.node firing.1).timer = timer) =
      w.fired.filter fun firing => (w.node firing.1).timer = timer :=
    List.filter_congr fun firing member => by
      rw [fires.moved.timers _ (fires.laid.fired firing member)]
  unfold TimerWheel.executions
  rw [fired, List.filter_append, List.map_append, old]
  congr 1
  rw [List.filter_singleton, fires.moved.timers _ fires.known]
  split <;> simp_all

/-- What the execution and the insertion anew consist of, for a callback that does nothing to a
timer. -/
theorem Fires.stages (fires : Fires build run w lists node after v longer new u) {timer : Nat}
    (quiet : Quiet timer run.steps) :
    ∃ called between value, Grown (w.countDown node) lists called between ∧
      Apart timer (w.countDown node) called ∧
      value.executeCount = (called.timer (w.node node).timer).executeCount ∧
      value.interval = (called.timer (w.node node).timer).interval ∧
      (if 0 < value.executeCount then
        (called.setTimer (w.node node).timer value).insert (w.node node).timer = .ok v
      else v = called.setTimer (w.node node).timer value) := by
  obtain ⟨executed, execution, reinserted⟩ := bind_eq_ok fires.returned
  simp only [execute] at execution
  split at execution
  · cases execution
  · obtain ⟨called, steps, stamped⟩ := bind_eq_ok execution
    obtain ⟨between, grown, apart⟩ := runSteps_apart fires.counted fires.positive quiet steps
    obtain rfl := Except.ok.inj stamped
    refine ⟨called, between, { called.timer (w.node node).timer with
      expiration := run.reading + (called.timer (w.node node).timer).interval }, grown, apart, rfl,
      rfl, ?_⟩
    have sameTimer : (called.node node).timer = (w.node node).timer :=
      (grown.data node fires.known).2
    unfold reinsert at reinserted
    have written : ∀ value, (called.setTimer (w.node node).timer value).node = called.node :=
      fun _ => rfl
    have stored : ∀ value, (called.setTimer (w.node node).timer value).timer (w.node node).timer =
        value := fun value => Function.update_self _ _ _
    rw [written, sameTimer, stored] at reinserted
    split at reinserted
    · rename_i more
      rw [if_pos more]
      exact reinserted
    · rename_i last
      rw [if_neg last]
      exact (Except.ok.inj reinserted).symm

/-- What runs for another timer leaves a timer as it is. -/
theorem Fires.apart (fires : Fires build run w lists node after v longer new u) {timer : Nat}
    (quiet : Quiet timer run.steps) (different : (w.node node).timer ≠ timer) :
    Apart timer (w.countDown node) v := by
  obtain ⟨called, between, value, grown, apart, -, -, last⟩ := fires.stages quiet
  have stamped : Grown called between (called.setTimer (w.node node).timer value) between :=
    grown_of_setTimer grown.laid _ _
  have kept := apart.trans (setTimer_apart called different value) stamped
  split at last
  · have positive : 0 < (called.setTimer (w.node node).timer value).maxSlots := by
      rw [stamped.maxSlots, grown.maxSlots]
      exact fires.positive
    obtain ⟨-, grows, -⟩ := insert_eq_ok stamped.laid positive last
    exact kept.trans (insert_apart stamped.laid positive different last) grows
  · rw [last]
    exact kept

/-- The nodes of a timer behind a run of another one. -/
theorem Fires.held_iff (fires : Fires build run w lists node after v longer new u) {timer : Nat}
    (apart : Apart timer (w.countDown node) v) (other : Nat) :
    Held u (Function.update longer w.curSlot (new ++ after)) timer other ↔
      Held w lists timer other ∧ other ≠ node := by
  have held : Held v longer timer other ↔ Held w lists timer other :=
    fires.grown.held_iff fires.counted apart other
  rw [← held]
  unfold Held
  rw [(fires.unlinked.data other).2]
  simp only [fires.mem_iff]
  tauto

theorem Fires.tracks_other (fires : Fires build run w lists node after v longer new u)
    {timer period : Nat} {s : Schedule} (quiet : Quiet timer run.steps)
    (different : (w.node node).timer ≠ timer)
    (tracks : Tracks timer period w lists (node :: after) (w.ticks + 1) s) :
    Tracks timer period u (Function.update longer w.curSlot (new ++ after)) after
      (w.ticks + 1) s := by
  have apart := fires.apart quiet different
  have same : u.timer timer = w.timer timer := by
    rw [fires.timer, apart.same]
    exact Function.update_of_ne different.symm _ _
  have moved := fires.moved
  refine ⟨?_, ?_, ?_, tracks.waits.keep (fun other => ?_) moved.keeps, fun task member => ?_⟩
  · rw [fires.executions, if_neg different, List.append_nil]
    exact tracks.ran
  · rw [same]
    exact tracks.left
  · rw [period_congr moved.maxSlots moved.si (congrArg Timer.interval same)]
    exact tracks.every
  · rw [fires.held_iff apart, and_iff_left_iff_imp]
    rintro ⟨-, isTimer⟩ rfl
    exact different isTimer
  · rw [moved.tasks] at member
    rw [moved.timers _ (fires.laid.queued task member).1]
    exact tracks.tasks task member

/-- A node that runs is the one its timer waits with, and runs in the tick it is due. -/
theorem Fires.due (fires : Fires build run w lists node after v longer new u)
    {timer period : Nat} {s : Schedule} (isTimer : (w.node node).timer = timer)
    (tracks : Tracks timer period w lists (node :: after) (w.ticks + 1) s) :
    s.next = some w.ticks ∧ ∀ other, Held w lists timer other → other = node := by
  have waits := tracks.waits
  have held : Held w lists timer node := ⟨⟨_, fires.here⟩, isTimer⟩
  cases next : s.next with
  | none =>
    rw [next] at waits
    exact absurd held (waits node)
  | some due =>
    rw [next] at waits
    obtain ⟨holder, -, only, isDue⟩ := waits
    obtain rfl := only node held
    refine ⟨?_, only⟩
    cases isDue with
    | pending slot member unfired tick =>
      obtain rfl := fires.laid.apart slot w.curSlot node member fires.here
      rw [w.wait_ahead List.mem_cons_self, fires.spent] at tick
      rw [tick]
      simp
    | gone outside => exact absurd fires.here (outside _)

/-- The slot of a timer that is inserted, seen from the current slot. -/
theorem distance_delay (w : TimerWheel) (timer : Nat) (positive : 0 < w.maxSlots)
    (inside : w.curSlot < w.maxSlots) :
    w.distance ((w.curSlot + w.delay timer % w.maxSlots) % w.maxSlots) =
      w.delay timer % w.maxSlots := by
  have computed := w.distance_eq w.curSlot 0 (w.delay timer % w.maxSlots) inside positive
    (Nat.mod_lt _ positive) (Nat.mod_eq_of_lt inside).symm
  rwa [if_pos (Nat.zero_le _), Nat.sub_zero] at computed

/-- A node that is inserted while the walk has passed the front of the current slot's list waits
for the ticks of the timer, and a whole round more if it lands in the current slot. -/
theorem wait_delay (w : TimerWheel) (timer node : Nat) {ahead : List Nat} (passed : node ∉ ahead)
    (positive : 0 < w.maxSlots) (inside : w.curSlot < w.maxSlots) :
    w.wait ahead ((w.curSlot + w.delay timer % w.maxSlots) % w.maxSlots) node +
      w.delay timer / w.maxSlots * w.maxSlots = w.period timer := by
  have near := w.distance_delay timer positive inside
  have parts := Nat.mod_add_div' (w.delay timer) w.maxSlots
  unfold period
  by_cases whole : w.maxSlots ∣ w.delay timer
  · have none := Nat.mod_eq_zero_of_dvd whole
    rw [none, Nat.add_zero, Nat.mod_eq_of_lt inside, w.wait_passed passed, if_pos whole]
    omega
  · have some : w.delay timer % w.maxSlots ≠ 0 := fun none => whole (Nat.dvd_of_mod_eq_zero none)
    rw [if_neg whole]
    unfold wait
    rw [if_neg]
    · omega
    · rintro ⟨same, -⟩
      rw [same] at near
      unfold distance at near
      rw [if_pos (le_refl _), Nat.sub_self] at near
      exact some near.symm

/-- A timer that is inserted again behind its run waits with the new node. -/
theorem Fires.waits_again (fires : Fires build run w lists node after v longer new u)
    {again : TimerWheel} {between : Nat → List Nat} {timer : Nat}
    (grown : Grown (w.countDown node) lists again between)
    (gone : ∀ other slot, other ∈ between slot → other ≠ node → (again.node other).timer ≠ timer)
    (inserted : again.insert timer = .ok v) :
    Waits u (Function.update longer w.curSlot (new ++ after)) after (w.ticks + 1) timer
      (some (w.ticks + again.period timer)) := by
  have positive : 0 < again.maxSlots := by
    rw [grown.maxSlots]
    exact fires.positive
  have inside : again.curSlot < again.maxSlots := by
    rw [grown.maxSlots, grown.curSlot]
    exact fires.inside
  obtain ⟨-, grows, made, rotation, isAgain⟩ := insert_eq_ok grown.laid positive inserted
  obtain rfl := fires.grown.laid.unique grows.laid
  have late : node < again.made := fires.known.trans_le grown.made
  have member : again.made ∈ Function.update between
      ((again.curSlot + again.delay timer % again.maxSlots) % again.maxSlots)
      (again.made :: between ((again.curSlot + again.delay timer % again.maxSlots) % again.maxSlots))
      ((again.curSlot + again.delay timer % again.maxSlots) % again.maxSlots) := by
    rw [Function.update_self]
    exact List.mem_cons_self
  have listed := (fires.mem_iff again.made _).mpr ⟨member, late.ne'⟩
  refine ⟨again.made, ⟨⟨_, listed⟩, (fires.unlinked.data _).2.trans isAgain⟩, ?_, ?_⟩
  · rintro other ⟨⟨slot, there⟩, isOther⟩
    obtain ⟨inner, different⟩ := (fires.mem_iff other slot).mp there
    by_contra another
    have known : other < again.made := by
      have bound : other < again.made + 1 := made ▸ (grows.laid.known slot other inner).1
      exact lt_of_le_of_ne (Nat.lt_succ_iff.mp bound) another
    rw [(fires.unlinked.data other).2, (grows.data other known).2] at isOther
    exact gone other slot ((grows.members known slot).mpr inner) different isOther
  · refine .pending _ listed ?_ ?_
    · rw [firings_congr (fires.unlinked.fired.trans fires.grown.fired)]
      exact firings_eq_nil fires.counted grown.made
    · have passed : again.made ∉ after := by
        obtain ⟨before, shape⟩ := fires.shape
        intro behind
        have old : again.made ∈ lists w.curSlot := by
          rw [shape]
          simp [behind]
        exact absurd (fires.laid.known _ _ old).1 (not_lt.mpr grown.made)
      have maxSlots : u.maxSlots = again.maxSlots := fires.unlinked.maxSlots.trans grows.maxSlots
      have curSlot : u.curSlot = again.curSlot := fires.unlinked.curSlot.trans grows.curSlot
      rw [wait_congr maxSlots curSlot Iff.rfl, (fires.unlinked.data _).1, rotation, maxSlots,
        fires.moved.ticks, Nat.add_assoc, wait_delay again timer again.made passed positive inside]

/-- A timer that runs is inserted again if its count is positive, and is gone else. -/
theorem Fires.tracks_self (fires : Fires build run w lists node after v longer new u)
    {timer period : Nat} {s : Schedule} (quiet : Quiet timer run.steps)
    (isTimer : (w.node node).timer = timer)
    (tracks : Tracks timer period w lists (node :: after) (w.ticks + 1) s) :
    Tracks timer period u (Function.update longer w.curSlot (new ++ after)) after
      (w.ticks + 1) (s.fire period w.ticks) := by
  obtain ⟨called, between, value, grown, apart, count, interval, last⟩ := fires.stages quiet
  have moved := fires.moved
  have only := (fires.due isTimer tracks).2
  rw [isTimer] at count interval last
  have down : (w.countDown node).timer timer = { w.timer timer with
      executeCount := (s.fire period w.ticks).left } := by
    subst isTimer
    simp only [Schedule.fire, ← tracks.left]
    exact Function.update_self _ _ _
  rw [apart.same, down] at count interval
  have count : value.executeCount =
      if s.left ≠ Timer.forever then s.left - 1 else s.left := count
  have stamped : Grown (w.countDown node) lists (called.setTimer timer value) between :=
    grown.trans (grown_of_setTimer grown.laid _ _)
  have stored : (called.setTimer timer value).timer timer = value := Function.update_self _ _ _
  have same : u.timer timer = value := by
    rw [fires.timer]
    split at last
    · rw [insert_timer last, stored]
    · rw [last, stored]
  have every : (called.setTimer timer value).period timer = period := by
    rw [← tracks.every]
    exact period_congr stamped.maxSlots stamped.si (by rw [stored, interval])
  -- A node of the timer that was made before is the one that has run.
  have gone : ∀ other slot, other ∈ between slot → other ≠ node →
      (called.node other).timer ≠ timer := by
    intro other slot member different isOther
    have held : Held (w.countDown node) lists timer other :=
      (grown.held_iff fires.counted apart other).mp ⟨⟨slot, member⟩, isOther⟩
    exact different (only other held)
  refine ⟨?_, ?_, ?_, ?_, fun task member => ?_⟩
  · rw [fires.executions, if_pos isTimer, tracks.ran]
    rfl
  · rw [same, count]
    rfl
  · rw [period_congr moved.maxSlots moved.si (by rw [same, interval])]
    exact tracks.every
  · simp only [Schedule.fire, ← count]
    split at last
    · rename_i more
      rw [if_pos more, ← every]
      exact fires.waits_again stamped gone last
    · rename_i finished
      rw [if_neg finished]
      subst last
      obtain rfl := fires.grown.laid.unique stamped.laid
      rintro other ⟨⟨slot, member⟩, isOther⟩
      obtain ⟨inner, different⟩ := (fires.mem_iff other slot).mp member
      exact gone other slot inner different ((fires.unlinked.data other).2.symm.trans isOther)
  · rw [moved.tasks] at member
    rw [moved.timers _ (fires.laid.queued task member).1]
    exact tracks.tasks task member

end

/-! ### The walk of a tick -/

theorem unlink_timer {w v : TimerWheel} {node : Nat} (returned : w.unlink node = .ok v) :
    v.timer = w.timer := by
  unfold unlink at returned
  split at returned
  · obtain rfl := Except.ok.inj returned
    rfl
  · split at returned
    · cases returned
    · simp only at returned
      split at returned <;>
      · obtain rfl := Except.ok.inj returned
        rfl

/-- A node with rotations left does not run. -/
theorem Tracks.rotate {timer period : Nat} {w : TimerWheel} {lists : Nat → List Nat}
    {before after : List Nat} {node : Nat} {s : Schedule} (laid : Laid w lists)
    (shape : lists w.curSlot = before ++ node :: after) (left : 0 < (w.node node).rotation)
    (tracks : Tracks timer period w lists (node :: after) (w.ticks + 1) s) :
    Tracks timer period
      (w.setNode node { w.node node with rotation := (w.node node).rotation - 1 }) lists after
      (w.ticks + 1) s := by
  have moved := moved_of_rotation laid shape left
  have timers : ∀ other, ((w.setNode node { w.node node with
      rotation := (w.node node).rotation - 1 }).node other).timer = (w.node other).timer := by
    intro other
    rw [setNode_node]
    split
    · rename_i same
      rw [same]
    · rfl
  refine ⟨?_, tracks.left, tracks.every, tracks.waits.keep (fun other => ?_) moved.keeps,
    fun task member => ?_⟩
  · refine (executions_congr laid ?_ (fun other _ => timers other) timer).trans tracks.ran
    rfl
  · unfold Held
    rw [timers]
  · rw [timers]
    exact tracks.tasks task member

/-- In the middle of a tick a timer has not run yet, or it has run when it was due. -/
def Tracking (timer period : Nat) (w : TimerWheel) (lists : Nat → List Nat) (ahead : List Nat)
    (s : Schedule) : Prop :=
  Tracks timer period w lists ahead (w.ticks + 1) s ∨
    s.next = some w.ticks ∧
      Tracks timer period w lists ahead (w.ticks + 1) (s.fire period w.ticks)

/-- A timer runs at most once in a tick. -/
theorem Fires.tracking {build : Build} {run : CallbackRun} {w v u : TimerWheel}
    {lists longer : Nat → List Nat} {node : Nat} {after new : List Nat}
    (fires : Fires build run w lists node after v longer new u) {timer period : Nat}
    {s : Schedule} (spaced : 0 < period) (quiet : Quiet timer run.steps)
    (tracking : Tracking timer period w lists (node :: after) s) :
    Tracking timer period u (Function.update longer w.curSlot (new ++ after)) after s := by
  unfold Tracking
  rw [fires.moved.ticks]
  rcases tracking with before | ⟨due, behind⟩
  · by_cases isTimer : (w.node node).timer = timer
    · exact .inr ⟨(fires.due isTimer before).1, fires.tracks_self quiet isTimer before⟩
    · exact .inl (fires.tracks_other quiet isTimer before)
  · refine .inr ⟨due, fires.tracks_other quiet (fun isTimer => ?_) behind⟩
    have again := s.fire_next (fires.due isTimer behind).1
    omega

/-- Behind the run of a node's timer the node is still in the list, and the same nodes are behind
it. -/
theorem inserted_shape {build : Build} {run : CallbackRun} {w executed inserted : TimerWheel}
    {lists : Nat → List Nat} {before after : List Nat} {node : Nat} (laid : Laid w lists)
    (positive : 0 < w.maxSlots) (shape : lists w.curSlot = before ++ node :: after)
    (executes : w.execute build node run = .ok executed)
    (inserts : executed.reinsert node = .ok inserted) :
    ∃ longer new, Grown (w.countDown node) lists inserted longer ∧
      longer inserted.curSlot = (new ++ before) ++ node :: after := by
  have here : node ∈ lists w.curSlot := by
    rw [shape]
    simp
  have returned : (w.execute build node run >>= fun executed => executed.reinsert node) =
      .ok inserted := by
    rw [executes]
    exact inserts
  rcases fire_cases laid positive build node (laid.known _ _ here).1 run with
    ⟨fault, stopped, -⟩ | ⟨inserted', longer, returned', grown⟩
  · rw [stopped] at returned
    cases returned
  · obtain rfl := Except.ok.inj (returned.symm.trans returned')
    obtain ⟨new, longerShape, -⟩ := grown.lists w.curSlot
    refine ⟨longer, new, grown, ?_⟩
    rw [show inserted.curSlot = w.curSlot from grown.curSlot, longerShape, shape,
      List.append_assoc]

/-- A turn of the loop that runs a timer, with the place the loop comes to. -/
theorem fires_of_turn {build : Build} {run : CallbackRun} {w executed inserted unlinked : TimerWheel}
    {lists : Nat → List Nat} {before after : List Nat} {node : Nat} (laid : Laid w lists)
    (positive : 0 < w.maxSlots) (inside : w.curSlot < w.maxSlots)
    (shape : lists w.curSlot = before ++ node :: after) (spent : ¬ 0 < (w.node node).rotation)
    (executes : w.execute build node run = .ok executed)
    (inserts : executed.reinsert node = .ok inserted)
    (unlinks : inserted.unlink node = .ok unlinked) :
    ∃ longer new, (inserted.node node).next = after.head? ∧
      Fires build run w lists node after inserted longer (new ++ before) unlinked := by
  obtain ⟨longer, new, grown, shapeThere⟩ := inserted_shape laid positive shape executes inserts
  obtain ⟨u, unlinks', isUnlinked, relaid⟩ := unlink_eq_ok grown.laid node _ _ shapeThere
  obtain rfl := Except.ok.inj (unlinks.symm.trans unlinks')
  have linkedThere := grown.laid.linked inserted.curSlot
  rw [shapeThere] at linkedThere
  have sameSlot : inserted.curSlot = w.curSlot := grown.curSlot
  rw [sameSlot] at shapeThere relaid
  refine ⟨longer, new, linkedThere.next_eq, laid, positive, inside, ⟨before, shape⟩, by omega, ?_,
    grown, shapeThere, isUnlinked, unlink_timer unlinks, relaid⟩
  rw [executes]
  exact inserts

/-- A turn of the loop of `tick`, under the node it visits: the wheel and the place of the loop
in front of the turn and behind it. -/
inductive Turn (build : Build) (callback : Nat → CallbackRun) :
    TimerWheel × Option Nat → Nat → TimerWheel × Option Nat → Prop
  | rotated (w : TimerWheel) (node : Nat) (left : 0 < (w.node node).rotation) :
      Turn build callback (w, some node) node
        (w.setNode node { w.node node with rotation := (w.node node).rotation - 1 },
          (w.node node).next)
  | ran (w executed inserted unlinked : TimerWheel) (node : Nat)
      (spent : ¬ 0 < (w.node node).rotation)
      (executes : w.execute build node (callback node) = .ok executed)
      (inserts : executed.reinsert node = .ok inserted)
      (unlinks : inserted.unlink node = .ok unlinked) :
      Turn build callback (w, some node) node (unlinked, (inserted.node node).next)

/-- A walk that returns is a run of turns. -/
theorem run_of_walk {build : Build} {callback : Nat → CallbackRun} {fuel : Nat}
    {place : Option Nat} {w v : TimerWheel} (walked : walk build callback fuel place w = .ok v) :
    ∃ seen, Run (Turn build callback) (w, place) seen (v, none) := by
  induction fuel generalizing w place with
  | zero =>
    cases place with
    | none =>
      obtain rfl := Except.ok.inj walked
      exact ⟨[], .nil _⟩
    | some node => cases walked
  | succ fuel inductionHypothesis =>
    cases place with
    | none =>
      obtain rfl := Except.ok.inj walked
      exact ⟨[], .nil _⟩
    | some node =>
      rw [walk] at walked
      split at walked
      · rename_i left
        obtain ⟨seen, rest⟩ := inductionHypothesis walked
        exact ⟨node :: seen, .cons (.rotated w node left) rest⟩
      · rename_i spent
        obtain ⟨executed, executes, walked⟩ := bind_eq_ok walked
        obtain ⟨inserted, inserts, walked⟩ := bind_eq_ok walked
        obtain ⟨unlinked, unlinks, walked⟩ := bind_eq_ok walked
        obtain ⟨seen, rest⟩ := inductionHypothesis walked
        exact ⟨node :: seen, .cons (.ran w _ _ _ node spent executes inserts unlinks) rest⟩

/-- The nodes that the loop of a tick comes to, each with the wheel at that moment; no node when
the loop is over. -/
inductive Visits (build : Build) (callback : Nat → CallbackRun) (start : TimerWheel) :
    TimerWheel → Option Nat → Prop
  | start : Visits build callback start start (start.slots start.curSlot)
  | rotated (w : TimerWheel) (node : Nat) (visits : Visits build callback start w (some node))
      (left : 0 < (w.node node).rotation) :
      Visits build callback start
        (w.setNode node { w.node node with rotation := (w.node node).rotation - 1 })
        (w.node node).next
  | ran (w executed inserted unlinked : TimerWheel) (node : Nat)
      (visits : Visits build callback start w (some node)) (spent : ¬ 0 < (w.node node).rotation)
      (executes : w.execute build node (callback node) = .ok executed)
      (inserts : executed.reinsert node = .ok inserted)
      (unlinks : inserted.unlink node = .ok unlinked) :
      Visits build callback start unlinked (inserted.node node).next

/-- The turns of the loop visit what they come to. -/
theorem Visits.run {build : Build} {callback : Nat → CallbackRun} {start w : TimerWheel}
    {place : Option Nat} (visits : Visits build callback start w place) {seen : List Nat}
    {state : TimerWheel × Option Nat} (turns : Run (Turn build callback) (w, place) seen state) :
    Visits build callback start state.1 state.2 := by
  induction turns with
  | nil => exact visits
  | snoc _ turn inductionHypothesis =>
    cases turn with
    | rotated _ _ left => exact inductionHypothesis.rotated _ _ left
    | ran _ _ _ _ _ spent executes inserts unlinks =>
      exact inductionHypothesis.ran _ _ _ _ _ spent executes inserts unlinks

/-- A walk that returns has visited all nodes. -/
theorem Visits.walk {build : Build} {callback : Nat → CallbackRun} {start w v : TimerWheel}
    {place : Option Nat} (visits : Visits build callback start w place) {fuel : Nat}
    (walked : TimerWheel.walk build callback fuel place w = .ok v) :
    Visits build callback start v none := by
  obtain ⟨seen, turns⟩ := run_of_walk walked
  exact visits.run turns

/-- What every turn of the loop keeps holds wherever the loop comes to. -/
theorem Visits.invariant {build : Build} {callback : Nat → CallbackRun} {start w : TimerWheel}
    {lists : Nat → List Nat} {place : Option Nat}
    (Invariant : TimerWheel → (Nat → List Nat) → List Nat → Prop)
    (rotates : ∀ {w : TimerWheel} {lists : Nat → List Nat} {before after : List Nat} {node : Nat},
      Laid w lists → lists w.curSlot = before ++ node :: after → 0 < (w.node node).rotation →
      Invariant w lists (node :: after) → Invariant
        (w.setNode node { w.node node with rotation := (w.node node).rotation - 1 }) lists after)
    (fires : ∀ {w v u : TimerWheel} {lists longer : Nat → List Nat} {node : Nat}
      {after new : List Nat}, Fires build (callback node) w lists node after v longer new u →
      Invariant w lists (node :: after) →
      Invariant u (Function.update longer w.curSlot (new ++ after)) after)
    (settled : Settled start lists) (begins : Invariant start lists (lists start.curSlot))
    (visits : Visits build callback start w place) :
    ∃ longer before ahead, place = ahead.head? ∧ longer w.curSlot = before ++ ahead ∧
      Moved (start.ticks + 1) start lists (lists start.curSlot) w longer ahead ∧
      Invariant w longer ahead := by
  have startInside : start.curSlot < start.maxSlots := by
    rw [settled.curSlot]
    exact Nat.mod_lt _ settled.positive
  induction visits with
  | start =>
    exact ⟨lists, [], lists start.curSlot, (settled.laid.linked _).head_eq, rfl,
      Moved.refl settled.laid, begins⟩
  | rotated w node _ left inductionHypothesis =>
    obtain ⟨longer, before, ahead, place, shape, moved, holds⟩ := inductionHypothesis
    obtain ⟨after, rfl⟩ := List.head?_eq_some_iff.mp place.symm
    have moves := moved_of_rotation moved.laid shape left
    have linked := moved.laid.linked w.curSlot
    rw [shape] at linked
    rw [moved.ticks] at moves
    refine ⟨longer, before ++ [node], after, linked.next_eq, ?_, moved.trans moves,
      rotates moved.laid shape left holds⟩
    rw [List.append_assoc]
    exact shape
  | ran w executed inserted unlinked node _ spent executes inserts unlinks inductionHypothesis =>
    obtain ⟨lists', before, ahead, place, shape, moved, holds⟩ := inductionHypothesis
    obtain ⟨after, rfl⟩ := List.head?_eq_some_iff.mp place.symm
    have inside : w.curSlot < w.maxSlots := by
      rw [moved.curSlot, moved.maxSlots]
      exact startInside
    obtain ⟨longer, new, nextNode, fires'⟩ :=
      fires_of_turn moved.laid (by omega) inside shape spent executes inserts unlinks
    have moves := fires'.moved
    rw [moved.ticks] at moves
    refine ⟨_, new ++ before, after, nextNode, ?_, moved.trans moves, fires fires' holds⟩
    rw [moves.curSlot, Function.update_self]

/-! ### One step -/

/-- When the walk is over, what is linked is due in a later tick. -/
theorem Due.later {w : TimerWheel} {lists : Nat → List Nat} {begun node due slot : Nat}
    (laid : Laid w lists) (inside : w.curSlot < w.maxSlots) (member : node ∈ lists slot)
    (isDue : Due w lists [] begun node due) : w.ticks < due := by
  cases isDue with
  | pending slot member unfired tick =>
    have slotInside := (laid.known slot node member).2
    have waits : 0 < w.wait [] slot node := by
      unfold wait distance
      split
      · omega
      · rename_i ahead
        have other : slot ≠ w.curSlot := fun same => ahead ⟨same, List.not_mem_nil⟩
        split <;> omega
    omega
  | gone outside => exact absurd member (outside slot)

/-- A tick of the wheel is a tick of the schedule. -/
theorem tick_tracks {build : Build} {callback : Nat → CallbackRun} {w v : TimerWheel}
    {lists : Nat → List Nat} {timer period : Nat} {s : Schedule} (spaced : 0 < period)
    (quiet : ∀ node, Quiet timer (callback node).steps) (settled : Settled w lists)
    (returned : w.tick build callback = .ok v)
    (tracks : Tracks timer period w lists (lists w.curSlot) w.ticks s) :
    ∃ longer, Kept w lists v longer ∧ v.ticks = w.ticks + 1 ∧
      Tracks timer period v longer (longer v.curSlot) v.ticks (s.tick period w.ticks) := by
  have inside : w.curSlot < w.maxSlots := by
    rw [settled.curSlot]
    exact Nat.mod_lt _ settled.positive
  obtain ⟨walked, walks, last⟩ := bind_eq_ok returned
  obtain rfl := Except.ok.inj last
  have begun : Tracks timer period w lists (lists w.curSlot) (w.ticks + 1) s :=
    { tracks with waits := tracks.waits.keep (fun _ => Iff.rfl) fun _ _ isDue => isDue.begin }
  obtain ⟨longer, -, ahead, atEnd, -, moved, tracking⟩ := Visits.invariant
    (fun v others ahead => Tracking timer period v others ahead s)
    (fun laid shape left tracking => tracking.imp (Tracks.rotate laid shape left)
      (And.imp_right (Tracks.rotate laid shape left)))
    (fun fires tracking => fires.tracking spaced (quiet _) tracking) settled (.inl begun)
    (Visits.start.walk walks)
  obtain rfl := List.head?_eq_none_iff.mp atEnd.symm
  have insideThere : walked.curSlot < walked.maxSlots := by
    rw [moved.curSlot, moved.maxSlots]
    exact inside
  have ticks : walked.ticks = w.ticks := moved.ticks
  have ticked : Tracks timer period walked longer [] (walked.ticks + 1) (s.tick period w.ticks) := by
    rw [← ticks]
    unfold Schedule.tick
    rcases tracking with before | ⟨due, behind⟩
    · rw [if_neg]
      · exact before
      · intro due
        have waits := before.waits
        rw [due] at waits
        obtain ⟨node, ⟨⟨slot, member⟩, -⟩, -, isDue⟩ := waits
        exact absurd (isDue.later moved.laid insideThere member) (lt_irrefl _)
    · rw [if_pos due]
      exact behind
  refine ⟨longer, kept_of_walk settled inside moved, congrArg (· + 1) ticks, ?_⟩
  exact ⟨ticked.ran, ticked.left, ticked.every, ticked.waits.keep (fun _ => Iff.rfl)
    (fun _ _ isDue => isDue.advance moved.laid insideThere), ticked.tasks⟩

/-- A step is not about a timer, and neither is what callbacks do in it. -/
def Untouched (timer : Nat) : WheelAction → Prop
  | .insert other | .insertElsewhere other | .setRemainCount other _ => other ≠ timer
  | .runTask _ => True
  | .tick callback => ∀ node, Quiet timer (callback node).steps

/-- Between two ticks a linked node is one whose tick is not over. -/
theorem Due.linked_iff {w : TimerWheel} {lists : Nat → List Nat} {ahead : List Nat}
    {node due : Nat} (isDue : Due w lists ahead w.ticks node due) :
    (∃ slot, node ∈ lists slot) ↔ w.ticks ≤ due := by
  cases isDue with
  | pending slot member unfired tick => exact iff_of_true ⟨slot, member⟩ (by omega)
  | gone outside past =>
    exact iff_of_false (fun ⟨slot, member⟩ => outside slot member) (not_le.mpr past)

/-- What a step other than a tick keeps when it is about other timers. -/
theorem Tracks.kept {timer period : Nat} {w v : TimerWheel} {lists longer : Nat → List Nat}
    {s : Schedule} (tracks : Tracks timer period w lists (lists w.curSlot) w.ticks s)
    (settled : Settled w lists) (kept : Kept w lists v longer) (ticks : v.ticks = w.ticks)
    (fired : v.fired = w.fired) (apart : Apart timer w v) :
    Tracks timer period v longer (longer v.curSlot) v.ticks s := by
  have held : ∀ node, Held v longer timer node ↔ Held w lists timer node := by
    intro node
    by_cases old : node < w.made
    · unfold Held
      rw [kept.timers node old]
      refine and_congr_left fun isTimer => ?_
      obtain ⟨due, isDue⟩ := settled.due node old fun task member same =>
        tracks.tasks task member (same ▸ isTimer)
      rw [isDue.linked_iff, (kept.keeps node due isDue).linked_iff, ticks]
    · refine iff_of_false ?_ ?_
      · rintro ⟨⟨slot, member⟩, isTimer⟩
        exact apart.fresh node (not_lt.mp old) (kept.settled.laid.known slot node member).1 isTimer
      · rintro ⟨⟨slot, member⟩, -⟩
        exact old (settled.laid.known slot node member).1
  refine ⟨?_, ?_, ?_, tracks.waits.keep held kept.keeps, fun task member => ?_⟩
  · rw [executions_congr settled.laid fired kept.timers]
    exact tracks.ran
  · rw [apart.same]
    exact tracks.left
  · rw [period_congr kept.maxSlots kept.si (congrArg Timer.interval apart.same)]
    exact tracks.every
  · by_cases old : task.2 < w.made
    · rw [kept.timers _ old]
      exact tracks.tasks task (kept.tasks task member old).1
    · exact apart.fresh _ (not_lt.mp old) (kept.settled.laid.queued task member).1

theorem insertElsewhere_apart {w v : TimerWheel} {timer other : Nat} (different : other ≠ timer)
    (returned : w.insertElsewhere other = .ok v) : v.fired = w.fired ∧ Apart timer w v := by
  obtain ⟨u, isPrepared, queued⟩ := bind_eq_ok returned
  have prepared := prepared_of_prepare isPrepared
  obtain rfl := Except.ok.inj queued
  refine ⟨prepared.fired, congrFun prepared.timers timer, fun node low high => ?_⟩
  have high : node < w.made + 1 := prepared.made ▸ high
  obtain rfl : node = w.made := Nat.le_antisymm (Nat.lt_succ_iff.mp high) low
  show (u.node w.made).timer ≠ timer
  rw [prepared.new]
  exact different

theorem runTask_apart {build : Build} {w v : TimerWheel} {timer node : Nat}
    (stepped : step build w (.runTask node) = some v) : v.fired = w.fired ∧ Apart timer w v := by
  simp only [step] at stepped
  split at stepped
  · rename_i ts _ _
    obtain rfl := Option.some.inj stepped
    obtain ⟨-, -, -, made, timers, -, -, fired⟩ := link_rest w ts node
    exact ⟨fired, congrFun timers timer, fun other low high =>
      absurd (high.trans_eq made) (not_lt.mpr low)⟩
  · cases stepped

/-- What a step does to the schedule of a timer it is not about. -/
def scheduleStep (period now : Nat) (s : Schedule) : WheelAction → Schedule
  | .tick _ => s.tick period now
  | _ => s

theorem step_tracks {build : Build} {w v : TimerWheel} {lists : Nat → List Nat}
    {timer period : Nat} {s : Schedule} {action : WheelAction} (spaced : 0 < period)
    (untouched : Untouched timer action) (settled : Settled w lists)
    (stepped : step build w action = some v)
    (tracks : Tracks timer period w lists (lists w.curSlot) w.ticks s) :
    ∃ longer, Kept w lists v longer ∧
      Tracks timer period v longer (longer v.curSlot) v.ticks
        (scheduleStep period w.ticks s action) ∧
      v.ticks = w.ticks + match action with | .tick _ => 1 | _ => 0 := by
  cases action with
  | insert other =>
    have returned : w.insert other = .ok v := toOption_eq_some stepped
    obtain ⟨-, grown, -⟩ := insert_eq_ok settled.laid settled.positive returned
    have kept := kept_of_grown settled grown
    exact ⟨_, kept, tracks.kept settled kept grown.ticks grown.fired
      (insert_apart settled.laid settled.positive untouched returned), grown.ticks⟩
  | insertElsewhere other =>
    have returned : w.insertElsewhere other = .ok v := toOption_eq_some stepped
    obtain ⟨-, kept, -, -, -, ticks⟩ := insertElsewhere_eq_ok settled returned
    obtain ⟨fired, apart⟩ := insertElsewhere_apart untouched returned
    exact ⟨lists, kept, tracks.kept settled kept ticks fired apart, ticks⟩
  | runTask node =>
    obtain ⟨-, longer, -, kept, ticks, -⟩ := runTask_eq_some settled stepped
    obtain ⟨fired, apart⟩ := runTask_apart stepped
    exact ⟨longer, kept, tracks.kept settled kept ticks fired apart, ticks⟩
  | setRemainCount other count =>
    obtain rfl := Option.some.inj stepped
    have kept := kept_of_grown settled
      (grown_of_setTimer settled.laid other { w.timer other with executeCount := count })
    exact ⟨lists, kept, tracks.kept settled kept rfl rfl (setTimer_apart w untouched _), rfl⟩
  | tick callback =>
    have returned : w.tick build callback = .ok v := toOption_eq_some stepped
    obtain ⟨longer, kept, ticks, tracked⟩ := tick_tracks spaced untouched settled returned tracks
    exact ⟨longer, kept, tracked, ticks⟩

/-! ### Whole runs -/

theorem run_tracks {build : Build} {w v : TimerWheel} {lists : Nat → List Nat}
    {timer period : Nat} {s : Schedule} {actions : List WheelAction} (spaced : 0 < period)
    (untouched : ∀ action ∈ actions, Untouched timer action) (settled : Settled w lists)
    (run : Run (StepOf (step build)) w actions v)
    (tracks : Tracks timer period w lists (lists w.curSlot) w.ticks s) :
    ∃ longer, Kept w lists v longer ∧
      Tracks timer period v longer (longer v.curSlot) v.ticks
        (s.after period w.ticks (v.ticks - w.ticks)) := by
  induction run with
  | nil =>
    refine ⟨lists, Kept.refl settled, ?_⟩
    rw [Nat.sub_self]
    exact tracks
  | snoc _ last inductionHypothesis =>
    obtain ⟨longer, kept, tracked⟩ := inductionHypothesis fun action member =>
      untouched action (List.mem_append_left _ member)
    obtain ⟨longest, next, tracks, ticks⟩ := step_tracks spaced
      (untouched _ (List.mem_append_right _ (List.mem_singleton_self _))) kept.settled last tracked
    refine ⟨longest, kept.trans next, ?_⟩
    have later := kept.ticks
    rename_i middle final _ action _
    cases action with
    | tick callback =>
      have one : final.ticks - w.ticks = (middle.ticks - w.ticks) + 1 := by
        simp only at ticks
        omega
      rw [one, Schedule.after, Nat.add_sub_cancel' later]
      exact tracks
    | insert | insertElsewhere | runTask | setRemainCount =>
      simp only [Nat.add_zero] at ticks
      rw [ticks]
      rw [ticks] at tracks
      exact tracks

/-- A node of a timer is on the wheel: the list of some slot leads to it. -/
def OnWheel (w : TimerWheel) (timer node : Nat) : Prop :=
  (∃ slot, LinkedList.Reached w.next (w.slots slot) node) ∧ (w.node node).timer = timer

/-- A timer is on the wheel once, and no task is to link it. -/
structure ScheduledOnce (w : TimerWheel) (timer : Nat) : Prop where
  once : ∃ node, OnWheel w timer node ∧ ∀ other, OnWheel w timer other → other = node
  unqueued : ∀ task ∈ w.tasks, (w.node task.2).timer ≠ timer

theorem onWheel_iff {w : TimerWheel} {lists : Nat → List Nat} (laid : Laid w lists)
    (timer node : Nat) : OnWheel w timer node ↔ Held w lists timer node :=
  and_congr_left fun _ => exists_congr fun slot =>
    LinkedList.reached_iff (laid.linked slot).visits node

/-- A timer that is not on the wheel is there once when it is inserted. -/
theorem insert_scheduledOnce {w v : TimerWheel} {lists : Nat → List Nat} {timer : Nat}
    (settled : Settled w lists) (absent : ∀ node, ¬ OnWheel w timer node)
    (unqueued : ∀ task ∈ w.tasks, (w.node task.2).timer ≠ timer)
    (returned : w.insert timer = .ok v) : ScheduledOnce v timer := by
  obtain ⟨-, grown, made, -, isTimer⟩ := insert_eq_ok settled.laid settled.positive returned
  obtain ⟨slot, member⟩ := grown.more w.made (le_refl _) (made ▸ Nat.lt_succ_self _)
  refine ⟨⟨w.made, (onWheel_iff grown.laid timer _).mpr ⟨⟨slot, member⟩, isTimer⟩,
    fun other on => ?_⟩, fun task waiting => ?_⟩
  · obtain ⟨⟨place, there⟩, isOther⟩ := (onWheel_iff grown.laid timer other).mp on
    by_contra different
    have known : other < w.made := by
      have bound := (grown.laid.known place other there).1
      omega
    rw [(grown.data other known).2] at isOther
    exact absent other ((onWheel_iff settled.laid timer other).mpr
      ⟨⟨place, (grown.members known place).mpr there⟩, isOther⟩)
  · rw [grown.tasks] at waiting
    rw [(grown.data _ (settled.laid.queued task waiting).1).2]
    exact unqueued task waiting

/-- A timer that is on the wheel once is tracked from here on. -/
theorem ScheduledOnce.tracks {w : TimerWheel} {lists : Nat → List Nat} {timer : Nat}
    (scheduled : ScheduledOnce w timer) (settled : Settled w lists) :
    ∃ first, w.ticks ≤ first ∧ Tracks timer (w.period timer) w lists (lists w.curSlot) w.ticks
      ⟨w.executions timer, (w.timer timer).executeCount, some first⟩ := by
  obtain ⟨node, on, only⟩ := scheduled.once
  have held := (onWheel_iff settled.laid timer node).mp on
  obtain ⟨⟨slot, member⟩, isTimer⟩ := held
  obtain ⟨due, isDue⟩ := settled.due node (settled.laid.known slot node member).1
    fun task waiting same => scheduled.unqueued task waiting (same ▸ isTimer)
  refine ⟨due, isDue.linked_iff.mp ⟨slot, member⟩, rfl, rfl, rfl,
    ⟨node, ⟨⟨slot, member⟩, isTimer⟩, fun other there => ?_, isDue⟩, scheduled.unqueued⟩
  exact only other ((onWheel_iff settled.laid timer other).mpr there)

theorem period_pos {w : TimerWheel} (timer : Nat) (spaced : 0 < w.si) : 0 < w.period timer := by
  have ahead : 0 < w.delay timer := by
    unfold delay ticksOf
    split
    · exact Nat.one_pos
    · rename_i more
      have atLeast : 1 ≤ toInt (w.timer timer).interval / w.si :=
        (Int.le_ediv_iff_mul_le spaced).mpr (by omega)
      omega
  unfold period
  omega

/-- What a run leaves of a timer with a finite count. -/
theorem run_finite {w : TimerWheel} {lists : Nat → List Nat} {timer count : Nat}
    (build : Build) (spaced : 0 < w.si) (scheduled : ScheduledOnce w timer)
    (settled : Settled w lists) (isCount : (w.timer timer).executeCount = count)
    (positive : 0 < count) :
    ∃ first, w.ticks ≤ first ∧ ∀ actions v, Run (StepOf (step build)) w actions v →
      (∀ action ∈ actions, Untouched timer action) →
      ∃ done ≤ count, v.executions timer = w.executions timer ++
          (List.range done).map (fun index => first + index * w.period timer) ∧
        (∀ index < done, first + index * w.period timer < v.ticks) ∧
        (done < count → v.ticks ≤ first + done * w.period timer) ∧
        ((∃ node, v.OnWheel timer node) ↔ done < count) := by
  obtain ⟨first, ahead, tracks⟩ := scheduled.tracks settled
  refine ⟨first, ahead, fun actions v run untouched => ?_⟩
  have start : (⟨w.executions timer, (w.timer timer).executeCount, some first⟩ : Schedule) =
      Schedule.partway (w.executions timer) count first (w.period timer) 0 := by
    simp [Schedule.partway, isCount, positive]
  rw [start] at tracks
  obtain ⟨longer, kept, tracked⟩ := run_tracks (period_pos timer spaced) untouched settled run tracks
  obtain ⟨done, within, shape, past, future⟩ := Schedule.after_partway (w.executions timer) count
    first (w.period timer) w.ticks (v.ticks - w.ticks) ahead (period_pos timer spaced)
  rw [Nat.add_sub_cancel' kept.ticks] at past future
  rw [shape] at tracked
  refine ⟨done, within, tracked.ran, past, future, ?_⟩
  have waits := tracked.waits
  simp only [onWheel_iff kept.settled.laid]
  simp only [Schedule.partway] at waits
  split at waits
  · rename_i more
    obtain ⟨node, held, -⟩ := waits
    exact iff_of_true ⟨node, held⟩ more
  · rename_i finished
    exact iff_of_false (fun ⟨node, held⟩ => waits node held) finished

/-- What a run leaves of a timer that is to run forever. -/
theorem run_forever {w : TimerWheel} {lists : Nat → List Nat} {timer : Nat} (build : Build)
    (spaced : 0 < w.si) (scheduled : ScheduledOnce w timer) (settled : Settled w lists)
    (forever : (w.timer timer).executeCount = Timer.forever) :
    ∃ first, w.ticks ≤ first ∧ ∀ actions v, Run (StepOf (step build)) w actions v →
      (∀ action ∈ actions, Untouched timer action) →
      v.executions timer = w.executions timer ++ (if first < v.ticks then [first] else []) ∧
        ((∃ node, v.OnWheel timer node) ↔ v.ticks ≤ first) := by
  obtain ⟨first, ahead, tracks⟩ := scheduled.tracks settled
  refine ⟨first, ahead, fun actions v run untouched => ?_⟩
  rw [forever] at tracks
  obtain ⟨longer, kept, tracked⟩ := run_tracks (period_pos timer spaced) untouched settled run tracks
  rw [Schedule.after_forever _ _ _ _ _ ahead, Nat.add_sub_cancel' kept.ticks] at tracked
  simp only [onWheel_iff kept.settled.laid]
  split at tracked
  · rename_i past
    rw [if_pos past]
    exact ⟨tracked.ran, iff_of_false (fun ⟨node, held⟩ => tracked.waits node held)
      (not_le.mpr past)⟩
  · rename_i future
    rw [if_neg future, List.append_nil]
    obtain ⟨node, held, -⟩ := tracked.waits
    exact ⟨tracked.ran, iff_of_true ⟨node, held⟩ (not_lt.mp future)⟩

/-! ### The ticks of a timer that runs again -/

/-- The ticks in which a timer is to run: a number of times, one period apart, as far as the ticks
have gone. -/
def runsBy (first period count now : Nat) : List Nat :=
  ((List.range count).map fun index => first + index * period).filter (· < now)

theorem runsBy_eq {first period count now done : Nat} (within : done ≤ count)
    (past : ∀ index < done, first + index * period < now)
    (future : done < count → now ≤ first + done * period) :
    runsBy first period count now = (List.range done).map fun index => first + index * period := by
  obtain ⟨rest, rfl⟩ := Nat.exists_eq_add_of_le within
  unfold runsBy
  rw [List.range_add, List.map_append, List.filter_append]
  have early : ((List.range done).map fun index => first + index * period).filter (· < now) =
      (List.range done).map fun index => first + index * period := by
    refine List.filter_eq_self.mpr fun tick member => ?_
    obtain ⟨index, inside, rfl⟩ := List.mem_map.mp member
    exact decide_eq_true (past index (List.mem_range.mp inside))
  have late : (((List.range rest).map (done + ·)).map fun index =>
      first + index * period).filter (· < now) = [] := by
    refine List.filter_eq_nil_iff.mpr fun tick member => ?_
    simp only [List.map_map, List.mem_map, List.mem_range, Function.comp] at member
    obtain ⟨index, inside, rfl⟩ := member
    have bound : done * period ≤ (done + index) * period :=
      Nat.mul_le_mul_right _ (Nat.le_add_right _ _)
    have limit := future (by omega)
    simp only [decide_eq_true_eq, not_lt]
    omega
  rw [early, late, List.append_nil]

theorem mem_runsBy (first period count now tick : Nat) :
    tick ∈ runsBy first period count now ↔
      ∃ index < count, first + index * period = tick ∧ tick < now := by
  simp only [runsBy, List.mem_filter, List.mem_map, List.mem_range, decide_eq_true_eq]
  constructor
  · rintro ⟨⟨index, inside, shape⟩, past⟩
    exact ⟨index, inside, shape, past⟩
  · rintro ⟨index, inside, shape, past⟩
    exact ⟨⟨index, inside, shape⟩, past⟩

/-- With a second run in the past, the ticks tell the period. -/
theorem not_lt_of_runsBy_eq {first shorter longer count now : Nat} (positive : 0 < shorter)
    (repeats : 2 ≤ count) (past : first + shorter < now)
    (same : runsBy first shorter count now = runsBy first longer count now) :
    ¬ shorter < longer := by
  intro less
  have second : first + shorter ∈ runsBy first shorter count now :=
    (mem_runsBy _ _ _ _ _).mpr ⟨1, by omega, by rw [Nat.one_mul], past⟩
  rw [same] at second
  obtain ⟨index, -, shape, -⟩ := (mem_runsBy _ _ _ _ _).mp second
  have whole : index * longer = shorter := by omega
  rcases Nat.eq_zero_or_pos index with rfl | some
  · omega
  · have bound := Nat.le_mul_of_pos_left longer some
    omega

/-- Before the second run the period does not matter. -/
theorem runsBy_of_le {first period count now : Nat} (repeats : 2 ≤ count)
    (early : now ≤ first + period) :
    runsBy first period count now = if first < now then [first] else [] := by
  split
  · rename_i past
    rw [runsBy_eq (show 1 ≤ count by omega) ?_ fun _ => by rwa [Nat.one_mul]]
    · simp
    · intro index inside
      obtain rfl : index = 0 := by omega
      rwa [Nat.zero_mul]
  · rename_i future
    rw [runsBy_eq (Nat.zero_le _) nofun fun _ => by simpa using future]
    rfl

theorem runsBy_eq_iff {first period other count now : Nat} (positive : 0 < period)
    (otherPositive : 0 < other) (repeats : 2 ≤ count) :
    runsBy first period count now = runsBy first other count now ↔
      period = other ∨ now ≤ first + min period other := by
  constructor
  · intro same
    by_contra neither
    obtain ⟨different, late⟩ := not_or.mp neither
    rcases lt_or_gt_of_ne different with less | greater
    · exact not_lt_of_runsBy_eq positive repeats (by omega) same less
    · exact not_lt_of_runsBy_eq otherPositive repeats (by omega) same.symm greater
  · rintro (rfl | early)
    · rfl
    · rw [runsBy_of_le repeats (by omega), runsBy_of_le repeats (by omega)]

/-- A timer that is on the wheel once, with two or more runs left, and that nothing else touches,
runs in ticks that are as far apart as its interval says, if and only if the number of ticks
`insert` computes is that number and not a multiple of the number of slots, or falls short of it
by just the round that a multiple costs, or the ticks have not reached the second run. -/
theorem executions_spaced_iff (build : Build) (maxSlots : Nat) (si : Int) (timers : Nat → Timer)
    (positive : 1 ≤ maxSlots) (spaced : 1 ≤ si) (before : List WheelAction) (w : TimerWheel)
    (reached : Run (StepOf (step build)) (initial maxSlots si timers) before w)
    (timer count : Nat) (scheduled : ScheduledOnce w timer)
    (isCount : (w.timer timer).executeCount = count) (repeats : 2 ≤ count) :
    ∃ first, w.ticks ≤ first ∧ ∀ actions v, Run (StepOf (step build)) w actions v →
      (∀ action ∈ actions, Untouched timer action) →
      (v.executions timer = w.executions timer ++
          runsBy first (max 1 ((w.timer timer).interval / si)).toNat count v.ticks ↔
        (¬ maxSlots ∣ ticksOf si (w.timer timer).interval ∧
            ticksOf si (w.timer timer).interval = (max 1 ((w.timer timer).interval / si)).toNat ∨
          maxSlots ∣ ticksOf si (w.timer timer).interval ∧
            ticksOf si (w.timer timer).interval + maxSlots =
              (max 1 ((w.timer timer).interval / si)).toNat) ∨
        v.ticks ≤ first + min (w.period timer) (max 1 ((w.timer timer).interval / si)).toNat) := by
  obtain ⟨lists, kept⟩ := run_kept (initial_settled maxSlots si timers positive) reached
  have sameSi : w.si = si := kept.si
  have slots : w.maxSlots = maxSlots := kept.maxSlots
  have every : w.period timer = ticksOf si (w.timer timer).interval +
      if maxSlots ∣ ticksOf si (w.timer timer).interval then maxSlots else 0 := by
    unfold period delay
    rw [sameSi, slots]
  have periodPositive : 0 < w.period timer := period_pos timer (by omega)
  obtain ⟨first, ahead, runs⟩ := run_finite build (by omega) scheduled kept.settled isCount
    (by omega)
  refine ⟨first, ahead, fun actions v run untouched => ?_⟩
  obtain ⟨done, within, executed, past, future, -⟩ := runs actions v run untouched
  rw [executed, List.append_right_inj, ← runsBy_eq within past future,
    runsBy_eq_iff periodPositive (by omega) repeats]
  refine or_congr_left ?_
  rw [every]
  by_cases whole : maxSlots ∣ ticksOf si (w.timer timer).interval
  · simp [whole]
  · simp [whole]

/-- A wheel of four slots with one timer. -/
def smallWheel (interval executeCount : Int) : TimerWheel :=
  initial 4 1 fun _ => { interval := interval, executeCount := executeCount, expiration := 0 }

/-- The timer of a small wheel, inserted at the start, is on the wheel once. -/
theorem smallWheel_scheduledOnce {interval executeCount : Int} {w : TimerWheel}
    (inserted : (smallWheel interval executeCount).insert 0 = .ok w) : ScheduledOnce w 0 := by
  refine insert_scheduledOnce (initial_settled 4 1 _ (by decide)) (fun node => ?_) nofun inserted
  rw [onWheel_iff (initial_laid 4 1 _)]
  rintro ⟨⟨slot, member⟩, -⟩
  cases member

/-- A timer of three ticks on four slots. -/
theorem executions_spaced_three :
    ∃ w, (smallWheel 3 2).insert 0 = .ok w ∧ ∃ first, w.ticks ≤ first ∧ ∀ actions v,
      Run (StepOf (step .debug)) w actions v → (∀ action ∈ actions, Untouched 0 action) →
      v.executions 0 = w.executions 0 ++ runsBy first 3 2 v.ticks := by
  have done : (step .debug (smallWheel 3 2) (.insert 0)).isSome := by decide
  obtain ⟨w, stepped⟩ := Option.isSome_iff_exists.mp done
  have inserted : (smallWheel 3 2).insert 0 = .ok w := toOption_eq_some stepped
  have timers := insert_timer inserted
  have isTimer : w.timer 0 = { interval := 3, executeCount := 2, expiration := 0 } := by
    rw [timers]
    rfl
  obtain ⟨first, ahead, runs⟩ := executions_spaced_iff .debug 4 1 _ (by decide) (by decide)
    [.insert 0] w (Run.cons stepped (.nil w)) 0 2 (smallWheel_scheduledOnce inserted)
    (by rw [isTimer]; rfl) (by decide)
  refine ⟨w, inserted, first, ahead, fun actions v run untouched => ?_⟩
  have spaced := (runs actions v run untouched).mpr (.inl ?_)
  · rw [isTimer] at spaced
    exact spaced
  · rw [isTimer]
    decide

/-- A timer of four ticks on four slots runs in the ticks 4 and 12. -/
theorem not_executions_spaced_four :
    ∃ v, Run (StepOf (step .debug)) (smallWheel 4 2)
        (.insert 0 :: List.replicate 13 (.tick fun _ => {})) v ∧
      v.executions 0 = [4, 12] ∧ ∀ first, v.executions 0 ≠ runsBy first 4 2 v.ticks := by
  have done : ((exec (step .debug) (smallWheel 4 2)
      (.insert 0 :: List.replicate 13 (.tick fun _ => {}))).map fun v =>
        v.executions 0) = some [4, 12] := by decide
  obtain ⟨v, executed, shape⟩ := Option.map_eq_some_iff.mp done
  refine ⟨v, run_of_exec executed, shape, fun first same => ?_⟩
  rw [shape] at same
  have early : 4 ∈ runsBy first 4 2 v.ticks := by
    rw [← same]
    decide
  have late : 12 ∈ runsBy first 4 2 v.ticks := by
    rw [← same]
    decide
  obtain ⟨index, inside, isEarly, -⟩ := (mem_runsBy _ _ _ _ _).mp early
  obtain ⟨index', inside', isLate, -⟩ := (mem_runsBy _ _ _ _ _).mp late
  omega

/-! ### The number of runs -/

/-- A timer with a finite count runs no more often than that, and after enough ticks it has run
just as often and is not on the wheel; a timer that is to run forever is on the wheel. -/
def RunsOut (timer : Nat) (count : Int) (enough : Nat) (w v : TimerWheel) : Prop :=
  if count = Timer.forever then ∃ node, v.OnWheel timer node
  else (v.executions timer).length ≤ (w.executions timer).length + count.toNat ∧
    (enough ≤ v.ticks →
      (v.executions timer).length = (w.executions timer).length + count.toNat ∧
      ∀ node, ¬ v.OnWheel timer node)

/-- A timer that is on the wheel once, with a positive count or to run forever, and that nothing
else touches, runs as often as its count says if and only if the count is finite or the timer has
not run yet. -/
theorem runsOut_iff (build : Build) (maxSlots : Nat) (si : Int) (timers : Nat → Timer)
    (positive : 1 ≤ maxSlots) (spaced : 1 ≤ si) (before : List WheelAction) (w : TimerWheel)
    (reached : Run (StepOf (step build)) (initial maxSlots si timers) before w) (timer : Nat)
    (scheduled : ScheduledOnce w timer)
    (isCount : 1 ≤ (w.timer timer).executeCount ∨
      (w.timer timer).executeCount = Timer.forever) :
    ∃ first enough, w.ticks ≤ first ∧ ∀ actions v, Run (StepOf (step build)) w actions v →
      (∀ action ∈ actions, Untouched timer action) →
      (RunsOut timer (w.timer timer).executeCount enough w v ↔
        (w.timer timer).executeCount ≠ Timer.forever ∨ v.ticks ≤ first) := by
  obtain ⟨lists, kept⟩ := run_kept (initial_settled maxSlots si timers positive) reached
  have isSpaced : 0 < w.si := by
    rw [kept.si]
    exact spaced
  have periodPositive := period_pos timer isSpaced
  rcases isCount with finite | forever
  · have notForever : (w.timer timer).executeCount ≠ Timer.forever := by
      unfold Timer.forever
      omega
    obtain ⟨first, ahead, runs⟩ := run_finite build isSpaced scheduled kept.settled
      (Int.toNat_of_nonneg (by omega)).symm (by omega)
    refine ⟨first, first + (w.timer timer).executeCount.toNat * w.period timer, ahead,
      fun actions v run untouched => ?_⟩
    obtain ⟨done, within, executed, -, future, onWheel⟩ := runs actions v run untouched
    refine iff_of_true ?_ (.inl notForever)
    rw [RunsOut, if_neg notForever, executed, List.length_append, List.length_map,
      List.length_range]
    refine ⟨by omega, fun enough => ?_⟩
    have finished : ¬ done < (w.timer timer).executeCount.toNat := by
      intro more
      have limit := future more
      have bound := Nat.mul_lt_mul_of_pos_right more periodPositive
      omega
    exact ⟨by omega, fun node on => finished (onWheel.mp ⟨node, on⟩)⟩
  · obtain ⟨first, ahead, runs⟩ := run_forever build isSpaced scheduled kept.settled forever
    refine ⟨first, 0, ahead, fun actions v run untouched => ?_⟩
    rw [RunsOut, if_pos forever, (runs actions v run untouched).2]
    exact (or_iff_right fun finite => finite forever).symm

/-- A timer of three ticks with two runs. -/
theorem runsOut_twice :
    ∃ w first enough, (smallWheel 3 2).insert 0 = .ok w ∧ w.ticks ≤ first ∧ ∀ actions v,
      Run (StepOf (step .debug)) w actions v → (∀ action ∈ actions, Untouched 0 action) →
      RunsOut 0 (w.timer 0).executeCount enough w v := by
  have done : (step .debug (smallWheel 3 2) (.insert 0)).isSome := by decide
  obtain ⟨w, stepped⟩ := Option.isSome_iff_exists.mp done
  have inserted : (smallWheel 3 2).insert 0 = .ok w := toOption_eq_some stepped
  have isCount : (w.timer 0).executeCount = 2 := by
    rw [insert_timer inserted]
    rfl
  obtain ⟨first, enough, ahead, runs⟩ := runsOut_iff .debug 4 1 _ (by decide) (by decide)
    [.insert 0] w (Run.cons stepped (.nil w)) 0 (smallWheel_scheduledOnce inserted)
    (.inl (by rw [isCount]; decide))
  refine ⟨w, first, enough, inserted, ahead, fun actions v run untouched => ?_⟩
  refine (runs actions v run untouched).mpr (.inl ?_)
  rw [isCount]
  decide

/-- A timer that is to run forever has run once and is not on the wheel. -/
theorem not_runsOut_forever :
    ∃ w v, (smallWheel 1 Timer.forever).insert 0 = .ok w ∧
      Run (StepOf (step .debug)) w (List.replicate 2 (.tick fun _ => {})) v ∧
      v.executions 0 = [1] ∧ ¬ RunsOut 0 Timer.forever 0 w v := by
  have done : ((step .debug (smallWheel 1 Timer.forever) (.insert 0)).bind fun w =>
      (exec (step .debug) w (List.replicate 2 (.tick fun _ => {}))).map fun v =>
        (w.executions 0, v.executions 0)) = some ([], [1]) := by decide
  obtain ⟨w, stepped, done⟩ := Option.bind_eq_some_iff.mp done
  obtain ⟨v, executed, shape⟩ := Option.map_eq_some_iff.mp done
  obtain ⟨none, once⟩ := Prod.mk.inj shape
  have inserted : (smallWheel 1 Timer.forever).insert 0 = .ok w := toOption_eq_some stepped
  have run := run_of_exec executed
  refine ⟨w, v, inserted, run, once, ?_⟩
  rw [RunsOut, if_pos rfl]
  have settled : Settled (smallWheel 1 Timer.forever) fun _ => [] :=
    initial_settled 4 1 _ (by decide)
  obtain ⟨lists, kept⟩ := step_kept settled stepped
  obtain ⟨first, -, runs⟩ := run_forever .debug (by rw [kept.si]; decide)
    (smallWheel_scheduledOnce inserted) kept.settled (by rw [insert_timer inserted]; rfl)
  obtain ⟨executions, onWheel⟩ := runs _ v run fun action member => by
    rw [List.eq_of_mem_replicate member]
    exact fun _ => nofun
  rw [onWheel]
  intro future
  rw [once, none, if_neg (not_lt.mpr future)] at executions
  cases executions

end TimerWheel

end YYNet
