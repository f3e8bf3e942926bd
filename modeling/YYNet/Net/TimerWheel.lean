/-
This file models `TimerWheel` as its source has it: nodes in a heap, linked in
both directions, with one list for each slot.

`insert` splits the delay of a timer, counted in ticks, into a slot and a number
of rotations and links a new node in front of the slot's list, at once on the
loop thread and by a task of the loop on any other. `tick` walks the list of the
current slot: a node with rotations left loses one, any other node runs its timer
and is unlinked. Callbacks run in the middle of that walk and may insert timers
into the very list that is walked, as `tick` itself does with a timer that is to
run again.

The slot is computed with 32-bit integers: `cur_slot_` plus a number of slots
can overflow on a wheel with more than `2 ^ 30` slots, and that is undefined.
-/

import YYNet.Lib.LinkedList
import YYNet.Net.TimerQueue

namespace YYNet

open Checked Transition

/-- Why an operation of the wheel did not return. -/
inductive WheelFault
  | assertFailed
  | overflow
  | nullDereference
  | outOfFuel
  deriving DecidableEq, Repr

/-- `Node`. -/
structure WheelNode where
  prev : Option Nat := none
  next : Option Nat := none
  timer : Nat := 0
  rotation : Nat := 0
  timeSlot : Nat := 0
  deriving DecidableEq, Repr

/-- What a callback does to the timers of the wheel. -/
inductive CallbackStep
  | insert (timer : Nat)
  | setRemainCount (timer : Nat) (count : Int)
  deriving DecidableEq, Repr

/-- One call of a callback, with the clock reading behind it. -/
structure CallbackRun where
  steps : List CallbackStep := []
  reading : Int := 0
  deriving DecidableEq, Repr

/-- `TimerWheel`, the timers it is used with, the linking tasks in the loop's queue, and what
has happened: the number of ticks and the firings, each with its tick. -/
structure TimerWheel where
  maxSlots : Nat
  si : Int
  curSlot : Nat
  slots : Nat → Option Nat
  node : Nat → WheelNode
  /-- The nodes made so far. -/
  made : Nat
  timer : Nat → Timer
  /-- The tasks of other threads that are to link a node into a slot. -/
  tasks : List (Nat × Nat)
  ticks : Nat
  fired : List (Nat × Nat)

namespace TimerWheel

/-- A new wheel. -/
def initial (maxSlots : Nat) (si : Int) (timer : Nat → Timer) : TimerWheel where
  maxSlots := maxSlots
  si := si
  curSlot := 0
  slots _ := none
  node _ := {}
  made := 0
  timer := timer
  tasks := []
  ticks := 0
  fired := []

/-! ### `insert` -/

/-- The value of an `int`. -/
def toInt (value : Int) : Int := Int.bmod value (2 ^ 32)

/-- The number of ticks of an interval: one for an interval below the slot interval. The slot
interval is positive: the source divides by it. -/
def ticksOf (si interval : Int) : Nat :=
  if toInt interval < si then 1 else (toInt interval / si).toNat

/-- The number of ticks of a timer. -/
def delay (w : TimerWheel) (timer : Nat) : Nat := ticksOf w.si (w.timer timer).interval

/-- Write one node. -/
def setNode (w : TimerWheel) (id : Nat) (node : WheelNode) : TimerWheel :=
  { w with node := Function.update w.node id node }

/-- Write one timer. -/
def setTimer (w : TimerWheel) (id : Nat) (timer : Timer) : TimerWheel :=
  { w with timer := Function.update w.timer id timer }

/-- Make a node for a timer; the slot is relative to `cur_slot_` at this moment. -/
def prepare (w : TimerWheel) (timer : Nat) : Except WheelFault TimerWheel :=
  let ticks := w.delay timer
  if w.curSlot + ticks % w.maxSlots < 2 ^ 31 then
    .ok { w.setNode w.made
        { timer := timer
          rotation := ticks / w.maxSlots
          timeSlot := (w.curSlot + ticks % w.maxSlots) % w.maxSlots } with
      made := w.made + 1 }
  else .error .overflow

/-- The task that links a node into a slot. -/
def link (w : TimerWheel) (ts node : Nat) : TimerWheel :=
  match w.slots ts with
  | none => { w with slots := Function.update w.slots ts (some node) }
  | some head =>
    { (w.setNode node { w.node node with next := some head }).setNode head
        { (w.setNode node { w.node node with next := some head }).node head with
          prev := some node } with
      slots := Function.update w.slots ts (some node) }

/-- `insert` on the loop thread: the task runs at once. -/
def insert (w : TimerWheel) (timer : Nat) : Except WheelFault TimerWheel := do
  let v ← w.prepare timer
  .ok (v.link (v.node w.made).timeSlot w.made)

/-- `insert` on another thread: the task is queued. -/
def insertElsewhere (w : TimerWheel) (timer : Nat) : Except WheelFault TimerWheel := do
  let v ← w.prepare timer
  .ok { v with tasks := v.tasks ++ [((v.node w.made).timeSlot, w.made)] }

/-! ### `tick` -/

/-- `setRemainCount`, and `cancel` with a count of zero. -/
def setRemainCount (w : TimerWheel) (timer : Nat) (count : Int) : TimerWheel :=
  w.setTimer timer { w.timer timer with executeCount := count }

/-- What a callback does, on the loop thread. -/
def runSteps (w : TimerWheel) : List CallbackStep → Except WheelFault TimerWheel
  | [] => .ok w
  | .insert timer :: rest => do
    let v ← w.insert timer
    v.runSteps rest
  | .setRemainCount timer count :: rest => (w.setRemainCount timer count).runSteps rest

/-- The count of a node's timer is taken down, unless it runs forever, and its callback is
called. -/
def countDown (w : TimerWheel) (node : Nat) : TimerWheel :=
  let timer := (w.node node).timer
  { w.setTimer timer { w.timer timer with
      executeCount :=
        if (w.timer timer).executeCount ≠ Timer.forever then (w.timer timer).executeCount - 1
        else (w.timer timer).executeCount } with
    fired := w.fired ++ [(node, w.ticks)] }

/-- `Timer::execute` of a node's timer. -/
def execute (w : TimerWheel) (build : Build) (node : Nat) (run : CallbackRun) :
    Except WheelFault TimerWheel :=
  let timer := (w.node node).timer
  if build = .debug ∧ (w.timer timer).executeCount = 0 then .error .assertFailed
  else do
    let called ← (w.countDown node).runSteps run.steps
    .ok (called.setTimer timer { called.timer timer with
      expiration := run.reading + (called.timer timer).interval })

/-- Insert a timer that is to run again. -/
def reinsert (w : TimerWheel) (node : Nat) : Except WheelFault TimerWheel :=
  if 0 < (w.timer (w.node node).timer).executeCount then w.insert (w.node node).timer else .ok w

/-- Take a node out of the list of the current slot. -/
def unlink (w : TimerWheel) (node : Nat) : Except WheelFault TimerWheel :=
  if w.slots w.curSlot = some node then
    .ok { w with slots := Function.update w.slots w.curSlot (w.node node).next }
  else
    match (w.node node).prev with
    | none => .error .nullDereference
    | some prev =>
      let passed := w.setNode prev { w.node prev with next := (w.node node).next }
      match (w.node node).next with
      | none => .ok passed
      | some next => .ok (passed.setNode next { passed.node next with prev := some prev })

/-- The loop of `tick`, from a node on. -/
def walk (build : Build) (callback : Nat → CallbackRun) :
    Nat → Option Nat → TimerWheel → Except WheelFault TimerWheel
  | _, none, w => .ok w
  | 0, some _, _ => .error .outOfFuel
  | fuel + 1, some node, w =>
    if 0 < (w.node node).rotation then
      walk build callback fuel (w.node node).next
        (w.setNode node { w.node node with rotation := (w.node node).rotation - 1 })
    else do
      let executed ← w.execute build node (callback node)
      let inserted ← executed.reinsert node
      let unlinked ← inserted.unlink node
      walk build callback fuel (inserted.node node).next unlinked

/-- The end of `tick`: the next slot is the current one. -/
def advance (w : TimerWheel) : TimerWheel :=
  { w with
    curSlot := (w.curSlot + 1) % w.maxSlots
    ticks := w.ticks + 1 }

/-- `tick`. -/
def tick (w : TimerWheel) (build : Build) (callback : Nat → CallbackRun) :
    Except WheelFault TimerWheel := do
  let v ← walk build callback w.made (w.slots w.curSlot) w
  .ok v.advance

end TimerWheel

/-- The steps of the loop thread and of other threads. -/
inductive WheelAction
  | insert (timer : Nat)
  | insertElsewhere (timer : Nat)
  /-- The loop runs the task that links a node. -/
  | runTask (node : Nat)
  | setRemainCount (timer : Nat) (count : Int)
  | tick (callback : Nat → CallbackRun)

namespace TimerWheel

/-- One step. -/
def step (build : Build) (w : TimerWheel) : WheelAction → Option TimerWheel
  | .insert timer => (w.insert timer).toOption
  | .insertElsewhere timer => (w.insertElsewhere timer).toOption
  | .runTask node =>
    match w.tasks.find? fun task => task.2 = node with
    | some (ts, _) => some { w.link ts node with tasks := w.tasks.filter fun task => task.2 ≠ node }
    | none => none
  | .setRemainCount timer count => some (w.setRemainCount timer count)
  | .tick callback => (w.tick build callback).toOption

/-! ### Lists in the heap -/

/-- The links forward. -/
def next (w : TimerWheel) (node : Nat) : Option Nat := (w.node node).next

/-- The links back. -/
def prev (w : TimerWheel) (node : Nat) : Option Nat := (w.node node).prev

/-- The heap holds one linked list for each slot, and the nodes of the queued tasks. -/
structure Laid (w : TimerWheel) (lists : Nat → List Nat) : Prop where
  linked : ∀ slot, LinkedList.Linked w.next w.prev (w.slots slot) (lists slot)
  apart : ∀ first second node, node ∈ lists first → node ∈ lists second → first = second
  known : ∀ slot, ∀ node ∈ lists slot, node < w.made ∧ slot < w.maxSlots
  queued : ∀ task ∈ w.tasks, task.2 < w.made ∧ task.1 < w.maxSlots ∧ w.next task.2 = none ∧
    ∀ slot, task.2 ∉ lists slot
  single : (w.tasks.map Prod.snd).Nodup
  fired : ∀ firing ∈ w.fired, firing.1 < w.made

theorem initial_laid (maxSlots : Nat) (si : Int) (timer : Nat → Timer) :
    Laid (initial maxSlots si timer) fun _ => [] where
  linked slot := ⟨rfl, List.isChain_nil, List.nodup_nil⟩
  apart first second node member := by simp at member
  known slot node member := by simp at member
  queued task member := by simp [initial] at member
  single := by simp [initial]
  fired firing member := by simp [initial] at member

/-- A step that keeps all links. -/
theorem Laid.frame {w v : TimerWheel} {lists : Nat → List Nat} (laid : Laid w lists)
    (next : v.next = w.next) (prev : v.prev = w.prev) (slots : v.slots = w.slots)
    (maxSlots : v.maxSlots = w.maxSlots) (made : v.made = w.made) (tasks : v.tasks = w.tasks)
    (fired : ∀ firing ∈ v.fired, firing.1 < w.made) : Laid v lists where
  linked slot := by
    rw [next, prev, slots]
    exact laid.linked slot
  apart := laid.apart
  known := by
    rw [made, maxSlots]
    exact laid.known
  queued := by
    rw [tasks, made, maxSlots, next]
    exact laid.queued
  single := by
    rw [tasks]
    exact laid.single
  fired := by rwa [made]

theorem setNode_node (w : TimerWheel) (id other : Nat) (node : WheelNode) :
    (w.setNode id node).node other = if other = id then node else w.node other := by
  simp [setNode, Function.update_apply]

/-! ### Linking a node -/

/-- The links forward behind `link`. -/
theorem link_next (w : TimerWheel) (ts node : Nat) (alone : w.next node = none)
    (other : w.slots ts ≠ some node) :
    (w.link ts node).next = Function.update w.next node (w.slots ts) := by
  funext cell
  unfold link
  cases head : w.slots ts with
  | none =>
    by_cases same : cell = node
    · subst same
      rw [Function.update_self]
      exact alone
    · rw [Function.update_of_ne same]
      rfl
  | some first =>
    have different : first ≠ node := fun same => other (by rw [head, same])
    simp only [next, setNode_node]
    by_cases same : cell = node
    · subst same
      simp [Ne.symm different]
    · by_cases isFirst : cell = first
      · subst isFirst
        simp [same, next]
      · simp [same, isFirst, next]

/-- The links back behind `link`. -/
theorem link_prev (w : TimerWheel) (ts node : Nat) (other : w.slots ts ≠ some node) (cell : Nat) :
    (w.link ts node).prev cell = if w.slots ts = some cell then some node else w.prev cell := by
  unfold link
  cases head : w.slots ts with
  | none => simp [prev]
  | some first =>
    have different : first ≠ node := fun same => other (by rw [head, same])
    simp only [prev, setNode_node, Option.some.injEq]
    by_cases isFirst : cell = first
    · subst isFirst
      simp
    · rw [if_neg isFirst, if_neg (Ne.symm isFirst)]
      split
      · rename_i same
        rw [same]
      · rfl

/-- `link` keeps the data of every node. -/
theorem link_data (w : TimerWheel) (ts node cell : Nat) :
    ((w.link ts node).node cell).timer = (w.node cell).timer ∧
      ((w.link ts node).node cell).rotation = (w.node cell).rotation := by
  unfold link
  cases w.slots ts with
  | none => exact ⟨rfl, rfl⟩
  | some first =>
    simp only [setNode_node]
    split
    · rename_i isFirst
      rw [isFirst]
      split
      · rename_i same
        rw [same]
        exact ⟨rfl, rfl⟩
      · exact ⟨rfl, rfl⟩
    · split
      · rename_i same
        rw [same]
        exact ⟨rfl, rfl⟩
      · exact ⟨rfl, rfl⟩

theorem link_slots (w : TimerWheel) (ts node : Nat) :
    (w.link ts node).slots = Function.update w.slots ts (some node) := by
  unfold link
  cases w.slots ts <;> rfl

/-- `link` touches nothing but nodes and slots. -/
theorem link_rest (w : TimerWheel) (ts node : Nat) :
    (w.link ts node).maxSlots = w.maxSlots ∧ (w.link ts node).si = w.si ∧
      (w.link ts node).curSlot = w.curSlot ∧ (w.link ts node).made = w.made ∧
      (w.link ts node).timer = w.timer ∧ (w.link ts node).tasks = w.tasks ∧
      (w.link ts node).ticks = w.ticks ∧ (w.link ts node).fired = w.fired := by
  unfold link
  cases w.slots ts <;> exact ⟨rfl, rfl, rfl, rfl, rfl, rfl, rfl, rfl⟩

/-- A node that is in no list is linked in front of one. -/
theorem laid_of_link {w v : TimerWheel} {lists : Nat → List Nat} (laid : Laid w lists)
    (ts node : Nat) (inside : ts < w.maxSlots) (known : node < w.made)
    (alone : w.next node = none) (outside : ∀ slot, node ∉ lists slot)
    (nodes : v.node = (w.link ts node).node) (slots : v.slots = (w.link ts node).slots)
    (maxSlots : v.maxSlots = w.maxSlots) (made : v.made = w.made)
    (queued : ∀ task ∈ v.tasks, task ∈ w.tasks ∧ task.2 ≠ node)
    (single : (v.tasks.map Prod.snd).Nodup) (fired : v.fired = w.fired) :
    Laid v (Function.update lists ts (node :: lists ts)) := by
  have other : w.slots ts ≠ some node := by
    rw [(laid.linked ts).head_eq]
    exact fun first => outside ts (List.mem_of_mem_head? first)
  have nexts : v.next = Function.update w.next node (w.slots ts) := by
    rw [← link_next w ts node alone other]
    funext cell
    rw [next, nodes, next]
  have prevs : ∀ cell, v.prev cell = if w.slots ts = some cell then some node else w.prev cell := by
    intro cell
    rw [← link_prev w ts node other cell, prev, nodes, prev]
  have members : ∀ slot cell, cell ∈ Function.update lists ts (node :: lists ts) slot ↔
      (slot = ts ∧ cell = node) ∨ cell ∈ lists slot := by
    intro slot cell
    by_cases same : slot = ts
    · subst same
      simp
    · simp [same]
  have sameNext : ∀ slot, ∀ cell ∈ lists slot, v.next cell = w.next cell := by
    intro slot cell member
    rw [nexts, Function.update_of_ne]
    rintro rfl
    exact outside slot member
  refine ⟨fun slot => ?_, fun first second cell left right => ?_, fun slot cell member => ?_,
    fun task member => ?_, single, ?_⟩
  · rw [slots, link_slots]
    by_cases same : slot = ts
    · subst same
      rw [Function.update_self, Function.update_self]
      refine (laid.linked slot).push (outside slot) ?_ (fun first head => ?_) (sameNext slot)
        (fun cell later => ?_)
      · rw [nexts, Function.update_self]
      · exact (prevs first).trans (if_pos head)
      · rw [prevs, if_neg]
        intro head
        rw [(laid.linked slot).head_eq] at head
        have nodup := (laid.linked slot).nodup
        cases shape : lists slot with
        | nil =>
          rw [shape] at later
          cases later
        | cons first rest =>
          rw [shape] at head later nodup
          obtain rfl := Option.some.inj head
          exact (List.nodup_cons.mp nodup).1 later
    · rw [Function.update_of_ne same, Function.update_of_ne same]
      refine (laid.linked slot).frame (sameNext slot) (fun cell later => ?_)
      rw [prevs, if_neg]
      intro head
      rw [(laid.linked ts).head_eq] at head
      exact same (laid.apart slot ts cell (List.mem_of_mem_tail later) (List.mem_of_mem_head? head))
  · rcases (members first cell).mp left with ⟨here, same⟩ | old <;>
      rcases (members second cell).mp right with ⟨there, same'⟩ | old'
    · rw [here, there]
    · exact absurd (same ▸ old') (outside second)
    · exact absurd (same' ▸ old) (outside first)
    · exact laid.apart first second cell old old'
  · rw [made, maxSlots]
    rcases (members slot cell).mp member with ⟨rfl, rfl⟩ | old
    · exact ⟨known, inside⟩
    · exact laid.known slot cell old
  · obtain ⟨before, different⟩ := queued task member
    obtain ⟨isKnown, isInside, isAlone, isOutside⟩ := laid.queued task before
    rw [made, maxSlots]
    refine ⟨isKnown, isInside, ?_, fun slot inner => ?_⟩
    · rw [nexts, Function.update_of_ne different]
      exact isAlone
    · rcases (members slot task.2).mp inner with ⟨-, same⟩ | old
      · exact different same
      · exact isOutside slot old
  · rw [fired, made]
    exact laid.fired

/-! ### Growing lists -/

/-- What insertions do to a wheel: each list gets new nodes in front. -/
structure Grown (w : TimerWheel) (lists : Nat → List Nat) (v : TimerWheel)
    (longer : Nat → List Nat) : Prop where
  laid : Laid v longer
  lists : ∀ slot, ∃ new, longer slot = new ++ lists slot ∧ ∀ node ∈ new, w.made ≤ node
  more : ∀ node, w.made ≤ node → node < v.made → ∃ slot, node ∈ longer slot
  data : ∀ node, node < w.made → (v.node node).rotation = (w.node node).rotation ∧
    (v.node node).timer = (w.node node).timer
  made : w.made ≤ v.made
  maxSlots : v.maxSlots = w.maxSlots
  si : v.si = w.si
  curSlot : v.curSlot = w.curSlot
  tasks : v.tasks = w.tasks
  ticks : v.ticks = w.ticks
  fired : v.fired = w.fired

theorem Grown.refl {w : TimerWheel} {lists : Nat → List Nat} (laid : Laid w lists) :
    Grown w lists w lists where
  laid := laid
  lists slot := ⟨[], rfl, fun node member => by cases member⟩
  more node low high := absurd high (not_lt.mpr low)
  data node _ := ⟨rfl, rfl⟩
  made := le_refl _
  maxSlots := rfl
  si := rfl
  curSlot := rfl
  tasks := rfl
  ticks := rfl
  fired := rfl

theorem Grown.trans {w v u : TimerWheel} {lists longer longest : Nat → List Nat}
    (first : Grown w lists v longer) (second : Grown v longer u longest) :
    Grown w lists u longest where
  laid := second.laid
  lists slot := by
    obtain ⟨new, shape, fresh⟩ := first.lists slot
    obtain ⟨newer, shape', fresh'⟩ := second.lists slot
    refine ⟨newer ++ new, by rw [shape', shape, List.append_assoc], fun node member => ?_⟩
    rcases List.mem_append.mp member with late | early
    · exact first.made.trans (fresh' node late)
    · exact fresh node early
  more node low high := by
    by_cases old : node < v.made
    · obtain ⟨slot, member⟩ := first.more node low old
      obtain ⟨newer, shape, -⟩ := second.lists slot
      exact ⟨slot, by rw [shape]; exact List.mem_append_right _ member⟩
    · exact second.more node (not_lt.mp old) high
  data node low := by
    obtain ⟨rotation, timer⟩ := first.data node low
    obtain ⟨rotation', timer'⟩ := second.data node (low.trans_le first.made)
    exact ⟨rotation'.trans rotation, timer'.trans timer⟩
  made := first.made.trans second.made
  maxSlots := second.maxSlots.trans first.maxSlots
  si := second.si.trans first.si
  curSlot := second.curSlot.trans first.curSlot
  tasks := second.tasks.trans first.tasks
  ticks := second.ticks.trans first.ticks
  fired := second.fired.trans first.fired

/-- Writing a timer keeps the lists. -/
theorem grown_of_setTimer {w : TimerWheel} {lists : Nat → List Nat} (laid : Laid w lists)
    (id : Nat) (timer : Timer) : Grown w lists (w.setTimer id timer) lists :=
  { Grown.refl laid with laid := laid.frame rfl rfl rfl rfl rfl rfl laid.fired }

/-- What `prepare` returns. -/
theorem prepare_eq_ok {w v : TimerWheel} {timer : Nat} (returned : w.prepare timer = .ok v) :
    w.curSlot + w.delay timer % w.maxSlots < 2 ^ 31 ∧
      v = { w.setNode w.made
          { timer := timer
            rotation := w.delay timer / w.maxSlots
            timeSlot := (w.curSlot + w.delay timer % w.maxSlots) % w.maxSlots } with
        made := w.made + 1 } := by
  simp only [prepare] at returned
  split at returned
  · rename_i fits
    exact ⟨fits, (Except.ok.inj returned).symm⟩
  · cases returned

/-- What `prepare` does: there is a new node, and nothing else is different. -/
structure Prepared (w : TimerWheel) (timer : Nat) (v : TimerWheel) : Prop where
  fits : w.curSlot + w.delay timer % w.maxSlots < 2 ^ 31
  new : v.node w.made =
    { timer := timer
      rotation := w.delay timer / w.maxSlots
      timeSlot := (w.curSlot + w.delay timer % w.maxSlots) % w.maxSlots }
  old : ∀ node, node ≠ w.made → v.node node = w.node node
  slots : v.slots = w.slots
  made : v.made = w.made + 1
  maxSlots : v.maxSlots = w.maxSlots
  si : v.si = w.si
  curSlot : v.curSlot = w.curSlot
  timers : v.timer = w.timer
  tasks : v.tasks = w.tasks
  ticks : v.ticks = w.ticks
  fired : v.fired = w.fired

theorem prepared_of_prepare {w v : TimerWheel} {timer : Nat}
    (returned : w.prepare timer = .ok v) : Prepared w timer v := by
  obtain ⟨fits, rfl⟩ := prepare_eq_ok returned
  exact ⟨fits, Function.update_self _ _ _, fun node different => Function.update_of_ne different _ _,
    rfl, rfl, rfl, rfl, rfl, rfl, rfl, rfl, rfl⟩

/-- A prepared node is in no list. -/
theorem Prepared.laid {w v : TimerWheel} {lists : Nat → List Nat} {timer : Nat}
    (prepared : Prepared w timer v) (laid : Laid w lists) : Laid v lists := by
  have outside : ∀ slot, w.made ∉ lists slot := fun slot member =>
    absurd (laid.known slot _ member).1 (lt_irrefl _)
  have more : w.made ≤ v.made := prepared.made ▸ Nat.le_succ _
  refine ⟨fun slot => ?_, laid.apart, fun slot node member => ?_, fun task member => ?_, ?_,
    fun firing member => ?_⟩
  · rw [prepared.slots]
    refine (laid.linked slot).frame (fun node member => ?_) (fun node member => ?_)
    · have different : node ≠ w.made := fun here => outside slot (here ▸ member)
      exact congrArg WheelNode.next (prepared.old node different)
    · have different : node ≠ w.made := fun here =>
        outside slot (here ▸ List.mem_of_mem_tail member)
      exact congrArg WheelNode.prev (prepared.old node different)
  · obtain ⟨known, inside⟩ := laid.known slot node member
    exact ⟨known.trans_le more, prepared.maxSlots ▸ inside⟩
  · rw [prepared.tasks] at member
    obtain ⟨known, inside, alone, out⟩ := laid.queued task member
    refine ⟨known.trans_le more, prepared.maxSlots ▸ inside, ?_, out⟩
    exact (congrArg WheelNode.next (prepared.old task.2 (ne_of_lt known))).trans alone
  · rw [prepared.tasks]
    exact laid.single
  · rw [prepared.fired] at member
    exact (laid.fired firing member).trans_le more

/-- What `insert` on the loop thread returns: a new node in front of the slot's list. -/
theorem insert_eq_ok {w v : TimerWheel} {lists : Nat → List Nat} {timer : Nat}
    (laid : Laid w lists) (positive : 0 < w.maxSlots) (returned : w.insert timer = .ok v) :
    w.curSlot + w.delay timer % w.maxSlots < 2 ^ 31 ∧
      Grown w lists v (Function.update lists
        ((w.curSlot + w.delay timer % w.maxSlots) % w.maxSlots)
        (w.made :: lists ((w.curSlot + w.delay timer % w.maxSlots) % w.maxSlots))) ∧
      v.made = w.made + 1 ∧ (v.node w.made).rotation = w.delay timer / w.maxSlots ∧
      (v.node w.made).timer = timer := by
  obtain ⟨u, isPrepared, linked⟩ := bind_eq_ok returned
  have prepared := prepared_of_prepare isPrepared
  have laidThere := prepared.laid laid
  rw [show (u.node w.made).timeSlot = _ from congrArg WheelNode.timeSlot prepared.new] at linked
  generalize isSlot : (w.curSlot + w.delay timer % w.maxSlots) % w.maxSlots = slot at linked ⊢
  obtain rfl := Except.ok.inj linked
  obtain ⟨maxSlots, si, curSlot, made, timers, tasks, ticks, fired⟩ := link_rest u slot w.made
  have outside : ∀ slot, w.made ∉ lists slot := fun slot member =>
    absurd (laid.known slot _ member).1 (lt_irrefl _)
  have known : w.made < u.made := prepared.made ▸ Nat.lt_succ_self _
  refine ⟨prepared.fits, ⟨?_, fun other => ?_, fun node low high => ⟨slot, ?_⟩, fun node low => ?_,
    ?_, ?_, ?_, ?_, ?_, ?_, ?_⟩, ?_, ?_, ?_⟩
  · refine laid_of_link laidThere _ w.made ?_ known ?_ outside rfl rfl maxSlots made ?_ ?_ fired
    · rw [prepared.maxSlots, ← isSlot]
      exact Nat.mod_lt _ positive
    · exact congrArg WheelNode.next prepared.new
    · intro task member
      rw [tasks] at member
      exact ⟨member, ne_of_lt (laid.queued task (prepared.tasks ▸ member)).1⟩
    · rw [tasks]
      exact laidThere.single
  · by_cases same : other = slot
    · rw [same, Function.update_self]
      exact ⟨[w.made], rfl, by simp⟩
    · rw [Function.update_of_ne same]
      exact ⟨[], rfl, by simp⟩
  · have same : node = w.made := by
      rw [made, prepared.made] at high
      omega
    rw [Function.update_self, same]
    exact List.mem_cons_self
  · obtain ⟨sameTimer, sameRotation⟩ := link_data u slot w.made node
    rw [sameRotation, sameTimer, prepared.old node (ne_of_lt low)]
    exact ⟨rfl, rfl⟩
  · exact made ▸ known.le
  · exact maxSlots.trans prepared.maxSlots
  · exact si.trans prepared.si
  · exact curSlot.trans prepared.curSlot
  · exact tasks.trans prepared.tasks
  · exact ticks.trans prepared.ticks
  · exact fired.trans prepared.fired
  · exact made.trans prepared.made
  · rw [(link_data u _ w.made w.made).2, prepared.new]
  · rw [(link_data u _ w.made w.made).1, prepared.new]

/-- `insert` stops at an overflow only. -/
theorem insert_cases (w : TimerWheel) (timer : Nat) :
    w.insert timer = .error .overflow ∨ ∃ v, w.insert timer = .ok v := by
  unfold insert prepare
  simp only
  split
  · exact .inr ⟨_, rfl⟩
  · exact .inl rfl

/-- A callback overflows or makes the lists grow. -/
theorem runSteps_cases {w : TimerWheel} {lists : Nat → List Nat} (laid : Laid w lists)
    (positive : 0 < w.maxSlots) (steps : List CallbackStep) :
    w.runSteps steps = .error .overflow ∨
      ∃ v longer, w.runSteps steps = .ok v ∧ Grown w lists v longer := by
  induction steps generalizing w lists with
  | nil => exact .inr ⟨w, lists, rfl, Grown.refl laid⟩
  | cons step rest inductionHypothesis =>
    cases step with
    | insert timer =>
      rw [runSteps]
      rcases insert_cases w timer with stopped | ⟨v, returned⟩
      · exact .inl (by rw [stopped]; rfl)
      · obtain ⟨-, grown, -⟩ := insert_eq_ok laid positive returned
        rw [returned, ok_bind]
        rcases inductionHypothesis grown.laid (by rwa [grown.maxSlots]) with
          stopped | ⟨u, longest, later, grows⟩
        · exact .inl stopped
        · exact .inr ⟨u, longest, later, grown.trans grows⟩
    | setRemainCount timer count =>
      rw [runSteps]
      have grown : Grown w lists (w.setRemainCount timer count) lists := grown_of_setTimer laid _ _
      rcases inductionHypothesis grown.laid positive with stopped | ⟨u, longest, later, grows⟩
      · exact .inl stopped
      · exact .inr ⟨u, longest, later, grown.trans grows⟩

/-- The call of a node's timer is counted, and the lists are as they were. -/
theorem Laid.countDown {w : TimerWheel} {lists : Nat → List Nat} (laid : Laid w lists)
    {node : Nat} (known : node < w.made) : Laid (w.countDown node) lists := by
  refine laid.frame rfl rfl rfl rfl rfl rfl fun firing member => ?_
  rcases List.mem_append.mp member with old | new
  · exact laid.fired firing old
  · obtain rfl := List.mem_singleton.mp new
    exact known

/-- A node's timer and its insertion anew stop at an overflow, or in a debug build at an
assertion, or make the lists grow. -/
theorem fire_cases {w : TimerWheel} {lists : Nat → List Nat} (laid : Laid w lists)
    (positive : 0 < w.maxSlots) (build : Build) (node : Nat) (known : node < w.made)
    (run : CallbackRun) :
    (∃ fault, (w.execute build node run >>= fun v => v.reinsert node) = .error fault ∧
      (fault = .overflow ∨ fault = .assertFailed ∧ build = .debug)) ∨
      ∃ v longer, (w.execute build node run >>= fun v => v.reinsert node) = .ok v ∧
        Grown (w.countDown node) lists v longer := by
  by_cases spent : build = .debug ∧ (w.timer (w.node node).timer).executeCount = 0
  · refine .inl ⟨.assertFailed, ?_, .inr ⟨rfl, spent.1⟩⟩
    simp only [execute, if_pos spent]
    rfl
  · simp only [execute, if_neg spent]
    rcases runSteps_cases (laid.countDown known) positive run.steps with stopped | ⟨v, longer, called, grown⟩
    · refine .inl ⟨.overflow, ?_, .inl rfl⟩
      rw [stopped]
      rfl
    · rw [called, ok_bind, ok_bind]
      have stamped := grown.trans (grown_of_setTimer grown.laid (w.node node).timer
        { v.timer (w.node node).timer with
          expiration := run.reading + (v.timer (w.node node).timer).interval })
      unfold reinsert
      split
      · rcases insert_cases (v.setTimer (w.node node).timer
          { v.timer (w.node node).timer with
            expiration := run.reading + (v.timer (w.node node).timer).interval })
            ((v.setTimer (w.node node).timer { v.timer (w.node node).timer with
              expiration := run.reading + (v.timer (w.node node).timer).interval }).node
                node).timer with stopped | ⟨u, returned⟩
        · exact .inl ⟨.overflow, stopped, .inl rfl⟩
        · have room : 0 < (v.setTimer (w.node node).timer { v.timer (w.node node).timer with
              expiration := run.reading + (v.timer (w.node node).timer).interval }).maxSlots := by
            rw [stamped.maxSlots]
            exact positive
          obtain ⟨-, grows, -⟩ := insert_eq_ok stamped.laid room returned
          exact .inr ⟨u, _, returned, stamped.trans grows⟩
      · exact .inr ⟨_, longer, rfl, stamped⟩

/-! ### Unlinking a node -/

/-- What `unlink` keeps. -/
structure Unlinked (w v : TimerWheel) : Prop where
  data : ∀ node, (v.node node).rotation = (w.node node).rotation ∧
    (v.node node).timer = (w.node node).timer
  made : v.made = w.made
  maxSlots : v.maxSlots = w.maxSlots
  si : v.si = w.si
  curSlot : v.curSlot = w.curSlot
  tasks : v.tasks = w.tasks
  ticks : v.ticks = w.ticks
  fired : v.fired = w.fired

/-- What `unlink` writes for a node that is not the head. -/
theorem unlink_later {w : TimerWheel} {node first : Nat} (later : w.slots w.curSlot ≠ some node)
    (prevNode : w.prev node = some first) :
    ∃ v, w.unlink node = .ok v ∧ Unlinked w v ∧ v.slots = w.slots ∧
      v.next = Function.update w.next first (w.next node) ∧
      ∀ cell, v.prev cell = if w.next node = some cell then some first else w.prev cell := by
  have passedNode : ∀ cell, (w.setNode first
      { w.node first with next := (w.node node).next }).node cell =
        if cell = first then { w.node first with next := (w.node node).next }
        else w.node cell := fun cell => setNode_node w first cell _
  have passedNext : TimerWheel.next (w.setNode first
      { w.node first with next := (w.node node).next }) =
        Function.update w.next first (w.next node) := by
    funext cell
    simp only [next, passedNode, Function.update_apply]
    split <;> rfl
  have passedPrev : ∀ cell, TimerWheel.prev (w.setNode first
      { w.node first with next := (w.node node).next }) cell = w.prev cell := by
    intro cell
    simp only [prev, passedNode]
    split
    · rename_i same
      rw [same]
    · rfl
  have passedData : ∀ cell, ((w.setNode first
      { w.node first with next := (w.node node).next }).node cell).rotation =
        (w.node cell).rotation ∧ ((w.setNode first
      { w.node first with next := (w.node node).next }).node cell).timer =
        (w.node cell).timer := by
    intro cell
    rw [passedNode]
    split
    · rename_i same
      rw [same]
      exact ⟨rfl, rfl⟩
    · exact ⟨rfl, rfl⟩
  rw [unlink, if_neg later, show (w.node node).prev = some first from prevNode]
  cases behind : (w.node node).next with
  | none =>
    rw [behind] at passedNext passedPrev passedData
    refine ⟨_, rfl, ⟨passedData, rfl, rfl, rfl, rfl, rfl, rfl, rfl⟩, rfl, passedNext, fun cell => ?_⟩
    rw [show w.next node = none from behind, if_neg (by simp)]
    exact passedPrev cell
  | some second =>
    rw [behind] at passedNext passedPrev passedData
    refine ⟨_, rfl, ⟨fun cell => ?_, rfl, rfl, rfl, rfl, rfl, rfl, rfl⟩, rfl, ?_, fun cell => ?_⟩
    · rw [setNode_node]
      split
      · rename_i same
        rw [same]
        exact passedData second
      · exact passedData cell
    · rw [← passedNext]
      funext cell
      simp only [next, setNode_node _ second cell]
      split
      · rename_i same
        rw [same]
      · rfl
    · rw [show w.next node = some second from behind, ← passedPrev cell]
      simp only [prev, setNode_node _ second cell, Option.some.injEq]
      split
      · rename_i same
        rw [if_pos same.symm]
      · rename_i different
        rw [if_neg (Ne.symm different)]

/-- A node taken out of the list of its slot is in no list, and the others are where they were. -/
theorem Laid.mem_remove {w : TimerWheel} {lists : Nat → List Nat} (laid : Laid w lists)
    {here node : Nat} {before after : List Nat} (shape : lists here = before ++ node :: after)
    (other slot : Nat) :
    other ∈ Function.update lists here (before ++ after) slot ↔ other ∈ lists slot ∧ other ≠ node := by
  have nodup := (laid.linked here).nodup
  rw [shape] at nodup
  have outside := (List.nodup_middle.mp nodup).notMem
  by_cases same : slot = here
  · rw [same, Function.update_self, shape, List.mem_append, List.mem_append, List.mem_cons]
    constructor
    · intro member
      refine ⟨member.imp id .inr, ?_⟩
      rintro rfl
      exact outside (List.mem_append.mpr member)
    · rintro ⟨member, different⟩
      exact member.imp id fun behind => behind.resolve_left different
  · rw [Function.update_of_ne same]
    refine ⟨fun member => ⟨member, ?_⟩, And.left⟩
    rintro rfl
    have there : other ∈ lists here := by
      rw [shape]
      simp
    exact same (laid.apart slot here other member there)

/-- A node of the current slot's list is taken out of it. -/
theorem unlink_eq_ok {w : TimerWheel} {lists : Nat → List Nat} (laid : Laid w lists) (node : Nat)
    (before after : List Nat) (shape : lists w.curSlot = before ++ node :: after) :
    ∃ v, w.unlink node = .ok v ∧ Unlinked w v ∧
      Laid v (Function.update lists w.curSlot (before ++ after)) := by
  have linked := laid.linked w.curSlot
  rw [shape] at linked
  have nextNode : w.next node = after.head? := linked.next_eq
  -- What has to be shown of the lists is the same for a first and for a later node.
  have relaid : ∀ v, Unlinked w v →
      LinkedList.Linked v.next v.prev (v.slots w.curSlot) (before ++ after) →
      (∀ slot, slot ≠ w.curSlot → v.slots slot = w.slots slot) →
      (∀ slot, slot ≠ w.curSlot → ∀ cell ∈ lists slot, v.next cell = w.next cell ∧
        v.prev cell = w.prev cell) →
      (∀ task ∈ w.tasks, v.next task.2 = w.next task.2) →
      Laid v (Function.update lists w.curSlot (before ++ after)) := by
    intro v unlinked here slots others tasks
    have members : ∀ slot cell, cell ∈ Function.update lists w.curSlot (before ++ after) slot →
        cell ∈ lists slot := fun slot cell member => ((laid.mem_remove shape cell slot).mp member).1
    refine ⟨fun slot => ?_, fun first second cell left right => ?_, fun slot cell member => ?_,
      fun task member => ?_, ?_, ?_⟩
    · by_cases same : slot = w.curSlot
      · rw [same, Function.update_self]
        exact here
      · rw [Function.update_of_ne same, slots slot same]
        exact (laid.linked slot).frame (fun cell member => (others slot same cell member).1)
          (fun cell member => (others slot same cell (List.mem_of_mem_tail member)).2)
    · exact laid.apart first second cell (members first cell left) (members second cell right)
    · rw [unlinked.made, unlinked.maxSlots]
      exact laid.known slot cell (members slot cell member)
    · rw [unlinked.tasks] at member
      obtain ⟨known, inside, alone, outside⟩ := laid.queued task member
      rw [unlinked.made, unlinked.maxSlots, tasks task member]
      exact ⟨known, inside, alone, fun slot inner => outside slot (members slot _ inner)⟩
    · rw [unlinked.tasks]
      exact laid.single
    · rw [unlinked.fired, unlinked.made]
      exact laid.fired
  have away : ∀ slot, slot ≠ w.curSlot → ∀ cell ∈ lists slot, cell ∉ before ++ node :: after := by
    intro slot different cell member inner
    rw [← shape] at inner
    exact different (laid.apart slot w.curSlot cell member inner)
  have unqueued : ∀ task ∈ w.tasks, task.2 ∉ before ++ node :: after := by
    intro task member inner
    rw [← shape] at inner
    exact (laid.queued task member).2.2.2 w.curSlot inner
  rcases List.eq_nil_or_concat before with rfl | ⟨front, first, rfl⟩
  · have isHead : w.slots w.curSlot = some node := linked.head_eq
    refine ⟨_, by rw [unlink, if_pos isHead], ?_, ?_⟩
    · exact ⟨fun _ => ⟨rfl, rfl⟩, rfl, rfl, rfl, rfl, rfl, rfl, rfl⟩
    · refine relaid _ ⟨fun _ => ⟨rfl, rfl⟩, rfl, rfl, rfl, rfl, rfl, rfl, rfl⟩ ?_ (fun slot different => ?_)
        (fun slot _ cell _ => ⟨rfl, rfl⟩) (fun task _ => rfl)
      · show LinkedList.Linked w.next w.prev
          (Function.update w.slots w.curSlot (w.node node).next w.curSlot) after
        rw [Function.update_self]
        exact linked.pop
      · exact Function.update_of_ne different _ _
  · rw [List.concat_eq_append, List.append_assoc] at linked
    have nodup := linked.nodup
    have notHead : w.slots w.curSlot ≠ some node := by
      rw [linked.head_eq]
      intro isHead
      cases front with
      | nil =>
        obtain rfl : first = node := Option.some.inj isHead
        exact (List.nodup_cons.mp nodup).1 List.mem_cons_self
      | cons other rest =>
        obtain rfl : other = node := Option.some.inj isHead
        exact (List.nodup_cons.mp nodup).1 (by simp)
    obtain ⟨v, returned, unlinked, slots, nexts, prevs⟩ := unlink_later notHead linked.prev_eq
    refine ⟨v, returned, unlinked, relaid v unlinked ?_ (fun slot _ => by rw [slots])
      (fun slot different cell member => ?_) (fun task member => ?_)⟩
    · rw [List.concat_eq_append, List.append_assoc, nexts, slots]
      refine linked.unlink (fun other head => ?_) (fun other head => ?_)
      · rw [prevs, if_pos (nextNode.trans head)]
      · rw [prevs, if_neg]
        exact fun behind => head (nextNode.symm.trans behind)
    · have outside := away slot different cell member
      rw [List.concat_eq_append, List.append_assoc] at outside
      constructor
      · rw [nexts, Function.update_of_ne]
        rintro rfl
        exact outside (by simp)
      · rw [prevs, if_neg]
        intro behind
        have inner : cell ∈ after := List.mem_of_mem_head? (nextNode.symm.trans behind)
        exact outside (by simp [inner])
    · rw [nexts, Function.update_of_ne]
      intro same
      exact unqueued task member (by simp [same])

end TimerWheel

end YYNet
