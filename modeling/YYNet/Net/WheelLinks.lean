/-
This file proves that the lists of a wheel stay well linked while they are
walked and changed at once. The loop of `tick` holds one node; callbacks and
`tick` itself link new nodes at the heads of slots, the walked one among them,
and the loop then takes its node out through the neighbours the node has by now.

Whatever is linked in the meantime stands in front of the nodes that the loop has
still to visit. So the node that is held is the head and has no use for its link
back, which may be left over from a removed head, or it has a neighbour in front
that the slot keeps alive, and locking the link back finds it. What lies ahead is
always the rest of the list the loop began with.
-/

import YYNet.Net.WheelRepeat

namespace YYNet

open Checked Transition

namespace TimerWheel

/-! ### Links -/

/-- From the head of each slot `next` visits finitely many nodes, all different, and `prev` leads
back from each of them but the head. -/
def WellLinked (w : TimerWheel) : Prop :=
  ∀ slot, ∃ nodes, LinkedList.Linked w.next w.prev (w.slots slot) nodes

/-- `prev.lock()` of a node returns its predecessor, which shared pointers keep alive from the
head of the current slot on. -/
def LocksPrev (w : TimerWheel) (node : Nat) : Prop :=
  ∃ first, w.prev node = some first ∧ w.next first = some node ∧
    LinkedList.Reached w.next (w.slots w.curSlot) first

theorem Laid.wellLinked {w : TimerWheel} {lists : Nat → List Nat} (laid : Laid w lists) :
    WellLinked w :=
  fun slot => ⟨lists slot, laid.linked slot⟩

/-- A node of the current slot's list that is not the head has a predecessor to lock. -/
theorem Laid.locksPrev {w : TimerWheel} {lists : Nat → List Nat} (laid : Laid w lists)
    {before after : List Nat} {node : Nat} (shape : lists w.curSlot = before ++ node :: after)
    (later : w.slots w.curSlot ≠ some node) : LocksPrev w node := by
  have linked := laid.linked w.curSlot
  rw [shape] at linked
  rcases List.eq_nil_or_concat before with rfl | ⟨front, first, rfl⟩
  · exact absurd linked.head_eq later
  · rw [List.concat_eq_append, List.append_assoc] at linked
    refine ⟨first, linked.prev_eq, linked.next_eq, ?_⟩
    rw [LinkedList.reached_iff linked.visits]
    simp

/-! ### The turns of the loop -/

/-- The loop of a tick has visited some nodes and has come to a place. -/
def Traversal (build : Build) (callback : Nat → CallbackRun) (start : TimerWheel)
    (seen : List Nat) (w : TimerWheel) (place : Option Nat) : Prop :=
  Run (Turn build callback) (start, start.slots start.curSlot) seen (w, place)

/-- A turn visits the node its place is at and comes to the next one of the list. -/
theorem Turn.moved {build : Build} {callback : Nat → CallbackRun}
    {state state' : TimerWheel × Option Nat} {node : Nat}
    (turn : Turn build callback state node state') {lists : Nat → List Nat}
    {before ahead : List Nat} (laid : Laid state.1 lists)
    (inside : state.1.curSlot < state.1.maxSlots)
    (shape : lists state.1.curSlot = before ++ ahead) (place : state.2 = ahead.head?) :
    ∃ longer before' after, ahead = node :: after ∧ state'.2 = after.head? ∧
      longer state'.1.curSlot = before' ++ after ∧
      Moved (state.1.ticks + 1) state.1 lists ahead state'.1 longer after := by
  cases turn with
  | rotated w node left =>
    obtain ⟨after, rfl⟩ := List.head?_eq_some_iff.mp place.symm
    have linked := laid.linked w.curSlot
    rw [shape] at linked
    refine ⟨lists, before ++ [node], after, rfl, linked.next_eq, ?_,
      moved_of_rotation laid shape left⟩
    rw [List.append_assoc]
    exact shape
  | ran w executed inserted unlinked node spent executes inserts unlinks =>
    obtain ⟨after, rfl⟩ := List.head?_eq_some_iff.mp place.symm
    obtain ⟨longer, new, nextNode, fires⟩ := fires_of_turn laid (Nat.zero_lt_of_lt inside) inside
      shape spent executes inserts unlinks
    refine ⟨_, new ++ before, after, rfl, nextNode, ?_, fires.moved⟩
    rw [fires.moved.curSlot, Function.update_self]

/-- Where the loop is, the nodes it has visited and those ahead make up the list it began with,
and what has been linked since stands in front of those ahead. -/
theorem run_turns_moved {build : Build} {callback : Nat → CallbackRun} {start : TimerWheel}
    {lists : Nat → List Nat} {seen : List Nat} {state : TimerWheel × Option Nat}
    (settled : Settled start lists) (inside : start.curSlot < start.maxSlots)
    (traversal : Run (Turn build callback) (start, start.slots start.curSlot) seen state) :
    ∃ longer before ahead, lists start.curSlot = seen ++ ahead ∧ state.2 = ahead.head? ∧
      longer state.1.curSlot = before ++ ahead ∧
      Moved (start.ticks + 1) start lists (lists start.curSlot) state.1 longer ahead := by
  induction traversal with
  | nil =>
    exact ⟨lists, [], lists start.curSlot, rfl, (settled.laid.linked _).head_eq, rfl,
      Moved.refl settled.laid⟩
  | @snoc middle _ _ node _ turn inductionHypothesis =>
    obtain ⟨longer, before, ahead, whole, place, shape, moved⟩ := inductionHypothesis
    have insideThere : middle.1.curSlot < middle.1.maxSlots := by
      rw [moved.curSlot, moved.maxSlots]
      exact inside
    obtain ⟨longest, before', after, rfl, place', shape', moves⟩ :=
      turn.moved moved.laid insideThere shape place
    rw [moved.ticks] at moves
    refine ⟨longest, before', after, ?_, place', shape', moved.trans moves⟩
    rw [whole, List.append_assoc]
    rfl

/-! ### A tick -/

/-- The traversal of a tick that starts at a wheel: the lists are well linked at every place and
inside every callback, a node that is taken out and is not the head can lock its predecessor, and
the nodes of the list at the start are visited in their order, each once and no others. -/
structure TraversesOnce (build : Build) (callback : Nat → CallbackRun) (start : TimerWheel) :
    Prop where
  linked : ∀ seen w place, Traversal build callback start seen w place → WellLinked w
  called : ∀ seen w node steps called, Traversal build callback start seen w (some node) →
    (w.countDown node).runSteps steps = .ok called → WellLinked called
  locks : ∀ seen w node executed inserted, Traversal build callback start seen w (some node) →
    ¬ 0 < (w.node node).rotation → w.execute build node (callback node) = .ok executed →
    executed.reinsert node = .ok inserted →
    WellLinked inserted ∧
      (inserted.slots inserted.curSlot ≠ some node → LocksPrev inserted node)
  once : ∃ present, LinkedList.Visits start.next (start.slots start.curSlot) present ∧
    present.Nodup ∧ ∀ seen w place, Traversal build callback start seen w place →
      ∃ ahead, present = seen ++ ahead ∧ place = ahead.head?
  /-- No visited node is inserted during the tick. -/
  old : ∀ seen w place, Traversal build callback start seen w place →
    ∀ node ∈ seen, node < start.made
  /-- The tick goes through to the end of the list, unless a slot overflows or an assertion of
  `execute` fails. -/
  ends : (∃ seen w, Traversal build callback start seen w none ∧
      start.tick build callback = .ok w.advance) ∨
    ∃ fault, start.tick build callback = .error fault ∧
      (fault = .overflow ∨ fault = .assertFailed ∧ build = .debug)

theorem traversesOnce_of_settled (build : Build) (callback : Nat → CallbackRun)
    {start : TimerWheel} {lists : Nat → List Nat} (settled : Settled start lists) :
    TraversesOnce build callback start := by
  have inside : start.curSlot < start.maxSlots := by
    rw [settled.curSlot]
    exact Nat.mod_lt _ settled.positive
  have whole := settled.laid.linked start.curSlot
  refine ⟨fun seen w place traversal => ?_, fun seen w node steps called traversal returned => ?_,
    fun seen w node executed inserted traversal spent executes inserts => ?_,
    ⟨lists start.curSlot, whole.visits, whole.nodup, fun seen w place traversal => ?_⟩,
    fun seen w place traversal node member => ?_, ?_⟩
  · obtain ⟨_, _, _, _, _, _, moved⟩ := run_turns_moved settled inside traversal
    exact moved.laid.wellLinked
  · obtain ⟨longer, before, ahead, -, place, shape, moved⟩ :=
      run_turns_moved settled inside traversal
    obtain ⟨after, rfl⟩ := List.head?_eq_some_iff.mp place.symm
    have here : node ∈ longer w.curSlot := by
      rw [shape]
      simp
    have positive : 0 < w.maxSlots := by
      rw [moved.maxSlots]
      exact settled.positive
    have counted := moved.laid.countDown (moved.laid.known _ _ here).1
    rcases runSteps_cases counted positive steps with
      stopped | ⟨v, longest, called', grown⟩
    · cases stopped.symm.trans returned
    · obtain rfl := Except.ok.inj (called'.symm.trans returned)
      exact grown.laid.wellLinked
  · obtain ⟨longer, before, ahead, -, place, shape, moved⟩ :=
      run_turns_moved settled inside traversal
    obtain ⟨after, rfl⟩ := List.head?_eq_some_iff.mp place.symm
    obtain ⟨longest, new, grown, grownShape⟩ := inserted_shape moved.laid
      (moved.maxSlots ▸ settled.positive) shape executes inserts
    exact ⟨grown.laid.wellLinked, grown.laid.locksPrev grownShape⟩
  · obtain ⟨_, _, ahead, parts, place', _, _⟩ := run_turns_moved settled inside traversal
    exact ⟨ahead, parts, place'⟩
  · obtain ⟨_, _, ahead, parts, _⟩ := run_turns_moved settled inside traversal
    have listed : node ∈ lists start.curSlot := by
      rw [parts]
      exact List.mem_append_left _ member
    exact (settled.laid.known _ node listed).1
  · rcases tick_cases settled build callback with stopped | ⟨v, -, returned, -⟩
    · exact .inr stopped
    · obtain ⟨walked, walks, last⟩ := bind_eq_ok returned
      obtain ⟨seen, traversal⟩ := run_of_walk walks
      obtain rfl := Except.ok.inj last
      exact .inl ⟨seen, walked, traversal, returned⟩

/-! ### Whole runs -/

/-- Behind any insertions and ticks the lists of all slots are well linked, and so they are in the
middle of the next tick, which visits what it found in the slot and nothing else. A wheel is made
with a slot interval of at least a second, by which `insert` divides. -/
theorem run_wellLinked (build : Build) (maxSlots : Nat) (si : Int) (timers : Nat → Timer)
    (positive : 0 < maxSlots) (_spaced : 1 ≤ si) (actions : List WheelAction) (w : TimerWheel)
    (run : Run (StepOf (step build)) (initial maxSlots si timers) actions w) :
    WellLinked w ∧ ∀ callback, TraversesOnce build callback w := by
  obtain ⟨lists, kept⟩ := run_kept (initial_settled maxSlots si timers positive) run
  exact ⟨kept.settled.laid.wellLinked, fun callback =>
    traversesOnce_of_settled build callback kept.settled⟩

/-- Two timers a round away, when the round is over: the head of the slot is to run and to be
linked again in front of itself. -/
theorem run_wellLinked_reinserted :
    ∃ w, Run (StepOf (step .debug)) (initial 2 1 fun _ =>
        { interval := 2, executeCount := 2, expiration := 0 })
        [.insert 0, .insert 1, .tick fun _ => {}, .tick fun _ => {}] w ∧
      w.slots w.curSlot = some 1 ∧
      WellLinked w ∧ ∀ callback, TraversesOnce .debug callback w := by
  have execution : ((exec (step .debug) (initial 2 1 fun _ =>
      { interval := 2, executeCount := 2, expiration := 0 })
      [.insert 0, .insert 1, .tick fun _ => {}, .tick fun _ => {}]).map fun w =>
        w.slots w.curSlot) = some (some 1) := by decide
  obtain ⟨w, executed, head⟩ := Option.map_eq_some_iff.mp execution
  have run := run_of_exec executed
  exact ⟨w, run, head, run_wellLinked .debug 2 1 _ (by decide) le_rfl _ w run⟩

end TimerWheel

end YYNet
