/-
This file proves when the timers of a wheel fire. Every node that is linked has
one tick in which it is due: the distance of its slot from the current one, and
as many rounds of the wheel as the node has rotations left. No step changes that
tick, whatever a callback inserts into the list that is being walked: the walk
goes forward, and new nodes are linked in front.

A node that is linked by a task of the loop gets its slot when `insert` is called
and its distance when the task runs. Ticks in between bring the slot nearer, and
behind the slot the node waits for a further round.
-/

import YYNet.Net.TimerWheel

namespace YYNet

open Checked Transition

namespace TimerWheel

/-! ### The tick of a node -/

/-- The ticks in which a node's timer has run. -/
def firings (w : TimerWheel) (node : Nat) : List Nat :=
  (w.fired.filter fun firing => firing.1 = node).map Prod.snd

/-- The number of ticks from the current slot to another. -/
def distance (w : TimerWheel) (slot : Nat) : Nat :=
  if w.curSlot ≤ slot then slot - w.curSlot else slot + w.maxSlots - w.curSlot

/-- The number of ticks until a node of a slot is visited: a node of the current slot that is
not ahead of the walk is visited in the next round. -/
def wait (w : TimerWheel) (ahead : List Nat) (slot node : Nat) : Nat :=
  if slot = w.curSlot ∧ node ∉ ahead then w.maxSlots else w.distance slot

/-- The tick of a node: it is linked and waits for it, or it ran in that tick and is gone.
`begun` is the number of ticks that have begun. -/
inductive Due (w : TimerWheel) (lists : Nat → List Nat) (ahead : List Nat) (begun : Nat)
    (node due : Nat) : Prop
  | pending (slot : Nat) (member : node ∈ lists slot) (unfired : w.firings node = [])
      (tick : due = w.ticks + w.wait ahead slot node + (w.node node).rotation * w.maxSlots)
  | gone (outside : ∀ slot, node ∉ lists slot) (past : due < begun)
      (once : w.firings node = [due])

/-- A node that is not made has not run. -/
theorem firings_eq_nil {w : TimerWheel} {lists : Nat → List Nat} (laid : Laid w lists) {node : Nat}
    (fresh : w.made ≤ node) : w.firings node = [] := by
  unfold firings
  rw [List.map_eq_nil_iff, List.filter_eq_nil_iff]
  intro firing member same
  have known := laid.fired firing member
  rw [of_decide_eq_true same] at known
  exact absurd known (not_lt.mpr fresh)

theorem firings_congr {w v : TimerWheel} (same : v.fired = w.fired) (node : Nat) :
    v.firings node = w.firings node := by
  unfold firings
  rw [same]

/-- A node with a tick is made. -/
theorem Due.known {w : TimerWheel} {lists : Nat → List Nat} {ahead : List Nat}
    {begun node due : Nat} (laid : Laid w lists) (isDue : Due w lists ahead begun node due) :
    node < w.made := by
  cases isDue with
  | pending slot member unfired tick => exact (laid.known slot node member).1
  | gone outside past once =>
    by_contra fresh
    rw [firings_eq_nil laid (not_lt.mp fresh)] at once
    cases once

/-- What has run so far of a node with a tick, between two ticks. -/
theorem Due.firings_eq {w : TimerWheel} {lists : Nat → List Nat} {ahead : List Nat}
    {node due : Nat} (isDue : Due w lists ahead w.ticks node due) :
    w.firings node = if due < w.ticks then [due] else [] := by
  cases isDue with
  | pending slot member unfired tick =>
    rw [unfired, if_neg]
    omega
  | gone outside past once => rw [once, if_pos past]

/-! ### What keeps the ticks -/

/-- A part of a run: the nodes keep their ticks, and new nodes have one. -/
structure Moved (begun : Nat) (w : TimerWheel) (lists : Nat → List Nat) (ahead : List Nat)
    (v : TimerWheel) (longer : Nat → List Nat) (behind : List Nat) : Prop where
  laid : Laid v longer
  keeps : ∀ node due, Due w lists ahead begun node due → Due v longer behind begun node due
  fresh : ∀ node, w.made ≤ node → node < v.made → ∃ due, Due v longer behind begun node due
  outside : ∀ node, node < w.made → (∀ slot, node ∉ lists slot) →
    (∀ slot, node ∉ longer slot) ∧ (v.node node).rotation = (w.node node).rotation ∧
      v.firings node = w.firings node
  timers : ∀ node, node < w.made → (v.node node).timer = (w.node node).timer
  made : w.made ≤ v.made
  maxSlots : v.maxSlots = w.maxSlots
  si : v.si = w.si
  curSlot : v.curSlot = w.curSlot
  tasks : v.tasks = w.tasks
  ticks : v.ticks = w.ticks

theorem Moved.refl {begun : Nat} {w : TimerWheel} {lists : Nat → List Nat} {ahead : List Nat}
    (laid : Laid w lists) : Moved begun w lists ahead w lists ahead where
  laid := laid
  keeps _ _ isDue := isDue
  fresh _ low high := absurd high (not_lt.mpr low)
  outside _ _ away := ⟨away, rfl, rfl⟩
  timers _ _ := rfl
  made := le_refl _
  maxSlots := rfl
  si := rfl
  curSlot := rfl
  tasks := rfl
  ticks := rfl

theorem Moved.trans {begun : Nat} {w v u : TimerWheel} {lists longer longest : Nat → List Nat}
    {ahead behind rest : List Nat} (first : Moved begun w lists ahead v longer behind)
    (second : Moved begun v longer behind u longest rest) :
    Moved begun w lists ahead u longest rest where
  laid := second.laid
  keeps node due isDue := second.keeps node due (first.keeps node due isDue)
  fresh node low high := by
    by_cases old : node < v.made
    · obtain ⟨due, isDue⟩ := first.fresh node low old
      exact ⟨due, second.keeps node due isDue⟩
    · exact second.fresh node (not_lt.mp old) high
  outside node low away := by
    obtain ⟨stays, rotation, firings⟩ := first.outside node low away
    obtain ⟨remains, rotation', firings'⟩ := second.outside node (low.trans_le first.made) stays
    exact ⟨remains, rotation'.trans rotation, firings'.trans firings⟩
  timers node low :=
    (second.timers node (low.trans_le first.made)).trans (first.timers node low)
  made := first.made.trans second.made
  maxSlots := second.maxSlots.trans first.maxSlots
  si := second.si.trans first.si
  curSlot := second.curSlot.trans first.curSlot
  tasks := second.tasks.trans first.tasks
  ticks := second.ticks.trans first.ticks

theorem wait_congr {w v : TimerWheel} {ahead behind : List Nat} {node : Nat}
    (maxSlots : v.maxSlots = w.maxSlots) (curSlot : v.curSlot = w.curSlot)
    (aheads : node ∈ ahead ↔ node ∈ behind) (slot : Nat) :
    v.wait behind slot node = w.wait ahead slot node := by
  unfold wait distance
  simp only [maxSlots, curSlot, aheads]

theorem wait_ahead (w : TimerWheel) {ahead : List Nat} {node : Nat} (member : node ∈ ahead) :
    w.wait ahead w.curSlot node = 0 := by
  simp [wait, distance, member]

theorem wait_passed (w : TimerWheel) {ahead : List Nat} {node : Nat} (passed : node ∉ ahead) :
    w.wait ahead w.curSlot node = w.maxSlots := by
  simp [wait, passed]

/-- Between two ticks every node of the current slot is ahead. -/
theorem wait_listed (w : TimerWheel) {lists : Nat → List Nat} {slot node : Nat}
    (member : node ∈ lists slot) : w.wait (lists w.curSlot) slot node = w.distance slot := by
  unfold wait
  exact if_neg fun passed => passed.2 (passed.1 ▸ member)

/-- Nodes that a wheel does not lose keep their ticks. -/
theorem Due.congr {w v : TimerWheel} {lists longer : Nat → List Nat} {ahead behind : List Nat}
    {begun node due : Nat} (isDue : Due w lists ahead begun node due)
    (members : ∀ slot, node ∈ lists slot ↔ node ∈ longer slot)
    (aheads : node ∈ ahead ↔ node ∈ behind) (firings : v.firings node = w.firings node)
    (rotation : (v.node node).rotation = (w.node node).rotation)
    (maxSlots : v.maxSlots = w.maxSlots) (curSlot : v.curSlot = w.curSlot)
    (ticks : v.ticks = w.ticks) : Due v longer behind begun node due := by
  cases isDue with
  | pending slot member unfired tick =>
    refine .pending slot ((members slot).mp member) (firings.trans unfired) ?_
    rw [tick, ticks, rotation, maxSlots, wait_congr maxSlots curSlot aheads]
  | gone outside past once =>
    exact .gone (fun slot member => outside slot ((members slot).mpr member)) past
      (firings.trans once)

/-- An old node is in a grown list when it was in the list. -/
theorem Grown.members {w v : TimerWheel} {lists longer : Nat → List Nat}
    (grown : Grown w lists v longer) {node : Nat} (known : node < w.made) (slot : Nat) :
    node ∈ lists slot ↔ node ∈ longer slot := by
  obtain ⟨new, shape, fresh⟩ := grown.lists slot
  rw [shape, List.mem_append]
  constructor
  · exact .inr
  · rintro (late | early)
    · exact absurd known (not_lt.mpr (fresh node late))
    · exact early

/-- A new node of a grown wheel has a tick. -/
theorem Grown.fresh {w v : TimerWheel} {lists longer : Nat → List Nat}
    (grown : Grown w lists v longer) (ahead : List Nat) (begun : Nat) {node : Nat}
    (low : w.made ≤ node) (high : node < v.made) (laid : Laid w lists) :
    ∃ due, Due v longer ahead begun node due := by
  obtain ⟨slot, member⟩ := grown.more node low high
  refine ⟨_, .pending slot member ?_ rfl⟩
  rw [firings_congr grown.fired]
  exact firings_eq_nil laid low

/-- Insertions keep the ticks. -/
theorem Grown.moved {w v : TimerWheel} {lists longer : Nat → List Nat}
    (grown : Grown w lists v longer) (laid : Laid w lists) (begun : Nat) {ahead behind : List Nat}
    (aheads : ∀ node, node < w.made → (node ∈ ahead ↔ node ∈ behind)) :
    Moved begun w lists ahead v longer behind where
  laid := grown.laid
  keeps node due isDue := by
    have known := isDue.known laid
    exact isDue.congr (grown.members known) (aheads node known) (firings_congr grown.fired node)
      (grown.data node known).1 grown.maxSlots grown.curSlot grown.ticks
  fresh _ low high := grown.fresh behind begun low high laid
  outside node low away :=
    ⟨fun slot member => away slot ((grown.members low slot).mpr member), (grown.data node low).1,
      firings_congr grown.fired node⟩
  timers node low := (grown.data node low).2
  made := grown.made
  maxSlots := grown.maxSlots
  si := grown.si
  curSlot := grown.curSlot
  tasks := grown.tasks
  ticks := grown.ticks

/-! ### The walk of a tick -/

/-- A node with rotations left waits for the next round. -/
theorem moved_of_rotation {w : TimerWheel} {lists : Nat → List Nat} (laid : Laid w lists)
    {before after : List Nat} {node : Nat} (shape : lists w.curSlot = before ++ node :: after)
    (left : 0 < (w.node node).rotation) :
    Moved (w.ticks + 1) w lists (node :: after)
      (w.setNode node { w.node node with rotation := (w.node node).rotation - 1 }) lists after := by
  have here : node ∈ lists w.curSlot := by
    rw [shape]
    simp
  have others : ∀ other, other ≠ node → (w.setNode node { w.node node with
      rotation := (w.node node).rotation - 1 }).node other = w.node other := by
    intro other different
    rw [setNode_node, if_neg different]
  have self : (w.setNode node { w.node node with
      rotation := (w.node node).rotation - 1 }).node node =
        { w.node node with rotation := (w.node node).rotation - 1 } := by
    rw [setNode_node, if_pos rfl]
  have nexts : TimerWheel.next (w.setNode node { w.node node with
      rotation := (w.node node).rotation - 1 }) = w.next := by
    funext other
    by_cases same : other = node
    · simp only [next, same, self]
    · simp only [next, others other same]
  have prevs : TimerWheel.prev (w.setNode node { w.node node with
      rotation := (w.node node).rotation - 1 }) = w.prev := by
    funext other
    by_cases same : other = node
    · simp only [prev, same, self]
    · simp only [prev, others other same]
  refine ⟨laid.frame nexts prevs rfl rfl rfl rfl laid.fired, fun other due isDue => ?_,
    fun other low high => absurd high (not_lt.mpr low), fun other low away => ⟨away, ?_, rfl⟩,
    fun other low => ?_, le_refl _, rfl, rfl, rfl, rfl, rfl⟩
  · by_cases same : other = node
    · subst same
      cases isDue with
      | pending slot member unfired tick =>
        obtain rfl := laid.apart slot w.curSlot other member here
        refine .pending w.curSlot member unfired ?_
        have passed : other ∉ after := by
          have nodup := (laid.linked w.curSlot).nodup
          rw [shape] at nodup
          exact (List.nodup_cons.mp (List.nodup_append.mp nodup).2.1).1
        have waits : TimerWheel.wait (w.setNode other { w.node other with
            rotation := (w.node other).rotation - 1 }) after w.curSlot other = w.maxSlots :=
          wait_passed _ passed
        rw [waits, self, tick, w.wait_ahead List.mem_cons_self]
        show w.ticks + 0 + (w.node other).rotation * w.maxSlots =
          w.ticks + w.maxSlots + ((w.node other).rotation - 1) * w.maxSlots
        obtain ⟨fewer, isMore⟩ := Nat.exists_eq_succ_of_ne_zero left.ne'
        rw [isMore, Nat.succ_sub_one, Nat.succ_mul]
        omega
      | gone outside past once => exact absurd here (outside _)
    · exact isDue.congr (fun _ => Iff.rfl) (by simp [same]) rfl (by rw [others other same]) rfl rfl
        rfl
  · have different : other ≠ node := fun same => away _ (same ▸ here)
    rw [others other different]
  · by_cases same : other = node
    · rw [same, self]
    · rw [others other same]

/-- A node without rotations runs and is gone. -/
theorem moved_of_fire {w v u : TimerWheel} {lists longer : Nat → List Nat} (laid : Laid w lists)
    {before after : List Nat} {node : Nat} (shape : lists w.curSlot = before ++ node :: after)
    (spent : (w.node node).rotation = 0) (grown : Grown (w.countDown node) lists v longer)
    {new : List Nat} (grownShape : longer w.curSlot = new ++ node :: after)
    (unlinked : Unlinked v u) (relaid : Laid u (Function.update longer w.curSlot (new ++ after))) :
    Moved (w.ticks + 1) w lists (node :: after) u (Function.update longer w.curSlot (new ++ after))
      after := by
  have here : node ∈ lists w.curSlot := by
    rw [shape]
    simp
  have counted := laid.countDown (laid.known _ _ here).1
  have removed := grown.laid.mem_remove grownShape
  have members : ∀ other, other ≠ node → ∀ slot, other ∈ longer slot ↔
      other ∈ Function.update longer w.curSlot (new ++ after) slot := by
    intro other different slot
    rw [removed, and_iff_left different]
  have firings : ∀ other,
      u.firings other = w.firings other ++ if other = node then [w.ticks] else [] := by
    intro other
    rw [firings_congr unlinked.fired, firings_congr grown.fired]
    unfold TimerWheel.firings countDown
    rw [List.filter_append, List.map_append]
    by_cases same : node = other
    · simp [same]
    · simp [same, Ne.symm same]
  refine ⟨relaid, fun other due isDue => ?_, fun other low high => ?_,
    fun other low away => ⟨?_, ?_, ?_⟩, fun other low => ?_, ?_, ?_, ?_, ?_, ?_, ?_⟩
  · have known := isDue.known laid
    by_cases same : other = node
    · subst same
      cases isDue with
      | pending slot member unfired tick =>
        obtain rfl := laid.apart slot w.curSlot other member here
        rw [w.wait_ahead List.mem_cons_self, spent] at tick
        refine .gone (fun slot inner => ?_) (by omega) ?_
        · exact ((removed _ _).mp inner).2 rfl
        · rw [firings, unfired, if_pos rfl, tick]
          simp
      | gone outside past once => exact absurd here (outside _)
    · refine isDue.congr (fun slot => ?_) (by simp [same]) ?_ ?_ ?_ ?_ ?_
      · exact (grown.members known slot).trans (members other same slot)
      · rw [firings, if_neg same, List.append_nil]
      · exact (unlinked.data other).1.trans (grown.data other known).1
      · exact unlinked.maxSlots.trans grown.maxSlots
      · exact unlinked.curSlot.trans grown.curSlot
      · exact unlinked.ticks.trans grown.ticks
  · rw [unlinked.made] at high
    have different : other ≠ node := by
      rintro rfl
      exact absurd (laid.known _ _ here).1 (not_lt.mpr low)
    obtain ⟨due, isDue⟩ := grown.fresh after (w.ticks + 1) low high counted
    exact ⟨due, isDue.congr (members other different) Iff.rfl (firings_congr unlinked.fired other)
      (unlinked.data other).1 unlinked.maxSlots unlinked.curSlot unlinked.ticks⟩
  · intro slot inner
    have different : other ≠ node := fun same => away _ (same ▸ here)
    exact away slot ((grown.members low slot).mpr ((members other different slot).mpr inner))
  · exact (unlinked.data other).1.trans (grown.data other low).1
  · have different : other ≠ node := fun same => away _ (same ▸ here)
    rw [firings, if_neg different, List.append_nil]
  · exact (unlinked.data other).2.trans (grown.data other low).2
  · rw [unlinked.made]
    exact grown.made
  · exact unlinked.maxSlots.trans grown.maxSlots
  · exact unlinked.si.trans grown.si
  · exact unlinked.curSlot.trans grown.curSlot
  · exact unlinked.tasks.trans grown.tasks
  · exact unlinked.ticks.trans grown.ticks

/-- The walk over the rest of the current slot's list stops at an overflow, or in a debug build
at an assertion, or goes to the end and keeps every tick. -/
theorem walk_cases (build : Build) (callback : Nat → CallbackRun) (ahead : List Nat)
    {w : TimerWheel} {lists : Nat → List Nat} (laid : Laid w lists) (positive : 0 < w.maxSlots)
    {before : List Nat} (shape : lists w.curSlot = before ++ ahead) {fuel : Nat}
    (enough : ahead.length ≤ fuel) :
    (∃ fault, walk build callback fuel ahead.head? w = .error fault ∧
      (fault = .overflow ∨ fault = .assertFailed ∧ build = .debug)) ∨
      ∃ v longer, walk build callback fuel ahead.head? w = .ok v ∧
        Moved (w.ticks + 1) w lists ahead v longer [] := by
  -- The induction is on the nodes ahead; what callbacks insert goes to `before`.
  induction ahead generalizing w lists before fuel with
  | nil =>
    refine .inr ⟨w, lists, ?_, Moved.refl laid⟩
    cases fuel <;> rfl
  | cons node after inductionHypothesis =>
    obtain ⟨fuel, rfl⟩ : ∃ less, fuel = less + 1 := ⟨fuel - 1, by simp at enough; omega⟩
    have fits : after.length ≤ fuel := by simpa using enough
    have here : node ∈ lists w.curSlot := by
      rw [shape]
      simp
    have linked := laid.linked w.curSlot
    rw [shape] at linked
    rw [List.head?_cons, walk]
    by_cases left : 0 < (w.node node).rotation
    · rw [if_pos left, show (w.node node).next = after.head? from linked.next_eq]
      have moved := moved_of_rotation laid shape left
      have shape' : lists w.curSlot = before ++ [node] ++ after := by
        rw [shape]
        simp
      rcases inductionHypothesis moved.laid positive shape' fits with
        stopped | ⟨v, longer, walked, moves⟩
      · exact .inl stopped
      · exact .inr ⟨v, longer, walked, moved.trans moves⟩
    · rw [if_neg left, ← bind_assoc]
      rcases fire_cases laid positive build node (laid.known _ _ here).1 (callback node) with
        ⟨fault, stopped, why⟩ | ⟨v, longer, fired, grown⟩
      · refine .inl ⟨fault, ?_, why⟩
        rw [stopped]
        rfl
      · obtain ⟨new, longerShape, -⟩ := grown.lists w.curSlot
        have grownShape : longer w.curSlot = (new ++ before) ++ node :: after := by
          rw [longerShape, shape, List.append_assoc]
        have sameSlot : v.curSlot = w.curSlot := grown.curSlot
        have shapeThere : longer v.curSlot = (new ++ before) ++ node :: after := by
          rw [sameSlot, grownShape]
        obtain ⟨u, returned, unlinked, relaid⟩ := unlink_eq_ok grown.laid node _ _ shapeThere
        rw [sameSlot] at relaid
        have moved := moved_of_fire laid shape (by omega) grown grownShape unlinked relaid
        have linkedThere := grown.laid.linked w.curSlot
        rw [grownShape] at linkedThere
        have shape' : Function.update longer w.curSlot (new ++ before ++ after) u.curSlot =
            new ++ before ++ after := by
          rw [moved.curSlot, Function.update_self]
        rw [fired, ok_bind, returned, ok_bind,
          show (v.node node).next = after.head? from linkedThere.next_eq]
        rcases inductionHypothesis moved.laid (by rwa [moved.maxSlots]) shape' fits with
          stopped | ⟨final, longest, walked, moves⟩
        · exact .inl stopped
        · rw [moved.ticks] at moves
          exact .inr ⟨final, longest, walked, moved.trans moves⟩

/-! ### Between two ticks -/

/-- What holds of a wheel between two ticks. -/
structure Settled (w : TimerWheel) (lists : Nat → List Nat) : Prop where
  laid : Laid w lists
  positive : 0 < w.maxSlots
  curSlot : w.curSlot = w.ticks % w.maxSlots
  due : ∀ node, node < w.made → (∀ task ∈ w.tasks, task.2 ≠ node) →
    ∃ due, Due w lists (lists w.curSlot) w.ticks node due
  unrun : ∀ task ∈ w.tasks, w.firings task.2 = []

/-- What every step keeps: the ticks of the nodes, and the tasks that wait. -/
structure Kept (w : TimerWheel) (lists : Nat → List Nat) (v : TimerWheel)
    (longer : Nat → List Nat) : Prop where
  settled : Settled v longer
  keeps : ∀ node due, Due w lists (lists w.curSlot) w.ticks node due →
    Due v longer (longer v.curSlot) v.ticks node due
  tasks : ∀ task ∈ v.tasks, task.2 < w.made →
    task ∈ w.tasks ∧ (v.node task.2).rotation = (w.node task.2).rotation
  timers : ∀ node, node < w.made → (v.node node).timer = (w.node node).timer
  made : w.made ≤ v.made
  maxSlots : v.maxSlots = w.maxSlots
  si : v.si = w.si
  ticks : w.ticks ≤ v.ticks

theorem Kept.refl {w : TimerWheel} {lists : Nat → List Nat} (settled : Settled w lists) :
    Kept w lists w lists where
  settled := settled
  keeps _ _ isDue := isDue
  tasks _ member _ := ⟨member, rfl⟩
  timers _ _ := rfl
  made := le_refl _
  maxSlots := rfl
  si := rfl
  ticks := le_refl _

theorem Kept.trans {w v u : TimerWheel} {lists longer longest : Nat → List Nat}
    (first : Kept w lists v longer) (second : Kept v longer u longest) :
    Kept w lists u longest where
  settled := second.settled
  keeps node due isDue := second.keeps node due (first.keeps node due isDue)
  tasks task member low := by
    obtain ⟨early, rotation⟩ := second.tasks task member (low.trans_le first.made)
    obtain ⟨earlier, rotation'⟩ := first.tasks task early low
    exact ⟨earlier, rotation.trans rotation'⟩
  timers node low :=
    (second.timers node (low.trans_le first.made)).trans (first.timers node low)
  made := first.made.trans second.made
  maxSlots := second.maxSlots.trans first.maxSlots
  si := second.si.trans first.si
  ticks := first.ticks.trans second.ticks

theorem initial_settled (maxSlots : Nat) (si : Int) (timer : Nat → Timer)
    (positive : 0 < maxSlots) : Settled (initial maxSlots si timer) fun _ => [] where
  laid := initial_laid maxSlots si timer
  positive := positive
  curSlot := (Nat.zero_mod maxSlots).symm
  due node known := absurd known (Nat.not_lt_zero node)
  unrun task member := by simp [initial] at member

/-- Insertions on the loop thread keep the ticks. -/
theorem kept_of_grown {w v : TimerWheel} {lists longer : Nat → List Nat}
    (settled : Settled w lists) (grown : Grown w lists v longer) : Kept w lists v longer := by
  have moved : Moved w.ticks w lists (lists w.curSlot) v longer (longer v.curSlot) := by
    refine grown.moved settled.laid w.ticks fun node known => ?_
    rw [grown.curSlot]
    exact grown.members known w.curSlot
  refine ⟨⟨grown.laid, ?_, ?_, fun node known unqueued => ?_, fun task member => ?_⟩,
    fun node due isDue => ?_, fun task member low => ?_, fun node low => (grown.data node low).2,
    grown.made, grown.maxSlots, grown.si, grown.ticks.ge⟩
  · rw [grown.maxSlots]
    exact settled.positive
  · rw [grown.curSlot, grown.ticks, grown.maxSlots]
    exact settled.curSlot
  · rw [grown.ticks]
    by_cases old : node < w.made
    · rw [grown.tasks] at unqueued
      obtain ⟨due, isDue⟩ := settled.due node old unqueued
      exact ⟨due, moved.keeps node due isDue⟩
    · exact moved.fresh node (not_lt.mp old) known
  · rw [grown.tasks] at member
    rw [firings_congr grown.fired]
    exact settled.unrun task member
  · rw [grown.ticks]
    exact moved.keeps node due isDue
  · rw [grown.tasks] at member
    exact ⟨member, (grown.data task.2 low).1⟩

/-! ### A tick -/

/-- The step to the next slot brings every slot nearer by one. -/
theorem wait_next {w v : TimerWheel} {node slot : Nat} {ahead : List Nat}
    (inside : w.curSlot < w.maxSlots) (slotInside : slot < w.maxSlots)
    (maxSlots : v.maxSlots = w.maxSlots) (curSlot : v.curSlot = (w.curSlot + 1) % w.maxSlots)
    (visited : slot = v.curSlot → node ∈ ahead) :
    w.wait [] slot node = 1 + v.wait ahead slot node := by
  have waits : v.wait ahead slot node = v.distance slot := by
    unfold wait
    exact if_neg fun passed => passed.2 (visited passed.1)
  have next : v.curSlot = if w.curSlot + 1 = w.maxSlots then 0 else w.curSlot + 1 := by
    rw [curSlot]
    split
    · rename_i last
      rw [last, Nat.mod_self]
    · exact Nat.mod_eq_of_lt (by omega)
  rw [waits]
  unfold wait distance
  rw [maxSlots, next]
  by_cases same : slot = w.curSlot
  · rw [if_pos ⟨same, List.not_mem_nil⟩]
    split <;> split <;> omega
  · rw [if_neg fun passed => same passed.1]
    split <;> split <;> split <;> omega

/-- What is left when the walk is over is due as before, counted from the next slot on. -/
theorem Due.advance {w : TimerWheel} {lists : Nat → List Nat} {node due : Nat}
    (laid : Laid w lists) (inside : w.curSlot < w.maxSlots)
    (isDue : Due w lists [] (w.ticks + 1) node due) :
    Due w.advance lists (lists w.advance.curSlot) w.advance.ticks node due := by
  cases isDue with
  | pending slot member unfired tick =>
    refine .pending slot member unfired ?_
    have nearer : w.wait [] slot node =
        1 + w.advance.wait (lists w.advance.curSlot) slot node :=
      wait_next inside (laid.known slot node member).2 rfl rfl (fun same => same ▸ member)
    rw [tick, nearer]
    show _ = w.ticks + 1 + _ + (w.node node).rotation * w.maxSlots
    omega
  | gone outside past once => exact .gone outside past once

/-- A tick that begins does not change what has run. -/
theorem Due.begin {w : TimerWheel} {lists : Nat → List Nat} {ahead : List Nat}
    {begun node due : Nat} (isDue : Due w lists ahead begun node due) :
    Due w lists ahead (begun + 1) node due := by
  cases isDue with
  | pending slot member unfired tick => exact .pending slot member unfired tick
  | gone outside past once => exact .gone outside (past.trans (Nat.lt_succ_self _)) once

/-- A walk over the whole list of the current slot and the step to the next slot. -/
theorem kept_of_walk {w v : TimerWheel} {lists longer : Nat → List Nat}
    (settled : Settled w lists) (inside : w.curSlot < w.maxSlots)
    (moved : Moved (w.ticks + 1) w lists (lists w.curSlot) v longer []) :
    Kept w lists v.advance longer := by
  have insideThere : v.curSlot < v.maxSlots := by
    rw [moved.curSlot, moved.maxSlots]
    exact inside
  have begun : w.ticks + 1 = v.ticks + 1 := by rw [moved.ticks]
  have keeps : ∀ node due, Due w lists (lists w.curSlot) w.ticks node due →
      Due v.advance longer (longer v.advance.curSlot) v.advance.ticks node due := by
    intro node due isDue
    have walked := moved.keeps node due isDue.begin
    rw [begun] at walked
    exact walked.advance moved.laid insideThere
  have away : ∀ task ∈ w.tasks, _ := fun task member =>
    moved.outside task.2 (settled.laid.queued task member).1 (settled.laid.queued task member).2.2.2
  refine ⟨⟨moved.laid.frame rfl rfl rfl rfl rfl rfl moved.laid.fired, ?_, ?_,
    fun node known unqueued => ?_, fun task member => ?_⟩, keeps, fun task member low => ?_,
    moved.timers, moved.made, moved.maxSlots, moved.si, ?_⟩
  · show 0 < v.maxSlots
    rw [moved.maxSlots]
    exact settled.positive
  · show (v.curSlot + 1) % v.maxSlots = (v.ticks + 1) % v.maxSlots
    rw [moved.curSlot, moved.ticks, moved.maxSlots, settled.curSlot, Nat.mod_add_mod]
  · by_cases old : node < w.made
    · obtain ⟨due, isDue⟩ := settled.due node old (moved.tasks ▸ unqueued)
      exact ⟨due, keeps node due isDue⟩
    · obtain ⟨due, isDue⟩ := moved.fresh node (not_lt.mp old) known
      rw [begun] at isDue
      exact ⟨due, isDue.advance moved.laid insideThere⟩
  · have queued : task ∈ w.tasks := moved.tasks ▸ member
    exact (away task queued).2.2.trans (settled.unrun task queued)
  · have queued : task ∈ w.tasks := moved.tasks ▸ member
    exact ⟨queued, (away task queued).2.1⟩
  · show w.ticks ≤ v.ticks + 1
    rw [moved.ticks]
    exact Nat.le_succ _

/-- A tick stops at an overflow, or in a debug build at an assertion, or returns and keeps every
tick. -/
theorem tick_cases {w : TimerWheel} {lists : Nat → List Nat} (settled : Settled w lists)
    (build : Build) (callback : Nat → CallbackRun) :
    (∃ fault, w.tick build callback = .error fault ∧
      (fault = .overflow ∨ fault = .assertFailed ∧ build = .debug)) ∨
      ∃ v longer, w.tick build callback = .ok v ∧ Kept w lists v longer ∧
        v.ticks = w.ticks + 1 := by
  have laid := settled.laid
  have inside : w.curSlot < w.maxSlots := by
    rw [settled.curSlot]
    exact Nat.mod_lt _ settled.positive
  have enough : (lists w.curSlot).length ≤ w.made := by
    have within : lists w.curSlot ⊆ List.range w.made := fun node member =>
      List.mem_range.mpr (laid.known _ node member).1
    simpa using ((laid.linked w.curSlot).nodup.subperm within).length_le
  unfold tick
  rw [(laid.linked w.curSlot).head_eq]
  rcases walk_cases build callback (lists w.curSlot) laid settled.positive
    (List.nil_append _).symm enough with ⟨fault, stopped, why⟩ | ⟨v, longer, walked, moved⟩
  · refine .inl ⟨fault, ?_, why⟩
    rw [stopped]
    rfl
  · refine .inr ⟨v.advance, longer, by rw [walked, ok_bind], kept_of_walk settled inside moved, ?_⟩
    show v.ticks + 1 = _
    rw [moved.ticks]

/-! ### Insertions of other threads -/

/-- `insert` on another thread makes a node and queues its task. -/
theorem insertElsewhere_eq_ok {w v : TimerWheel} {lists : Nat → List Nat} {timer : Nat}
    (settled : Settled w lists) (returned : w.insertElsewhere timer = .ok v) :
    w.curSlot + w.delay timer % w.maxSlots < 2 ^ 31 ∧ Kept w lists v lists ∧
      v.tasks = w.tasks ++ [((w.curSlot + w.delay timer % w.maxSlots) % w.maxSlots, w.made)] ∧
      v.made = w.made + 1 ∧ (v.node w.made).rotation = w.delay timer / w.maxSlots ∧
      v.ticks = w.ticks := by
  obtain ⟨u, isPrepared, queued⟩ := bind_eq_ok returned
  have prepared := prepared_of_prepare isPrepared
  have laid := prepared.laid settled.laid
  obtain rfl := Except.ok.inj queued
  have outside : ∀ slot, w.made ∉ lists slot := fun slot member =>
    absurd (settled.laid.known slot _ member).1 (lt_irrefl _)
  have members : ∀ task, task ∈ u.tasks ++ [((u.node w.made).timeSlot, w.made)] ↔
      task ∈ w.tasks ∨ task = ((w.curSlot + w.delay timer % w.maxSlots) % w.maxSlots, w.made) := by
    intro task
    rw [List.mem_append, List.mem_singleton, prepared.tasks, prepared.new]
  have known : ∀ task ∈ w.tasks, task.2 ≠ w.made := fun task member =>
    ne_of_lt (settled.laid.queued task member).1
  have keeps : ∀ node due, Due w lists (lists w.curSlot) w.ticks node due →
      Due { u with tasks := u.tasks ++ [((u.node w.made).timeSlot, w.made)] } lists
        (lists u.curSlot) u.ticks node due := by
    intro node due isDue
    have different : node ≠ w.made := ne_of_lt (isDue.known settled.laid)
    have kept : Due { u with tasks := u.tasks ++ [((u.node w.made).timeSlot, w.made)] } lists
        (lists w.curSlot) w.ticks node due :=
      isDue.congr (fun _ => Iff.rfl) Iff.rfl (firings_congr prepared.fired node)
        (congrArg WheelNode.rotation (prepared.old node different)) prepared.maxSlots
        prepared.curSlot prepared.ticks
    rwa [← prepared.ticks, ← prepared.curSlot] at kept
  refine ⟨prepared.fits, ⟨⟨⟨laid.linked, laid.apart, laid.known, fun task member => ?_, ?_,
    laid.fired⟩, ?_, ?_, fun node isMade unqueued => ?_, fun task member => ?_⟩, keeps,
    fun task member low => ?_, fun node low => ?_, ?_, prepared.maxSlots, prepared.si,
    prepared.ticks.ge⟩, ?_, prepared.made, ?_, prepared.ticks⟩
  · rcases (members task).mp member with waiting | rfl
    · exact laid.queued task (prepared.tasks ▸ waiting)
    · refine ⟨prepared.made ▸ Nat.lt_succ_self _, ?_, ?_, outside⟩
      · show _ % w.maxSlots < u.maxSlots
        rw [prepared.maxSlots]
        exact Nat.mod_lt _ settled.positive
      · exact congrArg WheelNode.next prepared.new
  · rw [List.map_append, prepared.tasks, List.nodup_append]
    refine ⟨settled.laid.single, List.nodup_singleton _, fun node member fresh isFresh same => ?_⟩
    obtain ⟨task, waiting, rfl⟩ := List.mem_map.mp member
    rw [List.map_singleton, List.mem_singleton] at isFresh
    exact known task waiting (same.trans isFresh)
  · exact prepared.maxSlots ▸ settled.positive
  · show u.curSlot = u.ticks % u.maxSlots
    rw [prepared.curSlot, prepared.ticks, prepared.maxSlots]
    exact settled.curSlot
  · have different : node ≠ w.made := by
      rintro rfl
      exact unqueued _ ((members _).mpr (.inr rfl)) rfl
    have isOld : node < w.made := by
      have isMade : node < u.made := isMade
      rw [prepared.made] at isMade
      omega
    obtain ⟨due, isDue⟩ := settled.due node isOld fun task member =>
      unqueued task ((members task).mpr (.inl member))
    exact ⟨due, keeps node due isDue⟩
  · rcases (members task).mp member with waiting | rfl
    · exact (firings_congr prepared.fired task.2).trans (settled.unrun task waiting)
    · exact (firings_congr prepared.fired w.made).trans (firings_eq_nil settled.laid (le_refl _))
  · rcases (members task).mp member with waiting | rfl
    · exact ⟨waiting, congrArg WheelNode.rotation (prepared.old task.2 (known task waiting))⟩
    · exact absurd low (lt_irrefl _)
  · exact congrArg WheelNode.timer (prepared.old node (ne_of_lt low))
  · exact prepared.made ▸ Nat.le_succ _
  · show u.tasks ++ [((u.node w.made).timeSlot, w.made)] = _
    rw [prepared.tasks, prepared.new]
  · exact congrArg WheelNode.rotation prepared.new

/-- The task that links a node: the node has a tick from now on. -/
theorem runTask_eq_some {build : Build} {w v : TimerWheel} {lists : Nat → List Nat} {node : Nat}
    (settled : Settled w lists) (stepped : step build w (.runTask node) = some v) :
    ∃ ts longer, (ts, node) ∈ w.tasks ∧ Kept w lists v longer ∧ v.ticks = w.ticks ∧
      Due v longer (longer v.curSlot) v.ticks node
        (w.ticks + w.distance ts + (w.node node).rotation * w.maxSlots) := by
  have laid := settled.laid
  simp only [step] at stepped
  split at stepped
  · rename_i ts found isFound
    obtain rfl := Option.some.inj stepped
    have same : found = node := by simpa using List.find?_some isFound
    subst same
    have queued : (ts, found) ∈ w.tasks := List.mem_of_find?_eq_some isFound
    obtain ⟨known, inside, alone, outside⟩ := laid.queued _ queued
    obtain ⟨maxSlots, si, curSlot, made, timers, tasks, ticks, fired⟩ := link_rest w ts found
    have remaining : ∀ task, task ∈ w.tasks.filter (fun task => task.2 ≠ found) ↔
        task ∈ w.tasks ∧ task.2 ≠ found := by
      intro task
      simp
    have relaid : Laid { w.link ts found with
        tasks := w.tasks.filter fun task => task.2 ≠ found }
        (Function.update lists ts (found :: lists ts)) := by
      refine laid_of_link laid ts found inside known alone outside rfl rfl maxSlots made
        (fun task member => (remaining task).mp member) ?_ fired
      exact laid.single.sublist (List.filter_sublist.map _)
    have members : ∀ other, other ≠ found → ∀ slot, other ∈ lists slot ↔
        other ∈ Function.update lists ts (found :: lists ts) slot := by
      intro other different slot
      by_cases here : slot = ts
      · rw [here, Function.update_self]
        simp [different]
      · rw [Function.update_of_ne here]
    have unrun := settled.unrun _ queued
    have keeps : ∀ other due, Due w lists (lists w.curSlot) w.ticks other due →
        Due { w.link ts found with tasks := w.tasks.filter fun task => task.2 ≠ found }
          (Function.update lists ts (found :: lists ts))
          (Function.update lists ts (found :: lists ts) (w.link ts found).curSlot)
          (w.link ts found).ticks other due := by
      intro other due isDue
      have different : other ≠ found := by
        rintro rfl
        cases isDue with
        | pending slot member unfired tick => exact outside slot member
        | gone away past once =>
          rw [unrun] at once
          cases once
      have kept : Due { w.link ts found with
          tasks := w.tasks.filter fun task => task.2 ≠ found }
          (Function.update lists ts (found :: lists ts))
          (Function.update lists ts (found :: lists ts) w.curSlot) w.ticks other due :=
        isDue.congr (members other different) (members other different w.curSlot)
          (firings_congr fired other) (link_data w ts found other).2 maxSlots curSlot ticks
      rwa [← ticks, ← curSlot] at kept
    have isDue : Due { w.link ts found with
        tasks := w.tasks.filter fun task => task.2 ≠ found }
        (Function.update lists ts (found :: lists ts))
        (Function.update lists ts (found :: lists ts) (w.link ts found).curSlot)
        (w.link ts found).ticks found
        (w.ticks + w.distance ts + (w.node found).rotation * w.maxSlots) := by
      have member : found ∈ Function.update lists ts (found :: lists ts) ts := by
        rw [Function.update_self]
        exact List.mem_cons_self
      refine .pending ts member ((firings_congr fired found).trans unrun) ?_
      rw [wait_listed _ member]
      show _ = (w.link ts found).ticks + (w.link ts found).distance ts +
        ((w.link ts found).node found).rotation * (w.link ts found).maxSlots
      unfold distance
      rw [ticks, curSlot, maxSlots, (link_data w ts found found).2]
    refine ⟨ts, _, queued, ⟨⟨relaid, ?_, ?_, fun other isMade unqueued => ?_, fun task member => ?_⟩,
      keeps, fun task member low => ?_, fun other _ => (link_data w ts found other).1, made.ge,
      maxSlots, si, ticks.ge⟩, ticks, isDue⟩
    · show 0 < (w.link ts found).maxSlots
      rw [maxSlots]
      exact settled.positive
    · show (w.link ts found).curSlot = (w.link ts found).ticks % (w.link ts found).maxSlots
      rw [curSlot, ticks, maxSlots]
      exact settled.curSlot
    · by_cases here : other = found
      · rw [here]
        exact ⟨_, isDue⟩
      · have isMade : other < (w.link ts found).made := isMade
        rw [made] at isMade
        obtain ⟨due, wasDue⟩ := settled.due other isMade fun task member atNode =>
          unqueued task ((remaining task).mpr ⟨member, atNode ▸ here⟩) atNode
        exact ⟨due, keeps other due wasDue⟩
    · exact (firings_congr fired task.2).trans (settled.unrun task ((remaining task).mp member).1)
    · exact ⟨((remaining task).mp member).1, (link_data w ts found task.2).2⟩
  · cases stepped

/-! ### Runs -/

/-- Every step keeps the ticks of the nodes. -/
theorem step_kept {build : Build} {w v : TimerWheel} {lists : Nat → List Nat}
    {action : WheelAction} (settled : Settled w lists) (stepped : step build w action = some v) :
    ∃ longer, Kept w lists v longer := by
  cases action with
  | insert timer =>
    have returned : w.insert timer = .ok v := toOption_eq_some stepped
    obtain ⟨-, grown, -⟩ := insert_eq_ok settled.laid settled.positive returned
    exact ⟨_, kept_of_grown settled grown⟩
  | insertElsewhere timer =>
    have returned : w.insertElsewhere timer = .ok v := toOption_eq_some stepped
    exact ⟨lists, (insertElsewhere_eq_ok settled returned).2.1⟩
  | runTask node =>
    obtain ⟨-, longer, -, kept, -⟩ := runTask_eq_some settled stepped
    exact ⟨longer, kept⟩
  | setRemainCount timer count =>
    obtain rfl := Option.some.inj stepped
    exact ⟨lists, kept_of_grown settled (grown_of_setTimer settled.laid _ _)⟩
  | tick callback =>
    have returned : w.tick build callback = .ok v := toOption_eq_some stepped
    rcases tick_cases settled build callback with
      ⟨fault, stopped, -⟩ | ⟨u, longer, isReturned, kept, -⟩
    · rw [stopped] at returned
      cases returned
    · rw [isReturned] at returned
      obtain rfl := Except.ok.inj returned
      exact ⟨longer, kept⟩

/-- Every run keeps the ticks of the nodes. -/
theorem run_kept {build : Build} {w v : TimerWheel} {lists : Nat → List Nat}
    {actions : List WheelAction} (settled : Settled w lists)
    (run : Run (StepOf (step build)) w actions v) : ∃ longer, Kept w lists v longer := by
  induction run with
  | nil => exact ⟨lists, Kept.refl settled⟩
  | snoc _ last inductionHypothesis =>
    obtain ⟨longer, kept⟩ := inductionHypothesis
    obtain ⟨longest, next⟩ := step_kept kept.settled last
    exact ⟨longest, kept.trans next⟩

/-! ### When a timer runs -/

/-- In every run from here, a node runs its timer in one tick and in no other. -/
def RunsAt (build : Build) (w : TimerWheel) (node timer due : Nat) : Prop :=
  ∀ actions v, Run (StepOf (step build)) w actions v →
    v.firings node = (if due < v.ticks then [due] else []) ∧ (v.node node).timer = timer

/-- In every run from here, every tick returns, unless an insertion of a callback overflows or a
debug build runs a timer whose count is zero, and every node either waits for its linking task or
runs its timer in one tick and in no other. -/
def Regular (build : Build) (w : TimerWheel) : Prop :=
  ∀ actions v, Run (StepOf (step build)) w actions v →
    (∀ callback, (∃ u, v.tick build callback = .ok u) ∨
      v.tick build callback = .error .overflow ∨
      build = .debug ∧ v.tick build callback = .error .assertFailed) ∧
    ∀ node, node < v.made → (∃ task ∈ v.tasks, task.2 = node ∧ v.firings node = []) ∨
      ∃ due, RunsAt build v node (v.node node).timer due

theorem runsAt_of_due (build : Build) {w : TimerWheel} {lists : Nat → List Nat}
    {node due : Nat} (settled : Settled w lists)
    (isDue : Due w lists (lists w.curSlot) w.ticks node due) :
    RunsAt build w node (w.node node).timer due := by
  intro actions v run
  obtain ⟨longer, kept⟩ := run_kept settled run
  exact ⟨(kept.keeps node due isDue).firings_eq, kept.timers node (isDue.known settled.laid)⟩

theorem regular_of_settled {build : Build} {w : TimerWheel} {lists : Nat → List Nat}
    (settled : Settled w lists) : Regular build w := by
  intro actions v run
  obtain ⟨longer, kept⟩ := run_kept settled run
  constructor
  · intro callback
    rcases tick_cases kept.settled build callback with
      ⟨fault, stopped, rfl | ⟨rfl, isDebug⟩⟩ | ⟨u, longest, returned, -⟩
    · exact .inr (.inl stopped)
    · exact .inr (.inr ⟨isDebug, stopped⟩)
    · exact .inl ⟨u, returned⟩
  · intro node known
    by_cases queued : ∃ task ∈ v.tasks, task.2 = node
    · obtain ⟨task, member, rfl⟩ := queued
      exact .inl ⟨task, member, rfl, kept.settled.unrun task member⟩
    · obtain ⟨due, isDue⟩ := kept.settled.due node known fun task member same =>
        queued ⟨task, member, same⟩
      exact .inr ⟨due, runsAt_of_due build kept.settled isDue⟩

/-- The number of ticks of an interval is no more than that of the untruncated interval. -/
theorem ticksOf_le {si interval : Int} (positive : 0 < si) (nonneg : 0 ≤ interval) :
    ticksOf si interval ≤ (max 1 (interval / si)).toNat := by
  have truncated : toInt interval ≤ interval := by
    unfold toInt
    rw [Int.bmod_def]
    split <;> omega
  unfold ticksOf
  split
  · omega
  · have smaller : toInt interval / si ≤ interval / si := Int.ediv_le_ediv positive truncated
    omega

/-- An interval that fits into an `int` gives the number of ticks it should. -/
theorem ticksOf_eq {si interval : Int} (positive : 0 < si) (nonneg : 0 ≤ interval)
    (fits : interval < 2 ^ 31) : ticksOf si interval = (max 1 (interval / si)).toNat := by
  have same : toInt interval = interval := by
    unfold toInt
    rw [Int.bmod_def]
    split <;> omega
  unfold ticksOf
  rw [same]
  split
  · rename_i less
    rw [Int.ediv_eq_zero_of_lt nonneg less]
    rfl
  · rename_i more
    have atLeast : 1 ≤ interval / si := (Int.le_ediv_iff_mul_le positive).mpr (by omega)
    rw [max_eq_right atLeast]

/-- The distance of a slot that was computed some ticks ago. -/
theorem distance_eq (w : TimerWheel) (start elapsed ahead : Nat) (startInside : start < w.maxSlots)
    (elapsedInside : elapsed < w.maxSlots) (aheadInside : ahead < w.maxSlots)
    (curSlot : w.curSlot = (start + elapsed) % w.maxSlots) :
    w.distance ((start + ahead) % w.maxSlots) =
      if elapsed ≤ ahead then ahead - elapsed else ahead + w.maxSlots - elapsed := by
  have wraps : ∀ slot, slot < 2 * w.maxSlots →
      slot % w.maxSlots = if slot < w.maxSlots then slot else slot - w.maxSlots := by
    intro slot bound
    split
    · exact Nat.mod_eq_of_lt (by assumption)
    · rw [Nat.mod_eq_sub_mod (by omega), Nat.mod_eq_of_lt (by omega)]
  unfold distance
  rw [curSlot, wraps (start + elapsed) (by omega), wraps (start + ahead) (by omega)]
  split <;> split <;> split <;> split <;> omega

/-- The tick of a node that is inserted between two ticks. -/
theorem insert_due {w v : TimerWheel} {lists : Nat → List Nat} {timer : Nat}
    (settled : Settled w lists) (returned : w.insert timer = .ok v) :
    ∃ longer, Kept w lists v longer ∧ (v.node w.made).timer = timer ∧
      Due v longer (longer v.curSlot) v.ticks w.made (w.ticks + w.delay timer) := by
  obtain ⟨-, grown, -, rotation, isTimer⟩ := insert_eq_ok settled.laid settled.positive returned
  refine ⟨_, kept_of_grown settled grown, isTimer, ?_⟩
  have inside : w.curSlot < w.maxSlots := by
    rw [settled.curSlot]
    exact Nat.mod_lt _ settled.positive
  have member : w.made ∈ Function.update lists
      ((w.curSlot + w.delay timer % w.maxSlots) % w.maxSlots)
      (w.made :: lists ((w.curSlot + w.delay timer % w.maxSlots) % w.maxSlots))
      ((w.curSlot + w.delay timer % w.maxSlots) % w.maxSlots) := by
    rw [Function.update_self]
    exact List.mem_cons_self
  have near : v.distance ((w.curSlot + w.delay timer % w.maxSlots) % w.maxSlots) =
      w.delay timer % w.maxSlots := by
    have computed := w.distance_eq w.curSlot 0 (w.delay timer % w.maxSlots) inside
      settled.positive (Nat.mod_lt _ settled.positive) (Nat.mod_eq_of_lt inside).symm
    rw [if_pos (Nat.zero_le _), Nat.sub_zero] at computed
    unfold distance at computed ⊢
    rwa [grown.curSlot, grown.maxSlots]
  refine .pending _ member ?_ ?_
  · rw [firings_congr grown.fired]
    exact firings_eq_nil settled.laid (le_refl _)
  · rw [wait_listed _ member, near, rotation, grown.ticks, grown.maxSlots, Nat.add_assoc,
      Nat.mod_add_div' (w.delay timer) w.maxSlots]

/-- What an insertion is for: it returns, the timer runs in the tick that comes after as many
others as the interval has, once, and the ticks of all other nodes stay the same. -/
def InsertsDue (build : Build) (w : TimerWheel) (timer ticks : Nat) : Prop :=
  ∃ v, w.insert timer = .ok v ∧ RunsAt build v w.made timer (w.ticks + ticks) ∧
    Regular build v ∧
    ∀ node, node < w.made → (∀ task ∈ w.tasks, task.2 ≠ node) →
      ∃ due, RunsAt build w node (w.node node).timer due ∧
        RunsAt build v node (w.node node).timer due

/-- A timer that is inserted on the loop thread between two ticks runs in the tick it should, if
and only if its slot can be computed without overflow. -/
theorem insertsDue_iff_slot_fits (build : Build) (maxSlots : Nat) (si : Int) (timers : Nat → Timer)
    (positive : 1 ≤ maxSlots) (spaced : 1 ≤ si) (actions : List WheelAction) (w : TimerWheel)
    (run : Run (StepOf (step build)) (initial maxSlots si timers) actions w) (timer : Nat)
    (nonneg : 0 ≤ (w.timer timer).interval) (small : (w.timer timer).interval < 2 ^ 31) :
    InsertsDue build w timer (max 1 ((w.timer timer).interval / si)).toNat ↔
      w.curSlot + (max 1 ((w.timer timer).interval / si)).toNat % maxSlots < 2 ^ 31 := by
  obtain ⟨lists, kept⟩ := run_kept (initial_settled maxSlots si timers positive) run
  have settled := kept.settled
  have sameSlots : w.maxSlots = maxSlots := kept.maxSlots
  have sameSi : w.si = si := kept.si
  have delays : w.delay timer = (max 1 ((w.timer timer).interval / si)).toNat := by
    rw [delay, sameSi]
    exact ticksOf_eq (by omega) nonneg small
  rw [← delays, ← sameSlots]
  constructor
  · rintro ⟨v, returned, -⟩
    exact (insert_eq_ok settled.laid settled.positive returned).1
  · intro fits
    obtain ⟨v, returned⟩ : ∃ v, w.insert timer = .ok v := by
      unfold insert prepare
      simp only [if_pos fits]
      exact ⟨_, rfl⟩
    obtain ⟨longer, keptThere, isTimer, isDue⟩ := insert_due settled returned
    refine ⟨v, returned, ?_, regular_of_settled keptThere.settled, fun node known unqueued => ?_⟩
    · have runs := runsAt_of_due build keptThere.settled isDue
      rwa [isTimer] at runs
    · obtain ⟨due, wasDue⟩ := settled.due node known unqueued
      refine ⟨due, runsAt_of_due build settled wasDue, ?_⟩
      rw [← keptThere.timers node known]
      exact runsAt_of_due build keptThere.settled (keptThere.keeps node due wasDue)

/-- A wheel of a minute in a debug build: a timer of ninety seconds, inserted at the start. -/
theorem insertsDue_minute_wheel :
    InsertsDue .debug (initial 60 1 fun _ => { interval := 90, executeCount := 1, expiration := 0 })
      0 90 := by
  have fits := (insertsDue_iff_slot_fits .debug 60 1
    (fun _ => { interval := 90, executeCount := 1, expiration := 0 }) (by decide) (by decide) [] _
    (.nil _) 0 (by decide) (by decide)).mpr (by decide)
  exact fits

/-- Ticks of an empty wheel. -/
theorem run_empty_ticks (build : Build) (maxSlots : Nat) (si : Int) (timers : Nat → Timer)
    (callback : Nat → CallbackRun) (count : Nat) :
    Run (StepOf (step build)) (initial maxSlots si timers)
      (List.replicate count (.tick callback))
      { initial maxSlots si timers with
        curSlot := count % maxSlots
        ticks := count } := by
  induction count with
  | zero =>
    rw [Nat.zero_mod]
    exact .nil _
  | succ count inductionHypothesis =>
    rw [List.replicate_succ', ← Nat.mod_add_mod]
    exact inductionHypothesis.snoc rfl

/-- A wheel with more than `2 ^ 30` slots, in its last slot: the slot of a timer that is to go
once around the wheel but one slot overflows. -/
theorem not_insertsDue_huge_wheel :
    ∃ actions w, Run (StepOf (step .release)) (initial (2 ^ 30 + 1) 1
        fun _ => { interval := 2 ^ 30, executeCount := 1, expiration := 0 }) actions w ∧
      (w.timer 0).interval = 2 ^ 30 ∧ ¬ InsertsDue .release w 0 (2 ^ 30) := by
  refine ⟨_, _, run_empty_ticks .release (2 ^ 30 + 1) 1 _ (fun _ => {}) (2 ^ 30), rfl, ?_⟩
  rintro ⟨v, returned, -⟩
  obtain ⟨prepared, isPrepared, -⟩ := bind_eq_ok returned
  have fits := (prepare_eq_ok isPrepared).1
  revert fits
  decide

/-! ### A timer that is linked later -/

/-- The tick of a node that is linked by a task, counted from the tick in which the task runs. -/
theorem runTask_due {build : Build} {w v u x : TimerWheel} {lists : Nat → List Nat} {timer : Nat}
    {between : List WheelAction} (settled : Settled w lists)
    (called : step build w (.insertElsewhere timer) = some v)
    (meanwhile : Run (StepOf (step build)) v between u)
    (linked : step build u (.runTask w.made) = some x) :
    ∃ longer, Settled x longer ∧ x.ticks = u.ticks ∧
      Due x longer (longer x.curSlot) x.ticks w.made
        (u.ticks + (if (u.ticks - w.ticks) % w.maxSlots ≤ w.delay timer % w.maxSlots then
            w.delay timer - (u.ticks - w.ticks) % w.maxSlots
          else w.delay timer + w.maxSlots - (u.ticks - w.ticks) % w.maxSlots)) := by
  have returned : w.insertElsewhere timer = .ok v := toOption_eq_some called
  obtain ⟨-, keptFirst, tasks, made, rotation, ticks⟩ := insertElsewhere_eq_ok settled returned
  obtain ⟨middle, keptThen⟩ := run_kept keptFirst.settled meanwhile
  obtain ⟨ts, longer, queued, kept, sameTicks, isDue⟩ := runTask_eq_some keptThen.settled linked
  -- The task that runs is the one that was queued by the call.
  obtain ⟨early, sameRotation⟩ := keptThen.tasks _ queued (by rw [made]; exact Nat.lt_succ_self _)
  have slot : ts = (w.curSlot + w.delay timer % w.maxSlots) % w.maxSlots := by
    rw [tasks, List.mem_append, List.mem_singleton] at early
    rcases early with old | new
    · exact absurd (settled.laid.queued _ old).1 (lt_irrefl _)
    · exact congrArg Prod.fst new
  have slots : u.maxSlots = w.maxSlots := keptThen.maxSlots.trans keptFirst.maxSlots
  have later : w.ticks ≤ u.ticks := ticks ▸ keptThen.ticks
  have current : u.curSlot = (w.curSlot + (u.ticks - w.ticks) % u.maxSlots) % u.maxSlots := by
    rw [keptThen.settled.curSlot, settled.curSlot, slots, ← Nat.add_mod,
      Nat.add_sub_cancel' later]
  have inside : w.curSlot < u.maxSlots := by
    rw [slots, settled.curSlot]
    exact Nat.mod_lt _ settled.positive
  have positive : 0 < u.maxSlots := slots ▸ settled.positive
  have near := u.distance_eq w.curSlot ((u.ticks - w.ticks) % u.maxSlots)
    (w.delay timer % u.maxSlots) inside (Nat.mod_lt _ positive) (Nat.mod_lt _ positive) current
  rw [slots] at near
  refine ⟨longer, kept.settled, sameTicks, ?_⟩
  rw [slot, near, sameRotation, rotation, slots] at isDue
  convert isDue using 1
  have parts := Nat.mod_add_div' (w.delay timer) w.maxSlots
  have short : (u.ticks - w.ticks) % w.maxSlots < w.maxSlots := Nat.mod_lt _ settled.positive
  split <;> omega

/-- A timer that another thread inserts has run when the ticks of its interval and one more have
passed behind the task that links it, if and only if the ticks between the call and the task have
not passed its slot, or the interval was truncated so far that a further round fits. -/
theorem linked_firings_iff (build : Build) (maxSlots : Nat) (si : Int) (timers : Nat → Timer)
    (positive : 1 ≤ maxSlots) (spaced : 1 ≤ si) (before between after : List WheelAction)
    (w v u x s : TimerWheel)
    (run : Run (StepOf (step build)) (initial maxSlots si timers) before w) (timer : Nat)
    (nonneg : 0 ≤ (w.timer timer).interval)
    (called : step build w (.insertElsewhere timer) = some v)
    (meanwhile : Run (StepOf (step build)) v between u)
    (linked : step build u (.runTask w.made) = some x)
    (later : Run (StepOf (step build)) x after s)
    (passed : s.ticks = x.ticks + ((max 1 ((w.timer timer).interval / si)).toNat + 1)) :
    Regular build x ∧
      (s.firings w.made ≠ [] ↔
        (u.ticks - w.ticks) % maxSlots ≤ ticksOf si (w.timer timer).interval % maxSlots ∨
        ticksOf si (w.timer timer).interval + maxSlots ≤
          (max 1 ((w.timer timer).interval / si)).toNat + (u.ticks - w.ticks) % maxSlots) := by
  obtain ⟨lists, kept⟩ := run_kept (initial_settled maxSlots si timers positive) run
  obtain ⟨longer, settled, sameTicks, isDue⟩ := runTask_due kept.settled called meanwhile linked
  obtain ⟨longest, keptThere⟩ := run_kept settled later
  have delays : w.delay timer = ticksOf si (w.timer timer).interval := by
    rw [delay, kept.si]
    rfl
  have slots : w.maxSlots = maxSlots := kept.maxSlots
  have firings := (keptThere.keeps _ _ isDue).firings_eq
  have shorter := ticksOf_le (show 0 < si by omega) nonneg
  rw [delays, slots, passed, sameTicks] at firings
  refine ⟨regular_of_settled settled, ?_⟩
  rw [firings]
  have short : (u.ticks - w.ticks) % maxSlots < maxSlots := Nat.mod_lt _ positive
  constructor
  · intro ran
    by_contra late
    obtain ⟨behind, far⟩ := not_or.mp late
    rw [if_neg behind] at ran
    exact ran (if_neg (by omega))
  · rintro (ahead | far)
    · rw [if_pos ahead, if_pos (by omega)]
      exact List.cons_ne_nil _ _
    · rw [if_pos (by split <;> omega)]
      exact List.cons_ne_nil _ _

/-- A wheel of a minute whose timers have an interval of one second. -/
def minuteWheel : TimerWheel :=
  initial 60 1 fun _ => { interval := 1, executeCount := 1, expiration := 0 }

/-- An execution of a call, the ticks in between, the task and the ticks behind it. -/
theorem exec_interleaving (build : Build) (w : TimerWheel) (timer node : Nat)
    (between after : List WheelAction) (result : Nat × Nat × Nat × List Nat)
    (staged : ((step build w (.insertElsewhere timer)).bind fun v =>
      (exec (step build) v between).bind fun u =>
        (step build u (.runTask node)).bind fun x =>
          (exec (step build) x after).map fun s =>
            (u.ticks, x.ticks, s.ticks, s.firings node)) = some result) :
    ∃ v u x s, step build w (.insertElsewhere timer) = some v ∧
      Run (StepOf (step build)) v between u ∧ step build u (.runTask node) = some x ∧
      Run (StepOf (step build)) x after s ∧
      (u.ticks, x.ticks, s.ticks, s.firings node) = result := by
  obtain ⟨v, called, staged⟩ := Option.bind_eq_some_iff.mp staged
  obtain ⟨u, meanwhile, staged⟩ := Option.bind_eq_some_iff.mp staged
  obtain ⟨x, linked, staged⟩ := Option.bind_eq_some_iff.mp staged
  obtain ⟨s, later, seen⟩ := Option.map_eq_some_iff.mp staged
  exact ⟨v, u, x, s, called, run_of_exec meanwhile, linked, run_of_exec later, seen⟩

/-- One tick between the call and the task. -/
theorem linked_firings_one_between :
    ∃ v u x s, step .debug minuteWheel (.insertElsewhere 0) = some v ∧
      Run (StepOf (step .debug)) v [.tick fun _ => {}] u ∧
      step .debug u (.runTask 0) = some x ∧
      Run (StepOf (step .debug)) x [.tick fun _ => {}, .tick fun _ => {}] s ∧
      s.ticks = x.ticks + 2 ∧ s.firings 0 ≠ [] := by
  obtain ⟨v, u, x, s, called, meanwhile, linked, later, seen⟩ := exec_interleaving
    .debug minuteWheel 0 0 [.tick fun _ => {}] [.tick fun _ => {}, .tick fun _ => {}]
    (1, 1, 3, [1]) (by decide)
  simp only [Prod.mk.injEq] at seen
  obtain ⟨middle, start, final, -⟩ := seen
  have passed : s.ticks = x.ticks + 2 := by omega
  refine ⟨v, u, x, s, called, meanwhile, linked, later, passed, ?_⟩
  refine (linked_firings_iff .debug 60 1 _ (by decide) (by decide) [] _ _ minuteWheel v u x s
    (.nil _) 0 (by decide) called meanwhile linked later passed).2.mpr (.inl ?_)
  rw [middle]
  decide

/-- Two ticks between the call and the task: the slot has passed, and the timer waits for a whole
round. -/
theorem not_linked_firings_two_between :
    ∃ v u x s, step .debug minuteWheel (.insertElsewhere 0) = some v ∧
      Run (StepOf (step .debug)) v [.tick fun _ => {}, .tick fun _ => {}] u ∧
      step .debug u (.runTask 0) = some x ∧
      Run (StepOf (step .debug)) x [.tick fun _ => {}, .tick fun _ => {}] s ∧
      s.ticks = x.ticks + 2 ∧ s.firings 0 = [] := by
  obtain ⟨v, u, x, s, called, meanwhile, linked, later, seen⟩ := exec_interleaving
    .debug minuteWheel 0 0 [.tick fun _ => {}, .tick fun _ => {}]
    [.tick fun _ => {}, .tick fun _ => {}] (2, 2, 4, []) (by decide)
  simp only [Prod.mk.injEq] at seen
  obtain ⟨-, start, final, none⟩ := seen
  exact ⟨v, u, x, s, called, meanwhile, linked, later, by omega, none⟩

end TimerWheel

end YYNet
