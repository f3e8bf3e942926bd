/-
This file models how acceptors keep the connections of a server alive, when
every accepted descriptor gets a connection of its own, and proves that
`connects_` holds what it should.

A connection is created by a task on a worker's loop. Its owner is the set
`connects_` of the acceptor, which only the acceptor's loop may change: the
task queues an insertion there, and much later the delayed `destructCallBack_`
of the closed connection queues the removal. Where the two loops are one,
`submit` runs the change at once.

What carries the proof is that both changes of one connection come from one
producer. The changes made so far followed by those still queued are therefore
the insertion and the removal in that order, however far the connection's life
has come, and running a task only moves the boundary between the two parts.
-/

import YYNet.Lib.ProducerQueue
import YYNet.Lib.Transition

namespace YYNet

open Transition ProducerQueue

/-! ### The system -/

/-- A connection object, with the acceptor its `destructCallBack_` belongs to and its `loop_`.
Each object has a serial number of its own. -/
structure Connection (Acceptor Loop : Type) where
  serial : Nat
  acceptor : Acceptor
  loop : Loop
  deriving DecidableEq, Repr

/-- A change of `connects_`. -/
inductive Change
  | insert
  | erase
  deriving DecidableEq, Repr

/-- The tasks of a loop: the task of `NewConnection`, the delayed destructor callback, and the
two tasks that change `connects_`. -/
inductive LoopTask (Acceptor Loop : Type)
  | newConnection (acceptor : Acceptor)
  | destruct (conn : Connection Acceptor Loop)
  | change (conn : Connection Acceptor Loop) (what : Change)
  deriving DecidableEq, Repr

/-- The change of `connects_` a task makes. -/
def LoopTask.change? {Acceptor Loop : Type} :
    LoopTask Acceptor Loop → Option (Connection Acceptor Loop × Change)
  | .newConnection _ => none
  | .destruct _ => none
  | .change conn what => some (conn, what)

/-- The loops with their queues, the connections, and `connects_` of each acceptor. -/
structure Server (Acceptor Loop : Type) where
  /-- The connections the connection callback has returned, in their order. -/
  created : List (Connection Acceptor Loop)
  /-- The connections whose `handleClose` has run. -/
  closed : Finset (Connection Acceptor Loop)
  /-- The connections whose `destructCallBack_` has run. -/
  destructed : Finset (Connection Acceptor Loop)
  /-- The `conn` of the task of `NewConnection` that a loop is in the middle of. -/
  running : Loop → Option (Connection Acceptor Loop)
  queue : Loop → List (Loop × LoopTask Acceptor Loop)
  connects : Acceptor → Finset (Connection Acceptor Loop)
  /-- The changes made to the sets `connects_`, the oldest first. -/
  history : List (Connection Acceptor Loop × Change)

/-- One step of some thread. -/
inductive ServerAction (Acceptor Loop : Type)
  /-- `Acceptor::NewConnection` on the acceptor's loop, with the loop that `NextLoop` chose. -/
  | newConnection (acceptor : Acceptor) (loop : Loop)
  /-- A loop runs the oldest task of one producer. A task of `NewConnection` is run up to the
  return of the connection callback. -/
  | runTask (loop producer : Loop)
  /-- The rest of a task of `NewConnection`. -/
  | finishTask (loop : Loop)
  | handleClose (conn : Connection Acceptor Loop)
  deriving DecidableEq, Repr

namespace Server

variable {Acceptor Loop : Type} [DecidableEq Acceptor] [DecidableEq Loop]

/-- The server before the first descriptor. -/
def initial : Server Acceptor Loop where
  created := []
  closed := ∅
  destructed := ∅
  running _ := none
  queue _ := []
  connects _ := ∅
  history := []

/-- `FunctionList_.enqueue`. -/
def enqueue (s : Server Acceptor Loop) (loop producer : Loop) (task : LoopTask Acceptor Loop) :
    Server Acceptor Loop :=
  { s with queue := Function.update s.queue loop (s.queue loop ++ [(producer, task)]) }

/-- `connects_.insert` and `removeConnection`. -/
def changeConnects (s : Server Acceptor Loop) (conn : Connection Acceptor Loop) (what : Change) :
    Server Acceptor Loop :=
  { s with
    connects := Function.update s.connects conn.acceptor (match what with
      | .insert => insert conn (s.connects conn.acceptor)
      | .erase => (s.connects conn.acceptor).erase conn)
    history := s.history ++ [(conn, what)] }

/-- `loop_->submit` of a change, on the loop of the connection's acceptor. -/
def submitChange (acceptorLoop : Acceptor → Loop) (s : Server Acceptor Loop) (thread : Loop)
    (conn : Connection Acceptor Loop) (what : Change) : Server Acceptor Loop :=
  if thread = acceptorLoop conn.acceptor then s.changeConnects conn what
  else s.enqueue (acceptorLoop conn.acceptor) thread (.change conn what)

/-- The task of `NewConnection` up to the return of `SconnectCallBack_`: a fresh connection,
which the task holds. -/
def beginNewConnection (s : Server Acceptor Loop) (acceptor : Acceptor) (loop : Loop) :
    Server Acceptor Loop :=
  { s with
    created := s.created ++ [⟨s.created.length, acceptor, loop⟩]
    running := Function.update s.running loop (some ⟨s.created.length, acceptor, loop⟩) }

/-- Run one task of a loop. -/
def runTask (acceptorLoop : Acceptor → Loop) (s : Server Acceptor Loop) (loop : Loop) :
    LoopTask Acceptor Loop → Server Acceptor Loop
  | .newConnection acceptor => s.beginNewConnection acceptor loop
  | .destruct conn => submitChange acceptorLoop
      { s with destructed := insert conn s.destructed } loop conn .erase
  | .change conn what => s.changeConnects conn what

/-- One step. A loop in the middle of a task of `NewConnection` runs nothing else, and a
connection is closed at most once. -/
def step (acceptorLoop : Acceptor → Loop) (s : Server Acceptor Loop) :
    ServerAction Acceptor Loop → Option (Server Acceptor Loop)
  | .newConnection acceptor loop =>
    if s.running (acceptorLoop acceptor) ≠ none then none
    else if acceptorLoop acceptor = loop then some (s.beginNewConnection acceptor loop)
    else some (s.enqueue loop (acceptorLoop acceptor) (.newConnection acceptor))
  | .runTask loop producer =>
    if s.running loop ≠ none then none
    else do
      let (task, rest) ← dequeue producer (s.queue loop)
      some (({ s with queue := Function.update s.queue loop rest }).runTask acceptorLoop loop task)
  | .finishTask loop => do
    let conn ← s.running loop
    some (submitChange acceptorLoop
      { s with running := Function.update s.running loop none } loop conn .insert)
  | .handleClose conn =>
    if conn ∈ s.created ∧ conn ∉ s.closed then
      some (({ s with closed := insert conn s.closed }).enqueue conn.loop conn.loop
        (.destruct conn))
    else none

/-! ### What is tracked -/

/-- The changes a list makes to the membership of one connection. -/
def changesOf (conn : Connection Acceptor Loop)
    (changes : List (Connection Acceptor Loop × Change)) : List Change :=
  (changes.filter fun change => change.1 = conn).map Prod.snd

/-- The changes of `connects_` in a queue. -/
def pending (queue : List (Loop × LoopTask Acceptor Loop)) :
    List (Connection Acceptor Loop × Change) :=
  queue.filterMap fun entry => entry.2.change?

/-- Something holds a connection: the running task of `NewConnection`, an insertion in the queue
of the acceptor's loop, or `connects_`. -/
def Referenced (acceptorLoop : Acceptor → Loop) (s : Server Acceptor Loop)
    (conn : Connection Acceptor Loop) : Prop :=
  s.running conn.loop = some conn ∨
    (conn.loop, LoopTask.change conn .insert) ∈ s.queue (acceptorLoop conn.acceptor) ∨
    conn ∈ s.connects conn.acceptor

/-- The changes of one connection, made and queued. -/
def trail (acceptorLoop : Acceptor → Loop) (s : Server Acceptor Loop)
    (conn : Connection Acceptor Loop) : List Change :=
  changesOf conn (s.history ++ pending (s.queue (acceptorLoop conn.acceptor)))

/-- What the changes of a connection are at its point of life. -/
def due (s : Server Acceptor Loop) (conn : Connection Acceptor Loop) : List Change :=
  if conn ∈ s.created ∧ s.running conn.loop ≠ some conn then
    if conn ∈ s.destructed then [.insert, .erase] else [.insert]
  else []

/-- The changes are queued by the connection's loop on its acceptor's, unless these are one, and
the sets are what the changes made of them. -/
structure Recorded (acceptorLoop : Acceptor → Loop) (s : Server Acceptor Loop) : Prop where
  sent : ∀ loop producer conn what, (producer, LoopTask.change conn what) ∈ s.queue loop →
    producer = conn.loop ∧ loop = acceptorLoop conn.acceptor ∧ producer ≠ loop
  members : ∀ acceptor conn, conn ∈ s.connects acceptor ↔
    conn.acceptor = acceptor ∧ (changesOf conn s.history).getLast? = some .insert

/-- The server knows where every connection is. -/
structure Tracked (acceptorLoop : Acceptor → Loop) (s : Server Acceptor Loop) : Prop where
  recorded : s.Recorded acceptorLoop
  trail : ∀ conn, s.trail acceptorLoop conn = s.due conn
  numbered : ∀ conn ∈ s.created, conn.serial < s.created.length
  held : ∀ loop conn, s.running loop = some conn →
    conn.loop = loop ∧ conn ∈ s.created ∧ conn ∉ s.destructed
  wasClosed : ∀ conn ∈ s.destructed, conn ∈ s.closed
  wasCreated : ∀ conn ∈ s.closed, conn ∈ s.created
  delayed : ∀ loop conn, ((s.queue loop).map Prod.snd).count (.destruct conn) =
    if loop = conn.loop ∧ conn ∈ s.closed ∧ conn ∉ s.destructed then 1 else 0

/-! ### Changes of `connects_` -/

@[simp]
theorem changesOf_append (conn : Connection Acceptor Loop)
    (first second : List (Connection Acceptor Loop × Change)) :
    changesOf conn (first ++ second) = changesOf conn first ++ changesOf conn second := by
  simp [changesOf]

@[simp]
theorem changesOf_nil (conn : Connection Acceptor Loop) : changesOf conn [] = [] :=
  rfl

theorem changesOf_cons (conn other : Connection Acceptor Loop) (what : Change)
    (rest : List (Connection Acceptor Loop × Change)) :
    changesOf conn ((other, what) :: rest) =
      (if other = conn then [what] else []) ++ changesOf conn rest := by
  unfold changesOf
  by_cases same : other = conn
  · rw [List.filter_cons_of_pos (by simpa using same), if_pos same]
    rfl
  · rw [List.filter_cons_of_neg (by simpa using same), if_neg same]
    rfl

omit [DecidableEq Acceptor] [DecidableEq Loop] in
@[simp]
theorem pending_append (first second : List (Loop × LoopTask Acceptor Loop)) :
    pending (first ++ second) = pending first ++ pending second :=
  List.filterMap_append

omit [DecidableEq Acceptor] [DecidableEq Loop] in
theorem pending_cons (producer : Loop) (task : LoopTask Acceptor Loop)
    (rest : List (Loop × LoopTask Acceptor Loop)) :
    pending ((producer, task) :: rest) = task.change?.toList ++ pending rest := by
  cases task <;> rfl

omit [DecidableEq Acceptor] [DecidableEq Loop] in
/-- A queued change is an entry of the queue. -/
theorem mem_pending {queue : List (Loop × LoopTask Acceptor Loop)}
    {conn : Connection Acceptor Loop} {what : Change} (queued : (conn, what) ∈ pending queue) :
    ∃ producer, (producer, LoopTask.change conn what) ∈ queue := by
  obtain ⟨⟨producer, task⟩, member, change⟩ := List.mem_filterMap.mp queued
  cases task with
  | newConnection acceptor => cases change
  | destruct other => cases change
  | change other what =>
    cases change
    exact ⟨producer, member⟩

/-- Entries among which no change of a connection is make no change of it. -/
theorem changesOf_pending_eq_nil {queue : List (Loop × LoopTask Acceptor Loop)}
    {conn : Connection Acceptor Loop}
    (absent : ∀ producer what, (producer, LoopTask.change conn what) ∉ queue) :
    changesOf conn (pending queue) = [] := by
  unfold changesOf
  rw [List.map_eq_nil_iff, List.filter_eq_nil_iff]
  rintro ⟨other, what⟩ queued same
  obtain rfl : other = conn := of_decide_eq_true same
  obtain ⟨producer, member⟩ := mem_pending queued
  exact absent producer what member

/-- The change of a set, with its record. -/
theorem members_changeConnects {s : Server Acceptor Loop}
    (members : ∀ acceptor conn, conn ∈ s.connects acceptor ↔
      conn.acceptor = acceptor ∧ (changesOf conn s.history).getLast? = some .insert)
    (changed : Connection Acceptor Loop) (what : Change) (acceptor : Acceptor)
    (conn : Connection Acceptor Loop) :
    conn ∈ (s.changeConnects changed what).connects acceptor ↔ conn.acceptor = acceptor ∧
      (changesOf conn (s.changeConnects changed what).history).getLast? = some .insert := by
  show conn ∈ Function.update s.connects changed.acceptor _ acceptor ↔ _ ∧
    (changesOf conn (s.history ++ [(changed, what)])).getLast? = some .insert
  rw [changesOf_append, changesOf_cons, changesOf_nil, List.append_nil]
  by_cases same : changed = conn
  · subst same
    rw [if_pos rfl, List.getLast?_concat]
    by_cases here : acceptor = changed.acceptor
    · subst here
      rw [Function.update_self]
      cases what <;> simp
    · rw [Function.update_of_ne here, members]
      simp [Ne.symm here]
  · rw [if_neg same, List.append_nil]
    by_cases here : acceptor = changed.acceptor
    · subst here
      rw [Function.update_self, ← members]
      cases what <;> simp [Ne.symm same]
    · rw [Function.update_of_ne here, members]

/-- `submit` of a change by the connection's own loop keeps the record. -/
theorem Recorded.submitChange {acceptorLoop : Acceptor → Loop} {s : Server Acceptor Loop}
    (recorded : s.Recorded acceptorLoop) (conn : Connection Acceptor Loop) (what : Change) :
    (s.submitChange acceptorLoop conn.loop conn what).Recorded acceptorLoop := by
  unfold Server.submitChange
  split
  · exact ⟨recorded.sent, members_changeConnects recorded.members conn what⟩
  · rename_i different
    refine ⟨fun loop producer other kind queued => ?_, recorded.members⟩
    have queued : (producer, LoopTask.change other kind) ∈
      Function.update s.queue (acceptorLoop conn.acceptor) _ loop := queued
    by_cases here : loop = acceptorLoop conn.acceptor
    · subst here
      rw [Function.update_self] at queued
      rcases List.mem_append.mp queued with old | new
      · exact recorded.sent _ producer other kind old
      · obtain ⟨rfl, rfl, rfl⟩ : producer = conn.loop ∧ other = conn ∧ kind = what := by
          simpa using new
        exact ⟨rfl, rfl, different⟩
    · rw [Function.update_of_ne here] at queued
      exact recorded.sent loop producer other kind queued

/-- `submit` of a change puts it behind the changes there are. -/
theorem trail_submitChange {acceptorLoop : Acceptor → Loop} {s : Server Acceptor Loop}
    (recorded : s.Recorded acceptorLoop) (conn : Connection Acceptor Loop) (what : Change)
    (other : Connection Acceptor Loop) :
    (s.submitChange acceptorLoop conn.loop conn what).trail acceptorLoop other =
      s.trail acceptorLoop other ++ if conn = other then [what] else [] := by
  unfold Server.submitChange trail
  split
  · rename_i inline
    -- The connection's loop is its acceptor's, so none of its changes is ever queued.
    show changesOf other ((s.history ++ [(conn, what)]) ++
      pending (s.queue (acceptorLoop other.acceptor))) = _
    simp only [changesOf_append, changesOf_cons, changesOf_nil, List.append_nil]
    by_cases same : conn = other
    · subst same
      have absent : changesOf conn (pending (s.queue (acceptorLoop conn.acceptor))) = [] := by
        refine changesOf_pending_eq_nil fun producer kind queued => ?_
        obtain ⟨rfl, -, different⟩ := recorded.sent _ producer conn kind queued
        exact different inline
      rw [absent, List.append_nil, List.append_nil]
    · rw [if_neg same, List.append_nil, List.append_nil]
  · show changesOf other (s.history ++ pending
      (Function.update s.queue (acceptorLoop conn.acceptor) _ (acceptorLoop other.acceptor))) = _
    by_cases here : acceptorLoop other.acceptor = acceptorLoop conn.acceptor
    · rw [here, Function.update_self, pending_append, pending_cons]
      simp [LoopTask.change?, changesOf_cons, pending]
    · have different : conn ≠ other := by
        rintro rfl
        exact here rfl
      rw [Function.update_of_ne here, if_neg different, List.append_nil]

/-- `submit` of a change does not queue a destructor callback. -/
theorem count_submitChange (acceptorLoop : Acceptor → Loop) (s : Server Acceptor Loop)
    (thread : Loop) (changed : Connection Acceptor Loop) (what : Change) (loop : Loop)
    (conn : Connection Acceptor Loop) :
    (((s.submitChange acceptorLoop thread changed what).queue loop).map Prod.snd).count
      (.destruct conn) = ((s.queue loop).map Prod.snd).count (.destruct conn) := by
  unfold submitChange
  split
  · rfl
  · show ((Function.update s.queue (acceptorLoop changed.acceptor) _ loop).map Prod.snd).count
      (.destruct conn) = _
    by_cases here : loop = acceptorLoop changed.acceptor
    · subst here
      rw [Function.update_self]
      simp
    · rw [Function.update_of_ne here]

/-! ### What a task leaves as it was -/

omit [DecidableEq Acceptor] in
/-- A queued task that changes no set. -/
theorem pending_enqueue (s : Server Acceptor Loop) (loop producer : Loop)
    {task : LoopTask Acceptor Loop} (none : task.change? = none) (other : Loop) :
    pending ((s.enqueue loop producer task).queue other) = pending (s.queue other) := by
  show pending (Function.update s.queue loop _ other) = _
  by_cases here : other = loop
  · subst here
    rw [Function.update_self, pending_append, pending_cons, none]
    simp [pending]
  · rw [Function.update_of_ne here]

omit [DecidableEq Acceptor] in
/-- A task taken off that changes no set. -/
theorem pending_dequeue {s : Server Acceptor Loop} {loop producer : Loop}
    {task : LoopTask Acceptor Loop} {rest : List (Loop × LoopTask Acceptor Loop)}
    (found : dequeue producer (s.queue loop) = some (task, rest)) (none : task.change? = none)
    (other : Loop) : pending (Function.update s.queue loop rest other) = pending (s.queue other) := by
  by_cases here : other = loop
  · subst here
    obtain ⟨before, after, shape, left, -⟩ := dequeue_eq_some _ _ _ _ found
    rw [Function.update_self, shape, left, pending_append, pending_append, pending_cons, none]
    rfl
  · rw [Function.update_of_ne here]

/-- The trail only depends on the changes made and queued. -/
theorem trail_congr {acceptorLoop : Acceptor → Loop} {s next : Server Acceptor Loop}
    (history : next.history = s.history)
    (queued : ∀ loop, pending (next.queue loop) = pending (s.queue loop))
    (conn : Connection Acceptor Loop) :
    next.trail acceptorLoop conn = s.trail acceptorLoop conn := by
  unfold trail
  rw [history, queued]

/-- What is due only depends on the connection's point of life. -/
theorem due_congr {s next : Server Acceptor Loop} {conn : Connection Acceptor Loop}
    (inserted : conn ∈ next.created ∧ next.running conn.loop ≠ some conn ↔
      conn ∈ s.created ∧ s.running conn.loop ≠ some conn)
    (destructed : conn ∈ next.destructed ↔ conn ∈ s.destructed) : next.due conn = s.due conn := by
  unfold due
  simp only [inserted, destructed]

/-- The record of a server that has no other change in its queues. -/
theorem Recorded.of_queue {acceptorLoop : Acceptor → Loop} {s next : Server Acceptor Loop}
    (recorded : s.Recorded acceptorLoop) (connects : next.connects = s.connects)
    (history : next.history = s.history)
    (fewer : ∀ loop producer conn what, (producer, LoopTask.change conn what) ∈ next.queue loop →
      (producer, LoopTask.change conn what) ∈ s.queue loop) : next.Recorded acceptorLoop where
  sent loop producer conn what queued :=
    recorded.sent loop producer conn what (fewer loop producer conn what queued)
  members acceptor conn := by
    rw [connects, history]
    exact recorded.members acceptor conn

omit [DecidableEq Acceptor] in
theorem mem_of_mem_enqueue {s : Server Acceptor Loop} {loop producer other : Loop}
    {task : LoopTask Acceptor Loop} {entry : Loop × LoopTask Acceptor Loop}
    (queued : entry ∈ (s.enqueue loop producer task).queue other) (different : entry.2 ≠ task) :
    entry ∈ s.queue other := by
  have queued : entry ∈ Function.update s.queue loop _ other := queued
  by_cases here : other = loop
  · subst here
    rw [Function.update_self] at queued
    rcases List.mem_append.mp queued with old | new
    · exact old
    · obtain rfl := List.mem_singleton.mp new
      exact absurd rfl different
  · rwa [Function.update_of_ne here] at queued

omit [DecidableEq Acceptor] in
theorem mem_of_mem_dequeue {s : Server Acceptor Loop} {loop producer other : Loop}
    {task : LoopTask Acceptor Loop} {rest : List (Loop × LoopTask Acceptor Loop)}
    (found : dequeue producer (s.queue loop) = some (task, rest))
    {entry : Loop × LoopTask Acceptor Loop}
    (queued : entry ∈ Function.update s.queue loop rest other) : entry ∈ s.queue other := by
  by_cases here : other = loop
  · subst here
    rw [Function.update_self] at queued
    exact (dequeue_perm _ _ _ _ found).symm.subset (List.mem_cons_of_mem _ queued)
  · rwa [Function.update_of_ne here] at queued

/-- How often a task is queued, after one more was. -/
theorem count_enqueue (s : Server Acceptor Loop) (loop producer other : Loop)
    (task wanted : LoopTask Acceptor Loop) :
    (((s.enqueue loop producer task).queue other).map Prod.snd).count wanted =
      ((s.queue other).map Prod.snd).count wanted +
        if other = loop ∧ task = wanted then 1 else 0 := by
  show ((Function.update s.queue loop _ other).map Prod.snd).count wanted = _
  by_cases here : other = loop
  · subst here
    rw [Function.update_self, List.map_append, List.count_append]
    simp [List.count_singleton]
  · rw [Function.update_of_ne here]
    simp [here]

/-- How often a task was queued, before one was taken off. -/
theorem count_dequeue {s : Server Acceptor Loop} {loop producer : Loop}
    {task : LoopTask Acceptor Loop} {rest : List (Loop × LoopTask Acceptor Loop)}
    (found : dequeue producer (s.queue loop) = some (task, rest)) (other : Loop)
    (wanted : LoopTask Acceptor Loop) :
    ((s.queue other).map Prod.snd).count wanted =
      ((Function.update s.queue loop rest other).map Prod.snd).count wanted +
        if other = loop ∧ task = wanted then 1 else 0 := by
  by_cases here : other = loop
  · subst here
    rw [Function.update_self, (dequeue_items_perm _ _ _ _ found).count_eq, List.count_cons]
    simp
  · rw [Function.update_of_ne here]
    simp [here]

/-! ### What a step keeps -/

theorem initial_tracked (acceptorLoop : Acceptor → Loop) :
    (initial : Server Acceptor Loop).Tracked acceptorLoop where
  recorded := by
    refine ⟨fun loop producer conn what queued => ?_, fun acceptor conn => ?_⟩
    · cases queued
    · simp [initial]
  trail conn := by simp [Server.trail, due, initial, pending]
  numbered conn member := by cases member
  held loop conn running := by cases running
  wasClosed conn member := by simp [initial] at member
  wasCreated conn member := by simp [initial] at member
  delayed loop conn := by simp [initial]

/-- The server is as it was but for tasks of `NewConnection` in its queues. -/
theorem Tracked.of_queue {acceptorLoop : Acceptor → Loop} {s : Server Acceptor Loop}
    (tracked : s.Tracked acceptorLoop) {queue : Loop → List (Loop × LoopTask Acceptor Loop)}
    (queued : ∀ loop, pending (queue loop) = pending (s.queue loop))
    (fewer : ∀ loop producer conn what, (producer, LoopTask.change conn what) ∈ queue loop →
      (producer, LoopTask.change conn what) ∈ s.queue loop)
    (delayed : ∀ loop conn, ((queue loop).map Prod.snd).count (.destruct conn) =
      ((s.queue loop).map Prod.snd).count (.destruct conn)) :
    ({ s with queue := queue }).Tracked acceptorLoop where
  recorded := tracked.recorded.of_queue rfl rfl fewer
  trail conn := by
    refine Eq.trans (trail_congr (s := s) ?_ queued conn) (tracked.trail conn)
    rfl
  numbered := tracked.numbered
  held := tracked.held
  wasClosed := tracked.wasClosed
  wasCreated := tracked.wasCreated
  delayed loop conn := (delayed loop conn).trans (tracked.delayed loop conn)

/-- A task of `NewConnection` is queued. -/
theorem Tracked.enqueueNew {acceptorLoop : Acceptor → Loop} {s : Server Acceptor Loop}
    (tracked : s.Tracked acceptorLoop) (loop producer : Loop) (acceptor : Acceptor) :
    (s.enqueue loop producer (.newConnection acceptor)).Tracked acceptorLoop := by
  refine tracked.of_queue (pending_enqueue s loop producer rfl) ?_ fun other conn => ?_
  · intro other sender conn what queued
    exact mem_of_mem_enqueue queued (fun same => by cases same)
  · have counted := count_enqueue s loop producer other (.newConnection acceptor) (.destruct conn)
    rwa [if_neg (fun same => by cases same.2), Nat.add_zero] at counted

/-- A task of `NewConnection` is taken off. -/
theorem Tracked.dequeueNew {acceptorLoop : Acceptor → Loop} {s : Server Acceptor Loop}
    (tracked : s.Tracked acceptorLoop) {loop producer : Loop} {acceptor : Acceptor}
    {rest : List (Loop × LoopTask Acceptor Loop)}
    (found : dequeue producer (s.queue loop) = some (.newConnection acceptor, rest)) :
    ({ s with queue := Function.update s.queue loop rest }).Tracked acceptorLoop := by
  refine tracked.of_queue (pending_dequeue found rfl) ?_ fun other conn => ?_
  · intro other sender conn what queued
    exact mem_of_mem_dequeue found queued
  · have counted := count_dequeue found other (.destruct conn)
    rw [if_neg (fun same => by cases same.2), Nat.add_zero] at counted
    exact counted.symm

/-- The connection callback returns a fresh connection, which the running task holds. -/
theorem Tracked.beginNewConnection {acceptorLoop : Acceptor → Loop} {s : Server Acceptor Loop}
    (tracked : s.Tracked acceptorLoop) (acceptor : Acceptor) {loop : Loop}
    (idle : s.running loop = none) :
    (s.beginNewConnection acceptor loop).Tracked acceptorLoop := by
  have fresh : ∀ conn ∈ s.created, conn ≠ ⟨s.created.length, acceptor, loop⟩ := by
    rintro conn member rfl
    exact lt_irrefl _ (tracked.numbered _ member)
  refine ⟨tracked.recorded.of_queue rfl rfl (fun _ _ _ _ queued => queued), fun conn => ?_,
    fun conn member => ?_, fun other conn running => ?_, tracked.wasClosed, fun conn member => ?_,
    tracked.delayed⟩
  · show s.trail acceptorLoop conn = _
    rw [tracked.trail conn]
    by_cases isNew : conn = ⟨s.created.length, acceptor, loop⟩
    · subst isNew
      unfold due
      rw [if_neg (fun old => fresh _ old.1 rfl), if_neg]
      rintro ⟨-, other⟩
      exact other (Function.update_self ..)
    · have member : conn ∈ s.created ++ [⟨s.created.length, acceptor, loop⟩] ↔
          conn ∈ s.created := by
        simp [isNew]
      have running : Function.update s.running loop (some ⟨s.created.length, acceptor, loop⟩)
          conn.loop ≠ some conn ↔ s.running conn.loop ≠ some conn := by
        by_cases here : conn.loop = loop
        · rw [here, Function.update_self, idle]
          simp [Ne.symm isNew]
        · rw [Function.update_of_ne here]
      refine Eq.symm (due_congr ?_ Iff.rfl)
      exact and_congr member running
  · show conn.serial < (s.created ++ [_]).length
    rw [List.length_append]
    rcases List.mem_append.mp member with old | new
    · exact Nat.lt_add_right _ (tracked.numbered conn old)
    · obtain rfl := List.mem_singleton.mp new
      exact Nat.lt_succ_self _
  · have running : Function.update s.running loop _ other = some conn := running
    show _ ∧ conn ∈ s.created ++ [_] ∧ conn ∉ s.destructed
    by_cases here : other = loop
    · subst here
      rw [Function.update_self] at running
      obtain rfl := Option.some.inj running
      refine ⟨rfl, by simp, fun gone => ?_⟩
      exact fresh _ (tracked.wasCreated _ (tracked.wasClosed _ gone)) rfl
    · rw [Function.update_of_ne here] at running
      obtain ⟨isLoop, created, open'⟩ := tracked.held other conn running
      exact ⟨isLoop, List.mem_append_left _ created, open'⟩
  · exact List.mem_append_left _ (tracked.wasCreated conn member)

/-- `submit` of a change that the books already count on. -/
theorem tracked_submitChange {acceptorLoop : Acceptor → Loop} {s : Server Acceptor Loop}
    {conn : Connection Acceptor Loop} {what : Change} (recorded : s.Recorded acceptorLoop)
    (trail : ∀ other, (s.trail acceptorLoop other ++ if conn = other then [what] else []) =
      s.due other)
    (numbered : ∀ conn ∈ s.created, conn.serial < s.created.length)
    (held : ∀ loop conn, s.running loop = some conn →
      conn.loop = loop ∧ conn ∈ s.created ∧ conn ∉ s.destructed)
    (wasClosed : ∀ conn ∈ s.destructed, conn ∈ s.closed)
    (wasCreated : ∀ conn ∈ s.closed, conn ∈ s.created)
    (delayed : ∀ loop conn, ((s.queue loop).map Prod.snd).count (.destruct conn) =
      if loop = conn.loop ∧ conn ∈ s.closed ∧ conn ∉ s.destructed then 1 else 0) :
    (s.submitChange acceptorLoop conn.loop conn what).Tracked acceptorLoop := by
  have books : (s.submitChange acceptorLoop conn.loop conn what).created = s.created ∧
      (s.submitChange acceptorLoop conn.loop conn what).running = s.running ∧
      (s.submitChange acceptorLoop conn.loop conn what).closed = s.closed ∧
      (s.submitChange acceptorLoop conn.loop conn what).destructed = s.destructed := by
    unfold submitChange
    split <;> exact ⟨rfl, rfl, rfl, rfl⟩
  obtain ⟨created, running, closed, destructed⟩ := books
  refine ⟨recorded.submitChange conn what, fun other => ?_, ?_, ?_, ?_, ?_, fun loop other => ?_⟩
  · rw [trail_submitChange recorded, trail other]
    unfold due
    rw [created, running, destructed]
  · rwa [created]
  · rwa [created, running, destructed]
  · rwa [closed, destructed]
  · rwa [created, closed]
  · rw [count_submitChange, delayed loop other, closed, destructed]

/-- The rest of the task of `NewConnection`: the insertion is made or queued. -/
theorem Tracked.finishTask {acceptorLoop : Acceptor → Loop} {s : Server Acceptor Loop}
    (tracked : s.Tracked acceptorLoop) {loop : Loop} {conn : Connection Acceptor Loop}
    (running : s.running loop = some conn) :
    (submitChange acceptorLoop { s with running := Function.update s.running loop none } loop
      conn .insert).Tracked acceptorLoop := by
  obtain ⟨rfl, created, present⟩ := tracked.held loop conn running
  refine tracked_submitChange ⟨tracked.recorded.sent, tracked.recorded.members⟩ (fun other => ?_)
    tracked.numbered (fun other held running => ?_) tracked.wasClosed tracked.wasCreated
    tracked.delayed
  · show s.trail acceptorLoop other ++ _ = _
    rw [tracked.trail other]
    by_cases same : conn = other
    · subst same
      unfold due
      rw [if_neg (fun idle => idle.2 running), if_pos rfl, if_pos, if_neg present]
      · rfl
      · refine ⟨created, ?_⟩
        show Function.update s.running conn.loop none conn.loop ≠ some conn
        rw [Function.update_self]
        exact (Option.some_ne_none conn).symm
    · rw [if_neg same, List.append_nil]
      refine Eq.symm (due_congr (and_congr_right fun _ => ?_) Iff.rfl)
      show Function.update s.running conn.loop none other.loop ≠ some other ↔ _
      by_cases here : other.loop = conn.loop
      · rw [here, Function.update_self, running]
        simp [same]
      · rw [Function.update_of_ne here]
  · have running : Function.update s.running conn.loop none other = some held := running
    by_cases here : other = conn.loop
    · rw [here, Function.update_self] at running
      cases running
    · rw [Function.update_of_ne here] at running
      exact tracked.held other held running

/-- The delayed destructor callback runs: the removal is made or queued. -/
theorem Tracked.destruct {acceptorLoop : Acceptor → Loop} {s : Server Acceptor Loop}
    (tracked : s.Tracked acceptorLoop) {loop producer : Loop} (idle : s.running loop = none)
    {conn : Connection Acceptor Loop} {rest : List (Loop × LoopTask Acceptor Loop)}
    (found : dequeue producer (s.queue loop) = some (.destruct conn, rest)) :
    (submitChange acceptorLoop { s with
      queue := Function.update s.queue loop rest
      destructed := insert conn s.destructed } loop conn .erase).Tracked acceptorLoop := by
  have counted := count_dequeue found loop (.destruct conn)
  rw [if_pos ⟨rfl, rfl⟩, tracked.delayed] at counted
  obtain ⟨rfl, closed, present⟩ : loop = conn.loop ∧ conn ∈ s.closed ∧ conn ∉ s.destructed := by
    by_contra impossible
    rw [if_neg impossible] at counted
    omega
  refine tracked_submitChange (tracked.recorded.of_queue rfl rfl
    fun other sender held what => mem_of_mem_dequeue found) (fun other => ?_) tracked.numbered
    (fun other held running => ?_) (fun other gone => ?_) tracked.wasCreated
    fun other waiting => ?_
  · rw [trail_congr (s := s) (by rfl) (pending_dequeue found rfl) other, tracked.trail other]
    by_cases same : conn = other
    · subst same
      have inserted : conn ∈ s.created ∧ s.running conn.loop ≠ some conn := by
        refine ⟨tracked.wasCreated conn closed, ?_⟩
        rw [idle]
        exact (Option.some_ne_none conn).symm
      unfold due
      rw [if_pos inserted, if_neg present, if_pos rfl, if_pos inserted, if_pos (by simp)]
      rfl
    · rw [if_neg same, List.append_nil]
      refine Eq.symm (due_congr Iff.rfl ?_)
      simp [Ne.symm same]
  · obtain ⟨isLoop, created, there⟩ := tracked.held other held running
    refine ⟨isLoop, created, fun gone => ?_⟩
    rcases Finset.mem_insert.mp gone with rfl | gone
    · have running : s.running other = some held := running
      rw [← isLoop, idle] at running
      cases running
    · exact there gone
  · rcases Finset.mem_insert.mp gone with rfl | gone
    · exact closed
    · exact tracked.wasClosed other gone
  · show ((Function.update s.queue conn.loop rest other).map Prod.snd).count (.destruct waiting) =
      if other = waiting.loop ∧ waiting ∈ s.closed ∧ waiting ∉ insert conn s.destructed then 1
      else 0
    have counted := count_dequeue found other (.destruct waiting)
    rw [tracked.delayed] at counted
    by_cases same : conn = waiting
    · subst same
      rw [if_neg (by simp)]
      by_cases here : other = conn.loop
      · rw [if_pos ⟨here, closed, present⟩, if_pos ⟨here, rfl⟩] at counted
        omega
      · rw [if_neg (fun all => here all.1), if_neg (fun all => here all.1)] at counted
        exact counted.symm
    · have others : ¬ (other = conn.loop ∧ LoopTask.destruct conn = LoopTask.destruct waiting) := by
        rintro ⟨-, alike⟩
        cases alike
        exact same rfl
      rw [if_neg others, Nat.add_zero] at counted
      rw [← counted]
      simp [Ne.symm same]

/-- A connection is closed, and its destructor callback is queued. -/
theorem Tracked.handleClose {acceptorLoop : Acceptor → Loop} {s : Server Acceptor Loop}
    (tracked : s.Tracked acceptorLoop) {conn : Connection Acceptor Loop}
    (created : conn ∈ s.created) (opened : conn ∉ s.closed) :
    (({ s with closed := insert conn s.closed }).enqueue conn.loop conn.loop
      (.destruct conn)).Tracked acceptorLoop := by
  have present : conn ∉ s.destructed := fun gone => opened (tracked.wasClosed conn gone)
  refine ⟨tracked.recorded.of_queue rfl rfl ?_, fun other => ?_, tracked.numbered, tracked.held,
    fun other gone => ?_, fun other closed => ?_, fun loop other => ?_⟩
  · intro loop producer other what queued
    exact mem_of_mem_enqueue queued (fun same => by cases same)
  · refine Eq.trans (trail_congr (s := s) ?_ ?_ other) (tracked.trail other)
    · rfl
    · exact pending_enqueue _ conn.loop conn.loop rfl
  · exact Finset.mem_insert_of_mem (tracked.wasClosed other gone)
  · rcases Finset.mem_insert.mp closed with rfl | before
    · exact created
    · exact tracked.wasCreated other before
  · rw [count_enqueue]
    show ((s.queue loop).map Prod.snd).count (.destruct other) + _ =
      if loop = other.loop ∧ other ∈ insert conn s.closed ∧ other ∉ s.destructed then 1 else 0
    rw [tracked.delayed]
    by_cases same : conn = other
    · subst same
      rw [if_neg (fun all => opened all.2.1)]
      simp [present]
    · simp [same, Ne.symm same]

/-- A task changes a set: the change moves from the queue to the history. -/
theorem Tracked.change {acceptorLoop : Acceptor → Loop} {s : Server Acceptor Loop}
    (tracked : s.Tracked acceptorLoop) {loop producer : Loop} {conn : Connection Acceptor Loop}
    {what : Change} {rest : List (Loop × LoopTask Acceptor Loop)}
    (found : dequeue producer (s.queue loop) = some (.change conn what, rest)) :
    (({ s with queue := Function.update s.queue loop rest }).changeConnects conn what).Tracked
      acceptorLoop := by
  obtain ⟨before, after, shape, left, others⟩ := dequeue_eq_some _ _ _ _ found
  have queued : (producer, LoopTask.change conn what) ∈ s.queue loop := by
    rw [shape]
    simp
  obtain ⟨rfl, rfl, -⟩ := tracked.recorded.sent loop producer conn what queued
  refine ⟨⟨?_, members_changeConnects tracked.recorded.members conn what⟩, fun other => ?_,
    tracked.numbered, tracked.held, tracked.wasClosed, tracked.wasCreated, fun loop other => ?_⟩
  · intro loop producer other kind queued
    exact tracked.recorded.sent loop producer other kind (mem_of_mem_dequeue found queued)
  · refine Eq.trans ?_ (tracked.trail other)
    show changesOf other ((s.history ++ [(conn, what)]) ++ pending (Function.update s.queue
      (acceptorLoop conn.acceptor) rest (acceptorLoop other.acceptor))) = changesOf other
        (s.history ++ pending (s.queue (acceptorLoop other.acceptor)))
    by_cases here : acceptorLoop other.acceptor = acceptorLoop conn.acceptor
    · -- All tasks about the connection come from its own loop, so this is the first of them.
      have first : conn = other → changesOf other (pending before) = [] := by
        rintro rfl
        refine changesOf_pending_eq_nil fun producer kind earlier => ?_
        have sender := (tracked.recorded.sent _ producer conn kind
          (by rw [shape]; exact List.mem_append_left _ earlier)).1
        exact others _ earlier sender
      rw [here, Function.update_self, shape, left]
      simp only [changesOf_append, pending_append, pending_cons, changesOf_cons, changesOf_nil,
        LoopTask.change?, Option.toList_some, List.append_nil, List.append_assoc]
      by_cases same : conn = other
      · rw [first same]
        simp
      · simp [same]
    · have different : conn ≠ other := by
        rintro rfl
        exact here rfl
      rw [Function.update_of_ne here]
      simp [changesOf_cons, different]
  · have counted := count_dequeue found loop (.destruct other)
    rw [if_neg (fun same => by cases same.2), Nat.add_zero, tracked.delayed] at counted
    exact counted.symm

/-- Every step keeps track of the connections. -/
theorem step_tracked {acceptorLoop : Acceptor → Loop} {s next : Server Acceptor Loop}
    {action : ServerAction Acceptor Loop} (tracked : s.Tracked acceptorLoop)
    (taken : step acceptorLoop s action = some next) : next.Tracked acceptorLoop := by
  cases action with
  | newConnection acceptor loop =>
    simp only [step] at taken
    split at taken
    · cases taken
    · rename_i idle
      split at taken
      · rename_i inline
        cases taken
        subst inline
        exact tracked.beginNewConnection acceptor (not_not.mp idle)
      · cases taken
        exact tracked.enqueueNew loop _ acceptor
  | runTask loop producer =>
    simp only [step] at taken
    split at taken
    · cases taken
    · rename_i busy
      have idle : s.running loop = none := not_not.mp busy
      obtain ⟨⟨task, rest⟩, found, taken⟩ := Option.bind_eq_some_iff.mp taken
      cases taken
      cases task with
      | newConnection acceptor => exact (tracked.dequeueNew found).beginNewConnection acceptor idle
      | destruct conn => exact tracked.destruct idle found
      | change conn what => exact tracked.change found
  | finishTask loop =>
    simp only [step] at taken
    obtain ⟨conn, running, taken⟩ := Option.bind_eq_some_iff.mp taken
    cases taken
    exact tracked.finishTask running
  | handleClose conn =>
    simp only [step] at taken
    split at taken
    · rename_i allowed
      cases taken
      exact tracked.handleClose allowed.1 allowed.2
    · cases taken

/-! ### Whole runs -/

/-- Every reachable server keeps track of the connections. -/
theorem run_tracked {acceptorLoop : Acceptor → Loop} {s : Server Acceptor Loop}
    {actions : List (ServerAction Acceptor Loop)}
    (run : Run (StepOf (step acceptorLoop)) initial actions s) : s.Tracked acceptorLoop :=
  run.invariant_of_step (initial_tracked acceptorLoop) fun _ _ _ tracked taken =>
    step_tracked tracked taken

/-- A connection whose destructor callback has not run is referenced. -/
theorem Tracked.referenced {acceptorLoop : Acceptor → Loop} {s : Server Acceptor Loop}
    (tracked : s.Tracked acceptorLoop) {conn : Connection Acceptor Loop}
    (created : conn ∈ s.created) (present : conn ∉ s.destructed) :
    s.Referenced acceptorLoop conn := by
  by_cases running : s.running conn.loop = some conn
  · exact .inl running
  have trail := tracked.trail conn
  unfold due at trail
  rw [if_pos ⟨created, running⟩, if_neg present] at trail
  unfold Server.trail at trail
  rw [changesOf_append] at trail
  rcases List.append_eq_singleton_iff.mp trail with ⟨-, queued⟩ | ⟨made, -⟩
  · have member : Change.insert ∈ changesOf conn
        (pending (s.queue (acceptorLoop conn.acceptor))) := by
      rw [queued]
      simp
    obtain ⟨⟨other, what⟩, queued, rfl⟩ := List.mem_map.mp member
    obtain ⟨queued, same⟩ := List.mem_filter.mp queued
    obtain rfl : other = conn := of_decide_eq_true same
    obtain ⟨producer, queued⟩ := mem_pending queued
    obtain ⟨rfl, -, -⟩ := tracked.recorded.sent _ producer other _ queued
    exact .inr (.inl queued)
  · refine .inr (.inr ((tracked.recorded.members _ conn).mpr ⟨rfl, ?_⟩))
    rw [made]
    rfl

/-- The changes made for a connection are its insertion and then its removal, or the first part
of these. -/
theorem Tracked.history_isPrefix {acceptorLoop : Acceptor → Loop} {s : Server Acceptor Loop}
    (tracked : s.Tracked acceptorLoop) (conn : Connection Acceptor Loop) :
    changesOf conn s.history <+: [.insert, .erase] := by
  have made : changesOf conn s.history <+: s.due conn := by
    rw [← tracked.trail conn, Server.trail, changesOf_append]
    exact List.prefix_append _ _
  refine made.trans ?_
  unfold due
  split
  · split
    · exact List.prefix_refl _
    · exact ⟨[.erase], rfl⟩
  · exact List.nil_prefix

/-- With empty queues, the sets hold the connections that are not closed, less those that are
still held by a running task of `NewConnection`. -/
theorem Tracked.mem_connects_iff {acceptorLoop : Acceptor → Loop} {s : Server Acceptor Loop}
    (tracked : s.Tracked acceptorLoop) (empty : ∀ loop, s.queue loop = []) (acceptor : Acceptor)
    (conn : Connection Acceptor Loop) :
    conn ∈ s.connects acceptor ↔ conn.acceptor = acceptor ∧ conn ∈ s.created ∧
      conn ∉ s.closed ∧ s.running conn.loop ≠ some conn := by
  have trail := tracked.trail conn
  unfold Server.trail at trail
  rw [empty, changesOf_append] at trail
  have made : changesOf conn s.history = s.due conn := by
    rw [← trail]
    simp [pending]
  have settled : conn ∈ s.closed ↔ conn ∈ s.destructed := by
    refine ⟨fun closed => ?_, tracked.wasClosed conn⟩
    by_contra present
    have delayed := tracked.delayed conn.loop conn
    rw [empty, if_pos ⟨rfl, closed, present⟩] at delayed
    cases delayed
  rw [tracked.recorded.members, made, settled]
  refine and_congr_right fun _ => ?_
  unfold due
  by_cases inserted : conn ∈ s.created ∧ s.running conn.loop ≠ some conn
  · rw [if_pos inserted]
    by_cases gone : conn ∈ s.destructed
    · simp [gone]
    · simp [gone, inserted]
  · rw [if_neg inserted]
    simp only [List.getLast?_nil, reduceCtorEq, false_iff]
    exact fun all => inserted ⟨all.1, all.2.2⟩

/-- In every reachable server, a connection is referenced from its creation until its destructor
callback has run, its insertion into `connects_` comes before its removal, and with empty queues
`connects_` holds the connections that are not closed, where those of a task of `NewConnection`
that is still running are yet to come. -/
theorem connections_tracked {acceptorLoop : Acceptor → Loop} {s : Server Acceptor Loop}
    {actions : List (ServerAction Acceptor Loop)}
    (run : Run (StepOf (step acceptorLoop)) initial actions s) :
    (∀ conn ∈ s.created, conn ∉ s.destructed → s.Referenced acceptorLoop conn) ∧
      (∀ conn, changesOf conn s.history <+: [.insert, .erase]) ∧
      ((∀ loop, s.queue loop = []) → ∀ acceptor conn, conn ∈ s.connects acceptor ↔
        conn.acceptor = acceptor ∧ conn ∈ s.created ∧ conn ∉ s.closed ∧
          s.running conn.loop ≠ some conn) := by
  have tracked := run_tracked run
  refine ⟨fun conn created present => ?_, tracked.history_isPrefix, tracked.mem_connects_iff⟩
  exact tracked.referenced created present

/-- Two connections of one acceptor on another loop, of which one is closed and removed. -/
theorem connections_tracked_two : ∃ s : Server Unit Bool,
    Run (StepOf (step fun _ => false)) initial
      [.newConnection () true, .newConnection () true, .runTask true false, .finishTask true,
        .handleClose ⟨0, (), true⟩, .runTask true true, .runTask true false, .runTask false true,
        .finishTask true, .runTask false true, .runTask false true] s ∧
    (∀ loop, s.queue loop = []) ∧ ⟨0, (), true⟩ ∉ s.connects () ∧
      ⟨1, (), true⟩ ∈ s.connects () := by
  have done : ((exec (step fun _ => false) (initial : Server Unit Bool)
      [.newConnection () true, .newConnection () true, .runTask true false, .finishTask true,
        .handleClose ⟨0, (), true⟩, .runTask true true, .runTask true false, .runTask false true,
        .finishTask true, .runTask false true, .runTask false true]).map fun s =>
      decide ((s.queue false = [] ∧ s.queue true = []) ∧ s.running true = none ∧
        (⟨0, (), true⟩ ∈ s.closed ∧ ⟨1, (), true⟩ ∉ s.closed) ∧ ⟨1, (), true⟩ ∈ s.created)) =
      some true := by
    decide
  obtain ⟨s, executed, state⟩ := Option.map_eq_some_iff.mp done
  obtain ⟨⟨first, second⟩, idle, ⟨closed, opened⟩, created⟩ := of_decide_eq_true state
  have run := run_of_exec executed
  have empty : ∀ loop, s.queue loop = [] := by
    intro loop
    cases loop
    · exact first
    · exact second
  obtain ⟨-, -, members⟩ := connections_tracked run
  refine ⟨s, run, empty, fun member => ?_, (members empty () _).mpr ⟨rfl, created, opened, ?_⟩⟩
  · exact ((members empty () _).mp member).2.2.1 closed
  · rw [idle]
    exact (Option.some_ne_none _).symm

end Server

end YYNet
