/-
This file models the pool of connections of the stress server together with the
queues of its loops, and proves when a connection in use stays owned.

A worker's pool hands a connection out in the task that an acceptor queued for a
new descriptor. The connection's set of owners is the acceptor's `connects_`,
which is changed by tasks on the acceptor's own loop: the worker queues an
insertion when it has acquired the connection, and a removal when it runs the
delayed `destructCallBack_` of a closed one. `handleClose` gives the connection
back to the pool before it queues that callback, so a new use can begin while
the callback of the last one still waits. The insertion for the new use then
stands in front of the removal for the old one, and the removal drops the
connection while it is in use.

The main theorem says that nothing else drops one: along every run in which no
connection is acquired while its last destructor callback waits, every
connection in use is in the set of its acceptor or an insertion is on the way.
-/

import YYNet.Lib.ProducerQueue
import YYNet.Net.TcpConnection

namespace YYNet

open Checked Transition ProducerQueue

/-! ### The system -/

/-- A connection object: the pool that constructed it and its number there. The pool's id is the
id of the loop, and `acquire` and `release` assert that it is. -/
structure PooledConnection (Worker : Type) where
  pool : Worker
  serial : Nat
  deriving DecidableEq, Repr

/-- The threads that queue tasks. -/
inductive PoolThread (Acceptor Worker : Type)
  | acceptor (id : Acceptor)
  | worker (id : Worker)
  deriving DecidableEq, Repr

/-- The tasks of a worker's loop: a descriptor an acceptor has accepted, and the delayed
destructor callback. -/
inductive WorkerTask (Acceptor Worker : Type)
  | newConnection (acceptor : Acceptor)
  | destruct (conn : PooledConnection Worker)
  deriving DecidableEq, Repr

/-- The tasks of an acceptor's loop: the insertion into `connects_` and `removeConnection`. -/
inductive AcceptorTask (Worker : Type)
  | insert (conn : PooledConnection Worker)
  | remove (conn : PooledConnection Worker)
  deriving DecidableEq, Repr

/-- The pools, the connection objects, the queues of the loops, and `connects_` of each
acceptor. -/
structure ConPools (Acceptor Worker : Type) where
  /-- The number of objects each pool has constructed. -/
  made : Worker → Nat
  freeList : Worker → List (PooledConnection Worker)
  status : PooledConnection Worker → ConnectStatus
  /-- The acceptor whose function `destructCallBack_` is. -/
  destructCallBack : PooledConnection Worker → Option Acceptor
  workerQueue : Worker → List (PoolThread Acceptor Worker × WorkerTask Acceptor Worker)
  acceptorQueue : Acceptor → List (PoolThread Acceptor Worker × AcceptorTask Worker)
  connects : Acceptor → Finset (PooledConnection Worker)

/-- One step of some thread. -/
inductive ConAction (Acceptor Worker : Type)
  /-- `Acceptor::NewConnection`, with the loop that `NextLoop` chose. -/
  | accept (acceptor : Acceptor) (worker : Worker)
  | runWorkerTask (worker : Worker) (producer : PoolThread Acceptor Worker)
  | runAcceptorTask (acceptor : Acceptor) (producer : PoolThread Acceptor Worker)
  | disconnect (conn : PooledConnection Worker)
  | handleClose (conn : PooledConnection Worker)
  deriving DecidableEq, Repr

namespace ConPools

variable {Acceptor Worker : Type} [DecidableEq Acceptor] [DecidableEq Worker]

/-! ### `ObjectPool` -/

/-- `ExpendNum`. -/
def expendNum : Nat := 1000

/-- The objects a pool constructs next. -/
def constructed (worker : Worker) (first num : Nat) : List (PooledConnection Worker) :=
  (List.range num).map fun offset => ⟨worker, first + offset⟩

/-- The server when every pool has been constructed. -/
def initial (num : Nat) : ConPools Acceptor Worker where
  made _ := num
  freeList worker := constructed worker 0 num
  status _ := .connecting
  destructCallBack _ := none
  workerQueue _ := []
  acceptorQueue _ := []
  connects _ := ∅

/-- `expend`. -/
def expend (s : ConPools Acceptor Worker) (worker : Worker) (num : Nat) :
    ConPools Acceptor Worker :=
  { s with
    made := Function.update s.made worker (s.made worker + num)
    freeList := Function.update s.freeList worker
      (s.freeList worker ++ constructed worker (s.made worker) num) }

/-- Write the status of an object. -/
def setStatus (s : ConPools Acceptor Worker) (conn : PooledConnection Worker)
    (status : ConnectStatus) : ConPools Acceptor Worker :=
  { s with status := Function.update s.status conn status }

/-- `acquire`: the front of the list, with the assertion of `init`. -/
def acquire (s : ConPools Acceptor Worker) (build : Build) (worker : Worker) :
    Option (PooledConnection Worker × ConPools Acceptor Worker) :=
  let filled := if s.freeList worker = [] then s.expend worker expendNum else s
  match filled.freeList worker with
  | [] => none
  | conn :: rest =>
    if build = .debug ∧ filled.status conn ≠ .connecting then none
    else some (conn, { filled.setStatus conn .connected with
      freeList := Function.update filled.freeList worker rest })

/-- `release`: `reset` and the back of the list. -/
def release (s : ConPools Acceptor Worker) (conn : PooledConnection Worker) :
    ConPools Acceptor Worker :=
  { s.setStatus conn .connecting with
    freeList := Function.update s.freeList conn.pool (s.freeList conn.pool ++ [conn]) }

/-! ### The loops -/

/-- `submit` of another thread and `DelayedExecution`, on a worker's loop. -/
def toWorker (s : ConPools Acceptor Worker) (worker : Worker)
    (producer : PoolThread Acceptor Worker) (task : WorkerTask Acceptor Worker) :
    ConPools Acceptor Worker :=
  { s with workerQueue :=
    Function.update s.workerQueue worker (s.workerQueue worker ++ [(producer, task)]) }

/-- `submit` of a worker on an acceptor's loop. -/
def toAcceptor (s : ConPools Acceptor Worker) (acceptor : Acceptor)
    (producer : PoolThread Acceptor Worker) (task : AcceptorTask Worker) :
    ConPools Acceptor Worker :=
  { s with acceptorQueue :=
    Function.update s.acceptorQueue acceptor (s.acceptorQueue acceptor ++ [(producer, task)]) }

/-- The task of `NewConnection`: the connection callback acquires a connection, and its
insertion is queued. -/
def newConnection (s : ConPools Acceptor Worker) (build : Build) (worker : Worker)
    (acceptor : Acceptor) : Option (ConPools Acceptor Worker) := do
  let (conn, acquired) ← s.acquire build worker
  some (({ acquired with
    destructCallBack := Function.update acquired.destructCallBack conn (some acceptor) }).toAcceptor
      acceptor (.worker worker) (.insert conn))

/-- The delayed `destructCallBack_`, as it is when it runs. -/
def destruct (s : ConPools Acceptor Worker) (worker : Worker) (conn : PooledConnection Worker) :
    Option (ConPools Acceptor Worker) := do
  let acceptor ← s.destructCallBack conn
  some (s.toAcceptor acceptor (.worker worker) (.remove conn))

/-- Run one task of a worker. -/
def workerTask (s : ConPools Acceptor Worker) (build : Build) (worker : Worker) :
    WorkerTask Acceptor Worker → Option (ConPools Acceptor Worker)
  | .newConnection acceptor => s.newConnection build worker acceptor
  | .destruct conn => s.destruct worker conn

/-- Run one task of an acceptor. -/
def acceptorTask (s : ConPools Acceptor Worker) (acceptor : Acceptor) :
    AcceptorTask Worker → ConPools Acceptor Worker
  | .insert conn =>
    { s with connects := Function.update s.connects acceptor (insert conn (s.connects acceptor)) }
  | .remove conn =>
    { s with connects := Function.update s.connects acceptor ((s.connects acceptor).erase conn) }

/-- A connection is in use: acquired and not yet released. -/
def InUse (s : ConPools Acceptor Worker) (conn : PooledConnection Worker) : Prop :=
  s.status conn = .connected ∨ s.status conn = .disConnecting

instance (s : ConPools Acceptor Worker) (conn : PooledConnection Worker) :
    Decidable (s.InUse conn) :=
  inferInstanceAs (Decidable (_ ∨ _))

/-- `TcpConnection::handleClose` with the close callback of the stress server. -/
def handleClose (s : ConPools Acceptor Worker) (build : Build) (conn : PooledConnection Worker) :
    Option (ConPools Acceptor Worker) :=
  if build = .debug ∧ ¬ s.InUse conn then none
  else some (((s.setStatus conn .disConnected).release conn).toWorker conn.pool
    (.worker conn.pool) (.destruct conn))

/-- One step. -/
def step (build : Build) (s : ConPools Acceptor Worker) :
    ConAction Acceptor Worker → Option (ConPools Acceptor Worker)
  | .accept acceptor worker =>
    some (s.toWorker worker (.acceptor acceptor) (.newConnection acceptor))
  | .runWorkerTask worker producer => do
    let (task, rest) ← dequeue producer (s.workerQueue worker)
    ({ s with workerQueue := Function.update s.workerQueue worker rest }).workerTask build worker
      task
  | .runAcceptorTask acceptor producer => do
    let (task, rest) ← dequeue producer (s.acceptorQueue acceptor)
    some (({ s with acceptorQueue := Function.update s.acceptorQueue acceptor rest }).acceptorTask
      acceptor task)
  | .disconnect conn => if s.status conn = .connected then some (s.setStatus conn .disConnecting)
    else none
  | .handleClose conn =>
    if conn.serial < s.made conn.pool then s.handleClose build conn else none

/-! ### Ownership -/

/-- Every connection in use is in the set of its acceptor, or the task that inserts it there is in
the acceptor's queue. -/
def Owned (s : ConPools Acceptor Worker) : Prop :=
  ∀ conn, s.InUse conn → ∃ acceptor, s.destructCallBack conn = some acceptor ∧
    (conn ∈ s.connects acceptor ∨
      ∃ producer, (producer, AcceptorTask.insert conn) ∈ s.acceptorQueue acceptor)

/-- Whether the task a worker runs next acquires a connection. -/
def acquires (s : ConPools Acceptor Worker) (worker : Worker)
    (producer : PoolThread Acceptor Worker) : Bool :=
  match dequeue producer (s.workerQueue worker) with
  | some (.newConnection _, _) => true
  | _ => false

/-- No connection is acquired while a destructor callback for it waits, and only a connection in
use is closed. -/
def Orderly (s : ConPools Acceptor Worker) : ConAction Acceptor Worker → Prop
  | .runWorkerTask worker producer => s.acquires worker producer = true →
    ∀ conn ∈ (s.freeList worker).head?.toList, ∀ entry ∈ s.workerQueue worker,
      entry.2 ≠ .destruct conn
  | .handleClose conn => s.InUse conn
  | _ => True

instance (s : ConPools Acceptor Worker) (action : ConAction Acceptor Worker) :
    Decidable (s.Orderly action) :=
  match action with
  | .runWorkerTask _ _ => inferInstanceAs (Decidable (_ → _))
  | .handleClose conn => inferInstanceAs (Decidable (s.InUse conn))
  | .accept _ _ => isTrue trivial
  | .runAcceptorTask _ _ => isTrue trivial
  | .disconnect _ => isTrue trivial

end ConPools

namespace AcceptorTask

variable {Worker : Type}

/-- The connection a task holds. -/
def conn : AcceptorTask Worker → PooledConnection Worker
  | .insert conn => conn
  | .remove conn => conn

/-- Whether the connection is in the set when the task has run. -/
def present : AcceptorTask Worker → Bool
  | .insert _ => true
  | .remove _ => false

end AcceptorTask

namespace ConPools

variable {Acceptor Worker : Type} [DecidableEq Acceptor] [DecidableEq Worker]

/-- What the queued tasks make of a connection's membership, one after another. -/
def changes (conn : PooledConnection Worker)
    (queue : List (PoolThread Acceptor Worker × AcceptorTask Worker)) : List Bool :=
  (queue.filter fun entry => entry.2.conn = conn).map fun entry => entry.2.present

/-- A connection is in a set when all tasks now queued have run. -/
def Stays (s : ConPools Acceptor Worker) (acceptor : Acceptor) (conn : PooledConnection Worker) :
    Prop :=
  (changes conn (s.acceptorQueue acceptor)).getLastD (decide (conn ∈ s.connects acceptor)) = true

/-- What holds as long as every step is orderly. -/
structure Tidy (s : ConPools Acceptor Worker) : Prop where
  nodup : ∀ worker, (s.freeList worker).Nodup
  pooled : ∀ worker, ∀ conn ∈ s.freeList worker,
    conn.pool = worker ∧ conn.serial < s.made worker ∧ s.status conn = .connecting
  unmade : ∀ conn, s.made conn.pool ≤ conn.serial → s.status conn = .connecting
  waiting : ∀ worker producer conn,
    (producer, WorkerTask.destruct conn) ∈ s.workerQueue worker → conn ∈ s.freeList worker
  sent : ∀ acceptor, ∀ entry ∈ s.acceptorQueue acceptor, entry.1 = .worker entry.2.conn.pool
  stays : ∀ conn, s.InUse conn →
    ∃ acceptor, s.destructCallBack conn = some acceptor ∧ s.Stays acceptor conn

omit [DecidableEq Worker] in
theorem mem_constructed (worker : Worker) (first num : Nat) (conn : PooledConnection Worker) :
    conn ∈ constructed worker first num ↔
      conn.pool = worker ∧ first ≤ conn.serial ∧ conn.serial < first + num := by
  unfold constructed
  rw [List.mem_map]
  constructor
  · rintro ⟨offset, member, rfl⟩
    have := List.mem_range.mp member
    exact ⟨rfl, by simp, by simpa using this⟩
  · rintro ⟨rfl, low, high⟩
    refine ⟨conn.serial - first, List.mem_range.mpr (by omega), ?_⟩
    rw [Nat.add_sub_cancel' low]

omit [DecidableEq Worker] in
theorem nodup_constructed (worker : Worker) (first num : Nat) :
    (constructed worker first num).Nodup := by
  refine List.Nodup.map (fun left right same => ?_) List.nodup_range
  simpa using same

omit [DecidableEq Acceptor] in
theorem initial_tidy (num : Nat) : Tidy (initial num : ConPools Acceptor Worker) where
  nodup worker := nodup_constructed worker 0 num
  pooled worker conn member := by
    obtain ⟨pool, -, made⟩ := (mem_constructed worker 0 num conn).mp member
    rw [Nat.zero_add] at made
    exact ⟨pool, made, rfl⟩
  unmade _ _ := rfl
  waiting worker producer conn queued := by cases queued
  sent acceptor entry queued := by cases queued
  stays conn inUse := by
    rcases inUse with connected | leaving
    · cases connected
    · cases leaving

omit [DecidableEq Acceptor] in
/-- A tidy server owns its connections. -/
theorem Tidy.owned {s : ConPools Acceptor Worker} (tidy : Tidy s) : s.Owned := by
  intro conn inUse
  obtain ⟨acceptor, callback, stays⟩ := tidy.stays conn inUse
  refine ⟨acceptor, callback, ?_⟩
  unfold Stays at stays
  rcases List.eq_nil_or_concat (changes conn (s.acceptorQueue acceptor)) with
    none | ⟨early, last, shape⟩
  · rw [none] at stays
    exact .inl (of_decide_eq_true stays)
  · right
    rw [shape, List.concat_eq_append, List.getLastD_concat] at stays
    have member : last ∈ changes conn (s.acceptorQueue acceptor) := by
      rw [shape]
      simp
    obtain ⟨entry, queued, present⟩ := List.mem_map.mp member
    obtain ⟨inQueue, about⟩ := List.mem_filter.mp queued
    have about : entry.2.conn = conn := of_decide_eq_true about
    obtain ⟨producer, task⟩ := entry
    cases task with
    | insert other =>
      obtain rfl : other = conn := about
      exact ⟨producer, inQueue⟩
    | remove other =>
      rw [stays] at present
      cases present

/-! ### What a step keeps -/

omit [DecidableEq Acceptor] in
theorem changes_append (conn : PooledConnection Worker)
    (queue : List (PoolThread Acceptor Worker × AcceptorTask Worker))
    (producer : PoolThread Acceptor Worker) (task : AcceptorTask Worker) :
    changes conn (queue ++ [(producer, task)]) =
      changes conn queue ++ if task.conn = conn then [task.present] else [] := by
  unfold changes
  rw [List.filter_append, List.map_append]
  by_cases about : task.conn = conn
  · simp [about]
  · simp [about]

/-- A queued task that is about another connection, or inserts this one, does no harm. -/
theorem Stays.toAcceptor {s : ConPools Acceptor Worker} {acceptor : Acceptor}
    {conn : PooledConnection Worker} (stays : s.Stays acceptor conn) (target : Acceptor)
    (producer : PoolThread Acceptor Worker) {task : AcceptorTask Worker}
    (harmless : task.conn = conn → task.present = true) :
    (s.toAcceptor target producer task).Stays acceptor conn := by
  unfold Stays at stays ⊢
  show (changes conn (Function.update s.acceptorQueue target _ acceptor)).getLastD
    (decide (conn ∈ s.connects acceptor)) = true
  by_cases same : acceptor = target
  · subst same
    rw [Function.update_self, changes_append]
    split
    · rename_i about
      rw [List.getLastD_concat, harmless about]
    · rwa [List.append_nil]
  · rwa [Function.update_of_ne same]

/-- The insertion of a connection makes it stay. -/
theorem stays_of_insert (s : ConPools Acceptor Worker) (acceptor : Acceptor)
    (producer : PoolThread Acceptor Worker) (conn : PooledConnection Worker) :
    (s.toAcceptor acceptor producer (.insert conn)).Stays acceptor conn := by
  show (changes conn (Function.update s.acceptorQueue acceptor _ acceptor)).getLastD _ = true
  rw [Function.update_self, changes_append, if_pos (by rfl), List.getLastD_concat]
  rfl

/-- A task of an acceptor does what the queue said. -/
theorem stays_of_acceptorTask {s : ConPools Acceptor Worker} {target acceptor : Acceptor}
    {conn : PooledConnection Worker} {producer : PoolThread Acceptor Worker}
    {task : AcceptorTask Worker}
    {rest : List (PoolThread Acceptor Worker × AcceptorTask Worker)}
    (sent : ∀ entry ∈ s.acceptorQueue target, entry.1 = .worker entry.2.conn.pool)
    (found : dequeue producer (s.acceptorQueue target) = some (task, rest))
    (stays : s.Stays acceptor conn) :
    (({ s with acceptorQueue := Function.update s.acceptorQueue target rest }).acceptorTask target
      task).Stays acceptor conn := by
  unfold Stays at stays ⊢
  have queue : (({ s with
      acceptorQueue := Function.update s.acceptorQueue target rest }).acceptorTask target
      task).acceptorQueue = Function.update s.acceptorQueue target rest := by
    cases task <;> rfl
  have members : (({ s with
      acceptorQueue := Function.update s.acceptorQueue target rest }).acceptorTask target
      task).connects = Function.update s.connects target (if task.present = true then
        insert task.conn (s.connects target) else (s.connects target).erase task.conn) := by
    cases task <;> rfl
  rw [queue, members]
  by_cases same : acceptor = target
  · subst same
    rw [Function.update_self, Function.update_self]
    obtain ⟨before, after, shape, left, others⟩ := dequeue_eq_some _ _ _ _ found
    rw [shape] at stays sent
    rw [left]
    by_cases about : task.conn = conn
    · -- All tasks about the connection come from its own worker, so this is the first of them.
      have noneBefore : before.filter (fun entry => entry.2.conn = conn) = [] := by
        rw [List.filter_eq_nil_iff]
        intro entry member aboutToo
        have same : entry.2.conn = conn := of_decide_eq_true aboutToo
        refine others entry member ?_
        rw [sent entry (by simp [member]), same, ← about]
        exact (sent (producer, task) (by simp)).symm
      unfold changes at stays ⊢
      rw [List.filter_append, noneBefore, List.nil_append] at stays ⊢
      rw [List.filter_cons_of_pos (by simpa using about), List.map_cons,
        List.getLastD_cons] at stays
      have present : decide (conn ∈ if task.present = true then
          insert task.conn (s.connects acceptor)
          else (s.connects acceptor).erase task.conn) = task.present := by
        rw [about]
        cases task.present <;> simp
      rwa [present]
    · unfold changes at stays ⊢
      rw [List.filter_append, List.filter_cons_of_neg (by simpa using about),
        ← List.filter_append] at stays
      have member : (conn ∈ if task.present = true then
          insert task.conn (s.connects acceptor)
          else (s.connects acceptor).erase task.conn) ↔ conn ∈ s.connects acceptor := by
        split
        · simp [Ne.symm about]
        · simp [Ne.symm about]
      simpa only [member] using stays
  · rwa [Function.update_of_ne same, Function.update_of_ne same]

omit [DecidableEq Acceptor] in
/-- Queued tasks that are not destructor callbacks do not matter to the pools. -/
theorem Tidy.of_workerQueue {s : ConPools Acceptor Worker} (tidy : Tidy s)
    (queue : Worker → List (PoolThread Acceptor Worker × WorkerTask Acceptor Worker))
    (fewer : ∀ worker producer conn, (producer, WorkerTask.destruct conn) ∈ queue worker →
      (producer, WorkerTask.destruct conn) ∈ s.workerQueue worker) :
    Tidy { s with workerQueue := queue } where
  nodup := tidy.nodup
  pooled := tidy.pooled
  unmade := tidy.unmade
  waiting worker producer conn queued := tidy.waiting worker producer conn
    (fewer worker producer conn queued)
  sent := tidy.sent
  stays := tidy.stays

omit [DecidableEq Acceptor] in
/-- A pool that constructs more connections. -/
theorem Tidy.expend {s : ConPools Acceptor Worker} (tidy : Tidy s) (worker : Worker) (num : Nat) :
    Tidy (s.expend worker num) where
  nodup other := by
    show (Function.update s.freeList worker _ other).Nodup
    by_cases same : other = worker
    · rw [same, Function.update_self, List.nodup_append]
      refine ⟨tidy.nodup worker, nodup_constructed worker _ num, ?_⟩
      rintro conn old conn' new rfl
      obtain ⟨-, made, -⟩ := tidy.pooled worker conn old
      obtain ⟨-, fresh, -⟩ := (mem_constructed worker _ num conn).mp new
      omega
    · rw [Function.update_of_ne same]
      exact tidy.nodup other
  pooled other conn member := by
    have member : conn ∈ Function.update s.freeList worker _ other := member
    show _ ∧ conn.serial < Function.update s.made worker _ other ∧ s.status conn = .connecting
    by_cases same : other = worker
    · subst same
      rw [Function.update_self] at member ⊢
      rcases List.mem_append.mp member with old | new
      · obtain ⟨pool, made, status⟩ := tidy.pooled other conn old
        exact ⟨pool, by omega, status⟩
      · obtain ⟨pool, fresh, made⟩ := (mem_constructed other _ num conn).mp new
        exact ⟨pool, made, tidy.unmade conn (pool ▸ fresh)⟩
    · rw [Function.update_of_ne same] at member ⊢
      exact tidy.pooled other conn member
  unmade conn fresh := by
    have fresh : Function.update s.made worker _ conn.pool ≤ conn.serial := fresh
    refine tidy.unmade conn (le_trans ?_ fresh)
    by_cases same : conn.pool = worker
    · rw [same, Function.update_self]
      omega
    · rw [Function.update_of_ne same]
  waiting other producer conn queued := by
    have old := tidy.waiting other producer conn queued
    show conn ∈ Function.update s.freeList worker _ other
    by_cases same : other = worker
    · subst same
      rw [Function.update_self]
      exact List.mem_append_left _ old
    · rwa [Function.update_of_ne same]
  sent := tidy.sent
  stays := tidy.stays

/-- The front of a free list comes into use, with its insertion on the way. -/
theorem Tidy.acquire {s : ConPools Acceptor Worker} (tidy : Tidy s) {worker : Worker}
    {acceptor : Acceptor} {conn : PooledConnection Worker}
    {rest : List (PooledConnection Worker)} (shape : s.freeList worker = conn :: rest)
    (clear : ∀ entry ∈ s.workerQueue worker, entry.2 ≠ .destruct conn) :
    Tidy (({ s with
      status := Function.update s.status conn .connected
      freeList := Function.update s.freeList worker rest
      destructCallBack := Function.update s.destructCallBack conn (some acceptor) }).toAcceptor
        acceptor (.worker worker) (.insert conn)) := by
  have nodup := tidy.nodup worker
  rw [shape] at nodup
  obtain ⟨outside, nodup⟩ := List.nodup_cons.mp nodup
  obtain ⟨pool, made, -⟩ := tidy.pooled worker conn (by rw [shape]; exact List.mem_cons_self)
  have remains : ∀ other cell, cell ∈ Function.update s.freeList worker rest other →
      cell ∈ s.freeList other ∧ cell ≠ conn := by
    intro other cell member
    by_cases same : other = worker
    · subst same
      rw [Function.update_self] at member
      refine ⟨by rw [shape]; exact List.mem_cons_of_mem _ member, ?_⟩
      rintro rfl
      exact outside member
    · rw [Function.update_of_ne same] at member
      refine ⟨member, ?_⟩
      rintro rfl
      exact same ((tidy.pooled other cell member).1.symm.trans pool)
  refine ⟨fun other => ?_, fun other cell member => ?_, fun cell fresh => ?_,
    fun other producer cell queued => ?_, fun target entry queued => ?_, fun cell inUse => ?_⟩
  · show (Function.update s.freeList worker rest other).Nodup
    by_cases same : other = worker
    · rw [same, Function.update_self]
      exact nodup
    · rw [Function.update_of_ne same]
      exact tidy.nodup other
  · obtain ⟨old, different⟩ := remains other cell member
    obtain ⟨isPool, isMade, status⟩ := tidy.pooled other cell old
    refine ⟨isPool, isMade, ?_⟩
    show Function.update s.status conn .connected cell = .connecting
    rwa [Function.update_of_ne different]
  · have different : cell ≠ conn := by
      rintro rfl
      have fresh : s.made cell.pool ≤ cell.serial := fresh
      rw [pool] at fresh
      omega
    show Function.update s.status conn .connected cell = .connecting
    rw [Function.update_of_ne different]
    exact tidy.unmade cell fresh
  · have queued : (producer, WorkerTask.destruct cell) ∈ s.workerQueue other := queued
    have old := tidy.waiting other producer cell queued
    show cell ∈ Function.update s.freeList worker rest other
    by_cases same : other = worker
    · subst same
      rw [shape] at old
      rw [Function.update_self]
      rcases List.mem_cons.mp old with rfl | later
      · exact absurd rfl (clear _ queued)
      · exact later
    · rwa [Function.update_of_ne same]
  · have queued : entry ∈ Function.update s.acceptorQueue acceptor _ target := queued
    by_cases same : target = acceptor
    · rw [same, Function.update_self, List.mem_append, List.mem_singleton] at queued
      rcases queued with old | rfl
      · exact tidy.sent acceptor entry old
      · show PoolThread.worker worker = .worker conn.pool
        rw [pool]
    · rw [Function.update_of_ne same] at queued
      exact tidy.sent target entry queued
  · by_cases same : cell = conn
    · subst same
      exact ⟨acceptor, Function.update_self _ _ _, stays_of_insert _ acceptor _ cell⟩
    · have wasInUse : s.InUse cell := by
        have inUse : Function.update s.status conn .connected cell = .connected ∨
          Function.update s.status conn .connected cell = .disConnecting := inUse
        rwa [Function.update_of_ne same] at inUse
      obtain ⟨target, callback, stays⟩ := tidy.stays cell wasInUse
      refine ⟨target, ?_, ?_⟩
      · show Function.update s.destructCallBack conn _ cell = some target
        rwa [Function.update_of_ne same]
      · refine Stays.toAcceptor (s := { s with
          status := Function.update s.status conn .connected
          freeList := Function.update s.freeList worker rest
          destructCallBack := Function.update s.destructCallBack conn (some acceptor) }) stays
          acceptor (.worker worker) fun about => absurd about.symm same

omit [DecidableEq Acceptor] in
/-- What `acquire` hands out: the front of the free list, which may have been filled before. -/
theorem acquire_eq_some {s t : ConPools Acceptor Worker} {build : Build} {worker : Worker}
    {conn : PooledConnection Worker} (acquired : s.acquire build worker = some (conn, t)) :
    ∃ filled rest, (filled = s ∨ s.freeList worker = [] ∧ filled = s.expend worker expendNum) ∧
      filled.freeList worker = conn :: rest ∧
      t = { filled with
        status := Function.update filled.status conn .connected
        freeList := Function.update filled.freeList worker rest } := by
  have pops : ∀ filled : ConPools Acceptor Worker,
      (match filled.freeList worker with
      | [] => none
      | conn :: rest =>
        if build = .debug ∧ filled.status conn ≠ .connecting then none
        else some (conn, { filled.setStatus conn .connected with
          freeList := Function.update filled.freeList worker rest })) = some (conn, t) →
      ∃ rest, filled.freeList worker = conn :: rest ∧ t = { filled with
        status := Function.update filled.status conn .connected
        freeList := Function.update filled.freeList worker rest } := by
    intro filled popped
    split at popped
    · cases popped
    · rename_i front rest shape
      split at popped
      · cases popped
      · obtain ⟨rfl, rfl⟩ := Prod.mk.inj (Option.some.inj popped)
        exact ⟨rest, shape, rfl⟩
  simp only [acquire] at acquired
  by_cases empty : s.freeList worker = []
  · rw [if_pos empty] at acquired
    obtain ⟨rest, shape, result⟩ := pops _ acquired
    exact ⟨_, rest, .inr ⟨empty, rfl⟩, shape, result⟩
  · rw [if_neg empty] at acquired
    obtain ⟨rest, shape, result⟩ := pops _ acquired
    exact ⟨s, rest, .inl rfl, shape, result⟩

/-- The task of a new connection, when no destructor callback waits for the connection that is
handed out. -/
theorem Tidy.newConnection {s t : ConPools Acceptor Worker} {build : Build} {worker : Worker}
    {acceptor : Acceptor} (tidy : Tidy s)
    (clear : ∀ conn ∈ (s.freeList worker).head?.toList, ∀ entry ∈ s.workerQueue worker,
      entry.2 ≠ .destruct conn)
    (ran : s.newConnection build worker acceptor = some t) : Tidy t := by
  obtain ⟨⟨conn, acquired⟩, isAcquired, result⟩ := Option.bind_eq_some_iff.mp ran
  obtain rfl := Option.some.inj result
  obtain ⟨filled, rest, rfl | ⟨empty, rfl⟩, shape, rfl⟩ := acquire_eq_some isAcquired
  · refine tidy.acquire shape fun entry queued => clear conn ?_ entry queued
    rw [shape]
    simp
  · refine (tidy.expend worker expendNum).acquire shape fun entry queued waits => ?_
    obtain ⟨producer, task⟩ := entry
    obtain rfl : task = .destruct conn := waits
    have member := tidy.waiting worker producer conn queued
    rw [empty] at member
    cases member

/-- A delayed destructor callback removes a connection that is not in use. -/
theorem Tidy.destruct {s t : ConPools Acceptor Worker} {worker : Worker}
    {conn : PooledConnection Worker} (tidy : Tidy s) (free : conn ∈ s.freeList worker)
    (ran : s.destruct worker conn = some t) : Tidy t := by
  obtain ⟨acceptor, -, result⟩ := Option.bind_eq_some_iff.mp ran
  obtain rfl := Option.some.inj result
  obtain ⟨pool, -, status⟩ := tidy.pooled worker conn free
  refine ⟨tidy.nodup, tidy.pooled, tidy.unmade, tidy.waiting, fun target entry queued => ?_,
    fun cell inUse => ?_⟩
  · have queued : entry ∈ Function.update s.acceptorQueue acceptor _ target := queued
    by_cases same : target = acceptor
    · rw [same, Function.update_self, List.mem_append, List.mem_singleton] at queued
      rcases queued with old | rfl
      · exact tidy.sent acceptor entry old
      · show PoolThread.worker worker = .worker conn.pool
        rw [pool]
    · rw [Function.update_of_ne same] at queued
      exact tidy.sent target entry queued
  · obtain ⟨target, callback, stays⟩ := tidy.stays cell inUse
    refine ⟨target, callback, stays.toAcceptor acceptor _ fun about => ?_⟩
    obtain rfl : conn = cell := about
    rcases inUse with connected | leaving
    · cases status.symm.trans connected
    · cases status.symm.trans leaving

/-- The tasks of an acceptor. -/
theorem Tidy.acceptorTask {s : ConPools Acceptor Worker} {acceptor : Acceptor}
    {producer : PoolThread Acceptor Worker} {task : AcceptorTask Worker}
    {rest : List (PoolThread Acceptor Worker × AcceptorTask Worker)} (tidy : Tidy s)
    (found : dequeue producer (s.acceptorQueue acceptor) = some (task, rest)) :
    Tidy (({ s with
      acceptorQueue := Function.update s.acceptorQueue acceptor rest }).acceptorTask acceptor
        task) := by
  have sent : ∀ target, ∀ entry ∈ Function.update s.acceptorQueue acceptor rest target,
      entry.1 = .worker entry.2.conn.pool := by
    intro target entry queued
    by_cases same : target = acceptor
    · rw [same, Function.update_self] at queued
      refine tidy.sent acceptor entry ?_
      exact (dequeue_perm _ _ _ _ found).mem_iff.mpr (List.mem_cons_of_mem _ queued)
    · rw [Function.update_of_ne same] at queued
      exact tidy.sent target entry queued
  have stays : ∀ cell, s.InUse cell → ∃ target, s.destructCallBack cell = some target ∧
      (({ s with
        acceptorQueue := Function.update s.acceptorQueue acceptor rest }).acceptorTask acceptor
          task).Stays target cell := by
    intro cell inUse
    obtain ⟨target, callback, stays⟩ := tidy.stays cell inUse
    exact ⟨target, callback, stays_of_acceptorTask (tidy.sent acceptor) found stays⟩
  cases task with
  | insert conn => exact ⟨tidy.nodup, tidy.pooled, tidy.unmade, tidy.waiting, sent, stays⟩
  | remove conn => exact ⟨tidy.nodup, tidy.pooled, tidy.unmade, tidy.waiting, sent, stays⟩

omit [DecidableEq Acceptor] in
/-- A connection in use that is to be disconnected stays in use. -/
theorem Tidy.disconnect {s : ConPools Acceptor Worker} {conn : PooledConnection Worker}
    (tidy : Tidy s) (connected : s.status conn = .connected) :
    Tidy (s.setStatus conn .disConnecting) := by
  have others : ∀ cell, s.status cell = .connecting →
      (s.setStatus conn .disConnecting).status cell = .connecting := by
    intro cell isFree
    have different : cell ≠ conn := by
      rintro rfl
      cases connected.symm.trans isFree
    show Function.update s.status conn .disConnecting cell = .connecting
    rwa [Function.update_of_ne different]
  refine ⟨tidy.nodup, fun worker cell member => ?_, fun cell fresh => ?_, tidy.waiting, tidy.sent,
    fun cell inUse => ?_⟩
  · obtain ⟨pool, made, status⟩ := tidy.pooled worker cell member
    exact ⟨pool, made, others cell status⟩
  · exact others cell (tidy.unmade cell fresh)
  · refine tidy.stays cell ?_
    by_cases same : cell = conn
    · rw [same]
      exact .inl connected
    · have inUse : Function.update s.status conn .disConnecting cell = .connected ∨
        Function.update s.status conn .disConnecting cell = .disConnecting := inUse
      rwa [Function.update_of_ne same] at inUse

omit [DecidableEq Acceptor] in
/-- A connection in use goes back to its pool, with its destructor callback on the way. -/
theorem Tidy.handleClose {s t : ConPools Acceptor Worker} {build : Build}
    {conn : PooledConnection Worker} (tidy : Tidy s) (inUse : s.InUse conn)
    (made : conn.serial < s.made conn.pool) (closed : s.handleClose build conn = some t) :
    Tidy t := by
  unfold ConPools.handleClose at closed
  rw [if_neg fun failed => failed.2 inUse] at closed
  obtain rfl := Option.some.inj closed
  have busy : s.status conn ≠ .connecting := by
    rcases inUse with connected | leaving
    · rw [connected]
      decide
    · rw [leaving]
      decide
  have outside : ∀ worker, conn ∉ s.freeList worker := fun worker member =>
    busy (tidy.pooled worker conn member).2.2
  have status : ∀ cell, (((s.setStatus conn .disConnected).release conn).toWorker conn.pool
      (.worker conn.pool) (.destruct conn)).status cell =
        if cell = conn then .connecting else s.status cell := by
    intro cell
    show Function.update (Function.update s.status conn .disConnected) conn .connecting cell = _
    rw [Function.update_idem, Function.update_apply]
  have free : ∀ worker cell, cell ∈ Function.update s.freeList conn.pool
      (s.freeList conn.pool ++ [conn]) worker ↔
        cell ∈ s.freeList worker ∨ worker = conn.pool ∧ cell = conn := by
    intro worker cell
    by_cases same : worker = conn.pool
    · subst same
      simp
    · simp [same]
  refine ⟨fun worker => ?_, fun worker cell member => ?_, fun cell fresh => ?_,
    fun worker producer cell queued => ?_, tidy.sent, fun cell isUsed => ?_⟩
  · show (Function.update s.freeList conn.pool (s.freeList conn.pool ++ [conn]) worker).Nodup
    by_cases same : worker = conn.pool
    · subst same
      rw [Function.update_self]
      refine List.nodup_append.mpr ⟨tidy.nodup _, List.nodup_singleton conn, ?_⟩
      rintro cell old other isConn rfl
      rw [List.mem_singleton.mp isConn] at old
      exact outside _ old
    · rw [Function.update_of_ne same]
      exact tidy.nodup worker
  · rw [status]
    rcases (free worker cell).mp member with old | ⟨rfl, rfl⟩
    · obtain ⟨pool, isMade, isFree⟩ := tidy.pooled worker cell old
      refine ⟨pool, isMade, ?_⟩
      split
      · rfl
      · exact isFree
    · exact ⟨rfl, made, if_pos rfl⟩
  · rw [status]
    split
    · rfl
    · exact tidy.unmade cell fresh
  · refine (free worker cell).mpr ?_
    have queued : (producer, WorkerTask.destruct cell) ∈ Function.update s.workerQueue conn.pool
      (s.workerQueue conn.pool ++ [(.worker conn.pool, .destruct conn)]) worker := queued
    by_cases same : worker = conn.pool
    · subst same
      rw [Function.update_self, List.mem_append, List.mem_singleton] at queued
      rcases queued with old | new
      · exact .inl (tidy.waiting _ producer cell old)
      · right
        refine ⟨rfl, ?_⟩
        simpa using congrArg Prod.snd new
    · rw [Function.update_of_ne same] at queued
      exact .inl (tidy.waiting worker producer cell queued)
  · refine tidy.stays cell ?_
    have different : cell ≠ conn := by
      rintro rfl
      unfold InUse at isUsed
      rw [status, if_pos rfl] at isUsed
      rcases isUsed with connected | leaving
      · cases connected
      · cases leaving
    unfold InUse at isUsed
    rwa [status, if_neg different] at isUsed

/-! ### Runs -/

/-- Every orderly step leaves a tidy server tidy. -/
theorem step_tidy {build : Build} {s t : ConPools Acceptor Worker}
    {action : ConAction Acceptor Worker} (tidy : Tidy s) (orderly : s.Orderly action)
    (stepped : step build s action = some t) : Tidy t := by
  cases action with
  | accept acceptor worker =>
    obtain rfl := Option.some.inj stepped
    refine tidy.of_workerQueue _ fun other producer conn queued => ?_
    by_cases same : other = worker
    · subst same
      rw [Function.update_self, List.mem_append, List.mem_singleton] at queued
      rcases queued with old | new
      · exact old
      · cases congrArg Prod.snd new
    · rwa [Function.update_of_ne same] at queued
  | runWorkerTask worker producer =>
    obtain ⟨⟨task, rest⟩, found, ran⟩ := Option.bind_eq_some_iff.mp stepped
    have fewer : ∀ other, ∀ entry ∈ Function.update s.workerQueue worker rest other,
        entry ∈ s.workerQueue other := by
      intro other entry queued
      by_cases same : other = worker
      · subst same
        rw [Function.update_self] at queued
        exact (dequeue_perm _ _ _ _ found).mem_iff.mpr (List.mem_cons_of_mem _ queued)
      · rwa [Function.update_of_ne same] at queued
    have shorter := tidy.of_workerQueue (Function.update s.workerQueue worker rest)
      fun other producer conn queued => fewer other _ queued
    cases task with
    | newConnection acceptor =>
      refine shorter.newConnection (fun conn front entry queued => ?_) ran
      refine orderly ?_ conn front entry (fewer worker entry queued)
      rw [acquires, found]
    | destruct conn =>
      refine shorter.destruct (tidy.waiting worker producer conn ?_) ran
      exact (dequeue_perm _ _ _ _ found).mem_iff.mpr List.mem_cons_self
  | runAcceptorTask acceptor producer =>
    obtain ⟨⟨task, rest⟩, found, ran⟩ := Option.bind_eq_some_iff.mp stepped
    obtain rfl := Option.some.inj ran
    exact tidy.acceptorTask found
  | disconnect conn =>
    simp only [step] at stepped
    split at stepped
    · rename_i connected
      obtain rfl := Option.some.inj stepped
      exact tidy.disconnect connected
    · cases stepped
  | handleClose conn =>
    simp only [step] at stepped
    split at stepped
    · rename_i made
      exact tidy.handleClose orderly made stepped
    · cases stepped

/-- In every run in which no connection is acquired while its destructor callback waits, and only
connections in use are closed, every connection in use is owned in every state. -/
theorem owned_of_orderly (build : Build) (num : Nat) (actions : List (ConAction Acceptor Worker))
    (final : ConPools Acceptor Worker)
    (run : Run (StepOf (step build)) (initial num) actions final)
    (orderly : Meets (StepOf (step build)) Orderly (initial num) actions) : final.Owned := by
  refine Tidy.owned ?_
  exact run.invariant (initial_tidy num)
    (fun state action next tidy condition stepped => step_tidy tidy condition stepped) orderly

/-- A connection is used, closed and, its destructor callback behind it, used again: one acceptor,
one worker and a pool of one connection. -/
theorem owned_second_use :
    ∃ final : ConPools Unit Unit, Run (StepOf (step .debug)) (initial 1)
      [.accept () (), .runWorkerTask () (.acceptor ()), .handleClose ⟨(), 0⟩,
        .runWorkerTask () (.worker ()), .accept () (), .runWorkerTask () (.acceptor ()),
        .runAcceptorTask () (.worker ()), .runAcceptorTask () (.worker ())] final ∧
      final.InUse ⟨(), 0⟩ ∧ final.Owned := by
  have done : ((exec (step .debug) (initial 1 : ConPools Unit Unit)
      [.accept () (), .runWorkerTask () (.acceptor ()), .handleClose ⟨(), 0⟩,
        .runWorkerTask () (.worker ()), .accept () (), .runWorkerTask () (.acceptor ()),
        .runAcceptorTask () (.worker ()), .runAcceptorTask () (.worker ())]).map fun s =>
          decide (s.InUse ⟨(), 0⟩)) = some true := by decide
  obtain ⟨final, executed, inUse⟩ := Option.map_eq_some_iff.mp done
  exact ⟨final, run_of_exec executed, of_decide_eq_true inUse,
    owned_of_orderly .debug 1 _ final (run_of_exec executed)
      (meets_of_checks (by decide))⟩

/-- The task of a new connection runs in front of the destructor callback of the last use: the
connection is in use, and neither a set nor a task holds it. -/
theorem not_owned_overtaken_removal :
    ∃ final : ConPools Unit Unit, Run (StepOf (step .debug)) (initial 1)
      [.accept () (), .runWorkerTask () (.acceptor ()), .runAcceptorTask () (.worker ()),
        .accept () (), .handleClose ⟨(), 0⟩, .runWorkerTask () (.acceptor ()),
        .runWorkerTask () (.worker ()), .runAcceptorTask () (.worker ()),
        .runAcceptorTask () (.worker ())] final ∧
      final.InUse ⟨(), 0⟩ ∧ (∀ acceptor, ⟨(), 0⟩ ∉ final.connects acceptor) ∧
      (∀ acceptor, final.acceptorQueue acceptor = []) ∧
      (∀ worker, final.workerQueue worker = []) ∧ ¬ final.Owned := by
  have done : ((exec (step .debug) (initial 1 : ConPools Unit Unit)
      [.accept () (), .runWorkerTask () (.acceptor ()), .runAcceptorTask () (.worker ()),
        .accept () (), .handleClose ⟨(), 0⟩, .runWorkerTask () (.acceptor ()),
        .runWorkerTask () (.worker ()), .runAcceptorTask () (.worker ()),
        .runAcceptorTask () (.worker ())]).map fun s =>
          (decide (s.InUse ⟨(), 0⟩), decide (⟨(), 0⟩ ∈ s.connects ()),
            (s.acceptorQueue ()).isEmpty, (s.workerQueue ()).isEmpty)) =
      some (true, false, true, true) := by decide
  obtain ⟨final, executed, seen⟩ := Option.map_eq_some_iff.mp done
  simp only [Prod.mk.injEq, decide_eq_true_eq, decide_eq_false_iff_not, List.isEmpty_iff] at seen
  obtain ⟨inUse, outside, noTask, noCallback⟩ := seen
  refine ⟨final, run_of_exec executed, inUse, fun _ => outside, fun _ => noTask,
    fun _ => noCallback, fun owned => ?_⟩
  obtain ⟨acceptor, -, member | ⟨producer, queued⟩⟩ := owned ⟨(), 0⟩ inUse
  · exact outside member
  · rw [show final.acceptorQueue acceptor = [] from noTask] at queued
    cases queued

end ConPools

end YYNet
