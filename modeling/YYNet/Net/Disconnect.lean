/-
This file proves when `TcpConnection::disconnect` is graceful.

`disconnect` looks at the send buffer in its caller's thread. With nothing
waiting it queues `disconnectInLoop`, which marks the connection as leaving
and shuts its write side down as soon as the buffer is empty. With bytes
waiting it only queues a task that turns writing on: the connection is never
marked as leaving and the write side is never shut down. Apart from that, the
task of `disconnect` may run before the sends other threads queued earlier,
since the task list keeps the order of each thread only; it then shuts down
before their bytes are out.

The main theorem says that nothing else fails: along every run in which a
`disconnect` that finds the connection still connected finds its send buffer
empty, or another `disconnectInLoop` on its way, and in which
`disconnectInLoop` takes effect with no queued send left, the shutdown comes
after every accepted byte and has come exactly once when the tasks of
`disconnect` have run and the send buffer is empty.
-/

import YYNet.Lib.Transition
import YYNet.Lib.ProducerQueue
import YYNet.Net.TcpConnection

namespace YYNet

open Checked Transition ProducerQueue

namespace TcpConnection

/-! ### The connection and its queued tasks -/

/-- The tasks `send` and `disconnect` queue on the loop. -/
inductive Task
  | sendInLoop (message : List UInt8)
  | disconnectInLoop
  | setWriting
  deriving DecidableEq, Repr

/-- The two overloads of `send`: bytes with a length, and a string that is moved in. -/
inductive Overload
  | bytes
  | string
  deriving DecidableEq, Repr

/-- A connection with the tasks queued for it, the bytes `send` has accepted, and whether
`disconnect` has been called. -/
structure Departure (Producer : Type) where
  connection : TcpConnection
  tasks : List (Producer × Task)
  accepted : List UInt8
  disconnectCalled : Bool
  deriving DecidableEq, Repr

/-- The calls and events around a disconnect. A thread that is not the loop thread queues; the
loop thread runs at once what it submits to its own loop. -/
inductive DepartureAction (Producer : Type)
  | send (producer : Producer) (overload : Overload) (message : List UInt8)
  | sendOnLoop (overload : Overload) (message : List UInt8) (result : SendResult)
  | disconnect (producer : Producer)
  | disconnectOnLoop
  | runTask (producer : Producer) (result : SendResult)
  | handleWrite (result : SendResult)
  deriving DecidableEq, Repr

/-- Only the overload that takes a string looks at the status. -/
def accepts (s : TcpConnection) : Overload → Bool
  | .bytes => true
  | .string => s.connStatus = .connected

/-- The task `disconnect` submits. -/
def disconnectTask (s : TcpConnection) : Task :=
  if s.sendBuffer.readableSize = 0 then .disconnectInLoop else .setWriting

/-- Run a task; `result` is the answer of its `::send`, if it makes one. -/
def runTask (build : Build) (s : TcpConnection) (result : SendResult) : Task → TcpConnection
  | .sendInLoop message => s.sendInLoop build message result
  | .disconnectInLoop => s.disconnectInLoop build
  | .setWriting => s.startWriting build

/-- The bytes a task will send. -/
def Task.message : Task → List UInt8
  | .sendInLoop message => message
  | _ => []

/-- The answer of `::send` says how much it took of the task's message. -/
def Task.Counts (result : SendResult) (task : Task) : Prop := result.Counts task.message.length

instance (result : SendResult) (task : Task) : Decidable (task.Counts result) :=
  inferInstanceAs (Decidable (result.Counts _))

namespace Departure

variable {Producer : Type}

/-- Go on with the connection unless the process has ended. -/
def survives (s : Departure Producer) (connection : TcpConnection) : Option (Departure Producer) :=
  if connection.fault = none then some { s with connection := connection } else none

/-- One step. All sends are made before `disconnect` is called. -/
def step [DecidableEq Producer] (build : Build) (s : Departure Producer) :
    DepartureAction Producer → Option (Departure Producer)
  | .send producer overload message =>
    if s.disconnectCalled then none
    else if s.connection.accepts overload then some { s with
      tasks := s.tasks ++ [(producer, .sendInLoop message)]
      accepted := s.accepted ++ message }
    else some s
  | .sendOnLoop overload message result =>
    if s.disconnectCalled then none
    else if s.connection.accepts overload then
      if result.Counts message.length then
        survives { s with accepted := s.accepted ++ message }
          (s.connection.sendInLoop build message result)
      else none
    else some s
  | .disconnect producer => some { s with
      tasks := s.tasks ++ [(producer, s.connection.disconnectTask)]
      disconnectCalled := true }
  | .disconnectOnLoop =>
    survives { s with disconnectCalled := true }
      (s.connection.runTask build .again s.connection.disconnectTask)
  | .runTask producer result =>
    match dequeue producer s.tasks with
    | some (task, rest) =>
      if task.Counts result then
        survives { s with tasks := rest } (s.connection.runTask build result task)
      else none
    | none => none
  | .handleWrite result =>
    if result.Counts s.connection.sendBuffer.readableSize then
      survives s (s.connection.handleWrite build result)
    else none

/-- The queued tasks, whoever queued them. -/
def queued (s : Departure Producer) : List Task := s.tasks.map Prod.snd

/-- No queued task sends. -/
def NoSend (tasks : List Task) : Prop := ∀ message, Task.sendInLoop message ∉ tasks

/-! ### What is promised, and when -/

/-- Whatever was handed to the kernel before a shutdown is, up to the order, all of `accepted`. -/
def ShutAfter (wire : List Call) (accepted : List UInt8) : Prop :=
  ∀ before, before ++ [.shutdown] <+: wire → (before.flatMap bytes).Perm accepted

/-- The shutdown comes behind every accepted byte, and once `disconnect` has been called, its
tasks have run and the send buffer is empty, it has come exactly once. -/
structure Graceful (s : Departure Producer) : Prop where
  late : ShutAfter s.connection.wire s.accepted
  once : s.disconnectCalled = true → (∀ task ∈ s.queued, ∃ message, task = .sendInLoop message) →
    s.connection.sendBuffer.readable = [] → s.connection.wire.count .shutdown = 1

/-- `disconnect` on a connection that is still connected finds the send buffer empty, or a
`disconnectInLoop` queued before it; and `disconnectInLoop` takes effect with no queued send
left. -/
def Unhurried [DecidableEq Producer] (s : Departure Producer) : DepartureAction Producer → Prop
  | .disconnect _ => s.connection.connStatus = .connected →
      s.connection.sendBuffer.readable = [] ∨ .disconnectInLoop ∈ s.queued
  | .disconnectOnLoop => s.connection.connStatus = .connected →
      if s.connection.sendBuffer.readable = [] then NoSend s.queued
      else .disconnectInLoop ∈ s.queued
  | .runTask producer _ => s.connection.connStatus = .connected →
      ∀ rest, dequeue producer s.tasks = some (.disconnectInLoop, rest) →
        NoSend (rest.map Prod.snd)
  | _ => True

/-! ### Shutdowns on the wire -/

theorem shutAfter_send (wire : List Call) (accepted taken : List UInt8)
    (late : ShutAfter wire accepted) : ShutAfter (wire ++ [.send taken]) accepted := by
  intro before isPrefix
  rcases List.prefix_concat_iff.mp isPrefix with same | earlier
  · obtain ⟨-, absurdity⟩ := List.append_inj' same rfl
    cases absurdity
  · exact late before earlier

/-- A shutdown is late enough when everything accepted has been handed over. -/
theorem shutAfter_shutdown (wire : List Call) (accepted : List UInt8)
    (late : ShutAfter wire accepted) (all : (wire.flatMap bytes).Perm accepted) :
    ShutAfter (wire ++ [.shutdown]) accepted := by
  intro before isPrefix
  rcases List.prefix_concat_iff.mp isPrefix with same | earlier
  · obtain ⟨rfl, -⟩ := List.append_inj' same rfl
    exact all
  · exact late before earlier

theorem shutAfter_of_not_mem (wire : List Call) (accepted : List UInt8)
    (silent : .shutdown ∉ wire) : ShutAfter wire accepted :=
  fun before isPrefix => absurd (isPrefix.subset (by simp)) silent

/-! ### The invariant -/

/-- The bytes of the queued sends. -/
def waiting (s : Departure Producer) : List UInt8 := s.queued.flatMap Task.message

/-- The invariant of an unhurried run. -/
structure Sound (s : Departure Producer) : Prop where
  valid : s.connection.sendBuffer.Valid
  books : s.accepted.Perm
    (s.connection.handed ++ s.connection.sendBuffer.readable ++ s.waiting)
  /-- A connected connection has not been shut down, and will be told to leave once
  `disconnect` has been called. -/
  connected : s.connection.connStatus = .connected →
    .shutdown ∉ s.connection.wire ∧ (s.disconnectCalled = true → .disconnectInLoop ∈ s.queued)
  /-- A connection that is not connected is leaving: nothing more will be sent on it, and it is
  shut down once its buffer is empty. -/
  leaving : s.connection.connStatus ≠ .connected →
    s.connection.connStatus = .disConnecting ∧ s.disconnectCalled = true ∧ NoSend s.queued ∧
      s.connection.wire.count .shutdown = if s.connection.sendBuffer.readable = [] then 1 else 0
  asked : .disconnectInLoop ∈ s.queued → s.disconnectCalled = true
  late : ShutAfter s.connection.wire s.accepted

theorem Sound.graceful (s : Departure Producer) (sound : Sound s) : Graceful s := by
  refine ⟨sound.late, fun called ran empty => ?_⟩
  by_cases isConnected : s.connection.connStatus = .connected
  · obtain ⟨message, absurdity⟩ := ran _ ((sound.connected isConnected).2 called)
    cases absurdity
  · rw [(sound.leaving isConnected).2.2.2, if_pos empty]

theorem waiting_of_noSend (tasks : List Task) (noSend : NoSend tasks) :
    tasks.flatMap Task.message = [] := by
  refine List.flatMap_eq_nil_iff.mpr fun task member => ?_
  cases task with
  | sendInLoop message => exact absurd member (noSend message)
  | disconnectInLoop => rfl
  | setWriting => rfl

/-! ### One step -/

/-- Sending a message on a connected connection, with the answer counted. -/
theorem sound_sent (s t : Departure Producer) (sound : Sound s)
    (isConnected : s.connection.connStatus = .connected) (message : List UInt8) (count : Nat)
    (output : Output s.connection t.connection [.send (message.take count)]
      (s.connection.sendBuffer.readable ++ message.drop count))
    (books : t.accepted.Perm (s.connection.handed ++ s.connection.sendBuffer.readable ++
      (message ++ t.waiting)))
    (promised : t.disconnectCalled = true ↔ .disconnectInLoop ∈ t.queued) : Sound t := by
  have still : t.connection.connStatus = .connected := by rw [output.connStatus, isConnected]
  have silent : .shutdown ∉ t.connection.wire := by
    rw [output.wire]
    simpa using (sound.connected isConnected).1
  refine ⟨output.valid, books.trans ?_, fun _ => ⟨silent, promised.mp⟩,
    fun other => absurd still other, promised.mpr, shutAfter_of_not_mem _ _ silent⟩
  rw [handed_of_output output, output.readable]
  refine List.perm_iff_count.mpr fun byte => ?_
  have whole := congrArg (List.count byte) (List.take_append_drop count message)
  simp only [List.count_append, List.flatMap_cons, List.flatMap_nil, bytes, List.append_nil] at whole ⊢
  omega

/-- `disconnectInLoop` taking effect with no queued send left. -/
theorem sound_left (build : Build) (s t : Departure Producer) (sound : Sound s)
    (isConnected : s.connection.connStatus = .connected)
    (connection : t.connection = s.connection.disconnectInLoop build)
    (accepted : t.accepted = s.accepted) (waiting : t.waiting.Perm s.waiting)
    (called : t.disconnectCalled = true) (noSend : NoSend t.queued) : Sound t := by
  obtain ⟨sameBuffer, status, wire⟩ := disconnectInLoop_connected build s.connection isConnected
  have silent := (sound.connected isConnected).1
  have handed : t.connection.handed = s.connection.handed := by
    rw [TcpConnection.handed, connection, wire, List.flatMap_append, TcpConnection.handed]
    split <;> simp [bytes]
  have books : t.accepted.Perm
      (t.connection.handed ++ t.connection.sendBuffer.readable ++ t.waiting) := by
    rw [accepted, handed, connection, sameBuffer]
    exact sound.books.trans (waiting.symm.append_left _)
  have length := sound.valid.readable_length
  have empty : s.connection.sendBuffer.readableSize = 0 ↔
      s.connection.sendBuffer.readable = [] := by
    rw [← length, List.length_eq_zero_iff]
  simp only [empty] at wire
  have late : ShutAfter t.connection.wire t.accepted := by
    rw [connection, wire]
    split
    · rename_i nothing
      refine shutAfter_shutdown _ _ (shutAfter_of_not_mem _ _ silent) ?_
      have all := books
      rw [connection, sameBuffer, nothing, Departure.waiting, waiting_of_noSend _ noSend,
        List.append_nil, List.append_nil, ← connection, handed] at all
      exact all.symm
    · rw [List.append_nil]
      exact shutAfter_of_not_mem _ _ silent
  refine ⟨by rw [connection, sameBuffer]; exact sound.valid, books,
    fun other => absurd other (by rw [connection, status]; decide),
    fun _ => ⟨by rw [connection, status], called, noSend, ?_⟩, fun _ => called, late⟩
  rw [connection, wire, sameBuffer, List.count_append, List.count_eq_zero_of_not_mem silent]
  split <;> rfl

/-- A task or call that leaves the output side alone. -/
theorem sound_same (s t : Departure Producer) (sound : Sound s)
    (same : SameOutput s.connection t.connection) (accepted : t.accepted = s.accepted)
    (waiting : t.waiting.Perm s.waiting)
    (connected : s.connection.connStatus = .connected →
      t.disconnectCalled = true → .disconnectInLoop ∈ t.queued)
    (leaving : s.connection.connStatus ≠ .connected →
      t.disconnectCalled = true ∧ NoSend t.queued)
    (asked : .disconnectInLoop ∈ t.queued → t.disconnectCalled = true) : Sound t := by
  have handed : t.connection.handed = s.connection.handed := by
    rw [TcpConnection.handed, same.wire, TcpConnection.handed]
  refine ⟨by rw [same.sendBuffer]; exact sound.valid, ?_, fun isConnected => ?_,
    fun notConnected => ?_, asked, by rw [same.wire, accepted]; exact sound.late⟩
  · rw [accepted, handed, same.sendBuffer]
    exact sound.books.trans (waiting.symm.append_left _)
  · rw [same.connStatus] at isConnected
    rw [same.wire]
    exact ⟨(sound.connected isConnected).1, connected isConnected⟩
  · rw [same.connStatus] at notConnected ⊢
    rw [same.wire, same.sendBuffer]
    exact ⟨(sound.leaving notConnected).1, (leaving notConnected).1, (leaving notConnected).2,
      (sound.leaving notConnected).2.2.2⟩

theorem taken_le (result : SendResult) (len : Nat) (counts : result.Counts len) :
    result.taken ≤ len := by
  cases result with
  | count n => exact counts
  | again => exact Nat.zero_le _
  | failed => exact counts.elim

/-- The write event of a connection that is not emptied by it, or is not leaving. -/
theorem sound_written_quietly (s t : Departure Producer) (sound : Sound s) (taken : Nat)
    (output : Output s.connection t.connection [.send (s.connection.sendBuffer.readable.take taken)]
      (s.connection.sendBuffer.readable.drop taken))
    (rest : t = { s with connection := t.connection })
    (quiet : s.connection.connStatus ≠ .connected → (s.connection.sendBuffer.readable.drop taken = [] ↔
      s.connection.sendBuffer.readable = [])) : Sound t := by
  have handed := handed_of_output output
  have silent : .shutdown ∈ t.connection.wire ↔ .shutdown ∈ s.connection.wire := by
    rw [output.wire]
    simp
  rw [rest]
  refine ⟨output.valid, sound.books.trans ?_, fun isConnected => ?_, fun notConnected => ?_,
    sound.asked, ?_⟩
  · show List.Perm _ (t.connection.handed ++ t.connection.sendBuffer.readable ++ s.waiting)
    rw [handed, output.readable]
    simp [bytes, List.take_append_drop]
  · rw [output.connStatus] at isConnected
    rw [silent]
    exact sound.connected isConnected
  · rw [output.connStatus] at notConnected ⊢
    obtain ⟨status, called, noSend, count⟩ := sound.leaving notConnected
    refine ⟨status, called, noSend, ?_⟩
    simp only [output.readable, quiet notConnected]
    rw [← count, output.wire, List.count_append]
    rfl
  · rw [output.wire]
    exact shutAfter_send _ _ _ sound.late

/-- The write event that empties the buffer of a leaving connection. -/
theorem sound_written_out (s t : Departure Producer) (sound : Sound s)
    (notConnected : s.connection.connStatus ≠ .connected)
    (some : s.connection.sendBuffer.readable ≠ [])
    (output : Output s.connection t.connection [.send s.connection.sendBuffer.readable, .shutdown] [])
    (rest : t = { s with connection := t.connection }) : Sound t := by
  have handed := handed_of_output output
  obtain ⟨status, called, noSend, count⟩ := sound.leaving notConnected
  have books : s.accepted.Perm
      (t.connection.handed ++ t.connection.sendBuffer.readable ++ s.waiting) := by
    rw [handed, output.readable]
    simpa [bytes] using sound.books
  rw [rest]
  refine ⟨output.valid, books, fun isConnected => ?_, fun _ => ⟨?_, called, noSend, ?_⟩,
    sound.asked, ?_⟩
  · rw [output.connStatus] at isConnected
    exact absurd isConnected notConnected
  · rw [output.connStatus, status]
  · rw [if_neg some] at count
    rw [if_pos output.readable, output.wire, List.count_append, count]
    rfl
  · have wire : t.connection.wire =
        (s.connection.wire ++ [.send s.connection.sendBuffer.readable]) ++ [.shutdown] := by
      rw [output.wire]
      simp
    rw [wire]
    refine shutAfter_shutdown _ _ (shutAfter_send _ _ _ sound.late) ?_
    have all := books
    rw [output.readable, waiting, waiting_of_noSend _ noSend, List.append_nil, List.append_nil,
      handed] at all
    rw [List.flatMap_append]
    simpa [bytes, TcpConnection.handed] using all.symm

/-- The write event. -/
theorem sound_written (s t : Departure Producer) (sound : Sound s) (result : SendResult)
    (counts : result.Counts s.connection.sendBuffer.readableSize)
    (output : Output s.connection t.connection (s.connection.writeCalls result)
      (s.connection.sendBuffer.readable.drop result.taken))
    (rest : t = { s with connection := t.connection }) : Sound t := by
  have inside := taken_le result _ counts
  have length := sound.valid.readable_length
  rw [writeCalls] at output
  by_cases empties : 0 < result.taken ∧ result.taken = s.connection.sendBuffer.readableSize ∧
      s.connection.connStatus = .disConnecting
  · rw [if_pos empties, List.take_of_length_le (by omega), List.drop_eq_nil_of_le (by omega)]
      at output
    refine sound_written_out s t sound (by rw [empties.2.2]; decide) ?_ output rest
    exact List.ne_nil_of_length_pos (by omega)
  · rw [if_neg empties] at output
    refine sound_written_quietly s t sound result.taken output rest fun notConnected => ?_
    have status := (sound.leaving notConnected).1
    rw [List.drop_eq_nil_iff, ← List.length_eq_zero_iff]
    by_contra differs
    exact empties ⟨by omega, by omega, status⟩

theorem survives_eq_some {s t : Departure Producer} {connection : TcpConnection}
    (alive : survives s connection = some t) :
    connection.fault = none ∧ t = { s with connection := connection } := by
  unfold survives at alive
  split at alive
  · exact ⟨‹_›, (Option.some.inj alive).symm⟩
  · cases alive

/-- Before `disconnect` is called the connection is connected. -/
theorem Sound.isConnected (s : Departure Producer) (sound : Sound s)
    (notCalled : s.disconnectCalled ≠ true) : s.connection.connStatus = .connected := by
  by_contra notConnected
  exact notCalled (sound.leaving notConnected).2.1

/-- Queueing a message. -/
theorem sound_queued (s : Departure Producer) (sound : Sound s)
    (notCalled : s.disconnectCalled ≠ true) (producer : Producer) (message : List UInt8) :
    Sound { s with
      tasks := s.tasks ++ [(producer, .sendInLoop message)]
      accepted := s.accepted ++ message } := by
  have isConnected := sound.isConnected s notCalled
  have silent := (sound.connected isConnected).1
  refine ⟨sound.valid, ?_, fun _ => ⟨silent, fun called => absurd called notCalled⟩,
    fun notConnected => absurd isConnected notConnected, fun member => sound.asked ?_,
    shutAfter_of_not_mem _ _ silent⟩
  rotate_left
  · simpa [queued] using member
  have grown : ({ s with
      tasks := s.tasks ++ [(producer, .sendInLoop message)]
      accepted := s.accepted ++ message } : Departure Producer).waiting = s.waiting ++ message := by
    simp [waiting, queued, Task.message]
  rw [grown, ← List.append_assoc]
  exact sound.books.append_right message

theorem disconnectTask_message (s : TcpConnection) : s.disconnectTask.message = [] := by
  unfold disconnectTask
  split <;> rfl

theorem disconnectTask_ne_send (s : TcpConnection) (message : List UInt8) :
    s.disconnectTask ≠ .sendInLoop message := by
  unfold disconnectTask
  split <;> simp

/-- `disconnect` from another thread. -/
theorem sound_disconnect (s : Departure Producer) (sound : Sound s) (producer : Producer)
    (unhurried : s.connection.connStatus = .connected →
      s.connection.sendBuffer.readable = [] ∨ .disconnectInLoop ∈ s.queued) :
    Sound { s with
      tasks := s.tasks ++ [(producer, s.connection.disconnectTask)]
      disconnectCalled := true } := by
  have grown : (s.tasks ++ [(producer, s.connection.disconnectTask)]).map Prod.snd =
      s.queued ++ [s.connection.disconnectTask] := by
    simp [queued]
  refine sound_same s _ sound (SameOutput.refl _) rfl ?_ (fun isConnected _ => ?_)
    (fun notConnected => ⟨rfl, fun message member => ?_⟩) fun _ => rfl
  · rw [waiting, queued, grown, List.flatMap_append]
    simp [disconnectTask_message, waiting]
  · rw [queued, grown]
    rcases unhurried isConnected with empty | already
    · have size : s.connection.sendBuffer.readableSize = 0 := by
        rw [← sound.valid.readable_length, empty, List.length_nil]
      simp [disconnectTask, size]
    · exact List.mem_append_left _ already
  · rw [queued, grown, List.mem_append, List.mem_singleton] at member
    rcases member with old | new
    · exact (sound.leaving notConnected).2.2.1 message old
    · exact disconnectTask_ne_send _ _ new.symm

/-- `disconnect` on the loop thread. -/
theorem sound_disconnectOnLoop (build : Build) (s : Departure Producer) (sound : Sound s)
    (unhurried : s.connection.connStatus = .connected →
      if s.connection.sendBuffer.readable = [] then NoSend s.queued
      else .disconnectInLoop ∈ s.queued) :
    Sound { s with
      disconnectCalled := true
      connection := s.connection.runTask build .again s.connection.disconnectTask } := by
  have empty : s.connection.sendBuffer.readableSize = 0 ↔
      s.connection.sendBuffer.readable = [] := by
    rw [← sound.valid.readable_length, List.length_eq_zero_iff]
  have leaving (notConnected : s.connection.connStatus ≠ .connected) :=
    (sound.leaving notConnected).2.2.1
  by_cases size : s.connection.sendBuffer.readableSize = 0
  · rw [disconnectTask, if_pos size, TcpConnection.runTask]
    by_cases isConnected : s.connection.connStatus = .connected
    · have noSend := unhurried isConnected
      rw [if_pos (empty.mp size)] at noSend
      exact sound_left build s _ sound isConnected rfl rfl (List.Perm.refl _) rfl noSend
    · have same : s.connection.disconnectInLoop build = s.connection := if_neg isConnected
      rw [same]
      exact sound_same s _ sound (SameOutput.refl _) rfl (List.Perm.refl _)
        (fun other => absurd other isConnected) (fun other => ⟨rfl, leaving other⟩) fun _ => rfl
  · rw [disconnectTask, if_neg size, TcpConnection.runTask]
    refine sound_same s _ sound (startWriting_sameOutput build _) rfl (List.Perm.refl _)
      (fun isConnected _ => ?_) (fun other => ⟨rfl, leaving other⟩) fun _ => rfl
    have already := unhurried isConnected
    rw [if_neg fun nothing => size (empty.mpr nothing)] at already
    exact already

section

variable [DecidableEq Producer]

/-- Running a queued task. -/
theorem sound_runTask (build : Build) (s : Departure Producer) (sound : Sound s)
    (producer : Producer) (result : SendResult) (task : Task) (rest : List (Producer × Task))
    (found : dequeue producer s.tasks = some (task, rest)) (counts : task.Counts result)
    (unhurried : Unhurried s (.runTask producer result))
    (alive : (s.connection.runTask build result task).fault = none) :
    Sound { s with
      tasks := rest
      connection := s.connection.runTask build result task } := by
  have perm : s.queued.Perm (task :: rest.map Prod.snd) := dequeue_items_perm _ _ _ _ found
  have waiting : s.waiting.Perm (task.message ++ (rest.map Prod.snd).flatMap Task.message) :=
    perm.flatMap_right _
  have leaving (notConnected : s.connection.connStatus ≠ .connected) :
      s.disconnectCalled = true ∧ NoSend (rest.map Prod.snd) := by
    obtain ⟨-, called, noSend, -⟩ := sound.leaving notConnected
    exact ⟨called, fun message member => noSend message (perm.mem_iff.mpr (.tail _ member))⟩
  have promised (different : task ≠ .disconnectInLoop)
      (isConnected : s.connection.connStatus = .connected) (called : s.disconnectCalled = true) :
      .disconnectInLoop ∈ rest.map Prod.snd := by
    have member := perm.mem_iff.mp ((sound.connected isConnected).2 called)
    exact (List.mem_cons.mp member).resolve_left fun same => different same.symm
  have asked (member : .disconnectInLoop ∈ rest.map Prod.snd) : s.disconnectCalled = true :=
    sound.asked (perm.mem_iff.mpr (.tail _ member))
  cases task with
  | sendInLoop message =>
    have isConnected : s.connection.connStatus = .connected := by
      by_contra notConnected
      exact (sound.leaving notConnected).2.2.1 message (perm.mem_iff.mpr List.mem_cons_self)
    refine sound_sent s _ sound isConnected message result.taken
      (sendInLoop_spec build _ sound.valid message result counts alive) ?_
      ⟨promised (by simp) isConnected, asked⟩
    exact sound.books.trans (waiting.append_left _)
  | disconnectInLoop =>
    by_cases isConnected : s.connection.connStatus = .connected
    · exact sound_left build s _ sound isConnected rfl rfl waiting.symm
        (sound.asked (perm.mem_iff.mpr List.mem_cons_self)) (unhurried isConnected rest found)
    · have same : s.connection.disconnectInLoop build = s.connection := if_neg isConnected
      rw [TcpConnection.runTask, same]
      exact sound_same s _ sound (SameOutput.refl _) rfl waiting.symm
        (fun other => absurd other isConnected) leaving asked
  | setWriting =>
    exact sound_same s _ sound (startWriting_sameOutput build _) rfl waiting.symm
      (promised (by simp)) leaving asked

/-- An unhurried step keeps the invariant. -/
theorem step_sound (build : Build) (s t : Departure Producer) (action : DepartureAction Producer)
    (sound : Sound s) (unhurried : Unhurried s action) (taken : s.step build action = some t) :
    Sound t := by
  cases action with
  | send producer overload message =>
    simp only [step] at taken
    split at taken
    · cases taken
    · rename_i notCalled
      split at taken
      · obtain rfl := Option.some.inj taken
        exact sound_queued s sound notCalled producer message
      · obtain rfl := Option.some.inj taken
        exact sound
  | sendOnLoop overload message result =>
    simp only [step] at taken
    split at taken
    · cases taken
    · rename_i notCalled
      split at taken
      · split at taken
        · obtain ⟨alive, rfl⟩ := survives_eq_some taken
          refine sound_sent s _ sound (sound.isConnected s notCalled) message result.taken
            (sendInLoop_spec build _ sound.valid message result ‹_› alive) ?_
            ⟨fun called => absurd called notCalled, sound.asked⟩
          exact (sound.books.append_right message).trans (by
            rw [List.append_assoc]
            exact List.perm_append_comm.append_left _)
        · cases taken
      · obtain rfl := Option.some.inj taken
        exact sound
  | disconnect producer =>
    obtain rfl := Option.some.inj taken
    exact sound_disconnect s sound producer unhurried
  | disconnectOnLoop =>
    obtain ⟨alive, rfl⟩ := survives_eq_some taken
    exact sound_disconnectOnLoop build s sound unhurried
  | runTask producer result =>
    simp only [step] at taken
    split at taken
    · rename_i task rest found
      split at taken
      · obtain ⟨alive, rfl⟩ := survives_eq_some taken
        exact sound_runTask build s sound producer result task rest found ‹_› unhurried alive
      · cases taken
    · cases taken
  | handleWrite result =>
    simp only [step] at taken
    split at taken
    · obtain ⟨alive, rfl⟩ := survives_eq_some taken
      exact sound_written s _ sound result ‹_›
        (handleWrite_spec build _ sound.valid result ‹_› alive) rfl
    · cases taken

/-! ### Whole runs -/

/-- A connected connection with any bytes waiting, on which nothing has gone out yet. -/
structure Fresh (start : TcpConnection) : Prop where
  valid : start.sendBuffer.Valid
  connected : start.connStatus = .connected
  silent : start.wire = []

/-- The start of a run: what waits in the send buffer has been accepted for sending. -/
def begin (start : TcpConnection) : Departure Producer where
  connection := start
  tasks := []
  accepted := start.sendBuffer.readable
  disconnectCalled := false

omit [DecidableEq Producer] in
theorem begin_sound (start : TcpConnection) (fresh : Fresh start) :
    Sound (begin start : Departure Producer) := by
  have silent : .shutdown ∉ start.wire := by
    rw [fresh.silent]
    exact List.not_mem_nil
  refine ⟨fresh.valid, ?_, fun _ => ⟨silent, nofun⟩,
    fun other => absurd fresh.connected other, nofun, shutAfter_of_not_mem _ _ silent⟩
  simp [begin, handed, fresh.silent, waiting, queued]

/-- Along every run whose steps are unhurried, disconnecting is graceful in every state. -/
theorem graceful_of_unhurried (build : Build) (start : TcpConnection) (fresh : Fresh start)
    (actions : List (DepartureAction Producer))
    (unhurried : Meets (StepOf (step build)) Unhurried (begin start) actions)
    (before : List (DepartureAction Producer)) (earlier : before <+: actions)
    (s : Departure Producer) (run : Run (StepOf (step build)) (begin start) before s) :
    Graceful s := by
  obtain ⟨after, rfl⟩ := earlier
  have sound : Sound s := run.invariant (begin_sound start fresh)
    (fun state action next => step_sound build state next action) (unhurried.of_append _ _)
  exact sound.graceful s

end

theorem idle_fresh : Fresh idle := ⟨idle_valid, rfl, by decide⟩

/-- The task sends. -/
def Task.sends : Task → Bool
  | .sendInLoop _ => true
  | _ => false

instance noSendDecidable (tasks : List Task) : Decidable (NoSend tasks) :=
  decidable_of_iff (tasks.any Task.sends = false) (by
    rw [List.any_eq_false]
    constructor
    · exact fun silent message member => silent _ member rfl
    · intro silent task member
      cases task with
      | sendInLoop message => exact absurd member (silent message)
      | disconnectInLoop => decide
      | setWriting => decide)

instance unhurriedDecidable (s : Departure Unit) :
    (action : DepartureAction Unit) → Decidable (Unhurried s action)
  | .disconnect _ => inferInstanceAs (Decidable (_ → _ ∨ _))
  | .disconnectOnLoop =>
    inferInstanceAs (Decidable (s.connection.connStatus = .connected →
      if s.connection.sendBuffer.readable = [] then NoSend s.queued
      else .disconnectInLoop ∈ s.queued))
  | .runTask producer _ =>
    decidable_of_iff (s.connection.connStatus = .connected →
        ∀ entry ∈ dequeue producer s.tasks, entry.1 = .disconnectInLoop →
          NoSend (entry.2.map Prod.snd))
      ⟨fun last connected rest found => last connected _ found rfl,
        fun last connected entry found isDisconnect =>
          last connected entry.2 (by rw [found, ← isDisconnect])⟩
  | .send _ _ _ | .sendOnLoop _ _ _ | .handleWrite _ => .isTrue trivial

/-- Another thread sends three bytes and disconnects. The kernel takes one byte when the send
runs, one at the first write event and the last one at the second. -/
def unhurriedSend : List (DepartureAction Unit) :=
  [.send () .bytes [1, 2, 3], .disconnect (), .runTask () (.count 1), .runTask () .again,
    .handleWrite (.count 1), .handleWrite (.count 1)]

/-- The write side is shut down behind the last byte. -/
theorem graceful_of_unhurried_send : ∃ s : Departure Unit,
    Run (StepOf (step .debug)) (begin idle) unhurriedSend s ∧
      s.connection.wire = [.send [1], .send [2], .send [3], .shutdown] ∧ Graceful s := by
  have done : ((exec (step .debug) (begin idle) unhurriedSend).map fun s => s.connection.wire) =
      some [.send [1], .send [2], .send [3], .shutdown] := by
    decide +kernel
  obtain ⟨s, executed, wire⟩ := Option.map_eq_some_iff.mp done
  refine ⟨s, run_of_exec executed, wire, ?_⟩
  exact graceful_of_unhurried .debug idle idle_fresh unhurriedSend
    (meets_of_checks (by decide +kernel)) _ List.prefix_rfl s (run_of_exec executed)

/-- A byte waits in the send buffer when `disconnect` is called, and is sent afterwards. -/
def hurried : List (DepartureAction Unit) :=
  [.sendOnLoop .bytes [1] .again, .disconnectOnLoop, .handleWrite (.count 1)]

/-- The buffer is empty behind the write event, and the write side is never shut down. -/
theorem graceful_fails :
    Fresh idle ∧ ∃ final : Departure Unit,
      Run (StepOf (step .debug)) (begin idle) hurried final ∧ ¬ Graceful final := by
  have done : ((exec (step .debug) (begin idle) hurried).map fun s =>
      (s.disconnectCalled, s.queued, s.connection.sendBuffer.readable,
        s.connection.wire.count .shutdown)) = some (true, [], [], 0) := by
    decide +kernel
  obtain ⟨final, executed, shape⟩ := Option.map_eq_some_iff.mp done
  simp only [Prod.mk.injEq] at shape
  obtain ⟨called, queued, empty, never⟩ := shape
  refine ⟨idle_fresh, final, run_of_exec executed, fun graceful => ?_⟩
  have once := graceful.once called (by rw [queued]; exact nofun) empty
  omega

end Departure

end TcpConnection

end YYNet
