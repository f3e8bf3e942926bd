/-
This file proves when the registration of a connection for writing says what it
should: that there are bytes in the send buffer.

Whatever leaves bytes in the send buffer turns the registration on, and the write
event that takes the last byte turns it off. But `sendOutput`, and `disconnect`
with bytes waiting, turn it on in a task that runs later and does not look at the
buffer again. By then a write event may have emptied it. The loop is then told at
once and again that the socket is writable, and `handleWrite` with nothing to
send never turns the registration off.

The main theorem says that nothing else goes wrong: along every run, the
registration is right whenever no task of `sendOutput` is queued, if and only if
every such task that leaves none behind it finds bytes in the buffer.
-/

import YYNet.Net.Disconnect

namespace YYNet

open Checked Transition ProducerQueue

/-- The answers of `::send` for `len` bytes. Nothing to send is answered with zero. -/
def SendResult.Answers (len : Nat) : SendResult → Prop
  | count n => n ≤ len
  | again => 0 < len
  | failed => 0 < len

instance (len : Nat) : (result : SendResult) → Decidable (result.Answers len)
  | .count n => inferInstanceAs (Decidable (n ≤ len))
  | .again => inferInstanceAs (Decidable (0 < len))
  | .failed => inferInstanceAs (Decidable (0 < len))

namespace TcpConnection

/-! ### The connection and everything queued for it -/

/-- What is queued on the loop for a connection. The task of `sendOutput` does what the task of
`disconnect` does when bytes are waiting. -/
inductive Queued
  | plain (task : Task)
  | sendOutput
  deriving DecidableEq, Repr

/-- A connection and what is queued for it. -/
structure Outgoing (Producer : Type) where
  connection : TcpConnection
  tasks : List (Producer × Queued)
  deriving DecidableEq, Repr

/-- Calls and events of the output side. To write is to append to `sendBuffer()` and call
`sendOutput`. A thread that is not the loop thread queues; the loop thread runs at once what it
submits. -/
inductive OutgoingAction (Producer : Type)
  | send (producer : Producer) (overload : Overload) (message : List UInt8)
  | sendOnLoop (overload : Overload) (message : List UInt8) (result : SendResult)
  | write (producer : Producer) (data : List UInt8)
  | writeOnLoop (data : List UInt8)
  | disconnect (producer : Producer)
  | disconnectOnLoop
  | runTask (producer : Producer) (result : SendResult)
  | handleWrite (result : SendResult)
  deriving DecidableEq, Repr

/-- The bytes a queued task will send. -/
def Queued.message : Queued → List UInt8
  | .plain task => task.message
  | .sendOutput => []

/-- Run what is queued. -/
def runQueued (build : Build) (s : TcpConnection) (result : SendResult) : Queued → TcpConnection
  | .plain task => s.runTask build result task
  | .sendOutput => s.startWriting build

namespace Outgoing

variable {Producer : Type}

/-- Go on with the connection unless the process has ended. -/
def survives (s : Outgoing Producer) (connection : TcpConnection) : Option (Outgoing Producer) :=
  if connection.fault = none then some { s with connection := connection } else none

def step [DecidableEq Producer] (build : Build) (s : Outgoing Producer) :
    OutgoingAction Producer → Option (Outgoing Producer)
  | .send producer overload message =>
    if s.connection.accepts overload then
      some { s with tasks := s.tasks ++ [(producer, .plain (.sendInLoop message))] }
    else some s
  | .sendOnLoop overload message result =>
    if s.connection.accepts overload then
      if result.Answers message.length then
        s.survives (s.connection.sendInLoop build message result)
      else none
    else some s
  | .write producer data =>
    survives { s with tasks := s.tasks ++ [(producer, .sendOutput)] }
      (s.connection.appendSend build data)
  | .writeOnLoop data =>
    s.survives ((s.connection.appendSend build data).andThen (startWriting build))
  | .disconnect producer =>
    some { s with tasks := s.tasks ++ [(producer, .plain s.connection.disconnectTask)] }
  | .disconnectOnLoop =>
    s.survives (s.connection.runTask build (.count 0) s.connection.disconnectTask)
  | .runTask producer result =>
    match dequeue producer s.tasks with
    | some (task, rest) =>
      if result.Answers task.message.length then
        survives { s with tasks := rest } (s.connection.runQueued build result task)
      else none
    | none => none
  | .handleWrite result =>
    if result.Answers s.connection.sendBuffer.readableSize then
      s.survives (s.connection.handleWrite build result)
    else none

/-- No task of `sendOutput` is among the tasks. -/
def NoOutput (tasks : List (Producer × Queued)) : Prop := ∀ entry ∈ tasks, entry.2 ≠ .sendOutput

instance (tasks : List (Producer × Queued)) : Decidable (NoOutput tasks) :=
  inferInstanceAs (Decidable (∀ entry ∈ tasks, entry.2 ≠ .sendOutput))

/-- With no task of `sendOutput` queued, the connection listens for `Write` exactly when there
are bytes in the send buffer. -/
def Tracks (s : Outgoing Producer) : Prop :=
  NoOutput s.tasks → (s.connection.isWriting = true ↔ s.connection.sendBuffer.readable ≠ [])

/-- The tasks that turn writing on whatever is in the buffer. -/
def Blind : Queued → Bool
  | .plain .setWriting => true
  | .sendOutput => true
  | _ => false

/-- A task that turns writing on, and leaves no task of `sendOutput` behind, finds bytes in the
send buffer. -/
def Useful [DecidableEq Producer] (s : Outgoing Producer) : OutgoingAction Producer → Prop
  | .runTask producer _ => ∀ found ∈ dequeue producer s.tasks,
      Blind found.1 = true → NoOutput found.2 → s.connection.sendBuffer.readable ≠ []
  | .writeOnLoop data => NoOutput s.tasks → s.connection.sendBuffer.readable ++ data ≠ []
  | _ => True

instance [DecidableEq Producer] (s : Outgoing Producer) :
    (action : OutgoingAction Producer) → Decidable (Useful s action)
  | .runTask producer _ => inferInstanceAs (Decidable (∀ found ∈ dequeue producer s.tasks,
      Blind found.1 = true → NoOutput found.2 → s.connection.sendBuffer.readable ≠ []))
  | .writeOnLoop data => inferInstanceAs (Decidable (NoOutput s.tasks →
      s.connection.sendBuffer.readable ++ data ≠ []))
  | .send .. => .isTrue trivial
  | .sendOnLoop .. => .isTrue trivial
  | .write .. => .isTrue trivial
  | .disconnect .. => .isTrue trivial
  | .disconnectOnLoop => .isTrue trivial
  | .handleWrite .. => .isTrue trivial

end Outgoing

/-! ### The registration behind each member function -/

section

variable (build : Build) (s : TcpConnection)

@[simp] theorem update_isWriting : (s.update build).isWriting = s.isWriting := by
  unfold update
  split <;> rfl

@[simp] theorem startWriting_isWriting : (s.startWriting build).isWriting = true := by
  unfold startWriting
  split
  · assumption
  · rw [setWriting, update_isWriting]

@[simp] theorem stopWriting_isWriting : (s.stopWriting build).isWriting = false := by
  unfold stopWriting
  split
  · rw [cancelWriting, update_isWriting]
  · exact Bool.eq_false_of_not_eq_true ‹_›

@[simp] theorem withSendBuffer_isWriting (outcome : Except Fault TcpBuffer) :
    (s.withSendBuffer outcome).isWriting = s.isWriting := by
  cases outcome <;> rfl

/-- What `sendInLoop` keeps of a message. After an error nothing is kept. -/
def kept (message : List UInt8) : SendResult → List UInt8
  | .count n => message.drop n
  | .again => message
  | .failed => []

theorem sendInLoop_output (valid : s.sendBuffer.Valid) (message : List UInt8)
    (result : SendResult) (answers : result.Answers message.length)
    (alive : (s.sendInLoop build message result).fault = none) :
    Output s (s.sendInLoop build message result) [.send (message.take result.taken)]
      (s.sendBuffer.readable ++ kept message result) := by
  cases result with
  | count n => exact sendInLoop_spec build s valid message (.count n) answers alive
  | again => exact sendInLoop_spec build s valid message .again trivial alive
  | failed =>
    exact ⟨valid, rfl, wire_record_send s _, (List.append_nil _).symm⟩

/-- `sendInLoop` turns writing on exactly when it keeps something. -/
theorem sendInLoop_isWriting (message : List UInt8) (result : SendResult)
    (answers : result.Answers message.length)
    (alive : (s.sendInLoop build message result).fault = none) :
    (s.sendInLoop build message result).isWriting = true ↔
      s.isWriting = true ∨ kept message result ≠ [] := by
  have turned : ∀ rest, rest ≠ [] →
      (((s.record (.send (message.take result.taken))).appendSend build rest).andThen
        (startWriting build)).fault = none →
      ((((s.record (.send (message.take result.taken))).appendSend build rest).andThen
        (startWriting build)).isWriting = true ↔ s.isWriting = true ∨ rest ≠ []) := by
    intro rest some alive
    rw [(alive_of_andThen _ _ alive).2, startWriting_isWriting]
    exact ⟨fun _ => .inr some, fun _ => rfl⟩
  cases result with
  | count n =>
    simp only [sendInLoop] at alive ⊢
    by_cases short : n < message.length
    · rw [if_pos short] at alive ⊢
      refine turned (message.drop n) (fun none => ?_) alive
      have := List.drop_eq_nil_iff.mp none
      omega
    · have none : kept message (.count n) = [] := List.drop_eq_nil_of_le (by omega)
      rw [if_neg short, none]
      simp [record]
  | again => exact turned message (List.length_pos_iff.mp answers) alive
  | failed => simp [sendInLoop, handleError, kept, record]

theorem handleWrite_output (valid : s.sendBuffer.Valid) (result : SendResult)
    (answers : result.Answers s.sendBuffer.readableSize)
    (alive : (s.handleWrite build result).fault = none) :
    Output s (s.handleWrite build result) (s.writeCalls result)
      (s.sendBuffer.readable.drop result.taken) := by
  cases result with
  | count n => exact handleWrite_spec build s valid (.count n) answers alive
  | again => exact handleWrite_spec build s valid .again trivial alive
  | failed =>
    have same : s.writeCalls .failed = [.send (s.sendBuffer.readable.take 0)] := by
      simp [writeCalls, SendResult.taken]
    rw [same]
    exact ⟨valid, rfl, wire_record_send s _, rfl⟩

/-- A write event turns writing off exactly when it takes the last byte. -/
theorem handleWrite_isWriting (result : SendResult)
    (alive : (s.handleWrite build result).fault = none) :
    (s.handleWrite build result).isWriting = true ↔
      s.isWriting = true ∧ ¬ (0 < result.taken ∧ result.taken = s.sendBuffer.readableSize) := by
  cases result with
  | count n =>
    by_cases positive : 0 < n
    · have shape : s.handleWrite build (.count n) =
          (settled build s n).andThen (consumeSend build n) := by
        simp only [handleWrite, positive, if_true, settled, SendResult.taken]
      rw [shape] at alive ⊢
      rw [(alive_of_andThen _ _ alive).2, consumeSend, withSendBuffer_isWriting]
      simp only [settled, SendResult.taken, positive, true_and]
      by_cases all : n = s.sendBuffer.readableSize
      · simp [all]
      · simp [all, record]
    · simp only [handleWrite, if_neg positive]
      simp [handleError, record, SendResult.taken, positive]
  | again => simp [handleWrite, handleError, record, SendResult.taken]
  | failed => simp [handleWrite, handleError, record, SendResult.taken]

end

namespace Outgoing

variable {Producer : Type}

/-! ### One step -/

theorem survives_eq_some {s t : Outgoing Producer} {connection : TcpConnection}
    (alive : s.survives connection = some t) :
    connection.fault = none ∧ t = { s with connection := connection } := by
  unfold survives at alive
  split at alive
  · exact ⟨‹_›, (Option.some.inj alive).symm⟩
  · cases alive

/-- What one step does that leaves the process running. -/
inductive Moved [DecidableEq Producer] (build : Build) (s : Outgoing Producer) :
    OutgoingAction Producer → Outgoing Producer → Prop
  | send (producer : Producer) (overload : Overload) (message : List UInt8)
      (accepted : s.connection.accepts overload = true) :
      Moved build s (.send producer overload message)
        { s with tasks := s.tasks ++ [(producer, .plain (.sendInLoop message))] }
  | refused (producer : Producer) (overload : Overload) (message : List UInt8)
      (refused : ¬ s.connection.accepts overload = true) :
      Moved build s (.send producer overload message) s
  | sendOnLoop (overload : Overload) (message : List UInt8) (result : SendResult)
      (accepted : s.connection.accepts overload = true) (answers : result.Answers message.length)
      (alive : (s.connection.sendInLoop build message result).fault = none) :
      Moved build s (.sendOnLoop overload message result)
        { s with connection := s.connection.sendInLoop build message result }
  | refusedOnLoop (overload : Overload) (message : List UInt8) (result : SendResult)
      (refused : ¬ s.connection.accepts overload = true) :
      Moved build s (.sendOnLoop overload message result) s
  | write (producer : Producer) (data : List UInt8)
      (alive : (s.connection.appendSend build data).fault = none) :
      Moved build s (.write producer data)
        ⟨s.connection.appendSend build data, s.tasks ++ [(producer, .sendOutput)]⟩
  | writeOnLoop (data : List UInt8)
      (alive : ((s.connection.appendSend build data).andThen (startWriting build)).fault = none) :
      Moved build s (.writeOnLoop data)
        { s with connection := (s.connection.appendSend build data).andThen (startWriting build) }
  | disconnect (producer : Producer) :
      Moved build s (.disconnect producer)
        { s with tasks := s.tasks ++ [(producer, .plain s.connection.disconnectTask)] }
  | disconnectOnLoop
      (alive : (s.connection.runTask build (.count 0) s.connection.disconnectTask).fault = none) :
      Moved build s .disconnectOnLoop
        { s with
          connection := s.connection.runTask build (.count 0) s.connection.disconnectTask }
  | runTask (producer : Producer) (result : SendResult) (task : Queued)
      (rest : List (Producer × Queued)) (found : dequeue producer s.tasks = some (task, rest))
      (answers : result.Answers task.message.length)
      (alive : (s.connection.runQueued build result task).fault = none) :
      Moved build s (.runTask producer result)
        ⟨s.connection.runQueued build result task, rest⟩
  | handleWrite (result : SendResult)
      (answers : result.Answers s.connection.sendBuffer.readableSize)
      (alive : (s.connection.handleWrite build result).fault = none) :
      Moved build s (.handleWrite result)
        { s with connection := s.connection.handleWrite build result }

theorem moved_of_step [DecidableEq Producer] (build : Build) {s t : Outgoing Producer}
    {action : OutgoingAction Producer} (taken : s.step build action = some t) :
    Moved build s action t := by
  cases action with
  | send producer overload message =>
    simp only [step] at taken
    split at taken
    · rename_i accepted
      obtain rfl := Option.some.inj taken
      exact .send producer overload message accepted
    · rename_i refused
      obtain rfl := Option.some.inj taken
      exact .refused producer overload message refused
  | sendOnLoop overload message result =>
    simp only [step] at taken
    split at taken
    · rename_i accepted
      split at taken
      · rename_i answers
        obtain ⟨alive, rfl⟩ := survives_eq_some taken
        exact .sendOnLoop overload message result accepted answers alive
      · cases taken
    · rename_i refused
      obtain rfl := Option.some.inj taken
      exact .refusedOnLoop overload message result refused
  | write producer data =>
    obtain ⟨alive, rfl⟩ := survives_eq_some taken
    exact .write producer data alive
  | writeOnLoop data =>
    obtain ⟨alive, rfl⟩ := survives_eq_some taken
    exact .writeOnLoop data alive
  | disconnect producer =>
    obtain rfl := Option.some.inj taken
    exact .disconnect producer
  | disconnectOnLoop =>
    obtain ⟨alive, rfl⟩ := survives_eq_some taken
    exact .disconnectOnLoop alive
  | runTask producer result =>
    simp only [step] at taken
    split at taken
    · rename_i task rest found
      split at taken
      · rename_i answers
        obtain ⟨alive, rfl⟩ := survives_eq_some taken
        exact .runTask producer result task rest found answers alive
      · cases taken
    · cases taken
  | handleWrite result =>
    simp only [step] at taken
    split at taken
    · rename_i answers
      obtain ⟨alive, rfl⟩ := survives_eq_some taken
      exact .handleWrite result answers alive
    · cases taken

theorem noOutput_append (tasks : List (Producer × Queued)) (producer : Producer) (task : Task) :
    NoOutput (tasks ++ [(producer, .plain task)]) ↔ NoOutput tasks := by
  simp [NoOutput, or_imp, forall_and]

theorem noOutput_dequeue [DecidableEq Producer] {producer : Producer}
    {tasks rest : List (Producer × Queued)} {task : Queued}
    (found : dequeue producer tasks = some (task, rest)) :
    NoOutput tasks ↔ task ≠ .sendOutput ∧ NoOutput rest := by
  have same := dequeue_perm producer tasks rest task found
  constructor
  · intro none
    exact List.forall_mem_cons.mp fun entry member => none entry (same.mem_iff.mpr member)
  · rintro ⟨other, none⟩ entry member
    rcases List.mem_cons.mp (same.mem_iff.mp member) with rfl | later
    · exact other
    · exact none entry later

/-- A step that turns writing on is right exactly when there are bytes. -/
theorem tracks_on {t : Outgoing Producer} (writing : t.connection.isWriting = true) :
    Tracks t ↔ (NoOutput t.tasks → t.connection.sendBuffer.readable ≠ []) := by
  unfold Tracks
  simp [writing]

/-- A step that leaves the queue without a task of `sendOutput` only where there was none, and
that is right where there was none, is right. -/
theorem tracks_kept {s t : Outgoing Producer} (tracks : Tracks s)
    (before : NoOutput t.tasks → NoOutput s.tasks)
    (right : (s.connection.isWriting = true ↔ s.connection.sendBuffer.readable ≠ []) →
      (t.connection.isWriting = true ↔ t.connection.sendBuffer.readable ≠ [])) : Tracks t :=
  fun none => right (tracks (before none))

section

variable (build : Build) {s t : TcpConnection}

/-- `sendInLoop` keeps the registration right. -/
theorem sendInLoop_tracks (valid : s.sendBuffer.Valid) {message : List UInt8}
    {result : SendResult} (answers : result.Answers message.length)
    (alive : (s.sendInLoop build message result).fault = none)
    (right : s.isWriting = true ↔ s.sendBuffer.readable ≠ []) :
    (s.sendInLoop build message result).isWriting = true ↔
      (s.sendInLoop build message result).sendBuffer.readable ≠ [] := by
  rw [sendInLoop_isWriting build s message result answers alive,
    (sendInLoop_output build s valid message result answers alive).readable, right]
  simp [imp_iff_not_or]

/-- `disconnectInLoop` keeps the registration right. -/
theorem disconnectInLoop_tracks (valid : s.sendBuffer.Valid)
    (right : s.isWriting = true ↔ s.sendBuffer.readable ≠ []) :
    (s.disconnectInLoop build).isWriting = true ↔
      (s.disconnectInLoop build).sendBuffer.readable ≠ [] := by
  unfold disconnectInLoop
  split
  · split
    · exact right
    · rename_i some
      have same := (startWriting_sameOutput build { s with connStatus := .disConnecting }).sendBuffer
      rw [startWriting_isWriting, same]
      have : s.sendBuffer.readable ≠ [] := by
        rwa [← List.length_pos_iff, valid.readable_length, Nat.pos_iff_ne_zero]
      exact ⟨fun _ => this, fun _ => rfl⟩
  · exact right

/-- A write event keeps the registration right. -/
theorem handleWrite_tracks (valid : s.sendBuffer.Valid) {result : SendResult}
    (answers : result.Answers s.sendBuffer.readableSize)
    (alive : (s.handleWrite build result).fault = none)
    (right : s.isWriting = true ↔ s.sendBuffer.readable ≠ []) :
    (s.handleWrite build result).isWriting = true ↔
      (s.handleWrite build result).sendBuffer.readable ≠ [] := by
  have most : result.taken ≤ s.sendBuffer.readableSize := by
    cases result with
    | count n => exact answers
    | again => exact Nat.zero_le _
    | failed => exact Nat.zero_le _
  rw [handleWrite_isWriting build s result alive,
    (handleWrite_output build s valid result answers alive).readable, right,
    ← List.length_pos_iff, ← List.length_pos_iff, List.length_drop, valid.readable_length]
  omega

theorem disconnectInLoop_sendBuffer : (s.disconnectInLoop build).sendBuffer = s.sendBuffer := by
  unfold disconnectInLoop
  split
  · split
    · rfl
    · exact (startWriting_sameOutput build { s with connStatus := .disConnecting }).sendBuffer
  · rfl

end

/-- One step: the send buffer stays valid, and the registration stays right exactly when a task
that turns writing on was useful. -/
theorem step_tracks_iff [DecidableEq Producer] (build : Build) {s t : Outgoing Producer}
    {action : OutgoingAction Producer} (valid : s.connection.sendBuffer.Valid) (tracks : Tracks s)
    (taken : s.step build action = some t) :
    t.connection.sendBuffer.Valid ∧ (Tracks t ↔ Useful s action) := by
  cases moved_of_step build taken with
  | send producer overload message accepted =>
    exact ⟨valid, iff_of_true (tracks_kept tracks (noOutput_append ..).mp id) trivial⟩
  | refused | refusedOnLoop => exact ⟨valid, iff_of_true tracks trivial⟩
  | sendOnLoop overload message result accepted answers alive =>
    exact ⟨(sendInLoop_output build _ valid message result answers alive).valid,
      iff_of_true (tracks_kept tracks id (sendInLoop_tracks build valid answers alive)) trivial⟩
  | write producer data alive =>
    refine ⟨(appendSend_spec build _ valid data alive).valid, iff_of_true (fun none => ?_) trivial⟩
    exact absurd rfl (none (producer, .sendOutput) (by simp))
  | writeOnLoop data alive =>
    obtain ⟨stored, next⟩ := alive_of_andThen _ _ alive
    have output := (appendSend_spec build _ valid data stored).of_sameOutput
      (startWriting_sameOutput build _)
    rw [next]
    refine ⟨output.valid, (tracks_on (startWriting_isWriting build _)).trans ?_⟩
    show (NoOutput s.tasks → _) ↔ _
    rw [output.readable]
    rfl
  | disconnect producer =>
    exact ⟨valid, iff_of_true (tracks_kept tracks (noOutput_append ..).mp id) trivial⟩
  | disconnectOnLoop alive =>
    unfold disconnectTask
    split
    · refine ⟨?_, iff_of_true (tracks_kept tracks id (disconnectInLoop_tracks build valid)) trivial⟩
      show (s.connection.disconnectInLoop build).sendBuffer.Valid
      rw [disconnectInLoop_sendBuffer]
      exact valid
    · rename_i some
      have same := (startWriting_sameOutput build s.connection).sendBuffer
      refine ⟨by show (s.connection.startWriting build).sendBuffer.Valid; rwa [same],
        iff_of_true ((tracks_on (startWriting_isWriting build _)).mpr fun _ => ?_) trivial⟩
      show (s.connection.startWriting build).sendBuffer.readable ≠ []
      rw [same, ← List.length_pos_iff, valid.readable_length]
      omega
  | runTask producer result task rest found answers alive =>
    have before := noOutput_dequeue found
    have blind : Blind task = true → runQueued build s.connection result task =
        s.connection.startWriting build := by
      intro isBlind
      cases task with
      | plain task => cases task <;> first | rfl | cases isBlind
      | sendOutput => rfl
    by_cases isBlind : Blind task = true
    · have same := (startWriting_sameOutput build s.connection).sendBuffer
      rw [blind isBlind]
      refine ⟨by show (s.connection.startWriting build).sendBuffer.Valid; rwa [same],
        (tracks_on (startWriting_isWriting build _)).trans ?_⟩
      show (NoOutput rest → (s.connection.startWriting build).sendBuffer.readable ≠ []) ↔ _
      rw [same]
      constructor
      · intro useful other isFound _ none
        obtain rfl := Option.some.inj (found.symm.trans isFound)
        exact useful none
      · intro useful none
        exact useful (task, rest) found isBlind none
    · have useful : Useful s (.runTask producer result) := by
        intro other isFound otherBlind
        obtain rfl := Option.some.inj (found.symm.trans isFound)
        exact absurd otherBlind isBlind
      cases task with
      | sendOutput => exact absurd rfl isBlind
      | plain task =>
        have earlier : NoOutput rest → NoOutput s.tasks := fun none =>
          before.mpr ⟨by rintro ⟨⟩, none⟩
        cases task with
        | setWriting => exact absurd rfl isBlind
        | sendInLoop message =>
          exact ⟨(sendInLoop_output build _ valid message result answers alive).valid,
            iff_of_true (tracks_kept tracks earlier
              (sendInLoop_tracks build valid answers alive)) useful⟩
        | disconnectInLoop =>
          refine ⟨?_, iff_of_true (tracks_kept tracks earlier
            (disconnectInLoop_tracks build valid)) useful⟩
          show (s.connection.disconnectInLoop build).sendBuffer.Valid
          rw [disconnectInLoop_sendBuffer]
          exact valid
  | handleWrite result answers alive =>
    exact ⟨(handleWrite_output build _ valid result answers alive).valid,
      iff_of_true (tracks_kept tracks id (handleWrite_tracks build valid answers alive)) trivial⟩

/-! ### The main theorem -/

/-- The registration is right, and the send buffer valid. -/
def Right (s : Outgoing Producer) : Prop := s.connection.sendBuffer.Valid ∧ Tracks s

/-- A new connection, and nothing queued for it. -/
def accepted (recvBuffer sendBuffer : TcpBuffer) (isET : Bool) : Outgoing Producer where
  connection := accept recvBuffer sendBuffer false isET
  tasks := []

/-- For every run from a new connection: in every state, when no task of `sendOutput` is queued,
the connection listens for `Write` exactly when there are bytes in the send buffer, if and only
if every task that turns writing on and leaves no task of `sendOutput` behind found bytes there. -/
theorem tracks_iff_useful [DecidableEq Producer] (build : Build) (recvBuffer sendBuffer : TcpBuffer)
    (isET : Bool) (valid : sendBuffer.Valid) (empty : sendBuffer.readable = [])
    (acts : List (OutgoingAction Producer)) (s : Outgoing Producer)
    (run : Run (StepOf (step build)) (accepted recvBuffer sendBuffer isET) acts s) :
    (∀ before, before <+: acts → ∀ state,
      Run (StepOf (step build)) (accepted recvBuffer sendBuffer isET) before state →
        Tracks state) ↔
      Meets (StepOf (step build)) Useful (accepted recvBuffer sendBuffer isET) acts := by
  have initially : Right (accepted recvBuffer sendBuffer isET : Outgoing Producer) :=
    ⟨valid, fun _ => iff_of_false Bool.false_ne_true fun some => some empty⟩
  refine run.always_iff (stepOf_deterministic _) initially (fun state right => right.2) ?_ ?_
  · intro state action next _ right useful taken
    obtain ⟨nextValid, tracks⟩ := step_tracks_iff build right.1 right.2 taken
    exact ⟨nextValid, tracks.mpr useful⟩
  · intro state action next _ right taken tracks
    exact (step_tracks_iff build right.1 right.2 taken).2.mp tracks

/-- The new connection of the examples. -/
def fresh : Outgoing Unit := accepted ⟨List.replicate 16 0, 8, 8, 8⟩ ⟨List.replicate 16 0, 8, 8, 8⟩ false

/-- Two bytes are written, and a write event takes them both. -/
theorem tracks_iff_useful_write : ∃ s : Outgoing Unit,
    Run (StepOf (step .debug)) fresh
      [.write () [1, 2], .runTask () (.count 0), .handleWrite (.count 2)] s ∧
        s.connection.isWriting = false ∧ Tracks s := by
  have done : ((exec (step .debug) fresh [.write () [1, 2], .runTask () (.count 0),
      .handleWrite (.count 2)]).map fun s => s.connection.isWriting) = some false := by
    decide +kernel
  obtain ⟨s, executed, off⟩ := Option.map_eq_some_iff.mp done
  refine ⟨s, run_of_exec executed, off, ?_⟩
  exact (tracks_iff_useful .debug _ _ false idle_valid (by decide) _ s (run_of_exec executed)).mpr
    (meets_of_checks (by decide +kernel)) _ List.prefix_rfl s (run_of_exec executed)

/-- Two writes are on their way when the first task runs; the write event takes the bytes of
both. -/
def lateTask : List (OutgoingAction Unit) :=
  [.write () [1], .write () [2], .runTask () (.count 0), .handleWrite (.count 2),
    .runTask () (.count 0)]

/-- The second task turns writing on for an empty buffer. -/
theorem not_tracks_late : ∃ s : Outgoing Unit,
    Run (StepOf (step .debug)) fresh lateTask s ∧ NoOutput s.tasks ∧
      s.connection.isWriting = true ∧ s.connection.sendBuffer.readable = [] ∧ ¬ Tracks s := by
  have done : ((exec (step .debug) fresh lateTask).map fun s =>
      (s.tasks, s.connection.isWriting, s.connection.sendBuffer.readable)) =
        some ([], true, []) := by decide +kernel
  obtain ⟨s, executed, same⟩ := Option.map_eq_some_iff.mp done
  obtain ⟨none, on, nothing⟩ : s.tasks = [] ∧ s.connection.isWriting = true ∧
      s.connection.sendBuffer.readable = [] := by simpa using same
  have noOutput : NoOutput s.tasks := by
    rw [none]
    exact fun entry member => absurd member List.not_mem_nil
  exact ⟨s, run_of_exec executed, noOutput, on, nothing, fun tracks =>
    (tracks noOutput).mp on nothing⟩

end Outgoing

end TcpConnection

end YYNet
