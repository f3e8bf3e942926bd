/-
This file connects the output side of one `TcpConnection` through the kernel to the
input side of another and proves when the services at one end read what the services
at the other end sent.

The input side comes first. A dispatch may append what `readv` answers several times,
the message callback may consume in between and send, and an exception callback writes
urgent bytes behind the write index that nobody may ever see. All of it amounts to a
queue: the bytes that arrived in band, and how many of them were consumed. The queue
is a function of the answers of the kernel and of the calls of the services alone, in
either trigger mode and with any event masks.

Then the bytes that were sent are those that were consumed, those in the receive
buffer, those in flight and those in the send buffer, in this order and in every
state, if and only if each `sendInLoop` finds what the kernel takes interchangeable
with what waits.
-/

import YYNet.Net.ByteQueue
import YYNet.Net.Dispatch
import YYNet.Net.SendOrder

namespace YYNet

open Checked Transition

/-! ### The queue of the input side -/

/-- Bytes arrive in band, or the services consume some. -/
inductive Inflow
  | arrives (data : List UInt8)
  | takes (size : Nat)
  deriving DecidableEq, Repr

namespace Inflow

/-- What happens to the unread bytes. -/
def apply (unread : List UInt8) : Inflow → List UInt8
  | arrives data => unread ++ data
  | takes size => unread.drop size

/-- What happens to the unread bytes in one go. -/
def applyAll (flow : List Inflow) (unread : List UInt8) : List UInt8 :=
  flow.foldl apply unread

theorem applyAll_append (first second : List Inflow) (unread : List UInt8) :
    applyAll (first ++ second) unread = applyAll second (applyAll first unread) :=
  List.foldl_append

/-- The bytes that arrive. -/
def bytes : Inflow → List UInt8
  | arrives data => data
  | takes _ => []

end Inflow

/-- The bytes that have arrived, and how many of them have been consumed. -/
structure Inbox where
  arrived : List UInt8
  taken : Nat
  within : taken ≤ arrived.length
  deriving DecidableEq, Repr

namespace Inbox

/-- Nothing has arrived. -/
def empty : Inbox := ⟨[], 0, le_rfl⟩

/-- Consuming more than there is consumes what there is. -/
def apply (inbox : Inbox) : Inflow → Inbox
  | .arrives data => ⟨inbox.arrived ++ data, inbox.taken, by
      rw [List.length_append]
      exact Nat.le_add_right_of_le inbox.within⟩
  | .takes size => ⟨inbox.arrived, min (inbox.taken + size) inbox.arrived.length,
      Nat.min_le_right _ _⟩

def applyAll (inbox : Inbox) (flow : List Inflow) : Inbox := flow.foldl apply inbox

def consumed (inbox : Inbox) : List UInt8 := inbox.arrived.take inbox.taken

def unread (inbox : Inbox) : List UInt8 := inbox.arrived.drop inbox.taken

theorem unread_apply (inbox : Inbox) (flow : Inflow) :
    (inbox.apply flow).unread = flow.apply inbox.unread := by
  cases flow with
  | arrives data => exact List.drop_append_of_le_length inbox.within
  | takes size =>
    show inbox.arrived.drop (min _ _) = (inbox.arrived.drop _).drop size
    rw [List.drop_drop]
    by_cases inside : inbox.taken + size ≤ inbox.arrived.length
    · rw [Nat.min_eq_left inside]
    · rw [Nat.min_eq_right (by omega), List.drop_length, List.drop_eq_nil_of_le (by omega)]

/-- The unread bytes follow the queue. -/
theorem unread_applyAll (inbox : Inbox) (flow : List Inflow) :
    (inbox.applyAll flow).unread = Inflow.applyAll flow inbox.unread := by
  unfold applyAll Inflow.applyAll
  induction flow generalizing inbox with
  | nil => rfl
  | cons first rest inductionHypothesis =>
    rw [List.foldl_cons, List.foldl_cons, inductionHypothesis, unread_apply]

/-- What arrives is put behind what has arrived. -/
theorem arrived_applyAll (inbox : Inbox) (flow : List Inflow) :
    (inbox.applyAll flow).arrived = inbox.arrived ++ flow.flatMap Inflow.bytes := by
  unfold applyAll
  induction flow generalizing inbox with
  | nil => exact (List.append_nil _).symm
  | cons first rest inductionHypothesis =>
    rw [List.foldl_cons, inductionHypothesis, List.flatMap_cons, ← List.append_assoc]
    cases first with
    | arrives data => rfl
    | takes size => simp [apply, Inflow.bytes]

theorem consumed_append_unread (inbox : Inbox) :
    inbox.consumed ++ inbox.unread = inbox.arrived :=
  List.take_append_drop _ _

end Inbox

namespace TcpBuffer

/-- A scatter read that returned has put what was read behind the readable bytes. -/
theorem appendFormFd_returns (build : Build) {b after : TcpBuffer} (valid : b.Valid)
    {received : List UInt8} {count : Int}
    (returned : b.appendFormFd build (some received) = .ok (count, after)) :
    Appended b after received := by
  have front : (received.take b.writableSize).length ≤ b.writableSize := by
    rw [List.length_take]
    exact Nat.min_le_left _ _
  unfold appendFormFd at returned
  simp only [copyIn_eq_filled valid front, ok_bind, filled_writableSize valid front,
    pure_eq_ok] at returned
  by_cases fits : received.length ≤ b.writableSize
  · have all : received.take b.writableSize = received := List.take_of_length_le fits
    have roomy : Roomy b b received.length := ⟨valid, rfl, rfl, fits⟩
    have moved := moveWriteIndex_eq build (filled_valid valid fits)
      (le_of_le_of_eq fits (filled_writableSize valid fits).symm)
    rw [if_pos fits, all, moved, ok_bind] at returned
    split at returned
    · obtain ⟨-, rfl⟩ := Prod.mk.inj (Except.ok.inj returned)
      exact appended_of_roomy roomy
    · obtain ⟨-, rfl⟩ := Prod.mk.inj (Except.ok.inj returned)
      obtain rfl : received = [] := List.length_eq_zero_iff.mp (by omega)
      refine ⟨filled_valid valid fits, ?_, rfl⟩
      rw [filled_readable valid, List.append_nil]
  · have whole : (received.take b.writableSize).length = b.writableSize := by
      rw [List.length_take]
      omega
    have full := filled_to_end valid whole
    rw [if_pos (by omega), if_neg fits] at returned
    obtain ⟨appended, appends, same⟩ := bind_eq_ok returned
    obtain ⟨-, rfl⟩ := Prod.mk.inj (Except.ok.inj same)
    have spec := append_returns build full.valid appends
    refine ⟨spec.valid, ?_, spec.prepend_eq.trans full.prepend_eq⟩
    rw [spec.readable_eq, full.readable_eq, List.append_assoc, List.take_append_drop]

end TcpBuffer

namespace TcpConnection

/-! ### What a callback does to the input side -/

/-- From one connection to another the process stays alive only if it was, the trigger mode is
the same, and the receive buffer is fed by a flow. -/
structure Feeds (s t : TcpConnection) (flow : List Inflow) : Prop where
  alive : t.fault = none → s.fault = none
  isET : t.isET = s.isET
  valid : t.fault = none → s.recvBuffer.Valid → t.recvBuffer.Valid
  readable : t.fault = none → s.recvBuffer.Valid →
    t.recvBuffer.readable = Inflow.applyAll flow s.recvBuffer.readable

/-- A connection whose receive buffer is left alone. -/
theorem Feeds.of_same {s t : TcpConnection} (alive : t.fault = none → s.fault = none)
    (isET : t.isET = s.isET) (same : t.recvBuffer = s.recvBuffer) : Feeds s t [] where
  alive := alive
  isET := isET
  valid _ valid := by
    rw [same]
    exact valid
  readable _ _ := by
    rw [same]
    rfl

theorem Feeds.refl (s : TcpConnection) : Feeds s s [] := .of_same id rfl rfl

theorem Feeds.trans {s t u : TcpConnection} {first second : List Inflow}
    (before : Feeds s t first) (after : Feeds t u second) : Feeds s u (first ++ second) where
  alive alive := before.alive (after.alive alive)
  isET := after.isET.trans before.isET
  valid alive valid := after.valid alive (before.valid (after.alive alive) valid)
  readable alive valid := by
    have between := after.alive alive
    rw [after.readable alive (before.valid between valid), before.readable between valid,
      Inflow.applyAll_append]

theorem Feeds.unfed {s t u : TcpConnection} (before : Feeds s t []) (after : Feeds t u []) :
    Feeds s u [] :=
  before.trans after

/-- The flow does not matter where the process has ended. -/
theorem Feeds.of_fault {s t : TcpConnection} {flow : List Inflow} (feeds : Feeds s t flow)
    (gone : t.fault ≠ none) (other : List Inflow) : Feeds s t other :=
  ⟨feeds.alive, feeds.isET, fun alive => absurd alive gone, fun alive => absurd alive gone⟩

section

variable (build : Build) (s : TcpConnection)

theorem feeds_record (call : Call) : Feeds s (s.record call) [] := .of_same id rfl rfl

theorem feeds_stop (fault : Fault) : Feeds s (s.stop fault) [] := .of_same nofun rfl rfl

theorem feeds_andThen {flow : List Inflow} (next : TcpConnection → TcpConnection)
    (feeds : Feeds s (next s) flow) : Feeds s (s.andThen next) flow := by
  unfold andThen
  split
  · exact feeds
  · rename_i fault gone
    exact (Feeds.refl s).of_fault (by rw [gone]; nofun) flow

theorem feeds_withSendBuffer (result : Except Fault TcpBuffer) :
    Feeds s (s.withSendBuffer result) [] := by
  cases result with
  | ok sendBuffer => exact .of_same id rfl rfl
  | error fault => exact feeds_stop s fault

theorem feeds_update : Feeds s (s.update build) [] := by
  unfold update
  split
  · exact feeds_record s _
  · exact feeds_stop s _

theorem feeds_startWriting : Feeds s (s.startWriting build) [] := by
  unfold startWriting
  split
  · exact Feeds.refl s
  · have updated := feeds_update build { s with isWriting := true }
    exact (Feeds.of_same id rfl rfl : Feeds s { s with isWriting := true } []).trans updated

theorem feeds_stopWriting : Feeds s (s.stopWriting build) [] := by
  unfold stopWriting
  split
  · have updated := feeds_update build { s with isWriting := false }
    exact (Feeds.of_same id rfl rfl : Feeds s { s with isWriting := false } []).trans updated
  · exact Feeds.refl s

theorem feeds_sendInLoop (message : List UInt8) (result : SendResult) :
    Feeds s (s.sendInLoop build message result) [] := by
  have buffered (rest : List UInt8) : Feeds s (((s.record (.send (message.take
      result.taken))).appendSend build rest).andThen (startWriting build)) [] :=
    ((feeds_record s _).trans (feeds_withSendBuffer _ _)).trans
      (feeds_andThen _ _ (feeds_startWriting build _))
  unfold sendInLoop
  cases result with
  | count n =>
    simp only
    split
    · exact buffered _
    · exact feeds_record s _
  | again => exact buffered _
  | failed => exact feeds_record s _

theorem feeds_handleWrite (result : SendResult) : Feeds s (s.handleWrite build result) [] := by
  have sent := feeds_record s (.send (s.sendBuffer.readable.take result.taken))
  unfold handleWrite
  cases result with
  | count n =>
    simp only
    split
    · refine Feeds.unfed ?_ (feeds_andThen _ _ (feeds_withSendBuffer _ _))
      split
      · refine Feeds.unfed ?_ (feeds_stopWriting build _)
        split
        · exact sent.trans (feeds_record _ _)
        · exact sent
      · exact sent
    · exact sent
  | again => exact sent
  | failed => exact sent

theorem feeds_disconnectInLoop : Feeds s (s.disconnectInLoop build) [] := by
  unfold disconnectInLoop
  split
  · simp only
    have leaving : Feeds s { s with connStatus := .disConnecting } [] := .of_same id rfl rfl
    split
    · exact leaving.trans (feeds_record _ _)
    · exact leaving.trans (feeds_startWriting build _)
  · exact Feeds.refl s

theorem feeds_handleClose : Feeds s (s.handleClose build) [] := by
  unfold handleClose
  simp only
  split
  · exact (feeds_record s _).trans (feeds_stop _ _)
  · split
    · exact (feeds_record s _).trans (feeds_stop _ _)
    · exact .of_same id rfl rfl

end

/-! ### The flow of a callback -/

/-- What a call of the services takes. -/
def ServiceCall.flow : ServiceCall → List Inflow
  | .send _ _ => []
  | .disconnect => []
  | .consume size => [.takes size]

/-- What arrives, and what the message callback takes. -/
def deliverFlow (data : List UInt8) (services : List ServiceCall) : List Inflow :=
  .arrives data :: services.flatMap ServiceCall.flow

/-- The flow of `handleETRead`, from a count of reads on. -/
def etReadFlow (readNum : Nat) : List ReadResult → List Inflow
  | [] => []
  | result :: rest =>
    if readNum < maxReadNum then
      match result with
      | .received [] _ => []
      | .received data services => deliverFlow data services ++ etReadFlow (readNum + 1) rest
      | .interrupted => etReadFlow readNum rest
      | _ => []
    else []

/-- The flow of the read callback. -/
def readFlow (isET : Bool) (results : List ReadResult) : List Inflow :=
  if isET then etReadFlow 0 results
  else
    match results with
    | .received [] _ :: _ => []
    | .received data services :: _ => deliverFlow data services
    | _ => []

/-- The flow of a step. Urgent bytes are not part of it. -/
def DispatchAction.flow (s : TcpConnection) : DispatchAction → List Inflow
  | .dispatch revents answers =>
    if revents.has .read || revents.has .rdHup then readFlow s.isET answers.read else []
  | .runDelayed answers =>
    if s.delayed.head? = some .continueRead then etReadFlow 0 answers else []

section

variable (build : Build) (s : TcpConnection)

/-- Consuming takes bytes from the receive buffer. -/
theorem feeds_consume (size : Nat) :
    Feeds s (s.withRecvBuffer (s.recvBuffer.consume build size)) [.takes size] := by
  cases returned : s.recvBuffer.consume build size with
  | ok recvBuffer =>
    refine ⟨id, rfl, fun _ valid => ?_, fun _ valid => ?_⟩
    · obtain rfl := TcpBuffer.consume_returns build valid returned
      exact TcpBuffer.consumed_valid valid size
    · obtain rfl := TcpBuffer.consume_returns build valid returned
      exact TcpBuffer.consumed_readable valid size
  | error fault => exact (feeds_stop s fault).of_fault nofun _

/-- Reading puts bytes into the receive buffer. -/
theorem feeds_appendFormFd (data : List UInt8) :
    Feeds s (s.withRecvBuffer ((s.recvBuffer.appendFormFd build (some data)).map Prod.snd))
      [.arrives data] := by
  cases returned : s.recvBuffer.appendFormFd build (some data) with
  | ok result =>
    refine ⟨id, rfl, fun _ valid => ?_, fun _ valid => ?_⟩
    · exact (TcpBuffer.appendFormFd_returns build valid returned).valid
    · exact (TcpBuffer.appendFormFd_returns build valid returned).readable_eq
  | error fault => exact (feeds_stop s fault).of_fault nofun _

/-- Urgent bytes land behind the write index. -/
theorem feeds_urgent (data : List UInt8) :
    Feeds s (s.withRecvBuffer (s.recvBuffer.copyIn s.recvBuffer.writeIndex
      (data.take s.recvBuffer.writableSize))) [] := by
  have front : (data.take s.recvBuffer.writableSize).length ≤ s.recvBuffer.writableSize := by
    rw [List.length_take]
    exact Nat.min_le_left _ _
  cases returned : s.recvBuffer.copyIn s.recvBuffer.writeIndex
      (data.take s.recvBuffer.writableSize) with
  | ok recvBuffer =>
    refine ⟨id, rfl, fun _ valid => ?_, fun _ valid => ?_⟩
    · rw [TcpBuffer.copyIn_eq_filled valid front] at returned
      obtain rfl := Except.ok.inj returned
      exact TcpBuffer.filled_valid valid front
    · rw [TcpBuffer.copyIn_eq_filled valid front] at returned
      obtain rfl := Except.ok.inj returned
      exact TcpBuffer.filled_readable valid _
  | error fault => exact (feeds_stop s fault).of_fault nofun _

theorem feeds_serviceCall (call : ServiceCall) : Feeds s (s.serviceCall build call) call.flow := by
  cases call with
  | send message result => exact feeds_sendInLoop build s message result
  | disconnect =>
    simp only [serviceCall]
    split
    · exact feeds_disconnectInLoop build s
    · exact feeds_startWriting build s
  | consume size => exact feeds_consume build s size

theorem feeds_messageCallBack (services : List ServiceCall) :
    Feeds s (s.messageCallBack build services) (services.flatMap ServiceCall.flow) := by
  unfold messageCallBack
  induction services generalizing s with
  | nil => exact Feeds.refl s
  | cons call rest inductionHypothesis =>
    exact (feeds_andThen s _ (feeds_serviceCall build s call)).trans (inductionHypothesis _)

theorem feeds_deliver (data : List UInt8) (services : List ServiceCall) :
    Feeds s (s.deliver build data services) (deliverFlow data services) :=
  (feeds_appendFormFd build s data).trans
    (feeds_andThen _ _ (feeds_messageCallBack build _ services))

/-- The loop of `handleETRead`, by the answers it gets. -/
theorem feeds_readLoop {s t : TcpConnection} (results : List ReadResult) (readNum : Nat)
    (returned : readLoop build readNum s results = some t) :
    Feeds s t (etReadFlow readNum results) := by
  induction results generalizing readNum s with
  | nil =>
    rw [readLoop] at returned
    split at returned
    · cases returned
    · obtain rfl := Option.some.inj returned
      exact .of_same id rfl rfl
  | cons result rest inductionHypothesis =>
    have read := feeds_record s .readv
    by_cases more : readNum < maxReadNum
    · cases result with
      | received data services =>
        cases data with
        | nil =>
          simp only [readLoop, if_pos more, Option.some.injEq] at returned
          simp only [etReadFlow, if_pos more]
          subst returned
          exact read.trans (feeds_handleClose build _)
        | cons first others =>
          simp only [readLoop, if_pos more] at returned
          simp only [etReadFlow, if_pos more]
          have delivered := read.trans (feeds_deliver build (s.record .readv) (first :: others)
            services)
          split at returned
          · exact delivered.trans (inductionHypothesis (readNum + 1) returned)
          · rename_i gone
            obtain rfl := Option.some.inj returned
            exact delivered.of_fault gone _
      | interrupted =>
        simp only [readLoop, if_pos more] at returned
        simp only [etReadFlow, if_pos more]
        exact read.trans (inductionHypothesis readNum returned)
      | again | failed =>
        simp only [readLoop, if_pos more, Option.some.injEq, handleError] at returned
        simp only [etReadFlow, if_pos more]
        subst returned
        exact read
    · rw [readLoop, if_neg more] at returned
      unfold etReadFlow
      rw [if_neg more]
      obtain rfl := Option.some.inj returned
      exact .of_same id rfl rfl

theorem feeds_readCallback {s t : TcpConnection} (results : List ReadResult)
    (returned : s.readCallback build results = some t) :
    Feeds s t (readFlow s.isET results) := by
  unfold readCallback at returned
  unfold readFlow
  split at returned
  · rename_i edge
    rw [if_pos edge]
    exact feeds_readLoop build results 0 returned
  · rename_i level
    rw [if_neg level]
    have read := feeds_record s .readv
    split at returned
    · cases returned
    · rename_i result rest
      obtain rfl := Option.some.inj returned
      cases result with
      | received data services =>
        cases data with
        | nil => exact read.trans (feeds_handleClose build _)
        | cons first others =>
          exact read.trans (feeds_deliver build (s.record .readv) (first :: others) services)
      | again | interrupted | failed => exact read

theorem feeds_handleException {s t : TcpConnection} (results : List RecvResult)
    (returned : s.handleException build results = some t) : Feeds s t [] := by
  induction results generalizing s with
  | nil => cases returned
  | cons result rest inductionHypothesis =>
    have received := feeds_record s .recv
    cases result with
    | received data =>
      cases data with
      | nil =>
        simp only [handleException, Option.some.injEq] at returned
        subst returned
        exact received.trans (feeds_handleClose build _)
      | cons first others =>
        simp only [handleException] at returned
        have stored := received.trans (feeds_urgent (s.record .recv) (first :: others))
        split at returned
        · exact stored.trans (inductionHypothesis returned)
        · obtain rfl := Option.some.inj returned
          exact stored
    | interrupted =>
      simp only [handleException] at returned
      exact received.trans (inductionHypothesis returned)
    | failed =>
      simp only [handleException, handleError, Option.some.injEq] at returned
      subst returned
      exact received

theorem feeds_callback {s t : TcpConnection} {flow : List Inflow} (set : Bool)
    (run : TcpConnection → Option TcpConnection)
    (feeds : ∀ next, run s = some next → Feeds s next flow)
    (returned : callback set run s = some t) : Feeds s t (if set = true then flow else []) := by
  unfold callback at returned
  split at returned
  · rename_i runs
    rw [if_pos runs.1]
    exact feeds t returned
  · rename_i stays
    obtain rfl := Option.some.inj returned
    by_cases isSet : set = true
    · exact (Feeds.refl s).of_fault (fun alive => stays ⟨isSet, alive⟩) _
    · rw [if_neg isSet]
      exact Feeds.refl s

/-- The callbacks of a dispatch, one after another. Only the read callback has a flow. -/
theorem feeds_handlerRevent {s t : TcpConnection} (revents : Event) (answers : Answers)
    (returned : s.handlerRevent build revents answers = some t) :
    Feeds s t ((DispatchAction.dispatch revents answers).flow s) := by
  unfold handlerRevent at returned
  simp only [callback_handleError, Option.bind_eq_bind, Option.bind_some] at returned
  obtain ⟨first, hup, returned⟩ := Option.bind_eq_some_iff.mp returned
  obtain ⟨second, except, returned⟩ := Option.bind_eq_some_iff.mp returned
  obtain ⟨third, read, write⟩ := Option.bind_eq_some_iff.mp returned
  have silent (set : Bool) : (if set = true then ([] : List Inflow) else []) = [] := ite_self []
  have closed := feeds_callback _ _ (fun next same => by
    obtain rfl := Option.some.inj same
    exact feeds_handleClose build s) hup
  have urgent := feeds_callback _ _ (fun next => feeds_handleException build answers.except) except
  have arrived := feeds_callback _ _ (fun next => feeds_readCallback build answers.read) read
  have written := feeds_callback _ _ (fun next same => by
    obtain rfl := Option.some.inj same
    exact feeds_handleWrite build third answers.write) write
  have quiet := closed.trans urgent
  rw [silent] at quiet written
  have whole := (quiet.trans arrived).trans written
  rw [silent, List.append_nil, List.nil_append, quiet.isET] at whole
  exact whole

/-- A step of the loop thread feeds the receive buffer with its flow. -/
theorem feeds_dispatchStep {s t : TcpConnection} (action : DispatchAction)
    (taken : s.dispatchStep build action = some t) : Feeds s t (action.flow s) := by
  cases action with
  | dispatch revents answers =>
    simp only [dispatchStep] at taken
    split at taken
    · exact feeds_handlerRevent build revents answers taken
    · cases taken
  | runDelayed answers =>
    simp only [dispatchStep] at taken
    split at taken
    · split at taken
      · cases taken
      · rename_i rest shape
        simp only [DispatchAction.flow]
        rw [shape, List.head?_cons, if_pos rfl]
        have popped : Feeds s { s with delayed := rest } [] := .of_same id rfl rfl
        exact popped.trans (feeds_readLoop build answers 0 taken)
      · rename_i rest shape
        obtain rfl := Option.some.inj taken
        simp only [DispatchAction.flow]
        rw [shape, List.head?_cons, if_neg (by decide)]
        exact .of_same id rfl rfl
    · cases taken

end

/-! ### The receiving end over whole runs -/

/-- A connection together with what its services should have read. -/
structure Receiver where
  connection : TcpConnection
  inbox : Inbox
  deriving DecidableEq, Repr

namespace Receiver

/-- A step of the loop thread that did not end the process. -/
def step (build : Build) (r : Receiver) (action : DispatchAction) : Option Receiver :=
  match r.connection.dispatchStep build action with
  | some connection =>
    if connection.fault = none then
      some ⟨connection, r.inbox.applyAll (action.flow r.connection)⟩
    else none
  | none => none

/-- The receive buffer holds what has arrived and was not consumed. -/
structure Faithful (r : Receiver) : Prop where
  valid : r.connection.recvBuffer.Valid
  readable : r.connection.recvBuffer.readable = r.inbox.unread

theorem step_eq_some {build : Build} {r t : Receiver} {action : DispatchAction}
    (taken : r.step build action = some t) :
    r.connection.dispatchStep build action = some t.connection ∧ t.connection.fault = none ∧
      t.inbox = r.inbox.applyAll (action.flow r.connection) := by
  unfold step at taken
  split at taken
  · rename_i connection stepped
    split at taken
    · obtain rfl := Option.some.inj taken
      exact ⟨stepped, ‹_›, rfl⟩
    · cases taken
  · cases taken

theorem step_faithful {build : Build} {r t : Receiver} {action : DispatchAction}
    (faithful : r.Faithful) (taken : r.step build action = some t) : t.Faithful := by
  obtain ⟨stepped, alive, inbox⟩ := step_eq_some taken
  have feeds := feeds_dispatchStep build action stepped
  refine ⟨feeds.valid alive faithful.valid, ?_⟩
  rw [feeds.readable alive faithful.valid, faithful.readable, inbox, Inbox.unread_applyAll]

/-- A connection that nothing has been received on. -/
structure Unread (start : TcpConnection) : Prop where
  valid : start.recvBuffer.Valid
  empty : start.recvBuffer.readable = []

theorem faithful_unread {start : TcpConnection} (unread : Unread start) :
    Faithful ⟨start, .empty⟩ :=
  ⟨unread.valid, unread.empty⟩

/-- Along any run of dispatches, with any masks and any answers of the kernel, in either trigger
mode, and of the continuations that the connection queued, the receive buffer holds the bytes that
arrived in band behind those the services consumed: none is lost, repeated or moved, and no urgent
byte is among them. -/
theorem receives_in_order (build : Build) (start : TcpConnection) (unread : Unread start)
    (actions : List DispatchAction) (final : Receiver)
    (run : Run (StepOf (step build)) ⟨start, .empty⟩ actions final) :
    final.inbox.consumed ++ final.connection.recvBuffer.readable = final.inbox.arrived := by
  have faithful : final.Faithful := run.invariant_of_step (faithful_unread unread)
    fun _ _ _ faithful taken => step_faithful faithful taken
  rw [faithful.readable]
  exact Inbox.consumed_append_unread _

/-- An edge-triggered connection with small empty buffers. -/
def idleET : TcpConnection := { idle with isET := true }

theorem idleET_unread : Unread idleET :=
  ⟨⟨by decide, by decide, by decide, TcpBuffer.le_maxSize (by decide)⟩, by decide⟩

/-- An urgent byte and two reads in one dispatch, and a third read in another one. The services
consume behind the first and the third read. -/
def readThrice : List DispatchAction :=
  [.dispatch ⟨0x3#32⟩ ⟨[.received [9], .failed],
    [.received [1, 2] [.consume 1], .interrupted, .received [3] [], .again], .again⟩,
    .dispatch ⟨0x1#32⟩ ⟨[], [.received [4] [.send [7] .again, .consume 2], .again], .again⟩]

theorem receives_in_order_thrice : ∃ final,
    exec (step .debug) ⟨idleET, .empty⟩ readThrice = some final ∧
      final.inbox.arrived = [1, 2, 3, 4] ∧ final.inbox.taken = 3 ∧
      final.inbox.consumed ++ final.connection.recvBuffer.readable = final.inbox.arrived := by
  have done : ((exec (step .debug) ⟨idleET, .empty⟩ readThrice).map fun r =>
      (r.inbox.arrived, r.inbox.taken)) = some ([1, 2, 3, 4], 3) := by
    decide +kernel
  obtain ⟨final, executed, inbox⟩ := Option.map_eq_some_iff.mp done
  obtain ⟨arrived, taken⟩ := Prod.mk.inj inbox
  exact ⟨final, executed, arrived, taken, receives_in_order .debug idleET idleET_unread readThrice
    final (run_of_exec executed)⟩

end Receiver

/-! ### Both ends -/

/-- A connection that sends, the bytes the kernel took and did not deliver yet, and the connection
at the other end. -/
structure BytePipe where
  sender : Sender
  inFlight : List UInt8
  receiver : Receiver
  deriving DecidableEq, Repr

/-- What can happen next: a call at the sending end, or a step at the receiving end. -/
inductive PipeAction
  | sends (action : SendAction)
  | receives (action : DispatchAction)
  deriving DecidableEq, Repr

namespace BytePipe

open Sender (Unused Interchangeable)

open Receiver (Unread)

/-- The kernel takes bytes at the one end and delivers them in order at the other one. -/
def step (build : Build) (s : BytePipe) : PipeAction → Option BytePipe
  | .sends action =>
    (s.sender.step build action).map fun sender => { s with
      sender := sender
      inFlight := s.inFlight ++ sender.connection.handed.drop s.sender.connection.handed.length }
  | .receives action =>
    let data := (action.flow s.receiver.connection).flatMap Inflow.bytes
    if data <+: s.inFlight then
      (s.receiver.step build action).map fun receiver => { s with
        receiver := receiver
        inFlight := s.inFlight.drop data.length }
    else none

/-- The bytes of the messages, in call order, are those the services have consumed, those in the
receive buffer, those in flight and those in the send buffer. -/
def InOrder (s : BytePipe) : Prop :=
  s.sender.messages.flatten = s.receiver.inbox.consumed ++
    s.receiver.connection.recvBuffer.readable ++ s.inFlight ++
      s.sender.connection.sendBuffer.readable

/-- What the kernel takes of a message and what waits before it are interchangeable. -/
def InTurn (s : BytePipe) : PipeAction → Prop
  | .sends action => Interchangeable s.sender action
  | .receives _ => True

instance inTurnDecidable (s : BytePipe) : (action : PipeAction) → Decidable (s.InTurn action)
  | .sends action => inferInstanceAs (Decidable (Interchangeable s.sender action))
  | .receives _ => .isTrue trivial

/-- What holds whether or not the bytes are in order: no byte is lost in flight, and the receive
buffer holds what arrived. -/
structure Conveys (s : BytePipe) : Prop where
  valid : s.sender.connection.sendBuffer.Valid
  faithful : s.receiver.Faithful
  handed : s.sender.connection.handed = s.receiver.inbox.arrived ++ s.inFlight

/-- The order is decided at the sending end. -/
theorem inOrder_iff_sender {s : BytePipe} (conveys : s.Conveys) :
    s.InOrder ↔ s.sender.InOrder := by
  have shape : s.receiver.inbox.consumed ++ s.receiver.connection.recvBuffer.readable ++
      s.inFlight ++ s.sender.connection.sendBuffer.readable = s.sender.stream := by
    rw [conveys.faithful.readable, Inbox.consumed_append_unread, ← conveys.handed]
    rfl
  rw [InOrder, shape]
  exact eq_comm

/-- Calls at the sending end only add to what was handed over. -/
theorem handed_grows {build : Build} {s t : Sender} {action : SendAction}
    (valid : s.connection.sendBuffer.Valid) (taken : s.step build action = some t) :
    s.connection.handed <+: t.connection.handed := by
  rcases Sender.step_cases build s t action valid taken with
    ⟨_, _, _, _, output⟩ | ⟨_, _, _, output⟩
  · rw [handed_of_output output]
    exact List.prefix_append _ _
  · rw [handed_of_output output]
    exact List.prefix_append _ _

/-- A step loses no byte. -/
theorem step_conveys {build : Build} {s t : BytePipe} {action : PipeAction}
    (conveys : s.Conveys) (taken : s.step build action = some t) : t.Conveys := by
  cases action with
  | sends action =>
    obtain ⟨sender, stepped, rfl⟩ := Option.map_eq_some_iff.mp taken
    refine ⟨Sender.step_valid build _ _ action conveys.valid stepped, conveys.faithful, ?_⟩
    obtain ⟨more, grows⟩ := handed_grows conveys.valid stepped
    show sender.connection.handed = _ ++ (_ ++ _)
    rw [← grows, List.drop_left, ← List.append_assoc, ← conveys.handed]
  | receives action =>
    simp only [step] at taken
    split at taken
    · rename_i front
      obtain ⟨receiver, stepped, rfl⟩ := Option.map_eq_some_iff.mp taken
      obtain ⟨-, -, inbox⟩ := Receiver.step_eq_some stepped
      refine ⟨conveys.valid, Receiver.step_faithful conveys.faithful stepped, ?_⟩
      obtain ⟨rest, split⟩ := front
      show s.sender.connection.handed = receiver.inbox.arrived ++ s.inFlight.drop _
      rw [inbox, Inbox.arrived_applyAll, conveys.handed, ← split, List.drop_left,
        List.append_assoc]
    · cases taken

/-- From bytes in order, a step keeps the order exactly when it meets the condition. -/
theorem step_inOrder_iff {build : Build} {s t : BytePipe} {action : PipeAction}
    (conveys : s.Conveys) (inOrder : s.InOrder) (taken : s.step build action = some t) :
    t.InOrder ↔ s.InTurn action := by
  rw [inOrder_iff_sender (step_conveys conveys taken)]
  have before := (inOrder_iff_sender conveys).mp inOrder
  cases action with
  | sends action =>
    obtain ⟨sender, stepped, rfl⟩ := Option.map_eq_some_iff.mp taken
    exact Sender.step_inOrder_iff build s.sender sender action conveys.valid before stepped
  | receives action =>
    simp only [step] at taken
    split at taken
    · obtain ⟨receiver, -, rfl⟩ := Option.map_eq_some_iff.mp taken
      exact iff_of_true before trivial
    · cases taken

/-- The invariant of a run in order. -/
def Orderly (s : BytePipe) : Prop := s.Conveys ∧ s.InOrder

/-- Nothing has been sent yet. -/
def fresh (sender receiver : TcpConnection) : BytePipe :=
  ⟨⟨sender, []⟩, [], ⟨receiver, .empty⟩⟩

theorem fresh_orderly {sender receiver : TcpConnection} (unused : Unused sender)
    (unread : Unread receiver) : (fresh sender receiver).Orderly := by
  have conveys : (fresh sender receiver).Conveys := by
    refine ⟨unused.valid, Receiver.faithful_unread unread, ?_⟩
    show sender.handed = []
    rw [handed, unused.silent]
    rfl
  exact ⟨conveys, (inOrder_iff_sender conveys).mpr (Sender.orderly_unused sender unused).2⟩

/-- Along any run of both ends and the kernel between them, what was sent is, in every state, what
was consumed, what is readable, what is in flight and what waits, in this order, if and only if
every `sendInLoop` finds what the kernel takes interchangeable with what waits. -/
theorem conveyed_iff (build : Build) (sender receiver : TcpConnection) (unused : Unused sender)
    (unread : Unread receiver) (actions : List PipeAction) (final : BytePipe)
    (run : Run (StepOf (step build)) (fresh sender receiver) actions final) :
    (∀ before, before <+: actions → ∀ s,
        Run (StepOf (step build)) (fresh sender receiver) before s → s.InOrder) ↔
      Meets (StepOf (step build)) InTurn (fresh sender receiver) actions := by
  refine run.always_iff (stepOf_deterministic _) (fresh_orderly unused unread)
    (fun _ orderly => orderly.2) (fun s action t _ orderly met taken => ?_)
    fun s action t _ orderly taken inOrder => ?_
  · exact ⟨step_conveys orderly.1 taken, (step_inOrder_iff orderly.1 orderly.2 taken).mpr met⟩
  · exact (step_inOrder_iff orderly.1 orderly.2 taken).mp inOrder

theorem idle_unread : Unread idle := ⟨idle_valid, by decide⟩

/-- A message the socket has no room for, its bytes in two write events, and a read between them. -/
def inTwoParts : List PipeAction :=
  [.sends (.sendInLoop [1, 2] .again), .sends (.handleWrite (.count 1)),
    .receives (.dispatch ⟨0x1#32⟩ ⟨[], [.received [1] [.consume 1]], .again⟩),
    .sends (.handleWrite (.count 1))]

theorem conveyed_iff_parts :
    ∃ final, Run (StepOf (step .debug)) (fresh idle idle) inTwoParts final ∧
    final.receiver.inbox.consumed = [1] ∧ final.inFlight = [2] ∧
    ∀ before, before <+: inTwoParts → ∀ s,
      Run (StepOf (step .debug)) (fresh idle idle) before s → s.InOrder := by
  have done : ((exec (step .debug) (fresh idle idle) inTwoParts).map fun s =>
      (s.receiver.inbox.consumed, s.inFlight)) = some ([1], [2]) := by
    decide +kernel
  have inTurn : checks (step .debug) InTurn (fresh idle idle) inTwoParts = true := by
    decide +kernel
  obtain ⟨final, executed, same⟩ := Option.map_eq_some_iff.mp done
  obtain ⟨consumed, inFlight⟩ := Prod.mk.inj same
  have run := run_of_exec executed
  exact ⟨final, run, consumed, inFlight,
    (conveyed_iff .debug idle idle Sender.idle_unused idle_unread inTwoParts final run).mpr
      (meets_of_checks inTurn)⟩

end BytePipe

end TcpConnection

end YYNet
