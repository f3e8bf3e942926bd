/-
This file models the output side of `TcpConnection`: sending, the write event,
disconnecting, and the part of its `EventHandler` these use.

The connection carries a log of what it does to its descriptor and to its
registration with the poller. The outcome of a system call is an argument, so
a caller chooses it. Everything here runs on the loop thread. An assertion
that fires and an exception that leaves a member function end the process;
the connection then keeps what it had logged, and no member function runs
after that.
-/

import YYNet.Net.TcpBuffer

namespace YYNet

open Checked

/-! ### The connection -/

/-- `ConnectStatus`. -/
inductive ConnectStatus
  | connecting
  | connected
  | disConnecting
  | disConnected
  deriving DecidableEq, Repr

/-- What a connection does to its descriptor and to its registration. A `send` holds the bytes
the kernel took. -/
inductive Call
  | send (taken : List UInt8)
  | readv
  | recv
  | shutdown
  | updateListen
  | removeListen
  | handleClose
  deriving DecidableEq, Repr

/-- The answer of `::send`: a count, `EAGAIN`, or another error. -/
inductive SendResult
  | count (n : Nat)
  | again
  | failed
  deriving DecidableEq, Repr

/-- The tasks a connection queues for itself. -/
inductive DelayedTask
  | continueRead
  | destruct
  deriving DecidableEq, Repr

/-- `TcpConnection`, with the `Write` bit and the `Added` status of its handler, the tasks it
has queued for itself, its log, and the fault that ended the process. -/
structure TcpConnection where
  recvBuffer : TcpBuffer
  sendBuffer : TcpBuffer
  connStatus : ConnectStatus
  isWriting : Bool
  added : Bool
  isET : Bool
  delayed : List DelayedTask
  calls : List Call
  fault : Option Fault
  deriving DecidableEq, Repr

namespace SendResult

/-- How many bytes the kernel took. -/
def taken : SendResult → Nat
  | count n => n
  | again => 0
  | failed => 0

/-- The answers that say how much was taken of `len` bytes: a count, or `EAGAIN` for none. -/
def Counts (len : Nat) : SendResult → Prop
  | count n => n ≤ len
  | again => True
  | failed => False

instance (len : Nat) : (result : SendResult) → Decidable (result.Counts len)
  | count n => inferInstanceAs (Decidable (n ≤ len))
  | again => .isTrue trivial
  | failed => .isFalse id

end SendResult

namespace TcpConnection

/-- The constructor, once its handler has been added to the poller. -/
def accept (recvBuffer sendBuffer : TcpBuffer) (isWriting isET : Bool) : TcpConnection where
  recvBuffer := recvBuffer
  sendBuffer := sendBuffer
  connStatus := .connected
  isWriting := isWriting
  added := true
  isET := isET
  delayed := []
  calls := []
  fault := none

def record (s : TcpConnection) (call : Call) : TcpConnection :=
  { s with calls := s.calls ++ [call] }

def stop (s : TcpConnection) (fault : Fault) : TcpConnection := { s with fault := some fault }

/-- Go on with the next statement unless the process has ended. -/
def andThen (s : TcpConnection) (next : TcpConnection → TcpConnection) : TcpConnection :=
  match s.fault with
  | none => next s
  | some _ => s

/-- `EventHandler::update` on the loop thread, down to `Epoll::update_listen`. -/
def update (build : Build) (s : TcpConnection) : TcpConnection :=
  match assert build (s.added = true) with
  | .ok _ => s.record .updateListen
  | .error fault => s.stop fault

def setWriting (build : Build) (s : TcpConnection) : TcpConnection :=
  update build { s with isWriting := true }

def cancelWriting (build : Build) (s : TcpConnection) : TcpConnection :=
  update build { s with isWriting := false }

/-- `if(!handler_.isWriting()) handler_.setWriting();` -/
def startWriting (build : Build) (s : TcpConnection) : TcpConnection :=
  if s.isWriting then s else s.setWriting build

/-- `if(handler_.isWriting()) handler_.cancelWriting();` -/
def stopWriting (build : Build) (s : TcpConnection) : TcpConnection :=
  if s.isWriting then s.cancelWriting build else s

/-- A send buffer member returned, or an exception left it. -/
def withSendBuffer (s : TcpConnection) : Except Fault TcpBuffer → TcpConnection
  | .ok sendBuffer => { s with sendBuffer := sendBuffer }
  | .error fault => s.stop fault

/-- `SendBuffer_.append(data)`. -/
def appendSend (build : Build) (data : List UInt8) (s : TcpConnection) : TcpConnection :=
  s.withSendBuffer (s.sendBuffer.append build data)

/-- `SendBuffer_.consume(size)`. -/
def consumeSend (build : Build) (size : Nat) (s : TcpConnection) : TcpConnection :=
  s.withSendBuffer (s.sendBuffer.consume build size)

/-- `handleError` writes a log line and may tell the services; the connection stays as it is. -/
def handleError (s : TcpConnection) : TcpConnection := s

def sendInLoop (build : Build) (message : List UInt8) (result : SendResult)
    (s : TcpConnection) : TcpConnection :=
  let sent := s.record (.send (message.take result.taken))
  match result with
  | .count n =>
    if n < message.length then
      (sent.appendSend build (message.drop n)).andThen (startWriting build)
    else sent
  | .again => (sent.appendSend build message).andThen (startWriting build)
  | .failed => sent.handleError

def handleWrite (build : Build) (result : SendResult) (s : TcpConnection) : TcpConnection :=
  let len := s.sendBuffer.readableSize
  let sent := s.record (.send (s.sendBuffer.readable.take result.taken))
  match result with
  | .count n =>
    if 0 < n then
      let settled :=
        if n = len then
          (if s.connStatus = .disConnecting then sent.record .shutdown else sent).stopWriting build
        else sent
      settled.andThen (consumeSend build n)
    else sent.handleError
  | .again => sent.handleError
  | .failed => sent.handleError

def disconnectInLoop (build : Build) (s : TcpConnection) : TcpConnection :=
  if s.connStatus = .connected then
    let leaving := { s with connStatus := .disConnecting }
    if s.sendBuffer.readableSize = 0 then leaving.record .shutdown
    else leaving.startWriting build
  else s

/-! ### What goes over the wire -/

/-- The log entries that concern the byte stream. -/
def onWire : Call → Bool
  | .send _ => true
  | .shutdown => true
  | _ => false

/-- The sends and shutdowns of a connection, in order. -/
def wire (s : TcpConnection) : List Call := s.calls.filter onWire

/-- The bytes one log entry handed to the kernel. -/
def bytes : Call → List UInt8
  | .send taken => taken
  | _ => []

/-- The bytes handed to the kernel. -/
def handed (s : TcpConnection) : List UInt8 := s.wire.flatMap bytes

theorem withSendBuffer_ok (s : TcpConnection) (sendBuffer : TcpBuffer) :
    s.withSendBuffer (.ok sendBuffer) = { s with sendBuffer := sendBuffer } := rfl

@[simp] theorem record_sendBuffer (s : TcpConnection) (call : Call) :
    (s.record call).sendBuffer = s.sendBuffer := rfl

@[simp] theorem record_connStatus (s : TcpConnection) (call : Call) :
    (s.record call).connStatus = s.connStatus := rfl

theorem wire_record_send (s : TcpConnection) (taken : List UInt8) :
    (s.record (.send taken)).wire = s.wire ++ [.send taken] := by
  simp [wire, record, onWire]

theorem wire_record_shutdown (s : TcpConnection) :
    (s.record .shutdown).wire = s.wire ++ [.shutdown] := by
  simp [wire, record, onWire]

/-- Two connections with the same output side: they differ at most in the registration for
writing, its log entries and the fault. -/
structure SameOutput (s t : TcpConnection) : Prop where
  sendBuffer : t.sendBuffer = s.sendBuffer
  connStatus : t.connStatus = s.connStatus
  wire : t.wire = s.wire

theorem SameOutput.refl (s : TcpConnection) : SameOutput s s := ⟨rfl, rfl, rfl⟩

section

variable (build : Build) (s : TcpConnection)

theorem update_sameOutput : SameOutput s (s.update build) := by
  unfold update
  split
  · exact ⟨rfl, rfl, by simp [TcpConnection.wire, record, onWire]⟩
  · exact ⟨rfl, rfl, rfl⟩

theorem setWriting_sameOutput : SameOutput s (s.setWriting build) := by
  obtain ⟨sendBuffer, connStatus, wire⟩ := update_sameOutput build { s with isWriting := true }
  exact ⟨sendBuffer, connStatus, wire⟩

theorem cancelWriting_sameOutput : SameOutput s (s.cancelWriting build) := by
  obtain ⟨sendBuffer, connStatus, wire⟩ := update_sameOutput build { s with isWriting := false }
  exact ⟨sendBuffer, connStatus, wire⟩

theorem startWriting_sameOutput : SameOutput s (s.startWriting build) := by
  unfold startWriting
  split
  · exact SameOutput.refl s
  · exact setWriting_sameOutput build s

theorem stopWriting_sameOutput : SameOutput s (s.stopWriting build) := by
  unfold stopWriting
  split
  · exact cancelWriting_sameOutput build s
  · exact SameOutput.refl s

theorem andThen_sameOutput (next : TcpConnection → TcpConnection)
    (same : SameOutput s (next s)) : SameOutput s (s.andThen next) := by
  unfold andThen
  split
  · exact same
  · exact SameOutput.refl s

/-- A process that is alive behind a statement was alive before it. -/
theorem alive_of_andThen (next : TcpConnection → TcpConnection)
    (alive : (s.andThen next).fault = none) : s.fault = none ∧ s.andThen next = next s := by
  unfold andThen at alive ⊢
  split at alive
  · exact ⟨‹_›, rfl⟩
  · simp_all

/-- A member function put `calls` on the wire and left `left` in the send buffer. -/
structure Output (s t : TcpConnection) (calls : List Call) (left : List UInt8) : Prop where
  valid : t.sendBuffer.Valid
  connStatus : t.connStatus = s.connStatus
  wire : t.wire = s.wire ++ calls
  readable : t.sendBuffer.readable = left

theorem Output.of_sameOutput {s t u : TcpConnection} {calls : List Call} {left : List UInt8}
    (first : Output s t calls left) (same : SameOutput t u) : Output s u calls left :=
  ⟨by rw [same.sendBuffer]; exact first.valid, by rw [same.connStatus, first.connStatus],
    by rw [same.wire, first.wire], by rw [same.sendBuffer, first.readable]⟩

theorem Output.trans {s t u : TcpConnection} {calls more : List Call} {between left : List UInt8}
    (first : Output s t calls between) (second : Output t u more left) :
    Output s u (calls ++ more) left :=
  ⟨second.valid, by rw [second.connStatus, first.connStatus],
    by rw [second.wire, first.wire, List.append_assoc], second.readable⟩

/-- An append that did not end the process grew the send buffer. -/
theorem appendSend_spec (valid : s.sendBuffer.Valid) (data : List UInt8)
    (alive : (s.appendSend build data).fault = none) :
    Output s (s.appendSend build data) [] (s.sendBuffer.readable ++ data) := by
  cases returned : s.sendBuffer.append build data with
  | ok sendBuffer =>
    have spec := TcpBuffer.append_returns build valid returned
    rw [appendSend, returned, withSendBuffer_ok]
    exact ⟨spec.valid, rfl, (List.append_nil _).symm, spec.readable_eq⟩
  | error fault =>
    rw [appendSend, returned] at alive
    cases alive

/-- What does not fit into the socket is appended to the send buffer. -/
theorem sendRest_spec (valid : s.sendBuffer.Valid) (taken rest : List UInt8)
    (alive : (((s.record (.send taken)).appendSend build rest).andThen
      (startWriting build)).fault = none) :
    Output s (((s.record (.send taken)).appendSend build rest).andThen (startWriting build))
      [.send taken] (s.sendBuffer.readable ++ rest) := by
  have stored := appendSend_spec build (s.record (.send taken)) valid rest
    (alive_of_andThen _ _ alive).1
  refine Output.of_sameOutput ?_ (andThen_sameOutput _ _ (startWriting_sameOutput build _))
  refine ⟨stored.valid, stored.connStatus, ?_, stored.readable⟩
  rw [stored.wire, wire_record_send, List.append_nil]

/-- `sendInLoop` hands the kernel what it takes and buffers the rest. -/
theorem sendInLoop_spec (valid : s.sendBuffer.Valid) (message : List UInt8) (result : SendResult)
    (counts : result.Counts message.length)
    (alive : (s.sendInLoop build message result).fault = none) :
    Output s (s.sendInLoop build message result) [.send (message.take result.taken)]
      (s.sendBuffer.readable ++ message.drop result.taken) := by
  cases result with
  | count n =>
    simp only [sendInLoop, SendResult.taken] at alive ⊢
    split
    · rename_i short
      rw [if_pos short] at alive
      exact sendRest_spec build s valid _ _ alive
    · have nothing : message.drop n = [] := List.drop_eq_nil_of_le (by omega)
      refine ⟨valid, record_connStatus _ _, wire_record_send s _, ?_⟩
      rw [nothing, List.append_nil, record_sendBuffer]
  | again =>
    simp only [sendInLoop, SendResult.taken, List.take_zero, List.drop_zero] at alive ⊢
    exact sendRest_spec build s valid _ _ alive
  | failed => exact counts.elim

/-- The calls of a write event: the send, and the shutdown when it empties the buffer of a
connection that is leaving. -/
def writeCalls (s : TcpConnection) (result : SendResult) : List Call :=
  .send (s.sendBuffer.readable.take result.taken) ::
    if 0 < result.taken ∧ result.taken = s.sendBuffer.readableSize ∧
        s.connStatus = .disConnecting then [.shutdown] else []

theorem consumeSend_spec (valid : s.sendBuffer.Valid) (size : Nat)
    (inside : size ≤ s.sendBuffer.readableSize) :
    Output s (s.consumeSend build size) [] (s.sendBuffer.readable.drop size) := by
  rw [consumeSend, TcpBuffer.consume_eq build valid inside, withSendBuffer_ok]
  exact ⟨TcpBuffer.consumed_valid valid size, rfl, (List.append_nil _).symm,
    TcpBuffer.consumed_readable valid size⟩

/-- The connection between the send of a write event and the `consume`. -/
def settled (n : Nat) : TcpConnection :=
  let sent := s.record (.send (s.sendBuffer.readable.take n))
  if n = s.sendBuffer.readableSize then
    (if s.connStatus = .disConnecting then sent.record .shutdown else sent).stopWriting build
  else sent

theorem settled_spec (valid : s.sendBuffer.Valid) (n : Nat) (positive : 0 < n) :
    Output s (settled build s n) (s.writeCalls (.count n)) s.sendBuffer.readable := by
  have sent : Output s (s.record (.send (s.sendBuffer.readable.take n)))
      [.send (s.sendBuffer.readable.take n)] s.sendBuffer.readable :=
    ⟨valid, record_connStatus _ _, wire_record_send _ _, by rw [record_sendBuffer]⟩
  simp only [settled, writeCalls, SendResult.taken, positive, true_and]
  by_cases all : n = s.sendBuffer.readableSize
  · rw [if_pos all]
    by_cases leaving : s.connStatus = .disConnecting
    · rw [if_pos leaving, if_pos ⟨all, leaving⟩]
      refine Output.of_sameOutput ?_ (stopWriting_sameOutput build _)
      exact sent.trans ⟨valid, record_connStatus _ _, wire_record_shutdown _, by
        rw [record_sendBuffer, record_sendBuffer]⟩
    · rw [if_neg leaving, if_neg fun both => leaving both.2]
      exact sent.of_sameOutput (stopWriting_sameOutput build _)
  · rw [if_neg all, if_neg fun both => all both.1]
    exact sent

/-- `handleWrite` hands the kernel what it takes of the send buffer and keeps the rest. -/
theorem handleWrite_spec (valid : s.sendBuffer.Valid) (result : SendResult)
    (counts : result.Counts s.sendBuffer.readableSize)
    (alive : (s.handleWrite build result).fault = none) :
    Output s (s.handleWrite build result) (s.writeCalls result)
      (s.sendBuffer.readable.drop result.taken) := by
  have unsent (taken : List UInt8) : Output s (s.record (.send taken)) [.send taken]
      s.sendBuffer.readable :=
    ⟨valid, record_connStatus _ _, wire_record_send _ _, by rw [record_sendBuffer]⟩
  cases result with
  | count n =>
    by_cases positive : 0 < n
    · have shape : s.handleWrite build (.count n) =
          (settled build s n).andThen (consumeSend build n) := by
        simp only [handleWrite, positive, if_true, settled, SendResult.taken]
      rw [shape] at alive ⊢
      have front := settled_spec build s valid n positive
      have same : (settled build s n).sendBuffer.readableSize = s.sendBuffer.readableSize := by
        rw [← front.valid.readable_length, front.readable, valid.readable_length]
      rw [(alive_of_andThen _ _ alive).2]
      have back := consumeSend_spec build (settled build s n) front.valid n
        (by rw [same]; exact counts)
      rw [front.readable] at back
      rw [← List.append_nil (s.writeCalls _)]
      exact front.trans back
    · obtain rfl : n = 0 := by omega
      simp only [handleWrite, handleError, SendResult.taken, List.drop_zero, lt_irrefl, if_false]
      have same : s.writeCalls (.count 0) = [.send (s.sendBuffer.readable.take 0)] := by
        simp [writeCalls, SendResult.taken]
      rw [same]
      exact unsent _
  | again =>
    simp only [handleWrite, handleError, SendResult.taken, List.drop_zero]
    have same : s.writeCalls .again = [.send (s.sendBuffer.readable.take 0)] := by
      simp [writeCalls, SendResult.taken]
    rw [same]
    exact unsent _
  | failed => exact counts.elim

theorem handed_of_output {s t : TcpConnection} {calls : List Call} {left : List UInt8}
    (output : Output s t calls left) : t.handed = s.handed ++ calls.flatMap bytes := by
  rw [handed, output.wire, List.flatMap_append, handed]

/-- The bytes of a write event's calls. -/
theorem bytes_writeCalls (result : SendResult) :
    (s.writeCalls result).flatMap bytes = s.sendBuffer.readable.take result.taken := by
  rw [writeCalls, List.flatMap_cons]
  split <;> simp [bytes]

/-- `disconnectInLoop` of a connected connection starts leaving, and shuts down at once when
nothing is waiting. -/
theorem disconnectInLoop_connected (isConnected : s.connStatus = .connected) :
    (s.disconnectInLoop build).sendBuffer = s.sendBuffer ∧
      (s.disconnectInLoop build).connStatus = .disConnecting ∧
      (s.disconnectInLoop build).wire =
        s.wire ++ if s.sendBuffer.readableSize = 0 then [.shutdown] else [] := by
  rw [disconnectInLoop, if_pos isConnected]
  split
  · exact ⟨rfl, rfl, wire_record_shutdown _⟩
  · obtain ⟨sendBuffer, connStatus, wire⟩ :=
      startWriting_sameOutput build { s with connStatus := .disConnecting }
    exact ⟨sendBuffer, connStatus, by rw [wire, List.append_nil]; rfl⟩

end

/-- An accepted connection with small empty buffers. -/
def idle : TcpConnection :=
  accept ⟨List.replicate 16 0, 8, 8, 8⟩ ⟨List.replicate 16 0, 8, 8, 8⟩ false false

theorem idle_valid : idle.sendBuffer.Valid :=
  ⟨by decide, by decide, by decide, by simp only [idle, accept, maxSize]; decide⟩

end TcpConnection

end YYNet
