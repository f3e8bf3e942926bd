/-
This file proves when a `TcpConnection` keeps the order of its byte stream.

`sendInLoop` always tries the socket first, also when earlier bytes are still
waiting in the send buffer. What the kernel takes then overtakes them. Along
any run of sends and write events, with any answers of `::send`, the bytes
handed to the kernel followed by those waiting are the messages in call order,
in every state, if and only if each `sendInLoop` finds the bytes the kernel
takes and the bytes that wait interchangeable: their two concatenations are
the same. That is so when nothing waits or nothing is taken; otherwise the two
have to be powers of one word.
-/

import YYNet.Lib.Transition
import YYNet.Net.TcpConnection

namespace YYNet

open Checked Transition

namespace TcpConnection

/-- A connection together with the messages sent on it so far. -/
structure Sender where
  connection : TcpConnection
  messages : List (List UInt8)
  deriving DecidableEq, Repr

/-- The calls that concern the outgoing stream, with the answer of their `::send`. -/
inductive SendAction
  | sendInLoop (message : List UInt8) (result : SendResult)
  | handleWrite (result : SendResult)
  deriving DecidableEq, Repr

namespace Sender

/-- The connection after a call, unless the call ended the process. -/
def survives (connection : TcpConnection) (messages : List (List UInt8)) : Option Sender :=
  if connection.fault = none then some ⟨connection, messages⟩ else none

/-- One call. The kernel takes a part of what it is offered, all of it, or answers `EAGAIN`. -/
def step (build : Build) (s : Sender) : SendAction → Option Sender
  | .sendInLoop message result =>
    if result.Counts message.length then
      survives (s.connection.sendInLoop build message result) (s.messages ++ [message])
    else none
  | .handleWrite result =>
    if result.Counts s.connection.sendBuffer.readableSize then
      survives (s.connection.handleWrite build result) s.messages
    else none

/-- The bytes handed to the kernel followed by those waiting. -/
def stream (s : Sender) : List UInt8 :=
  s.connection.handed ++ s.connection.sendBuffer.readable

/-- The stream is the messages in call order. -/
def InOrder (s : Sender) : Prop := s.stream = s.messages.flatten

/-- What the kernel takes of a message and what waits before it are interchangeable. -/
def Interchangeable (s : Sender) : SendAction → Prop
  | .sendInLoop message result =>
    message.take result.taken ++ s.connection.sendBuffer.readable =
      s.connection.sendBuffer.readable ++ message.take result.taken
  | .handleWrite _ => True

instance interchangeableDecidable (s : Sender) : (action : SendAction) →
    Decidable (s.Interchangeable action)
  | .sendInLoop _ _ => inferInstanceAs (Decidable (_ = _))
  | .handleWrite _ => .isTrue trivial

/-! ### One call -/

theorem survives_eq_some {connection : TcpConnection} {messages : List (List UInt8)} {t : Sender}
    (alive : survives connection messages = some t) :
    connection.fault = none ∧ t = ⟨connection, messages⟩ := by
  unfold survives at alive
  split at alive
  · exact ⟨‹_›, (Option.some.inj alive).symm⟩
  · cases alive

/-- Everything a call does to the stream. -/
theorem step_cases (build : Build) (s t : Sender) (action : SendAction)
    (valid : s.connection.sendBuffer.Valid) (taken : s.step build action = some t) :
    (∃ message result, action = .sendInLoop message result ∧
      t.messages = s.messages ++ [message] ∧
      Output s.connection t.connection [.send (message.take result.taken)]
        (s.connection.sendBuffer.readable ++ message.drop result.taken)) ∨
    (∃ result, action = .handleWrite result ∧ t.messages = s.messages ∧
      Output s.connection t.connection (s.connection.writeCalls result)
        (s.connection.sendBuffer.readable.drop result.taken)) := by
  cases action with
  | sendInLoop message result =>
    simp only [step] at taken
    split at taken
    · obtain ⟨alive, rfl⟩ := survives_eq_some taken
      exact .inl ⟨message, result, rfl, rfl,
        sendInLoop_spec build _ valid message result ‹_› alive⟩
    · cases taken
  | handleWrite result =>
    simp only [step] at taken
    split at taken
    · obtain ⟨alive, rfl⟩ := survives_eq_some taken
      exact .inr ⟨result, rfl, rfl, handleWrite_spec build _ valid result ‹_› alive⟩
    · cases taken

theorem step_valid (build : Build) (s t : Sender) (action : SendAction)
    (valid : s.connection.sendBuffer.Valid) (taken : s.step build action = some t) :
    t.connection.sendBuffer.Valid := by
  rcases step_cases build s t action valid taken with ⟨_, _, _, _, output⟩ | ⟨_, _, _, output⟩
  · exact output.valid
  · exact output.valid

/-- From a stream in order, a call keeps the order exactly when it meets the condition. -/
theorem step_inOrder_iff (build : Build) (s t : Sender) (action : SendAction)
    (valid : s.connection.sendBuffer.Valid) (inOrder : InOrder s)
    (taken : s.step build action = some t) : InOrder t ↔ Interchangeable s action := by
  rcases step_cases build s t action valid taken with
    ⟨message, result, rfl, messages, output⟩ | ⟨result, rfl, messages, output⟩
  · have sent : t.stream = s.connection.handed ++ (message.take result.taken ++
        s.connection.sendBuffer.readable ++ message.drop result.taken) := by
      rw [stream, handed_of_output output, output.readable]
      simp [bytes]
    have wanted : t.messages.flatten = s.connection.handed ++
        (s.connection.sendBuffer.readable ++ message.take result.taken ++
          message.drop result.taken) := by
      rw [messages, List.flatten_append, ← inOrder, stream]
      simp [List.take_append_drop]
    rw [InOrder, sent, wanted, List.append_cancel_left_eq, List.append_cancel_right_eq]
    rfl
  · have kept : t.stream = s.stream := by
      rw [stream, handed_of_output output, output.readable, bytes_writeCalls, List.append_assoc,
        List.take_append_drop, stream]
    rw [InOrder, kept, messages]
    exact iff_of_true inOrder trivial

/-! ### Whole runs -/

/-- A connection nothing has been sent on. -/
structure Unused (start : TcpConnection) : Prop where
  valid : start.sendBuffer.Valid
  empty : start.sendBuffer.readable = []
  silent : start.wire = []

/-- The invariant of a run in order. -/
def Orderly (s : Sender) : Prop := s.connection.sendBuffer.Valid ∧ InOrder s

theorem orderly_unused (start : TcpConnection) (unused : Unused start) :
    Orderly ⟨start, []⟩ := by
  refine ⟨unused.valid, ?_⟩
  simp [InOrder, stream, handed, unused.empty, unused.silent]

/-- Along any run, the stream is in order in every state if and only if every `sendInLoop`
finds what the kernel takes interchangeable with what waits. -/
theorem inOrder_iff (build : Build) (start : TcpConnection) (unused : Unused start)
    (actions : List SendAction) (final : Sender)
    (run : Run (StepOf (step build)) ⟨start, []⟩ actions final) :
    (∀ before, before <+: actions → ∀ s, Run (StepOf (step build)) ⟨start, []⟩ before s →
      InOrder s) ↔ Meets (StepOf (step build)) Interchangeable ⟨start, []⟩ actions := by
  refine run.always_iff (stepOf_deterministic _) (orderly_unused start unused)
    (fun _ orderly => orderly.2) (fun s action t _ orderly met taken => ?_)
    fun s action t _ orderly taken inOrder => ?_
  · exact ⟨step_valid build s t action orderly.1 taken,
      (step_inOrder_iff build s t action orderly.1 orderly.2 taken).mpr met⟩
  · exact (step_inOrder_iff build s t action orderly.1 orderly.2 taken).mp inOrder

theorem idle_unused : Unused idle := ⟨idle_valid, by decide, by decide⟩

/-- The first byte of a message is taken, then a message of the same byte while two of it wait, a
third message waits behind them, and two write events take the rest. -/
def calm : List SendAction :=
  [.sendInLoop [7, 7, 7] (.count 1), .sendInLoop [7] (.count 1), .sendInLoop [9] .again,
    .handleWrite (.count 2), .handleWrite (.count 1)]

theorem inOrder_iff_calm : ∃ final, Run (StepOf (step .debug)) ⟨idle, []⟩ calm final ∧
    final.connection.handed = [7, 7, 7, 7, 9] ∧
    Meets (StepOf (step .debug)) Interchangeable ⟨idle, []⟩ calm ∧
    ∀ before, before <+: calm → ∀ s, Run (StepOf (step .debug)) ⟨idle, []⟩ before s →
      InOrder s := by
  have done : ((exec (step .debug) ⟨idle, []⟩ calm).map fun s => s.connection.handed) =
      some [7, 7, 7, 7, 9] := by
    decide +kernel
  have interchangeable : checks (step .debug) Interchangeable ⟨idle, []⟩ calm = true := by
    decide +kernel
  obtain ⟨final, executed, handed⟩ := Option.map_eq_some_iff.mp done
  have run := run_of_exec executed
  exact ⟨final, run, handed, meets_of_checks interchangeable,
    (inOrder_iff .debug idle idle_unused calm final run).mpr (meets_of_checks interchangeable)⟩

/-- A message the socket has no room for, and a second one it takes. -/
def overtaken : List SendAction := [.sendInLoop [1] .again, .sendInLoop [2] (.count 1)]

/-- The second message overtakes the first, which is still in the send buffer. -/
theorem inOrder_fails :
    Unused idle ∧ ∃ final, Run (StepOf (step .debug)) ⟨idle, []⟩ overtaken final ∧
      ¬ InOrder final := by
  have done : ((exec (step .debug) ⟨idle, []⟩ overtaken).map fun s =>
      (s.stream, s.messages.flatten)) = some ([2, 1], [1, 2]) := by
    decide +kernel
  obtain ⟨final, executed, streams⟩ := Option.map_eq_some_iff.mp done
  obtain ⟨sent, wanted⟩ := Prod.mk.inj streams
  refine ⟨idle_unused, final, run_of_exec executed, ?_⟩
  rw [InOrder, sent, wanted]
  decide

end Sender

end TcpConnection

end YYNet
