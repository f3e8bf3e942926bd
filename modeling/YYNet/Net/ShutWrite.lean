/-
This file proves when a connection sends nothing behind the shutdown of its write
side.

The write side is shut down when the connection is leaving and its send buffer is
empty: by `disconnectInLoop`, or by the write event that takes the last byte. From
then on its status says so, but only one of the two overloads of `send` looks at
the status, and it looks when the send is submitted and not when it runs. Neither
`sendInLoop` nor `handleWrite` looks at it. Along every run of sends, disconnects
and write events, no send comes behind the shutdown, if and only if no send runs
and no write event comes while the connection is leaving with an empty buffer.
-/

import YYNet.Net.WriteInterest

namespace YYNet

open Checked Transition ProducerQueue

namespace TcpConnection

/-! ### What is promised, and when -/

/-- No send comes behind a shutdown. -/
def SilentBehind (wire : List Call) : Prop :=
  ∀ before after, wire = before ++ .shutdown :: after → ∀ taken, .send taken ∉ after

/-- The connection is leaving, and nothing is waiting to be sent. -/
def Left (s : TcpConnection) : Prop :=
  s.connStatus = .disConnecting ∧ s.sendBuffer.readable = []

instance (s : TcpConnection) : Decidable s.Left :=
  inferInstanceAs (Decidable (s.connStatus = .disConnecting ∧ s.sendBuffer.readable = []))

/-- A task that calls `::send`. -/
def Queued.sends : Queued → Bool
  | .plain (.sendInLoop _) => true
  | _ => false

namespace Outgoing

variable {Producer : Type}

/-- The actions other than writing to `sendBuffer()`. -/
def SendsOnly : OutgoingAction Producer → Prop
  | .write .. => False
  | .writeOnLoop .. => False
  | _ => True

instance : (action : OutgoingAction Producer) → Decidable (SendsOnly action)
  | .write .. => .isFalse id
  | .writeOnLoop .. => .isFalse id
  | .send .. => .isTrue trivial
  | .sendOnLoop .. => .isTrue trivial
  | .disconnect .. => .isTrue trivial
  | .disconnectOnLoop => .isTrue trivial
  | .runTask .. => .isTrue trivial
  | .handleWrite .. => .isTrue trivial

/-- Whatever calls `::send` runs before the connection has left. -/
def InTime [DecidableEq Producer] (s : Outgoing Producer) : OutgoingAction Producer → Prop
  | .sendOnLoop overload _ _ => s.connection.accepts overload = true → ¬ s.connection.Left
  | .runTask producer _ => ∀ found ∈ dequeue producer s.tasks,
      found.1.sends = true → ¬ s.connection.Left
  | .handleWrite _ => ¬ s.connection.Left
  | _ => True

instance [DecidableEq Producer] (s : Outgoing Producer) :
    (action : OutgoingAction Producer) → Decidable (InTime s action)
  | .sendOnLoop overload _ _ => inferInstanceAs (Decidable
      (s.connection.accepts overload = true → ¬ s.connection.Left))
  | .runTask producer _ => inferInstanceAs (Decidable (∀ found ∈ dequeue producer s.tasks,
      found.1.sends = true → ¬ s.connection.Left))
  | .handleWrite _ => inferInstanceAs (Decidable (¬ s.connection.Left))
  | .send .. => .isTrue trivial
  | .write .. => .isTrue trivial
  | .writeOnLoop .. => .isTrue trivial
  | .disconnect .. => .isTrue trivial
  | .disconnectOnLoop => .isTrue trivial

end Outgoing

/-! ### Sends and shutdowns on the wire -/

theorem silent_of_not_mem {wire : List Call} (none : .shutdown ∉ wire) : SilentBehind wire := by
  rintro before after rfl
  exact absurd (List.mem_append_right _ List.mem_cons_self) none

/-- A shutdown at the end has nothing behind it. -/
theorem silent_snoc {wire : List Call} (none : .shutdown ∉ wire) :
    SilentBehind (wire ++ [.shutdown]) := by
  intro before after shape taken behind
  rcases List.eq_nil_or_concat after with rfl | ⟨rest, last, rfl⟩
  · cases behind
  · rw [List.concat_eq_append, ← List.cons_append, ← List.append_assoc] at shape
    have same := (List.append_inj' shape rfl).1
    exact none (same ▸ List.mem_append_right _ List.mem_cons_self)

/-- A send behind a shutdown is heard. -/
theorem not_silent_send {wire calls : List Call} {taken : List UInt8} (shut : .shutdown ∈ wire) :
    ¬ SilentBehind (wire ++ .send taken :: calls) := by
  intro silent
  obtain ⟨before, after, rfl⟩ := List.append_of_mem shut
  refine silent before (after ++ .send taken :: calls) (by simp) taken ?_
  exact List.mem_append_right _ List.mem_cons_self

/-! ### One step -/

/-- The write side has been shut down exactly when the connection has left, and it has been silent
since. -/
structure Orderly (s : TcpConnection) : Prop where
  valid : s.sendBuffer.Valid
  shut_iff : .shutdown ∈ s.wire ↔ s.Left
  silent : SilentBehind s.wire

section

variable (build : Build) {s t : TcpConnection}

/-- A connection that has left and sends breaks the silence. -/
theorem Orderly.not_silent (orderly : Orderly s) (left : s.Left) {taken : List UInt8}
    {calls : List Call} {readable : List UInt8}
    (output : Output s t (.send taken :: calls) readable) : ¬ SilentBehind t.wire := by
  rw [output.wire]
  exact not_silent_send (orderly.shut_iff.mpr left)

/-- `sendInLoop` in time. -/
theorem Orderly.sendInLoop (orderly : Orderly s) (stays : ¬ s.Left) {message : List UInt8}
    {result : SendResult} (answers : result.Answers message.length)
    (alive : (s.sendInLoop build message result).fault = none) :
    Orderly (s.sendInLoop build message result) := by
  have output := sendInLoop_output build s orderly.valid message result answers alive
  have none : .shutdown ∉ (s.sendInLoop build message result).wire := by
    rw [output.wire]
    simpa using fun shut => stays (orderly.shut_iff.mp shut)
  refine ⟨output.valid, iff_of_false none ?_, silent_of_not_mem none⟩
  rintro ⟨leaving, empty⟩
  rw [output.connStatus] at leaving
  rw [output.readable] at empty
  exact stays ⟨leaving, (List.append_eq_nil_iff.mp empty).1⟩

/-- A write event in time. -/
theorem Orderly.handleWrite (orderly : Orderly s) (stays : ¬ s.Left) {result : SendResult}
    (answers : result.Answers s.sendBuffer.readableSize)
    (alive : (s.handleWrite build result).fault = none) :
    Orderly (s.handleWrite build result) := by
  have output := handleWrite_output build s orderly.valid result answers alive
  have none : .shutdown ∉ s.wire := fun shut => stays (orderly.shut_iff.mp shut)
  have most : result.taken ≤ s.sendBuffer.readableSize := by
    cases result with
    | count n => exact answers
    | again => exact Nat.zero_le _
    | failed => exact Nat.zero_le _
  by_cases last : 0 < result.taken ∧ result.taken = s.sendBuffer.readableSize ∧
      s.connStatus = .disConnecting
  · have wire : (s.handleWrite build result).wire =
        (s.wire ++ [.send (s.sendBuffer.readable.take result.taken)]) ++ [.shutdown] := by
      rw [output.wire, writeCalls, if_pos last, List.append_assoc]
      rfl
    refine ⟨output.valid, iff_of_true ?_ ?_, ?_⟩
    · rw [wire]
      exact List.mem_append_right _ (List.mem_singleton_self _)
    · refine ⟨output.connStatus.trans last.2.2, ?_⟩
      rw [output.readable]
      refine List.drop_eq_nil_of_le ?_
      rw [orderly.valid.readable_length]
      omega
    · rw [wire]
      exact silent_snoc (by simpa using none)
  · have wire : (s.handleWrite build result).wire =
        s.wire ++ [.send (s.sendBuffer.readable.take result.taken)] := by
      rw [output.wire, writeCalls, if_neg last]
    have stillNone : .shutdown ∉ (s.handleWrite build result).wire := by
      rw [wire]
      simpa using none
    refine ⟨output.valid, iff_of_false stillNone ?_, silent_of_not_mem stillNone⟩
    rintro ⟨leaving, empty⟩
    rw [output.connStatus] at leaving
    rw [output.readable, List.drop_eq_nil_iff, orderly.valid.readable_length] at empty
    have some : 0 < s.sendBuffer.readableSize := by
      rw [← orderly.valid.readable_length]
      exact List.length_pos_iff.mpr fun nothing => stays ⟨leaving, nothing⟩
    exact last ⟨by omega, by omega, leaving⟩

theorem Orderly.of_sameOutput (orderly : Orderly s) (same : SameOutput s t) : Orderly t := by
  refine ⟨by rw [same.sendBuffer]; exact orderly.valid, ?_, by rw [same.wire]; exact orderly.silent⟩
  rw [same.wire, orderly.shut_iff, Left, Left, same.connStatus, same.sendBuffer]

theorem Orderly.disconnectInLoop (orderly : Orderly s) : Orderly (s.disconnectInLoop build) := by
  by_cases isConnected : s.connStatus = .connected
  · obtain ⟨sameBuffer, status, wire⟩ := disconnectInLoop_connected build s isConnected
    have none : .shutdown ∉ s.wire := by
      intro shut
      have leaving := (orderly.shut_iff.mp shut).1
      rw [isConnected] at leaving
      cases leaving
    have empty : s.sendBuffer.readableSize = 0 ↔ s.sendBuffer.readable = [] := by
      rw [← orderly.valid.readable_length, List.length_eq_zero_iff]
    refine ⟨by rw [sameBuffer]; exact orderly.valid, ?_, ?_⟩
    · rw [wire, Left, status, sameBuffer]
      by_cases nothing : s.sendBuffer.readable = []
      · simp [nothing, empty.mpr nothing]
      · simp [nothing, mt empty.mp nothing, none]
    · rw [wire]
      split
      · exact silent_snoc none
      · rw [List.append_nil]
        exact orderly.silent
  · rw [TcpConnection.disconnectInLoop, if_neg isConnected]
    exact orderly

end

namespace Outgoing

variable {Producer : Type} [DecidableEq Producer]

/-- One step: in time it keeps the connection orderly, and otherwise it breaks the silence. -/
theorem step_orderly (build : Build) {s t : Outgoing Producer} {action : OutgoingAction Producer}
    (sendsOnly : SendsOnly action) (orderly : Orderly s.connection)
    (taken : s.step build action = some t) :
    (InTime s action → Orderly t.connection) ∧
      (SilentBehind t.connection.wire → InTime s action) := by
  cases moved_of_step build taken with
  | send | refused | disconnect => exact ⟨fun _ => orderly, fun _ => trivial⟩
  | sendOnLoop overload message result isAccepted answers alive =>
    refine ⟨fun inTime => orderly.sendInLoop build (inTime isAccepted) answers alive,
      fun silent _ left => ?_⟩
    exact orderly.not_silent left
      (sendInLoop_output build _ orderly.valid message result answers alive) silent
  | refusedOnLoop overload message result refused =>
    exact ⟨fun _ => orderly, fun _ isAccepted => absurd isAccepted refused⟩
  | write | writeOnLoop => exact sendsOnly.elim
  | disconnectOnLoop alive =>
    refine ⟨fun _ => ?_, fun _ => trivial⟩
    unfold disconnectTask
    split
    · exact orderly.disconnectInLoop build
    · exact orderly.of_sameOutput (startWriting_sameOutput build _)
  | runTask producer result task rest found answers alive =>
    have notSending : task.sends = false → InTime s (.runTask producer result) := by
      intro silent other isFound sends
      obtain rfl := Option.some.inj (found.symm.trans isFound)
      rw [silent] at sends
      cases sends
    cases task with
    | sendOutput =>
      exact ⟨fun _ => orderly.of_sameOutput (startWriting_sameOutput build _),
        fun _ => notSending rfl⟩
    | plain task =>
      cases task with
      | setWriting =>
        exact ⟨fun _ => orderly.of_sameOutput (startWriting_sameOutput build _),
          fun _ => notSending rfl⟩
      | disconnectInLoop =>
        exact ⟨fun _ => orderly.disconnectInLoop build, fun _ => notSending rfl⟩
      | sendInLoop message =>
        refine ⟨fun inTime => orderly.sendInLoop build (inTime _ found rfl) answers alive,
          fun silent other isFound _ left => ?_⟩
        exact orderly.not_silent left
          (sendInLoop_output build _ orderly.valid message result answers alive) silent
  | handleWrite result answers alive =>
    refine ⟨fun inTime => orderly.handleWrite build inTime answers alive, fun silent left => ?_⟩
    exact orderly.not_silent left
      (handleWrite_output build _ orderly.valid result answers alive) silent

/-! ### The main theorem -/

/-- The connection is orderly, whatever is queued for it. -/
def KeptOrderly (s : Outgoing Producer) : Prop := Orderly s.connection

/-- For every run of sends, disconnects and write events of a new connection: in every state no
send has come behind the shutdown of the write side, if and only if whatever calls `::send` ran
before the connection had left. -/
theorem silent_iff_inTime (build : Build) (recvBuffer sendBuffer : TcpBuffer) (isET : Bool)
    (valid : sendBuffer.Valid) (acts : List (OutgoingAction Producer))
    (sendsOnly : ∀ action ∈ acts, SendsOnly action) (s : Outgoing Producer)
    (run : Run (StepOf (step build)) (accepted recvBuffer sendBuffer isET) acts s) :
    (∀ before, before <+: acts → ∀ state,
      Run (StepOf (step build)) (accepted recvBuffer sendBuffer isET) before state →
        SilentBehind state.connection.wire) ↔
      Meets (StepOf (step build)) InTime (accepted recvBuffer sendBuffer isET) acts := by
  have none : .shutdown ∉ (accept recvBuffer sendBuffer false isET).wire := List.not_mem_nil
  have initially : KeptOrderly (accepted recvBuffer sendBuffer isET : Outgoing Producer) :=
    ⟨valid, iff_of_false none (by rintro ⟨⟨⟩, -⟩), silent_of_not_mem none⟩
  refine run.always_iff (stepOf_deterministic _) initially (fun state orderly => orderly.silent)
    ?_ ?_
  · intro state action next member orderly inTime taken
    exact (step_orderly build (sendsOnly action member) orderly taken).1 inTime
  · intro state action next member orderly taken silent
    exact (step_orderly build (sendsOnly action member) orderly taken).2 silent

/-- The send of another thread runs, and then the connection leaves. -/
def leaving : List (OutgoingAction Unit) :=
  [.send () .string [1, 2], .runTask () (.count 2), .disconnect (), .runTask () (.count 0)]

theorem silent_iff_inTime_leaving : ∃ s : Outgoing Unit,
    Run (StepOf (step .debug)) fresh leaving s ∧
      s.connection.wire = [.send [1, 2], .shutdown] ∧ SilentBehind s.connection.wire := by
  have done : ((exec (step .debug) fresh leaving).map fun s => s.connection.wire) =
      some [.send [1, 2], .shutdown] := by decide
  obtain ⟨s, executed, wire⟩ := Option.map_eq_some_iff.mp done
  refine ⟨s, run_of_exec executed, wire, ?_⟩
  exact (silent_iff_inTime .debug _ _ false idle_valid leaving (by decide) s
    (run_of_exec executed)).mpr (meets_of_checks (by decide)) _ List.prefix_rfl s
      (run_of_exec executed)

/-- The connection leaves, and then bytes are sent on the loop thread. -/
def lateSend : List (OutgoingAction Unit) :=
  [.disconnectOnLoop, .sendOnLoop .bytes [1] .failed]

/-- The send comes behind the shutdown. -/
theorem not_silent_late : ∃ s : Outgoing Unit,
    Run (StepOf (step .debug)) fresh lateSend s ∧
      s.connection.wire = [.shutdown, .send []] ∧ ¬ SilentBehind s.connection.wire := by
  have done : ((exec (step .debug) fresh lateSend).map fun s => s.connection.wire) =
      some [.shutdown, .send []] := by decide
  obtain ⟨s, executed, wire⟩ := Option.map_eq_some_iff.mp done
  refine ⟨s, run_of_exec executed, wire, fun silent => ?_⟩
  exact silent [] [.send []] wire [] (List.mem_singleton_self _)

end Outgoing

end TcpConnection

end YYNet
