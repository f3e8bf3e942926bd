/-
This file models the dispatch of one event mask to the callbacks of a
`TcpConnection` and proves when a closed connection stays inert.

`EventHandler::handler_revent` runs up to five callbacks for one mask, one
after another. `handleClose` takes the handler off the poller and marks the
connection as disconnected, but nothing stops the callbacks behind it in the
same dispatch, and nothing stops the continuation `handleETRead` queued before
the close. Either one touches the descriptor of a closed connection, or closes
it a second time.

The main theorem says that nothing else does: along every run of dispatches,
with any masks and any answers of the system calls, and of the tasks the
connection queued for itself, in which no dispatch has a reading, writing or
exception callback behind the one that closes and no continuation runs on a
closed connection, nothing in the log stands behind the first `handleClose` but
its own removal from the poller, in every state.
-/

import YYNet.Lib.Transition
import YYNet.Net.Event
import YYNet.Net.TcpConnection

namespace YYNet

open Checked Transition

namespace TcpConnection

/-! ### The input side -/

/-- What the services' message callback does to the connection, on the loop thread. -/
inductive ServiceCall
  | send (message : List UInt8) (result : SendResult)
  | disconnect
  | consume (size : Nat)
  deriving DecidableEq, Repr

/-- The answer of `readv`: the bytes, none at the end of the stream, with what the message
callback does if there are some; or one of the errors told apart. -/
inductive ReadResult
  | received (data : List UInt8) (services : List ServiceCall)
  | again
  | interrupted
  | failed
  deriving DecidableEq, Repr

/-- The answer of `recv` for out-of-band data. -/
inductive RecvResult
  | received (data : List UInt8)
  | interrupted
  | failed
  deriving DecidableEq, Repr

/-- A receive buffer member returned, or an exception left it. -/
def withRecvBuffer (s : TcpConnection) : Except Fault TcpBuffer → TcpConnection
  | .ok recvBuffer => { s with recvBuffer := recvBuffer }
  | .error fault => s.stop fault

def serviceCall (build : Build) (s : TcpConnection) : ServiceCall → TcpConnection
  | .send message result => s.sendInLoop build message result
  | .disconnect =>
    if s.sendBuffer.readableSize = 0 then s.disconnectInLoop build else s.startWriting build
  | .consume size => s.withRecvBuffer (s.recvBuffer.consume build size)

/-- `SmessageCallBack_`: the services reach the connection through its public members. -/
def messageCallBack (build : Build) (services : List ServiceCall) (s : TcpConnection) :
    TcpConnection :=
  services.foldl (fun s call => s.andThen fun s => s.serviceCall build call) s

/-- Bytes that `readv` put into the receive buffer, and the callback for them. -/
def deliver (build : Build) (data : List UInt8) (services : List ServiceCall)
    (s : TcpConnection) : TcpConnection :=
  (s.withRecvBuffer ((s.recvBuffer.appendFormFd build (some data)).map Prod.snd)).andThen
    (messageCallBack build services)

def handleClose (build : Build) (s : TcpConnection) : TcpConnection :=
  let entered := s.record .handleClose
  match assert build (s.connStatus = .connected ∨ s.connStatus = .disConnecting) with
  | .error fault => entered.stop fault
  | .ok _ =>
    match assert build (s.added = true) with
    | .error fault => entered.stop fault
    | .ok _ => { entered.record .removeListen with
        added := false
        connStatus := .disConnected
        delayed := s.delayed ++ [.destruct] }

/-- `handleRead`: one `readv`. The errors it singles out are handed to `handleError`. -/
def handleRead (build : Build) (result : ReadResult) (s : TcpConnection) : TcpConnection :=
  let read := s.record .readv
  match result with
  | .received [] _ => read.handleClose build
  | .received data services => read.deliver build data services
  | .again => read.handleError
  | .interrupted => read.handleError
  | .failed => read

/-- `MaxReadNum`. -/
def maxReadNum : Nat := 100

/-- The loop of `handleETRead`, with the answers of its `readv` calls in order; there is no
result while it waits for a further answer. -/
def readLoop (build : Build) (readNum : Nat) (s : TcpConnection) :
    List ReadResult → Option TcpConnection
  | [] =>
    if readNum < maxReadNum then none
    else some { s with delayed := s.delayed ++ [.continueRead] }
  | result :: rest =>
    if readNum < maxReadNum then
      let read := s.record .readv
      match result with
      | .received [] _ => some (read.handleClose build)
      | .received data services =>
        let delivered := read.deliver build data services
        if delivered.fault = none then readLoop build (readNum + 1) delivered rest
        else some delivered
      | .again => some read
      | .interrupted => readLoop build readNum read rest
      | .failed => some read.handleError
    else some { s with delayed := s.delayed ++ [.continueRead] }

def handleETRead (build : Build) (results : List ReadResult) (s : TcpConnection) :
    Option TcpConnection :=
  readLoop build 0 s results

/-- The read callback: which one it is was decided when the connection was made. -/
def readCallback (build : Build) (results : List ReadResult) (s : TcpConnection) :
    Option TcpConnection :=
  if s.isET then s.handleETRead build results
  else
    match results with
    | [] => none
    | result :: _ => some (s.handleRead build result)

/-- `handleException`: the bytes of `recv` land behind the write index and stay there. -/
def handleException (build : Build) (s : TcpConnection) : List RecvResult → Option TcpConnection
  | [] => none
  | result :: rest =>
    let received := s.record .recv
    match result with
    | .received [] => some (received.handleClose build)
    | .received data =>
      let stored := received.withRecvBuffer
        (s.recvBuffer.copyIn s.recvBuffer.writeIndex (data.take s.recvBuffer.writableSize))
      if stored.fault = none then handleException build stored rest else some stored
    | .interrupted => handleException build received rest
    | .failed => some received.handleError

/-! ### The dispatch -/

/-- The answers the callbacks of one dispatch get. -/
structure Answers where
  except : List RecvResult
  read : List ReadResult
  write : SendResult
  deriving DecidableEq, Repr

/-- Run a callback if its bits are set and the process is still there. -/
def callback (set : Bool) (run : TcpConnection → Option TcpConnection) (s : TcpConnection) :
    Option TcpConnection :=
  if set = true ∧ s.fault = none then run s else some s

/-- `EventHandler::handler_revent`. -/
def handlerRevent (build : Build) (revents : Event) (answers : Answers) (s : TcpConnection) :
    Option TcpConnection := do
  let s ← callback (revents.has .hup && !revents.has .read) (fun s => some (s.handleClose build)) s
  let s ← callback (revents.has .nval) (fun s => some s.handleError) s
  let s ← callback (revents.has .error) (fun s => some s.handleError) s
  let s ← callback (revents.has .except) (fun s => s.handleException build answers.except) s
  let s ← callback (revents.has .read || revents.has .rdHup)
    (fun s => s.readCallback build answers.read) s
  callback (revents.has .write) (fun s => some (s.handleWrite build answers.write)) s

/-- A dispatch of the poller, or the oldest task the connection queued for itself. -/
inductive DispatchAction
  | dispatch (revents : Event) (answers : Answers)
  | runDelayed (answers : List ReadResult)
  deriving DecidableEq, Repr

/-- One step. The poller reports only handlers that are added to it. -/
def dispatchStep (build : Build) (s : TcpConnection) : DispatchAction → Option TcpConnection
  | .dispatch revents answers =>
    if s.fault = none ∧ s.added = true then s.handlerRevent build revents answers else none
  | .runDelayed answers =>
    if s.fault = none then
      match s.delayed with
      | [] => none
      | .continueRead :: rest => { s with delayed := rest }.handleETRead build answers
      | .destruct :: rest => some { s with delayed := rest }
    else none

/-! ### What is promised, and when -/

/-- Behind the first `handleClose` stands nothing but its own removal from the poller. -/
def Inert (s : TcpConnection) : Prop :=
  ∀ before after, s.calls = before ++ .handleClose :: after → after <+: [.removeListen]

/-- The answers of `readv` that make `handleETRead` close, from a count of reads on. -/
def etReadCloses (readNum : Nat) : List ReadResult → Bool
  | [] => false
  | result :: rest =>
    if readNum < maxReadNum then
      match result with
      | .received [] _ => true
      | .received _ _ => etReadCloses (readNum + 1) rest
      | .interrupted => etReadCloses readNum rest
      | _ => false
    else false

/-- The answers that make the read callback close. -/
def readCloses (isET : Bool) (results : List ReadResult) : Bool :=
  if isET then etReadCloses 0 results
  else
    match results with
    | .received [] _ :: _ => true
    | _ => false

/-- The answers of `recv` that make `handleException` close. -/
def exceptCloses : List RecvResult → Bool
  | [] => false
  | .received [] :: _ => true
  | .received _ :: rest => exceptCloses rest
  | .interrupted :: rest => exceptCloses rest
  | .failed :: _ => false

/-- No callback that uses the descriptor stands behind the one that closes, and no continuation
runs on a closed connection. -/
def CloseIsLast (s : TcpConnection) : DispatchAction → Prop
  | .dispatch revents answers =>
    let reads := revents.has .read || revents.has .rdHup
    ((revents.has .hup && !revents.has .read) = true →
      revents.has .except = false ∧ reads = false ∧ revents.has .write = false) ∧
    (revents.has .except = true → exceptCloses answers.except = true →
      reads = false ∧ revents.has .write = false) ∧
    (reads = true → readCloses s.isET answers.read = true → revents.has .write = false)
  | .runDelayed _ => s.delayed.head? = some .continueRead → s.connStatus ≠ .disConnected

instance closeIsLastDecidable (s : TcpConnection) : (action : DispatchAction) →
    Decidable (CloseIsLast s action)
  | .dispatch _ _ => inferInstanceAs (Decidable ((_ → _ ∧ _ ∧ _) ∧ (_ → _ → _ ∧ _) ∧ (_ → _ → _)))
  | .runDelayed _ => inferInstanceAs (Decidable (_ → _))

/-! ### Members that do not close -/

/-- `handleClose` has not been entered. -/
def Open (s : TcpConnection) : Prop := .handleClose ∉ s.calls

section

variable (build : Build) (s : TcpConnection)

theorem open_record (call : Call) (other : call ≠ .handleClose) (isOpen : Open s) :
    Open (s.record call) := by
  rw [Open, record, List.mem_append, List.mem_singleton, not_or]
  exact ⟨isOpen, fun same => other same.symm⟩

theorem open_update (isOpen : Open s) : Open (s.update build) := by
  unfold update
  split
  · exact open_record _ _ (by decide) isOpen
  · exact isOpen

theorem open_startWriting (isOpen : Open s) : Open (s.startWriting build) := by
  unfold startWriting
  split
  · exact isOpen
  · exact open_update build _ isOpen

theorem open_stopWriting (isOpen : Open s) : Open (s.stopWriting build) := by
  unfold stopWriting
  split
  · exact open_update build _ isOpen
  · exact isOpen

theorem open_andThen (next : TcpConnection → TcpConnection) (isOpen : Open s)
    (keeps : Open s → Open (next s)) : Open (s.andThen next) := by
  unfold andThen
  split
  · exact keeps isOpen
  · exact isOpen

theorem open_withSendBuffer (result : Except Fault TcpBuffer) (isOpen : Open s) :
    Open (s.withSendBuffer result) := by
  cases result with
  | ok sendBuffer => exact isOpen
  | error fault => exact isOpen

theorem open_withRecvBuffer (result : Except Fault TcpBuffer) (isOpen : Open s) :
    Open (s.withRecvBuffer result) := by
  cases result with
  | ok recvBuffer => exact isOpen
  | error fault => exact isOpen

theorem open_sendInLoop (message : List UInt8) (result : SendResult) (isOpen : Open s) :
    Open (s.sendInLoop build message result) := by
  have sent := open_record s (.send (message.take result.taken)) (by simp) isOpen
  have buffered (rest : List UInt8) : Open (((s.record (.send (message.take
      result.taken))).appendSend build rest).andThen (startWriting build)) :=
    open_andThen _ _ (open_withSendBuffer _ _ sent) (open_startWriting build _)
  unfold sendInLoop
  cases result with
  | count n =>
    simp only
    split
    · exact buffered _
    · exact sent
  | again => exact buffered _
  | failed => exact sent

theorem open_handleWrite (result : SendResult) (isOpen : Open s) :
    Open (s.handleWrite build result) := by
  have sent := open_record s (.send (s.sendBuffer.readable.take result.taken)) (by simp) isOpen
  unfold handleWrite
  cases result with
  | count n =>
    simp only
    split
    · refine open_andThen _ _ ?_ (open_withSendBuffer _ _)
      split
      · refine open_stopWriting build _ ?_
        split
        · exact open_record _ _ (by decide) sent
        · exact sent
      · exact sent
    · exact sent
  | again => exact sent
  | failed => exact sent

theorem open_disconnectInLoop (isOpen : Open s) : Open (s.disconnectInLoop build) := by
  unfold disconnectInLoop
  split
  · simp only
    split
    · exact open_record _ _ (by decide) isOpen
    · exact open_startWriting build _ isOpen
  · exact isOpen

theorem open_serviceCall (call : ServiceCall) (isOpen : Open s) :
    Open (s.serviceCall build call) := by
  cases call with
  | send message result => exact open_sendInLoop build s message result isOpen
  | disconnect =>
    simp only [serviceCall]
    split
    · exact open_disconnectInLoop build s isOpen
    · exact open_startWriting build s isOpen
  | consume size => exact open_withRecvBuffer s _ isOpen

theorem open_messageCallBack (services : List ServiceCall) (isOpen : Open s) :
    Open (s.messageCallBack build services) := by
  unfold messageCallBack
  induction services generalizing s with
  | nil => exact isOpen
  | cons call rest inductionHypothesis =>
    exact inductionHypothesis _ (open_andThen _ _ isOpen (open_serviceCall build s call))

theorem open_deliver (data : List UInt8) (services : List ServiceCall) (isOpen : Open s) :
    Open (s.deliver build data services) :=
  open_andThen _ _ (open_withRecvBuffer _ _ isOpen) (open_messageCallBack build _ services)

end

/-! ### Closing -/

/-- `handleClose` has run, once, and nothing behind it. -/
structure Closed (s : TcpConnection) : Prop where
  status : s.connStatus = .disConnected
  removed : s.added = false
  inert : Inert s

/-- The invariant: open, closed and inert, or inert with the process gone. -/
def Kept (s : TcpConnection) : Prop := Open s ∨ Closed s ∨ (s.fault ≠ none ∧ Inert s)

theorem inert_of_open (s : TcpConnection) (isOpen : Open s) : Inert s := by
  intro before after split
  refine absurd ?_ isOpen
  rw [split]
  simp

theorem Kept.inert (s : TcpConnection) (kept : Kept s) : Inert s := by
  rcases kept with isOpen | closed | gone
  · exact inert_of_open s isOpen
  · exact closed.inert
  · exact gone.2

/-- The first `handleClose` in a log, with `after` behind it, is the only one. -/
theorem inert_of_calls (s : TcpConnection) (calls after : List Call) (fresh : .handleClose ∉ calls)
    (own : after <+: [.removeListen]) (log : s.calls = calls ++ .handleClose :: after) :
    Inert s := by
  intro before behind split
  rw [log] at split
  have absent : .handleClose ∉ after := fun member => by simpa using own.subset member
  obtain ⟨-, -, same⟩ := (List.append_cons_inj_of_notMem fresh absent).mp split
  rw [← same]
  exact own

theorem kept_handleClose (build : Build) (s : TcpConnection) (isOpen : Open s) :
    Kept (s.handleClose build) := by
  unfold handleClose
  simp only
  split
  · exact .inr (.inr ⟨by simp [stop], inert_of_calls _ s.calls [] isOpen (by simp) rfl⟩)
  · split
    · exact .inr (.inr ⟨by simp [stop], inert_of_calls _ s.calls [] isOpen (by simp) rfl⟩)
    · refine .inr (.inl ⟨rfl, rfl, inert_of_calls _ s.calls [.removeListen] isOpen
        List.prefix_rfl ?_⟩)
      simp [record]

/-! ### The callbacks -/

section

variable (build : Build)

/-- The loop of `handleETRead` closes only when an answer says so. -/
theorem readLoop_kept (results : List ReadResult) (readNum : Nat) (s t : TcpConnection)
    (isOpen : Open s) (returned : readLoop build readNum s results = some t) :
    Kept t ∧ (etReadCloses readNum results = false → Open t) := by
  induction results generalizing readNum s with
  | nil =>
    rw [readLoop] at returned
    split at returned
    · cases returned
    · obtain rfl := Option.some.inj returned
      exact ⟨.inl isOpen, fun _ => isOpen⟩
  | cons result rest inductionHypothesis =>
    have read := open_record s .readv (by decide) isOpen
    by_cases more : readNum < maxReadNum
    · cases result with
      | received data services =>
        cases data with
        | nil =>
          simp only [readLoop, if_pos more, Option.some.injEq] at returned
          simp only [etReadCloses, if_pos more]
          subst returned
          exact ⟨kept_handleClose build _ read, nofun⟩
        | cons first others =>
          simp only [readLoop, if_pos more] at returned
          simp only [etReadCloses, if_pos more]
          have delivered := open_deliver build _ (first :: others) services read
          split at returned
          · exact inductionHypothesis (readNum + 1) _ delivered returned
          · obtain rfl := Option.some.inj returned
            exact ⟨.inl delivered, fun _ => delivered⟩
      | interrupted =>
        simp only [readLoop, if_pos more] at returned
        simp only [etReadCloses, if_pos more]
        exact inductionHypothesis readNum _ read returned
      | again | failed =>
        simp only [readLoop, if_pos more, Option.some.injEq, handleError] at returned
        subst returned
        exact ⟨.inl read, fun _ => read⟩
    · rw [readLoop, if_neg more] at returned
      obtain rfl := Option.some.inj returned
      exact ⟨.inl isOpen, fun _ => isOpen⟩

/-- The read callback closes only when an answer says so. -/
theorem readCallback_kept (results : List ReadResult) (s t : TcpConnection) (isOpen : Open s)
    (returned : s.readCallback build results = some t) :
    Kept t ∧ (readCloses s.isET results = false → Open t) := by
  unfold readCallback at returned
  unfold readCloses
  split at returned
  · rename_i edge
    rw [if_pos edge]
    exact readLoop_kept build results 0 s t isOpen returned
  · rename_i level
    rw [if_neg level]
    have read := open_record s .readv (by decide) isOpen
    split at returned
    · cases returned
    · rename_i result rest
      obtain rfl := Option.some.inj returned
      cases result with
      | received data services =>
        cases data with
        | nil => exact ⟨kept_handleClose build _ read, nofun⟩
        | cons first others =>
          have delivered := open_deliver build _ (first :: others) services read
          exact ⟨.inl delivered, fun _ => delivered⟩
      | again | interrupted | failed => exact ⟨.inl read, fun _ => read⟩

theorem withRecvBuffer_isET (s : TcpConnection) (result : Except Fault TcpBuffer) :
    (s.withRecvBuffer result).isET = s.isET := by
  cases result with
  | ok recvBuffer => rfl
  | error fault => rfl

/-- `handleException` closes only when an answer says so, and keeps the trigger mode
otherwise. -/
theorem handleException_kept (results : List RecvResult) (s t : TcpConnection) (isOpen : Open s)
    (returned : s.handleException build results = some t) :
    Kept t ∧ (exceptCloses results = false → Open t ∧ t.isET = s.isET) := by
  induction results generalizing s with
  | nil => cases returned
  | cons result rest inductionHypothesis =>
    have received := open_record s .recv (by decide) isOpen
    cases result with
    | received data =>
      cases data with
      | nil =>
        simp only [handleException, Option.some.injEq] at returned
        subst returned
        exact ⟨kept_handleClose build _ received, nofun⟩
      | cons first others =>
        simp only [handleException] at returned
        have stored := open_withRecvBuffer _ (s.recvBuffer.copyIn s.recvBuffer.writeIndex
          ((first :: others).take s.recvBuffer.writableSize)) received
        have mode := withRecvBuffer_isET (s.record .recv) (s.recvBuffer.copyIn
          s.recvBuffer.writeIndex ((first :: others).take s.recvBuffer.writableSize))
        split at returned
        · have later := inductionHypothesis _ stored returned
          rw [mode] at later
          exact later
        · obtain rfl := Option.some.inj returned
          exact ⟨.inl stored, fun _ => ⟨stored, mode⟩⟩
    | interrupted =>
      simp only [handleException] at returned
      exact inductionHypothesis (s.record .recv) received returned
    | failed =>
      simp only [handleException, handleError, Option.some.injEq] at returned
      subst returned
      exact ⟨.inl received, fun _ => ⟨received, rfl⟩⟩

/-- A callback whose bits are not set does nothing. -/
theorem callback_unset (set : Bool) (run : TcpConnection → Option TcpConnection)
    (s : TcpConnection) (unset : set = false) : callback set run s = some s := by
  rw [callback, if_neg (by simp [unset])]

/-- The error callback leaves the connection as it is. -/
theorem callback_handleError (set : Bool) (s : TcpConnection) :
    callback set (fun s => some s.handleError) s = some s := by
  unfold callback handleError
  split <;> rfl

/-- A callback on an open connection: it closes only when its answers say so. -/
theorem callback_kept (set closes : Bool) (run : TcpConnection → Option TcpConnection)
    (s t : TcpConnection) (isOpen : Open s)
    (spec : ∀ next, run s = some next →
      Kept next ∧ (closes = false → Open next ∧ next.isET = s.isET))
    (returned : callback set run s = some t) :
    Kept t ∧ ((set = true → closes = true → False) → Open t ∧ t.isET = s.isET) := by
  unfold callback at returned
  split at returned
  · rename_i runs
    obtain ⟨kept, stays⟩ := spec t returned
    exact ⟨kept, fun never => stays (Bool.eq_false_iff.mpr (never runs.1))⟩
  · obtain rfl := Option.some.inj returned
    exact ⟨.inl isOpen, fun _ => ⟨isOpen, rfl⟩⟩

/-- A dispatch to an open connection in which nothing stands behind the closing callback. -/
theorem handlerRevent_kept (s t : TcpConnection) (revents : Event) (answers : Answers)
    (isOpen : Open s) (last : CloseIsLast s (.dispatch revents answers))
    (returned : s.handlerRevent build revents answers = some t) : Kept t := by
  obtain ⟨hupLast, exceptLast, readLast⟩ := last
  unfold handlerRevent at returned
  simp only [callback_handleError, Option.bind_eq_bind, Option.bind_some] at returned
  obtain ⟨first, hup, returned⟩ := Option.bind_eq_some_iff.mp returned
  by_cases hupCloses : (revents.has .hup && !revents.has .read) = true
  · -- the close callback runs, and no other one does
    obtain ⟨noExcept, noRead, noWrite⟩ := hupLast hupCloses
    simp only [callback_unset _ _ _ noExcept, callback_unset _ _ _ noRead,
      callback_unset _ _ _ noWrite, Option.bind_some, Option.some.injEq] at returned
    subst returned
    refine (callback_kept _ true _ s first isOpen (fun next same => ?_) hup).1
    obtain rfl := Option.some.inj same
    exact ⟨kept_handleClose build s isOpen, nofun⟩
  · rw [callback_unset _ _ _ (Bool.eq_false_iff.mpr hupCloses)] at hup
    obtain rfl := Option.some.inj hup
    obtain ⟨second, except, returned⟩ := Option.bind_eq_some_iff.mp returned
    obtain ⟨exceptKept, exceptOpen⟩ := callback_kept _ (exceptCloses answers.except) _ s second
      isOpen (handleException_kept build answers.except s · isOpen) except
    by_cases exceptEnds : revents.has .except = true ∧ exceptCloses answers.except = true
    · obtain ⟨noRead, noWrite⟩ := exceptLast exceptEnds.1 exceptEnds.2
      simp only [callback_unset _ _ _ noRead, callback_unset _ _ _ noWrite, Option.bind_some,
        Option.some.injEq] at returned
      subst returned
      exact exceptKept
    · obtain ⟨secondOpen, mode⟩ := exceptOpen fun set closes => exceptEnds ⟨set, closes⟩
      obtain ⟨third, read, returned⟩ := Option.bind_eq_some_iff.mp returned
      by_cases readEnds : (revents.has .read || revents.has .rdHup) = true ∧
          readCloses s.isET answers.read = true
      · have noWrite := readLast readEnds.1 readEnds.2
        simp only [callback_unset _ _ _ noWrite, Option.some.injEq] at returned
        subst returned
        unfold callback at read
        split at read
        · exact (readCallback_kept build answers.read second third secondOpen read).1
        · obtain rfl := Option.some.inj read
          exact exceptKept
      · have thirdOpen : Open third := by
          unfold callback at read
          split at read
          · rename_i runs
            refine (readCallback_kept build answers.read second third secondOpen read).2 ?_
            rw [mode]
            exact Bool.eq_false_iff.mpr fun closes => readEnds ⟨runs.1, closes⟩
          · obtain rfl := Option.some.inj read
            exact secondOpen
        unfold callback at returned
        split at returned
        · obtain rfl := Option.some.inj returned
          exact .inl (open_handleWrite build third answers.write thirdOpen)
        · obtain rfl := Option.some.inj returned
          exact .inl thirdOpen

/-- A step whose close is last keeps the invariant. -/
theorem dispatchStep_kept (s t : TcpConnection) (action : DispatchAction) (kept : Kept s)
    (last : CloseIsLast s action) (taken : s.dispatchStep build action = some t) : Kept t := by
  cases action with
  | dispatch revents answers =>
    simp only [dispatchStep] at taken
    split at taken
    · rename_i enabled
      rcases kept with isOpen | closed | gone
      · exact handlerRevent_kept build s t revents answers isOpen last taken
      · exact absurd enabled.2 (by rw [closed.removed]; decide)
      · exact absurd enabled.1 gone.1
    · cases taken
  | runDelayed answers =>
    simp only [dispatchStep] at taken
    split at taken
    · rename_i alive
      split at taken
      · cases taken
      · rename_i rest shape
        rcases kept with isOpen | closed | gone
        · exact (readLoop_kept build answers 0 { s with delayed := rest } t isOpen taken).1
        · exact absurd closed.status (last (by rw [shape]; rfl))
        · exact absurd alive gone.1
      · rename_i rest shape
        obtain rfl := Option.some.inj taken
        rcases kept with isOpen | closed | gone
        · exact .inl isOpen
        · exact .inr (.inl ⟨closed.status, closed.removed, closed.inert⟩)
        · exact .inr (.inr gone)
    · cases taken

/-- Along every run of dispatches and own tasks in which the close is always last, the
connection is closed at most once and inert afterwards, in every state. -/
theorem inert_of_closeIsLast (start : TcpConnection) (isOpen : Open start)
    (actions : List DispatchAction)
    (last : Meets (StepOf (dispatchStep build)) CloseIsLast start actions)
    (before : List DispatchAction) (earlier : before <+: actions) (s : TcpConnection)
    (run : Run (StepOf (dispatchStep build)) start before s) : Inert s := by
  obtain ⟨after, rfl⟩ := earlier
  have kept : Kept s := run.invariant (.inl isOpen)
    (fun state action next => dispatchStep_kept build state next action) (last.of_append _ _)
  exact kept.inert s

end

theorem idle_open : Open idle := List.not_mem_nil

/-- Bytes arrive and are answered, but the socket has no room; then it is writable; then the peer
is gone, which the reading callback finds out; and then the own task runs. -/
def servedThenClosed : List DispatchAction :=
  [.dispatch ⟨0x1#32⟩ ⟨[], [.received [1, 2] [.send [9] .again, .consume 1]], .again⟩,
    .dispatch ⟨0x4#32⟩ ⟨[], [], .count 1⟩, .dispatch ⟨0x11#32⟩ ⟨[], [.received [] []], .again⟩,
    .runDelayed []]

theorem inert_of_closeIsLast_served :
    ∃ s, Run (StepOf (dispatchStep .debug)) idle servedThenClosed s ∧
      s.calls = [.readv, .send [], .updateListen, .send [9], .updateListen, .readv, .handleClose,
        .removeListen] ∧ s.connStatus = .disConnected ∧ Inert s := by
  have done : ((exec (dispatchStep .debug) idle servedThenClosed).map fun s =>
      (s.calls, s.connStatus)) = some ([.readv, .send [], .updateListen, .send [9], .updateListen,
        .readv, .handleClose, .removeListen], .disConnected) := by
    decide +kernel
  have last : checks (dispatchStep .debug) CloseIsLast idle servedThenClosed = true := by
    decide +kernel
  obtain ⟨s, executed, same⟩ := Option.map_eq_some_iff.mp done
  obtain ⟨calls, status⟩ := Prod.mk.inj same
  refine ⟨s, run_of_exec executed, calls, status, ?_⟩
  exact inert_of_closeIsLast .debug idle idle_open servedThenClosed (meets_of_checks last) _
    List.prefix_rfl s (run_of_exec executed)

/-- The peer is gone, and the socket is reported writable as well. -/
def hupAndWrite : DispatchAction := .dispatch ⟨0x14#32⟩ ⟨[], [], .count 0⟩

/-- The connection is closed, and then written to in the same dispatch. -/
theorem inert_fails :
    Open idle ∧ ∃ final, Run (StepOf (dispatchStep .debug)) idle [hupAndWrite] final ∧
      ¬ Inert final := by
  have done : ((exec (dispatchStep .debug) idle [hupAndWrite]).map TcpConnection.calls) =
      some [.handleClose, .removeListen, .send []] := by
    decide
  obtain ⟨final, executed, calls⟩ := Option.map_eq_some_iff.mp done
  refine ⟨idle_open, final, run_of_exec executed, fun inert => ?_⟩
  have behind := inert [] [.removeListen, .send []] calls
  revert behind
  decide

end TcpConnection

end YYNet
