/-
This file proves what one failed attempt to connect leads to.

An attempt fails in `connectInLoop`, by the error of `::connect`, or later in the
handler of a connector that is connecting. Every failure but one kind goes
through `retry`, which leaves a timer behind when retries are enabled. The
errors that the switch does not name go to the failure callback of the connector
instead. That callback is `removeConnection`, which connects again at once when
retries are enabled, inside the same call.

The callback that a user sets for failed connects is read by `connectFail` only,
and nothing calls that.
-/

import YYNet.Net.TcpClient

namespace YYNet

/-! ### Attempts that fail -/

/-- The answers that `connectInLoop` takes for a connect that succeeded or is under way. -/
def ConnectErrno.begins : ConnectErrno → Bool
  | .ok | .inProgress | .intr | .isConn => true
  | _ => false

/-- Where an attempt fails: in `connectInLoop`, in `handleWrite` or in `handleError`. -/
inductive ConnectFailure
  | connect (attempt : Attempt)
  | write (writable : Writable)
  | error
  deriving DecidableEq, Repr

/-- The `::connect` of the attempt itself, where it is part of the call. -/
def ConnectFailure.connects : ConnectFailure → Nat
  | .connect _ => 1
  | .write _ => 0
  | .error => 0

/-- The number of times that `::connect` was called. -/
def connectsIn (log : List ClientEvent) : Nat :=
  log.countP fun event => match event with
    | .connect _ => true
    | _ => false

/-- The number of times that the connect-failure callback was called. -/
def connectFailsIn (log : List ClientEvent) : Nat := log.count .connectFail

namespace TcpClient

variable {Thread : Type}

/-- The attempt fails in this state. -/
def Failing (client : TcpClient Thread) : ConnectFailure → Prop
  | .connect attempt => client.state = .kDisconnected ∧ attempt.errno.begins = false
  | .write writable => client.state = .kConnecting ∧ writable ≠ .ready
  | .error => client.state = .kConnecting

/-- The call in which the attempt fails, with the answers to attempts that follow in the same
call. -/
def fail (later : List Attempt) (client : TcpClient Thread) :
    ConnectFailure → Option (TcpClient Thread)
  | .connect attempt => connectInLoop (attempt :: later) client
  | .write writable => handleWrite later writable client
  | .error => handleError later client

/-- A failed attempt is handled: whatever the system would answer to more attempts, the call
returns without making one, and leaves one timer behind or calls the callback once. -/
def Handles (client : TcpClient Thread) (failure : ConnectFailure) : Prop :=
  ∀ later, ∃ next, fail later client failure = some next ∧
    connectsIn next.log = connectsIn client.log + failure.connects ∧
    if client.retryFlag then next.timers = client.timers ++ [client.retryDelayMs]
    else next.timers = client.timers ∧ connectFailsIn next.log =
      connectFailsIn client.log + if client.connectFailCallback then 1 else 0

/-- The exact condition: with retries, an error that the switch names; without, no callback. -/
def Manageable (client : TcpClient Thread) (failure : ConnectFailure) : Prop :=
  if client.retryFlag then ∀ attempt, failure = .connect attempt → attempt.errno ≠ .other
  else client.connectFailCallback = false

/-! ### What a failure leaves behind -/

/-- A call leaves new timers behind and has called `::connect` that many times and the callback
never. -/
structure Leaves (client next : TcpClient Thread) (connects : Nat) (timers : List Nat) : Prop where
  timers : next.timers = client.timers ++ timers
  connects : connectsIn next.log = connectsIn client.log + connects
  connectFails : connectFailsIn next.log = connectFailsIn client.log

theorem Leaves.refl (client : TcpClient Thread) : Leaves client client 0 [] :=
  ⟨(List.append_nil _).symm, rfl, rfl⟩

theorem Leaves.trans {client middle next : TcpClient Thread} {first second : Nat}
    {timers more : List Nat} (before : Leaves client middle first timers)
    (after : Leaves middle next second more) :
    Leaves client next (first + second) (timers ++ more) where
  timers := by rw [after.timers, before.timers, List.append_assoc]
  connects := by rw [after.connects, before.connects, Nat.add_assoc]
  connectFails := after.connectFails.trans before.connectFails

/-- The timers to come of a failed attempt. -/
def retryTimers (client : TcpClient Thread) : List Nat :=
  if client.retryFlag then [client.retryDelayMs] else []

theorem closeFd_leaves (client : TcpClient Thread) : Leaves client client.closeFd 0 [] := by
  unfold closeFd
  split
  · refine ⟨(List.append_nil _).symm, ?_, ?_⟩
    · simp [record, connectsIn]
    · simp [record, connectFailsIn, List.count_append]
  · exact Leaves.refl client

theorem closeFd_retryFlag (client : TcpClient Thread) :
    client.closeFd.retryFlag = client.retryFlag := by
  unfold closeFd
  split <;> rfl

theorem closeFd_retryTimers (client : TcpClient Thread) :
    client.closeFd.retryTimers = client.retryTimers := by
  unfold closeFd
  split <;> rfl

theorem openFd_leaves (client : TcpClient Thread) (descriptor : Nat) :
    Leaves client (client.openFd descriptor) 1 [] where
  timers := (List.append_nil _).symm
  connects := by simp [openFd, record, connectsIn]
  connectFails := by
    simp [openFd, record, connectFailsIn, List.count_append]

/-- Without retries `removeConnection` only forgets the connection. -/
theorem removeConnection_leaves
    (connectInLoop : TcpClient Thread → Option (TcpClient Thread)) (client : TcpClient Thread)
    (once : client.retryFlag = false) :
    ∃ next, removeConnection connectInLoop client = some next ∧ Leaves client next 0 [] := by
  refine ⟨{ client with connection := none }, ?_, (List.append_nil _).symm, rfl, rfl⟩
  rw [removeConnection, if_neg (by simp [once])]

/-- `retry` leaves one timer behind when retries are enabled, and nothing otherwise. It never
connects by itself. -/
theorem retry_leaves (connectInLoop : TcpClient Thread → Option (TcpClient Thread))
    (client : TcpClient Thread) :
    ∃ next, retry connectInLoop client = some next ∧ Leaves client next 0 client.retryTimers := by
  have closes : ∃ closed : TcpClient Thread,
      (if client.hasPositiveFd then client.closeFd else client) = closed ∧
        Leaves client closed 0 [] ∧ closed.retryTimers = client.retryTimers := by
    split
    · exact ⟨_, rfl, closeFd_leaves client, closeFd_retryTimers client⟩
    · exact ⟨_, rfl, Leaves.refl client, rfl⟩
  obtain ⟨closed, isClosed, leaves, sameTimers⟩ := closes
  unfold retry
  simp only [isClosed]
  rw [← sameTimers]
  by_cases retries : closed.retryFlag = true
  · refine ⟨_, if_pos retries, ⟨?_, leaves.connects, leaves.connectFails⟩⟩
    rw [retryTimers, if_pos retries]
    exact congrArg (· ++ _) (leaves.timers.trans (List.append_nil _))
  · rw [if_neg retries, retryTimers, if_neg retries]
    obtain ⟨next, removed, quiet⟩ := removeConnection_leaves connectInLoop
      { closed with state := .kDisconnected } (Bool.eq_false_iff.mpr retries)
    exact ⟨next, removed, leaves.trans ⟨quiet.timers, quiet.connects, quiet.connectFails⟩⟩

/-- With retries, an error that the switch does not name begins the next attempt at once. -/
theorem connectInLoop_other (client : TcpClient Thread) (attempt : Attempt)
    (later : List Attempt) (unnamed : attempt.errno = .other) (retries : client.retryFlag = true) :
    ∃ again : TcpClient Thread, again.retryFlag = true ∧
      connectInLoop (attempt :: later) client = connectInLoop later again := by
  have flag : (client.openFd attempt.descriptor).closeFd.retryFlag = true :=
    (closeFd_retryFlag _).trans retries
  let again : TcpClient Thread :=
    { (client.openFd attempt.descriptor).closeFd with
      connection := none
      state := .kDisconnected
      retryDelayMs := kInitRetryDelayMs }
  refine ⟨again, flag, ?_⟩
  rw [connectInLoop, unnamed]
  simp only
  rw [removeConnection, if_pos flag, restart, startInLoop, if_neg (by simp)]

/-- While every attempt fails so, `connectInLoop` does not return. -/
theorem connectInLoop_never_returns (attempts : List Attempt) (client : TcpClient Thread)
    (unnamed : ∀ attempt ∈ attempts, attempt.errno = .other) (retries : client.retryFlag = true) :
    connectInLoop attempts client = none := by
  induction attempts generalizing client with
  | nil => rfl
  | cons attempt later inductionHypothesis =>
    obtain ⟨first, rest⟩ := List.forall_mem_cons.mp unnamed
    obtain ⟨again, stillRetries, same⟩ := connectInLoop_other client attempt later first retries
    rw [same]
    exact inductionHypothesis again rest stillRetries

/-- Every other failure returns, whatever the system would answer next. -/
theorem fail_leaves {client : TcpClient Thread} {failure : ConnectFailure}
    (failing : client.Failing failure)
    (named : client.retryFlag = true → ∀ attempt, failure = .connect attempt →
      attempt.errno ≠ .other) (later : List Attempt) :
    ∃ next, fail later client failure = some next ∧
      Leaves client next failure.connects client.retryTimers := by
  cases failure with
  | write writable =>
    rw [fail]
    unfold handleWrite
    rw [if_pos failing.1]
    cases writable with
    | failed | selfConnect => exact retry_leaves _ client
    | ready => exact absurd rfl failing.2
  | error =>
    rw [fail, handleError, if_pos (show client.state = .kConnecting from failing)]
    exact retry_leaves _ client
  | connect attempt =>
    have opened := openFd_leaves client attempt.descriptor
    have sameTimers : (client.openFd attempt.descriptor).retryTimers = client.retryTimers := rfl
    have sameFlag : (client.openFd attempt.descriptor).retryFlag = client.retryFlag := rfl
    rw [fail, connectInLoop]
    generalize client.openFd attempt.descriptor = fresh at *
    cases errno : attempt.errno with
    | ok | inProgress | intr | isConn =>
      have begins := failing.2
      rw [errno] at begins
      cases begins
    | again | addrInUse | addrNotAvail | connRefused | netUnreach =>
      obtain ⟨next, retried, leaves⟩ := retry_leaves (connectInLoop later) fresh
      rw [sameTimers] at leaves
      exact ⟨next, retried, opened.trans leaves⟩
    | other =>
      have once : client.retryFlag = false :=
        Bool.eq_false_iff.mpr fun retries => named retries attempt rfl errno
      obtain ⟨next, removed, leaves⟩ := removeConnection_leaves (connectInLoop later)
        fresh.closeFd (by rw [closeFd_retryFlag, sameFlag, once])
      rw [retryTimers, if_neg (by simp [once])]
      exact ⟨next, removed, (opened.trans (closeFd_leaves fresh)).trans leaves⟩

/-! ### When a failed attempt is handled -/

/-- A failed attempt is handled when retries are enabled and the error is named by the switch, or
when retries are disabled and no callback is set, and in no other case. -/
theorem handles_iff (client : TcpClient Thread) (failure : ConnectFailure)
    (failing : client.Failing failure) :
    client.Handles failure ↔ client.Manageable failure := by
  unfold Handles Manageable
  by_cases retries : client.retryFlag = true
  · simp only [if_pos retries]
    constructor
    · intro handles attempt isConnect unnamed
      obtain ⟨next, returned, -⟩ := handles []
      obtain ⟨again, -, same⟩ := connectInLoop_other client attempt [] unnamed retries
      rw [isConnect, fail, same] at returned
      cases returned
    · intro named later
      obtain ⟨next, returned, leaves⟩ := fail_leaves failing (fun _ => named) later
      have timers := leaves.timers
      rw [retryTimers, if_pos retries] at timers
      exact ⟨next, returned, leaves.connects, timers⟩
  · simp only [if_neg retries]
    have outcome := fail_leaves failing fun enabled => absurd enabled retries
    simp only [retryTimers, if_neg retries] at outcome
    constructor
    · intro handles
      obtain ⟨next, returned, -, -, called⟩ := handles []
      obtain ⟨other, alsoReturned, leaves⟩ := outcome []
      obtain rfl := Option.some.inj (returned.symm.trans alsoReturned)
      rw [leaves.connectFails] at called
      by_contra isSet
      rw [if_pos (Bool.eq_true_of_not_eq_false isSet)] at called
      omega
    · intro unset later
      obtain ⟨next, returned, leaves⟩ := outcome later
      refine ⟨next, returned, leaves.connects, leaves.timers.trans (List.append_nil _), ?_⟩
      rw [leaves.connectFails, unset]
      rfl

/-- A refused connect of a client that retries. -/
theorem handles_iff_refused :
    Handles { (initial : TcpClient Bool) with retryFlag := true }
      (.connect ⟨3, .connRefused⟩) :=
  (handles_iff _ (.connect ⟨3, .connRefused⟩) ⟨rfl, rfl⟩).mpr fun _ isConnect unnamed => by
    cases isConnect
    cases unnamed

/-- A client that retries connects again at once after an error that the switch does not name, and
never returns if each attempt fails so. A client that does not retry drops its callback. -/
theorem not_handles :
    (fail [⟨3, .inProgress⟩] { (initial : TcpClient Bool) with retryFlag := true }
        (.connect ⟨3, .other⟩)).map (fun next => (connectsIn next.log, next.timers)) =
      some (2, []) ∧
    ¬ Handles { (initial : TcpClient Bool) with retryFlag := true } (.connect ⟨3, .other⟩) ∧
    ¬ Handles { (initial : TcpClient Bool) with connectFailCallback := true }
      (.connect ⟨3, .connRefused⟩) := by
  refine ⟨by decide, fun handles => ?_, fun handles => ?_⟩
  · obtain ⟨next, returned, -⟩ := handles []
    cases returned
  · obtain ⟨next, returned, -, -, called⟩ := handles []
    obtain rfl := Option.some.inj returned
    revert called
    decide

end TcpClient

end YYNet
