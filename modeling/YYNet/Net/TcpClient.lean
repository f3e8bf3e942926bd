/-
This file models the client side of a connection: `TcpClient` and its
`Connector`, with the retries, and proves when a stop is final.

The `Connector` is disconnected, connecting or connected. While it connects it
owns a socket; a connect that fails closes the socket and, if `retry_` is set,
leaves a timer behind that nobody can cancel. A client that is asked to stop
clears `retry_` and queues `stopInLoop`, which only looks at a `Connector` that
is connecting: it forgets the socket without closing it, and it knows nothing
of the timers.

The log keeps what the client did with its sockets. Two facts about it carry
the proof: every socket is open, closed once or handed over, and nothing is
connected or handed over while the client is stopped.
-/

import YYNet.Lib.ProducerQueue
import YYNet.Lib.Transition

namespace YYNet

open Transition ProducerQueue

/-! ### The client -/

/-- A socket. Descriptors are used again after a close, so each socket has a serial number. -/
structure Socket where
  serial : Nat
  descriptor : Nat
  deriving DecidableEq, Repr

/-- `Connector::State`. -/
inductive ConnectorState
  | kDisconnected
  | kConnecting
  | kConnected
  deriving DecidableEq, Repr

/-- `savedErrno`, with the values that the switch names. -/
inductive ConnectErrno
  | ok
  | inProgress
  | intr
  | isConn
  | again
  | addrInUse
  | addrNotAvail
  | connRefused
  | netUnreach
  | other
  deriving DecidableEq, Repr

/-- What the system answers to one `connectInLoop`: the descriptor of the new socket and the error
of `::connect`. -/
structure Attempt where
  descriptor : Nat
  errno : ConnectErrno
  deriving DecidableEq, Repr

/-- What `handleWrite` finds: an error of the socket, a socket connected to itself, or neither. -/
inductive Writable
  | failed
  | selfConnect
  | ready
  deriving DecidableEq, Repr

/-- The tasks that the client queues on its loop. -/
inductive ClientTask
  | start
  | stop
  deriving DecidableEq, Repr

/-- What the log keeps. -/
inductive ClientEvent
  | connectCalled
  | stopped
  | created (socket : Socket)
  | connect (socket : Socket)
  | close (socket : Socket)
  | newConnection (socket : Socket)
  | connectFail
  deriving DecidableEq, Repr

/-- `TcpClient` and its `Connector`. -/
structure TcpClient (Thread : Type) where
  /-- `fd_`, with `none` for -1. -/
  fd : Option Socket
  state : ConnectorState
  retryDelayMs : Nat
  /-- `retry_`. -/
  retryFlag : Bool
  /-- `SconnectFailCallback_` is set. -/
  connectFailCallback : Bool
  /-- `connection_`, by its socket. -/
  connection : Option Socket
  /-- The connections whose destructor callback has not run. -/
  live : List Socket
  /-- The delays of the timers that have not fired. -/
  timers : List Nat
  queue : List (Thread × ClientTask)
  /-- How many sockets were created. -/
  sockets : Nat
  log : List ClientEvent
  deriving DecidableEq

/-- One step of some thread, with the answers of the system. -/
inductive ClientAction (Thread : Type)
  | connect (thread : Thread) (attempts : List Attempt)
  | stop (thread : Thread)
  | enableRetry
  | disableRetry
  | setConnectFailCallback
  /-- The loop runs the oldest task of one producer. -/
  | runTask (producer : Thread) (attempts : List Attempt)
  /-- A timer of `retry` fires. -/
  | timer (delay : Nat) (attempts : List Attempt)
  | handleWrite (writable : Writable) (attempts : List Attempt)
  | handleError (attempts : List Attempt)
  /-- The destructor callback of a connection. -/
  | destruct (socket : Socket) (attempts : List Attempt)
  deriving DecidableEq, Repr

namespace TcpClient

def kInitRetryDelayMs : Nat := 500

def kMaxRetryDelayMs : Nat := 30 * 1000

variable {Thread : Type}

def initial : TcpClient Thread where
  fd := none
  state := .kDisconnected
  retryDelayMs := kInitRetryDelayMs
  retryFlag := false
  connectFailCallback := false
  connection := none
  live := []
  timers := []
  queue := []
  sockets := 0
  log := []

/-- The client with one more entry in its log. -/
def record (client : TcpClient Thread) (event : ClientEvent) : TcpClient Thread :=
  { client with log := client.log ++ [event] }

/-- `sockets::close(fd_)` and `fd_ = -1`. -/
def closeFd (client : TcpClient Thread) : TcpClient Thread :=
  match client.fd with
  | some socket => { client.record (.close socket) with fd := none }
  | none => client

/-- `fd_ > 0`. -/
def hasPositiveFd (client : TcpClient Thread) : Bool :=
  match client.fd with
  | some socket => 0 < socket.descriptor
  | none => false

/-- `createTcpSocketOrDie` and `sockets::connect`. -/
def openFd (client : TcpClient Thread) (descriptor : Nat) : TcpClient Thread :=
  let socket := ⟨client.sockets, descriptor⟩
  { (client.record (.created socket)).record (.connect socket) with
    fd := some socket
    sockets := client.sockets + 1 }

/-- `startInLoop`. The functions from here to `retry` are given `connectInLoop`, which they reach
again. -/
def startInLoop (connectInLoop : TcpClient Thread → Option (TcpClient Thread))
    (client : TcpClient Thread) : Option (TcpClient Thread) :=
  if client.state ≠ .kDisconnected then some client else connectInLoop client

def restart (connectInLoop : TcpClient Thread → Option (TcpClient Thread))
    (client : TcpClient Thread) : Option (TcpClient Thread) :=
  startInLoop connectInLoop
    { client with state := .kDisconnected, retryDelayMs := kInitRetryDelayMs }

/-- `removeConnection`, which is `Fcb_` too. -/
def removeConnection (connectInLoop : TcpClient Thread → Option (TcpClient Thread))
    (client : TcpClient Thread) : Option (TcpClient Thread) :=
  if client.retryFlag then restart connectInLoop { client with connection := none }
  else some { client with connection := none }

/-- `retry`: the socket is closed if its descriptor is positive. -/
def retry (connectInLoop : TcpClient Thread → Option (TcpClient Thread))
    (client : TcpClient Thread) : Option (TcpClient Thread) :=
  let closed := if client.hasPositiveFd then client.closeFd else client
  let idle := { closed with state := .kDisconnected }
  if idle.retryFlag then
    some { idle with
      timers := idle.timers ++ [idle.retryDelayMs]
      retryDelayMs := if 2 * idle.retryDelayMs < kMaxRetryDelayMs then 2 * idle.retryDelayMs
        else kMaxRetryDelayMs }
  else removeConnection connectInLoop idle

/-- `connectInLoop`, with the answers of the system to it and to the attempts that follow it in the
same call. -/
def connectInLoop : List Attempt → TcpClient Thread → Option (TcpClient Thread)
  | [], _ => none
  | attempt :: later, client =>
    let opened := client.openFd attempt.descriptor
    match attempt.errno with
    | .ok | .inProgress | .intr | .isConn => some { opened with state := .kConnecting }
    | .again | .addrInUse | .addrNotAvail | .connRefused | .netUnreach =>
      retry (connectInLoop later) opened
    | .other => removeConnection (connectInLoop later) opened.closeFd

/-- `newConnection`, the callback `Ncb_`. -/
def newConnection (client : TcpClient Thread) (socket : Socket) : TcpClient Thread :=
  { client.record (.newConnection socket) with
    connection := some socket
    live := client.live ++ [socket] }

def handleWrite (attempts : List Attempt) (writable : Writable) (client : TcpClient Thread) :
    Option (TcpClient Thread) :=
  if client.state = .kConnecting then
    match writable with
    | .failed | .selfConnect => retry (connectInLoop attempts) client
    | .ready => do
      let socket ← client.fd
      some (newConnection { client with state := .kConnected } socket)
  else some client

def handleError (attempts : List Attempt) (client : TcpClient Thread) :
    Option (TcpClient Thread) :=
  if client.state = .kConnecting then retry (connectInLoop attempts) client else some client

/-- `stopInLoop`. -/
def stopInLoop (client : TcpClient Thread) : TcpClient Thread :=
  (if client.state = .kConnecting then { client with state := .kDisconnected }
    else client).record .stopped

/-- `connectFail`, which nothing calls. -/
def connectFail (client : TcpClient Thread) : TcpClient Thread :=
  if client.connectFailCallback then client.record .connectFail else client

/-- Run one task. -/
def runTask (attempts : List Attempt) (client : TcpClient Thread) :
    ClientTask → Option (TcpClient Thread)
  | .start => startInLoop (connectInLoop attempts) client
  | .stop => some client.stopInLoop

/-- `loop_->submit`: the loop's own thread runs the task at once. -/
def submit [DecidableEq Thread] (loopThread : Thread) (thread : Thread) (attempts : List Attempt)
    (client : TcpClient Thread) (task : ClientTask) : Option (TcpClient Thread) :=
  if thread = loopThread then client.runTask attempts task
  else some { client with queue := client.queue ++ [(thread, task)] }

/-- One step. -/
def step [DecidableEq Thread] (loopThread : Thread) (client : TcpClient Thread) :
    ClientAction Thread → Option (TcpClient Thread)
  | .connect thread attempts =>
    submit loopThread thread attempts (client.record .connectCalled) .start
  | .stop thread => submit loopThread thread [] { client with retryFlag := false } .stop
  | .enableRetry => some { client with retryFlag := true }
  | .disableRetry => some { client with retryFlag := false }
  | .setConnectFailCallback => some { client with connectFailCallback := true }
  | .runTask producer attempts => do
    let (task, rest) ← dequeue producer client.queue
    runTask attempts { client with queue := rest } task
  | .timer delay attempts =>
    if delay ∈ client.timers then
      startInLoop (connectInLoop attempts) { client with timers := client.timers.erase delay }
    else none
  | .handleWrite writable attempts => client.handleWrite attempts writable
  | .handleError attempts => client.handleError attempts
  | .destruct socket attempts =>
    if socket ∈ client.live then
      removeConnection (connectInLoop attempts) { client with live := client.live.erase socket }
    else none

end TcpClient

/-! ### What the log says -/

namespace ClientEvent

/-- The two events that a stopped client must not cause. -/
def acts : ClientEvent → Bool
  | .connect _ => true
  | .newConnection _ => true
  | _ => false

/-- Whether the client is stopped after an event. -/
def stops (before : Bool) : ClientEvent → Bool
  | .stopped => true
  | .connectCalled => false
  | _ => before

end ClientEvent

open ClientEvent

/-- The client is stopped: `stopInLoop` has run since `connect` was called last. -/
def isStopped (log : List ClientEvent) : Bool := log.foldl stops false

/-- A stop is final: behind every `stopInLoop`, as long as `connect` is not called, nothing is
connected and no connection is handed over, and every socket that was not handed over is closed
exactly once. -/
def StopFinal (log : List ClientEvent) : Prop :=
  ∀ before after, log = before ++ .stopped :: after → .connectCalled ∉ after →
    (∀ socket, .connect socket ∉ after ∧ .newConnection socket ∉ after) ∧
    ∀ socket, .created socket ∈ log → .newConnection socket ∉ log →
      log.count (.close socket) = 1

/-- No connect and no new connection while the client is stopped. -/
def Quiet (log : List ClientEvent) : Prop :=
  ∀ before event after, log = before ++ event :: after → event.acts = true →
    isStopped before = false

/-- The sockets in the log: the one that is open, if any, and the others, which were handed over or
closed once. -/
structure Accounts (owned : Option Socket) (sockets : Nat) (log : List ClientEvent) : Prop where
  numbered : ∀ socket, .created socket ∈ log → socket.serial < sockets
  origin : ∀ socket, .close socket ∈ log ∨ .newConnection socket ∈ log → .created socket ∈ log
  held : ∀ socket, owned = some socket →
    .created socket ∈ log ∧ .close socket ∉ log ∧ .newConnection socket ∉ log
  settled : ∀ socket, .created socket ∈ log → owned ≠ some socket →
    .newConnection socket ∈ log ∨ log.count (.close socket) = 1

@[simp]
theorem isStopped_snoc (log : List ClientEvent) (event : ClientEvent) :
    isStopped (log ++ [event]) = stops (isStopped log) event := by
  simp [isStopped]

theorem isStopped_of_stopped (before : List ClientEvent) {after : List ClientEvent}
    (noCall : .connectCalled ∉ after) : isStopped (before ++ .stopped :: after) = true := by
  induction after using List.reverseRecOn with
  | nil => rw [isStopped_snoc, stops]
  | append_singleton after event inductionHypothesis =>
    rw [List.mem_append, not_or] at noCall
    have earlier := inductionHypothesis noCall.1
    rw [← List.cons_append, ← List.append_assoc, isStopped_snoc, earlier]
    cases event with
    | connectCalled => exact absurd (List.mem_singleton_self _) noCall.2
    | stopped | created | connect | close | newConnection | connectFail => rfl

theorem quiet_nil : Quiet [] := by
  intro before event after split
  simp at split

theorem Quiet.snoc {log : List ClientEvent} {event : ClientEvent} (quiet : Quiet log)
    (allowed : event.acts = true → isStopped log = false) : Quiet (log ++ [event]) := by
  intro before other after split acts
  rcases List.eq_nil_or_concat after with rfl | ⟨init, final, rfl⟩
  · obtain ⟨rfl, same⟩ := List.append_inj' split rfl
    obtain rfl : event = other := List.singleton_inj.mp same
    exact allowed acts
  · have shape : log ++ [event] = (before ++ other :: init) ++ [final] := by
      rw [split]
      simp
    exact quiet before other init (List.append_inj_left' shape rfl) acts

/-- Where a log is quiet, a stop is final once the open socket is settled. -/
theorem Quiet.stopFinal {log : List ClientEvent} {owned : Option Socket} {sockets : Nat}
    (quiet : Quiet log) (accounts : Accounts owned sockets log)
    (released : isStopped log = true → owned = none) : StopFinal log := by
  intro before after split noCall
  have silent (event : ClientEvent) (acts : event.acts = true) : event ∉ after := by
    intro member
    obtain ⟨front, back, rfl⟩ := List.append_of_mem member
    have stopped := isStopped_of_stopped before fun call =>
      noCall (List.mem_append_left (event :: back) call)
    have running := quiet (before ++ .stopped :: front) event back (by rw [split]; simp) acts
    exact absurd (stopped.symm.trans running) Bool.noConfusion
  refine ⟨fun socket => ⟨silent _ rfl, silent _ rfl⟩, fun socket created notHanded => ?_⟩
  have noOwner := released (by rw [split]; exact isStopped_of_stopped before noCall)
  exact (accounts.settled socket created (by rw [noOwner]; nofun)).resolve_left notHanded

namespace Accounts

variable {owned : Option Socket} {sockets : Nat} {log : List ClientEvent}

theorem nil : Accounts none 0 [] where
  numbered := nofun
  origin := by simp
  held := nofun
  settled := nofun

/-- Events about no socket, and connects, leave the accounts alone. -/
theorem note (accounts : Accounts owned sockets log) {event : ClientEvent}
    (neutral : ∀ socket, event ≠ .created socket ∧ event ≠ .close socket ∧
      event ≠ .newConnection socket) : Accounts owned sockets (log ++ [event]) where
  numbered socket created := by
    rw [List.mem_append, List.mem_singleton] at created
    exact accounts.numbered socket (created.resolve_right (neutral socket).1.symm)
  origin socket used := by
    simp only [List.mem_append, List.mem_singleton, (neutral socket).2.1.symm,
      (neutral socket).2.2.symm, or_false] at used ⊢
    exact .inl (accounts.origin socket used)
  held socket isOwned := by
    simp only [List.mem_append, List.mem_singleton, (neutral socket).1.symm,
      (neutral socket).2.1.symm, (neutral socket).2.2.symm, or_false]
    exact accounts.held socket isOwned
  settled socket created notOwned := by
    simp only [List.mem_append, List.mem_singleton, (neutral socket).1.symm,
      (neutral socket).2.2.symm, or_false, List.count_append, List.count_singleton,
      beq_iff_eq, (neutral socket).2.1, if_false, Nat.add_zero] at created ⊢
    exact accounts.settled socket created notOwned

/-- A new socket is open. -/
theorem create (accounts : Accounts none sockets log) (descriptor : Nat) :
    Accounts (some ⟨sockets, descriptor⟩) (sockets + 1)
      (log ++ [.created ⟨sockets, descriptor⟩]) := by
  have fresh : .created ⟨sockets, descriptor⟩ ∉ log := fun created =>
    absurd (accounts.numbered _ created) (lt_irrefl _)
  refine ⟨fun socket created => ?_, fun socket used => ?_, fun socket isOwned => ?_,
    fun socket created notOwned => ?_⟩
  · rw [List.mem_append, List.mem_singleton] at created
    rcases created with earlier | same
    · exact (accounts.numbered socket earlier).trans (Nat.lt_succ_self _)
    · rw [ClientEvent.created.inj same]
      exact Nat.lt_succ_self _
  · have earlier : .close socket ∈ log ∨ .newConnection socket ∈ log := by simpa using used
    exact List.mem_append_left _ (accounts.origin socket earlier)
  · obtain rfl := Option.some.inj isOwned
    refine ⟨by simp, fun closed => fresh ?_, fun handed => fresh ?_⟩
    · exact accounts.origin _ (.inl (by simpa using closed))
    · exact accounts.origin _ (.inr (by simpa using handed))
  · have earlier : .created socket ∈ log := by
      rw [List.mem_append, List.mem_singleton] at created
      exact created.resolve_right fun same =>
        notOwned (congrArg some (ClientEvent.created.inj same).symm)
    have settled := accounts.settled socket earlier nofun
    simpa using settled

/-- The open socket is closed. -/
theorem close {socket : Socket} (accounts : Accounts (some socket) sockets log) :
    Accounts none sockets (log ++ [.close socket]) := by
  obtain ⟨created, open', notHanded⟩ := accounts.held socket rfl
  refine ⟨fun other isCreated => ?_, fun other used => ?_, nofun, fun other isCreated _ => ?_⟩
  · exact accounts.numbered other (by simpa using isCreated)
  · simp only [List.mem_append, List.mem_singleton, ClientEvent.close.injEq, reduceCtorEq,
      or_false] at used ⊢
    rcases used with (closed | rfl) | handed
    · exact accounts.origin other (.inl closed)
    · exact created
    · exact accounts.origin other (.inr handed)
  · have isCreated : .created other ∈ log := by simpa using isCreated
    by_cases same : socket = other
    · subst same
      right
      rw [List.count_append, List.count_eq_zero_of_not_mem open', List.count_singleton_self]
    · have settled := accounts.settled other isCreated fun owns => same (Option.some.inj owns)
      simpa [List.count_append, List.count_singleton, same] using settled

/-- The open socket is handed over. -/
theorem handOver {socket : Socket} (accounts : Accounts (some socket) sockets log) :
    Accounts none sockets (log ++ [.newConnection socket]) := by
  obtain ⟨created, -, -⟩ := accounts.held socket rfl
  refine ⟨fun other isCreated => ?_, fun other used => ?_, nofun, fun other isCreated _ => ?_⟩
  · exact accounts.numbered other (by simpa using isCreated)
  · simp only [List.mem_append, List.mem_singleton, ClientEvent.newConnection.injEq, reduceCtorEq,
      or_false] at used ⊢
    rcases used with closed | handed | rfl
    · exact accounts.origin other (.inl closed)
    · exact accounts.origin other (.inr handed)
    · exact created
  · have isCreated : .created other ∈ log := by simpa using isCreated
    by_cases same : socket = other
    · exact .inl (by simp [same])
    · have settled := accounts.settled other isCreated fun owns => same (Option.some.inj owns)
      simpa [Ne.symm same] using settled

end Accounts

/-! ### When a stop is final -/

/-- The answers that `connectInLoop` takes for a failed attempt, where `retry` closes the
socket. -/
def ConnectErrno.retries : ConnectErrno → Bool
  | .again | .addrInUse | .addrNotAvail | .connRefused | .netUnreach => true
  | _ => false

/-- No attempt that fails was given descriptor 0. -/
def Closable (attempts : List Attempt) : Prop :=
  ∀ attempt ∈ attempts, attempt.errno.retries = true → attempt.descriptor ≠ 0

namespace TcpClient

variable {Thread : Type}

/-- The connector does not connect for a stopped client: it is in use, or `connect` was called since
the stop. -/
def Wanted (client : TcpClient Thread) : Prop :=
  isStopped client.log = true → client.state ≠ .kDisconnected

/-- What a task that is run must find. -/
def KeepsTask (client : TcpClient Thread) (attempts : List Attempt) : Option ClientTask → Prop
  | none => True
  | some .start => client.Wanted ∧ Closable attempts
  | some .stop => client.state ≠ .kConnecting

/-- What makes a stop final, of the state before a step: no `stopInLoop` while the connector is
connecting, no `startInLoop` (from a timer or from an older `connect`) of a disconnected client that
is stopped, no lost connection of a stopped client with `retry_` set again, and no failed attempt
with descriptor 0. -/
def KeepsStop [DecidableEq Thread] (loopThread : Thread) (client : TcpClient Thread) :
    ClientAction Thread → Prop
  | .connect _ attempts => Closable attempts
  | .stop thread => thread = loopThread → client.state ≠ .kConnecting
  | .enableRetry => True
  | .disableRetry => True
  | .setConnectFailCallback => True
  | .runTask producer attempts =>
    client.KeepsTask attempts ((dequeue producer client.queue).map Prod.fst)
  | .timer _ attempts => client.Wanted ∧ Closable attempts
  | .handleWrite writable _ =>
    client.state = .kConnecting → writable ≠ .ready → client.hasPositiveFd = true
  | .handleError _ => client.state = .kConnecting → client.hasPositiveFd = true
  | .destruct _ attempts =>
    (isStopped client.log = true → client.retryFlag = false) ∧ Closable attempts

instance (attempts : List Attempt) : Decidable (Closable attempts) :=
  inferInstanceAs (Decidable (∀ attempt ∈ attempts, _ → _))

instance (client : TcpClient Thread) : Decidable client.Wanted :=
  inferInstanceAs (Decidable (_ → _))

instance (client : TcpClient Thread) (attempts : List Attempt) :
    (task : Option ClientTask) → Decidable (client.KeepsTask attempts task)
  | none => inferInstanceAs (Decidable True)
  | some .start => inferInstanceAs (Decidable (_ ∧ _))
  | some .stop => inferInstanceAs (Decidable (_ ≠ _))

instance [DecidableEq Thread] (loopThread : Thread) (client : TcpClient Thread) :
    (action : ClientAction Thread) → Decidable (KeepsStop loopThread client action)
  | .connect _ attempts => inferInstanceAs (Decidable (Closable attempts))
  | .stop _ => inferInstanceAs (Decidable (_ → _))
  | .enableRetry => inferInstanceAs (Decidable True)
  | .disableRetry => inferInstanceAs (Decidable True)
  | .setConnectFailCallback => inferInstanceAs (Decidable True)
  | .runTask _ attempts => inferInstanceAs (Decidable (client.KeepsTask attempts _))
  | .timer _ attempts => inferInstanceAs (Decidable (client.Wanted ∧ Closable attempts))
  | .handleWrite _ _ => inferInstanceAs (Decidable (_ → _ → _))
  | .handleError _ => inferInstanceAs (Decidable (_ → _))
  | .destruct _ attempts => inferInstanceAs (Decidable ((_ → _) ∧ Closable attempts))

/-- Every socket is settled and no connection is alive. -/
structure Settled (client : TcpClient Thread) : Prop where
  accounts : Accounts none client.sockets client.log
  quiet : Quiet client.log
  alone : client.live = []

/-- What holds between the steps of a client. -/
structure Sound (client : TcpClient Thread) : Prop where
  accounts : Accounts (if client.state = .kConnecting then client.fd else none) client.sockets
    client.log
  quiet : Quiet client.log
  connecting : client.state = .kConnecting →
    client.live = [] ∧ isStopped client.log = false ∧ ∃ socket, client.fd = some socket
  single : client.live.length ≤ 1
  connected : client.live ≠ [] → client.state = .kConnected

theorem Settled.sound {client : TcpClient Thread} (settled : client.Settled)
    (notConnecting : client.state ≠ .kConnecting) : client.Sound where
  accounts := by
    rw [if_neg notConnecting]
    exact settled.accounts
  quiet := settled.quiet
  connecting isConnecting := absurd isConnecting notConnecting
  single := by simp [settled.alone]
  connected alive := absurd settled.alone alive

theorem Sound.settled {client : TcpClient Thread} (sound : client.Sound)
    (idle : client.state = .kDisconnected) : client.Settled where
  accounts := by
    have accounts := sound.accounts
    rwa [if_neg (by rw [idle]; exact ConnectorState.noConfusion)] at accounts
  quiet := sound.quiet
  alone := by
    by_contra alive
    rw [sound.connected alive] at idle
    cases idle

theorem Sound.stopFinal {client : TcpClient Thread} (sound : client.Sound) :
    StopFinal client.log := by
  refine sound.quiet.stopFinal sound.accounts fun stopped => if_neg fun connecting => ?_
  rw [(sound.connecting connecting).2.1] at stopped
  cases stopped

/-- A client that differs in neither sockets nor log is as sound. -/
theorem Sound.congr {client other : TcpClient Thread} (sound : client.Sound)
    (fd : other.fd = client.fd) (state : other.state = client.state)
    (live : other.live = client.live) (sockets : other.sockets = client.sockets)
    (log : other.log = client.log) : other.Sound where
  accounts := by rw [fd, state, sockets, log]; exact sound.accounts
  quiet := by rw [log]; exact sound.quiet
  connecting := by rw [fd, state, live, log]; exact sound.connecting
  single := by rw [live]; exact sound.single
  connected := by rw [live, state]; exact sound.connected

/-- A `connectInLoop` that keeps a settled client sound. -/
def Connects (connectInLoop : TcpClient Thread → Option (TcpClient Thread)) : Prop :=
  ∀ client next, client.Settled → client.state = .kDisconnected → isStopped client.log = false →
    connectInLoop client = some next → next.Sound

theorem startInLoop_sound {connectInLoop : TcpClient Thread → Option (TcpClient Thread)}
    (connects : Connects connectInLoop) {client next : TcpClient Thread} (sound : client.Sound)
    (wanted : client.Wanted) (started : startInLoop connectInLoop client = some next) :
    next.Sound := by
  unfold startInLoop at started
  split at started
  · obtain rfl := Option.some.inj started
    exact sound
  · rename_i idle
    have idle := not_not.mp idle
    refine connects client next (sound.settled idle) idle ?_ started
    by_contra stopped
    exact wanted (Bool.not_eq_false _ ▸ stopped) idle

theorem removeConnection_sound {connectInLoop : TcpClient Thread → Option (TcpClient Thread)}
    (connects : Connects connectInLoop) {client next : TcpClient Thread} (settled : client.Settled)
    (notConnecting : client.state ≠ .kConnecting)
    (willing : isStopped client.log = true → client.retryFlag = false)
    (removed : removeConnection connectInLoop client = some next) : next.Sound := by
  unfold removeConnection at removed
  split at removed
  · rename_i retries
    unfold restart startInLoop at removed
    rw [if_neg (by simp)] at removed
    refine connects _ next ?_ rfl ?_ removed
    · exact ⟨settled.accounts, settled.quiet, settled.alone⟩
    by_contra stopped
    rw [willing (Bool.not_eq_false _ ▸ stopped)] at retries
    cases retries
  · obtain rfl := Option.some.inj removed
    exact Settled.sound ⟨settled.accounts, settled.quiet, settled.alone⟩ notConnecting

theorem closeFd_eq {client : TcpClient Thread} {socket : Socket} (isFd : client.fd = some socket) :
    client.closeFd = { client.record (.close socket) with fd := none } := by
  unfold closeFd
  rw [isFd]

/-- A connector with an open socket that begins to connect. -/
theorem opened_sound {client : TcpClient Thread} {socket : Socket} (isFd : client.fd = some socket)
    (accounts : Accounts (some socket) client.sockets client.log) (quiet : Quiet client.log)
    (alone : client.live = []) (running : isStopped client.log = false) :
    Sound { client with state := .kConnecting } where
  accounts := by
    rw [if_pos rfl]
    exact isFd ▸ accounts
  quiet := quiet
  connecting _ := ⟨alone, running, socket, isFd⟩
  single := by simp [alone]
  connected alive := absurd alone alive

/-- `retry` closes the socket and leaves a settled client. -/
theorem retry_sound {connectInLoop : TcpClient Thread → Option (TcpClient Thread)}
    {client next : TcpClient Thread} {socket : Socket} (isFd : client.fd = some socket)
    (accounts : Accounts (some socket) client.sockets client.log) (quiet : Quiet client.log)
    (alone : client.live = []) (positive : client.hasPositiveFd = true)
    (retried : retry connectInLoop client = some next) : next.Sound := by
  have settled : Settled { client.closeFd with state := .kDisconnected } := by
    rw [closeFd_eq isFd]
    exact ⟨accounts.close, quiet.snoc nofun, alone⟩
  unfold retry at retried
  simp only at retried
  rw [if_pos positive] at retried
  split at retried
  · obtain rfl := Option.some.inj retried
    exact Settled.sound ⟨settled.accounts, settled.quiet, settled.alone⟩
      ConnectorState.noConfusion
  · rename_i silent
    unfold removeConnection at retried
    rw [if_neg silent] at retried
    obtain rfl := Option.some.inj retried
    exact Settled.sound ⟨settled.accounts, settled.quiet, settled.alone⟩
      ConnectorState.noConfusion

/-- A new socket of a settled client that is not stopped. -/
theorem Settled.openFd {client : TcpClient Thread} (settled : client.Settled)
    (running : isStopped client.log = false) (descriptor : Nat) :
    Accounts (some ⟨client.sockets, descriptor⟩) (client.openFd descriptor).sockets
        (client.openFd descriptor).log ∧
      Quiet (client.openFd descriptor).log ∧ isStopped (client.openFd descriptor).log = false := by
  have created : isStopped (client.log ++ [.created ⟨client.sockets, descriptor⟩]) = false := by
    rw [isStopped_snoc]
    exact running
  have quiet : Quiet (client.log ++ [.created ⟨client.sockets, descriptor⟩]) :=
    settled.quiet.snoc nofun
  refine ⟨(settled.accounts.create descriptor).note fun socket => ⟨nofun, nofun, nofun⟩, ?_, ?_⟩
  · exact quiet.snoc fun _ => created
  · show isStopped ((client.log ++ [_]) ++ [.connect _]) = false
    rw [isStopped_snoc]
    exact created

theorem connectInLoop_connects (attempts : List Attempt) (closable : Closable attempts) :
    Connects (connectInLoop attempts : TcpClient Thread → Option (TcpClient Thread)) := by
  induction attempts with
  | nil =>
    intro client next _ _ _ connected
    cases connected
  | cons attempt later inductionHypothesis =>
    obtain ⟨first, closableLater⟩ := List.forall_mem_cons.mp closable
    have connects := inductionHypothesis closableLater
    intro client next settled idle running connected
    obtain ⟨accounts, quiet, stays⟩ := settled.openFd running attempt.descriptor
    have isFd : (client.openFd attempt.descriptor).fd = some ⟨client.sockets, attempt.descriptor⟩ :=
      rfl
    have isAlone : (client.openFd attempt.descriptor).live = [] := settled.alone
    have stillIdle : (client.openFd attempt.descriptor).state = .kDisconnected := idle
    have positive (retries : attempt.errno.retries = true) :
        (client.openFd attempt.descriptor).hasPositiveFd = true :=
      decide_eq_true (Nat.pos_of_ne_zero (first retries))
    unfold connectInLoop at connected
    generalize client.openFd attempt.descriptor = opened at *
    simp only at connected
    cases errno : attempt.errno with
    | ok | inProgress | intr | isConn =>
      rw [errno] at connected
      obtain rfl := Option.some.inj connected
      exact opened_sound isFd accounts quiet isAlone stays
    | again | addrInUse | addrNotAvail | connRefused | netUnreach =>
      rw [errno] at connected
      exact retry_sound isFd accounts quiet isAlone (positive (by rw [errno]; rfl)) connected
    | other =>
      rw [errno] at connected
      have isClosed := closeFd_eq isFd
      refine removeConnection_sound connects ?_ ?_ ?_ connected
      · rw [isClosed]
        exact ⟨accounts.close, quiet.snoc nofun, isAlone⟩
      · rw [isClosed]
        show opened.state ≠ .kConnecting
        rw [stillIdle]
        exact ConnectorState.noConfusion
      · rw [isClosed]
        have running : isStopped (opened.log ++ [.close ⟨client.sockets, attempt.descriptor⟩]) =
            false := by
          rw [isStopped_snoc]
          exact stays
        exact fun stopped => absurd (stopped.symm.trans running) Bool.noConfusion

theorem stopInLoop_sound {client : TcpClient Thread} (sound : client.Sound)
    (notConnecting : client.state ≠ .kConnecting) : client.stopInLoop.Sound := by
  unfold stopInLoop
  rw [if_neg notConnecting]
  have accounts := sound.accounts
  rw [if_neg notConnecting] at accounts
  refine ⟨?_, sound.quiet.snoc nofun, fun connecting => absurd connecting notConnecting,
    sound.single, sound.connected⟩
  show Accounts (if client.state = .kConnecting then client.fd else none) _ _
  rw [if_neg notConnecting]
  exact accounts.note fun socket => ⟨nofun, nofun, nofun⟩

/-- `connect` is called. -/
theorem Sound.call {client : TcpClient Thread} (sound : client.Sound) :
    (client.record .connectCalled).Sound where
  accounts := sound.accounts.note fun socket => ⟨nofun, nofun, nofun⟩
  quiet := sound.quiet.snoc nofun
  connecting isConnecting := by
    obtain ⟨alone, -, owned⟩ := sound.connecting isConnecting
    refine ⟨alone, ?_, owned⟩
    show isStopped (client.log ++ [.connectCalled]) = false
    rw [isStopped_snoc, stops]
  single := sound.single
  connected := sound.connected

theorem handleWrite_sound {attempts : List Attempt} {writable : Writable}
    {client next : TcpClient Thread} (sound : client.Sound)
    (positive : client.state = .kConnecting → writable ≠ .ready → client.hasPositiveFd = true)
    (written : client.handleWrite attempts writable = some next) : next.Sound := by
  unfold handleWrite at written
  split at written
  · rename_i connecting
    obtain ⟨alone, running, socket, isFd⟩ := sound.connecting connecting
    have accounts := sound.accounts
    rw [if_pos connecting, isFd] at accounts
    cases writable with
    | failed | selfConnect =>
      exact retry_sound isFd accounts sound.quiet alone (positive connecting nofun) written
    | ready =>
      rw [isFd] at written
      obtain rfl := Option.some.inj written
      refine ⟨?_, sound.quiet.snoc fun _ => running, nofun, ?_, fun _ => rfl⟩
      · exact accounts.handOver
      · show (client.live ++ [socket]).length ≤ 1
        simp [alone]
  · obtain rfl := Option.some.inj written
    exact sound

theorem handleError_sound {attempts : List Attempt} {client next : TcpClient Thread}
    (sound : client.Sound)
    (positive : client.state = .kConnecting → client.hasPositiveFd = true)
    (failed : client.handleError attempts = some next) : next.Sound := by
  unfold handleError at failed
  split at failed
  · rename_i connecting
    obtain ⟨alone, -, socket, isFd⟩ := sound.connecting connecting
    have accounts := sound.accounts
    rw [if_pos connecting, isFd] at accounts
    exact retry_sound isFd accounts sound.quiet alone (positive connecting) failed
  · obtain rfl := Option.some.inj failed
    exact sound

theorem step_sound [DecidableEq Thread] {loopThread : Thread} {client next : TcpClient Thread}
    {action : ClientAction Thread} (sound : client.Sound)
    (keeps : KeepsStop loopThread client action) (taken : step loopThread client action = some next) :
    next.Sound := by
  cases action with
  | connect thread attempts =>
    have called := sound.call
    have wanted : (client.record .connectCalled).Wanted := by
      intro stopped
      have running : isStopped (client.log ++ [.connectCalled]) = false := isStopped_snoc _ _
      exact absurd (stopped.symm.trans running) Bool.noConfusion
    simp only [step, submit] at taken
    split at taken
    · exact startInLoop_sound (connectInLoop_connects _ keeps) called wanted taken
    · obtain rfl := Option.some.inj taken
      exact called.congr rfl rfl rfl rfl rfl
  | stop thread =>
    have quieter : Sound { client with retryFlag := false } := sound.congr rfl rfl rfl rfl rfl
    simp only [step, submit] at taken
    split at taken
    · rename_i inLoop
      obtain rfl := Option.some.inj taken
      exact stopInLoop_sound quieter (keeps inLoop)
    · obtain rfl := Option.some.inj taken
      exact quieter.congr rfl rfl rfl rfl rfl
  | enableRetry | disableRetry | setConnectFailCallback =>
    obtain rfl := Option.some.inj taken
    exact sound.congr rfl rfl rfl rfl rfl
  | runTask producer attempts =>
    obtain ⟨⟨task, rest⟩, found, ran⟩ := Option.bind_eq_some_iff.mp taken
    have shorter : Sound { client with queue := rest } := sound.congr rfl rfl rfl rfl rfl
    simp only [KeepsStop, found, Option.map_some] at keeps
    cases task with
    | start =>
      exact startInLoop_sound (connectInLoop_connects _ keeps.2) shorter keeps.1 ran
    | stop =>
      obtain rfl := Option.some.inj ran
      exact stopInLoop_sound shorter keeps
  | timer delay attempts =>
    simp only [step] at taken
    split at taken
    · have fired : Sound { client with timers := client.timers.erase delay } :=
        sound.congr rfl rfl rfl rfl rfl
      exact startInLoop_sound (connectInLoop_connects _ keeps.2) fired keeps.1 taken
    · cases taken
  | handleWrite writable attempts => exact handleWrite_sound sound keeps taken
  | handleError attempts => exact handleError_sound sound keeps taken
  | destruct socket attempts =>
    simp only [step] at taken
    split at taken
    · rename_i alive
      have isConnected := sound.connected (List.ne_nil_of_mem alive)
      have notConnecting : client.state ≠ .kConnecting := by
        rw [isConnected]
        exact ConnectorState.noConfusion
      have accounts := sound.accounts
      rw [if_neg notConnecting] at accounts
      have shrinks := List.length_erase_of_mem alive
      have alone : client.live.erase socket = [] := by
        rw [← List.length_eq_zero_iff, shrinks, Nat.sub_eq_zero_of_le sound.single]
      have settled : Settled { client with live := client.live.erase socket } :=
        ⟨accounts, sound.quiet, alone⟩
      exact removeConnection_sound (connectInLoop_connects _ keeps.2) settled notConnecting keeps.1
        taken
    · cases taken

theorem initial_sound : (initial : TcpClient Thread).Sound where
  accounts := Accounts.nil
  quiet := quiet_nil
  connecting := nofun
  single := Nat.zero_le _
  connected alive := absurd rfl alive

/-- In every run whose steps all keep the stop, every stop is final. -/
theorem stop_final [DecidableEq Thread] (loopThread : Thread) (actions : List (ClientAction Thread))
    (client : TcpClient Thread) (run : Run (StepOf (step loopThread)) initial actions client)
    (keeps : Meets (StepOf (step loopThread)) (KeepsStop loopThread) initial actions) :
    StopFinal client.log :=
  (run.invariant initial_sound (fun _ _ _ sound keeps taken => step_sound sound keeps taken)
    keeps).stopFinal

/-- A client that connects at the second try, loses the connection after a stop and stays there. -/
def stopAfterRetry : List (ClientAction Bool) :=
  [.enableRetry, .connect true [⟨3, .inProgress⟩], .handleWrite .failed [],
    .timer 500 [⟨3, .inProgress⟩], .handleWrite .ready [], .stop false, .runTask false [],
    .destruct ⟨1, 3⟩ []]

theorem stop_final_retry : ∃ client : TcpClient Bool,
    Run (StepOf (step true)) initial stopAfterRetry client ∧ .stopped ∈ client.log ∧
      StopFinal client.log :=
  have executed : exec (step true) initial stopAfterRetry = some _ := rfl
  ⟨_, run_of_exec executed, by decide,
    stop_final true stopAfterRetry _ (run_of_exec executed) (meets_of_checks (by decide))⟩

/-- A stop while the connector is connecting leaves its socket open, and a timer that is left
connects a stopped client. -/
theorem not_stop_final :
    (∃ client : TcpClient Bool, Run (StepOf (step true)) initial
      [.connect true [⟨3, .inProgress⟩], .stop true] client ∧ ¬ StopFinal client.log) ∧
    ∃ client : TcpClient Bool, Run (StepOf (step true)) initial
      [.enableRetry, .connect true [⟨3, .connRefused⟩], .stop true,
        .timer 500 [⟨3, .inProgress⟩]] client ∧ ¬ StopFinal client.log := by
  refine ⟨⟨_, run_of_exec rfl, fun final => ?_⟩, _, run_of_exec rfl, fun final => ?_⟩
  · have once := (final [.connectCalled, .created ⟨0, 3⟩, .connect ⟨0, 3⟩] [] rfl nofun).2 ⟨0, 3⟩
      (by decide) (by decide)
    revert once
    decide
  · have silent := (final [.connectCalled, .created ⟨0, 3⟩, .connect ⟨0, 3⟩, .close ⟨0, 3⟩]
      [.created ⟨1, 3⟩, .connect ⟨1, 3⟩] rfl (by decide)).1 ⟨1, 3⟩
    revert silent
    decide

end TcpClient

end YYNet
