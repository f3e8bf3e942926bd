/-
This file puts the HTTP client, the network and the HTTP server together and proves
that every callback is called with the answer to its own request.

The client encodes a request and queues its callback. The network carries whole
requests to the server, since the server reads a request that comes in parts once for
each part, and carries the bytes of the responses to the client in pieces of any size.
All of this goes on at the same time: requests are asked while responses to earlier
ones are on their way. The invariant says where each request that was asked is: its
bytes are on the way up, or the bytes of its answer are on the way down, or its
callback has been called.

`sendRequest` sends first and queues the callback behind that, and takes no lock. Here
it is called on the loop thread and between two message callbacks, so that no response
is handled in between. A call from another thread may lose its callback to a response
that is faster; such calls are not covered.
-/

import YYNet.Http.OnWire

namespace YYNet

open Transition Checked Storage

namespace HttpRequest

/-! ### What a request becomes at the server -/

/-- A request that can be written: a known method, a query URL and a version that are words
without null, a request line that fits its array, and headers that can be written. -/
structure Writable (req : HttpRequest) : Prop where
  headers : req.toHttpMsg.Writable
  method : req.method ≠ .unknown
  queryUrl : IsWord req.queryUrl ∧ 0 ∉ req.queryUrl
  version : IsWord req.version ∧ 0 ∉ req.version
  short : (req.requestLine ++ crlf).length < HttpMsg.tmpSize

instance writableDecidable (req : HttpRequest) : Decidable req.Writable :=
  decidable_of_iff (req.toHttpMsg.Writable ∧ req.method ≠ .unknown ∧
    (IsWord req.queryUrl ∧ req.queryUrl.contains 0 = false) ∧
    (IsWord req.version ∧ req.version.contains 0 = false) ∧
    (req.requestLine ++ crlf).length < HttpMsg.tmpSize)
    ⟨fun ⟨headers, method, queryUrl, version, short⟩ =>
        ⟨headers, method, by simpa using queryUrl, by simpa using version, short⟩,
      fun writable => ⟨writable.headers, writable.method, by simpa using writable.queryUrl,
        by simpa using writable.version, writable.short⟩⟩

/-- The bytes of an encoded request in front of its body. -/
def sentHeader (req : HttpRequest) : List UInt8 :=
  req.requestLine ++ HttpMsg.fieldLines req.allFields ++ headerEnd

/-- What the decoder makes of a request. -/
def arrival (req : HttpRequest) : HttpRequest :=
  ({ cleared with
    toHttpMsg := (HttpMsg.cleared.headed req.requestLine req.allFields).taken req.sentHeader
      req.getBody true } : HttpRequest).readRequestLine req.requestLine

section

variable {req : HttpRequest} (writable : req.Writable)

include writable

/-- Without its headers the request can be sent. -/
theorem Writable.bare : ({ req with headers := OrderedMap.empty } : HttpRequest).Sendable :=
  ⟨nofun, writable.method, writable.queryUrl, writable.version⟩

theorem Writable.encoded_eq (small : req.getBody.length < 2 ^ 64) :
    req.encoded = req.sentHeader ++ req.getBody := by
  unfold encoded encode
  rw [if_neg writable.queryUrl.1.1, cStr_of_not_mem writable.queryUrl.2,
    cStr_of_not_mem writable.version.2, ← requestLine, snprintf_of_lt writable.short,
    HttpMsg.encodeBehind_lines small]
  rfl

/-- The request line is read back. -/
theorem Writable.readRequestLine (decoded : HttpRequest) :
    decoded.readRequestLine req.requestLine = parseUrlParams { decoded with
      method := req.method
      queryUrl := req.queryUrl
      version := req.version } :=
  writable.bare.readRequestLine decoded

/-- What arrives is the request that was asked, with its headers as they are read. -/
theorem Writable.arrival_eq :
    req.arrival.method = req.method ∧ req.arrival.queryUrl = req.queryUrl ∧
      req.arrival.url = req.queryUrl.takeWhile (· ≠ 63) ∧
      req.arrival.getBody = req.getBody ∧ req.arrival.headers = req.foldedHeaders := by
  unfold arrival
  rw [writable.readRequestLine]
  refine ⟨parseUrlParams_method _, parseUrlParams_queryUrl _, parseUrlParams_url _, ?_, ?_⟩
  · rw [parseUrlParams_toHttpMsg]
    show ((HttpMsg.cleared.headed req.requestLine req.allFields).taken req.sentHeader _
      true).getBody = _
    exact HttpMsg.taken_getBody rfl rfl _ _ true
  · rw [parseUrlParams_toHttpMsg]
    rfl

/-- The server takes the encoded request for one request that keeps the connection. -/
theorem Writable.wellFormed (fits : req.encoded.length ≤ maxSize) :
    WellFormed req.encoded req.arrival := by
  have small := getBody_lt fits
  have bytes := writable.encoded_eq (by omega)
  have contentLen : (HttpMsg.cleared.headed req.requestLine req.allFields).contentLen =
      req.getBody.length := HttpMsg.contentLenOf_folded small
  have inLine : InLine req.requestLine := writable.bare.inLine
  rw [bytes] at fits ⊢
  have decoded : cleared.toHttpMsg.tryDecode_ (req.sentHeader ++ req.getBody ++ []) true =
      .ok (.complete, (HttpMsg.cleared.headed req.requestLine req.allFields).taken
        req.sentHeader req.getBody true, req.requestLine) :=
    HttpMsg.tryDecode_lines rfl rfl rfl (requestLine_ne_nil req) inLine
      writable.headers.readable contentLen [] (by rw [List.append_nil]; exact fits) true
  rw [List.append_nil] at decoded
  refine ⟨?_, ?_, ?_⟩
  · unfold HttpRequest.tryDecode
    rw [decoded, ok_bind]
    simp only
    rw [if_neg (requestLine_ne_nil req)]
    rfl
  · unfold HttpMsg.getByte arrival
    rw [writable.readRequestLine, parseUrlParams_toHttpMsg]
    rfl
  · unfold HttpMsg.getHeader
    rw [writable.arrival_eq.2.2.2.2, HttpMsg.connection_folded, Option.getD_some]
    decide

end

end HttpRequest

namespace HttpSession

open HttpRequest

/-! ### The answers of the server -/

/-- The bytes of the answer to a request that keeps the connection. -/
def answerBytes (router : HttpRouter) (req : HttpRequest) : List UInt8 :=
  (respond router req true).encoded

/-- A round that goes on has routed a request and sent its answer. -/
theorem round_sent {build : Build} {router : HttpRouter} {session next : HttpSession}
    (taken : session.round build router = .ok (false, next)) :
    ∃ req, next.routed = session.routed ++ [req] ∧
      next.sent = session.sent ++
        [((respond router req (req.getHeader (text "connection") ≠ text "close")).encode []).2] := by
  unfold round at taken
  obtain ⟨⟨result, parsed⟩, parses, taken⟩ := bind_eq_ok taken
  obtain ⟨routed, sent⟩ : parsed.routed = session.routed ∧ parsed.sent = session.sent := by
    unfold parseRequest at parses
    simp only at parses
    split at parses
    · cases parses
    · obtain ⟨⟨found, req⟩, -, same⟩ := bind_eq_ok parses
      obtain ⟨-, rfl⟩ := Prod.mk.inj (Except.ok.inj same)
      exact ⟨rfl, rfl⟩
  cases result with
  | error => cases (Prod.mk.inj (Except.ok.inj taken)).1
  | continue100 => cases (Prod.mk.inj (Except.ok.inj taken)).1
  | notComplete => cases (Prod.mk.inj (Except.ok.inj taken)).1
  | complete =>
    simp only at taken
    obtain ⟨buffer, -, taken⟩ := bind_eq_ok taken
    refine ⟨parsed.req, ?_⟩
    rw [← routed, ← sent]
    split at taken <;>
    · obtain ⟨-, rfl⟩ := Prod.mk.inj (Except.ok.inj taken)
      exact ⟨rfl, rfl⟩

section

variable (build : Build) (router : HttpRouter)

/-- A round with a whole request in front answers it. -/
theorem round_replies {session : HttpSession} (fresh : session.Fresh) {bytes rest : List UInt8}
    {req : HttpRequest} (wellFormed : WellFormed bytes req)
    (holds : session.buffer.readable = bytes ++ rest) :
    ∃ next, session.round build router = .ok (false, next) ∧ next.Fresh ∧
      next.buffer.readable = rest ∧ session.Answered next [req] ∧
      next.sent = session.sent ++ [answerBytes router req] := by
  obtain ⟨next, taken, freshNext, left, answered⟩ :=
    round_whole build router fresh wellFormed holds
  obtain ⟨other, routed, sent⟩ := round_sent taken
  rw [answered.routed, List.append_cancel_left_eq, List.singleton_inj] at routed
  subst routed
  refine ⟨next, taken, freshNext, left, answered, ?_⟩
  rw [sent, decide_eq_true wellFormed.keepAlive]
  rfl

/-- `onMessage` on the bytes of some requests sends the answer to each of them. -/
theorem onMessage_replies {session : HttpSession} (fresh : session.Fresh)
    {requests : List (List UInt8 × HttpRequest)}
    (wellFormed : ∀ request ∈ requests, WellFormed request.1 request.2)
    (holds : session.buffer.readable = stream requests) {fuel : Nat}
    (enough : requests.length < fuel) :
    ∃ next, onMessage build router fuel session = some (.ok next) ∧ next.Fresh ∧
      next.buffer.readable = [] ∧ session.Answered next (requests.map Prod.snd) ∧
      next.sent = session.sent ++ requests.map fun request => answerBytes router request.2 := by
  induction requests generalizing session fuel with
  | nil =>
    obtain ⟨fuel, rfl⟩ : ∃ less, fuel = less + 1 := ⟨fuel - 1, by omega⟩
    refine ⟨session, ?_, fresh, holds, Answered.refl session, (List.append_nil _).symm⟩
    rw [onMessage, round_empty build router fresh holds]
  | cons request others inductionHypothesis =>
    rw [List.length_cons] at enough
    obtain ⟨fuel, rfl⟩ : ∃ less, fuel = less + 1 := ⟨fuel - 1, by omega⟩
    obtain ⟨next, first, freshNext, left, answered, sent⟩ := round_replies build router fresh
      (wellFormed request List.mem_cons_self) (holds.trans List.flatMap_cons)
    obtain ⟨final, returned, freshFinal, empty, later, sentLater⟩ := inductionHypothesis freshNext
      (fun other member => wellFormed other (List.mem_cons_of_mem _ member)) left
      (by omega : others.length < fuel)
    refine ⟨final, ?_, freshFinal, empty, answered.trans later, ?_⟩
    · rw [onMessage, first]
      exact returned
    · rw [sentLater, sent, List.append_assoc, List.map_cons, List.singleton_append]

end

end HttpSession

/-! ### The network -/

/-- A call of the client: `get`, `post`, `put` or `del`. -/
inductive HttpCall
  | get (url : List UInt8)
  | post (url body : List UInt8) (headers : StringMap)
  | put (url body : List UInt8) (headers : StringMap)
  | del (url : List UInt8)
  deriving DecidableEq

/-- The request that `sendRequest` builds, for a peer address with a port behind a colon. -/
def buildRequest (peerAddr : List UInt8) (method : Method) (url body : List UInt8)
    (headers : StringMap) : HttpRequest :=
  let host := peerAddr.takeWhile (· ≠ 58)
  let named := (OrderedMap.empty.set (text "Host") host).setAll headers.entries
  { HttpRequest.cleared with
    method := method
    queryUrl := url
    version := text "HTTP/1.1"
    headers := if body = [] then named
      else named.set (text "Content-Type") (text "application/x-www-form-urlencoded")
    body := body }

/-- The request of a call. -/
def HttpCall.request (peerAddr : List UInt8) : HttpCall → HttpRequest
  | .get url => buildRequest peerAddr .get url [] OrderedMap.empty
  | .post url body headers => buildRequest peerAddr .post url body headers
  | .put url body headers => buildRequest peerAddr .put url body headers
  | .del url => buildRequest peerAddr .delete url [] OrderedMap.empty

/-- A client and a server, the requests on their way to the server, the bytes on their way to the
client, and the requests that were asked, each with its callback, the first one first. -/
structure HttpExchange (Callback : Type) where
  client : HttpClient Callback
  server : HttpSession
  upstream : List (List UInt8)
  downstream : List UInt8
  asked : List (Option Callback × HttpRequest)

namespace HttpExchange

variable {Callback : Type}

open HttpResponse (OnWire Expecting expecting_nil wireStream)

open HttpRequest HttpSession HttpClient

/-- What can happen next. A call is made on the loop thread, and no message callback runs in it. -/
inductive Act (Callback : Type)
  | ask (call : HttpCall) (callback : Option Callback)
  | carryUp (count : Nat)
  | carryDown (size : Nat)

/-- The client asks a request and queues its callback, in one step, as it does on the loop thread;
or some requests arrive at the server, all at once, and it handles them; or some bytes arrive at
the client, and it handles them. -/
def step (build : Build) (router : HttpRouter) (peerAddr : List UInt8)
    (s : HttpExchange Callback) : Act Callback → Option (HttpExchange Callback)
  | .ask call callback =>
    let req := call.request peerAddr
    some { s with
      client := { s.client with pendingRequests := s.client.pendingRequests ++ [callback] }
      upstream := s.upstream ++ [req.encoded]
      asked := s.asked ++ [(callback, req)] }
  | .carryUp count =>
    let chunk := (s.upstream.take count).flatten
    match HttpSession.receive build router (chunk.length + 1) s.server [chunk] with
    | some (.ok server) => some { s with
        server := server
        upstream := s.upstream.drop count
        downstream := s.downstream ++ (server.sent.drop s.server.sent.length).flatten }
    | _ => none
  | .carryDown size =>
    let chunk := s.downstream.take size
    match HttpClient.receive build (s.client.buffer.readable.length + chunk.length + 2) s.client
        [chunk] with
    | some (.ok client) => some { s with
        client := client
        downstream := s.downstream.drop size }
    | _ => none

/-! ### Where each request is -/

/-- The answer to a request, as the server makes it and as the client reads it. -/
def made (router : HttpRouter) (req : HttpRequest) : HttpResponse :=
  respond router req.arrival true

/-- The bytes of the answer, and what the client reads. -/
def wireOf (router : HttpRouter) (entry : Option Callback × HttpRequest) :
    List UInt8 × HttpResponse :=
  ((made router entry.2).encoded, (made router entry.2).received true)

/-- A request that can be written, and is an array, and so is its answer. -/
structure Askable (router : HttpRouter) (req : HttpRequest) : Prop where
  writable : req.Writable
  fits : req.encoded.length ≤ maxSize
  answerWritable : (made router req).Writable
  answerFits : (made router req).encoded.length ≤ maxSize

/-- Of the requests that were asked, these are done, those wait for their answer, which was sent,
and the last ones are on their way to the server. -/
structure Paired (router : HttpRouter) (s : HttpExchange Callback)
    (done waiting sent : List (Option Callback × HttpRequest)) : Prop where
  asked : s.asked = done ++ waiting ++ sent
  askable : ∀ entry ∈ s.asked, Askable router entry.2
  upstream : s.upstream = sent.map fun entry => entry.2.encoded
  pending : s.client.pendingRequests = (waiting ++ sent).map Prod.fst
  called : s.client.called =
    callsOf (done.map Prod.fst) (done.map fun entry => (wireOf router entry).2)
  expects : s.client.Expects (waiting.map (wireOf router)) s.client.buffer.readable
  inFlight : s.client.buffer.readable ++ s.downstream = wireStream (waiting.map (wireOf router))
  fresh : s.server.Fresh
  drained : s.server.buffer.readable = []
  routed : s.server.routed = (done ++ waiting).map fun entry => entry.2.arrival

section

variable {build : Build} {router : HttpRouter} {peerAddr : List UInt8}
  {s next : HttpExchange Callback} {done waiting sent : List (Option Callback × HttpRequest)}

theorem wireOf_onWire {entries : List (Option Callback × HttpRequest)}
    (askable : ∀ entry ∈ entries, Askable router entry.2) :
    ∀ wire ∈ entries.map (wireOf router), OnWire wire.1 wire.2 := by
  intro wire member
  obtain ⟨entry, isEntry, rfl⟩ := List.mem_map.mp member
  exact (askable entry isEntry).answerWritable.onWire (askable entry isEntry).answerFits

theorem Paired.askable_waiting (paired : Paired router s done waiting sent) :
    ∀ entry ∈ waiting, Askable router entry.2 := by
  intro entry member
  refine paired.askable entry ?_
  rw [paired.asked]
  exact List.mem_append_left _ (List.mem_append_right _ member)

theorem Paired.askable_sent (paired : Paired router s done waiting sent) :
    ∀ entry ∈ sent, Askable router entry.2 := by
  intro entry member
  refine paired.askable entry ?_
  rw [paired.asked]
  exact List.mem_append_right _ member

/-- What one chunk of requests makes of the server. -/
theorem receive_chunk {session : HttpSession} (fresh : session.Fresh)
    (drained : session.buffer.readable = []) {entries : List (Option Callback × HttpRequest)}
    (askable : ∀ entry ∈ entries, Askable router entry.2) {after : TcpBuffer}
    (appends : session.buffer.append build
      (entries.map fun entry => entry.2.encoded).flatten = .ok after) :
    ∃ final, HttpSession.receive build router
        ((entries.map fun entry => entry.2.encoded).flatten.length + 1) session
        [(entries.map fun entry => entry.2.encoded).flatten] = some (.ok final) ∧ final.Fresh ∧
      final.buffer.readable = [] ∧
      final.routed = session.routed ++ entries.map (fun entry => entry.2.arrival) ∧
      final.sent = session.sent ++ entries.map (fun entry => (wireOf router entry).1) ∧
      final.buffer.prependSize = session.buffer.prependSize := by
  have spec := TcpBuffer.append_returns build fresh.valid appends
  have whole : (entries.map fun entry => entry.2.encoded).flatten =
      stream (entries.map fun entry => (entry.2.encoded, entry.2.arrival)) := by
    rw [stream, List.flatMap_map, ← List.flatMap_def]
  have wellFormed : ∀ request ∈ entries.map (fun entry => (entry.2.encoded, entry.2.arrival)),
      WellFormed request.1 request.2 := by
    intro request member
    obtain ⟨entry, isEntry, rfl⟩ := List.mem_map.mp member
    exact (askable entry isEntry).writable.wellFormed (askable entry isEntry).fits
  have enough : (entries.map fun entry => (entry.2.encoded, entry.2.arrival)).length <
      (entries.map fun entry => entry.2.encoded).flatten.length + 1 := by
    rw [List.length_map, Nat.lt_succ_iff]
    clear appends spec whole wellFormed
    induction entries with
    | nil => exact Nat.zero_le _
    | cons entry others inductionHypothesis =>
      obtain ⟨here, later⟩ := List.forall_mem_cons.mp askable
      have positive : 0 < entry.2.encoded.length := by
        refine List.length_pos_of_ne_nil ?_
        unfold HttpRequest.encoded HttpRequest.encode HttpMsg.encodeBehind
        simp [crlf]
      have fewer := inductionHypothesis later
      rw [List.map_cons, List.flatten_cons, List.length_append, List.length_cons]
      omega
  have holds : after.readable =
      stream (entries.map fun entry => (entry.2.encoded, entry.2.arrival)) := by
    rw [spec.readable_eq, drained, whole]
    rfl
  have appended : HttpSession.Fresh { session with buffer := after } :=
    ⟨spec.valid, fresh.req, fresh.inputBuffer⟩
  obtain ⟨final, returned, freshFinal, empty, answered, isSent⟩ :=
    onMessage_replies build router appended wellFormed holds enough
  refine ⟨final, ?_, freshFinal, empty, ?_, ?_, answered.prependSize.trans spec.prepend_eq⟩
  · rw [HttpSession.receive, appends]
    simp only
    rw [returned]
    rfl
  · rw [answered.routed, List.map_map]
    rfl
  · rw [isSent, List.map_map]
    rfl

/-- Asking a request puts it on its way. -/
theorem paired_ask (paired : Paired router s done waiting sent) (call : HttpCall)
    (callback : Option Callback) (askable : Askable router (call.request peerAddr))
    (taken : s.step build router peerAddr (.ask call callback) = some next) :
    Paired router next done waiting (sent ++ [(callback, call.request peerAddr)]) := by
  obtain rfl := Option.some.inj taken
  refine ⟨?_, ?_, ?_, ?_, paired.called, ?_, paired.inFlight, paired.fresh, paired.drained,
    paired.routed⟩
  · exact (congrArg (· ++ _) paired.asked).trans (List.append_assoc _ _ _)
  · intro entry member
    rcases List.mem_append.mp member with before | last
    · exact paired.askable entry before
    · rw [List.mem_singleton.mp last]
      exact askable
  · rw [List.map_append]
    exact congrArg (· ++ [(call.request peerAddr).encoded]) paired.upstream
  · rw [← List.append_assoc, List.map_append]
    exact congrArg (· ++ [callback]) paired.pending
  · refine ⟨paired.expects.valid, paired.expects.expecting, ?_⟩
    have before := paired.expects.pending
    show _ ≤ (s.client.pendingRequests ++ [callback]).length
    rw [List.length_append]
    omega

/-- What `carryUp` does with requests that fit into the buffer of the server. -/
theorem carryUp_eq (peerAddr : List UInt8) (paired : Paired router s done waiting sent)
    {count : Nat} {after : TcpBuffer}
    (appends : s.server.buffer.append build (s.upstream.take count).flatten = .ok after) :
    ∃ server, s.step build router peerAddr (.carryUp count) = some { s with
        server := server
        upstream := s.upstream.drop count
        downstream := s.downstream ++ wireStream ((sent.take count).map (wireOf router)) } ∧
      server.Fresh ∧ server.buffer.readable = [] ∧
      server.routed = s.server.routed ++ (sent.take count).map (fun entry => entry.2.arrival) ∧
      server.buffer.prependSize = s.server.buffer.prependSize := by
  have chunk : (s.upstream.take count).flatten =
      ((sent.take count).map fun entry => entry.2.encoded).flatten := by
    rw [paired.upstream, List.map_take]
  have askable : ∀ entry ∈ sent.take count, Askable router entry.2 := fun entry member =>
    paired.askable_sent entry (List.mem_of_mem_take member)
  rw [chunk] at appends
  obtain ⟨server, received, fresh, drained, routed, isSent, prependSize⟩ :=
    receive_chunk paired.fresh paired.drained askable appends
  refine ⟨server, ?_, fresh, drained, routed, prependSize⟩
  have behind : (server.sent.drop s.server.sent.length).flatten =
      wireStream ((sent.take count).map (wireOf router)) := by
    rw [isSent, List.drop_left, wireStream, List.flatMap_map, ← List.flatMap_def]
  simp only [step, chunk, received, behind]

/-- Requests that arrive are answered: they wait for their answers. -/
theorem paired_carryUp (paired : Paired router s done waiting sent) (count : Nat)
    (taken : s.step build router peerAddr (.carryUp count) = some next) :
    Paired router next done (waiting ++ sent.take count) (sent.drop count) := by
  cases appends : s.server.buffer.append build (s.upstream.take count).flatten with
  | error fault =>
    simp only [step] at taken
    rw [HttpSession.receive, appends] at taken
    cases taken
  | ok after =>
    obtain ⟨server, stepped, fresh, drained, routed, -⟩ := carryUp_eq peerAddr paired appends
    obtain rfl := Option.some.inj (stepped.symm.trans taken)
    have shares : waiting ++ sent.take count ++ sent.drop count = waiting ++ sent := by
      rw [List.append_assoc, List.take_append_drop]
    refine ⟨?_, paired.askable, ?_, ?_, paired.called, ⟨paired.expects.valid, ?_, ?_⟩, ?_, fresh,
      drained, ?_⟩
    · rw [List.append_assoc, shares, ← List.append_assoc]
      exact paired.asked
    · show s.upstream.drop count = _
      rw [paired.upstream, List.map_drop]
    · rw [shares]
      exact paired.pending
    · have expecting := paired.expects.expecting
      cases waiting with
      | nil =>
        obtain ⟨nothing, isCleared⟩ := expecting
        show Expecting _ s.client.buffer.readable s.client.response
        rw [nothing, isCleared]
        exact expecting_nil (wireOf_onWire fun entry member =>
          paired.askable_sent entry (List.mem_of_mem_take member))
      | cons entry others => exact expecting
    · show _ ≤ s.client.pendingRequests.length
      have fewer : (waiting ++ sent.take count).length ≤ (waiting ++ sent).length :=
        (shares ▸ List.prefix_append _ (sent.drop count)).length_le
      rw [paired.pending, List.length_map, List.length_map]
      exact fewer
    · show s.client.buffer.readable ++ (s.downstream ++ _) = _
      rw [← List.append_assoc, paired.inFlight, List.map_append, wireStream, wireStream,
        wireStream, List.flatMap_append]
    · show server.routed = _
      rw [routed, paired.routed, ← List.append_assoc]
      simp only [List.map_append]

/-- What `carryDown` does with bytes that fit into the buffer of the client. -/
theorem carryDown_eq (peerAddr : List UInt8) (paired : Paired router s done waiting sent)
    {size : Nat} {after : TcpBuffer}
    (appends : s.client.buffer.append build (s.downstream.take size) = .ok after) :
    ∃ client called rest, waiting = called ++ rest ∧
      s.step build router peerAddr (.carryDown size) = some { s with
        client := client
        downstream := s.downstream.drop size } ∧
      HttpClient.Took { s.client with buffer := after } client (called.map (wireOf router))
        (rest.map (wireOf router)) ∧
      client.buffer.readable ++ s.downstream.drop size = wireStream (rest.map (wireOf router)) ∧
      after.prependSize = s.client.buffer.prependSize := by
  have spec := TcpBuffer.append_returns build paired.expects.valid appends
  have small : ∀ wire ∈ waiting.map (wireOf router), wire.1.length ≤ maxSize := by
    intro wire member
    obtain ⟨entry, isEntry, rfl⟩ := List.mem_map.mp member
    exact (paired.askable_waiting entry isEntry).answerFits
  have expects : HttpClient.Expects { s.client with buffer := after }
      (waiting.map (wireOf router)) s.client.buffer.readable :=
    ⟨spec.valid, paired.expects.expecting, paired.expects.pending⟩
  have shape : s.client.buffer.readable ++ s.downstream.take size ++ s.downstream.drop size =
      wireStream (waiting.map (wireOf router)) := by
    rw [List.append_assoc, List.take_append_drop]
    exact paired.inFlight
  obtain ⟨client, doneWires, restWires, returned, isWires, took, left⟩ :=
    onMessage_takes build expects (wireOf_onWire paired.askable_waiting) small spec.readable_eq
      shape (by
      show after.readable.length + 2 ≤
        s.client.buffer.readable.length + (s.downstream.take size).length + 2
      rw [spec.readable_eq, List.length_append])
  obtain ⟨called, rest, isWaiting, rfl, rfl⟩ := List.map_eq_append_iff.mp isWires
  refine ⟨client, called, rest, isWaiting, ?_, took, left, spec.prepend_eq⟩
  have received : HttpClient.receive build
      (s.client.buffer.readable.length + (s.downstream.take size).length + 2) s.client
      [s.downstream.take size] = some (.ok client) := by
    rw [HttpClient.receive, appends]
    simp only
    rw [returned]
    rfl
  simp only [step, received]

/-- Bytes that arrive complete some answers, and their callbacks are called. -/
theorem paired_carryDown (paired : Paired router s done waiting sent) (size : Nat)
    (taken : s.step build router peerAddr (.carryDown size) = some next) :
    ∃ called rest, waiting = called ++ rest ∧ Paired router next (done ++ called) rest sent := by
  cases appends : s.client.buffer.append build (s.downstream.take size) with
  | error fault =>
    simp only [step] at taken
    rw [HttpClient.receive, appends] at taken
    cases taken
  | ok after =>
    obtain ⟨client, called, rest, rfl, stepped, took, left, -⟩ :=
      carryDown_eq peerAddr paired appends
    obtain rfl := Option.some.inj (stepped.symm.trans taken)
    refine ⟨called, rest, rfl, ?_⟩
    have pending : s.client.pendingRequests =
        called.map Prod.fst ++ (rest ++ sent).map Prod.fst := by
      rw [paired.pending, List.append_assoc, List.map_append]
    refine ⟨?_, paired.askable, paired.upstream, ?_, ?_, took.expects, left, paired.fresh,
      paired.drained, ?_⟩
    · show s.asked = _
      rw [paired.asked]
      simp only [List.append_assoc]
    · show client.pendingRequests = _
      rw [took.pending, List.length_map]
      show s.client.pendingRequests.drop called.length = _
      rw [pending, List.drop_left' (List.length_map _)]
    · show client.called = _
      rw [took.called, List.length_map]
      show s.client.called ++ callsOf (s.client.pendingRequests.take called.length) _ = _
      rw [pending, List.take_left' (List.length_map _), paired.called, List.map_append,
        List.map_append, callsOf_append (by rw [List.length_map, List.length_map]), List.map_map]
      rfl
    · show s.server.routed = _
      rw [paired.routed, List.append_assoc]

end

/-! ### Every callback gets the answer to its own request -/

/-- A connection on which nothing has been asked. -/
structure Connected (s : HttpExchange Callback) : Prop where
  clientValid : s.client.buffer.Valid
  clientDrained : s.client.buffer.readable = []
  clientCleared : s.client.response = HttpResponse.cleared
  nonePending : s.client.pendingRequests = []
  noneCalled : s.client.called = []
  serverFresh : s.server.Fresh
  serverDrained : s.server.buffer.readable = []
  noneRouted : s.server.routed = []
  nothingUp : s.upstream = []
  nothingDown : s.downstream = []
  noneAsked : s.asked = []

theorem paired_connected (router : HttpRouter) {s : HttpExchange Callback}
    (connected : Connected s) : Paired router s [] [] [] where
  asked := connected.noneAsked
  askable := by
    rw [connected.noneAsked]
    nofun
  upstream := connected.nothingUp
  pending := connected.nonePending
  called := connected.noneCalled
  expects := by
    refine ⟨connected.clientValid, ⟨connected.clientDrained, connected.clientCleared⟩, ?_⟩
    exact Nat.zero_le _
  inFlight := by
    rw [connected.clientDrained, connected.nothingDown]
    rfl
  fresh := connected.serverFresh
  drained := connected.serverDrained
  routed := connected.noneRouted

/-- Every request that was asked is in its place. -/
def Placed (router : HttpRouter) (s : HttpExchange Callback) : Prop :=
  ∃ done waiting sent, Paired router s done waiting sent

/-- In every state of a run each request is in its place. -/
theorem run_placed {build : Build} {router : HttpRouter} {peerAddr : List UInt8}
    {start s : HttpExchange Callback} (connected : Connected start)
    {acts : List (Act Callback)} (run : Run (StepOf (step build router peerAddr)) start acts s)
    (askable : ∀ call callback, .ask call callback ∈ acts →
      Askable router (call.request peerAddr)) :
    Placed router s := by
  have initially : Placed router start := ⟨[], [], [], paired_connected router connected⟩
  have unconditional : Meets (StepOf (step build router peerAddr)) (fun _ _ => True) start acts :=
    fun _ _ _ _ _ _ => trivial
  refine run.invariant_on initially (fun state act next member placed _ taken => ?_) unconditional
  obtain ⟨done, waiting, sent, paired⟩ := placed
  cases act with
  | ask call callback =>
    exact ⟨_, _, _, paired_ask paired call callback (askable call callback member) taken⟩
  | carryUp count => exact ⟨_, _, _, paired_carryUp paired count taken⟩
  | carryDown size =>
    obtain ⟨called, rest, -, later⟩ := paired_carryDown paired size taken
    exact ⟨_, _, _, later⟩

/-- An answer to a request: the handler saw the method, the query URL, the body and the headers
that were asked, and the client read the status line, the body and the headers that it made, with
the names of all headers in lower case and the automatic ones over them. -/
def Answers (router : HttpRouter) (asked : HttpRequest) (answer : HttpResponse) : Prop :=
  ∃ seen resp, resp = respond router seen true ∧
    (seen.method = asked.method ∧ seen.queryUrl = asked.queryUrl ∧
      seen.url = asked.queryUrl.takeWhile (· ≠ 63) ∧ seen.getBody = asked.getBody ∧
      seen.headers = asked.foldedHeaders) ∧
    answer.version = resp.version ∧ answer.status = resp.status ∧
    answer.statusMsg = resp.statusMsg ∧ answer.getBody = resp.getBody ∧
    answer.headers = resp.foldedHeaders

theorem wireOf_answers {router : HttpRouter} {entry : Option Callback × HttpRequest}
    (askable : Askable router entry.2) : Answers router entry.2 (wireOf router entry).2 :=
  ⟨entry.2.arrival, made router entry.2, rfl, askable.writable.arrival_eq, rfl, rfl, rfl,
    HttpMsg.taken_getBody rfl rfl _ _ true, rfl⟩

/-- What an act asks. -/
def Act.asks (peerAddr : List UInt8) : Act Callback → List (Option Callback × HttpRequest)
  | .ask call callback => [(callback, call.request peerAddr)]
  | .carryUp _ => []
  | .carryDown _ => []

theorem step_asked {build : Build} {router : HttpRouter} {peerAddr : List UInt8}
    {s next : HttpExchange Callback} {act : Act Callback}
    (taken : s.step build router peerAddr act = some next) :
    next.asked = s.asked ++ act.asks peerAddr := by
  cases act with
  | ask call callback =>
    obtain rfl := Option.some.inj taken
    rfl
  | carryUp count =>
    simp only [step] at taken
    split at taken
    · obtain rfl := Option.some.inj taken
      exact (List.append_nil _).symm
    · cases taken
  | carryDown size =>
    simp only [step] at taken
    split at taken
    · obtain rfl := Option.some.inj taken
      exact (List.append_nil _).symm
    · cases taken

theorem run_asked {build : Build} {router : HttpRouter} {peerAddr : List UInt8}
    {start s : HttpExchange Callback} {acts : List (Act Callback)}
    (run : Run (StepOf (step build router peerAddr)) start acts s) :
    s.asked = start.asked ++ acts.flatMap (Act.asks peerAddr) := by
  induction run with
  | nil => exact (List.append_nil _).symm
  | snoc run last inductionHypothesis =>
    rw [step_asked last, inductionHypothesis, List.append_assoc, List.flatMap_append,
      List.flatMap_singleton]

/-- A response that is expected has not arrived as a whole. -/
theorem Paired.part {router : HttpRouter} {s : HttpExchange Callback}
    {done others sent : List (Option Callback × HttpRequest)}
    {entry : Option Callback × HttpRequest}
    (paired : Paired router s done (entry :: others) sent) :
    s.client.buffer.readable.length < (wireOf router entry).1.length := by
  obtain ⟨⟨missing, nonempty, shape⟩, -⟩ : HttpResponse.Partly (wireOf router entry).1
    s.client.buffer.readable s.client.response := paired.expects.expecting
  have sizes := congrArg List.length shape
  have longer := List.length_pos_of_ne_nil nonempty
  rw [List.length_append] at sizes
  omega

/-- Once nothing is on its way, no request waits. -/
theorem Paired.none_left {router : HttpRouter} {s : HttpExchange Callback}
    {done waiting sent : List (Option Callback × HttpRequest)}
    (paired : Paired router s done waiting sent) (nothingUp : s.upstream = [])
    (nothingDown : s.downstream = []) : waiting = [] ∧ sent = [] := by
  have noneSent : sent = [] := List.map_eq_nil_iff.mp (paired.upstream.symm.trans nothingUp)
  refine ⟨?_, noneSent⟩
  cases waiting with
  | nil => rfl
  | cons entry others =>
    exfalso
    have part := paired.part
    have sizes := congrArg List.length paired.inFlight
    rw [nothingDown, List.append_nil, wireStream, List.map_cons, List.flatMap_cons,
      List.length_append] at sizes
    omega

/-! ### A connection whose server answers with the query URL of the request -/

/-- A router with one route. -/
def echoRouter : HttpRouter where
  routes := [(text "/a", .get, fun req resp => { resp with body := req.queryUrl })]
  defaultHandler := defaultNotFoundHandler

/-- A new connection. -/
def newExchange : HttpExchange Nat where
  client := { twoPending with pendingRequests := [] }
  server := newSession
  upstream := []
  downstream := []
  asked := []

theorem newExchange_connected : Connected newExchange :=
  ⟨⟨by decide, by decide, by decide, TcpBuffer.le_maxSize (by decide)⟩, by decide, rfl, rfl, rfl,
    newSession_fresh, by decide, rfl, rfl, rfl, rfl⟩

/-- The second request is asked while the answer to the first one is on its way. -/
def overlapping : List (Act Nat) :=
  [.ask (.get (text "/a?1")) (some 1), .carryUp 1, .ask (.get (text "/a?2")) none, .carryDown 40,
    .carryUp 1, .carryDown 80]

theorem overlapping_askable : ∀ call callback, .ask call callback ∈ overlapping →
    Askable echoRouter (call.request (text "10.0.0.1:80")) := by
  intro call callback member
  simp only [overlapping, List.mem_cons, Act.ask.injEq, reduceCtorEq, List.not_mem_nil, or_false,
    false_or] at member
  rcases member with ⟨rfl, -⟩ | ⟨rfl, -⟩
  · exact ⟨by decide +kernel, by decide +kernel, by decide +kernel, by decide +kernel⟩
  · exact ⟨by decide +kernel, by decide +kernel, by decide +kernel, by decide +kernel⟩

theorem overlapping_executes : (exec (step .debug echoRouter (text "10.0.0.1:80")) newExchange
    overlapping).isSome = true := by
  decide +kernel

/-! ### Every callback that is called gets its answer -/

/-- Whatever the order in which requests are asked on the loop thread, requests arrive and bytes
arrive: the callbacks that were called are those of the first requests that were asked, one call
for each that has a callback, in the order they were asked, and each was given the answer to its
own request; the others are pending, also in that order; and once nothing is on its way, none is
pending. -/
theorem exchange_pairs (build : Build) (router : HttpRouter) (peerAddr : List UInt8)
    (start s : HttpExchange Callback) (connected : Connected start) (acts : List (Act Callback))
    (run : Run (StepOf (step build router peerAddr)) start acts s)
    (askable : ∀ call callback, .ask call callback ∈ acts →
      Askable router (call.request peerAddr)) :
    ∃ done rest answers, acts.flatMap (Act.asks peerAddr) = done ++ rest ∧
      s.client.called = callsOf (done.map Prod.fst) answers ∧
      List.Forall₂ (fun entry answer => Answers router entry.2 answer) done answers ∧
      s.client.pendingRequests = rest.map Prod.fst ∧
      (s.upstream = [] → s.downstream = [] → rest = []) := by
  obtain ⟨done, waiting, sent, paired⟩ := run_placed connected run askable
  have asked := run_asked run
  rw [connected.noneAsked, List.nil_append] at asked
  refine ⟨done, waiting ++ sent, done.map fun entry => (wireOf router entry).2, ?_, paired.called,
    ?_, paired.pending, fun nothingUp nothingDown => ?_⟩
  · rw [← asked, paired.asked, List.append_assoc]
  · rw [List.forall₂_map_right_iff, List.forall₂_same]
    intro entry member
    refine wireOf_answers (paired.askable entry ?_)
    rw [paired.asked]
    exact List.mem_append_left _ (List.mem_append_left _ member)
  · obtain ⟨rfl, rfl⟩ := paired.none_left nothingUp nothingDown
    rfl

/-- In the end the first callback has been called and the second request is pending. -/
theorem exchange_pairs_overlapping : ∃ s,
    exec (step .debug echoRouter (text "10.0.0.1:80")) newExchange overlapping = some s ∧
      ∃ done rest answers, overlapping.flatMap (Act.asks (text "10.0.0.1:80")) = done ++ rest ∧
        s.client.called = callsOf (done.map Prod.fst) answers ∧
        List.Forall₂ (fun entry answer => Answers echoRouter entry.2 answer) done answers ∧
        s.client.pendingRequests = rest.map Prod.fst ∧
        (s.upstream = [] → s.downstream = [] → rest = []) := by
  obtain ⟨s, executed⟩ := Option.isSome_iff_exists.mp overlapping_executes
  exact ⟨s, executed, exchange_pairs .debug echoRouter (text "10.0.0.1:80") newExchange s
    newExchange_connected overlapping (run_of_exec executed) overlapping_askable⟩

/-! ### The exchange is never stuck -/

/-- Nothing is asked. -/
def Act.Delivers : Act Callback → Prop
  | .ask _ _ => False
  | .carryUp _ => True
  | .carryDown _ => True

theorem asks_deliveries {peerAddr : List UInt8} {deliveries : List (Act Callback)}
    (deliver : ∀ act ∈ deliveries, act.Delivers) :
    deliveries.flatMap (Act.asks peerAddr) = [] := by
  rw [List.flatMap_eq_nil_iff]
  intro act member
  cases act with
  | ask call callback => exact (deliver _ member).elim
  | carryUp count => rfl
  | carryDown size => rfl

/-- Each request and each answer fits alone into the buffer where it arrives. -/
structure Roomy (router : HttpRouter) (s : HttpExchange Callback) : Prop where
  server : ∀ entry ∈ s.asked, s.server.buffer.prependSize + entry.2.encoded.length ≤ maxSize
  client : ∀ entry ∈ s.asked,
    s.client.buffer.prependSize + (wireOf router entry).1.length ≤ maxSize

instance roomyDecidable (router : HttpRouter) (s : HttpExchange Callback) :
    Decidable (Roomy router s) :=
  decidable_of_iff
    ((∀ entry ∈ s.asked, s.server.buffer.prependSize + entry.2.encoded.length ≤ maxSize) ∧
      ∀ entry ∈ s.asked, s.client.buffer.prependSize + (wireOf router entry).1.length ≤ maxSize)
    ⟨fun ⟨server, client⟩ => ⟨server, client⟩, fun roomy => ⟨roomy.server, roomy.client⟩⟩

section

variable {build : Build} {router : HttpRouter} {s : HttpExchange Callback}
  {done waiting sent : List (Option Callback × HttpRequest)}

/-- Requests that fit into the buffer of the server arrive. -/
theorem carryUp_some (build : Build) (peerAddr : List UInt8)
    (paired : Paired router s done waiting sent) {count : Nat}
    (room : s.server.buffer.prependSize + (s.upstream.take count).flatten.length ≤ maxSize) :
    ∃ next, s.step build router peerAddr (.carryUp count) = some next ∧
      next.upstream = s.upstream.drop count ∧ next.client = s.client ∧
      next.server.buffer.prependSize = s.server.buffer.prependSize := by
  have nothing : s.server.buffer.readableSize = 0 := by
    rw [← paired.fresh.valid.readable_length, paired.drained]
    rfl
  rcases TcpBuffer.append_spec build paired.fresh.valid (by omega :
    (s.upstream.take count).flatten.length ≤ maxSize) with ⟨large, -⟩ | ⟨after, appends, -⟩
  · omega
  · obtain ⟨server, stepped, -, -, -, prependSize⟩ := carryUp_eq peerAddr paired appends
    exact ⟨_, stepped, rfl, rfl, prependSize⟩

/-- Bytes that fit into the buffer of the client arrive. -/
theorem carryDown_some (build : Build) (peerAddr : List UInt8)
    (paired : Paired router s done waiting sent) {size : Nat}
    (room : s.client.buffer.prependSize + s.client.buffer.readable.length +
      (s.downstream.take size).length ≤ maxSize) :
    ∃ next, s.step build router peerAddr (.carryDown size) = some next ∧
      next.upstream = s.upstream ∧ next.downstream = s.downstream.drop size ∧
      next.server = s.server ∧ next.client.buffer.prependSize = s.client.buffer.prependSize := by
  rw [paired.expects.valid.readable_length] at room
  rcases TcpBuffer.append_spec build paired.expects.valid (by omega :
    (s.downstream.take size).length ≤ maxSize) with ⟨large, -⟩ | ⟨after, appends, -⟩
  · omega
  · obtain ⟨client, called, rest, -, stepped, took, -, prependSize⟩ :=
      carryDown_eq peerAddr paired appends
    exact ⟨_, stepped, rfl, rfl, rfl, took.prependSize.trans prependSize⟩

/-- A delivery keeps the room. -/
theorem Roomy.delivered {next : HttpExchange Callback} (roomy : Roomy router s)
    (asked : next.asked = s.asked)
    (server : next.server.buffer.prependSize = s.server.buffer.prependSize)
    (client : next.client.buffer.prependSize = s.client.buffer.prependSize) :
    Roomy router next := by
  refine ⟨fun entry member => ?_, fun entry member => ?_⟩
  · rw [server]
    exact roomy.server entry (asked ▸ member)
  · rw [client]
    exact roomy.client entry (asked ▸ member)

/-- The next request arrives. -/
theorem next_arrives (build : Build) (peerAddr : List UInt8) (placed : Placed router s)
    (roomy : Roomy router s) (onItsWay : s.upstream ≠ []) :
    ∃ next, s.step build router peerAddr (.carryUp 1) = some next ∧ Placed router next ∧
      Roomy router next ∧ next.upstream = s.upstream.tail := by
  obtain ⟨done, waiting, sent, paired⟩ := placed
  obtain ⟨entry, others, rfl⟩ : ∃ entry others, sent = entry :: others := by
    refine List.exists_cons_of_ne_nil fun noneSent => onItsWay ?_
    rw [paired.upstream, noneSent]
    rfl
  have member : entry ∈ s.asked := by
    rw [paired.asked]
    exact List.mem_append_right _ List.mem_cons_self
  have chunk : (s.upstream.take 1).flatten = entry.2.encoded := by
    rw [paired.upstream]
    exact List.append_nil _
  obtain ⟨next, stepped, up, client, prependSize⟩ := carryUp_some build peerAddr paired (by
    rw [chunk]
    exact roomy.server entry member)
  have asked := step_asked stepped
  refine ⟨next, stepped, ⟨_, _, _, paired_carryUp paired 1 stepped⟩,
    roomy.delivered (asked.trans (List.append_nil _)) prependSize (by rw [client]), ?_⟩
  rw [up, List.drop_one]

/-- The next byte arrives. -/
theorem byte_arrives (build : Build) (peerAddr : List UInt8) (placed : Placed router s)
    (roomy : Roomy router s) (onItsWay : s.downstream ≠ []) :
    ∃ next, s.step build router peerAddr (.carryDown 1) = some next ∧ Placed router next ∧
      Roomy router next ∧ next.upstream = s.upstream ∧ next.downstream = s.downstream.tail := by
  obtain ⟨done, waiting, sent, paired⟩ := placed
  have inFlight := paired.inFlight
  obtain ⟨entry, others, rfl⟩ : ∃ entry others, waiting = entry :: others := by
    refine List.exists_cons_of_ne_nil fun noneWaiting => onItsWay ?_
    rw [noneWaiting] at inFlight
    exact (List.append_eq_nil_iff.mp inFlight).2
  have member : entry ∈ s.asked := by
    rw [paired.asked]
    exact List.mem_append_left _ (List.mem_append_right _ List.mem_cons_self)
  have part := paired.part
  have fits := roomy.client entry member
  have single : (s.downstream.take 1).length ≤ 1 := List.length_take_le _ _
  have room : s.client.buffer.prependSize + s.client.buffer.readable.length +
      (s.downstream.take 1).length ≤ maxSize := by omega
  obtain ⟨next, stepped, up, down, server, prependSize⟩ :=
    carryDown_some build peerAddr paired room
  obtain ⟨called, rest, -, later⟩ := paired_carryDown paired 1 stepped
  have asked := step_asked stepped
  refine ⟨next, stepped, ⟨_, _, _, later⟩, roomy.delivered (asked.trans (List.append_nil _))
    (by rw [server]) prependSize, up, ?_⟩
  rw [down, List.drop_one]

/-- All requests arrive. -/
theorem requests_arrive (build : Build) (peerAddr : List UInt8) (placed : Placed router s)
    (roomy : Roomy router s) :
    ∃ deliveries final, (∀ act ∈ deliveries, act.Delivers) ∧
      Run (StepOf (step build router peerAddr)) s deliveries final ∧ Placed router final ∧
      Roomy router final ∧ final.upstream = [] := by
  generalize isUpstream : s.upstream = upstream
  induction upstream generalizing s with
  | nil => exact ⟨[], s, nofun, .nil s, placed, roomy, isUpstream⟩
  | cons request others inductionHypothesis =>
    obtain ⟨next, stepped, placedNext, roomyNext, left⟩ :=
      next_arrives build peerAddr placed roomy (by rw [isUpstream]; nofun)
    rw [isUpstream] at left
    obtain ⟨deliveries, final, deliver, run, arrived⟩ :=
      inductionHypothesis placedNext roomyNext left
    exact ⟨.carryUp 1 :: deliveries, final, List.forall_mem_cons.mpr ⟨trivial, deliver⟩,
      .cons stepped run, arrived⟩

/-- All bytes arrive. -/
theorem bytes_arrive (build : Build) (peerAddr : List UInt8) (placed : Placed router s)
    (roomy : Roomy router s) (nothingUp : s.upstream = []) :
    ∃ deliveries final, (∀ act ∈ deliveries, act.Delivers) ∧
      Run (StepOf (step build router peerAddr)) s deliveries final ∧ Placed router final ∧
      final.upstream = [] ∧ final.downstream = [] := by
  generalize isDownstream : s.downstream = downstream
  induction downstream generalizing s with
  | nil => exact ⟨[], s, nofun, .nil s, placed, nothingUp, isDownstream⟩
  | cons byte others inductionHypothesis =>
    obtain ⟨next, stepped, placedNext, roomyNext, up, left⟩ :=
      byte_arrives build peerAddr placed roomy (by rw [isDownstream]; nofun)
    rw [isDownstream] at left
    obtain ⟨deliveries, final, deliver, run, arrived⟩ :=
      inductionHypothesis placedNext roomyNext (up.trans nothingUp) left
    exact ⟨.carryDown 1 :: deliveries, final, List.forall_mem_cons.mpr ⟨trivial, deliver⟩,
      .cons stepped run, arrived⟩

end

/-- In every state of a run, with calls on the loop thread, requests that fit into the buffer of the
server and bytes that fit into that of the client arrive: neither end fails or loops. If each
request and each answer fits alone, some deliveries bring the exchange to an end where every
callback has been called with the answer to its own request. -/
theorem exchange_completes (build : Build) (router : HttpRouter) (peerAddr : List UInt8)
    (start s : HttpExchange Callback) (connected : Connected start) (acts : List (Act Callback))
    (run : Run (StepOf (step build router peerAddr)) start acts s)
    (askable : ∀ call callback, .ask call callback ∈ acts →
      Askable router (call.request peerAddr))
    (roomy : Roomy router s) :
    (∀ count, s.server.buffer.prependSize + (s.upstream.take count).flatten.length ≤ maxSize →
      ∃ next, s.step build router peerAddr (.carryUp count) = some next) ∧
    (∀ size, s.client.buffer.prependSize + s.client.buffer.readable.length +
        (s.downstream.take size).length ≤ maxSize →
      ∃ next, s.step build router peerAddr (.carryDown size) = some next) ∧
    ∃ deliveries final answers, (∀ act ∈ deliveries, act.Delivers) ∧
      Run (StepOf (step build router peerAddr)) s deliveries final ∧
      final.upstream = [] ∧ final.downstream = [] ∧ final.client.pendingRequests = [] ∧
      final.client.called =
        callsOf ((acts.flatMap (Act.asks peerAddr)).map Prod.fst) answers ∧
      List.Forall₂ (fun entry answer => Answers router entry.2 answer)
        (acts.flatMap (Act.asks peerAddr)) answers := by
  have placed := run_placed connected run askable
  obtain ⟨done, waiting, sent, paired⟩ := placed
  refine ⟨fun count room => ?_, fun size room => ?_, ?_⟩
  · obtain ⟨next, stepped, -⟩ := carryUp_some build peerAddr paired room
    exact ⟨next, stepped⟩
  · obtain ⟨next, stepped, -⟩ := carryDown_some build peerAddr paired room
    exact ⟨next, stepped⟩
  · obtain ⟨ups, middle, deliverUps, runUps, placedMiddle, roomyMiddle, nothingUp⟩ :=
      requests_arrive build peerAddr ⟨done, waiting, sent, paired⟩ roomy
    obtain ⟨downs, final, deliverDowns, runDowns, ⟨all, left, onTheirWay, whole⟩, nothingUp,
      nothingDown⟩ := bytes_arrive build peerAddr placedMiddle roomyMiddle nothingUp
    obtain ⟨rfl, rfl⟩ := whole.none_left nothingUp nothingDown
    have asked : all = acts.flatMap (Act.asks peerAddr) := by
      have late := run_asked runDowns
      rw [whole.asked, asks_deliveries deliverDowns, run_asked runUps, asks_deliveries deliverUps,
        run_asked run, connected.noneAsked] at late
      simpa using late
    subst asked
    refine ⟨ups ++ downs, final, _, ?_, runUps.append runDowns, nothingUp, nothingDown,
      whole.pending, whole.called, ?_⟩
    · intro act member
      rcases List.mem_append.mp member with up | down
      · exact deliverUps act up
      · exact deliverDowns act down
    · rw [List.forall₂_map_right_iff, List.forall₂_same]
      intro entry member
      refine wireOf_answers (whole.askable entry ?_)
      rw [whole.asked]
      exact List.mem_append_left _ (List.mem_append_left _ member)

/-- The first two requests of that run are asked, and then everything that is on its way arrives. -/
theorem exchange_completes_overlapping :
    ∃ s, exec (step .debug echoRouter (text "10.0.0.1:80")) newExchange
        (overlapping.take 3) = some s ∧
      ∃ deliveries final answers, (∀ act ∈ deliveries, act.Delivers) ∧
        Run (StepOf (step .debug echoRouter (text "10.0.0.1:80"))) s deliveries final ∧
        final.upstream = [] ∧ final.downstream = [] ∧ final.client.pendingRequests = [] ∧
        final.client.called = callsOf
          (((overlapping.take 3).flatMap (Act.asks (text "10.0.0.1:80"))).map Prod.fst) answers ∧
        List.Forall₂ (fun entry answer => Answers echoRouter entry.2 answer)
          ((overlapping.take 3).flatMap (Act.asks (text "10.0.0.1:80"))) answers := by
  have executes : (exec (step .debug echoRouter (text "10.0.0.1:80")) newExchange
      (overlapping.take 3)).any (fun s => decide (Roomy echoRouter s)) = true := by
    decide +kernel
  obtain ⟨s, executed, fits⟩ := (Option.any_eq_true _ _).mp executes
  exact ⟨s, executed, (exchange_completes .debug echoRouter (text "10.0.0.1:80") newExchange s
    newExchange_connected (overlapping.take 3) (run_of_exec executed)
    (fun call callback member => overlapping_askable call callback (List.mem_of_mem_take member))
    (of_decide_eq_true fits)).2.2⟩

end HttpExchange

end YYNet
