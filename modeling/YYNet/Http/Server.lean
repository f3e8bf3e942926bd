/-
This file models the message loop of the HTTP server and proves when the way a
stream is cut into chunks does not matter to it.

The parser keeps an input buffer of its own, besides the receive buffer of the
connection. Every round of the loop appends the whole receive buffer to it, and
bytes leave the receive buffer only when a request is complete. A request that
arrives in two parts is therefore parsed from its first part, its first part again
and its second part. As long as every chunk consists of whole requests, the input
buffer is empty whenever a chunk arrives, and every request is routed once.
-/

import YYNet.Lib.Loop
import YYNet.Http.Message

namespace YYNet

open Checked Storage

/-! ### The router -/

/-- A handler fills in the response to a request, and only reads the request. -/
abbrev HttpHandler := HttpRequest → HttpResponse → HttpResponse

/-- `HttpRouter`: the routes with their URL, method and handler, and the default handler. -/
structure HttpRouter where
  routes : List (List UInt8 × Method × HttpHandler)
  defaultHandler : HttpHandler

/-- `routeRequest`: the handler of the first route that matches, or the default one. -/
def HttpRouter.routeRequest (router : HttpRouter) (req : HttpRequest) (resp : HttpResponse) :
    HttpResponse :=
  match router.routes.find? fun route => route.1 = req.url ∧ route.2.1 = req.method with
  | some (_, _, handler) => handler req resp
  | none => router.defaultHandler req resp

/-- `defaultNotFoundHandler`. -/
def defaultNotFoundHandler : HttpHandler := fun _ resp =>
  { resp with
    status := 404
    statusMsg := text "Not Found"
    body := text "404 Not Found"
    headers := resp.headers.set (text "Content-Type") (text "text/plain") }

/-! ### The connection -/

/-- A connection of the server: its receive buffer, and `req_` and `inputBuffer_` of its parser. -/
structure HttpSession where
  buffer : TcpBuffer
  req : HttpRequest
  inputBuffer : List UInt8
  /-- The requests handed to `routeRequest`, the first one first. -/
  routed : List HttpRequest
  /-- What was sent, the first message first. -/
  sent : List (List UInt8)
  /-- The calls of `consume`: the size asked for, and `readable_size()` at the call. -/
  consumes : List (Nat × Nat)
  /-- How often `disconnect` was called. -/
  disconnects : Nat
  deriving DecidableEq

namespace HttpSession

/-- What `parseRequest` leaves in the input buffer. -/
def leftover (input : List UInt8) (req : HttpRequest) : ParseResult → List UInt8
  | .complete => input.drop req.getByte
  | .error => []
  | .notComplete => input
  | .continue100 => input

/-- `HttpParser::parseRequest` on the receive buffer. -/
def parseRequest (session : HttpSession) : Except Fault (ParseResult × HttpSession) := do
  let input := session.inputBuffer ++ session.buffer.readable
  if maxSize < input.length then throw .lengthError
  let (result, req) ← session.req.tryDecode input true
  return (result, { session with req := req, inputBuffer := leftover input req result })

/-- The answer to a request that cannot be parsed. -/
def badRequest : HttpResponse :=
  { HttpResponse.cleared with
    status := 400
    statusMsg := text "Bad Request"
    body := text "400 Bad Request"
    headers := (OrderedMap.empty.set (text "Content-Type") (text "text/plain")).set
      (text "Connection") (text "close") }

/-- The answer to a request: what the handler made, with the connection header. -/
def respond (router : HttpRouter) (req : HttpRequest) (keepAlive : Bool) : HttpResponse :=
  let resp := router.routeRequest req HttpResponse.cleared
  let connection := if keepAlive then text "keep-alive" else text "close"
  { resp with headers := resp.headers.set (text "Connection") connection }

/-- `conn->send`. -/
def send (session : HttpSession) (message : List UInt8) : HttpSession :=
  { session with sent := session.sent ++ [message] }

/-- One round of the loop of `onMessage`: whether it returned, and the connection. -/
def round (build : Build) (router : HttpRouter) (session : HttpSession) :
    Except Fault (Bool × HttpSession) := do
  let (result, parsed) ← session.parseRequest
  match result with
  | .error =>
    let answered := parsed.send (badRequest.encode []).2
    return (true, { answered with disconnects := answered.disconnects + 1 })
  | .continue100 => return (true, parsed.send (text "HTTP/1.1 100 Continue\r\n\r\n"))
  | .notComplete => return (true, parsed)
  | .complete =>
    let keepAlive : Bool := parsed.req.getHeader (text "connection") ≠ text "close"
    let answered := { parsed with routed := parsed.routed ++ [parsed.req] }.send
      ((respond router parsed.req keepAlive).encode []).2
    let buffer ← parsed.buffer.consume build parsed.req.getByte
    let consumed := { answered with
      buffer := buffer
      consumes := answered.consumes ++ [(parsed.req.getByte, parsed.buffer.readableSize)] }
    if keepAlive then
      return (false, { consumed with req := HttpRequest.cleared, inputBuffer := [] })
    else return (false, { consumed with disconnects := consumed.disconnects + 1 })

/-- `onMessage`, in at most as many rounds as the fuel. -/
def onMessage (build : Build) (router : HttpRouter) :
    Nat → HttpSession → Option (Except Fault HttpSession)
  | 0, _ => none
  | fuel + 1, session =>
    match session.round build router with
    | .error fault => some (.error fault)
    | .ok (true, final) => some (.ok final)
    | .ok (false, next) => onMessage build router fuel next

/-- Every chunk is appended to the receive buffer and followed by `onMessage`. -/
def receive (build : Build) (router : HttpRouter) (fuel : Nat) :
    HttpSession → List (List UInt8) → Option (Except Fault HttpSession)
  | session, [] => some (.ok session)
  | session, chunk :: more =>
    match session.buffer.append build chunk with
    | .error fault => some (.error fault)
    | .ok buffer =>
      match onMessage build router fuel { session with buffer := buffer } with
      | none => none
      | some (.error fault) => some (.error fault)
      | some (.ok next) => receive build router fuel next more

end HttpSession

/-! ### A request and what follows it -/

namespace HttpMsg

/-- A message that is complete in a buffer is the same in every longer one. -/
theorem tryDecode_append {msg done : HttpMsg} {buf line1 : List UInt8} {copyBody : Bool}
    (small : buf.length ≤ maxSize) (unread : msg.complete = false) (fresh : msg.contentLen = 0)
    (decoded : msg.tryDecode_ buf copyBody = .ok (.complete, done, line1)) (more : List UInt8) :
    msg.tryDecode_ (buf ++ more) copyBody = .ok (.complete, done, line1) := by
  have bound := TcpBuffer.maxSize_lt_sizeModulus
  unfold tryDecode_ at decoded ⊢
  rw [if_neg (by simp [unread]), if_neg (not_not.mpr fresh)] at decoded ⊢
  cases header : msg.decodeHeader buf with
  | missing looked =>
    rw [header] at decoded
    cases decoded
  | malformed looked line =>
    rw [header] at decoded
    cases decoded
  | parsed looked line =>
    have inside := scanned_of_decodeHeader header
    rw [decodeHeader_append (by simp [header]), header]
    rw [header] at decoded
    simp only at decoded ⊢
    split at decoded
    · cases decoded
    · obtain ⟨⟨result, body⟩, bodyDecoded, same⟩ := bind_eq_ok decoded
      obtain ⟨rfl, rfl, rfl⟩ : result = .complete ∧ body = done ∧ line = line1 := by
        simpa using same
      unfold decodeBody at bodyDecoded
      split at bodyDecoded
      · cases bodyDecoded
      · rename_i present
        split at bodyDecoded
        · cases bodyDecoded
        · rename_i isArray
          have needed : addSize looked.contentLen looked.scanned =
              looked.contentLen + looked.scanned := addSize_of_lt (by omega)
          have taken : ((buf ++ more).drop looked.scanned).take looked.contentLen =
              (buf.drop looked.scanned).take looked.contentLen := by
            rw [List.drop_append_of_le_length inside, List.take_append_of_le_length]
            rw [List.length_drop]
            omega
          have longer : ¬ (buf ++ more).length < addSize looked.contentLen looked.scanned := by
            rw [List.length_append]
            omega
          rw [if_neg fun waits => longer waits.1]
          unfold decodeBody
          rw [if_neg longer, if_neg isArray, taken, bodyDecoded]
          rfl

end HttpMsg

namespace HttpRequest

/-- The bytes of a request that keeps the connection: the parser accepts all of them as one
request. -/
structure WellFormed (bytes : List UInt8) (req : HttpRequest) : Prop where
  accepted : cleared.tryDecode bytes true = .ok (.complete, req)
  whole : req.getByte = bytes.length
  keepAlive : req.getHeader (text "connection") ≠ text "close"

/-- A request is parsed the same with other bytes behind it. -/
theorem WellFormed.tryDecode {bytes : List UInt8} {req : HttpRequest}
    (wellFormed : WellFormed bytes req) (small : bytes.length ≤ maxSize) (rest : List UInt8) :
    cleared.tryDecode (bytes ++ rest) true = .ok (.complete, req) := by
  obtain ⟨⟨result, msg, line1⟩, decoded, read⟩ := bind_eq_ok wellFormed.accepted
  obtain ⟨rfl, isRead⟩ : result = .complete ∧ _ = req := Prod.mk.inj (Except.ok.inj read)
  have longer := HttpMsg.tryDecode_append small (by rfl) (by rfl) decoded rest
  unfold HttpRequest.tryDecode
  rw [longer, ok_bind]
  exact read

/-- No bytes are no request. -/
theorem tryDecode_nil : cleared.tryDecode [] true = .ok (.notComplete, cleared) := by
  decide

end HttpRequest

/-! ### Chunks of whole requests -/

namespace HttpSession

open HttpRequest

/-- The bytes of a list of requests. -/
def stream (requests : List (List UInt8 × HttpRequest)) : List UInt8 :=
  requests.flatMap Prod.fst

/-- Every chunk consists of whole requests: the requests can be grouped so that each chunk is
the bytes of one group. -/
def WholeRequests (requests : List (List UInt8 × HttpRequest)) (chunks : List (List UInt8)) :
    Prop :=
  ∃ groups : List (List (List UInt8 × HttpRequest)),
    groups.flatten = requests ∧ groups.map stream = chunks

/-- A connection on which no request has begun: the parser is cleared and holds nothing. -/
structure Fresh (session : HttpSession) : Prop where
  valid : session.buffer.Valid
  req : session.req = cleared
  inputBuffer : session.inputBuffer = []

/-- The connection after some requests were answered and their bytes consumed. -/
structure Answered (session next : HttpSession) (requests : List HttpRequest) : Prop where
  routed : next.routed = session.routed ++ requests
  prependSize : next.buffer.prependSize = session.buffer.prependSize
  consumes : ∀ call ∈ next.consumes, call ∈ session.consumes ∨ call.1 ≤ call.2

theorem Answered.refl (session : HttpSession) : session.Answered session [] :=
  ⟨by simp, rfl, fun _ => .inl⟩

theorem Answered.trans {first second third : HttpSession} {requests more : List HttpRequest}
    (answered : first.Answered second requests) (later : second.Answered third more) :
    first.Answered third (requests ++ more) := by
  refine ⟨?_, later.prependSize.trans answered.prependSize, fun call member => ?_⟩
  · rw [later.routed, answered.routed, List.append_assoc]
  · rcases later.consumes call member with earlier | inside
    · exact answered.consumes call earlier
    · exact .inr inside

section

variable (build : Build) (router : HttpRouter)

/-- A round with a whole request in front. -/
theorem round_whole {session : HttpSession} (fresh : session.Fresh) {bytes rest : List UInt8}
    {req : HttpRequest} (wellFormed : WellFormed bytes req)
    (holds : session.buffer.readable = bytes ++ rest) :
    ∃ next, session.round build router = .ok (false, next) ∧ next.Fresh ∧
      next.buffer.readable = rest ∧ session.Answered next [req] := by
  have valid := fresh.valid
  have size := valid.readable_length
  have inside : bytes.length ≤ session.buffer.readableSize := by
    rw [← size, holds, List.length_append]
    omega
  have small : session.buffer.readableSize ≤ maxSize := by
    have := valid.read_add_readable
    have := valid.write_le_size
    have := valid.size_le_max
    omega
  have input : session.inputBuffer ++ session.buffer.readable = bytes ++ rest := by
    rw [fresh.inputBuffer, holds, List.nil_append]
  have parsed : session.parseRequest = .ok (.complete, { session with
      req := req, inputBuffer := (bytes ++ rest).drop req.getByte }) := by
    unfold parseRequest
    simp only
    rw [input, if_neg (by rw [← holds, size]; omega), fresh.req,
      wellFormed.tryDecode (by omega) rest]
    rfl
  have keeps : decide (req.getHeader (text "connection") ≠ text "close") = true :=
    decide_eq_true wellFormed.keepAlive
  refine ⟨{ session with
      buffer := session.buffer.consumed bytes.length
      req := cleared
      inputBuffer := []
      routed := session.routed ++ [req]
      sent := session.sent ++ [((respond router req true).encode []).2]
      consumes := session.consumes ++ [(bytes.length, session.buffer.readableSize)] }, ?_,
    ⟨TcpBuffer.consumed_valid valid _, rfl, rfl⟩, ?_, ⟨rfl, ?_, fun call member => ?_⟩⟩
  · unfold round
    rw [parsed, ok_bind]
    simp only
    rw [wellFormed.whole, TcpBuffer.consume_eq build valid inside, ok_bind, keeps, if_pos rfl]
    rfl
  · show (session.buffer.consumed bytes.length).readable = rest
    rw [TcpBuffer.consumed_readable valid, holds, List.drop_left]
  · exact TcpBuffer.consumed_prependSize _
  · rcases List.mem_append.mp member with earlier | last
    · exact .inl earlier
    · obtain rfl := List.mem_singleton.mp last
      exact .inr inside

/-- A round with nothing to read returns and changes nothing. -/
theorem round_empty {session : HttpSession} (fresh : session.Fresh)
    (empty : session.buffer.readable = []) :
    session.round build router = .ok (true, session) := by
  obtain ⟨buffer, req, inputBuffer, routed, sent, consumes, disconnects⟩ := session
  obtain rfl : req = cleared := fresh.req
  obtain rfl : inputBuffer = [] := fresh.inputBuffer
  have empty : buffer.readable = [] := empty
  unfold round parseRequest
  simp only
  rw [empty, List.nil_append, if_neg (by simp), tryDecode_nil]
  rfl

/-- `onMessage` on the bytes of some requests answers each of them. -/
theorem onMessage_whole {session : HttpSession} (fresh : session.Fresh)
    {requests : List (List UInt8 × HttpRequest)}
    (wellFormed : ∀ request ∈ requests, WellFormed request.1 request.2)
    (holds : session.buffer.readable = stream requests) {fuel : Nat}
    (enough : requests.length < fuel) :
    ∃ next, onMessage build router fuel session = some (.ok next) ∧ next.Fresh ∧
      next.buffer.readable = [] ∧ session.Answered next (requests.map Prod.snd) := by
  obtain ⟨fuel, rfl⟩ : ∃ less, fuel = less + 1 := ⟨fuel - 1, by omega⟩
  induction requests generalizing session fuel with
  | nil =>
    refine ⟨session, ?_, fresh, holds, Answered.refl session⟩
    rw [onMessage, round_empty build router fresh holds]
  | cons request others inductionHypothesis =>
    rw [List.length_cons] at enough
    obtain ⟨fuel, rfl⟩ : ∃ less, fuel = less + 1 := ⟨fuel - 1, by omega⟩
    obtain ⟨next, first, freshNext, left, answered⟩ := round_whole build router fresh
      (wellFormed request List.mem_cons_self) (holds.trans List.flatMap_cons)
    obtain ⟨final, returned, freshFinal, empty, later⟩ := inductionHypothesis freshNext
      (fun other member => wellFormed other (List.mem_cons_of_mem _ member)) left fuel (by omega)
    refine ⟨final, ?_, freshFinal, empty, answered.trans later⟩
    rw [onMessage, first]
    exact returned

/-- The chunks of whole requests, one after another. -/
theorem receive_whole {session : HttpSession} (fresh : session.Fresh)
    (empty : session.buffer.readable = []) {groups : List (List (List UInt8 × HttpRequest))}
    (wellFormed : ∀ request ∈ groups.flatten, WellFormed request.1 request.2)
    (room : session.buffer.prependSize + (stream groups.flatten).length ≤ maxSize) {fuel : Nat}
    (enough : groups.flatten.length < fuel) :
    ∃ final, receive build router fuel session (groups.map stream) = some (.ok final) ∧
      session.Answered final (groups.flatten.map Prod.snd) := by
  induction groups generalizing session with
  | nil => exact ⟨session, rfl, Answered.refl session⟩
  | cons group others inductionHypothesis =>
    rw [List.flatten_cons] at wellFormed room enough
    have sizes : (stream (group ++ others.flatten)).length =
        (stream group).length + (stream others.flatten).length := by
      rw [stream, List.flatMap_append, List.length_append]
      rfl
    rw [sizes] at room
    rw [List.length_append] at enough
    have nothing : session.buffer.readableSize = 0 := by
      rw [← fresh.valid.readable_length, empty]
      rfl
    rcases TcpBuffer.append_spec build fresh.valid (by omega : (stream group).length ≤ maxSize)
      with ⟨large, -⟩ | ⟨after, appends, spec⟩
    · omega
    have appended : Fresh { session with buffer := after } :=
      ⟨spec.valid, fresh.req, fresh.inputBuffer⟩
    have holds : after.readable = stream group := by
      rw [spec.readable_eq, empty, List.nil_append]
    obtain ⟨next, returned, freshNext, emptyNext, answered⟩ := onMessage_whole build router
      appended (fun request member => wellFormed request (List.mem_append_left _ member)) holds
      (by omega : group.length < fuel)
    have prepend : next.buffer.prependSize = session.buffer.prependSize :=
      answered.prependSize.trans spec.prepend_eq
    obtain ⟨final, received, later⟩ := inductionHypothesis freshNext emptyNext
      (fun request member => wellFormed request (List.mem_append_right _ member))
      (by omega) (by omega)
    have whole : session.Answered next (group.map Prod.snd) :=
      ⟨answered.routed, prepend, answered.consumes⟩
    refine ⟨final, ?_, ?_⟩
    · rw [List.map_cons, receive, appends]
      simp only
      rw [returned]
      exact received
    · rw [List.flatten_cons, List.map_append]
      exact whole.trans later

/-- `onMessage` is the loop of its rounds. -/
theorem onMessage_eq_run (fuel : Nat) (session : HttpSession) :
    onMessage build router fuel session = Loop.run (round build router) fuel session := by
  induction fuel generalizing session with
  | zero => rfl
  | succ fuel inductionHypothesis =>
    rw [onMessage, Loop.run]
    rcases session.round build router with fault | ⟨_ | _, next⟩
    · rfl
    · exact inductionHypothesis next
    · rfl

/-- More fuel does not change what became of the chunks. -/
theorem receive_mono {session : HttpSession} {chunks : List (List UInt8)} {fuel : Nat}
    {outcome : Except Fault HttpSession}
    (received : receive build router fuel session chunks = some outcome) {more : Nat}
    (enough : fuel ≤ more) : receive build router more session chunks = some outcome := by
  induction chunks generalizing session with
  | nil => exact received
  | cons chunk others inductionHypothesis =>
    rw [receive] at received ⊢
    cases appended : session.buffer.append build chunk with
    | error fault =>
      rw [appended] at received
      exact received
    | ok buffer =>
      rw [appended] at received
      simp only at received ⊢
      cases called : onMessage build router fuel { session with buffer := buffer } with
      | none =>
        rw [called] at received
        cases received
      | some result =>
        have longer : onMessage build router more { session with buffer := buffer } =
            some result := by
          rw [onMessage_eq_run] at called ⊢
          exact Loop.run_mono called enough
        rw [longer]
        rw [called] at received
        cases result with
        | error fault => exact received
        | ok next => exact inductionHypothesis received

end

/-- The requests of a stream are routed as if it had come in one chunk: each of them once, in
order, and `consume` is never asked for more than there is. -/
def Unfragmented (build : Build) (router : HttpRouter) (session : HttpSession)
    (requests : List (List UInt8 × HttpRequest)) (chunks : List (List UInt8)) : Prop :=
  ∃ fuel final whole,
    receive build router fuel session chunks = some (.ok final) ∧
    receive build router fuel session [stream requests] = some (.ok whole) ∧
    final.routed = whole.routed ∧ final.routed = session.routed ++ requests.map Prod.snd ∧
    ∀ call ∈ final.consumes, call ∈ session.consumes ∨ call.1 ≤ call.2

/-- For every stream of well-formed requests that keep the connection and every way of cutting
it into chunks of whole requests, the server routes the same requests as when the stream comes
in one chunk, each of them once, and consumes at most what is readable. The stream is an array
that the receive buffer can hold. -/
theorem fragmentation_independent (build : Build) (router : HttpRouter) (session : HttpSession)
    (requests : List (List UInt8 × HttpRequest)) (chunks : List (List UInt8))
    (fresh : session.Fresh) (empty : session.buffer.readable = [])
    (wellFormed : ∀ request ∈ requests, WellFormed request.1 request.2)
    (room : session.buffer.prependSize + (stream requests).length ≤ maxSize)
    (whole : WholeRequests requests chunks) :
    session.Unfragmented build router requests chunks := by
  obtain ⟨groups, rfl, rfl⟩ := whole
  have single : [groups.flatten].flatten = groups.flatten := by simp
  have wellFormedOnce : ∀ request ∈ [groups.flatten].flatten, WellFormed request.1 request.2 := by
    rw [single]
    exact wellFormed
  obtain ⟨final, received, answered⟩ := receive_whole build router fresh empty wellFormed room
    (Nat.lt_succ_self _)
  obtain ⟨once, receivedOnce, answeredOnce⟩ := receive_whole build router fresh empty
    wellFormedOnce (by rw [single]; exact room) (by rw [single]; exact Nat.lt_succ_self _)
  rw [single] at answeredOnce
  exact ⟨_, final, once, received, receivedOnce, answered.routed.trans answeredOnce.routed.symm,
    answered.routed, answered.consumes⟩

/-- A request that the parser accepts, with its bytes. -/
def requestOf (bytes : List UInt8) : List UInt8 × HttpRequest :=
  match cleared.tryDecode bytes true with
  | .ok (_, req) => (bytes, req)
  | .error _ => (bytes, cleared)

/-- A request without a body, and one with arguments and a body. -/
def rootRequest : List UInt8 × HttpRequest := requestOf (text "GET / HTTP/1.1\r\n\r\n")

def formRequest : List UInt8 × HttpRequest :=
  requestOf (text "POST /form?page=2 HTTP/1.1\r\nContent-Length: 4\r\n\r\ntext")

/-- A new connection. -/
def newSession : HttpSession where
  buffer := { buffer := List.replicate 16 0, prependSize := 8, readIndex := 8, writeIndex := 8 }
  req := cleared
  inputBuffer := []
  routed := []
  sent := []
  consumes := []
  disconnects := 0

theorem newSession_fresh : newSession.Fresh :=
  ⟨⟨by decide, by decide, by decide, TcpBuffer.le_maxSize (by decide)⟩, rfl, rfl⟩

/-- A router without routes. -/
def noRoutes : HttpRouter where
  routes := []
  defaultHandler := defaultNotFoundHandler

theorem rootRequest_wellFormed : WellFormed rootRequest.1 rootRequest.2 :=
  ⟨by decide +kernel, by decide +kernel, by decide +kernel⟩

theorem formRequest_wellFormed : WellFormed formRequest.1 formRequest.2 :=
  ⟨by decide +kernel, by decide +kernel, by decide +kernel⟩

/-- Three requests in two chunks. -/
theorem fragmentation_independent_three : newSession.Unfragmented .debug noRoutes
    [formRequest, rootRequest, formRequest]
    [formRequest.1 ++ rootRequest.1, formRequest.1] := by
  refine fragmentation_independent .debug noRoutes newSession _ _ newSession_fresh
    (by decide +kernel) ?_ (by decide +kernel)
    ⟨[[formRequest, rootRequest], [formRequest]], rfl, by decide +kernel⟩
  intro request member
  simp only [List.mem_cons, List.not_mem_nil, or_false] at member
  rcases member with rfl | rfl | rfl
  · exact formRequest_wellFormed
  · exact rootRequest_wellFormed
  · exact formRequest_wellFormed

/-- A request cut behind its first line is refused: the parser sees the first line twice. -/
theorem fragmentation_matters :
    newSession.Fresh ∧ WellFormed rootRequest.1 rootRequest.2 ∧
      [text "GET / HTTP/1.1\r\n", text "\r\n"].flatten = stream [rootRequest] ∧
      ¬ newSession.Unfragmented .release noRoutes [rootRequest]
        [text "GET / HTTP/1.1\r\n", text "\r\n"] := by
  refine ⟨newSession_fresh, rootRequest_wellFormed, by decide +kernel, ?_⟩
  rintro ⟨fuel, final, whole, received, -, -, routed, -⟩
  have evaluated : (receive .release noRoutes 1 newSession
      [text "GET / HTTP/1.1\r\n", text "\r\n"]).bind
        (fun outcome => outcome.toOption.map HttpSession.routed) = some [] := by
    decide +kernel
  obtain ⟨outcome, receivedOne, mapped⟩ := Option.bind_eq_some_iff.mp evaluated
  obtain ⟨refused, isRefused, nothing⟩ := Option.map_eq_some_iff.mp mapped
  obtain rfl := toOption_eq_some isRefused
  have same := receive_mono .release noRoutes receivedOne (Nat.le_max_right fuel 1)
  rw [receive_mono .release noRoutes received (Nat.le_max_left fuel 1)] at same
  obtain rfl := Except.ok.inj (Option.some.inj same)
  rw [nothing] at routed
  cases routed

end HttpSession

end YYNet
