/-
This file proves when the message loops of the HTTP server and the HTTP client
end, and that a message is then answered once: a round answers at most the one
message that it has completed, and consumes its bytes.

Both loops run until a round returns. A round that completes a message goes on,
and it makes progress because the message is consumed and the parser cleared. The
branch for `Connection: close` consumes the message and does not clear the
parser, so the next round finds the same message complete: a release build answers
it again and never returns. The client has no branch for `Continue100`, and goes
on without having consumed anything.

What a decoder leaves behind is described by three of its fields. The server's
parser holds bytes that it has seen, and the invariant says that these alone do
not complete a message.
-/

import YYNet.Lib.Loop
import YYNet.Http.RequestLine
import YYNet.Http.Client
import YYNet.Http.Server

namespace YYNet

open Checked Storage Transition

/-! ### What the decoder leaves behind -/

namespace HttpMsg

/-- A message that the decoder can go on with. -/
structure Resumable (msg : HttpMsg) : Prop where
  unread : msg.complete = false
  scanned_le : msg.scanned ≤ maxSize
  scanned_pos : msg.contentLen ≠ 0 → 0 < msg.scanned

/-- A buffer in which the decoder gets no further: the body is too short, or the end of the
header is missing. -/
structure Stalled (msg : HttpMsg) (buf : List UInt8) : Prop where
  body : msg.contentLen ≠ 0 → buf.length < addSize msg.contentLen msg.scanned
  header : msg.contentLen = 0 →
    (seek (buf.drop msg.scanned)).2 = false ∨ (msg.look buf).scanned = 0

/-- What a decoder leaves behind with each of its results. -/
def Outcome (msg : HttpMsg) (buf : List UInt8) : ParseResult → Prop
  | .complete => 0 < msg.scanned ∧ msg.scanned ≤ buf.length
  | .error => msg.Resumable ∧ msg.contentLen = 0
  | .notComplete => msg.Resumable ∧ msg.Stalled buf
  | .continue100 => msg.Resumable ∧ msg.Stalled buf

theorem cleared_resumable : cleared.Resumable :=
  ⟨rfl, Nat.zero_le _, fun open' => absurd rfl open'⟩

/-- Without bytes, a decoder that looks for the header gets no further. -/
theorem stalled_nil {msg : HttpMsg} (empty : msg.contentLen = 0) : msg.Stalled [] := by
  refine ⟨fun open' => absurd empty open', fun _ => .inl ?_⟩
  rw [List.drop_nil]
  rfl

/-- Looking again finds nothing new. -/
theorem seek_again {bytes : List UInt8} (missing : (seek bytes).2 = false) :
    (seek (bytes.drop (seek bytes).1)).2 = false := by
  have resumed := congrArg Prod.snd (seek_append_missing missing [])
  rw [List.append_nil] at resumed
  exact resumed.symm.trans missing

/-- The body is missing, or it is read. -/
theorem decodeBody_cases {msg done : HttpMsg} {buf : List UInt8} {copyBody : Bool}
    {result : ParseResult} (decoded : msg.decodeBody buf copyBody = .ok (result, done)) :
    (result = .notComplete ∧ done = msg ∧ buf.length < addSize msg.contentLen msg.scanned) ∨
      (result = .complete ∧ addSize msg.contentLen msg.scanned ≤ buf.length ∧
        msg.contentLen ≤ maxSize ∧ done.scanned = addSize msg.scanned msg.contentLen) := by
  unfold decodeBody at decoded
  split at decoded
  · rename_i short
    obtain ⟨rfl, rfl⟩ := Prod.mk.inj (Except.ok.inj decoded)
    exact .inl ⟨rfl, rfl, short⟩
  · rename_i present
    split at decoded
    · cases decoded
    · rename_i isArray
      obtain ⟨rfl, rfl⟩ := Prod.mk.inj (Except.ok.inj decoded)
      exact .inr ⟨rfl, not_lt.mp present, not_lt.mp isArray, rfl⟩

/-- Reading the body completes the message or waits for more of it. -/
theorem decodeBody_outcome {msg done : HttpMsg} {buf : List UInt8} {copyBody : Bool}
    {result : ParseResult} (resumable : msg.Resumable) (started : 0 < msg.scanned)
    (openBody : buf.length < addSize msg.contentLen msg.scanned → msg.contentLen ≠ 0)
    (decoded : msg.decodeBody buf copyBody = .ok (result, done)) : done.Outcome buf result := by
  have bound := TcpBuffer.maxSize_lt_sizeModulus
  have scanned := resumable.scanned_le
  rcases decodeBody_cases decoded with ⟨rfl, rfl, short⟩ | ⟨rfl, present, isArray, read⟩
  · exact ⟨resumable, fun _ => short, fun empty => absurd empty (openBody short)⟩
  · have noWrap : addSize msg.contentLen msg.scanned = msg.contentLen + msg.scanned :=
      addSize_of_lt (by omega)
    have noWrap' : addSize msg.scanned msg.contentLen = msg.scanned + msg.contentLen :=
      addSize_of_lt (by omega)
    show 0 < done.scanned ∧ done.scanned ≤ buf.length
    omega

/-- The header is missing, malformed or parsed. -/
theorem decodeHeader_cases (msg : HttpMsg) (buf : List UInt8) :
    (((seek (buf.drop msg.scanned)).2 = false ∨ (msg.look buf).scanned = 0) ∧
        msg.decodeHeader buf = .missing (msg.look buf)) ∨
      (msg.look buf).scanned + 4 ≤ buf.length ∧
        ((∃ headers line1, msg.decodeHeader buf =
            .malformed { msg.look buf with headers := headers } line1) ∨
          ∃ headers line1, msg.decodeHeader buf = .parsed { msg.look buf with
            headers := headers
            contentLen := contentLenOf headers
            scanned := (msg.look buf).scanned + 4 } line1) := by
  unfold decodeHeader
  split
  · rename_i missing
    exact .inl ⟨missing, rfl⟩
  · rename_i found
    have bound := seek_found_le (Bool.eq_true_of_not_eq_false fun missing => found (.inl missing))
    rw [List.length_drop] at bound
    have inside : (msg.look buf).scanned + 4 ≤ buf.length := by
      show msg.scanned + (seek (buf.drop msg.scanned)).1 + 4 ≤ buf.length
      omega
    refine .inr ⟨inside, ?_⟩
    unfold parseHeader
    simp only
    split
    · exact .inl ⟨_, _, rfl⟩
    · exact .inr ⟨_, _, rfl⟩

/-- A decoder that did not find the end of the header does not find it by looking again. -/
theorem stalled_look {msg : HttpMsg} {buf : List UInt8} (empty : msg.contentLen = 0)
    (missing : (seek (buf.drop msg.scanned)).2 = false ∨ (msg.look buf).scanned = 0) :
    (msg.look buf).Stalled buf := by
  refine ⟨fun open' => absurd empty open', fun _ => ?_⟩
  rcases missing with nothing | atFront
  · refine .inl ?_
    show (seek (buf.drop (msg.scanned + (seek (buf.drop msg.scanned)).1))).2 = false
    rw [← List.drop_drop]
    exact seek_again nothing
  · have unmoved : msg.look buf = msg := by
      have sum : msg.scanned + (seek (buf.drop msg.scanned)).1 = 0 := atFront
      unfold look
      rw [sum, show 0 = msg.scanned by omega]
    rw [unmoved] at atFront ⊢
    exact .inr (by rw [unmoved]; exact atFront)

theorem look_resumable {msg : HttpMsg} {buf : List UInt8} (resumable : msg.Resumable)
    (small : buf.length ≤ maxSize) (empty : msg.contentLen = 0) : (msg.look buf).Resumable := by
  have found := seek_le (buf.drop msg.scanned)
  have scanned := resumable.scanned_le
  rw [List.length_drop] at found
  refine ⟨resumable.unread, ?_, fun open' => absurd empty open'⟩
  show msg.scanned + (seek (buf.drop msg.scanned)).1 ≤ maxSize
  omega

/-- With the header in the buffer, only a body can be missing. -/
theorem contentLen_ne_zero {msg : HttpMsg} {buf : List UInt8} (inside : msg.scanned ≤ buf.length)
    (small : buf.length ≤ maxSize)
    (short : buf.length < addSize msg.contentLen msg.scanned) : msg.contentLen ≠ 0 := by
  intro empty
  have bound := TcpBuffer.maxSize_lt_sizeModulus
  rw [empty, addSize_of_lt (by omega)] at short
  omega

/-- What one call of `tryDecode_` leaves behind. -/
theorem tryDecode_outcome {msg done : HttpMsg} {buf line1 : List UInt8} {copyBody : Bool}
    {result : ParseResult} (resumable : msg.Resumable) (small : buf.length ≤ maxSize)
    (decoded : msg.tryDecode_ buf copyBody = .ok (result, done, line1)) :
    done.Outcome buf result := by
  unfold tryDecode_ at decoded
  rw [if_neg (by simp [resumable.unread])] at decoded
  split at decoded
  · rename_i openBody
    obtain ⟨⟨found, body⟩, read, same⟩ := bind_eq_ok decoded
    obtain ⟨rfl, rfl, -⟩ : found = result ∧ body = done ∧ [] = line1 := by simpa using same
    exact decodeBody_outcome resumable (resumable.scanned_pos openBody) (fun _ => openBody) read
  · rename_i noBody
    have noBody : msg.contentLen = 0 := not_not.mp noBody
    rcases decodeHeader_cases msg buf with
      ⟨missing, header⟩ | ⟨inside, ⟨headers, line, header⟩ | ⟨headers, line, header⟩⟩
    · rw [header] at decoded
      obtain ⟨rfl, rfl, -⟩ : ParseResult.notComplete = result ∧ msg.look buf = done ∧
        [] = line1 := by simpa using decoded
      exact ⟨look_resumable resumable small noBody, stalled_look noBody missing⟩
    · rw [header] at decoded
      obtain ⟨rfl, rfl, -⟩ : ParseResult.error = result ∧
        { msg.look buf with headers := headers } = done ∧ line = line1 := by simpa using decoded
      have looked := look_resumable resumable small noBody
      exact ⟨⟨looked.unread, looked.scanned_le, looked.scanned_pos⟩, noBody⟩
    · rw [header] at decoded
      generalize isParsed : ({ msg.look buf with
        headers := headers
        contentLen := contentLenOf headers
        scanned := (msg.look buf).scanned + 4 } : HttpMsg) = parsed at decoded
      have unread : parsed.complete = false := by
        rw [← isParsed]
        exact resumable.unread
      have scanned : parsed.scanned = (msg.look buf).scanned + 4 := by rw [← isParsed]
      have waits : buf.length < addSize parsed.contentLen parsed.scanned →
          parsed.contentLen ≠ 0 := contentLen_ne_zero (by omega) small
      have goesOn : parsed.Resumable := ⟨unread, by omega, fun _ => by omega⟩
      simp only at decoded
      split at decoded
      · rename_i short
        obtain ⟨rfl, rfl, -⟩ : ParseResult.continue100 = result ∧ parsed = done ∧
          line = line1 := by simpa using decoded
        exact ⟨goesOn, fun _ => short.1, fun empty => absurd empty (waits short.1)⟩
      · obtain ⟨⟨found, body⟩, read, same⟩ := bind_eq_ok decoded
        obtain ⟨rfl, rfl, -⟩ : found = result ∧ body = done ∧ line = line1 := by
          simpa using same
        exact decodeBody_outcome goesOn (by omega) waits read

/-- A decoder that gets no further does not complete the message. -/
theorem Stalled.not_complete {msg done : HttpMsg} {buf line1 : List UInt8} {copyBody : Bool}
    {result : ParseResult} (stalled : msg.Stalled buf) (unread : msg.complete = false)
    (decoded : msg.tryDecode_ buf copyBody = .ok (result, done, line1)) : result ≠ .complete := by
  rintro rfl
  unfold tryDecode_ at decoded
  rw [if_neg (by simp [unread])] at decoded
  split at decoded
  · rename_i openBody
    obtain ⟨⟨found, body⟩, read, same⟩ := bind_eq_ok decoded
    obtain ⟨rfl, -, -⟩ : found = .complete ∧ body = done ∧ [] = line1 := by simpa using same
    have short := stalled.body openBody
    rcases decodeBody_cases read with ⟨isWaiting, -, -⟩ | ⟨-, present, -, -⟩
    · cases isWaiting
    · omega
  · rename_i noBody
    unfold decodeHeader at decoded
    rw [if_pos (stalled.header (not_not.mp noBody))] at decoded
    cases decoded

/-- The outcome does not depend on the version. -/
theorem Outcome.withVersion {msg : HttpMsg} {buf : List UInt8} {result : ParseResult}
    (outcome : msg.Outcome buf result) (version : List UInt8) :
    ({ msg with version := version } : HttpMsg).Outcome buf result := by
  cases result with
  | complete => exact outcome
  | error =>
    exact ⟨⟨outcome.1.unread, outcome.1.scanned_le, outcome.1.scanned_pos⟩, outcome.2⟩
  | notComplete =>
    exact ⟨⟨outcome.1.unread, outcome.1.scanned_le, outcome.1.scanned_pos⟩,
      outcome.2.body, outcome.2.header⟩
  | continue100 =>
    exact ⟨⟨outcome.1.unread, outcome.1.scanned_le, outcome.1.scanned_pos⟩,
      outcome.2.body, outcome.2.header⟩

end HttpMsg

/-- What one call of the decoder leaves behind of a request. -/
theorem HttpRequest.tryDecode_outcome {req done : HttpRequest} {buf : List UInt8}
    {copyBody : Bool} {result : ParseResult} (resumable : req.toHttpMsg.Resumable)
    (small : buf.length ≤ maxSize) (decoded : req.tryDecode buf copyBody = .ok (result, done)) :
    done.toHttpMsg.Outcome buf result := by
  obtain ⟨⟨found, msg, line1⟩, decodedMsg, read⟩ := bind_eq_ok decoded
  obtain ⟨rfl, rfl⟩ := Prod.mk.inj (Except.ok.inj read)
  have outcome := HttpMsg.tryDecode_outcome resumable small decodedMsg
  split
  · exact outcome
  · unfold readRequestLine
    rw [parseUrlParams_toHttpMsg]
    exact outcome.withVersion _

/-- What one call of the decoder leaves behind of a response. -/
theorem HttpResponse.tryDecode_outcome {resp done : HttpResponse} {buf behind : List UInt8}
    {copyBody : Bool} {result : ParseResult} (resumable : resp.toHttpMsg.Resumable)
    (small : buf.length ≤ maxSize)
    (decoded : resp.tryDecode buf behind copyBody = .ok (result, done)) :
    done.toHttpMsg.Outcome buf result := by
  obtain ⟨⟨found, msg, line1⟩, decodedMsg, read⟩ := bind_eq_ok decoded
  obtain ⟨rfl, rfl⟩ := Prod.mk.inj (Except.ok.inj read)
  have outcome := HttpMsg.tryDecode_outcome resumable small decodedMsg
  split
  · exact outcome
  · exact outcome.withVersion _

/-! ### The loop of the server -/

namespace HttpSession

/-- What `parseRequest` decodes. -/
def decoded (session : HttpSession) : Except Fault (ParseResult × HttpRequest) :=
  session.req.tryDecode (session.inputBuffer ++ session.buffer.readable) true

/-- The parser completes a request that asks to close the connection. -/
def closing (session : HttpSession) : Bool :=
  match session.decoded with
  | .ok (.complete, req) => req.getHeader (text "connection") = text "close"
  | _ => false

/-- What is sent about a request that is not complete: nothing, that it is refused, or that its
body is expected. -/
def notices : List (List (List UInt8)) :=
  [[], [(badRequest.encode []).2], [text "HTTP/1.1 100 Continue\r\n\r\n"]]

/-- A round has answered at most one request. Either the parser has completed none: then none was
routed, at most one notice was sent, and nothing is consumed. Or it has completed one: then this
one was routed once and answered once, and its bytes are consumed. -/
def AnswersOnce (router : HttpRouter) (session next : HttpSession) : Prop :=
  ((∀ req, session.decoded ≠ .ok (.complete, req)) ∧ next.routed = session.routed ∧
    (∃ notice ∈ notices, next.sent = session.sent ++ notice) ∧
    next.buffer.readable = session.buffer.readable) ∨
  ∃ req, session.decoded = .ok (.complete, req) ∧ next.routed = session.routed ++ [req] ∧
    next.sent = session.sent ++ [((respond router req true).encode []).2] ∧
    next.buffer.readable = session.buffer.readable.drop req.getByte

/-- A connection in front of a round: the parser can go on, and the bytes that it holds do not
complete a request. -/
structure Waiting (session : HttpSession) : Prop where
  valid : session.buffer.Valid
  resumable : session.req.toHttpMsg.Resumable
  stalled : session.req.toHttpMsg.Stalled session.inputBuffer

theorem Fresh.waiting {session : HttpSession} (fresh : session.Fresh) : session.Waiting := by
  refine ⟨fresh.valid, ?_, ?_⟩
  · rw [fresh.req]
    exact HttpMsg.cleared_resumable
  · rw [fresh.req, fresh.inputBuffer]
    exact HttpMsg.stalled_nil rfl

/-- What `parseRequest` returned came from the decoder. -/
theorem parseRequest_cases {session parsed : HttpSession} {result : ParseResult}
    (returned : session.parseRequest = .ok (result, parsed)) :
    ∃ req, (session.inputBuffer ++ session.buffer.readable).length ≤ maxSize ∧
      session.decoded = .ok (result, req) ∧
      parsed = { session with
        req := req
        inputBuffer := leftover (session.inputBuffer ++ session.buffer.readable) req result } := by
  unfold parseRequest at returned
  simp only at returned
  split at returned
  · cases returned
  · rename_i small
    obtain ⟨⟨found, req⟩, decoded, same⟩ := bind_eq_ok returned
    obtain ⟨rfl, rfl⟩ := Prod.mk.inj (Except.ok.inj same)
    exact ⟨req, not_lt.mp small, decoded, rfl⟩

/-- A request is not complete before new bytes arrive. -/
theorem Waiting.readable_ne_nil {session : HttpSession} (waiting : session.Waiting)
    {req : HttpRequest} (decoded : session.decoded = .ok (.complete, req)) :
    session.buffer.readable ≠ [] := by
  intro empty
  unfold HttpSession.decoded at decoded
  rw [empty, List.append_nil] at decoded
  obtain ⟨⟨found, msg, line1⟩, decodedMsg, read⟩ := bind_eq_ok decoded
  obtain ⟨rfl, -⟩ := Prod.mk.inj (Except.ok.inj read)
  exact waiting.stalled.not_complete waiting.resumable.unread decodedMsg rfl

section

variable {build : Build} {router : HttpRouter}

/-- A round that does not complete a request to close the connection answers at most one request,
and leaves a connection in front of a round. When it goes on it has consumed bytes. -/
theorem Waiting.round {session next : HttpSession} {returned : Bool} (waiting : session.Waiting)
    (keeps : session.closing = false)
    (taken : session.round build router = .ok (returned, next)) :
    next.Waiting ∧ session.AnswersOnce router next ∧ (returned = false →
      next.buffer.readable.length < session.buffer.readable.length ∧
        next.disconnects = session.disconnects) := by
  unfold HttpSession.round at taken
  obtain ⟨⟨result, parsed⟩, isParsed, taken⟩ := bind_eq_ok taken
  obtain ⟨req, small, decoded, rfl⟩ := parseRequest_cases isParsed
  have outcome := HttpRequest.tryDecode_outcome waiting.resumable small decoded
  have incomplete (other : result ≠ .complete) (req : HttpRequest) :
      session.decoded ≠ .ok (.complete, req) := by
    rw [decoded]
    exact fun same => other (Prod.mk.inj (Except.ok.inj same)).1
  cases result with
  | error =>
    obtain ⟨rfl, rfl⟩ := Prod.mk.inj (Except.ok.inj taken)
    refine ⟨⟨waiting.valid, outcome.1, HttpMsg.stalled_nil outcome.2⟩, .inl ⟨?_, rfl, ?_, rfl⟩,
      Bool.noConfusion⟩
    · exact incomplete ParseResult.noConfusion
    · exact ⟨[(badRequest.encode []).2], by simp [notices], rfl⟩
  | notComplete =>
    obtain ⟨rfl, rfl⟩ := Prod.mk.inj (Except.ok.inj taken)
    refine ⟨⟨waiting.valid, outcome.1, outcome.2⟩, .inl ⟨?_, rfl, ?_, rfl⟩, Bool.noConfusion⟩
    · exact incomplete ParseResult.noConfusion
    · exact ⟨[], by simp [notices], (List.append_nil _).symm⟩
  | continue100 =>
    obtain ⟨rfl, rfl⟩ := Prod.mk.inj (Except.ok.inj taken)
    refine ⟨⟨waiting.valid, outcome.1, outcome.2⟩, .inl ⟨?_, rfl, ?_, rfl⟩, Bool.noConfusion⟩
    · exact incomplete ParseResult.noConfusion
    · exact ⟨[text "HTTP/1.1 100 Continue\r\n\r\n"], by simp [notices], rfl⟩
  | complete =>
    have keepAlive : decide (req.getHeader (text "connection") ≠ text "close") = true := by
      unfold closing at keeps
      rw [decoded] at keeps
      simpa using keeps
    obtain ⟨buffer, consumed, taken⟩ := bind_eq_ok taken
    obtain rfl := TcpBuffer.consume_returns build waiting.valid consumed
    rw [if_pos keepAlive] at taken
    obtain ⟨rfl, rfl⟩ := Prod.mk.inj (Except.ok.inj taken)
    have nonempty := List.length_pos_iff.mpr (waiting.readable_ne_nil decoded)
    have started : 0 < req.getByte := outcome.1
    refine ⟨⟨TcpBuffer.consumed_valid waiting.valid _, HttpMsg.cleared_resumable,
      HttpMsg.stalled_nil rfl⟩, .inr ⟨req, decoded, rfl, ?_, ?_⟩, fun _ => ⟨?_, rfl⟩⟩
    · show session.sent ++ [((respond router req _).encode []).2] = _
      rw [keepAlive]
    · exact TcpBuffer.consumed_readable waiting.valid _
    · show (session.buffer.consumed req.getByte).readable.length < _
      rw [TcpBuffer.consumed_readable waiting.valid, List.length_drop]
      omega

end

/-- A chunk arrives, and `onMessage` returns. -/
def Call (build : Build) (router : HttpRouter) (session : HttpSession) (chunk : List UInt8)
    (next : HttpSession) : Prop :=
  ∃ after fuel, session.buffer.append build chunk = .ok after ∧
    onMessage build router fuel { session with buffer := after } = some (.ok next)

/-- No request was refused before the call, and none that is completed in it asks to close the
connection. -/
def KeepsAlive (build : Build) (router : HttpRouter) (session : HttpSession)
    (chunk : List UInt8) : Prop :=
  session.disconnects = 0 ∧ ∀ after state, session.buffer.append build chunk = .ok after →
    Loop.Rounds (round build router) { session with buffer := after } state →
      state.closing = false

/-- A call of `onMessage` ends, and every round that goes on consumes bytes of the receive buffer.
Every round answers at most one request, the one that it has completed, and consumes its bytes. No
round starts with a request that was answered already: the parser has not completed one, and none
was refused, which leaves it in the buffer. -/
structure Orderly (build : Build) (router : HttpRouter) (session : HttpSession) : Prop where
  ends : ∃ fuel outcome, onMessage build router fuel session = some outcome
  progress : ∀ state next, Loop.Rounds (round build router) session state →
    state.round build router = .ok (false, next) →
      next.buffer.readable.length < state.buffer.readable.length
  answers : ∀ state returned next, Loop.Rounds (round build router) session state →
    state.round build router = .ok (returned, next) → state.AnswersOnce router next
  once : ∀ state, Loop.Rounds (round build router) session state →
    state.req.complete = false ∧ state.disconnects = 0

section

variable {build : Build} {router : HttpRouter} {session : HttpSession} {chunk : List UInt8}

theorem Waiting.appended (waiting : session.Waiting) {after : TcpBuffer}
    (appends : session.buffer.append build chunk = .ok after) :
    Waiting { session with buffer := after } :=
  ⟨(TcpBuffer.append_returns build waiting.valid appends).valid, waiting.resumable,
    waiting.stalled⟩

/-- Every round of a call starts in front of a round. -/
theorem KeepsAlive.rounds (keeps : session.KeepsAlive build router chunk)
    (waiting : session.Waiting) {after : TcpBuffer}
    (appends : session.buffer.append build chunk = .ok after) {state : HttpSession}
    (reached : Loop.Rounds (HttpSession.round build router) { session with buffer := after } state) :
    state.Waiting ∧ state.disconnects = 0 := by
  refine reached.always (fun state => state.Waiting ∧ state.disconnects = 0)
    ⟨waiting.appended appends, keeps.1⟩ fun state next reached holds taken => ?_
  obtain ⟨waitingNext, -, progress⟩ := holds.1.round (keeps.2 after state appends reached) taken
  exact ⟨waitingNext, (progress rfl).2.trans holds.2⟩

/-- A call in which no request asks to close the connection is orderly. -/
theorem KeepsAlive.orderly (keeps : session.KeepsAlive build router chunk)
    (waiting : session.Waiting) {after : TcpBuffer}
    (appends : session.buffer.append build chunk = .ok after) :
    Orderly build router { session with buffer := after } := by
  have progress : ∀ state next, Loop.Rounds (HttpSession.round build router)
      { session with buffer := after } state → state.round build router = .ok (false, next) →
        next.buffer.readable.length < state.buffer.readable.length := by
    intro state next reached taken
    have holds := keeps.rounds waiting appends reached
    exact ((holds.1.round (keeps.2 after state appends reached) taken).2.2 rfl).1
  refine ⟨?_, progress, fun state returned next reached taken => ?_, fun state reached => ?_⟩
  · obtain ⟨outcome, returned⟩ := Loop.run_ends
      (fun state : HttpSession => state.buffer.readable.length) progress
    exact ⟨_, outcome, (onMessage_eq_run build router _ _).trans returned⟩
  · have holds := keeps.rounds waiting appends reached
    exact (holds.1.round (keeps.2 after state appends reached) taken).2.1
  · have holds := keeps.rounds waiting appends reached
    exact ⟨holds.1.resumable.unread, holds.2⟩

/-- A call that returned leaves a connection in front of a round. -/
theorem KeepsAlive.call (keeps : session.KeepsAlive build router chunk)
    (waiting : session.Waiting) {next : HttpSession}
    (called : Call build router session chunk next) : next.Waiting := by
  obtain ⟨after, fuel, appends, returned⟩ := called
  rw [onMessage_eq_run] at returned
  obtain ⟨last, reached, returns⟩ := Loop.rounds_of_run returned
  have holds := keeps.rounds waiting appends reached
  exact (holds.1.round (keeps.2 after last appends reached) returns).1

/-- Every call of a run is orderly, as long as no request asks to close the connection. -/
theorem calls_orderly {start : HttpSession} (fresh : start.Fresh) {chunks : List (List UInt8)}
    (run : Run (Call build router) start chunks session)
    (meets : Meets (Call build router) (KeepsAlive build router) start (chunks ++ [chunk]))
    {after : TcpBuffer} (appends : session.buffer.append build chunk = .ok after) :
    Orderly build router { session with buffer := after } := by
  obtain ⟨earlier, here⟩ := (meets_snoc _ _ _ _ _).mp meets
  have waiting : session.Waiting := run.invariant fresh.waiting
    (fun state chunk next waiting keeps called => keeps.call waiting called) earlier
  exact (here session run).orderly waiting appends

end

end HttpSession

/-! ### The loop of the client -/

namespace HttpClient

variable {Callback : Type}

/-- What a round decodes. -/
def decoded (client : HttpClient Callback) : Except Fault (ParseResult × HttpResponse) :=
  client.response.tryDecode client.buffer.readable client.buffer.writable true

/-- The decoder completes a response that asks to close the connection, or stops at a header
that expects the client to continue. -/
def lingering (client : HttpClient Callback) : Bool :=
  match client.decoded with
  | .ok (.complete, response) => response.getHeader (text "connection") = text "close"
  | .ok (.continue100, _) => true
  | _ => false

/-- A round has delivered at most one response. Either the decoder has completed none: then no
callback was called and none is taken away. Or it has completed one: then the first pending request
is taken away, its callback, if there is one, was called once with the response, and the bytes of
the response are consumed. -/
def DeliversOnce (client next : HttpClient Callback) : Prop :=
  ((∀ response, client.decoded ≠ .ok (.complete, response)) ∧ next.called = client.called ∧
    next.pendingRequests = client.pendingRequests) ∨
  ∃ response, client.decoded = .ok (.complete, response) ∧
    next.pendingRequests = client.pendingRequests.tail ∧
    next.called = client.called ++
      client.pendingRequests.head?.join.toList.map (fun callback => (callback, response)) ∧
    next.buffer.readable = client.buffer.readable.drop response.getByte

/-- A client in front of a round: the decoder can go on. -/
structure Waiting (client : HttpClient Callback) : Prop where
  valid : client.buffer.Valid
  resumable : client.response.toHttpMsg.Resumable

/-- `onMessage` is the loop of its rounds. -/
theorem onMessage_eq_run (build : Build) (fuel : Nat) (client : HttpClient Callback) :
    onMessage build fuel client = Loop.run (round build) fuel client := by
  induction fuel generalizing client with
  | zero => rfl
  | succ fuel inductionHypothesis =>
    rw [onMessage, Loop.run]
    rcases client.round build with fault | ⟨_ | _, next⟩
    · rfl
    · exact inductionHypothesis next
    · rfl

/-- The answer takes the first pending request away, and calls its callback. -/
theorem answer_eq (client : HttpClient Callback) (response : HttpResponse) :
    (client.answer response).pendingRequests = client.pendingRequests.tail ∧
      (client.answer response).called = client.called ++
        client.pendingRequests.head?.join.toList.map (fun callback => (callback, response)) := by
  unfold answer
  cases isPending : client.pendingRequests with
  | nil =>
    rw [isPending]
    exact ⟨rfl, (List.append_nil _).symm⟩
  | cons context rest => exact ⟨rfl, rfl⟩

/-- A round that neither lingers nor fails delivers at most one response, and leaves a client in
front of a round. When it goes on it has consumed bytes. -/
theorem Waiting.round {build : Build} {client next : HttpClient Callback} {returned : Bool}
    (waiting : client.Waiting) (moves : client.lingering = false)
    (taken : client.round build = .ok (returned, next)) :
    next.Waiting ∧ client.DeliversOnce next ∧ (returned = false →
      next.buffer.readable.length < client.buffer.readable.length) := by
  have small : client.buffer.readable.length ≤ maxSize := by
    have := waiting.valid.read_add_readable
    have := waiting.valid.write_le_size
    have := waiting.valid.size_le_max
    rw [waiting.valid.readable_length]
    omega
  unfold HttpClient.round at taken
  obtain ⟨⟨result, response⟩, decoded, taken⟩ := bind_eq_ok taken
  have outcome := HttpResponse.tryDecode_outcome waiting.resumable small decoded
  have decoded : client.decoded = .ok (result, response) := decoded
  have incomplete (other : result ≠ .complete) (response : HttpResponse) :
      client.decoded ≠ .ok (.complete, response) := by
    rw [decoded]
    exact fun same => other (Prod.mk.inj (Except.ok.inj same)).1
  unfold lingering at moves
  rw [decoded] at moves
  cases result with
  | error =>
    obtain ⟨buffer, consumed, taken⟩ := bind_eq_ok taken
    obtain rfl := TcpBuffer.consume_returns build waiting.valid consumed
    obtain ⟨rfl, rfl⟩ := Prod.mk.inj (Except.ok.inj taken)
    exact ⟨⟨TcpBuffer.consumed_valid waiting.valid _, outcome.1⟩,
      .inl ⟨incomplete ParseResult.noConfusion, rfl, rfl⟩, Bool.noConfusion⟩
  | notComplete =>
    obtain ⟨rfl, rfl⟩ := Prod.mk.inj (Except.ok.inj taken)
    exact ⟨⟨waiting.valid, outcome.1⟩, .inl ⟨incomplete ParseResult.noConfusion, rfl, rfl⟩,
      Bool.noConfusion⟩
  | continue100 => cases moves
  | complete =>
    obtain ⟨buffer, consumed, taken⟩ := bind_eq_ok taken
    obtain rfl := TcpBuffer.consume_returns build waiting.valid consumed
    rw [if_neg (by simpa using moves)] at taken
    obtain ⟨rfl, rfl⟩ := Prod.mk.inj (Except.ok.inj taken)
    have started : 0 < response.getByte ∧ response.getByte ≤ client.buffer.readable.length :=
      outcome
    obtain ⟨pending, called⟩ := answer_eq { client with response := response } response
    refine ⟨⟨TcpBuffer.consumed_valid waiting.valid _, HttpMsg.cleared_resumable⟩,
      .inr ⟨response, decoded, pending, called, ?_⟩, fun _ => ?_⟩
    · exact TcpBuffer.consumed_readable waiting.valid _
    · show (client.buffer.consumed response.getByte).readable.length < _
      rw [TcpBuffer.consumed_readable waiting.valid, List.length_drop]
      omega

/-- A chunk arrives, and `onMessage` returns. -/
def Call (build : Build) (client : HttpClient Callback) (chunk : List UInt8)
    (next : HttpClient Callback) : Prop :=
  ∃ after fuel, client.buffer.append build chunk = .ok after ∧
    onMessage build fuel { client with buffer := after } = some (.ok next)

/-- No round of the call lingers. -/
def KeepsMoving (build : Build) (client : HttpClient Callback) (chunk : List UInt8) : Prop :=
  ∀ after state, client.buffer.append build chunk = .ok after →
    Loop.Rounds (round build) { client with buffer := after } state → state.lingering = false

/-- A call of `onMessage` ends, and every round that goes on consumes bytes of the receive buffer.
Every round delivers at most one response, the one that it has completed, and consumes its bytes.
No round starts with a response that was delivered already. -/
structure Orderly (build : Build) (client : HttpClient Callback) : Prop where
  ends : ∃ fuel outcome, onMessage build fuel client = some outcome
  progress : ∀ state next, Loop.Rounds (round build) client state →
    state.round build = .ok (false, next) →
      next.buffer.readable.length < state.buffer.readable.length
  delivers : ∀ state returned next, Loop.Rounds (round build) client state →
    state.round build = .ok (returned, next) → state.DeliversOnce next
  once : ∀ state, Loop.Rounds (round build) client state → state.response.complete = false

section

variable {build : Build} {client : HttpClient Callback} {chunk : List UInt8}

/-- Every round of a call starts in front of a round. -/
theorem KeepsMoving.rounds (moves : client.KeepsMoving build chunk) (waiting : client.Waiting)
    {after : TcpBuffer} (appends : client.buffer.append build chunk = .ok after)
    {state : HttpClient Callback}
    (reached : Loop.Rounds (HttpClient.round build) { client with buffer := after } state) :
    state.Waiting := by
  refine reached.always Waiting
    ⟨(TcpBuffer.append_returns build waiting.valid appends).valid, waiting.resumable⟩ ?_
  intro state next reached holds taken
  exact (holds.round (moves after state appends reached) taken).1

/-- A call in which no round lingers is orderly. -/
theorem KeepsMoving.orderly (moves : client.KeepsMoving build chunk) (waiting : client.Waiting)
    {after : TcpBuffer} (appends : client.buffer.append build chunk = .ok after) :
    Orderly build { client with buffer := after } := by
  have progress : ∀ state next, Loop.Rounds (HttpClient.round build)
      { client with buffer := after } state → state.round build = .ok (false, next) →
        next.buffer.readable.length < state.buffer.readable.length := by
    intro state next reached taken
    have holds := moves.rounds waiting appends reached
    exact (holds.round (moves after state appends reached) taken).2.2 rfl
  refine ⟨?_, progress, fun state returned next reached taken => ?_,
    fun state reached => (moves.rounds waiting appends reached).resumable.unread⟩
  · obtain ⟨outcome, returned⟩ := Loop.run_ends
      (fun state : HttpClient Callback => state.buffer.readable.length) progress
    exact ⟨_, outcome, (onMessage_eq_run build _ _).trans returned⟩
  · have holds := moves.rounds waiting appends reached
    exact (holds.round (moves after state appends reached) taken).2.1

/-- A call that returned leaves a client in front of a round. -/
theorem KeepsMoving.call (moves : client.KeepsMoving build chunk) (waiting : client.Waiting)
    {next : HttpClient Callback} (called : Call build client chunk next) : next.Waiting := by
  obtain ⟨after, fuel, appends, returned⟩ := called
  rw [onMessage_eq_run] at returned
  obtain ⟨last, reached, returns⟩ := Loop.rounds_of_run returned
  have holds := moves.rounds waiting appends reached
  exact (holds.round (moves after last appends reached) returns).1

/-- Every call of a run is orderly, as long as no round lingers. -/
theorem calls_orderly {start : HttpClient Callback} (valid : start.buffer.Valid)
    (fresh : start.response = HttpResponse.cleared) {chunks : List (List UInt8)}
    (run : Run (Call build) start chunks client)
    (meets : Meets (Call build) (KeepsMoving build) start (chunks ++ [chunk]))
    {after : TcpBuffer} (appends : client.buffer.append build chunk = .ok after) :
    Orderly build { client with buffer := after } := by
  obtain ⟨earlier, here⟩ := (meets_snoc _ _ _ _ _).mp meets
  have initially : start.Waiting := by
    refine ⟨valid, ?_⟩
    rw [fresh]
    exact HttpMsg.cleared_resumable
  have waiting : client.Waiting := run.invariant initially
    (fun state chunk next waiting moves called => moves.call waiting called) earlier
  exact (here client run).orderly waiting appends

end

end HttpClient

/-! ### Both loops -/

/-- In every run of chunks and calls on a new connection, with every router and every content of
the buffers, each call of the server's `onMessage` is orderly as long as no request is refused
before it and no request that is completed asks to close the connection, and each call of the
client's is as long as no response asks to close the connection and none expects the client to
continue. -/
theorem message_loops_end (build : Build) (router : HttpRouter) (Callback : Type) :
    (∀ (start session : HttpSession) (chunks : List (List UInt8)) (chunk : List UInt8)
      (after : TcpBuffer), start.Fresh → Run (HttpSession.Call build router) start chunks session →
      Meets (HttpSession.Call build router) (HttpSession.KeepsAlive build router) start
        (chunks ++ [chunk]) →
      session.buffer.append build chunk = .ok after →
      HttpSession.Orderly build router { session with buffer := after }) ∧
    ∀ (start client : HttpClient Callback) (chunks : List (List UInt8)) (chunk : List UInt8)
      (after : TcpBuffer), start.buffer.Valid → start.response = HttpResponse.cleared →
      Run (HttpClient.Call build) start chunks client →
      Meets (HttpClient.Call build) (HttpClient.KeepsMoving build) start (chunks ++ [chunk]) →
      client.buffer.append build chunk = .ok after →
      HttpClient.Orderly build { client with buffer := after } := by
  constructor
  · intro start session chunks chunk after fresh run meets appends
    exact HttpSession.calls_orderly fresh run meets appends
  · intro start client chunks chunk after valid fresh run meets appends
    exact HttpClient.calls_orderly valid fresh run meets appends

namespace HttpSession

/-- With a request that asks to close the connection answered and nothing left to read, a
release build answers it again. -/
theorem round_closing (router : HttpRouter) {session : HttpSession}
    (valid : session.buffer.Valid) (empty : session.buffer.readable = [])
    (nothing : session.inputBuffer = []) (complete : session.req.complete = true)
    (close : session.req.getHeader (text "connection") = text "close") :
    ∃ next, session.round .release router = .ok (false, next) ∧ next.buffer.Valid ∧
      next.buffer.readable = [] ∧ next.inputBuffer = [] ∧ next.req = session.req ∧
      next.routed = session.routed ++ [session.req] := by
  have decoded : session.req.tryDecode [] true = .ok (.complete, session.req) := by
    unfold HttpRequest.tryDecode HttpMsg.tryDecode_
    rw [if_pos complete]
    rfl
  have parsed : session.parseRequest = .ok (.complete, { session with inputBuffer := [] }) := by
    unfold parseRequest
    simp only
    rw [nothing, empty, List.append_nil, if_neg (by simp), decoded]
    simp [leftover]
  refine ⟨{ session with
      buffer := session.buffer.consumed session.req.getByte
      inputBuffer := []
      routed := session.routed ++ [session.req]
      sent := session.sent ++ [((respond router session.req false).encode []).2]
      consumes := session.consumes ++ [(session.req.getByte, session.buffer.readableSize)]
      disconnects := session.disconnects + 1 }, ?_,
    TcpBuffer.consumed_valid valid session.req.getByte, ?_, rfl, rfl, rfl⟩
  · have isClosing : decide (session.req.getHeader (text "connection") ≠ text "close") = false := by
      simp [close]
    unfold round
    rw [parsed, ok_bind]
    simp only
    rw [TcpBuffer.consume_release valid, ok_bind, isClosing, if_neg Bool.noConfusion]
    rfl
  · show (session.buffer.consumed session.req.getByte).readable = []
    rw [TcpBuffer.consumed_readable valid, empty, List.drop_nil]

/-- Then it never returns. -/
theorem onMessage_closing (router : HttpRouter) {session : HttpSession}
    (valid : session.buffer.Valid) (empty : session.buffer.readable = [])
    (nothing : session.inputBuffer = []) (complete : session.req.complete = true)
    (close : session.req.getHeader (text "connection") = text "close") (fuel : Nat) :
    onMessage .release router fuel session = none := by
  rw [onMessage_eq_run]
  refine Loop.run_eq_none (fun state => state.buffer.Valid ∧ state.buffer.readable = [] ∧
    state.inputBuffer = [] ∧ state.req = session.req) ?_ ⟨valid, empty, nothing, rfl⟩ fuel
  rintro state ⟨isValid, isEmpty, holdsNothing, sameReq⟩
  obtain ⟨next, taken, validNext, emptyNext, nothingNext, reqNext, -⟩ := round_closing router
    isValid isEmpty holdsNothing (by rw [sameReq]; exact complete) (by rw [sameReq]; exact close)
  exact ⟨next, taken, validNext, emptyNext, nothingNext, reqNext.trans sameReq⟩

/-- The state behind a round. -/
def behind (build : Build) (router : HttpRouter) (session : HttpSession) : HttpSession :=
  match session.round build router with
  | .ok (_, next) => next
  | .error _ => session

theorem behind_eq {build : Build} {router : HttpRouter} {session next : HttpSession}
    {returned : Bool} (taken : session.round build router = .ok (returned, next)) :
    session.behind build router = next := by
  unfold behind
  rw [taken]

/-- A new connection on which some bytes have arrived. -/
def arrived (bytes : List UInt8) : HttpSession :=
  { newSession with
    buffer := (newSession.buffer.append .release bytes).toOption.getD newSession.buffer }

def closeBytes : List UInt8 := text "GET / HTTP/1.1\r\nConnection: close\r\n\r\n"

/-- A release build never returns from the call in which a request asks to close the
connection. -/
theorem message_loop_never_returns :
    newSession.Fresh ∧ newSession.buffer.append .release closeBytes =
      .ok (arrived closeBytes).buffer ∧
    (∀ fuel, onMessage .release noRoutes fuel (arrived closeBytes) = none) ∧
    ¬ Orderly .release noRoutes (arrived closeBytes) := by
  have goesOn : ((arrived closeBytes).round .release noRoutes).toOption.map Prod.fst =
      some false := by
    decide +kernel
  obtain ⟨⟨returned, next⟩, taken, isFalse⟩ := Option.map_eq_some_iff.mp goesOn
  obtain rfl : returned = false := isFalse
  have taken := toOption_eq_some taken
  have never : ∀ fuel, onMessage .release noRoutes fuel (arrived closeBytes) = none := by
    intro fuel
    cases fuel with
    | zero => rfl
    | succ fuel =>
      have valid : ((arrived closeBytes).behind .release noRoutes).buffer.Valid :=
        ⟨by decide +kernel, by decide +kernel, by decide +kernel, by decide +kernel⟩
      rw [onMessage, taken]
      simp only
      rw [← behind_eq taken]
      exact onMessage_closing noRoutes valid (by decide +kernel) (by decide +kernel)
        (by decide +kernel) (by decide +kernel) fuel
  refine ⟨newSession_fresh, by decide +kernel, never, fun orderly => ?_⟩
  obtain ⟨fuel, outcome, ends⟩ := orderly.ends
  rw [never fuel] at ends
  cases ends

end HttpSession

namespace HttpClient

/-- A client with two pending requests to which some bytes have arrived. -/
def arrived (bytes : List UInt8) : HttpClient Nat :=
  { twoPending with buffer := (HttpSession.arrived bytes).buffer }

/-- The state behind a round. -/
def behind (client : HttpClient Nat) : HttpClient Nat :=
  match client.round .release with
  | .ok (_, next) => next
  | .error _ => client

theorem behind_eq {client next : HttpClient Nat} {returned : Bool}
    (taken : client.round .release = .ok (returned, next)) : client.behind = next := by
  unfold behind
  rw [taken]

def okBytes : List UInt8 := text "HTTP/1.1 200 OK\r\n\r\n"

end HttpClient

/-- A request that arrives at the server, and a response that arrives at the client. -/
theorem message_loops_end_request :
    HttpSession.Orderly .release HttpSession.noRoutes
      (HttpSession.arrived HttpSession.rootRequest.1) ∧
    HttpClient.Orderly .release (HttpClient.arrived HttpClient.okBytes) := by
  have loops := message_loops_end .release HttpSession.noRoutes Nat
  constructor
  · refine loops.1 HttpSession.newSession _ [] HttpSession.rootRequest.1 _
      HttpSession.newSession_fresh (Run.nil _) (meets_single ⟨rfl, ?_⟩) (by decide +kernel)
    intro after state appends reached
    have appended : HttpSession.newSession.buffer.append .release HttpSession.rootRequest.1 =
        .ok (HttpSession.arrived HttpSession.rootRequest.1).buffer := by
      decide +kernel
    obtain rfl := Except.ok.inj (appended.symm.trans appends)
    rcases reached.eq_or_next with rfl | ⟨next, taken, later⟩
    · decide +kernel
    · obtain rfl := HttpSession.behind_eq taken
      rcases later.eq_or_next with rfl | ⟨last, takenLast, -⟩
      · decide +kernel
      · have returns : (((HttpSession.arrived HttpSession.rootRequest.1).behind .release
            HttpSession.noRoutes).round .release HttpSession.noRoutes).toOption.map Prod.fst =
              some true := by
          decide +kernel
        have takenLast : ((HttpSession.arrived HttpSession.rootRequest.1).behind .release
            HttpSession.noRoutes).round .release HttpSession.noRoutes = .ok (false, last) :=
          takenLast
        rw [takenLast] at returns
        cases returns
  · refine loops.2 HttpClient.twoPending _ [] HttpClient.okBytes _
      ⟨by decide +kernel, by decide +kernel, by decide +kernel, by decide +kernel⟩ rfl
      (Run.nil _) (meets_single ?_) (by decide +kernel)
    intro after state appends reached
    have appended : HttpClient.twoPending.buffer.append .release HttpClient.okBytes =
        .ok (HttpClient.arrived HttpClient.okBytes).buffer := by
      decide +kernel
    obtain rfl := Except.ok.inj (appended.symm.trans appends)
    rcases reached.eq_or_next with rfl | ⟨next, taken, later⟩
    · decide +kernel
    · have isNext : (HttpClient.arrived HttpClient.okBytes).behind = next :=
        HttpClient.behind_eq taken
      rcases later.eq_or_next with rfl | ⟨last, takenLast, -⟩
      · rw [← isNext]
        decide +kernel
      · have returns : ((HttpClient.arrived HttpClient.okBytes).behind.round
            .release).toOption.map Prod.fst = some true := by
          decide +kernel
        rw [isNext, takenLast] at returns
        cases returns

end YYNet
