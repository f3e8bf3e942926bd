/-
This file models the message loop of the HTTP client and proves that it pairs the
responses of a connection with the pending requests.

The client keeps one response object. It is decoded in place over the receive
buffer, again and again as bytes arrive, and cleared when a response is complete
and has been consumed. The invariant is that the object is what the decoder makes
of the unconsumed bytes when it starts from a cleared object: it is still looking
for the end of the header from where it stopped, or it has the header and waits
for the rest of the body.
-/

import YYNet.Http.RoundTrip

namespace YYNet

open Checked Storage

/-! ### The client -/

/-- `HTTPClient` with the receive buffer of its connection. A pending request is its callback,
which may be empty. -/
structure HttpClient (Callback : Type) where
  buffer : TcpBuffer
  response : HttpResponse
  pendingRequests : List (Option Callback)
  /-- The callbacks that were called, each with the response it was given, the first one first. -/
  called : List (Callback × HttpResponse)
  /-- How often `disconnect` was called. -/
  disconnects : Nat

namespace HttpClient

variable {Callback : Type}

/-- Take the first pending request and call its callback. -/
def answer (client : HttpClient Callback) (response : HttpResponse) : HttpClient Callback :=
  match client.pendingRequests with
  | [] => client
  | context :: rest => { client with
      pendingRequests := rest
      called := client.called ++ context.toList.map fun callback => (callback, response) }

/-- One round of the loop of `onMessage`: whether it returned, and the client. -/
def round (build : Build) (client : HttpClient Callback) :
    Except Fault (Bool × HttpClient Callback) := do
  let (result, response) ← client.response.tryDecode client.buffer.readable
    client.buffer.writable true
  let decoded := { client with response := response }
  match result with
  | .error =>
    let buffer ← client.buffer.consume build client.buffer.readableSize
    return (true, { decoded with buffer := buffer })
  | .notComplete => return (true, decoded)
  | .continue100 => return (false, decoded)
  | .complete =>
    let buffer ← client.buffer.consume build response.getByte
    let consumed := { decoded.answer response with buffer := buffer }
    if response.getHeader (text "connection") = text "close" then
      return (false, { consumed with disconnects := consumed.disconnects + 1 })
    else return (false, { consumed with response := HttpResponse.cleared })

/-- `onMessage`, in at most as many rounds as the fuel. -/
def onMessage (build : Build) :
    Nat → HttpClient Callback → Option (Except Fault (HttpClient Callback))
  | 0, _ => none
  | fuel + 1, client =>
    match client.round build with
    | .error fault => some (.error fault)
    | .ok (true, final) => some (.ok final)
    | .ok (false, next) => onMessage build fuel next

/-- Every chunk is appended to the receive buffer and followed by `onMessage`. -/
def receive (build : Build) (fuel : Nat) :
    HttpClient Callback → List (List UInt8) → Option (Except Fault (HttpClient Callback))
  | client, [] => some (.ok client)
  | client, chunk :: more =>
    match client.buffer.append build chunk with
    | .error fault => some (.error fault)
    | .ok buffer =>
      match onMessage build fuel { client with buffer := buffer } with
      | none => none
      | some (.error fault) => some (.error fault)
      | some (.ok next) => receive build fuel next more

end HttpClient

/-! ### A response that arrives in parts -/

namespace HttpMsg

/-- A message whose header is still missing is decoded as a cleared one. -/
theorem tryDecode_resume {looked : HttpMsg} {front more : List UInt8} {copyBody : Bool}
    (missing : cleared.decodeHeader front = .missing looked) :
    looked.tryDecode_ (front ++ more) copyBody = cleared.tryDecode_ (front ++ more) copyBody := by
  have shape : looked = cleared.look front := by
    unfold decodeHeader at missing
    split at missing
    · exact (Header.missing.inj missing).symm
    · exact absurd missing (parseHeader_ne_missing _ _ _)
  have header := decodeHeader_resume (Nat.zero_le _ : cleared.scanned ≤ front.length) missing more
  subst shape
  unfold tryDecode_
  rw [header]
  rfl

end HttpMsg

namespace HttpResponse

/-- `state` is what the decoder makes of the first bytes of a response, `front`, from a cleared
object: it looks for the end of the header, or it has the header. -/
def Waiting (resp : HttpResponse) (front : List UInt8) (state : HttpResponse) : Prop :=
  (∃ missing, missing ≠ [] ∧ front ++ missing = resp.encoded) ∧
    ((∃ looked, HttpMsg.cleared.decodeHeader front = .missing looked ∧
        state = { cleared with toHttpMsg := looked }) ∨
      (resp.sentHeader <+: front ∧ state = resp.headed))

theorem encoded_ne_nil (resp : HttpResponse) : resp.encoded ≠ [] := by
  unfold encoded encode HttpMsg.encodeBehind
  simp [crlf]

/-- Before the first byte the object is cleared. -/
theorem waiting_nil (resp : HttpResponse) : resp.Waiting [] cleared :=
  ⟨⟨resp.encoded, encoded_ne_nil resp, rfl⟩, .inl ⟨HttpMsg.cleared, rfl, rfl⟩⟩

theorem tryDecode_resume {looked : HttpMsg} {front more behind : List UInt8} {copyBody : Bool}
    (missing : HttpMsg.cleared.decodeHeader front = .missing looked) :
    tryDecode { cleared with toHttpMsg := looked } (front ++ more) behind copyBody =
      cleared.tryDecode (front ++ more) behind copyBody := by
  unfold tryDecode
  rw [show ({ cleared with toHttpMsg := looked } : HttpResponse).toHttpMsg.tryDecode_
    (front ++ more) copyBody = cleared.toHttpMsg.tryDecode_ (front ++ more) copyBody from
      HttpMsg.tryDecode_resume missing]

section

variable {resp : HttpResponse} (sendable : resp.Sendable) (fits : resp.encoded.length ≤ maxSize)

include sendable

/-- The end of the header is missing in a part of it. -/
theorem Sendable.decodeHeader_part {front rest : List UInt8} (nonempty : rest ≠ [])
    (shape : front ++ rest = resp.sentHeader) :
    ∃ looked, HttpMsg.cleared.decodeHeader front = .missing looked := by
  by_contra found
  have longer := HttpMsg.decodeHeader_append (not_exists.mp found) rest
  have header := sendable.decodeHeader []
  rw [List.append_nil, ← shape, longer] at header
  have inside := HttpMsg.scanned_of_decodeHeader header
  have scanned : (HttpMsg.cleared.headed resp.statusLine resp.allFields).scanned =
      (front ++ rest).length := by
    rw [shape]
    rfl
  have := List.length_pos_iff.mpr nonempty
  rw [scanned, List.length_append] at inside
  omega

include fits

theorem Sendable.needed :
    addSize resp.headed.contentLen resp.headed.scanned = resp.encoded.length := by
  have small := getBody_lt fits
  have scanned : resp.headed.scanned = resp.sentHeader.length := rfl
  have bound := TcpBuffer.maxSize_lt_sizeModulus
  have split := sendable.encoded_eq (by omega)
  have size := congrArg List.length split
  rw [List.length_append] at size
  rw [sendable.headed_contentLen small, scanned, addSize_of_lt (by omega), size, Nat.add_comm]

/-- With the header and a part of the body, the decoder waits. -/
theorem Sendable.headed_part {front : List UInt8} (part : front.length < resp.encoded.length) :
    resp.headed.toHttpMsg.decodeBody front true = .ok (.notComplete, resp.headed.toHttpMsg) := by
  unfold HttpMsg.decodeBody
  rw [sendable.needed fits, if_pos part]
  rfl

/-- The decoder with the header and a part of the body. -/
theorem Sendable.headed_tryDecode_part {front : List UInt8} (isHeader : resp.sentHeader <+: front)
    (part : front.length < resp.encoded.length) (behind : List UInt8) :
    resp.headed.tryDecode front behind true = .ok (.notComplete, resp.headed) := by
  have small := getBody_lt fits
  have size := congrArg List.length (sendable.encoded_eq (by omega))
  rw [List.length_append] at size
  have open' : resp.headed.contentLen ≠ 0 := by
    have := isHeader.length_le
    rw [sendable.headed_contentLen small]
    omega
  unfold HttpResponse.tryDecode HttpMsg.tryDecode_
  rw [if_neg Bool.noConfusion, if_pos open', sendable.headed_part fits part]
  rfl

/-- A cleared object decodes a part of a response. -/
theorem Sendable.cleared_tryDecode_part {front missing : List UInt8} (nonempty : missing ≠ [])
    (shape : front ++ missing = resp.encoded) (behind : List UInt8) :
    ∃ result state, cleared.tryDecode front behind true = .ok (result, state) ∧
      resp.Waiting front state ∧ (result = .notComplete ∨
        result = .continue100 ∧ resp.sentHeader <+: front ∧ state = resp.headed) := by
  have small := getBody_lt fits
  have split := sendable.encoded_eq (by omega)
  have part : front.length < resp.encoded.length := by
    have := List.length_pos_iff.mpr nonempty
    rw [← shape, List.length_append]
    omega
  by_cases isHeader : resp.sentHeader <+: front
  · obtain ⟨body, rfl⟩ := isHeader
    have header : cleared.toHttpMsg.decodeHeader (resp.sentHeader ++ body) = _ :=
      sendable.decodeHeader body
    have line : resp.sentHeader ++ body ++ behind =
        resp.statusLine ++ (HttpMsg.fieldLines resp.allFields ++ headerEnd ++ body ++ behind) := by
      unfold sentHeader
      simp only [List.append_assoc]
    have waits : resp.Waiting (resp.sentHeader ++ body) resp.headed :=
      ⟨⟨missing, nonempty, shape⟩, .inr ⟨List.prefix_append _ _, rfl⟩⟩
    have needed : (resp.sentHeader ++ body).length <
        addSize (HttpMsg.cleared.headed resp.statusLine resp.allFields).contentLen
          (HttpMsg.cleared.headed resp.statusLine resp.allFields).scanned := by
      have same := sendable.needed fits
      exact lt_of_lt_of_eq part same.symm
    have read : HttpResponse.readStatusLine { cleared with
        toHttpMsg := HttpMsg.cleared.headed resp.statusLine resp.allFields }
          (resp.sentHeader ++ body ++ behind) resp.statusLine = resp.headed := by
      rw [line, sendable.readStatusLine]
      rfl
    unfold HttpResponse.tryDecode HttpMsg.tryDecode_
    rw [if_neg (by decide), if_neg (by decide), header]
    simp only
    split
    · refine ⟨.continue100, resp.headed, ?_, waits,
        .inr ⟨rfl, List.prefix_append _ _, rfl⟩⟩
      rw [pure_eq_ok, ok_bind]
      simp only
      rw [if_neg (statusLine_ne_nil resp), read]
      rfl
    · refine ⟨.notComplete, resp.headed, ?_, waits, .inl rfl⟩
      have stopped : (HttpMsg.cleared.headed resp.statusLine resp.allFields).decodeBody
          (resp.sentHeader ++ body) true =
            .ok (.notComplete, HttpMsg.cleared.headed resp.statusLine resp.allFields) := by
        unfold HttpMsg.decodeBody
        rw [if_pos needed]
        rfl
      rw [stopped, ok_bind]
      simp only
      rw [pure_eq_ok, ok_bind]
      simp only
      rw [if_neg (statusLine_ne_nil resp), read]
      rfl
  · obtain ⟨rest, inHeader⟩ : front <+: resp.sentHeader := by
      have prefixes := List.prefix_or_prefix_of_prefix
        (⟨missing, shape⟩ : front <+: resp.encoded) ⟨resp.getBody, split.symm⟩
      exact prefixes.resolve_right isHeader
    have strict : rest ≠ [] := by
      rintro rfl
      exact isHeader ⟨[], by simpa using inHeader.symm⟩
    obtain ⟨looked, header⟩ := sendable.decodeHeader_part strict inHeader
    refine ⟨.notComplete, { cleared with toHttpMsg := looked }, ?_,
      ⟨⟨missing, nonempty, shape⟩, .inl ⟨looked, header, rfl⟩⟩, .inl rfl⟩
    have header : cleared.toHttpMsg.decodeHeader front = .missing looked := header
    unfold HttpResponse.tryDecode HttpMsg.tryDecode_
    rw [if_neg (by decide), if_neg (by decide), header]
    rfl

/-- More bytes of a response that is still not complete. -/
theorem Waiting.part {front more missing : List UInt8} {state : HttpResponse}
    (waits : resp.Waiting front state) (nonempty : missing ≠ [])
    (shape : front ++ more ++ missing = resp.encoded) (behind : List UInt8) :
    ∃ result next, state.tryDecode (front ++ more) behind true = .ok (result, next) ∧
      resp.Waiting (front ++ more) next ∧ (result = .notComplete ∨
        result = .continue100 ∧ resp.sentHeader <+: front ++ more ∧ next = resp.headed) := by
  rcases waits.2 with ⟨looked, header, rfl⟩ | ⟨isHeader, rfl⟩
  · rw [tryDecode_resume header]
    exact sendable.cleared_tryDecode_part fits nonempty shape behind
  · have isHeader : resp.sentHeader <+: front ++ more := isHeader.trans (List.prefix_append _ _)
    have part : (front ++ more).length < resp.encoded.length := by
      have := List.length_pos_iff.mpr nonempty
      rw [← shape]
      simp only [List.length_append]
      omega
    exact ⟨.notComplete, resp.headed, sendable.headed_tryDecode_part fits isHeader part behind,
      ⟨⟨missing, nonempty, shape⟩, .inr ⟨isHeader, rfl⟩⟩, .inl rfl⟩

end

/-- The rest of a response, and bytes behind it. -/
theorem Waiting.complete {resp : HttpResponse} (sendable : resp.Sendable)
    {front more rest : List UInt8} {state : HttpResponse} (waits : resp.Waiting front state)
    (shape : front ++ more = resp.encoded ++ rest)
    (fits : (resp.encoded ++ rest).length ≤ maxSize) (behind : List UInt8) :
    state.tryDecode (front ++ more) behind true = .ok (.complete, resp.received true) := by
  rcases waits.2 with ⟨looked, header, rfl⟩ | ⟨isHeader, rfl⟩
  · rw [tryDecode_resume header, shape]
    exact sendable.tryDecode rest behind fits true
  · have small : resp.getBody.length < 2 ^ 63 := getBody_lt (le_trans (by simp) fits)
    have split := sendable.encoded_eq (by omega)
    have unread : resp.headed.contentLen ≠ 0 := by
      obtain ⟨missing, nonempty, strict⟩ := waits.1
      have := isHeader.length_le
      have := List.length_pos_iff.mpr nonempty
      have sizes := congrArg List.length (strict.trans split)
      simp only [List.length_append] at sizes
      rw [sendable.headed_contentLen small]
      omega
    rw [split] at shape fits
    have body : resp.headed.toHttpMsg.decodeBody (resp.sentHeader ++ resp.getBody ++ rest) true =
        .ok (.complete, resp.headed.taken resp.sentHeader resp.getBody true) :=
      HttpMsg.decodeBody_whole rfl (sendable.headed_contentLen small) rest fits true
    unfold HttpResponse.tryDecode HttpMsg.tryDecode_
    rw [if_neg Bool.noConfusion, if_pos unread, shape, body]
    rfl

end HttpResponse

/-! ### The loop -/

namespace HttpResponse

/-- The bytes of a list of responses. -/
def stream (responses : List HttpResponse) : List UInt8 :=
  responses.flatMap encoded

/-- What the response object of a client is, with the responses that are still to come and the
bytes of them that have arrived. -/
def Awaiting : List HttpResponse → List UInt8 → HttpResponse → Prop
  | [], arrived, state => arrived = [] ∧ state = cleared
  | resp :: _, arrived, state => resp.Waiting arrived state

/-- With nothing arrived the object is cleared. -/
theorem awaiting_nil (responses : List HttpResponse) : Awaiting responses [] cleared := by
  cases responses with
  | nil => exact ⟨rfl, rfl⟩
  | cons resp others => exact waiting_nil resp

/-- A decoded response is the one that was sent, with the two automatic headers. -/
structure Conveys (resp decoded : HttpResponse) : Prop where
  version : decoded.version = resp.version
  status : decoded.status = resp.status
  statusMsg : decoded.statusMsg = resp.statusMsg
  body : decoded.getBody = resp.getBody
  headers : decoded.headers = resp.sentHeaders

theorem Sendable.conveys {resp : HttpResponse} (sendable : resp.Sendable) :
    resp.Conveys (resp.received true) where
  version := rfl
  status := rfl
  statusMsg := rfl
  body := HttpMsg.taken_getBody rfl rfl _ _ true
  headers := sendable.headers.setAll

/-- The connection header of a response that was received does not ask to close. -/
theorem Sendable.received_connection {resp : HttpResponse} (sendable : resp.Sendable) :
    (resp.received true).getHeader (text "connection") ≠ text "close" := by
  unfold HttpMsg.getHeader
  rw [sendable.conveys.headers, HttpMsg.sentHeaders, OrderedMap.find_set, if_neg (by decide),
    OrderedMap.find_set, if_pos rfl]
  decide

end HttpResponse

namespace HttpClient

variable {Callback : Type}

open HttpResponse

/-- What a valid buffer holds is an array. -/
theorem readable_le {buffer : TcpBuffer} (valid : buffer.Valid) :
    buffer.readable.length ≤ maxSize := by
  have := valid.read_add_readable
  have := valid.write_le_size
  have := valid.size_le_max
  rw [valid.readable_length]
  omega

/-- One round with a whole response at the front of the buffer. -/
theorem round_complete (build : Build) {client : HttpClient Callback} {resp : HttpResponse}
    (sendable : resp.Sendable) (valid : client.buffer.Valid) {front more rest : List UInt8}
    (waits : resp.Waiting front client.response) (arrived : client.buffer.readable = front ++ more)
    (shape : front ++ more = resp.encoded ++ rest) {callback : Callback}
    {pending : List (Option Callback)}
    (isPending : client.pendingRequests = some callback :: pending) :
    client.round build = .ok (false, { client with
      buffer := client.buffer.consumed resp.encoded.length
      response := cleared
      pendingRequests := pending
      called := client.called ++ [(callback, resp.received true)] }) := by
  have fits : (resp.encoded ++ rest).length ≤ maxSize := by
    rw [← shape, ← arrived]
    exact readable_le valid
  have small : resp.getBody.length < 2 ^ 63 := getBody_lt (le_trans (by simp) fits)
  have decoded := waits.complete sendable shape fits client.buffer.writable
  have size : (resp.received true).getByte = resp.encoded.length := by
    rw [sendable.encoded_eq (by omega)]
    rfl
  have inside : resp.encoded.length ≤ client.buffer.readableSize := by
    rw [← valid.readable_length, arrived, shape, List.length_append]
    omega
  unfold round
  rw [arrived, decoded, ok_bind]
  simp only
  rw [size, TcpBuffer.consume_eq build valid inside, ok_bind,
    if_neg sendable.received_connection]
  unfold answer
  simp only [isPending]
  rfl

/-- The loop with a part of a response at the front of the buffer returns. -/
theorem onMessage_part (build : Build) {client : HttpClient Callback} {resp : HttpResponse}
    (sendable : resp.Sendable) (fits : resp.encoded.length ≤ maxSize)
    {front more missing : List UInt8} (waits : resp.Waiting front client.response)
    (arrived : client.buffer.readable = front ++ more) (nonempty : missing ≠ [])
    (shape : front ++ more ++ missing = resp.encoded) (fuel : Nat) :
    ∃ state, onMessage build (fuel + 2) client = some (.ok { client with response := state }) ∧
      resp.Waiting (front ++ more) state := by
  obtain ⟨result, next, decoded, waitsNext, outcome⟩ := waits.part sendable fits nonempty shape
    client.buffer.writable
  refine ⟨next, ?_, waitsNext⟩
  rcases outcome with rfl | ⟨rfl, isHeader, rfl⟩
  · have first : client.round build = .ok (true, { client with response := next }) := by
      unfold round
      rw [arrived, decoded]
      rfl
    rw [onMessage, first]
  · -- `Continue100` has no branch of its own, so the loop asks the decoder once more.
    have part : (front ++ more).length < resp.encoded.length := by
      have := List.length_pos_iff.mpr nonempty
      rw [← shape]
      simp only [List.length_append]
      omega
    have first : client.round build = .ok (false, { client with response := resp.headed }) := by
      unfold round
      rw [arrived, decoded]
      rfl
    have second : round build { client with response := resp.headed } =
        .ok (true, { client with response := resp.headed }) := by
      unfold round
      simp only
      rw [arrived, sendable.headed_tryDecode_part fits isHeader part]
      rfl
    rw [onMessage, first]
    simp only
    rw [onMessage, second]

/-- The client between two calls of `onMessage`: the buffer holds what has arrived of the
responses to come, and there is a pending callback for each of them. -/
structure Ready (client : HttpClient Callback) (callbacks : List Callback)
    (responses : List HttpResponse) (arrived : List UInt8) : Prop where
  valid : client.buffer.Valid
  awaiting : Awaiting responses arrived client.response
  pending : client.pendingRequests = callbacks.map some

/-- `onMessage` calls a callback for every response that is complete. -/
theorem onMessage_spec (build : Build) {client : HttpClient Callback} {callbacks : List Callback}
    {responses : List HttpResponse} {front more later : List UInt8}
    (ready : client.Ready callbacks responses front)
    (sendable : ∀ resp ∈ responses, resp.Sendable)
    (fits : ∀ resp ∈ responses, resp.encoded.length ≤ maxSize)
    (paired : callbacks.length = responses.length)
    (holds : client.buffer.readable = front ++ more)
    (shape : front ++ more ++ later = stream responses) {fuel : Nat}
    (enough : responses.length + 2 ≤ fuel) :
    ∃ next done rest calledFor waiting, onMessage build fuel client = some (.ok next) ∧
      responses = done ++ rest ∧ callbacks = calledFor ++ waiting ∧
      calledFor.length = done.length ∧ next.Ready waiting rest next.buffer.readable ∧
      next.buffer.readable ++ later = stream rest ∧
      next.buffer.prependSize = client.buffer.prependSize ∧
      next.called = client.called ++ calledFor.zip (done.map (received · true)) := by
  induction responses generalizing client callbacks front more fuel with
  | nil =>
    obtain ⟨rfl, isCleared⟩ := ready.awaiting
    obtain ⟨⟨-, rfl⟩, rfl⟩ : (([] : List UInt8) = [] ∧ more = []) ∧ later = [] := by
      simpa [stream] using shape
    obtain rfl := List.length_eq_zero_iff.mp paired
    obtain ⟨fuel, rfl⟩ : ∃ less, fuel = less + 1 := ⟨fuel - 1, by omega⟩
    have round : client.round build = .ok (true, client) := by
      unfold HttpClient.round
      rw [holds, isCleared]
      obtain ⟨buffer, response, pending, called, disconnects⟩ := client
      obtain rfl : response = cleared := isCleared
      rfl
    refine ⟨client, [], [], [], [], ?_, rfl, rfl, rfl, ⟨ready.valid, ?_, ready.pending⟩, ?_, rfl,
      by simp⟩
    · rw [onMessage, round]
    · exact ⟨holds, isCleared⟩
    · rw [holds]
      rfl
  | cons resp others inductionHypothesis =>
    have sendableFirst := sendable resp List.mem_cons_self
    have fitsFirst := fits resp List.mem_cons_self
    have waits : resp.Waiting front client.response := ready.awaiting
    obtain ⟨callback, callbacks, rfl⟩ := List.exists_cons_of_length_eq_add_one paired
    rw [List.length_cons] at enough
    have whole : stream (resp :: others) = resp.encoded ++ stream others := List.flatMap_cons
    by_cases isWhole : resp.encoded <+: front ++ more
    · obtain ⟨rest, isWhole⟩ := isWhole
      obtain ⟨fuel, rfl⟩ : ∃ less, fuel = less + 1 := ⟨fuel - 1, by omega⟩
      have first := round_complete build sendableFirst ready.valid waits holds isWhole.symm
        ready.pending
      have left : (client.buffer.consumed resp.encoded.length).readable = [] ++ rest := by
        rw [TcpBuffer.consumed_readable ready.valid, holds, ← isWhole, List.drop_left]
        rfl
      have sendableOthers : ∀ other ∈ others, other.Sendable := fun other member =>
        sendable other (List.mem_cons_of_mem _ member)
      have fitsOthers : ∀ other ∈ others, other.encoded.length ≤ maxSize := fun other member =>
        fits other (List.mem_cons_of_mem _ member)
      have shapeRest : [] ++ rest ++ later = stream others := by
        rw [whole, ← isWhole, List.append_assoc] at shape
        exact List.append_cancel_left shape
      have readyRest : Ready { client with
          buffer := client.buffer.consumed resp.encoded.length
          response := cleared
          pendingRequests := callbacks.map some
          called := client.called ++ [(callback, resp.received true)] } callbacks others [] :=
        ⟨TcpBuffer.consumed_valid ready.valid _, awaiting_nil others, rfl⟩
      obtain ⟨next, done, remaining, calledFor, waiting, returned, isDone, isCalled, sameLength,
        readyNext, shapeNext, prepend, called⟩ := inductionHypothesis readyRest
          sendableOthers fitsOthers (by simpa using paired) left shapeRest
          (by omega : others.length + 2 ≤ fuel)
      refine ⟨next, resp :: done, remaining, callback :: calledFor, waiting, ?_, ?_, ?_, ?_,
        readyNext, shapeNext, ?_, ?_⟩
      · rw [onMessage, first]
        exact returned
      · rw [isDone, List.cons_append]
      · rw [isCalled, List.cons_append]
      · rw [List.length_cons, List.length_cons, sameLength]
      · rw [prepend]
        exact TcpBuffer.consumed_prependSize _
      · rw [called]
        simp
    · obtain ⟨missing, isPart⟩ : front ++ more <+: resp.encoded := by
        have prefixes := List.prefix_or_prefix_of_prefix
          (⟨later, shape.trans whole⟩ : front ++ more <+: resp.encoded ++ stream others)
          (List.prefix_append resp.encoded (stream others))
        exact prefixes.resolve_right isWhole
      have strict : missing ≠ [] := by
        rintro rfl
        exact isWhole ⟨[], by simpa using isPart.symm⟩
      obtain ⟨fuel, rfl⟩ : ∃ less, fuel = less + 2 := ⟨fuel - 2, by omega⟩
      obtain ⟨state, returned, waitsNext⟩ := onMessage_part build sendableFirst fitsFirst waits
        holds strict isPart fuel
      refine ⟨_, [], resp :: others, [], callback :: callbacks, returned, rfl, rfl, rfl,
        ⟨ready.valid, ?_, ready.pending⟩, ?_, rfl, by simp⟩
      · show resp.Waiting client.buffer.readable state
        rw [holds]
        exact waitsNext
      · show client.buffer.readable ++ later = _
        rw [holds]
        exact shape

/-- A client that awaits responses has less than one of them in its buffer. -/
theorem Ready.room {client : HttpClient Callback} {callbacks : List Callback}
    {responses : List HttpResponse}
    (ready : client.Ready callbacks responses client.buffer.readable) {chunk later : List UInt8}
    (shape : client.buffer.readable ++ (chunk ++ later) = stream responses)
    (room : ∀ resp ∈ responses,
      client.buffer.prependSize + resp.encoded.length + chunk.length ≤ maxSize) :
    client.buffer.prependSize + client.buffer.readableSize + chunk.length ≤ maxSize := by
  cases responses with
  | nil =>
    obtain ⟨empty, -⟩ := ready.awaiting
    obtain ⟨rfl, -⟩ : chunk = [] ∧ later = [] := by
      rw [empty] at shape
      simpa [stream] using shape
    have := ready.valid.prepend_le_read
    have := ready.valid.read_add_readable
    have := ready.valid.write_le_size
    have := ready.valid.size_le_max
    rw [List.length_nil]
    omega
  | cons resp others =>
    obtain ⟨⟨missing, nonempty, part⟩, -⟩ :
      resp.Waiting client.buffer.readable client.response := ready.awaiting
    have bound := room resp List.mem_cons_self
    have size := congrArg List.length part
    rw [List.length_append, ready.valid.readable_length] at size
    omega

/-- The chunks of a stream of responses, one after another. -/
theorem receive_spec (build : Build) {client : HttpClient Callback} {callbacks : List Callback}
    {responses : List HttpResponse} {chunks : List (List UInt8)}
    (ready : client.Ready callbacks responses client.buffer.readable)
    (sendable : ∀ resp ∈ responses, resp.Sendable)
    (paired : callbacks.length = responses.length)
    (split : client.buffer.readable ++ chunks.flatten = stream responses)
    (room : ∀ resp ∈ responses, ∀ chunk ∈ chunks,
      client.buffer.prependSize + resp.encoded.length + chunk.length ≤ maxSize)
    {fuel : Nat} (enough : responses.length + 2 ≤ fuel) :
    ∃ final, receive build fuel client chunks = some (.ok final) ∧ final.pendingRequests = [] ∧
      final.buffer.readable = [] ∧ final.response = cleared ∧
      final.called = client.called ++ callbacks.zip (responses.map (received · true)) := by
  induction chunks generalizing client callbacks responses with
  | nil =>
    rw [List.flatten_nil, List.append_nil] at split
    cases responses with
    | nil =>
      obtain ⟨empty, isCleared⟩ := ready.awaiting
      obtain rfl := List.length_eq_zero_iff.mp paired
      exact ⟨client, rfl, ready.pending, empty, isCleared, by simp⟩
    | cons resp others =>
      obtain ⟨⟨missing, nonempty, part⟩, -⟩ :
        resp.Waiting client.buffer.readable client.response := ready.awaiting
      have whole : stream (resp :: others) = resp.encoded ++ stream others := List.flatMap_cons
      have sizes := congrArg List.length (split.trans whole)
      have partSizes := congrArg List.length part
      have := List.length_pos_iff.mpr nonempty
      rw [List.length_append] at sizes partSizes
      omega
  | cons chunk more inductionHypothesis =>
    rw [List.flatten_cons] at split
    have fitsChunk := ready.room split fun resp member => room resp member chunk List.mem_cons_self
    have isArray : chunk.length ≤ maxSize := by omega
    have fits : ∀ resp ∈ responses, resp.encoded.length ≤ maxSize := by
      intro resp member
      have := room resp member chunk List.mem_cons_self
      omega
    rcases TcpBuffer.append_spec build ready.valid isArray with ⟨large, -⟩ | ⟨after, appends, spec⟩
    · omega
    have appended : Ready { client with buffer := after } callbacks responses
        client.buffer.readable := ⟨spec.valid, ready.awaiting, ready.pending⟩
    obtain ⟨next, done, rest, calledFor, waiting, returned, rfl, rfl, sameLength, readyNext,
      shapeNext, prepend, called⟩ := onMessage_spec build appended sendable fits paired
        spec.readable_eq (by rw [List.append_assoc]; exact split) enough
    have prepend : next.buffer.prependSize = client.buffer.prependSize :=
      prepend.trans spec.prepend_eq
    rw [List.length_append] at enough
    obtain ⟨final, received, isEmpty, consumed, isCleared, calledFinal⟩ := inductionHypothesis
      readyNext (fun resp member => sendable resp (List.mem_append_right _ member))
      (by simp only [List.length_append] at paired; omega) shapeNext
      (fun resp member other inMore => by
        rw [prepend]
        exact room resp (List.mem_append_right _ member) other (List.mem_cons_of_mem _ inMore))
      (by omega)
    refine ⟨final, ?_, isEmpty, consumed, isCleared, ?_⟩
    · rw [receive, appends]
      simp only
      rw [returned]
      exact received
    · rw [calledFinal, called, List.map_append, List.zip_append (by simpa using sameLength),
        List.append_assoc]

/-- For every list of responses that can be sent, every split of their encodings into chunks and
as many pending callbacks, the client calls each callback once, in order, with its response, and
is left with no pending request, an empty buffer and a cleared response. A chunk and a response
are arrays that the buffer can hold together, and the loop of each call ends within a round for
each response and two more. -/
theorem client_pairs_responses (build : Build) (client : HttpClient Callback)
    (callbacks : List Callback) (responses : List HttpResponse) (chunks : List (List UInt8))
    (valid : client.buffer.Valid) (empty : client.buffer.readable = [])
    (fresh : client.response = cleared) (pending : client.pendingRequests = callbacks.map some)
    (paired : callbacks.length = responses.length) (sendable : ∀ resp ∈ responses, resp.Sendable)
    (split : chunks.flatten = stream responses)
    (room : ∀ resp ∈ responses, ∀ chunk ∈ chunks,
      client.buffer.prependSize + resp.encoded.length + chunk.length ≤ maxSize)
    (fuel : Nat) (enough : responses.length + 2 ≤ fuel) :
    ∃ final answers, receive build fuel client chunks = some (.ok final) ∧
      final.pendingRequests = [] ∧ final.buffer.readable = [] ∧ final.response = cleared ∧
      final.called = client.called ++ callbacks.zip answers ∧
      List.Forall₂ Conveys responses answers := by
  have ready : client.Ready callbacks responses client.buffer.readable := by
    refine ⟨valid, ?_, pending⟩
    rw [empty, fresh]
    exact awaiting_nil responses
  obtain ⟨final, received, isEmpty, consumed, isCleared, called⟩ := receive_spec build ready
    sendable paired (by rw [empty]; exact split) room enough
  refine ⟨final, responses.map (HttpResponse.received · true), received, isEmpty, consumed,
    isCleared, called, ?_⟩
  rw [List.forall₂_map_right_iff, List.forall₂_same]
  exact fun resp member => (sendable resp member).conveys

/-- A connected client with two pending requests. -/
def twoPending : HttpClient Nat where
  buffer := { buffer := List.replicate 16 0, prependSize := 8, readIndex := 8, writeIndex := 8 }
  response := cleared
  pendingRequests := [some 1, some 2]
  called := []
  disconnects := 0

/-- Two responses, the first one cut in its header and the second one in its last line. -/
theorem client_pairs_responses_two : ∃ final answers,
    receive .debug 4 twoPending [(stream [oddResponse, cleared]).take 30,
      ((stream [oddResponse, cleared]).drop 30).take 100,
      ((stream [oddResponse, cleared]).drop 30).drop 100] = some (.ok final) ∧
    final.pendingRequests = [] ∧ final.buffer.readable = [] ∧ final.response = cleared ∧
    final.called = [] ++ [1, 2].zip answers ∧
    List.Forall₂ Conveys [oddResponse, cleared] answers := by
  have sendable : ∀ resp ∈ [oddResponse, cleared], resp.Sendable := by
    intro resp member
    rcases List.mem_cons.mp member with rfl | last
    · exact ⟨by decide +kernel, by decide +kernel, by decide +kernel, by decide +kernel⟩
    · obtain rfl := List.mem_singleton.mp last
      exact ⟨by decide +kernel, by decide +kernel, by decide +kernel, by decide +kernel⟩
  exact client_pairs_responses .debug twoPending [1, 2] [oddResponse, cleared] _
    ⟨by decide +kernel, by decide +kernel, by decide +kernel, by decide +kernel⟩ (by decide +kernel)
    rfl rfl rfl sendable (by decide +kernel) (by decide +kernel) 4 (by decide)

end HttpClient

end YYNet
