/-
This file proves that the HTTP client pairs whatever responses it can read with its
pending requests, in general: the responses need not be encoded by this library, and
some of the pending requests may not have reached the server.

Bytes are a response if the decoder takes all of them at once, and finds the status in
the header. What the client has made of a part of them is then what one call would have
made of that part, since decoding is incremental; no part is taken for a response or for
an error, and the loop of the client ends on it.

What the two encoders of this library write are such bytes, with names of any case.
-/

import YYNet.Http.Client
import YYNet.Http.Incremental

namespace YYNet

open Checked Storage

namespace HttpResponse

/-! ### The bytes of a response -/

/-- Some bytes are a response: the decoder takes all of them at once, the content length is not
negative, the status stands in the header, and the connection is kept. -/
structure OnWire (bytes : List UInt8) (resp : HttpResponse) : Prop where
  accepted : cleared.tryDecode bytes [] true = .ok (.complete, resp)
  whole : resp.getByte = bytes.length
  nonNegative : HttpMsg.NonNegative bytes
  status : ∀ parsed line1, HttpMsg.cleared.decodeHeader bytes = .parsed parsed line1 →
    line1 ≠ [] → ∃ byte ∈ (bytes.take parsed.scanned).drop (statusPointer line1),
      isSpace byte = false
  keepAlive : resp.getHeader (text "connection") ≠ text "close"

/-- A part of a response has arrived, and this is what the decoder makes of it at once. -/
def Partly (bytes front : List UInt8) (state : HttpResponse) : Prop :=
  (∃ missing, missing ≠ [] ∧ front ++ missing = bytes) ∧
    ∃ result behind, cleared.tryDecode front behind true = .ok (result, state)

/-- The message behind a call. -/
theorem message_of_tryDecode {resp next : HttpResponse} {buf behind : List UInt8}
    {copyBody : Bool} {result : ParseResult}
    (decoded : resp.tryDecode buf behind copyBody = .ok (result, next)) :
    ∃ msg line1, resp.toHttpMsg.tryDecode_ buf copyBody = .ok (result, msg, line1) ∧
      next = if line1 = [] then { resp with toHttpMsg := msg }
        else ({ resp with toHttpMsg := msg } : HttpResponse).readStatusLine (buf ++ behind)
          line1 := by
  obtain ⟨⟨found, msg, line1⟩, called, same⟩ := bind_eq_ok decoded
  obtain ⟨rfl, rfl⟩ := Prod.mk.inj (Except.ok.inj same)
  exact ⟨msg, line1, called, rfl⟩

section

variable {bytes : List UInt8} {resp : HttpResponse} (wire : OnWire bytes resp)

include wire

theorem OnWire.ne_nil : bytes ≠ [] := by
  rintro rfl
  have nothing : cleared.tryDecode [] [] true = .ok (.notComplete, cleared) := by decide
  have decoded := wire.accepted
  rw [nothing] at decoded
  cases decoded

/-- The header is in the bytes. -/
theorem OnWire.header_found (looked : HttpMsg) :
    HttpMsg.cleared.decodeHeader bytes ≠ .missing looked := by
  intro missing
  obtain ⟨msg, line1, called, -⟩ := message_of_tryDecode wire.accepted
  have decoded : HttpMsg.cleared.tryDecode_ bytes true = .ok (.notComplete, looked, []) := by
    unfold HttpMsg.tryDecode_
    rw [if_neg (by decide), if_neg (by decide), missing]
    rfl
  have same := Except.ok.inj (decoded.symm.trans called)
  exact ParseResult.noConfusion (Prod.mk.inj same).1

/-- Bytes behind a response do not change its header. -/
theorem OnWire.nonNegative_append (rest : List UInt8) :
    HttpMsg.NonNegative (bytes ++ rest) := by
  intro parsed line1 header
  rw [HttpMsg.decodeHeader_append wire.header_found] at header
  exact wire.nonNegative parsed line1 header

/-- The header is well formed. -/
theorem OnWire.header_formed (looked : HttpMsg) (line1 : List UInt8) :
    HttpMsg.cleared.decodeHeader bytes ≠ .malformed looked line1 := by
  intro header
  obtain ⟨msg, line, called, -⟩ := message_of_tryDecode wire.accepted
  have failed : HttpMsg.cleared.tryDecode_ bytes true = .ok (.error, looked, line1) :=
    HttpMsg.Phase.tryDecode (.malformed looked line1 header)
  have same := Except.ok.inj (failed.symm.trans called)
  exact ParseResult.noConfusion (Prod.mk.inj same).1

theorem OnWire.settled_append (rest : List UInt8) : StatusSettled (bytes ++ rest) := by
  constructor
  · intro parsed line1 header nonempty
    rw [HttpMsg.decodeHeader_append wire.header_found] at header
    rw [List.take_append_of_le_length (HttpMsg.scanned_of_decodeHeader header)]
    exact wire.status parsed line1 header nonempty
  · intro looked line1 header
    rw [HttpMsg.decodeHeader_append wire.header_found] at header
    exact absurd header (wire.header_formed looked line1)

/-- A part of a response settles the status as well. -/
theorem OnWire.settled_part {front missing : List UInt8} (shape : front ++ missing = bytes) :
    StatusSettled front := by
  constructor
  · intro parsed line1 header nonempty
    have whole : HttpMsg.cleared.decodeHeader bytes = .parsed parsed line1 := by
      rw [← shape, HttpMsg.decodeHeader_append (by simp [header]), header]
    rw [← List.take_append_of_le_length (HttpMsg.scanned_of_decodeHeader header), shape]
    exact wire.status parsed line1 whole nonempty
  · intro looked line1 header
    have whole : HttpMsg.cleared.decodeHeader bytes = .malformed looked line1 := by
      rw [← shape, HttpMsg.decodeHeader_append (by simp [header]), header]
    exact absurd whole (wire.header_formed looked line1)

/-- Decoding resumes on a response and what follows it. -/
theorem OnWire.resumes {rest : List UInt8} (small : (bytes ++ rest).length ≤ maxSize) :
    Resumes (fun response piece => response.tryDecode piece.bytes piece.behind true) cleared
      (bytes ++ rest) :=
  tryDecode_resumes true small (wire.nonNegative_append rest) (wire.settled_append rest)

/-- A response is read at once whatever follows it, in the piece and behind it. -/
theorem OnWire.tryDecode {rest : List UInt8} (small : (bytes ++ rest).length ≤ maxSize)
    (behind : List UInt8) :
    cleared.tryDecode (bytes ++ rest) behind true = .ok (.complete, resp) := by
  obtain ⟨msg, line1, called, isResp⟩ := message_of_tryDecode wire.accepted
  have complete : resp.complete = true := by
    have read := HttpMsg.complete_of_tryDecode called
    rw [isResp]
    split
    · exact read
    · exact read
  obtain ⟨next, again, oneShot, resumed, alone, agree⟩ := wire.resumes small ⟨bytes, []⟩
    ⟨bytes ++ rest, behind⟩ _ _ (List.prefix_append _ _) (List.prefix_refl _) wire.accepted
  have stays : resp.tryDecode (bytes ++ rest) behind true = .ok (.complete, resp) := by
    unfold HttpResponse.tryDecode
    rw [HttpMsg.tryDecode_of_complete complete]
    rfl
  obtain ⟨rfl, rfl⟩ := Prod.mk.inj (Except.ok.inj (stays.symm.trans resumed))
  rcases agree with rfl | ⟨-, impossible⟩
  · exact alone
  · cases impossible

/-- A part of a response is no response and no error. -/
theorem OnWire.part_result {front missing : List UInt8} (shape : front ++ missing = bytes)
    (nonempty : missing ≠ []) (small : bytes.length ≤ maxSize) {result : ParseResult}
    {state : HttpResponse} {behind : List UInt8}
    (decoded : cleared.tryDecode front behind true = .ok (result, state)) :
    result = .notComplete ∨ result = .continue100 := by
  have longer := List.length_pos_of_ne_nil nonempty
  have sizes := congrArg List.length shape
  rw [List.length_append] at sizes
  obtain ⟨msg, line1, called, -⟩ := message_of_tryDecode decoded
  obtain ⟨done, line, calledWhole, isResp⟩ := message_of_tryDecode wire.accepted
  cases result with
  | notComplete => exact .inl rfl
  | continue100 => exact .inr rfl
  | error =>
    exfalso
    have phase := HttpMsg.phase_of_tryDecode called
    generalize isResult : ParseResult.error = result at phase
    cases phase with
    | looking | complete => cases isResult
    | waiting parsed _ header short => split at isResult <;> cases isResult
    | malformed _ _ header =>
      have again : HttpMsg.cleared.decodeHeader bytes = .malformed msg line1 := by
        rw [← shape, HttpMsg.decodeHeader_append (by simp [header]), header]
      exact wire.header_formed msg line1 again
  | complete =>
    exfalso
    have whole := HttpMsg.tryDecode_append (by omega) rfl rfl called missing
    rw [shape] at whole
    have same := Except.ok.inj (whole.symm.trans calledWhole)
    have isMsg : msg = done := (Prod.mk.inj (Prod.mk.inj same).2).1
    have outcome := HttpMsg.tryDecode_outcome HttpMsg.cleared_resumable (by omega) called
    have inside : 0 < msg.scanned ∧ msg.scanned ≤ front.length := outcome
    have taken : resp.getByte = done.scanned := by
      rw [isResp]
      split
      · rfl
      · rfl
    rw [wire.whole, ← isMsg] at taken
    omega

/-- More bytes of a response that is still not complete. If the decoder asks for the body, it has
the header. -/
theorem OnWire.part {front more missing : List UInt8} {state : HttpResponse}
    (partly : Partly bytes front state) (shape : front ++ more ++ missing = bytes)
    (nonempty : missing ≠ []) (small : bytes.length ≤ maxSize) (behind : List UInt8) :
    ∃ result next, state.tryDecode (front ++ more) behind true = .ok (result, next) ∧
      Partly bytes (front ++ more) next ∧
      (result = .notComplete ∨ result = .continue100 ∧ next.toHttpMsg.Headed) := by
  obtain ⟨first, beyond, reached⟩ := partly.2
  have resumes := wire.resumes (by rw [List.append_nil]; exact small : (bytes ++ []).length ≤ _)
  rw [List.append_nil] at resumes
  have part : front ++ more <+: bytes := ⟨missing, shape⟩
  obtain ⟨next, result, oneShot, called, alone, agree⟩ := resumes ⟨front, beyond⟩
    ⟨front ++ more, behind⟩ _ _ (List.prefix_append _ _) part reached
  refine ⟨result, next, called, ⟨⟨missing, nonempty, shape⟩, oneShot, behind, alone⟩, ?_⟩
  have short := part.length_le
  rcases agree with rfl | ⟨-, rfl⟩
  · rcases wire.part_result shape nonempty small alone with rfl | rfl
    · exact .inl rfl
    · obtain ⟨msg, line1, asked, isNext⟩ := message_of_tryDecode alone
      have headed := (HttpMsg.continue_of_tryDecode (short.trans small) asked).2.2
      refine .inr ⟨rfl, ?_⟩
      rw [isNext]
      split
      · exact headed
      · exact headed
  · exact .inl rfl

/-- The next call on the same bytes waits. -/
theorem OnWire.again {front : List UInt8} {state : HttpResponse}
    (partly : Partly bytes front state) (headed : state.toHttpMsg.Headed)
    (small : bytes.length ≤ maxSize) (behind : List UInt8) :
    state.tryDecode front behind true = .ok (.notComplete, state) := by
  obtain ⟨⟨missing, nonempty, shape⟩, first, beyond, reached⟩ := partly
  have waits : Partly bytes front state := ⟨⟨missing, nonempty, shape⟩, first, beyond, reached⟩
  have nothing : front ++ [] ++ missing = bytes := by
    rw [List.append_nil]
    exact shape
  obtain ⟨result, next, called, ⟨-, other, elsewhere, alone⟩, outcome⟩ :=
    wire.part waits nothing nonempty small behind
  rw [List.append_nil] at called alone
  have same : cleared.tryDecode front beyond true = cleared.tryDecode front elsewhere true :=
    (wire.settled_part shape).blind true beyond elsewhere
  obtain ⟨-, rfl⟩ := Prod.mk.inj (Except.ok.inj ((reached.symm.trans same).trans alone))
  rcases outcome with rfl | ⟨rfl, -⟩
  · exact called
  · obtain ⟨msg, line1, asked, -⟩ := message_of_tryDecode called
    exact absurd rfl (headed.call asked).1

/-- The rest of a response, and bytes behind it. -/
theorem OnWire.complete {front more rest : List UInt8} {state : HttpResponse}
    (partly : Partly bytes front state) (shape : front ++ more = bytes ++ rest)
    (small : (bytes ++ rest).length ≤ maxSize) (behind : List UInt8) :
    state.tryDecode (front ++ more) behind true = .ok (.complete, resp) := by
  obtain ⟨first, beyond, reached⟩ := partly.2
  have resumes := wire.resumes small
  rw [← shape] at resumes
  obtain ⟨next, result, oneShot, called, alone, agree⟩ := resumes ⟨front, beyond⟩
    ⟨front ++ more, behind⟩ _ _ (List.prefix_append _ _) (List.prefix_refl _) reached
  have whole := wire.tryDecode small behind
  rw [← shape] at whole
  obtain ⟨rfl, rfl⟩ := Prod.mk.inj (Except.ok.inj (whole.symm.trans alone))
  rcases agree with rfl | ⟨impossible, -⟩
  · exact called
  · cases impossible

end

/-! ### The loop of the client -/

/-- The bytes of some responses. -/
def wireStream (wires : List (List UInt8 × HttpResponse)) : List UInt8 :=
  wires.flatMap Prod.fst

/-- What the response object of a client is, with the responses that are still to come and the
bytes of them that have arrived. -/
def Expecting : List (List UInt8 × HttpResponse) → List UInt8 → HttpResponse → Prop
  | [], arrived, state => arrived = [] ∧ state = cleared
  | (bytes, _) :: _, arrived, state => Partly bytes arrived state

/-- With nothing arrived the object is cleared. -/
theorem expecting_nil {wires : List (List UInt8 × HttpResponse)}
    (onWire : ∀ wire ∈ wires, OnWire wire.1 wire.2) : Expecting wires [] cleared := by
  cases wires with
  | nil => exact ⟨rfl, rfl⟩
  | cons wire others =>
    exact ⟨⟨wire.1, (onWire wire List.mem_cons_self).ne_nil, rfl⟩, .notComplete, [], by decide⟩

end HttpResponse

namespace HttpClient

variable {Callback : Type}

open HttpResponse

/-- The calls that some pending requests make of their responses. One without a callback makes
none. -/
def callsOf (pending : List (Option Callback)) (answers : List HttpResponse) :
    List (Callback × HttpResponse) :=
  (pending.zip answers).flatMap fun entry => entry.1.toList.map fun callback => (callback, entry.2)

theorem callsOf_append {first second : List (Option Callback)}
    {answers more : List HttpResponse} (paired : first.length = answers.length) :
    callsOf (first ++ second) (answers ++ more) =
      callsOf first answers ++ callsOf second more := by
  unfold callsOf
  rw [List.zip_append paired, List.flatMap_append]

/-- The client between two calls of `onMessage`. -/
structure Expects (client : HttpClient Callback) (wires : List (List UInt8 × HttpResponse))
    (arrived : List UInt8) : Prop where
  valid : client.buffer.Valid
  expecting : Expecting wires arrived client.response
  pending : wires.length ≤ client.pendingRequests.length

section

variable (build : Build) {client : HttpClient Callback}

/-- One round with a whole response at the front of the buffer. -/
theorem round_whole {bytes : List UInt8} {resp : HttpResponse} (wire : OnWire bytes resp)
    (valid : client.buffer.Valid) {front more rest : List UInt8}
    (partly : Partly bytes front client.response) (arrived : client.buffer.readable = front ++ more)
    (shape : front ++ more = bytes ++ rest) {context : Option Callback}
    {others : List (Option Callback)} (isPending : client.pendingRequests = context :: others) :
    client.round build = .ok (false, { client with
      buffer := client.buffer.consumed bytes.length
      response := cleared
      pendingRequests := others
      called := client.called ++ callsOf [context] [resp] }) := by
  have small : (bytes ++ rest).length ≤ maxSize := by
    rw [← shape, ← arrived]
    exact readable_le valid
  have inside : bytes.length ≤ client.buffer.readableSize := by
    rw [← valid.readable_length, arrived, shape, List.length_append]
    omega
  unfold round
  rw [arrived, wire.complete partly shape small client.buffer.writable, ok_bind]
  simp only
  rw [wire.whole, TcpBuffer.consume_eq build valid inside, ok_bind, if_neg wire.keepAlive]
  unfold answer callsOf
  simp [isPending]

/-- The loop with a part of a response at the front of the buffer returns. -/
theorem onMessage_partly {bytes : List UInt8} {resp : HttpResponse} (wire : OnWire bytes resp)
    (small : bytes.length ≤ maxSize) {front more missing : List UInt8}
    (partly : Partly bytes front client.response)
    (arrived : client.buffer.readable = front ++ more) (nonempty : missing ≠ [])
    (shape : front ++ more ++ missing = bytes) (fuel : Nat) :
    ∃ state, onMessage build (fuel + 2) client = some (.ok { client with response := state }) ∧
      Partly bytes (front ++ more) state := by
  obtain ⟨result, next, decoded, partlyNext, outcome⟩ := wire.part partly shape nonempty small
    client.buffer.writable
  refine ⟨next, ?_, partlyNext⟩
  rcases outcome with rfl | ⟨rfl, headed⟩
  · have first : client.round build = .ok (true, { client with response := next }) := by
      unfold round
      rw [arrived, decoded]
      rfl
    rw [onMessage, first]
  · -- `Continue100` has no branch of its own, so the loop asks the decoder once more.
    have first : client.round build = .ok (false, { client with response := next }) := by
      unfold round
      rw [arrived, decoded]
      rfl
    have second : round build { client with response := next } =
        .ok (true, { client with response := next }) := by
      unfold round
      simp only
      rw [arrived, wire.again partlyNext headed small]
      rfl
    rw [onMessage, first]
    simp only
    rw [onMessage, second]

/-- The loop with nothing in the buffer returns. -/
theorem onMessage_nothing (arrived : client.buffer.readable = []) (fresh : client.response = cleared)
    (fuel : Nat) : onMessage build (fuel + 1) client = some (.ok client) := by
  have nothing (behind : List UInt8) :
      cleared.tryDecode [] behind true = .ok (.notComplete, cleared) := rfl
  have round : client.round build = .ok (true, client) := by
    unfold HttpClient.round
    rw [arrived, fresh, nothing, ok_bind]
    obtain ⟨buffer, response, pending, called, disconnects⟩ := client
    obtain rfl : response = cleared := fresh
    rfl
  rw [onMessage, round]

end

/-- What a call of `onMessage` has done: it has taken the responses that were complete, and called
the first pending requests with them. -/
structure Took (client next : HttpClient Callback)
    (done rest : List (List UInt8 × HttpResponse)) : Prop where
  pending : next.pendingRequests = client.pendingRequests.drop done.length
  called : next.called = client.called ++
    callsOf (client.pendingRequests.take done.length) (done.map Prod.snd)
  expects : next.Expects rest next.buffer.readable
  prependSize : next.buffer.prependSize = client.buffer.prependSize
  disconnects : next.disconnects = client.disconnects

/-- `onMessage` gives every response that is complete to the next pending request. -/
theorem onMessage_takes (build : Build) {client : HttpClient Callback}
    {wires : List (List UInt8 × HttpResponse)} {front more later : List UInt8}
    (expects : client.Expects wires front) (onWire : ∀ wire ∈ wires, OnWire wire.1 wire.2)
    (small : ∀ wire ∈ wires, wire.1.length ≤ maxSize)
    (arrived : client.buffer.readable = front ++ more)
    (shape : front ++ more ++ later = wireStream wires) {fuel : Nat}
    (enough : client.buffer.readable.length + 2 ≤ fuel) :
    ∃ next done rest, onMessage build fuel client = some (.ok next) ∧ wires = done ++ rest ∧
      client.Took next done rest ∧ next.buffer.readable ++ later = wireStream rest := by
  induction wires generalizing client front more fuel with
  | nil =>
    obtain ⟨rfl, fresh⟩ := expects.expecting
    obtain ⟨⟨-, rfl⟩, rfl⟩ : (([] : List UInt8) = [] ∧ more = []) ∧ later = [] := by
      simpa [wireStream] using shape
    obtain ⟨fuel, rfl⟩ : ∃ less, fuel = less + 1 := ⟨fuel - 1, by omega⟩
    refine ⟨client, [], [], onMessage_nothing build arrived fresh fuel, rfl,
      ⟨rfl, by simp [callsOf], ⟨expects.valid, ⟨arrived, fresh⟩, expects.pending⟩, rfl, rfl⟩, ?_⟩
    rw [arrived]
    rfl
  | cons wire others inductionHypothesis =>
    have wireFirst := onWire wire List.mem_cons_self
    have smallFirst := small wire List.mem_cons_self
    have partly : Partly wire.1 front client.response := expects.expecting
    have whole : wireStream (wire :: others) = wire.1 ++ wireStream others := List.flatMap_cons
    have paired := expects.pending
    rw [List.length_cons] at paired
    obtain ⟨context, contexts, isPending⟩ : ∃ context contexts,
        client.pendingRequests = context :: contexts :=
      List.exists_cons_of_ne_nil (List.ne_nil_of_length_pos (by omega))
    by_cases isWhole : wire.1 <+: front ++ more
    · obtain ⟨rest, isWhole⟩ := isWhole
      obtain ⟨fuel, rfl⟩ : ∃ less, fuel = less + 1 := ⟨fuel - 1, by omega⟩
      have first := round_whole build wireFirst expects.valid partly arrived isWhole.symm isPending
      have left : (client.buffer.consumed wire.1.length).readable = [] ++ rest := by
        rw [TcpBuffer.consumed_readable expects.valid, arrived, ← isWhole, List.drop_left]
        rfl
      have shapeRest : [] ++ rest ++ later = wireStream others := by
        rw [whole, ← isWhole, List.append_assoc] at shape
        exact List.append_cancel_left shape
      have onWireOthers : ∀ other ∈ others, OnWire other.1 other.2 := fun other member =>
        onWire other (List.mem_cons_of_mem _ member)
      have expectsRest : Expects { client with
          buffer := client.buffer.consumed wire.1.length
          response := cleared
          pendingRequests := contexts
          called := client.called ++ callsOf [context] [wire.2] } others [] := by
        refine ⟨TcpBuffer.consumed_valid expects.valid _, expecting_nil onWireOthers, ?_⟩
        rw [isPending, List.length_cons] at paired
        exact Nat.le_of_succ_le_succ paired
      have fewer : (client.buffer.consumed wire.1.length).readable.length + 2 ≤ fuel := by
        have positive := List.length_pos_of_ne_nil wireFirst.ne_nil
        have sizes := congrArg List.length isWhole
        rw [List.length_append, ← arrived] at sizes
        rw [left, List.nil_append]
        omega
      obtain ⟨next, done, remaining, returned, isDone, took, shapeNext⟩ := inductionHypothesis
        expectsRest onWireOthers (fun other member => small other (List.mem_cons_of_mem _ member))
        left shapeRest fewer
      refine ⟨next, wire :: done, remaining, ?_, ?_, ⟨?_, ?_, took.expects, ?_, took.disconnects⟩,
        shapeNext⟩
      · rw [onMessage, first]
        exact returned
      · rw [isDone, List.cons_append]
      · rw [took.pending, isPending]
        rfl
      · have split : callsOf ([context] ++ contexts.take done.length)
            ([wire.2] ++ done.map Prod.snd) = callsOf [context] [wire.2] ++
              callsOf (contexts.take done.length) (done.map Prod.snd) := callsOf_append rfl
        rw [took.called, isPending, List.append_assoc, ← split]
        rfl
      · exact took.prependSize.trans (TcpBuffer.consumed_prependSize _)
    · obtain ⟨missing, isPart⟩ : front ++ more <+: wire.1 := by
        have prefixes := List.prefix_or_prefix_of_prefix
          (⟨later, shape.trans whole⟩ : front ++ more <+: wire.1 ++ wireStream others)
          (List.prefix_append wire.1 (wireStream others))
        exact prefixes.resolve_right isWhole
      have strict : missing ≠ [] := by
        rintro rfl
        exact isWhole ⟨[], by simpa using isPart.symm⟩
      obtain ⟨fuel, rfl⟩ : ∃ less, fuel = less + 2 := ⟨fuel - 2, by omega⟩
      obtain ⟨state, returned, partlyNext⟩ := onMessage_partly build wireFirst smallFirst partly
        arrived strict isPart fuel
      refine ⟨_, [], wire :: others, returned, rfl,
        ⟨rfl, by simp [callsOf], ⟨expects.valid, ?_, expects.pending⟩, rfl, rfl⟩, ?_⟩
      · show Partly wire.1 client.buffer.readable state
        rw [arrived]
        exact partlyNext
      · show client.buffer.readable ++ later = _
        rw [arrived]
        exact shape

end HttpClient

/-! ### What the encoders write -/

namespace HttpMsg

instance readableDecidable (field : List UInt8 × List UInt8) : Decidable (Readable field) :=
  decidable_of_iff (field.1.any isSpace = false ∧ field.2 ≠ [] ∧ Trimmed field.2 ∧ InLine field.2)
    ⟨fun ⟨noSpace, nonempty, trimmed, inLine⟩ =>
        ⟨by simpa using noSpace, nonempty, trimmed, inLine⟩,
      fun readable => ⟨by simpa using readable.noSpace, readable.nonempty, readable.trimmed,
        readable.inLine⟩⟩

/-- Headers that can be written. The names may have any case, and may be those of the automatic
fields. -/
def Writable (msg : HttpMsg) : Prop :=
  ∀ field ∈ msg.headers.entries, Readable field

instance writableDecidable (msg : HttpMsg) : Decidable msg.Writable :=
  inferInstanceAs (Decidable (∀ field ∈ msg.headers.entries, Readable field))

/-- The headers as they are read: the names in lower case, and the automatic fields over what was
there. -/
def foldedHeaders (msg : HttpMsg) : StringMap :=
  OrderedMap.empty.setAll (msg.allFields.map entryOf)

theorem Writable.readable {msg : HttpMsg} (writable : msg.Writable) :
    ∀ field ∈ msg.allFields, Readable field := by
  intro field member
  rcases List.mem_append.mp member with own | automatic
  · exact writable field own
  · exact msg.automatic_readable field automatic

/-- The automatic length is read, whatever the headers say. -/
theorem contentLenOf_folded {msg : HttpMsg} (small : msg.getBody.length < 2 ^ 63) :
    contentLenOf msg.foldedHeaders = msg.getBody.length := by
  have name : (text "Content-Length").map toLower = text "content-length" := by decide
  have fields : msg.allFields.map entryOf =
      (msg.headers.entries ++ [(text "Connection", text "Keep-Alive")]).map entryOf ++
        [(text "content-length", Decimal.text msg.getBody.length)] := by
    rw [allFields, ← name]
    simp [entryOf]
  have found : msg.foldedHeaders.find (text "content-length") =
      some (Decimal.text msg.getBody.length) := by
    rw [foldedHeaders, fields]
    exact OrderedMap.find_setAll_last _ _ (text "content-length", _) (List.forall_mem_nil _)
  unfold contentLenOf
  rw [found, Option.getD_some, if_neg (Decimal.text_ne_nil _), atollSize_text small]

/-- The connection is kept, whatever the headers say. -/
theorem connection_folded (msg : HttpMsg) :
    msg.foldedHeaders.find (text "connection") = some (text "Keep-Alive") := by
  have name : (text "Connection").map toLower = text "connection" := by decide
  have fields : msg.allFields.map entryOf = msg.headers.entries.map entryOf ++
      (text "connection", text "Keep-Alive") ::
        [entryOf (text "Content-Length", Decimal.text msg.getBody.length)] := by
    rw [allFields, ← name]
    simp [entryOf]
  have different : (entryOf (text "Content-Length", Decimal.text msg.getBody.length)).1 ≠
      text "connection" := by
    show (text "Content-Length").map toLower ≠ text "connection"
    decide
  rw [foldedHeaders, fields]
  exact OrderedMap.find_setAll_last _ _ (text "connection", text "Keep-Alive")
    (List.forall_mem_singleton.mpr different)

/-- A length that is read as a size of an array is not negative. -/
theorem declaredLength_nonneg {headers : StringMap} (small : contentLenOf headers < 2 ^ 63) :
    0 ≤ declaredLength headers := by
  have bounds : -2 ^ 63 ≤ declaredLength headers ∧ declaredLength headers < 2 ^ 63 := by
    unfold declaredLength
    split
    · decide
    · exact strtol_bounds _
  rw [contentLenOf_eq] at small
  omega

end HttpMsg

namespace HttpResponse

/-- A response that can be written: a version that is a word, a trimmed status message within a
line, no null in either, a status line that fits its array, and headers that can be written. -/
structure Writable (resp : HttpResponse) : Prop where
  headers : resp.toHttpMsg.Writable
  version : IsWord resp.version ∧ 0 ∉ resp.version
  statusMsg : Trimmed resp.statusMsg ∧ InLine resp.statusMsg ∧ 0 ∉ resp.statusMsg
  short : (resp.statusLine ++ crlf).length < HttpMsg.tmpSize

instance writableDecidable (resp : HttpResponse) : Decidable resp.Writable :=
  decidable_of_iff (resp.toHttpMsg.Writable ∧
    (IsWord resp.version ∧ resp.version.contains 0 = false) ∧
    (Trimmed resp.statusMsg ∧ InLine resp.statusMsg ∧ resp.statusMsg.contains 0 = false) ∧
    (resp.statusLine ++ crlf).length < HttpMsg.tmpSize)
    ⟨fun ⟨headers, version, statusMsg, short⟩ =>
        ⟨headers, by simpa using version, by simpa using statusMsg, short⟩,
      fun writable => ⟨writable.headers, by simpa using writable.version,
        by simpa using writable.statusMsg, writable.short⟩⟩

section

variable {resp : HttpResponse} (writable : resp.Writable)

include writable

/-- Without its headers the response can be sent. -/
theorem Writable.bare : ({ resp with headers := OrderedMap.empty } : HttpResponse).Sendable :=
  ⟨nofun, writable.version, writable.statusMsg, writable.short⟩

theorem Writable.encoded_eq (small : resp.getBody.length < 2 ^ 64) :
    resp.encoded = resp.sentHeader ++ resp.getBody := by
  unfold encoded encode
  rw [cStr_of_not_mem writable.version.2, cStr_of_not_mem writable.statusMsg.2.2, ← statusLine,
    snprintf_of_lt writable.short, HttpMsg.encodeBehind_lines small]
  rfl

theorem Writable.decodeHeader (rest : List UInt8) :
    HttpMsg.cleared.decodeHeader (resp.sentHeader ++ rest) =
      .parsed (HttpMsg.cleared.headed resp.statusLine resp.allFields) resp.statusLine :=
  HttpMsg.decodeHeader_lines rfl (statusLine_ne_nil resp) writable.bare.inLine
    writable.headers.readable rest

/-- `atoi` begins at the status. -/
theorem Writable.statusPointer_eq :
    resp.statusLine.drop (statusPointer resp.statusLine) =
      formatInt resp.status ++ (32 :: resp.statusMsg) := by
  have shape : resp.statusLine =
      (resp.version ++ [32]) ++ (formatInt resp.status ++ (32 :: resp.statusMsg)) := by
    unfold statusLine
    simp [text]
  have version : eatWord resp.statusLine =
      (resp.version, 32 :: (formatInt resp.status ++ (32 :: resp.statusMsg))) := by
    rw [shape, List.append_assoc]
    exact eatWord_append writable.version.1 (by simp [isSpace])
  have start : (32 :: (formatInt resp.status ++ (32 :: resp.statusMsg))).dropWhile isSpace =
      formatInt resp.status ++ (32 :: resp.statusMsg) := by
    rw [List.dropWhile_cons_of_pos (by decide), dropWhile_isSpace_word (isWord_formatInt _)]
  have pointer : statusPointer resp.statusLine = (resp.version ++ [32]).length := by
    unfold statusPointer
    rw [version, start, shape, List.length_append, Nat.add_sub_cancel]
  rw [pointer, shape, List.drop_left]

/-- An encoded response is a response on the wire. -/
theorem Writable.onWire (fits : resp.encoded.length ≤ maxSize) :
    OnWire resp.encoded (resp.received true) := by
  have small : resp.getBody.length < 2 ^ 63 := getBody_lt fits
  have bytes := writable.encoded_eq (by omega)
  have contentLen : (HttpMsg.cleared.headed resp.statusLine resp.allFields).contentLen =
      resp.getBody.length := HttpMsg.contentLenOf_folded small
  have header := writable.decodeHeader resp.getBody
  rw [bytes] at fits ⊢
  refine ⟨?_, rfl, ?_, ?_, ?_⟩
  · have decoded : cleared.toHttpMsg.tryDecode_ (resp.sentHeader ++ resp.getBody ++ []) true =
        .ok (.complete, (HttpMsg.cleared.headed resp.statusLine resp.allFields).taken
          resp.sentHeader resp.getBody true, resp.statusLine) :=
      HttpMsg.tryDecode_lines rfl rfl rfl (statusLine_ne_nil resp) writable.bare.inLine
        writable.headers.readable contentLen [] (by rw [List.append_nil]; exact fits) true
    rw [List.append_nil] at decoded
    have whole : resp.sentHeader ++ resp.getBody ++ [] = resp.statusLine ++
        (HttpMsg.fieldLines resp.allFields ++ headerEnd ++ resp.getBody) := by
      unfold sentHeader
      simp only [List.append_assoc, List.append_nil]
    have read (decoded : HttpResponse) (rest : List UInt8) :
        decoded.readStatusLine (resp.statusLine ++ rest) resp.statusLine =
          { decoded with
            version := resp.version
            status := resp.status
            statusMsg := resp.statusMsg } := writable.bare.readStatusLine decoded rest
    unfold HttpResponse.tryDecode
    rw [decoded, ok_bind]
    simp only
    rw [if_neg (statusLine_ne_nil resp), whole, read]
    rfl
  · intro parsed line1 found
    obtain ⟨rfl, -⟩ := HttpMsg.Header.parsed.inj (header.symm.trans found)
    exact HttpMsg.declaredLength_nonneg (lt_of_eq_of_lt contentLen small)
  · intro parsed line1 found nonempty
    obtain ⟨rfl, rfl⟩ := HttpMsg.Header.parsed.inj (header.symm.trans found)
    have front : (resp.sentHeader ++ resp.getBody).take
        (HttpMsg.cleared.headed resp.statusLine resp.allFields).scanned = resp.sentHeader :=
      List.take_left' rfl
    have inLine : statusPointer resp.statusLine ≤ resp.statusLine.length := Nat.sub_le _ _
    obtain ⟨word, noSpace⟩ := isWord_formatInt resp.status
    obtain ⟨first, others, isFirst⟩ := List.exists_cons_of_ne_nil word
    refine ⟨first, ?_, noSpace first (by rw [isFirst]; exact List.mem_cons_self)⟩
    rw [front, sentHeader, List.append_assoc, List.drop_append_of_le_length inLine,
      writable.statusPointer_eq, isFirst]
    simp
  · have kept : (resp.received true).headers.find (text "connection") =
        some (text "Keep-Alive") := HttpMsg.connection_folded resp.toHttpMsg
    unfold HttpMsg.getHeader
    rw [kept, Option.getD_some]
    decide

end

end HttpResponse

end YYNet
