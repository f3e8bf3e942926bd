/-
This file proves when the client learns from a response that the server closes
the connection.

The server puts its decision under the name `Connection`, and the encoder puts
`Connection: Keep-Alive` behind all fields of the response. The decoder folds the
names to lower case and keeps the last value, so the decision of the server is
lost. The field of the encoder is not read in one case only: the response itself
has an empty line in its status line or its fields. Then what is in front of that
line is the header that the client sees.
-/

import YYNet.Http.Parser

namespace YYNet

open Checked Storage

namespace HttpMsg

/-! ### Complete messages -/

/-- A message is complete when its header is well formed and its body is there. -/
theorem complete_iff {buf : List UInt8} (small : buf.length ≤ maxSize) (copyBody : Bool)
    (headers : StringMap) :
    (∃ msg line1, cleared.tryDecode_ buf copyBody = .ok (.complete, msg, line1) ∧
        msg.headers = headers) ↔
      ∃ header fields rest, buf = header ++ headerEnd ++ rest ∧ IsHeader header ∧
        Reads (eatLine header).2 fields ∧ headers = OrderedMap.empty.setAll fields ∧
        contentLenOf headers ≤ rest.length := by
  have bound := TcpBuffer.maxSize_lt_sizeModulus
  have marker : headerEnd.length = 4 := rfl
  constructor
  · rintro ⟨msg, line1, decoded, rfl⟩
    generalize isResult : ParseResult.complete = result at decoded
    cases phase_of_tryDecode decoded with
    | looking | malformed => cases isResult
    | waiting parsed line header short => split at isResult <;> cases isResult
    | complete parsed _ _ found body =>
      have present : ∀ looked, cleared.decodeHeader buf ≠ .missing looked := by
        intro looked missing
        rw [missing] at found
        cases found
      obtain ⟨header, rest, rfl, nonempty, sought⟩ := header_of_decodeHeader rfl present
      have inside := scanned_of_decodeHeader found
      obtain ⟨-, -, -, length⟩ := parsed_of_decodeHeader found
      obtain ⟨-, -, stored, -⟩ := decodeBody_stores body
      rw [decodeHeader_of_seek rfl sought nonempty] at found
      obtain ⟨fields, reads, isHeaders⟩ :=
        ((parseHeader_iff _ header).2 parsed.headers).mp ⟨parsed, line1, found, rfl⟩
      have scanned : parsed.scanned = header.length + 4 := by
        unfold parseHeader at found
        simp only at found
        split at found
        · cases found
        · obtain ⟨rfl, -⟩ := Header.parsed.inj found
          rfl
      refine ⟨header, fields, rest, rfl, HttpParser.isHeader_of_seek nonempty sought, reads,
        stored.trans isHeaders, ?_⟩
      rcases decodeBody_cases body with ⟨impossible, -⟩ | ⟨-, present, isArray, -⟩
      · cases impossible
      · rw [addSize_of_lt (by omega), scanned] at present
        simp only [List.length_append] at present
        rw [stored, ← length]
        omega
  · rintro ⟨header, fields, rest, rfl, isHeader, reads, rfl, present⟩
    simp only [List.length_append] at small
    have sought := seek_of_isHeader isHeader.2 rest
    obtain ⟨parsed, line1, found, isHeaders⟩ :=
      ((parseHeader_iff { cleared with scanned := header.length } header).2 _).mpr
        ⟨fields, reads, rfl⟩
    rw [← decodeHeader_of_seek rfl sought isHeader.1] at found
    obtain ⟨isScanned, -, -, length⟩ := parsed_of_decodeHeader found
    have scanned : parsed.scanned = (header ++ headerEnd).length := by
      rw [isScanned, List.length_append, marker]
      show 0 + (seek (header ++ headerEnd ++ rest)).1 + 4 = _
      rw [sought, Nat.zero_add]
    rw [isHeaders] at length
    have split := List.take_append_drop parsed.contentLen rest
    have size : parsed.contentLen = (rest.take parsed.contentLen).length := by
      rw [List.length_take_of_le (length ▸ present)]
    have whole := decodeBody_whole scanned size (rest.drop parsed.contentLen)
      (by rw [List.append_assoc, split]; simp only [List.length_append]; omega) copyBody
    rw [List.append_assoc (header ++ headerEnd), split] at whole
    have decoded := Phase.tryDecode (.complete parsed _ line1 found whole)
    exact ⟨_, line1, decoded, (decodeBody_stores whole).2.2.1.trans isHeaders⟩

/-! ### Fields behind a line end -/

theorem Reads.ends {first second : UInt8} {behind : List UInt8}
    {fields : List (List UInt8 × List UInt8)} (reads : Reads (first :: second :: behind) fields) :
    isLineEnd first = true := by
  cases reads with
  | blank _ _ _ ends => exact ends
  | field _ _ _ _ _ _ _ ends => exact ends

/-- What is read behind a line end is read whatever is in front of it. -/
theorem Reads.behind {front more : List UInt8} {fields : List (List UInt8 × List UInt8)}
    (reads : Reads (front ++ 13 :: 10 :: more) fields) :
    ∃ earlier later, fields = earlier ++ later ∧ Reads (13 :: 10 :: more) later := by
  have notInLine (piece : List UInt8) (byte : UInt8) (rest : List UInt8)
      (ends : isLineEnd byte = true) : ¬ InLine (piece ++ byte :: rest) := fun inLine => by
    rw [inLine byte (List.mem_append_right _ List.mem_cons_self)] at ends
    cases ends
  induction size : front.length using Nat.strong_induction_on generalizing front fields with
  | _ size inductionHypothesis =>
  subst size
  match front with
  | [] => exact ⟨[], fields, rfl, reads⟩
  | [first] =>
    -- The line end is cut, and the piece behind its first byte is empty.
    rcases (reads_cons_iff reads.ends).mp reads with
      ⟨-, inLine, -⟩ | ⟨name, value, later, isField, -, -⟩
    · exact absurd inLine (notInLine [] 10 more rfl)
    · have empty : (eatLine (10 :: more)).1 = [] := rfl
      have key := isField.key
      rw [empty] at key
      simp [eatWord] at key
  | first :: second :: front =>
    rcases (reads_cons_iff reads.ends).mp reads with
      ⟨-, inLine, -⟩ | ⟨name, value, later, -, laterReads, rfl⟩
    · exact absurd inLine (notInLine front 13 (10 :: more) rfl)
    · have isLine : eatLine (front ++ 13 :: 10 :: more) =
          ((eatLine front).1, (eatLine front).2 ++ 13 :: 10 :: more) :=
        eatLine_front front fun byte isFirst => by
          rw [← Option.some.inj isFirst]
          rfl
      change Reads (eatLine (front ++ 13 :: 10 :: more)).2 later at laterReads
      rw [isLine] at laterReads
      have sizes := congrArg List.length (eatLine_spec front).1
      rw [List.length_append] at sizes
      obtain ⟨earlier, last, rfl, lastReads⟩ := inductionHypothesis _
        (by simp only [List.length_cons]; omega) laterReads rfl
      exact ⟨_ :: earlier, last, rfl, lastReads⟩

/-- Whatever the fields in front of the two automatic ones, the connection is kept alive. -/
theorem connection_of_automatic {msg : HttpMsg} {front : List UInt8}
    {fields : List (List UInt8 × List UInt8)}
    (reads : Reads (front ++ fieldLines msg.automatic) fields) (headers : StringMap) :
    (headers.setAll fields).find (text "connection") = some (text "Keep-Alive") := by
  obtain ⟨more, isLines⟩ : ∃ more, fieldLines msg.automatic = 13 :: 10 :: more := ⟨_, rfl⟩
  rw [isLines] at reads
  obtain ⟨earlier, later, rfl, laterReads⟩ := reads.behind
  rw [← isLines] at laterReads
  have found := (parseFields_iff (le_refl _) (head_fieldLines _) (headers.setAll earlier) _).mpr
    ⟨later, laterReads, rfl⟩
  rw [parseFields_fieldLines msg.automatic_readable (length_le_fieldLines _)] at found
  rw [OrderedMap.setAll_append, ← (Prod.mk.inj found).2]
  have different : text "content-length" ≠ text "connection" := by decide
  exact OrderedMap.find_setAll_last _ [] (text "connection", text "Keep-Alive")
    (List.forall_mem_singleton.mpr different)

end HttpMsg

namespace HttpResponse

/-! ### Responses that close early -/

/-- What a response itself gives: the status line, as far as it fits its array, and the fields. -/
def ownText (resp : HttpResponse) : List UInt8 :=
  snprintf HttpMsg.tmpSize (cStr resp.version ++ text " " ++ formatInt resp.status ++ text " " ++
    cStr resp.statusMsg ++ crlf) ++ resp.headers.entries.flatMap HttpMsg.fieldLine

/-- What the encoder puts behind it. -/
def automaticText (resp : HttpResponse) : List UInt8 :=
  resp.automatic.flatMap HttpMsg.fieldLine ++ crlf

/-- The response itself has an empty line, and in front of the first one there is a header whose
last connection field is `close`, with a content length that what follows can satisfy. -/
def ClosesEarly (resp : HttpResponse) : Prop :=
  ∃ header fields rest, resp.ownText = header ++ headerEnd ++ rest ∧ HttpMsg.IsHeader header ∧
    HttpMsg.Reads (eatLine header).2 fields ∧
    (OrderedMap.empty.setAll fields).find (text "connection") = some (text "close") ∧
    HttpMsg.contentLenOf (OrderedMap.empty.setAll fields) ≤
      (rest ++ resp.automaticText ++ resp.getBody).length

theorem encoded_parts {resp : HttpResponse} (fits : resp.encoded.length ≤ maxSize) :
    resp.encoded = resp.ownText ++ resp.automaticText ++ resp.getBody := by
  have small : resp.getBody.length < 2 ^ 64 :=
    (getBody_lt fits).trans (Nat.pow_lt_pow_right (by decide) (by decide))
  unfold encoded encode ownText automaticText
  rw [HttpMsg.encodeBehind_eq small, HttpMsg.allFields, ← HttpMsg.automatic, List.flatMap_append]
  simp only [List.append_assoc]

/-- A response that has fields ends them with a line end. -/
theorem ownText_ends {resp : HttpResponse} (named : resp.headers.entries ≠ []) :
    ∃ front, resp.ownText = front ++ crlf := by
  obtain ⟨init, last, isLast⟩ := (List.eq_nil_or_concat' _).resolve_left named
  unfold ownText
  rw [isLast, List.flatMap_append, List.flatMap_singleton, HttpMsg.fieldLine_eq,
    ← List.append_assoc, ← List.append_assoc]
  exact ⟨_, rfl⟩

/-- The text in front of the first empty line is the response's own, or it ends with the automatic
fields. -/
theorem header_cases {resp : HttpResponse} {front header rest : List UInt8}
    (own : resp.ownText = front ++ crlf) (isHeader : HttpMsg.IsHeader header)
    (shape : resp.ownText ++ resp.automaticText ++ resp.getBody = header ++ headerEnd ++ rest) :
    (∃ behind, resp.ownText = header ++ headerEnd ++ behind ∧
      rest = behind ++ resp.automaticText ++ resp.getBody) ∨
      header = front ++ HttpMsg.fieldLines resp.automatic := by
  have marker : headerEnd.length = 4 := rfl
  by_cases early : (header ++ headerEnd).length ≤ resp.ownText.length
  · have whole : header ++ headerEnd <+: resp.ownText ++ (resp.automaticText ++ resp.getBody) :=
      ⟨rest, by rw [← List.append_assoc, shape]⟩
    obtain ⟨behind, isOwn⟩ := List.prefix_of_prefix_length_le whole (List.prefix_append _ _) early
    refine .inl ⟨behind, isOwn.symm, ?_⟩
    rw [← isOwn, List.append_assoc, List.append_assoc] at shape
    rw [List.append_assoc]
    exact (List.append_cancel_left shape).symm
  · have lines : resp.ownText ++ resp.automaticText ++ resp.getBody =
        front ++ (HttpMsg.fieldLines resp.automatic ++ headerEnd ++ resp.getBody) := by
      have moved := HttpMsg.crlf_append_fieldLine resp.automatic
      rw [own, automaticText, List.append_assoc front, ← List.append_assoc crlf, moved, headerEnd]
      simp only [List.append_assoc]
    rw [lines] at shape
    rw [own] at early
    simp only [List.length_append, marker] at early
    have isCrlf : crlf.length = 2 := rfl
    rcases Nat.lt_or_ge header.length front.length with cut | behind
    · -- The marker would begin at the last byte in front of a line end.
      have next : front.length = header.length + 1 := by omega
      have heads := congrArg (fun bytes => (bytes.drop front.length).head?) shape
      rw [List.drop_left, next, ← List.drop_drop, List.append_assoc header, List.drop_left] at heads
      cases heads
    · have sought := HttpMsg.seek_of_isHeader isHeader.2 rest
      have later := HttpMsg.seek_drop sought behind
      rw [← shape, List.drop_left, HttpMsg.seek_fieldLines resp.automatic_readable] at later
      have size := (Prod.mk.inj later).1
      rw [← List.append_assoc, ← List.append_assoc, List.append_assoc (front ++ _),
        List.append_assoc header] at shape
      refine .inr (List.append_inj_left shape.symm ?_)
      rw [List.length_append]
      omega

/-- A client that decodes a message, with some bytes behind it in memory, is told that the
connection closes. -/
def TellsClose (copyBody : Bool) (behind message : List UInt8) : Prop :=
  ∃ decoded, cleared.tryDecode message behind copyBody = .ok (.complete, decoded) ∧
    decoded.getHeader (text "connection") = text "close"

/-- The headers of a response are those of its message. -/
theorem tellsClose_iff (copyBody : Bool) (behind message : List UInt8) :
    TellsClose copyBody behind message ↔ ∃ headers : StringMap,
      (∃ msg line1, HttpMsg.cleared.tryDecode_ message copyBody = .ok (.complete, msg, line1) ∧
        msg.headers = headers) ∧ headers.find (text "connection") = some (text "close") := by
  have named (headers : StringMap) : (headers.find (text "connection")).getD [] = text "close" ↔
      headers.find (text "connection") = some (text "close") := by
    cases headers.find (text "connection") with
    | none => exact iff_of_false (by decide) (by simp)
    | some value => simp
  have kept (resp : HttpResponse) (line1 : List UInt8) :
      (if line1 = [] then resp
        else resp.readStatusLine (message ++ behind) line1).headers = resp.headers := by
    split <;> rfl
  unfold TellsClose tryDecode
  constructor
  · rintro ⟨decoded, complete, isClose⟩
    obtain ⟨⟨result, msg, line1⟩, called, same⟩ := bind_eq_ok complete
    obtain ⟨rfl, rfl⟩ := Prod.mk.inj (Except.ok.inj same)
    refine ⟨msg.headers, ⟨msg, line1, called, rfl⟩, (named _).mp ?_⟩
    rw [HttpMsg.getHeader, kept] at isClose
    exact isClose
  · rintro ⟨headers, ⟨msg, line1, called, rfl⟩, isClose⟩
    rw [show HttpResponse.cleared.toHttpMsg = HttpMsg.cleared from rfl, called, ok_bind]
    refine ⟨_, rfl, ?_⟩
    rw [HttpMsg.getHeader, kept]
    exact (named _).mpr isClose

/-- A response tells the client that the connection closes exactly when it closes early. -/
theorem tellsClose_encoded_iff {resp : HttpResponse} (named : resp.headers.entries ≠ [])
    (fits : resp.encoded.length ≤ maxSize) (copyBody : Bool) (behind : List UInt8) :
    TellsClose copyBody behind resp.encoded ↔ resp.ClosesEarly := by
  have parts := encoded_parts fits
  rw [tellsClose_iff]
  simp only [HttpMsg.complete_iff fits]
  constructor
  · rintro ⟨headers, ⟨header, fields, rest, shape, isHeader, reads, rfl, present⟩, isClose⟩
    obtain ⟨front, own⟩ := ownText_ends named
    rcases header_cases own isHeader (parts.symm.trans shape) with ⟨behind, isOwn, rfl⟩ | rfl
    · exact ⟨header, fields, behind, isOwn, isHeader, reads, isClose, present⟩
    · rw [HttpMsg.eatLine_front front (HttpMsg.head_fieldLines _)] at reads
      rw [HttpMsg.connection_of_automatic reads] at isClose
      exact absurd (Option.some.inj isClose) (by decide)
  · rintro ⟨header, fields, rest, isOwn, isHeader, reads, isClose, present⟩
    refine ⟨_, ⟨header, fields, rest ++ resp.automaticText ++ resp.getBody, ?_, isHeader, reads,
      rfl, present⟩, isClose⟩
    rw [parts, isOwn]
    simp only [List.append_assoc]

/-- Without an empty line of its own, a response does not close early. -/
theorem not_closesEarly_of_plain {resp : HttpResponse} (plain : ¬ headerEnd <:+: resp.ownText) :
    ¬ resp.ClosesEarly := by
  rintro ⟨header, fields, rest, isOwn, -⟩
  exact plain ⟨header, rest, isOwn.symm⟩

end HttpResponse

namespace HttpSession

/-! ### The decision of the server -/

/-- `ctx.keepAlive`. -/
def keepsAlive (req : HttpRequest) : Bool := req.getHeader (text "connection") ≠ text "close"

/-- The answer of the server to a request that it parsed. -/
def answer (router : HttpRouter) (req : HttpRequest) : HttpResponse :=
  respond router req (keepsAlive req)

/-- A round closed the connection if and only if the client that decodes its message, with some
bytes behind it in memory, is told so. -/
def Conveys (copyBody : Bool) (behind : List UInt8) (session next : HttpSession) : Prop :=
  next.disconnects ≠ session.disconnects ↔
    ∃ message, next.sent = session.sent ++ [message] ∧
      HttpResponse.TellsClose copyBody behind message

theorem conveys_iff {session next : HttpSession} {message : List UInt8}
    (sent : next.sent = session.sent ++ [message]) (copyBody : Bool) (behind : List UInt8) :
    Conveys copyBody behind session next ↔
      (next.disconnects ≠ session.disconnects ↔
        HttpResponse.TellsClose copyBody behind message) := by
  unfold Conveys
  refine iff_congr Iff.rfl ⟨?_, fun tells => ⟨message, sent, tells⟩⟩
  rintro ⟨other, alsoSent, tells⟩
  rw [sent] at alsoSent
  rw [List.singleton_inj.mp (List.append_cancel_left alsoSent)]
  exact tells

theorem parseRequest_keeps {session parsed : HttpSession} {result : ParseResult}
    (read : session.parseRequest = .ok (result, parsed)) :
    parsed.sent = session.sent ∧ parsed.disconnects = session.disconnects := by
  unfold parseRequest at read
  simp only at read
  split at read
  · cases read
  · obtain ⟨⟨found, req⟩, -, same⟩ := bind_eq_ok read
    obtain ⟨-, rfl⟩ := Prod.mk.inj (Except.ok.inj same)
    exact ⟨rfl, rfl⟩

section

variable {build : Build} {router : HttpRouter} {session parsed next : HttpSession}
  {returned : Bool}

/-- A request that cannot be parsed is refused, and the connection closed. -/
theorem round_refuses (read : session.parseRequest = .ok (.error, parsed))
    (rounds : session.round build router = .ok (returned, next)) :
    next.sent = session.sent ++ [badRequest.encoded] ∧
      next.disconnects = session.disconnects + 1 := by
  obtain ⟨sent, disconnects⟩ := parseRequest_keeps read
  unfold round at rounds
  rw [read, ok_bind] at rounds
  obtain ⟨-, rfl⟩ := Prod.mk.inj (Except.ok.inj rounds)
  exact ⟨congrArg (· ++ [badRequest.encoded]) sent, congrArg (· + 1) disconnects⟩

/-- A request that is complete is answered, and the connection closed if it says so. -/
theorem round_answers (read : session.parseRequest = .ok (.complete, parsed))
    (rounds : session.round build router = .ok (returned, next)) :
    next.sent = session.sent ++ [(answer router parsed.req).encoded] ∧
      (next.disconnects ≠ session.disconnects ↔ keepsAlive parsed.req = false) := by
  obtain ⟨sent, disconnects⟩ := parseRequest_keeps read
  unfold round at rounds
  rw [read, ok_bind] at rounds
  simp only at rounds
  obtain ⟨buffer, -, rest⟩ := bind_eq_ok rounds
  rw [show decide (parsed.req.getHeader (text "connection") ≠ text "close") =
    keepsAlive parsed.req from rfl] at rest
  cases keeps : keepsAlive parsed.req with
  | true =>
    rw [keeps, if_pos rfl] at rest
    obtain ⟨-, rfl⟩ := Prod.mk.inj (Except.ok.inj rest)
    refine ⟨?_, iff_of_false (not_not.mpr disconnects) (by decide)⟩
    rw [answer, keeps, ← sent]
    rfl
  | false =>
    rw [keeps, if_neg (by decide)] at rest
    obtain ⟨-, rfl⟩ := Prod.mk.inj (Except.ok.inj rest)
    refine ⟨?_, iff_of_true ?_ rfl⟩
    · rw [answer, keeps, ← sent]
      rfl
    · rw [← disconnects]
      exact Nat.succ_ne_self _

end

/-- The answers have a field at least. -/
theorem answer_named (router : HttpRouter) (req : HttpRequest) :
    (answer router req).headers.entries ≠ [] := by
  intro empty
  have found : (answer router req).headers.find (text "Connection") ≠ none := by
    unfold answer respond
    rw [OrderedMap.find_set, if_pos rfl]
    exact Option.some_ne_none _
  unfold OrderedMap.find at found
  rw [empty] at found
  exact found rfl

set_option maxRecDepth 4000 in
theorem badRequest_plain : ¬ headerEnd <:+: badRequest.ownText := by decide

/-- The decision of a round reaches the client exactly when the round answers a request, and the
answer closes early if the request closes the connection and does not if it keeps it alive. The
messages are strings, which are arrays. -/
theorem conveys_iff_closesEarly (build : Build) (router : HttpRouter) (copyBody : Bool)
    (behind : List UInt8) {session parsed next : HttpSession} {result : ParseResult} {returned : Bool}
    (read : session.parseRequest = .ok (result, parsed))
    (decides : result = .complete ∨ result = .error)
    (rounds : session.round build router = .ok (returned, next))
    (fits : ∀ message ∈ next.sent, message.length ≤ maxSize) :
    Conveys copyBody behind session next ↔ result = .complete ∧
      (keepsAlive parsed.req = false ↔ (answer router parsed.req).ClosesEarly) := by
  rcases decides with rfl | rfl
  · obtain ⟨sent, closes⟩ := round_answers read rounds
    have small := fits _ (sent ▸ List.mem_append_right _ (List.mem_singleton_self _))
    rw [conveys_iff sent, closes,
      HttpResponse.tellsClose_encoded_iff (answer_named router parsed.req) small,
      and_iff_right rfl]
  · obtain ⟨sent, closes⟩ := round_refuses read rounds
    have small := fits _ (sent ▸ List.mem_append_right _ (List.mem_singleton_self _))
    rw [conveys_iff sent, HttpResponse.tellsClose_encoded_iff (by decide) small]
    refine iff_of_false (fun same => ?_) (fun both => nomatch both.1)
    refine HttpResponse.not_closesEarly_of_plain badRequest_plain (same.mp ?_)
    rw [closes]
    exact Nat.succ_ne_self _

/-- A connection whose receive buffer holds some bytes. -/
def holding (bytes : List UInt8) : HttpSession :=
  { newSession with
    buffer := {
      buffer := List.replicate 8 0 ++ bytes
      prependSize := 8
      readIndex := 8
      writeIndex := 8 + bytes.length } }

/-- The connection behind the parser, and behind the round. -/
def parsedFrom (session : HttpSession) : HttpSession :=
  match session.parseRequest with
  | .ok (_, parsed) => parsed
  | .error _ => session

def answeredFrom (session : HttpSession) : HttpSession :=
  match session.round .release noRoutes with
  | .ok (_, next) => next
  | .error _ => session

/-- A request that keeps the connection. -/
theorem conveys_iff_closesEarly_root :
    Conveys true [] (holding rootRequest.1) (answeredFrom (holding rootRequest.1)) := by
  have read : (holding rootRequest.1).parseRequest =
      .ok (.complete, parsedFrom (holding rootRequest.1)) := by decide +kernel
  have rounds : (holding rootRequest.1).round .release noRoutes =
      .ok (false, answeredFrom (holding rootRequest.1)) := by decide +kernel
  refine (conveys_iff_closesEarly .release noRoutes true [] read (.inl rfl) rounds
    (by decide +kernel)).mpr ⟨rfl, iff_of_false (by decide +kernel) ?_⟩
  exact HttpResponse.not_closesEarly_of_plain (by decide +kernel)

/-- A request that closes the connection. -/
def closingSession : HttpSession := holding (text "GET / HTTP/1.1\r\nConnection: close\r\n\r\n")

/-- What a client decodes of the message of a round. -/
def decodedFrom (session : HttpSession) : HttpResponse :=
  match HttpResponse.cleared.tryDecode ((answeredFrom session).sent.headD []) [] true with
  | .ok (_, decoded) => decoded
  | .error _ => HttpResponse.cleared

/-- The server closes the connection, and the client decodes that it is kept alive. -/
theorem not_conveys_closing :
    closingSession.round .release noRoutes = .ok (false, answeredFrom closingSession) ∧
      (answeredFrom closingSession).disconnects = 1 ∧
      HttpResponse.cleared.tryDecode ((answeredFrom closingSession).sent.headD []) [] true =
        .ok (.complete, decodedFrom closingSession) ∧
      (decodedFrom closingSession).getHeader (text "connection") = text "Keep-Alive" ∧
      ¬ Conveys true [] closingSession (answeredFrom closingSession) := by
  have decoded : HttpResponse.cleared.tryDecode ((answeredFrom closingSession).sent.headD []) [] true =
      .ok (.complete, decodedFrom closingSession) := by decide +kernel
  have keeps : (decodedFrom closingSession).getHeader (text "connection") = text "Keep-Alive" := by
    decide +kernel
  refine ⟨by decide +kernel, by decide +kernel, decoded, keeps, fun conveys => ?_⟩
  obtain ⟨message, sent, told, complete, isClose⟩ := conveys.mp (by decide +kernel)
  rw [sent, show closingSession.sent = [] from rfl] at decoded
  obtain ⟨-, rfl⟩ := Prod.mk.inj (Except.ok.inj (complete.symm.trans decoded))
  rw [keeps] at isClose
  exact absurd isClose (by decide)

end HttpSession

end YYNet
