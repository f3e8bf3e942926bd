/-
This file models the body of a request that a parser does not copy, and compares
it with the copy.

The view of the body is taken while the whole request is in the input buffer,
and the parser then erases the request from that buffer. The view is therefore
modelled by what it really is: an offset and a length, looked up in what the
buffer holds when somebody asks for the body. Behind a complete request it shows
bytes that came after the request, and these are the body only if they happen to
repeat it.
-/

import YYNet.Http.Parser

namespace YYNet

open Checked Storage

/-! ### The window of the view -/

namespace HttpMsg

/-- The window that the part of `tryDecode_` that parses the body assigns to the view. -/
def windowOf (msg : HttpMsg) (buf : List UInt8) : Option (Nat × Nat) :=
  if buf.length < addSize msg.contentLen msg.scanned then none
  else some (msg.scanned, msg.contentLen)

/-- The window that `tryDecode_` assigns to the view: an offset in the buffer, and a length. -/
def bodyWindow (msg : HttpMsg) (buf : List UInt8) : Option (Nat × Nat) :=
  if msg.complete then none
  else if msg.contentLen ≠ 0 then msg.windowOf buf
  else
    match msg.decodeHeader buf with
    | .missing _ => none
    | .malformed _ _ => none
    | .parsed looked _ =>
      if buf.length < addSize looked.contentLen looked.scanned ∧
          looked.getHeader (text "expect") ≠ [] then none
      else looked.windowOf buf

/-- What a window shows of a buffer. -/
def shown (buf : List UInt8) (window : Nat × Nat) : List UInt8 :=
  (buf.drop window.1).take window.2

theorem bodyView_of_decodeBody {msg done : HttpMsg} {buf : List UInt8} {result : ParseResult}
    (decoded : msg.decodeBody buf false = .ok (result, done)) :
    done.bodyView = ((msg.windowOf buf).map (shown buf)).getD msg.bodyView := by
  unfold windowOf
  rcases decodeBody_cases decoded with ⟨-, rfl, short⟩ | ⟨rfl, present, -, -⟩
  · rw [if_pos short]
    rfl
  · rw [if_neg (not_lt.mpr present)]
    exact (decodeBody_stores decoded).2.2.2

/-- On the buffer that was decoded, the window shows the bytes by which the message models the
view. -/
theorem bodyView_of_tryDecode {msg done : HttpMsg} {buf line1 : List UInt8} {result : ParseResult}
    (decoded : msg.tryDecode_ buf false = .ok (result, done, line1)) :
    done.bodyView = ((msg.bodyWindow buf).map (shown buf)).getD msg.bodyView := by
  unfold tryDecode_ at decoded
  unfold bodyWindow
  split at decoded
  · rename_i read
    obtain ⟨-, rfl, -⟩ : ParseResult.complete = result ∧ msg = done ∧ [] = line1 := by
      simpa using decoded
    rw [if_pos read]
    rfl
  rename_i unread
  rw [if_neg unread]
  split at decoded
  · rename_i openBody
    obtain ⟨⟨found, body⟩, isBody, same⟩ := bind_eq_ok decoded
    obtain ⟨rfl, rfl, -⟩ : found = result ∧ body = done ∧ [] = line1 := by simpa using same
    rw [if_pos openBody]
    exact bodyView_of_decodeBody isBody
  rename_i noBody
  rw [if_neg noBody]
  rcases decodeHeader_cases msg buf with
    ⟨-, missing⟩ | ⟨-, ⟨headers, line, malformed⟩ | ⟨headers, line, parsed⟩⟩
  · rw [missing] at decoded ⊢
    obtain ⟨-, rfl, -⟩ : ParseResult.notComplete = result ∧ msg.look buf = done ∧ [] = line1 := by
      simpa using decoded
    rfl
  · rw [malformed] at decoded ⊢
    obtain ⟨-, rfl, -⟩ : ParseResult.error = result ∧
      { msg.look buf with headers := headers } = done ∧ line = line1 := by simpa using decoded
    rfl
  · rw [parsed] at decoded ⊢
    simp only at decoded ⊢
    split at decoded
    · rename_i waits
      obtain ⟨-, rfl, -⟩ := Prod.mk.inj (Except.ok.inj decoded) |>.imp id Prod.mk.inj
      rw [if_pos waits]
      rfl
    · rename_i goesOn
      obtain ⟨⟨found, body⟩, isBody, same⟩ := bind_eq_ok decoded
      obtain ⟨rfl, rfl, -⟩ : found = result ∧ body = done ∧ line = line1 := by simpa using same
      rw [if_neg goesOn]
      exact bodyView_of_decodeBody isBody

/-- The version has no part in it. -/
theorem bodyWindow_withVersion (msg : HttpMsg) (version buf : List UInt8) :
    (msg.withVersion version).bodyWindow buf = msg.bodyWindow buf := by
  have complete : (msg.withVersion version).complete = msg.complete := rfl
  have length : (msg.withVersion version).contentLen = msg.contentLen := rfl
  unfold bodyWindow
  rw [complete, length, decodeHeader_withVersion]
  cases msg.decodeHeader buf <;> rfl

end HttpMsg

/-- `HttpParser`, called without copying the body: `bodyView_` is a window on the input buffer. -/
structure ViewParser extends HttpParser where
  view : Nat × Nat

namespace ViewParser

/-- A new parser. -/
def fresh : ViewParser where
  toHttpParser := HttpParser.fresh
  view := (0, 0)

/-- `parseRequest` with `copyBody=false`. -/
def parseRequest (parser : ViewParser) (data : List UInt8) :
    Except Fault (ParseResult × ViewParser) := do
  let (result, next) ← parser.toHttpParser.parseRequest data false
  return (result,
    { toHttpParser := next
      view := (parser.req.bodyWindow (parser.inputBuffer ++ data)).getD parser.view })

/-- `getBody`. -/
def getBody (parser : ViewParser) : List UInt8 :=
  if parser.view.2 ≠ 0 then HttpMsg.shown parser.inputBuffer parser.view else parser.req.body

end ViewParser

/-! ### A whole request -/

namespace HttpMsg

/-- A header that the decoder accepts, and a body of the length that the header gives. -/
structure WholeRequest (header body : List UInt8) (fields : List (List UInt8 × List UInt8)) :
    Prop where
  isHeader : IsHeader header
  reads : Reads (eatLine header).2 fields
  length : body.length = contentLenOf ((OrderedMap.empty : StringMap).setAll fields)

/-- The message when its header has been parsed. -/
def opened (header body : List UInt8) (fields : List (List UInt8 × List UInt8)) : HttpMsg :=
  { cleared with
    headers := (OrderedMap.empty : StringMap).setAll fields
    contentLen := body.length
    scanned := (header ++ headerEnd).length }

/-- The window of the body, when the buffer reaches its end. -/
theorem opened_windowOf {header body buf : List UInt8}
    (fields : List (List UInt8 × List UInt8))
    (present : (header ++ headerEnd ++ body).length ≤ buf.length)
    (small : buf.length ≤ maxSize) :
    (opened header body fields).windowOf buf =
      some ((header ++ headerEnd).length, body.length) := by
  have bound := TcpBuffer.maxSize_lt_sizeModulus
  unfold windowOf
  simp only [opened, List.length_append] at present ⊢
  rw [addSize_of_lt (by omega), if_neg (by omega)]

section

variable {header body rest buf : List UInt8} {fields : List (List UInt8 × List UInt8)}
  (whole : WholeRequest header body fields)

include whole

/-- The header is found when it is there with its end. -/
theorem WholeRequest.decodeHeader (more : List UInt8) :
    cleared.decodeHeader (header ++ headerEnd ++ more) =
      .parsed (opened header body fields) (eatLine header).1 := by
  rw [decodeHeader_of_seek rfl (seek_of_isHeader whole.isHeader.2 more) whole.isHeader.1]
  unfold parseHeader
  simp only
  rw [HttpParser.parseFields_of_reads whole.reads]
  simp only [opened, whole.length, List.length_append]
  rfl

/-- The header is not found in less. -/
theorem WholeRequest.missing (part : buf <+: header ++ headerEnd ++ rest)
    (short : buf.length < (header ++ headerEnd).length) :
    ∃ looked, cleared.decodeHeader buf = .missing looked := by
  obtain ⟨more, shape⟩ := part
  refine ⟨cleared.look buf, if_pos (.inl ?_)⟩
  show (seek (buf.drop 0)).2 = false
  rw [List.drop_zero]
  by_contra found
  rw [Bool.not_eq_false] at found
  have bound := seek_found_le found
  have same := seek_append_found found more
  rw [shape, seek_of_isHeader whole.isHeader.2 rest] at same
  have place := congrArg Prod.fst same
  simp only at place
  rw [List.length_append, show headerEnd.length = 4 from rfl] at short
  omega

/-- What one call on a part of the stream makes of a new message. It is complete when the part
reaches the end of the body. -/
theorem WholeRequest.phase (part : buf <+: header ++ headerEnd ++ body ++ rest)
    (small : (header ++ headerEnd ++ body ++ rest).length ≤ maxSize) (copyBody : Bool) :
    ∃ result msg line1, Phase buf copyBody result msg line1 ∧ result ≠ .error ∧
      if buf.length < (header ++ headerEnd ++ body).length then result ≠ .complete
      else result = .complete ∧
        msg = (opened header body fields).taken (header ++ headerEnd) body copyBody := by
  have bound := TcpBuffer.maxSize_lt_sizeModulus
  by_cases unheaded : buf.length < (header ++ headerEnd).length
  · obtain ⟨looked, missing⟩ := whole.missing (by rwa [List.append_assoc _ body] at part) unheaded
    refine ⟨_, _, _, .looking looked missing, ParseResult.noConfusion, ?_⟩
    rw [if_pos (by rw [List.length_append]; omega)]
    exact ParseResult.noConfusion
  -- The part has the header, and some of what is behind it.
  rw [List.append_assoc _ body] at part
  obtain ⟨behind, rfl⟩ := List.prefix_of_prefix_length_le (List.prefix_append _ _) part
    (not_lt.mp unheaded)
  have found := whole.decodeHeader behind
  have needed : addSize (opened header body fields).contentLen
      (opened header body fields).scanned = (header ++ headerEnd ++ body).length := by
    simp only [opened, List.length_append] at small ⊢
    rw [addSize_of_lt (by omega), Nat.add_comm]
  by_cases short : (header ++ headerEnd ++ behind).length < (header ++ headerEnd ++ body).length
  · refine ⟨_, _, _, .waiting _ _ found (by rwa [needed]), ?_, ?_⟩
    · split <;> exact ParseResult.noConfusion
    · rw [if_pos short]
      split <;> exact ParseResult.noConfusion
  · obtain ⟨more, rfl⟩ : body <+: behind := by
      refine List.prefix_of_prefix_length_le (List.prefix_append _ rest)
        ((List.prefix_append_right_inj _).mp part) ?_
      simp only [List.length_append] at short
      omega
    have sizes := part.length_le
    have read : (opened header body fields).decodeBody (header ++ headerEnd ++ body ++ more)
        copyBody = .ok (.complete, (opened header body fields).taken (header ++ headerEnd) body
          copyBody) := by
      refine decodeBody_whole rfl rfl more ?_ copyBody
      simp only [List.length_append] at sizes small ⊢
      omega
    rw [← List.append_assoc] at found ⊢
    refine ⟨_, _, _, .complete _ _ _ found read, ParseResult.noConfusion, ?_⟩
    rw [if_neg (by simp)]
    exact ⟨rfl, rfl⟩

/-- The window that a call assigns which completes a message that waits. -/
theorem WholeRequest.bodyWindow {front more line1 : List UInt8} {copyBody : Bool}
    {result : ParseResult} {msg : HttpMsg} (phase : Phase front copyBody result msg line1)
    (waits : result ≠ .complete ∧ result ≠ .error)
    (part : front ++ more <+: header ++ headerEnd ++ body ++ rest)
    (small : (header ++ headerEnd ++ body ++ rest).length ≤ maxSize)
    (present : (header ++ headerEnd ++ body).length ≤ (front ++ more).length) :
    msg.bodyWindow (front ++ more) = some ((header ++ headerEnd).length, body.length) := by
  have shorter := part.length_le
  have window := opened_windowOf fields present (by omega)
  have found : cleared.decodeHeader (front ++ more) =
      .parsed (opened header body fields) (eatLine header).1 := by
    obtain ⟨behind, same⟩ := List.prefix_of_prefix_length_le
      ((List.prefix_append (header ++ headerEnd) body).trans (List.prefix_append _ rest)) part (by
        simp only [List.length_append] at present ⊢
        omega)
    rw [← same]
    exact whole.decodeHeader behind
  cases phase with
  | looking looked missing =>
    have shape : msg = cleared.look front := by
      unfold HttpMsg.decodeHeader at missing
      split at missing
      · exact (Header.missing.inj missing).symm
      · exact absurd missing (parseHeader_ne_missing _ _ _)
    have resumed := decodeHeader_resume (Nat.zero_le _ : cleared.scanned ≤ front.length) missing more
    have enough : ¬ ((front ++ more).length <
        addSize (opened header body fields).contentLen (opened header body fields).scanned ∧
        (opened header body fields).getHeader (text "expect") ≠ []) := by
      rintro ⟨short, -⟩
      unfold HttpMsg.windowOf at window
      rw [if_pos short] at window
      cases window
    unfold HttpMsg.bodyWindow
    rw [if_neg (by rw [shape]; exact Bool.false_ne_true),
      if_neg (by rw [shape]; exact not_not.mpr rfl), resumed, found]
    simp only
    rw [if_neg enough, window]
  | malformed looked line header => exact absurd rfl waits.2
  | waiting parsed line header short =>
    have openBody := Phase.contentLen_ne_zero header (by
      rw [List.length_append] at shorter
      omega) short
    obtain ⟨-, unread, -, -⟩ := parsed_of_decodeHeader header
    have same := decodeHeader_append (fun looked missing => by
      rw [header] at missing
      cases missing) more
    rw [header, found] at same
    obtain ⟨rfl, -⟩ := Header.parsed.inj same
    unfold HttpMsg.bodyWindow
    rw [if_neg (by simp [unread, cleared]), if_pos openBody, window]
  | complete parsed done line header body => exact absurd rfl waits.1

end

end HttpMsg

/-! ### Chunk after chunk -/

/-- The next call returns what one call on a new message does, as far as completion and errors
go. -/
theorem HttpMsg.Next.agrees {phase result : ParseResult} {line line1 : List UInt8} {done : HttpMsg}
    {returned oneShot : Except Fault (ParseResult × HttpMsg × List UInt8)}
    (next : Next phase line returned oneShot) (noError : phase ≠ .error)
    (ok : oneShot = .ok (result, done, line1)) :
    ∃ called first, returned = .ok (called, done, first) ∧ (called = .complete ↔ result = .complete) ∧
      (called = .error ↔ result = .error) := by
  cases next with
  | same _ fresh => exact ⟨result, line1, ok, Iff.rfl, Iff.rfl⟩
  | again msg failed => exact absurd failed noError
  | waits msg waiting open' unread =>
    obtain ⟨rfl, rfl, -⟩ := Prod.mk.inj (Except.ok.inj ok) |>.imp id Prod.mk.inj
    refine ⟨.notComplete, [], rfl, ?_, ?_⟩ <;> split <;> simp
  | completes msg noError read =>
    obtain ⟨rfl, rfl, -⟩ := Prod.mk.inj (Except.ok.inj ok) |>.imp id Prod.mk.inj
    exact ⟨.complete, [], rfl, Iff.rfl, Iff.rfl⟩

namespace HttpParser

/-- A parser that waits for more than a part of a request. -/
structure Waits (copyBody : Bool) (parser : HttpParser) (front : List UInt8) : Prop where
  input : parser.inputBuffer = front
  phase : ∃ result msg line1 version, HttpMsg.Phase front copyBody result msg line1 ∧
    (result ≠ .complete ∧ result ≠ .error) ∧ parser.req.toHttpMsg = msg.withVersion version

theorem fresh_waits (copyBody : Bool) : Waits copyBody fresh [] :=
  ⟨rfl, _, HttpMsg.cleared, [], HttpMsg.cleared.version,
    .looking HttpMsg.cleared rfl, ⟨ParseResult.noConfusion, ParseResult.noConfusion⟩, rfl⟩

/-- A call of the decoder of the message is a call of the decoder of the request. -/
theorem tryDecode_of_msg {req : HttpRequest} {buf line1 : List UInt8} {copyBody : Bool}
    {result : ParseResult} {done : HttpMsg}
    (called : req.toHttpMsg.tryDecode_ buf copyBody = .ok (result, done, line1)) :
    ∃ next version, req.tryDecode buf copyBody = .ok (result, next) ∧
      next.toHttpMsg = done.withVersion version := by
  have ok : ∃ next, req.tryDecode buf copyBody = .ok (result, next) := by
    unfold HttpRequest.tryDecode
    rw [called]
    exact ⟨_, rfl⟩
  obtain ⟨next, decoded⟩ := ok
  obtain ⟨msg, line, version, calledAgain, isNext⟩ :=
    HttpRequest.tryDecode_calls copyBody _ ⟨_, []⟩ _ _ decoded
  rw [called] at calledAgain
  obtain ⟨-, rfl, -⟩ := Prod.mk.inj (Except.ok.inj calledAgain) |>.imp id Prod.mk.inj
  exact ⟨next, version, decoded, isNext⟩

/-- A decoder does what the parser in its object does. -/
def Follows {Object : Type} (copyBody : Bool)
    (decode : Object → List UInt8 → Except Fault (ParseResult × Object))
    (project : Object → HttpParser) : Prop :=
  ∀ object data result next, (project object).parseRequest data copyBody = .ok (result, next) →
    ∃ object', decode object data = .ok (result, object') ∧ project object' = next

section

variable {header body rest front : List UInt8} {fields : List (List UInt8 × List UInt8)}
  {copyBody : Bool} {parser : HttpParser}
  (whole : HttpMsg.WholeRequest header body fields)
  (small : (header ++ headerEnd ++ body ++ rest).length ≤ maxSize)

include whole small

/-- One call on the next chunk. -/
theorem Waits.call (waits : Waits copyBody parser front) {data : List UInt8}
    (part : front ++ data <+: header ++ headerEnd ++ body ++ rest) :
    ∃ result next, parser.parseRequest data copyBody = .ok (result, next) ∧
      if (front ++ data).length < (header ++ headerEnd ++ body).length then
        result ≠ .complete ∧ Waits copyBody next (front ++ data)
      else result = .complete ∧
        next.inputBuffer = (front ++ data).drop (header ++ headerEnd ++ body).length ∧
        ∃ version, next.req.toHttpMsg = ((HttpMsg.opened header body fields).taken
          (header ++ headerEnd) body copyBody).withVersion version := by
  obtain ⟨result, msg, line1, version, phase, ⟨incomplete, noError⟩, isMsg⟩ := waits.phase
  have shorter := part.length_le
  obtain ⟨oneShot, done, first, whole', sound, outcome⟩ := whole.phase part small copyBody
  obtain ⟨called, line, returned, completes, fails⟩ :=
    (phase.next data (by omega)).agrees noError whole'.tryDecode
  have isCalled : parser.req.toHttpMsg.tryDecode_ (front ++ data) copyBody =
      .ok (called, done.withVersion version, line) := by
    rw [isMsg, HttpMsg.tryDecode_withVersion, returned]
    rfl
  obtain ⟨req, version', decoded, isReq⟩ := tryDecode_of_msg isCalled
  rw [← waits.input] at decoded
  have parsed := parseRequest_of_tryDecode (by rw [waits.input]; omega) decoded
  rw [waits.input] at parsed
  refine ⟨called, _, parsed, ?_⟩
  split
  · rename_i short
    rw [if_pos short] at outcome
    have unread : called ≠ .complete := fun isComplete => outcome (completes.mp isComplete)
    have noError' : called ≠ .error := fun isError => sound (fails.mp isError)
    refine ⟨unread, ?_, oneShot, done, first, version', whole', ⟨outcome, sound⟩, isReq⟩
    cases called with
    | error => exact absurd rfl noError'
    | complete => exact absurd rfl unread
    | notComplete => rfl
    | continue100 => rfl
  · rename_i present
    rw [if_neg present] at outcome
    obtain ⟨isComplete, rfl⟩ := outcome
    obtain rfl := completes.mpr isComplete
    refine ⟨rfl, ?_, version', isReq⟩
    show (front ++ data).drop req.toHttpMsg.scanned = _
    rw [isReq]
    rfl

/-- Calls that fall short of the end of the body. -/
theorem Follows.waits {Object : Type}
    {decode : Object → List UInt8 → Except Fault (ParseResult × Object)}
    {project : Object → HttpParser} (follows : Follows copyBody decode project)
    {object : Object} (waits : Waits copyBody (project object) front) {chunks : List (List UInt8)}
    (part : front ++ chunks.flatten <+: header ++ headerEnd ++ body ++ rest)
    (short : (front ++ chunks.flatten).length < (header ++ headerEnd ++ body).length) :
    ∃ trace last, (∀ entry ∈ trace, entry.1 ≠ .complete) ∧
      Waits copyBody (project last) (front ++ chunks.flatten) ∧
      ∀ more, decodeChain decode object (chunks ++ more) =
        (decodeChain decode last more).map (trace ++ ·) := by
  induction chunks generalizing object front with
  | nil =>
    refine ⟨[], object, nofun, by rwa [List.flatten_nil, List.append_nil], fun more => ?_⟩
    rw [List.nil_append]
    cases decodeChain decode object more <;> rfl
  | cons data chunks inductionHypothesis =>
    rw [List.flatten_cons, ← List.append_assoc] at part short ⊢
    obtain ⟨result, next, parsed, outcome⟩ :=
      waits.call whole small ((List.prefix_append _ _).trans part)
    rw [if_pos (by rw [List.length_append] at short; omega)] at outcome
    obtain ⟨object', called, rfl⟩ := follows _ _ _ _ parsed
    obtain ⟨trace, last, unread, waitsToo, decoded⟩ := inductionHypothesis outcome.2 part short
    refine ⟨(result, object') :: trace, last, List.forall_mem_cons.mpr ⟨outcome.1, unread⟩,
      waitsToo, fun more => ?_⟩
    rw [List.cons_append, decodeChain, called, ok_bind]
    simp only
    rw [decoded]
    cases decodeChain decode last more <;> rfl

end

end HttpParser

/-- The calls on the chunks return `Complete` on the last of them, and on no other. -/
def CompletesWith {Object : Type}
    (decode : Object → List UInt8 → Except Fault (ParseResult × Object)) (start : Object)
    (chunks : List (List UInt8)) (final : Object) : Prop :=
  ∃ waiting, decodeChain decode start chunks = .ok (waiting ++ [(.complete, final)]) ∧
    ∀ entry ∈ waiting, entry.1 ≠ .complete

namespace ViewParser

theorem copies_follows :
    HttpParser.Follows true (fun parser data => parser.parseRequest data true) id :=
  fun _ _ _ next parsed => ⟨next, parsed, rfl⟩

theorem views_follows : HttpParser.Follows false parseRequest toHttpParser := by
  intro parser data result next parsed
  refine ⟨{ toHttpParser := next
            view := (parser.req.bodyWindow (parser.inputBuffer ++ data)).getD parser.view }, ?_, rfl⟩
  unfold parseRequest
  rw [parsed]
  rfl

section

variable {header body rest : List UInt8} {fields : List (List UInt8 × List UInt8)}
  (whole : HttpMsg.WholeRequest header body fields) {front : List (List UInt8)}
  {final : List UInt8}
  (stream : (front ++ [final]).flatten = header ++ headerEnd ++ body ++ rest)
  (small : (header ++ headerEnd ++ body ++ rest).length ≤ maxSize)
  (short : front.flatten.length < (header ++ headerEnd ++ body).length)

include whole stream small short

/-- The chunks complete the request on the last of them. -/
theorem finishes {Object : Type} {copyBody : Bool}
    {decode : Object → List UInt8 → Except Fault (ParseResult × Object)}
    {project : Object → HttpParser} (follows : HttpParser.Follows copyBody decode project)
    {start : Object} (fresh : project start = HttpParser.fresh) :
    ∃ before last, CompletesWith decode start (front ++ [final]) last ∧
      HttpParser.Waits copyBody (project before) front.flatten ∧
      decode before final = .ok (.complete, last) ∧ (project last).inputBuffer = rest ∧
      ∃ version, (project last).req.toHttpMsg = ((HttpMsg.opened header body fields).taken
        (header ++ headerEnd) body copyBody).withVersion version := by
  rw [List.flatten_append, List.flatten_singleton] at stream
  have waits : HttpParser.Waits copyBody (project start) [] := by
    rw [fresh]
    exact HttpParser.fresh_waits copyBody
  obtain ⟨trace, before, unread, waits, decoded⟩ := follows.waits whole small waits
    (show [] ++ front.flatten <+: _ from ⟨final, stream⟩) short
  rw [List.nil_append] at waits
  obtain ⟨result, next, parsed, outcome⟩ :=
    waits.call whole small (show front.flatten ++ final <+: _ by rw [stream])
  rw [stream, if_neg (by simp)] at outcome
  obtain ⟨rfl, left, version, isMsg⟩ := outcome
  obtain ⟨last, called, rfl⟩ := follows _ _ _ _ parsed
  refine ⟨before, last, ⟨trace, ?_, unread⟩, waits, called, ?_, version, isMsg⟩
  · rw [decoded, decodeChain, called]
    rfl
  · rw [left, List.drop_left]

/-- The copying parser has the body. -/
theorem copies : ∃ copied, CompletesWith (fun parser data => parser.parseRequest data true)
    HttpParser.fresh (front ++ [final]) copied ∧ copied.req.getBody = body := by
  obtain ⟨before, last, completes, -, -, -, version, isMsg⟩ :=
    finishes whole stream small short copies_follows
      (show id HttpParser.fresh = HttpParser.fresh from rfl)
  refine ⟨last, completes, ?_⟩
  show HttpMsg.getBody (id last).req.toHttpMsg = body
  rw [isMsg]
  have noBody : (HttpMsg.opened header body fields).body = [] := rfl
  exact HttpMsg.taken_getBody noBody rfl (header ++ headerEnd) body true

/-- The other parser has a window on what is behind the request. -/
theorem views : ∃ viewed, CompletesWith parseRequest fresh (front ++ [final]) viewed ∧
    viewed.getBody = (rest.drop (header ++ headerEnd).length).take body.length := by
  obtain ⟨before, last, completes, waits, called, left, version, isMsg⟩ :=
    finishes whole stream small short views_follows
      (show fresh.toHttpParser = HttpParser.fresh from rfl)
  refine ⟨last, completes, ?_⟩
  obtain ⟨result, msg, line1, version', phase, incomplete, isBefore⟩ := waits.phase
  rw [List.flatten_append, List.flatten_singleton] at stream
  have window := whole.bodyWindow phase incomplete
    (show front.flatten ++ final <+: _ by rw [stream]) small (by rw [stream]; simp)
  have isView : last.view = ((header ++ headerEnd).length, body.length) := by
    unfold parseRequest at called
    obtain ⟨⟨found, next⟩, -, same⟩ := bind_eq_ok called
    obtain ⟨-, rfl⟩ := Prod.mk.inj (Except.ok.inj same)
    simp only
    rw [isBefore, HttpMsg.bodyWindow_withVersion, waits.input, window]
    rfl
  unfold getBody
  rw [isView, left]
  split
  · rfl
  · rename_i empty
    have noBody : body.length = 0 := not_not.mp empty
    rw [isMsg, noBody, List.take_zero]
    rfl

end

/-- For every stream that starts with a whole request, and the chunks of it up to the one that
completes the request: both parsers return `Complete` on that chunk and on none before it, the
copying one has the body, and the view shows the same, if and only if the body is empty or what is
behind the request repeats it, as far behind as the header with its end is long. -/
theorem body_agrees_iff (header body rest : List UInt8) (fields : List (List UInt8 × List UInt8))
    (whole : HttpMsg.WholeRequest header body fields) (front : List (List UInt8))
    (final : List UInt8)
    (stream : (front ++ [final]).flatten = header ++ headerEnd ++ body ++ rest)
    (small : (header ++ headerEnd ++ body ++ rest).length ≤ maxSize)
    (short : front.flatten.length < (header ++ headerEnd ++ body).length) :
    ∃ viewed copied, CompletesWith parseRequest fresh (front ++ [final]) viewed ∧
      CompletesWith (fun parser data => parser.parseRequest data true) HttpParser.fresh
        (front ++ [final]) copied ∧ copied.req.getBody = body ∧
      (viewed.getBody = copied.req.getBody ↔
        body = [] ∨ (rest.drop (header ++ headerEnd).length).take body.length = body) := by
  obtain ⟨copied, copies, isBody⟩ := copies whole stream small short
  obtain ⟨viewed, views, shows⟩ := views whole stream small short
  refine ⟨viewed, copied, views, copies, isBody, ?_⟩
  rw [shows, isBody]
  refine ⟨.inr, fun same => ?_⟩
  rcases same with rfl | same
  · exact List.take_zero
  · exact same

/-- The header of a request with a body of two bytes. -/
def greetingHeader : List UInt8 := text "POST / HTTP/1.1\r\nContent-Length: 2"

/-- The body. -/
def greeting : List UInt8 := text "hi"

theorem greeting_whole : HttpMsg.WholeRequest greetingHeader greeting
    [((text "Content-Length").map toLower, text "2")] := by
  refine ⟨?_, ?_, by decide⟩
  · unfold HttpMsg.IsHeader
    decide
  · have shape : (eatLine greetingHeader).2 = 13 :: 10 :: (text "Content-Length: 2" ++ []) := by
      decide
    rw [shape]
    refine .field 13 10 (text "Content-Length: 2") (text "Content-Length") (text "2") [] [] rfl ?_
      (by simp) (HttpMsg.isField_iff.mpr (by decide)) .done
    unfold InLine
    decide +kernel

/-- The same request twice, cut inside the first header. -/
theorem body_agrees_iff_twice : ∃ viewed copied,
    CompletesWith parseRequest fresh
      ([greetingHeader] ++ [headerEnd ++ greeting ++ greetingHeader ++ headerEnd ++ greeting])
      viewed ∧
    CompletesWith (fun parser data => parser.parseRequest data true) HttpParser.fresh
      ([greetingHeader] ++ [headerEnd ++ greeting ++ greetingHeader ++ headerEnd ++ greeting])
      copied ∧
    copied.req.getBody = greeting ∧ viewed.getBody = copied.req.getBody := by
  obtain ⟨viewed, copied, views, copies, isBody, agrees⟩ := body_agrees_iff greetingHeader greeting
    (greetingHeader ++ headerEnd ++ greeting) _ greeting_whole [greetingHeader]
    (headerEnd ++ greeting ++ greetingHeader ++ headerEnd ++ greeting) (by decide)
    (TcpBuffer.le_maxSize (by decide)) (by decide)
  exact ⟨viewed, copied, views, copies, isBody, agrees.mpr (.inr (by decide))⟩

/-- Behind a request that comes alone the view shows nothing. -/
theorem not_body_agrees :
    ¬ ∀ (header body rest : List UInt8) (fields : List (List UInt8 × List UInt8)),
      HttpMsg.WholeRequest header body fields → ∀ (front : List (List UInt8)) (final : List UInt8),
      (front ++ [final]).flatten = header ++ headerEnd ++ body ++ rest →
      (header ++ headerEnd ++ body ++ rest).length ≤ maxSize →
      front.flatten.length < (header ++ headerEnd ++ body).length → ∀ viewed copied,
      CompletesWith parseRequest fresh (front ++ [final]) viewed →
      CompletesWith (fun parser data => parser.parseRequest data true) HttpParser.fresh
        (front ++ [final]) copied → viewed.getBody = copied.req.getBody := by
  intro agrees
  have stream : ([] ++ [greetingHeader ++ headerEnd ++ greeting]).flatten =
      greetingHeader ++ headerEnd ++ greeting ++ [] := by decide
  have small : (greetingHeader ++ headerEnd ++ greeting ++ []).length ≤ maxSize :=
    TcpBuffer.le_maxSize (by decide)
  have short : ([] : List (List UInt8)).flatten.length <
      (greetingHeader ++ headerEnd ++ greeting).length := by decide
  obtain ⟨copied, copies, isBody⟩ := copies greeting_whole stream small short
  obtain ⟨viewed, views, shows⟩ := views greeting_whole stream small short
  have same := agrees _ _ _ _ greeting_whole _ _ stream small short viewed copied views copies
  rw [shows, isBody] at same
  exact absurd same (by decide)

end ViewParser

end YYNet
