/-
This file models `HttpParser::parseRequest` and proves what a parser keeps from
one message to the next.

A malformed request clears the input buffer and nothing else: the header fields
stored before the malformed line stay, the query parameters of its target stay,
and the search for the end of the next header starts where the malformed header
ended. The next request is read as a new parser would read it, if and only if it
assigns all of these names itself and its header does not end before that offset.
-/

import YYNet.Http.Query

namespace YYNet

open Checked Storage

/-- `HttpParser`: the request it decodes, and what it has not consumed. -/
structure HttpParser where
  req : HttpRequest
  inputBuffer : List UInt8
  deriving DecidableEq

namespace HttpParser

/-- A new parser. -/
def fresh : HttpParser where
  req := HttpRequest.cleared
  inputBuffer := []

/-- `parseRequest`. -/
def parseRequest (parser : HttpParser) (data : List UInt8) (copyBody : Bool) :
    Except Fault (ParseResult × HttpParser) := do
  let input := parser.inputBuffer ++ data
  if maxSize < input.length then throw .lengthError
  let (result, req) ← parser.req.tryDecode input copyBody
  return (result, { req := req, inputBuffer := HttpSession.leftover input req result })

/-- The parser of a connection is fed the whole receive buffer. -/
theorem parseRequest_session (session : HttpSession) :
    session.parseRequest =
      (parseRequest ⟨session.req, session.inputBuffer⟩ session.buffer.readable true).map
        fun (result, parser) =>
          (result, { session with req := parser.req, inputBuffer := parser.inputBuffer }) := by
  unfold HttpSession.parseRequest parseRequest
  simp only
  split
  · rfl
  · cases session.req.tryDecode (session.inputBuffer ++ session.buffer.readable) true <;> rfl

theorem parseRequest_eq_ok {parser next : HttpParser} {data : List UInt8} {copyBody : Bool}
    {result : ParseResult} (parsed : parser.parseRequest data copyBody = .ok (result, next)) :
    (parser.inputBuffer ++ data).length ≤ maxSize ∧
      parser.req.tryDecode (parser.inputBuffer ++ data) copyBody = .ok (result, next.req) ∧
      next.inputBuffer = HttpSession.leftover (parser.inputBuffer ++ data) next.req result := by
  unfold parseRequest at parsed
  simp only at parsed
  split at parsed
  · cases parsed
  · rename_i small
    obtain ⟨⟨found, req⟩, decoded, same⟩ := bind_eq_ok parsed
    obtain ⟨rfl, rfl⟩ := Prod.mk.inj (Except.ok.inj same)
    exact ⟨not_lt.mp small, decoded, rfl⟩

theorem parseRequest_of_tryDecode {parser : HttpParser} {data : List UInt8} {copyBody : Bool}
    (small : (parser.inputBuffer ++ data).length ≤ maxSize) {result : ParseResult}
    {req : HttpRequest}
    (decoded : parser.req.tryDecode (parser.inputBuffer ++ data) copyBody = .ok (result, req)) :
    parser.parseRequest data copyBody =
      .ok (result, ⟨req, HttpSession.leftover (parser.inputBuffer ++ data) req result⟩) := by
  unfold parseRequest
  simp only
  rw [if_neg (not_lt.mpr small), decoded]
  rfl

/-! ### What a malformed request leaves -/

/-- A message that is not complete has no body. -/
def Bodiless (msg : HttpMsg) : Prop :=
  msg.complete = false → msg.body = [] ∧ msg.bodyView = []

/-- What one call keeps: a message that is not complete afterwards was not complete before, and its
body is as it was; an error leaves it without a content length. -/
theorem tryDecode_keeps {msg done : HttpMsg} {buf line1 : List UInt8} {copyBody : Bool}
    {result : ParseResult} (decoded : msg.tryDecode_ buf copyBody = .ok (result, done, line1)) :
    (done.complete = false → msg.complete = false ∧ done.body = msg.body ∧
      done.bodyView = msg.bodyView) ∧
    (result = .error → done.complete = false ∧ done.contentLen = 0) := by
  by_cases read : msg.complete = true
  · rw [HttpMsg.tryDecode_of_complete read] at decoded
    obtain ⟨rfl, rfl, -⟩ : ParseResult.complete = result ∧ msg = done ∧ [] = line1 := by
      simpa using decoded
    exact ⟨fun unread => ⟨unread, rfl, rfl⟩, fun failed => by cases failed⟩
  have unread : msg.complete = false := Bool.eq_false_of_not_eq_true read
  have ofBody : ∀ {start : HttpMsg}, start.decodeBody buf copyBody = .ok (result, done) →
      (done.complete = false → done = start) ∧ result ≠ .error := by
    intro start body
    rcases HttpMsg.decodeBody_cases body with ⟨rfl, rfl, -⟩ | ⟨rfl, -⟩
    · exact ⟨fun _ => rfl, ParseResult.noConfusion⟩
    · refine ⟨fun open' => ?_, ParseResult.noConfusion⟩
      rw [(HttpMsg.decodeBody_stores body).1] at open'
      cases open'
  by_cases openBody : msg.contentLen ≠ 0
  · unfold HttpMsg.tryDecode_ at decoded
    rw [if_neg read, if_pos openBody] at decoded
    obtain ⟨⟨found, body⟩, isBody, same⟩ := bind_eq_ok decoded
    obtain ⟨rfl, rfl, -⟩ : found = result ∧ body = done ∧ [] = line1 := by simpa using same
    obtain ⟨kept, noError⟩ := ofBody isBody
    refine ⟨fun open' => ?_, fun failed => absurd failed noError⟩
    rw [kept open']
    exact ⟨unread, rfl, rfl⟩
  · unfold HttpMsg.tryDecode_ at decoded
    rw [if_neg read, if_neg openBody] at decoded
    rcases HttpMsg.decodeHeader_cases msg buf with
      ⟨-, missing⟩ | ⟨-, ⟨headers, line, malformed⟩ | ⟨headers, line, parsed⟩⟩
    · rw [missing] at decoded
      obtain ⟨rfl, rfl, -⟩ : ParseResult.notComplete = result ∧ msg.look buf = done ∧
        [] = line1 := by simpa using decoded
      exact ⟨fun _ => ⟨unread, rfl, rfl⟩, fun failed => by cases failed⟩
    · rw [malformed] at decoded
      obtain ⟨-, rfl, -⟩ : ParseResult.error = result ∧
        { msg.look buf with headers := headers } = done ∧ line = line1 := by simpa using decoded
      exact ⟨fun _ => ⟨unread, rfl, rfl⟩, fun _ => ⟨unread, not_not.mp openBody⟩⟩
    · rw [parsed] at decoded
      simp only at decoded
      split at decoded
      · obtain ⟨rfl, rfl, -⟩ := Prod.mk.inj (Except.ok.inj decoded) |>.imp id Prod.mk.inj
        exact ⟨fun _ => ⟨unread, rfl, rfl⟩, fun failed => by cases failed⟩
      · obtain ⟨⟨found, body⟩, isBody, same⟩ := bind_eq_ok decoded
        obtain ⟨rfl, rfl, -⟩ : found = result ∧ body = done ∧ line = line1 := by simpa using same
        obtain ⟨kept, noError⟩ := ofBody isBody
        refine ⟨fun open' => ?_, fun failed => absurd failed noError⟩
        rw [kept open']
        exact ⟨unread, rfl, rfl⟩

/-- What a parser is after a malformed request, apart from the names and the offset. -/
structure Spent (parser : HttpParser) : Prop where
  empty : parser.inputBuffer = []
  unread : parser.req.complete = false
  noLength : parser.req.contentLen = 0
  noBody : parser.req.body = []
  noView : parser.req.bodyView = []

/-- One call keeps a message without body, and an error leaves a spent parser. -/
theorem parseRequest_keeps {parser next : HttpParser} {data : List UInt8} {copyBody : Bool}
    {result : ParseResult} (bodiless : Bodiless parser.req.toHttpMsg)
    (parsed : parser.parseRequest data copyBody = .ok (result, next)) :
    Bodiless next.req.toHttpMsg ∧ (result = .error → next.Spent) := by
  obtain ⟨-, decoded, left⟩ := parseRequest_eq_ok parsed
  obtain ⟨msg, line1, version, called, isNext⟩ :=
    HttpRequest.tryDecode_calls copyBody _ ⟨_, []⟩ _ _ decoded
  obtain ⟨keeps, fails⟩ := tryDecode_keeps called
  have same : Bodiless next.req.toHttpMsg := by
    rw [isNext]
    intro unread
    obtain ⟨wasUnread, body, view⟩ := keeps unread
    show msg.body = [] ∧ msg.bodyView = []
    rw [body, view]
    exact bodiless wasUnread
  refine ⟨same, ?_⟩
  rintro rfl
  obtain ⟨unread, noLength⟩ := fails rfl
  have unreadNext : next.req.complete = false := by
    rw [isNext]
    exact unread
  have noLengthNext : next.req.contentLen = 0 := by
    rw [isNext]
    exact noLength
  exact ⟨left, unreadNext, noLengthNext, (same unreadNext).1, (same unreadNext).2⟩

/-- Calls that end with an error leave a spent parser. -/
theorem spent_of_chain {parser last : HttpParser} {copyBody : Bool} {chunks : List (List UInt8)}
    {trace : List (ParseResult × HttpParser)} (bodiless : Bodiless parser.req.toHttpMsg)
    (fed : decodeChain (fun parser data => parser.parseRequest data copyBody) parser chunks =
      .ok trace) (failed : trace.getLast? = some (.error, last)) : last.Spent := by
  induction chunks generalizing parser trace with
  | nil =>
    obtain rfl := Except.ok.inj fed
    cases failed
  | cons chunk more inductionHypothesis =>
    obtain ⟨⟨result, next⟩, first, rest⟩ := bind_eq_ok fed
    obtain ⟨later, behind, same⟩ := bind_eq_ok rest
    obtain rfl := Except.ok.inj same
    obtain ⟨bodilessNext, spent⟩ := parseRequest_keeps bodiless first
    cases later with
    | nil =>
      obtain ⟨rfl, rfl⟩ := Prod.mk.inj (Option.some.inj failed)
      exact spent rfl
    | cons entry rest =>
      rw [List.getLast?_cons_cons] at failed
      exact inductionHypothesis bodilessNext behind failed

/-! ### The next request -/

/-- The names that the loop over the arguments assigns: what is in front of an `=`, from the last
`&` that ended a value. -/
inductive Binds : List UInt8 → List UInt8 → Prop
  | here (key behind : List UInt8) (plain : 61 ∉ key) : Binds (key ++ 61 :: behind) key
  | behind (key value rest name : List UInt8) (plain : 61 ∉ key) (inside : 38 ∉ value)
      (more : Binds rest name) : Binds (key ++ 61 :: (value ++ 38 :: rest)) name

theorem Binds.mem {query name : List UInt8} (binds : Binds query name) : 61 ∈ query := by
  cases binds with
  | here key behind plain => simp
  | behind key value rest name plain inside more => simp

theorem dropWhile_byte {front : List UInt8} {byte : UInt8} (absent : byte ∉ front)
    (behind : List UInt8) : (front ++ byte :: behind).takeWhile (· ≠ byte) = front ∧
      (front ++ byte :: behind).dropWhile (· ≠ byte) = byte :: behind := by
  refine takeWhile_stop _ (fun other member => ?_) (by simp)
  have different : other ≠ byte := fun same => absent (same ▸ member)
  simpa using different

/-- The names of a query: the first one, and those behind the end of its value. -/
theorem binds_iff {key : List UInt8} (plain : 61 ∉ key) (behind name : List UInt8) :
    Binds (key ++ 61 :: behind) name ↔
      name = key ∨ Binds (behind.dropWhile (· ≠ 38)).tail name := by
  have parts : ∀ {key' behind' : List UInt8}, 61 ∉ key' →
      key' ++ 61 :: behind' = key ++ 61 :: behind → key' = key ∧ behind' = behind := by
    intro key' behind' plain' same
    have taken := congrArg (List.takeWhile (· ≠ 61)) same
    have dropped := congrArg (List.dropWhile (· ≠ 61)) same
    rw [(dropWhile_byte plain' _).1, (dropWhile_byte plain _).1] at taken
    rw [(dropWhile_byte plain' _).2, (dropWhile_byte plain _).2] at dropped
    exact ⟨taken, (List.cons.inj dropped).2⟩
  constructor
  · generalize whole : key ++ 61 :: behind = query
    intro binds
    cases binds with
    | here key' behind' plain' => exact .inl (parts plain' whole.symm).1
    | behind key' value rest _ plain' inside more =>
      obtain ⟨-, rfl⟩ := parts plain' whole.symm
      rw [(dropWhile_byte inside rest).2]
      exact .inr more
  · rintro (rfl | more)
    · exact .here name behind plain
    · have separated : 38 ∈ behind := by
        by_contra absent
        rw [List.dropWhile_eq_nil_iff.mpr fun byte member => by
          have different : byte ≠ 38 := fun same => absent (same ▸ member)
          simpa using different] at more
        exact absurd more.mem List.not_mem_nil
      obtain ⟨value, rest, rfl, inside⟩ := List.eq_append_cons_of_mem separated
      rw [(dropWhile_byte inside rest).2] at more
      exact .behind key value rest name plain inside more

/-- The loop over the arguments assigns the names of the query. -/
theorem find_parseArgs_iff {fuel : Nat} {query : List UInt8} (enough : query.length ≤ fuel)
    (args : StringMap) (name : List UInt8) :
    (HttpRequest.parseArgs fuel query args).find name ≠ none ↔
      args.find name ≠ none ∨ Binds query name := by
  induction fuel generalizing query args with
  | zero =>
    obtain rfl := List.length_eq_zero_iff.mp (Nat.le_zero.mp enough)
    exact (or_iff_left fun binds => absurd binds.mem List.not_mem_nil).symm
  | succ fuel inductionHypothesis =>
    rw [HttpRequest.parseArgs]
    split
    · rename_i done
      refine (or_iff_left fun binds => ?_).symm
      rcases done with rfl | absent
      · exact absurd binds.mem List.not_mem_nil
      · exact absent binds.mem
    · rename_i going
      obtain ⟨-, present⟩ := not_or.mp going
      obtain ⟨key, behind, rfl, plain⟩ := List.eq_append_cons_of_mem (not_not.mp present)
      have shorter : ((behind.dropWhile (· ≠ 38)).tail).length ≤ fuel := by
        have sizes := (List.dropWhile_sublist (· ≠ (38 : UInt8)) (l := behind)).length_le
        rw [List.length_append, List.length_cons] at enough
        rw [List.length_tail]
        omega
      rw [(dropWhile_byte plain behind).1, (dropWhile_byte plain behind).2]
      simp only [List.tail_cons]
      rw [inductionHypothesis shorter, OrderedMap.find_set, binds_iff plain, ← or_assoc]
      by_cases same : name = key
      · simp [same]
      · rw [if_neg same, or_iff_left same]

/-- Nothing is left of an earlier message that the next request does not replace: its header does
not end before the offset, and it assigns all names that are there. -/
structure Overwritten (left : HttpParser) (bytes header : List UInt8)
    (fields : List (List UInt8 × List UInt8)) : Prop where
  shape : ∃ rest, bytes = header ++ headerEnd ++ rest
  isHeader : HttpMsg.IsHeader header
  reads : HttpMsg.Reads (eatLine header).2 fields
  offset : left.req.scanned ≤ header.length
  headers : ∀ name, left.req.headers.find name ≠ none → ∃ field ∈ fields, field.1 = name
  args : ∀ name, left.req.args.find name ≠ none →
    Binds (HttpRequest.queryOf (HttpRequest.target bytes)) name

/-- Messages that have been found neither complete nor to have a body are decoded alike when their
headers are. -/
theorem tryDecode_congr {first second : HttpMsg} (unread : first.complete = false)
    (noLength : first.contentLen = 0) (unread' : second.complete = false)
    (noLength' : second.contentLen = 0) {buf : List UInt8}
    (header : first.decodeHeader buf = second.decodeHeader buf) (copyBody : Bool) :
    first.tryDecode_ buf copyBody = second.tryDecode_ buf copyBody := by
  unfold HttpMsg.tryDecode_
  rw [unread, unread', noLength, noLength', header]
  rfl

/-- The loop over the fields makes of a header what is read of it. -/
theorem parseFields_of_reads {header : List UInt8} {fields : List (List UInt8 × List UInt8)}
    (reads : HttpMsg.Reads (eatLine header).2 fields) (known : StringMap) :
    HttpMsg.parseFields (eatLine header).2.length (eatLine header).2 known =
      (true, known.setAll fields) :=
  (HttpMsg.parseFields_iff (le_refl _) (HttpMsg.eatLine_spec header).2.2 known _).mpr
    ⟨fields, reads, rfl⟩

/-- What is read of a header is assigned, whatever is there. -/
theorem setAll_of_reads {header : List UInt8} {first second : List (List UInt8 × List UInt8)}
    (reads : HttpMsg.Reads (eatLine header).2 first)
    (readsToo : HttpMsg.Reads (eatLine header).2 second) (known : StringMap) :
    known.setAll first = known.setAll second := by
  have twice := parseFields_of_reads reads known
  rw [parseFields_of_reads readsToo known] at twice
  exact (Prod.mk.inj twice).2.symm

/-- The bytes in front of the first marker. -/
theorem isHeader_of_seek {header rest : List UInt8} (nonempty : header ≠ [])
    (found : HttpMsg.seek (header ++ headerEnd ++ rest) = (header.length, true)) :
    HttpMsg.IsHeader header := by
  refine ⟨nonempty, fun index inside here => ?_⟩
  have later := HttpMsg.seek_drop found inside.le
  have long : 4 ≤ ((header ++ headerEnd).drop index).length := by
    simp only [List.length_drop, List.length_append, headerEnd, crlf, List.length_cons,
      List.length_nil]
    omega
  have ended : ((header ++ headerEnd ++ rest).drop index).take 4 = headerEnd := by
    rw [List.drop_append_of_le_length (by rw [List.length_append]; omega),
      List.take_append_of_le_length long, here]
  have atOnce : HttpMsg.seek ((header ++ headerEnd ++ rest).drop index) = (0, true) := by
    cases suffix : (header ++ headerEnd ++ rest).drop index with
    | nil =>
      rw [suffix] at ended
      cases ended
    | cons byte more =>
      rw [suffix] at ended
      rw [HttpMsg.seek, if_neg, if_pos ended]
      intro short
      have size := congrArg List.length ended
      rw [List.length_take] at size
      have four : headerEnd.length = 4 := rfl
      omega
  rw [atOnce] at later
  have place := (Prod.mk.inj later).1
  omega

/-- What a call has read that found the header and completed the message. -/
structure ReadFrom (msg done : HttpMsg) (bytes header line1 : List UInt8)
    (fields : List (List UInt8 × List UInt8)) : Prop where
  shape : header <+: bytes
  size : header.length = (msg.look bytes).scanned
  line : line1 = (eatLine header).1
  reads : HttpMsg.Reads (eatLine header).2 fields
  headers : done.headers = msg.headers.setAll fields
  scanned : done.scanned = header.length + 4 + HttpMsg.contentLenOf done.headers

theorem readFrom_of_complete {msg done : HttpMsg} {bytes line1 : List UInt8} {copyBody : Bool}
    (small : bytes.length ≤ maxSize) (unread : msg.complete = false) (noLength : msg.contentLen = 0)
    (decoded : msg.tryDecode_ bytes copyBody = .ok (.complete, done, line1)) :
    ∃ header fields, ReadFrom msg done bytes header line1 fields := by
  obtain ⟨parsed, isHeader, ⟨-, body⟩ | ⟨impossible, -⟩⟩ :=
    HttpMsg.tryDecode_parsed (by simp [HttpMsg.Headed, unread, noLength]) decoded (.inl rfl)
  · have bound := TcpBuffer.maxSize_lt_sizeModulus
    have inside := HttpMsg.scanned_of_decodeHeader isHeader
    obtain ⟨scanned, -, -, length⟩ := HttpMsg.parsed_of_decodeHeader isHeader
    obtain ⟨-, -, stored, -⟩ := HttpMsg.decodeBody_stores body
    have size : (bytes.take (msg.look bytes).scanned).length = (msg.look bytes).scanned := by
      rw [List.length_take]
      omega
    have parses : (msg.look bytes).parseHeader (bytes.take (msg.look bytes).scanned) =
        .parsed parsed line1 := by
      unfold HttpMsg.decodeHeader at isHeader
      split at isHeader
      · cases isHeader
      · exact isHeader
    obtain ⟨fields, reads, headers⟩ :=
      ((HttpMsg.parseHeader_iff _ _).2 parsed.headers).mp ⟨parsed, line1, parses, rfl⟩
    have isLine := HttpMsg.line_of_parseHeader (.inr parses)
    refine ⟨_, fields, List.take_prefix _ _, size, isLine, reads, stored.trans headers, ?_⟩
    rcases HttpMsg.decodeBody_cases body with ⟨impossible, -⟩ | ⟨-, present, isArray, read⟩
    · cases impossible
    · rw [read, addSize_of_lt (by omega), scanned, size, length, stored]
  · cases impossible

/-- A complete call on a request with a first line. -/
theorem tryDecode_complete {req next : HttpRequest} {bytes : List UInt8} {copyBody : Bool}
    (decoded : req.tryDecode bytes copyBody = .ok (.complete, next)) :
    ∃ done line1 version, req.toHttpMsg.tryDecode_ bytes copyBody = .ok (.complete, done, line1) ∧
      next.toHttpMsg = done.withVersion version ∧
      (line1 ≠ [] → next = ({ req with toHttpMsg := done } : HttpRequest).readRequestLine line1) := by
  obtain ⟨done, line1, version, called, isNext⟩ :=
    HttpRequest.tryDecode_calls copyBody _ ⟨_, []⟩ _ _ decoded
  refine ⟨done, line1, version, called, isNext, fun nonempty => ?_⟩
  unfold HttpRequest.tryDecode at decoded
  rw [called, ok_bind] at decoded
  simp only [if_neg nonempty] at decoded
  exact (Prod.mk.inj (Except.ok.inj decoded)).2.symm

/-- The header that a new message finds ends at the first marker. -/
theorem ReadFrom.front {done : HttpMsg} {bytes header line1 : List UInt8}
    {fields : List (List UInt8 × List UInt8)}
    (read : ReadFrom HttpMsg.cleared done bytes header line1 fields)
    (present : ∀ looked, HttpMsg.cleared.decodeHeader bytes ≠ .missing looked) :
    ∃ rest, bytes = header ++ headerEnd ++ rest ∧ header ≠ [] ∧
      HttpMsg.seek (header ++ headerEnd ++ rest) = (header.length, true) := by
  obtain ⟨first, rest, shape, nonempty, found⟩ := HttpMsg.header_of_decodeHeader rfl present
  have size : first.length = header.length := by
    rw [read.size]
    show first.length = 0 + (HttpMsg.seek bytes).1
    rw [shape, found, Nat.zero_add]
  obtain rfl : first = header := by
    refine (List.prefix_of_prefix_length_le ?_ read.shape size.le).eq_of_length size
    exact ⟨headerEnd ++ rest, by rw [shape, List.append_assoc]⟩
  exact ⟨rest, shape, nonempty, found⟩

/-- A spent parser whose offset is before the end of the header, and whose names are all assigned
again, finds the header that a new one finds. -/
theorem Spent.decodeHeader {left : HttpParser} (spent : left.Spent) {header rest : List UInt8}
    {fields : List (List UInt8 × List UInt8)} (nonempty : header ≠ [])
    (found : HttpMsg.seek (header ++ headerEnd ++ rest) = (header.length, true))
    (reads : HttpMsg.Reads (eatLine header).2 fields) (before : left.req.scanned ≤ header.length)
    (assigned : left.req.headers.setAll fields = OrderedMap.empty.setAll fields) :
    left.req.toHttpMsg.decodeHeader (header ++ headerEnd ++ rest) =
      (HttpMsg.cleared.withVersion left.req.version).decodeHeader
        (header ++ headerEnd ++ rest) := by
  rw [HttpMsg.decodeHeader_before found nonempty before,
    HttpMsg.decodeHeader_of_seek rfl found nonempty]
  unfold HttpMsg.parseHeader
  simp only
  rw [parseFields_of_reads reads, parseFields_of_reads reads]
  simp only
  rw [assigned, spent.noBody, spent.noView, spent.unread]
  rfl

/-- The names of a request line are assigned. -/
theorem find_readRequestLine_iff (req : HttpRequest) (line1 name : List UInt8) :
    (req.readRequestLine line1).args.find name ≠ none ↔
      req.args.find name ≠ none ∨
        Binds (HttpRequest.queryOf (eatWord (eatWord line1).2).1) name := by
  unfold HttpRequest.readRequestLine HttpRequest.parseUrlParams HttpRequest.queryOf
  simp only
  split
  · exact find_parseArgs_iff (le_refl _) req.args name
  · rename_i absent
    refine (or_iff_left fun binds => ?_).symm
    rw [List.dropWhile_eq_nil_iff.mpr fun byte member => by
      have different : byte ≠ 63 := fun same => absent (same ▸ member)
      simpa using different] at binds
    exact absurd binds.mem List.not_mem_nil

theorem find_setAll_empty_iff (fields : List (List UInt8 × List UInt8)) (name : List UInt8) :
    ((OrderedMap.empty : StringMap).setAll fields).find name ≠ none ↔
      ∃ field ∈ fields, field.1 = name := by
  rw [Ne, OrderedMap.find_setAll_eq_none_iff, OrderedMap.find_empty, and_iff_right rfl]
  push Not
  rfl

/-- What a new parser has read that read a whole request at once. -/
structure NewlyRead (bytes : List UInt8) (copyBody : Bool) (next : HttpParser) (done : HttpMsg)
    (line1 header : List UInt8) (fields : List (List UInt8 × List UInt8)) : Prop where
  small : bytes.length ≤ maxSize
  called : HttpMsg.cleared.tryDecode_ bytes copyBody = .ok (.complete, done, line1)
  read : ReadFrom HttpMsg.cleared done bytes header line1 fields
  shape : ∃ rest, bytes = header ++ headerEnd ++ rest
  isHeader : HttpMsg.IsHeader header
  nonempty : line1 ≠ []
  isNext : next.req =
    ({ HttpRequest.cleared with toHttpMsg := done } : HttpRequest).readRequestLine line1
  args : ∀ name, next.req.args.find name ≠ none ↔
    Binds (HttpRequest.queryOf (HttpRequest.target bytes)) name
  behind : next.inputBuffer = HttpSession.leftover bytes next.req .complete

theorem newlyRead_of_parseRequest {next : HttpParser} {bytes : List UInt8} {copyBody : Bool}
    (line : (eatLine bytes).1 ≠ [])
    (parsed : fresh.parseRequest bytes copyBody = .ok (.complete, next)) :
    ∃ done line1 header fields, NewlyRead bytes copyBody next done line1 header fields := by
  obtain ⟨small, decoded, behind⟩ := parseRequest_eq_ok parsed
  rw [show fresh.inputBuffer ++ bytes = bytes from rfl] at small decoded behind
  obtain ⟨done, line1, version, called, -, reads⟩ := tryDecode_complete decoded
  rw [show fresh.req.toHttpMsg = HttpMsg.cleared from rfl] at called
  obtain ⟨header, fields, read⟩ := readFrom_of_complete small rfl rfl called
  have present : ∀ looked, HttpMsg.cleared.decodeHeader bytes ≠ .missing looked := by
    intro looked missing
    have waits := (HttpMsg.Phase.looking looked missing :
      HttpMsg.Phase _ copyBody _ _ _).tryDecode
    rw [waits] at called
    cases called
  obtain ⟨rest, shape, notEmpty, found⟩ := read.front present
  have isLine := HttpRequest.line_of_tryDecode called present
  have nonempty : line1 ≠ [] := by rwa [isLine]
  have isNext := reads nonempty
  refine ⟨done, line1, header, fields, small, called, read, ⟨rest, shape⟩,
    isHeader_of_seek notEmpty found, nonempty, isNext, fun name => ?_, behind⟩
  rw [isNext, find_readRequestLine_iff, isLine]
  exact or_iff_right fun known => known (OrderedMap.find_empty name)

/-- A spent parser that reads a request as a new one does had nothing left of the malformed one. -/
theorem NewlyRead.overwritten {left next : HttpParser} {bytes line1 header : List UInt8}
    {copyBody : Bool} {done : HttpMsg} {fields : List (List UInt8 × List UInt8)}
    (new : NewlyRead bytes copyBody next done line1 header fields) (spent : left.Spent)
    (again : left.req.tryDecode bytes copyBody = .ok (.complete, next.req)) :
    Overwritten left bytes header fields := by
  obtain ⟨known, method, url, queryUrl, entries, assigns⟩ :=
    HttpRequest.readRequestLine_eq line1
  have isNext := new.isNext
  rw [assigns] at isNext
  obtain ⟨done', line', version, called, isMsg, reads⟩ := tryDecode_complete again
  obtain ⟨header', fields', read⟩ :=
    readFrom_of_complete new.small spent.unread spent.noLength called
  have isMsg' : done'.withVersion version = done.withVersion known := by
    rw [← isMsg, isNext]
  have sameHeaders : done'.headers = done.headers := by
    have same := congrArg HttpMsg.headers isMsg'
    exact same
  have sameScanned : done'.scanned = done.scanned := by
    have same := congrArg HttpMsg.scanned isMsg'
    exact same
  -- The two headers are prefixes of the same bytes, of the same length.
  have sameSize : header'.length = header.length := by
    rw [new.read.scanned, read.scanned, sameHeaders] at sameScanned
    omega
  obtain rfl : header' = header :=
    (List.prefix_of_prefix_length_le read.shape new.read.shape sameSize.le).eq_of_length sameSize
  have sameLine : line' = line1 := by rw [read.line, new.read.line]
  have isNext' := reads (by rw [sameLine]; exact new.nonempty)
  rw [sameLine, assigns, isNext] at isNext'
  have headersLeft : left.req.headers.setAll fields = OrderedMap.empty.setAll fields := by
    rw [setAll_of_reads new.read.reads read.reads]
    exact (read.headers.symm.trans sameHeaders).trans new.read.headers
  have argsLeft : left.req.args.setAll entries = OrderedMap.empty.setAll entries :=
    (congrArg HttpRequest.args isNext').symm
  refine ⟨new.shape, new.isHeader, new.read.reads, ?_, fun name there => ?_, fun name there => ?_⟩
  · rw [read.size]
    exact Nat.le_add_right _ _
  · exact (find_setAll_empty_iff fields name).mp
      ((OrderedMap.setAll_eq_setAll_empty_iff _ _).mp headersLeft name there)
  · rw [← new.args, isNext]
    exact (OrderedMap.setAll_eq_setAll_empty_iff _ _).mp argsLeft name there

/-- A spent parser with nothing left of the malformed request reads the next one as a new parser
does. -/
theorem NewlyRead.tryDecode {left next : HttpParser} {bytes line1 header header' : List UInt8}
    {copyBody : Bool} {done : HttpMsg} {fields fields' : List (List UInt8 × List UInt8)}
    (new : NewlyRead bytes copyBody next done line1 header fields) (spent : left.Spent)
    (overwritten : Overwritten left bytes header' fields') :
    left.req.tryDecode bytes copyBody = .ok (.complete, next.req) := by
  obtain ⟨known, method, url, queryUrl, entries, assigns⟩ :=
    HttpRequest.readRequestLine_eq line1
  have isNext := new.isNext
  rw [assigns] at isNext
  obtain ⟨⟨rest, shape⟩, isHeader, reads, offset, headersLeft, argsLeft⟩ := overwritten
  have assignedHeaders : left.req.headers.setAll fields' = OrderedMap.empty.setAll fields' :=
    (OrderedMap.setAll_eq_setAll_empty_iff _ _).mpr fun name there =>
      (find_setAll_empty_iff fields' name).mpr (headersLeft name there)
  have assignedArgs : left.req.args.setAll entries = OrderedMap.empty.setAll entries := by
    refine (OrderedMap.setAll_eq_setAll_empty_iff _ _).mpr fun name there => ?_
    have assigned := (new.args name).mpr (argsLeft name there)
    rwa [isNext] at assigned
  have sameHeader := spent.decodeHeader isHeader.1
    (HttpMsg.seek_of_isHeader isHeader.2 rest) reads offset assignedHeaders
  rw [← shape] at sameHeader
  have again : left.req.toHttpMsg.tryDecode_ bytes copyBody =
      .ok (.complete, done.withVersion left.req.version, line1) := by
    rw [tryDecode_congr spent.unread spent.noLength rfl rfl sameHeader,
      HttpMsg.tryDecode_withVersion, new.called]
    rfl
  unfold HttpRequest.tryDecode
  rw [again, ok_bind]
  simp only [if_neg new.nonempty]
  rw [assigns, isNext]
  simp only [assignedArgs]
  rfl

/-- For every malformed request, fed in any chunks, and every request with a first line that a new
parser reads: the parser that is left returns the same, with the same request, if and only if
nothing is left in it of the malformed request that the next one does not replace. -/
theorem recovers_iff (copyBody : Bool) (malformed : List (List UInt8))
    (trace : List (ParseResult × HttpParser)) (left : HttpParser)
    (fed : decodeChain (fun parser data => parser.parseRequest data copyBody) fresh malformed =
      .ok trace) (failed : trace.getLast? = some (.error, left)) (bytes : List UInt8)
    (line : (eatLine bytes).1 ≠ []) (next : HttpParser)
    (parsed : fresh.parseRequest bytes copyBody = .ok (.complete, next)) :
    left.parseRequest bytes copyBody = .ok (.complete, next) ↔
      ∃ header fields, Overwritten left bytes header fields := by
  have spent := spent_of_chain (fun _ => ⟨rfl, rfl⟩) fed failed
  obtain ⟨done, line1, header, fields, new⟩ := newlyRead_of_parseRequest line parsed
  have input : left.inputBuffer ++ bytes = bytes := by rw [spent.empty, List.nil_append]
  constructor
  · intro again
    obtain ⟨-, decoded, -⟩ := parseRequest_eq_ok again
    rw [input] at decoded
    exact ⟨header, fields, new.overwritten spent decoded⟩
  · rintro ⟨header', fields', overwritten⟩
    rw [parseRequest_of_tryDecode (by rw [input]; exact new.small)
      (by rw [input]; exact new.tryDecode spent overwritten), input, ← new.behind]

/-- The parser behind one call. -/
def behind (parser : HttpParser) (bytes : List UInt8) : HttpParser :=
  match parser.parseRequest bytes true with
  | .ok (_, next) => next
  | .error _ => parser

/-- A request for `/` with a line. -/
def lineRequest (line : String) : List UInt8 :=
  text "GET / HTTP/1.1\r\n" ++ text line ++ text "\r\n\r\n"

/-- A malformed line before any field, and a request with a longer header. -/
theorem recovers_iff_field :
    (fresh.behind (lineRequest "bad")).parseRequest (lineRequest "Host: yy") true =
      .ok (.complete, fresh.behind (lineRequest "Host: yy")) := by
  have rejected : fresh.parseRequest (lineRequest "bad") true =
      .ok (.error, fresh.behind (lineRequest "bad")) := by decide +kernel
  have accepted : fresh.parseRequest (lineRequest "Host: yy") true =
      .ok (.complete, fresh.behind (lineRequest "Host: yy")) := by decide +kernel
  have fed : decodeChain (fun parser data => parser.parseRequest data true) fresh
      [lineRequest "bad"] = .ok [(.error, fresh.behind (lineRequest "bad"))] := by
    unfold decodeChain
    simp only
    rw [rejected]
    rfl
  have reads : HttpMsg.Reads (eatLine (text "GET / HTTP/1.1\r\nHost: yy")).2
      [((text "Host").map toLower, text "yy")] := by
    have shape : (eatLine (text "GET / HTTP/1.1\r\nHost: yy")).2 =
        13 :: 10 :: (text "Host: yy" ++ []) := by decide
    rw [shape]
    refine .field 13 10 (text "Host: yy") (text "Host") (text "yy") [] [] rfl ?_ (by simp) ?_ .done
    · unfold InLine
      decide +kernel
    · exact HttpMsg.isField_iff.mpr (by decide)
  refine (recovers_iff true [lineRequest "bad"] _ _ fed rfl (lineRequest "Host: yy")
    (by decide) _ accepted).mpr
    ⟨text "GET / HTTP/1.1\r\nHost: yy", [((text "Host").map toLower, text "yy")], ?_⟩
  have noHeaders : (fresh.behind (lineRequest "bad")).req.headers = OrderedMap.empty := by
    decide +kernel
  have noArgs : (fresh.behind (lineRequest "bad")).req.args = OrderedMap.empty := by
    decide +kernel
  refine ⟨⟨[], by decide +kernel⟩, ?_, reads, by decide +kernel, ?_, ?_⟩
  · unfold HttpMsg.IsHeader
    decide
  · intro name there
    rw [noHeaders] at there
    exact absurd (OrderedMap.find_empty name) there
  · intro name there
    rw [noArgs] at there
    exact absurd (OrderedMap.find_empty name) there

/-- A field before the malformed line is a field of the next request. -/
theorem not_recovers :
    ¬ ∀ (copyBody : Bool) (malformed : List (List UInt8)) (trace : List (ParseResult × HttpParser))
      (left : HttpParser), decodeChain (fun parser data => parser.parseRequest data copyBody) fresh
        malformed = .ok trace → trace.getLast? = some (.error, left) → ∀ bytes : List UInt8,
      (eatLine bytes).1 ≠ [] → ∀ next, fresh.parseRequest bytes copyBody = .ok (.complete, next) →
        left.parseRequest bytes copyBody = .ok (.complete, next) := by
  intro recovers
  have rejected : fresh.parseRequest (lineRequest "A: b\r\nbad") true =
      .ok (.error, fresh.behind (lineRequest "A: b\r\nbad")) := by decide +kernel
  have fed : decodeChain (fun parser data => parser.parseRequest data true) fresh
      [lineRequest "A: b\r\nbad"] = .ok [(.error, fresh.behind (lineRequest "A: b\r\nbad"))] := by
    unfold decodeChain
    simp only
    rw [rejected]
    rfl
  have same := recovers true _ _ _ fed rfl (lineRequest "Host: yy.net") (by decide)
    (fresh.behind (lineRequest "Host: yy.net")) (by decide +kernel)
  have differs : (fresh.behind (lineRequest "A: b\r\nbad")).parseRequest
      (lineRequest "Host: yy.net") true ≠
        .ok (.complete, fresh.behind (lineRequest "Host: yy.net")) := by decide +kernel
  exact differs same

end HttpParser

end YYNet
