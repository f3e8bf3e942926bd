/-
This file proves when a request survives being encoded and decoded.

The request line is formatted in an array of 4096 bytes, and everything behind it
is appended to a string. A line that fits, with its line end, makes the round trip
what it is for responses. A longer one is cut at 4095 bytes. Then its line end is
gone, or the newline of it: the first header field becomes a part of the request
line, or loses the first byte of its name. Either way its name is missing from the
headers that are read, so no such request survives.
-/

import YYNet.Http.RoundTrip

namespace YYNet

open Checked Storage

namespace HttpRequest

/-! ### Requests that fit -/

/-- The request line, without its end. -/
def requestLine (req : HttpRequest) : List UInt8 :=
  methodToString req.method ++ text " " ++ req.queryUrl ++ text " " ++ req.version

/-- A request that can be sent: sendable headers, a known method, and a query URL and a version
that are words without null. -/
structure Sendable (req : HttpRequest) : Prop where
  headers : req.toHttpMsg.Sendable
  method : req.method ≠ .unknown
  queryUrl : IsWord req.queryUrl ∧ 0 ∉ req.queryUrl
  version : IsWord req.version ∧ 0 ∉ req.version

/-- The encoded request: `encode` into an empty string. -/
def encoded (req : HttpRequest) : List UInt8 := (req.encode []).2

/-- The request survives: decoding what was encoded returns the same method, query URL, version
and body, the URL up to the first question mark, and the headers with the two automatic ones. -/
def Survives (req : HttpRequest) (copyBody : Bool) : Prop :=
  ∃ decoded, cleared.tryDecode req.encoded copyBody = .ok (.complete, decoded) ∧
    decoded.method = req.method ∧ decoded.queryUrl = req.queryUrl ∧
    decoded.version = req.version ∧ decoded.getBody = req.getBody ∧
    decoded.url = req.queryUrl.takeWhile (· ≠ 63) ∧ decoded.headers = req.sentHeaders

set_option maxRecDepth 2000 in
theorem isWord_methodToString (method : Method) : IsWord (methodToString method) := by
  cases method <;> decide

theorem stringToMethod_methodToString {method : Method} (known : method ≠ .unknown) :
    stringToMethod (methodToString method) = method := by
  cases method with
  | unknown => exact absurd rfl known
  | get => decide
  | post => decide
  | put => decide
  | delete => decide
  | head => decide

theorem requestLine_ne_nil (req : HttpRequest) : req.requestLine ≠ [] := by
  unfold requestLine
  simp [text]

theorem Sendable.inLine {req : HttpRequest} (sendable : req.Sendable) :
    InLine req.requestLine := by
  exact ((((isWord_methodToString req.method).inLine.append inLine_space).append
    sendable.queryUrl.1.inLine).append inLine_space).append sendable.version.1.inLine

/-- What the encoder writes, with the request line as far as it fits. -/
theorem Sendable.encoded_eq {req : HttpRequest} (sendable : req.Sendable)
    (small : req.getBody.length < 2 ^ 64) :
    req.encoded = snprintf HttpMsg.tmpSize (req.requestLine ++ crlf) ++
      req.allFields.flatMap HttpMsg.fieldLine ++ crlf ++ req.getBody := by
  unfold encoded encode
  rw [if_neg sendable.queryUrl.1.1, cStr_of_not_mem sendable.queryUrl.2,
    cStr_of_not_mem sendable.version.2, ← requestLine, HttpMsg.encodeBehind_eq small]

/-- The URL is the query URL up to the first question mark. -/
theorem parseUrlParams_url (req : HttpRequest) :
    req.parseUrlParams.url = req.queryUrl.takeWhile (· ≠ 63) := by
  unfold parseUrlParams
  split
  · rfl
  · rename_i absent
    refine (List.takeWhile_eq_self_iff.mpr fun byte member => ?_).symm
    have : byte ≠ 63 := by
      rintro rfl
      exact absent member
    simpa using this

@[simp]
theorem parseUrlParams_toHttpMsg (req : HttpRequest) :
    req.parseUrlParams.toHttpMsg = req.toHttpMsg := by
  unfold parseUrlParams
  split <;> rfl

@[simp]
theorem parseUrlParams_method (req : HttpRequest) : req.parseUrlParams.method = req.method := by
  unfold parseUrlParams
  split <;> rfl

@[simp]
theorem parseUrlParams_queryUrl (req : HttpRequest) :
    req.parseUrlParams.queryUrl = req.queryUrl := by
  unfold parseUrlParams
  split <;> rfl

/-- The request line is read back. -/
theorem Sendable.readRequestLine {req : HttpRequest} (sendable : req.Sendable)
    (decoded : HttpRequest) :
    decoded.readRequestLine req.requestLine = parseUrlParams { decoded with
      method := req.method
      queryUrl := req.queryUrl
      version := req.version } := by
  have space : ∀ piece : List UInt8, ∀ byte ∈ (32 :: piece).head?, isSpace byte = true := by
    simp [isSpace]
  have shape : req.requestLine =
      methodToString req.method ++ (32 :: (req.queryUrl ++ (32 :: req.version))) := by
    unfold requestLine
    simp [text]
  have method : eatWord req.requestLine =
      (methodToString req.method, 32 :: (req.queryUrl ++ (32 :: req.version))) := by
    rw [shape]
    exact eatWord_append (isWord_methodToString req.method) (space _)
  have url : eatWord (32 :: (req.queryUrl ++ (32 :: req.version))) =
      (req.queryUrl, 32 :: req.version) := by
    rw [eatWord_space]
    exact eatWord_append sendable.queryUrl.1 (space _)
  have version : eatWord (32 :: req.version) = (req.version, []) := by
    rw [eatWord_space]
    exact sendable.version.1.eatWord
  unfold HttpRequest.readRequestLine
  rw [method]
  simp only
  rw [url]
  simp only
  rw [version]
  simp only
  rw [stringToMethod_methodToString sendable.method]

theorem getBody_lt {req : HttpRequest} (fits : req.encoded.length ≤ maxSize) :
    req.getBody.length < 2 ^ 63 :=
  HttpMsg.getBody_lt fits

/-- A request whose request line fits survives. -/
theorem Sendable.survives {req : HttpRequest} (sendable : req.Sendable)
    (fits : req.encoded.length ≤ maxSize)
    (short : (req.requestLine ++ crlf).length < HttpMsg.tmpSize) (copyBody : Bool) :
    req.Survives copyBody := by
  have small := getBody_lt fits
  have shape : req.encoded = req.requestLine ++ HttpMsg.fieldLines req.allFields ++ headerEnd ++
      req.getBody ++ [] := by
    rw [sendable.encoded_eq (by omega), snprintf_of_lt short, List.append_nil,
      List.append_assoc req.requestLine, HttpMsg.crlf_append_fieldLine, headerEnd]
    simp only [List.append_assoc]
  have contentLen : (HttpMsg.cleared.headed req.requestLine req.allFields).contentLen =
      req.getBody.length := by
    show HttpMsg.contentLenOf (OrderedMap.empty.setAll _) = _
    rw [sendable.headers.setAll, HttpMsg.contentLenOf_sentHeaders small]
  rw [shape] at fits
  have decoded : cleared.toHttpMsg.tryDecode_ (req.requestLine ++ HttpMsg.fieldLines req.allFields ++
      headerEnd ++ req.getBody ++ []) copyBody = .ok (.complete, (HttpMsg.cleared.headed
        req.requestLine req.allFields).taken (req.requestLine ++ HttpMsg.fieldLines req.allFields ++
          headerEnd) req.getBody copyBody, req.requestLine) :=
    HttpMsg.tryDecode_lines rfl rfl rfl (requestLine_ne_nil req) sendable.inLine
      sendable.headers.readable contentLen [] fits copyBody
  unfold Survives HttpRequest.tryDecode
  rw [shape, decoded, ok_bind]
  simp only
  rw [if_neg (requestLine_ne_nil req), sendable.readRequestLine]
  refine ⟨_, rfl, parseUrlParams_method _, parseUrlParams_queryUrl _, ?_, ?_,
    parseUrlParams_url _, ?_⟩
  · rw [parseUrlParams_toHttpMsg]
  · rw [parseUrlParams_toHttpMsg]
    show ((HttpMsg.cleared.headed req.requestLine req.allFields).taken
      (req.requestLine ++ HttpMsg.fieldLines req.allFields ++ headerEnd) _ copyBody).getBody = _
    exact HttpMsg.taken_getBody rfl rfl _ _ copyBody
  · rw [parseUrlParams_toHttpMsg]
    exact sendable.headers.setAll

/-! ### Requests that do not fit -/

theorem readRequestLine_headers (req : HttpRequest) (line1 : List UInt8) :
    (req.readRequestLine line1).headers = req.headers := by
  unfold HttpRequest.readRequestLine
  simp only
  rw [parseUrlParams_toHttpMsg]

/-- The headers of a decoded request are those of its header. -/
theorem headers_of_tryDecode {buf line1 : List UInt8} {parsed : HttpMsg} {copyBody : Bool}
    {result : ParseResult} {decoded : HttpRequest}
    (header : HttpMsg.cleared.decodeHeader buf = .parsed parsed line1)
    (returned : cleared.tryDecode buf copyBody = .ok (result, decoded)) :
    decoded.headers = parsed.headers := by
  obtain ⟨⟨same, message, line⟩, read, finished⟩ := bind_eq_ok returned
  have kept : message.headers = parsed.headers := by
    unfold HttpMsg.tryDecode_ at read
    rw [if_neg (by decide), if_neg (by decide)] at read
    have header : cleared.toHttpMsg.decodeHeader buf = .parsed parsed line1 := header
    rw [header] at read
    simp only at read
    split at read
    · cases read
      rfl
    · obtain ⟨⟨outcome, body⟩, taken, finished⟩ := bind_eq_ok read
      cases finished
      unfold HttpMsg.decodeBody at taken
      split at taken
      · cases taken
        rfl
      · split at taken
        · cases taken
        · cases copyBody <;> (cases taken; rfl)
  cases finished
  split
  · exact kept
  · rw [readRequestLine_headers]
    exact kept

end HttpRequest

namespace HttpMsg

/-- The names of the header fields are distinct. -/
theorem Sendable.distinct {msg : HttpMsg} (sendable : msg.Sendable) :
    (msg.allFields.map fun field => (entryOf field).1).Nodup := by
  have names : msg.headers.entries.map (fun field => (entryOf field).1) =
      msg.headers.entries.map Prod.fst := by
    refine List.map_congr_left fun field member => ?_
    exact (sendable field member).1.2
  have own : (msg.headers.entries.map Prod.fst).Nodup := by
    rw [List.Nodup, List.pairwise_map]
    exact msg.headers.increasing.imp fun below => below.ne
  have automatic : (text "Connection").map toLower = text "connection" ∧
      (text "Content-Length").map toLower = text "content-length" := by decide
  unfold allFields
  rw [List.map_append, names, List.nodup_append]
  refine ⟨own, ?_, ?_⟩
  · show [(text "Connection").map toLower, (text "Content-Length").map toLower].Nodup
    decide
  · intro name member other isAutomatic
    obtain ⟨field, inHeaders, rfl⟩ := List.mem_map.mp member
    obtain ⟨-, ⟨notConnection, notContentLength⟩, -⟩ := sendable field inHeaders
    have cases : other = text "connection" ∨ other = text "content-length" := by
      rw [← automatic.1, ← automatic.2]
      simpa [entryOf] using isAutomatic
    rcases cases with rfl | rfl
    · exact notConnection
    · exact notContentLength

theorem Sendable.named {msg : HttpMsg} (sendable : msg.Sendable) :
    ∀ field ∈ msg.allFields, field.1 ≠ [] := by
  intro field member
  rcases List.mem_append.mp member with own | automatic
  · exact (sendable field own).1.1.1
  · rcases List.mem_cons.mp automatic with rfl | contentLength
    · decide
    · obtain rfl := List.mem_singleton.mp contentLength
      exact (by decide : text "Content-Length" ≠ [])

/-- No other field has the name of the first one. -/
theorem Sendable.first_ne {msg : HttpMsg} (sendable : msg.Sendable)
    {first : List UInt8 × List UInt8} {others : List (List UInt8 × List UInt8)}
    (shape : msg.allFields = first :: others) :
    ∀ entry ∈ others.map entryOf, entry.1 ≠ (entryOf first).1 := by
  have distinct := sendable.distinct
  rw [shape] at distinct
  intro entry member same
  obtain ⟨field, inOthers, rfl⟩ := List.mem_map.mp member
  exact (List.nodup_cons.mp distinct).1 (List.mem_map.mpr ⟨field, inOthers, same⟩)

/-- The header of a message whose first line lost its newline: the first field loses the first
byte of its name. -/
theorem decodeHeader_cut {msg : HttpMsg} (start : msg.scanned = 0) {line1 : List UInt8}
    (inLine : InLine line1) {letter : UInt8} {name value : List UInt8}
    (first : Readable (letter :: name, value)) {others : List (List UInt8 × List UInt8)}
    (readable : ∀ field ∈ others, Readable field) (rest : List UInt8) :
    ∃ parsed, msg.decodeHeader (line1 ++ [13] ++ fieldText (letter :: name, value) ++
        fieldLines others ++ headerEnd ++ rest) = .parsed parsed line1 ∧
      parsed.headers = msg.headers.setAll (((name, value) :: others).map entryOf) := by
  have shorter : Readable (name, value) :=
    ⟨fun byte member => first.noSpace byte (List.mem_cons_of_mem _ member), first.nonempty,
      first.trimmed, first.inLine⟩
  have firstText : fieldText (letter :: name, value) = letter :: fieldText (name, value) := rfl
  have textInLine := first.inLine_text
  have notNewline : letter ≠ 10 := by
    rintro rfl
    exact Bool.noConfusion (textInLine 10 (by rw [firstText]; exact List.mem_cons_self))
  have long : 3 ≤ (fieldLines others ++ headerEnd ++ rest).length := by
    simp only [List.length_append, headerEnd, crlf, List.length_cons, List.length_nil]
    omega
  have longer : 3 ≤ (13 :: (fieldText (letter :: name, value) ++
      (fieldLines others ++ headerEnd ++ rest))).length := by
    rw [List.length_cons, List.length_append]
    omega
  have found : seek ((line1 ++ [13] ++ fieldText (letter :: name, value) ++ fieldLines others) ++
      (headerEnd ++ rest)) = ((line1 ++ [13] ++ fieldText (letter :: name, value) ++
        fieldLines others).length, true) := by
    have passedField := seek_inLine textInLine long
    rw [seek_fieldLines readable rest] at passedField
    have passedReturn : seek (13 :: (fieldText (letter :: name, value) ++
        (fieldLines others ++ headerEnd ++ rest))) =
          ((fieldLines others).length + (fieldText (letter :: name, value)).length + 1, true) := by
      rw [firstText, List.cons_append, seek_return notNewline (by rw [List.length_append]; omega),
        ← List.cons_append, ← firstText, passedField]
    have passed := seek_inLine inLine longer
    rw [passedReturn] at passed
    have shape : (line1 ++ [13] ++ fieldText (letter :: name, value) ++ fieldLines others) ++
        (headerEnd ++ rest) = line1 ++ 13 :: (fieldText (letter :: name, value) ++
          (fieldLines others ++ headerEnd ++ rest)) := by
      simp only [List.append_assoc, List.cons_append, List.nil_append]
    rw [shape, passed]
    refine Prod.ext ?_ rfl
    simp only [List.length_append, List.length_cons, List.length_nil]
    omega
  have line : eatLine (line1 ++ [13] ++ fieldText (letter :: name, value) ++ fieldLines others) =
      (line1, [13, letter] ++ fieldText (name, value) ++ fieldLines others) := by
    have shape : line1 ++ [13] ++ fieldText (letter :: name, value) ++ fieldLines others =
        line1 ++ ([13, letter] ++ fieldText (name, value) ++ fieldLines others) := by
      rw [firstText]
      simp
    rw [shape]
    exact eatLine_append inLine (by simp [isLineEnd])
  have fuel : ∃ fuel, ([13, letter] ++ fieldText (name, value) ++ fieldLines others).length =
      fuel + 1 ∧ others.length ≤ fuel := by
    have := length_le_fieldLines others
    simp only [List.length_append, List.length_cons, List.length_nil]
    exact ⟨1 + (fieldText (name, value)).length + (fieldLines others).length, by omega, by omega⟩
  obtain ⟨fuel, isFuel, enough⟩ := fuel
  have parsed : parseFields ([13, letter] ++ fieldText (name, value) ++ fieldLines others).length
      ([13, letter] ++ fieldText (name, value) ++ fieldLines others) msg.headers =
        (true, msg.headers.setAll (((name, value) :: others).map entryOf)) := by
    rw [isFuel, parseFields_field shorter rfl (head_fieldLines others),
      parseFields_fieldLines readable enough]
    rfl
  have header := decodeHeader_found start found (by simp) line parsed
  rw [← List.append_assoc] at header
  exact ⟨_, header, rfl⟩

end HttpMsg

namespace HttpRequest

/-- The header of a request whose request line does not fit: the name of the first header field
is not in it. -/
theorem Sendable.decodeHeader_long {req : HttpRequest} (sendable : req.Sendable)
    (small : req.getBody.length < 2 ^ 64)
    (long : HttpMsg.tmpSize ≤ (req.requestLine ++ crlf).length)
    {first : List UInt8 × List UInt8} {others : List (List UInt8 × List UInt8)}
    (shape : req.allFields = first :: others) :
    ∃ parsed line1, HttpMsg.cleared.decodeHeader req.encoded = .parsed parsed line1 ∧
      parsed.headers.find (HttpMsg.entryOf first).1 = none := by
  have readable := sendable.headers.readable
  have absent := sendable.headers.first_ne shape
  rw [shape] at readable
  have readableOthers : ∀ field ∈ others, HttpMsg.Readable field := fun field member =>
    readable field (List.mem_cons_of_mem _ member)
  have behind : req.allFields.flatMap HttpMsg.fieldLine ++ crlf =
      HttpMsg.fieldText first ++ HttpMsg.fieldLines others ++ headerEnd := by
    rw [shape, List.flatMap_cons, HttpMsg.fieldLine_eq, List.append_assoc (HttpMsg.fieldText first),
      HttpMsg.crlf_append_fieldLine, headerEnd]
    simp only [List.append_assoc]
  have written : req.encoded = snprintf HttpMsg.tmpSize (req.requestLine ++ crlf) ++
      HttpMsg.fieldText first ++ HttpMsg.fieldLines others ++ headerEnd ++ req.getBody := by
    rw [sendable.encoded_eq small, List.append_assoc (snprintf _ _), behind]
    simp only [List.append_assoc]
  have size : req.requestLine.length + 2 = (req.requestLine ++ crlf).length := by
    rw [List.length_append]
    rfl
  unfold HttpMsg.tmpSize at long
  by_cases cut : 4095 ≤ req.requestLine.length
  · -- The line end is gone: the first field is a part of the request line.
    have printed : snprintf HttpMsg.tmpSize (req.requestLine ++ crlf) =
        req.requestLine.take 4095 :=
      List.take_append_of_le_length cut
    have inLine : InLine (req.requestLine.take 4095 ++ HttpMsg.fieldText first) := by
      refine InLine.append (fun byte member => ?_) (readable first List.mem_cons_self).inLine_text
      exact sendable.inLine byte (List.mem_of_mem_take member)
    have nonempty : req.requestLine.take 4095 ++ HttpMsg.fieldText first ≠ [] := by
      rw [HttpMsg.fieldText_eq]
      simp
    have header : HttpMsg.cleared.decodeHeader _ = _ :=
      HttpMsg.decodeHeader_lines rfl nonempty inLine readableOthers req.getBody
    rw [written, printed]
    exact ⟨_, _, header, OrderedMap.find_setAll_of_not_mem OrderedMap.empty absent⟩
  · -- The newline is gone: the first field loses the first byte of its name.
    have printed : snprintf HttpMsg.tmpSize (req.requestLine ++ crlf) =
        req.requestLine ++ [13] := by
      have exact' : req.requestLine.length = 4094 := by omega
      unfold snprintf HttpMsg.tmpSize
      rw [List.take_append, exact', List.take_of_length_le (by omega)]
      rfl
    have named := sendable.headers.named first (by rw [shape]; exact List.mem_cons_self)
    obtain ⟨letter, name, spelled⟩ := List.exists_cons_of_ne_nil named
    obtain ⟨_, value⟩ := first
    obtain rfl := spelled
    have cut := HttpMsg.decodeHeader_cut (by rfl : HttpMsg.cleared.scanned = 0) sendable.inLine
      (readable _ List.mem_cons_self) readableOthers req.getBody
    obtain ⟨parsed, header, headers⟩ := cut
    rw [written, printed]
    refine ⟨parsed, _, header, ?_⟩
    rw [headers]
    refine OrderedMap.find_setAll_of_not_mem OrderedMap.empty fun entry member => ?_
    rcases List.mem_cons.mp member with rfl | inOthers
    · intro same
      have lengths := congrArg List.length same
      simp [HttpMsg.entryOf] at lengths
    · exact absent entry inOthers

/-- A request whose request line does not fit loses the name of its first header field. -/
theorem Sendable.not_survives {req : HttpRequest} (sendable : req.Sendable)
    (fits : req.encoded.length ≤ maxSize)
    (long : HttpMsg.tmpSize ≤ (req.requestLine ++ crlf).length) (copyBody : Bool) :
    ¬ req.Survives copyBody := by
  have small := getBody_lt fits
  obtain ⟨first, others, shape⟩ : ∃ first others, req.allFields = first :: others := by
    refine List.exists_cons_of_ne_nil ?_
    unfold HttpMsg.allFields
    simp
  obtain ⟨parsed, line1, header, lost⟩ := sendable.decodeHeader_long (by omega) long shape
  rintro ⟨decoded, returned, -, -, -, -, -, headers⟩
  rw [← headers_of_tryDecode header returned, headers, ← sendable.headers.setAll, shape,
    List.map_cons, OrderedMap.setAll_cons,
    OrderedMap.find_setAll_of_not_mem _ (sendable.headers.first_ne shape), OrderedMap.find_set,
    if_pos rfl] at lost
  cases lost

/-- A request survives if and only if its request line, with its line end, is shorter than the
array it is formatted in. The encoded request is an array, which has at most `maxSize` bytes. -/
theorem request_round_trip_iff (req : HttpRequest) (sendable : req.Sendable)
    (fits : req.encoded.length ≤ maxSize) (copyBody : Bool) :
    req.Survives copyBody ↔
      (methodToString req.method).length + 1 + req.queryUrl.length + 1 + req.version.length + 2 <
        4096 := by
  have size : (req.requestLine ++ crlf).length = (methodToString req.method).length + 1 +
      req.queryUrl.length + 1 + req.version.length + 2 := by
    unfold requestLine
    simp only [List.length_append]
    rfl
  rw [← size]
  refine ⟨fun survives => ?_, fun short => sendable.survives fits short copyBody⟩
  by_contra long
  exact sendable.not_survives fits (not_lt.mp long) copyBody survives

/-- A request for a URL of a slash and as many letters as given. -/
def longRequest (letters : Nat) : HttpRequest :=
  { cleared with
    method := .get
    queryUrl := 47 :: List.replicate letters 97 }

theorem longRequest_sendable (letters : Nat) : (longRequest letters).Sendable := by
  have bytes : ∀ byte ∈ (longRequest letters).queryUrl, byte = 47 ∨ byte = 97 := by
    intro byte member
    rcases List.mem_cons.mp member with slash | letter
    · exact .inl slash
    · exact .inr (List.eq_of_mem_replicate letter)
  have url : IsWord (longRequest letters).queryUrl := by
    refine ⟨List.cons_ne_nil _ _, fun byte member => ?_⟩
    rcases bytes byte member with rfl | rfl
    · decide
    · decide
  have clean : 0 ∉ (longRequest letters).queryUrl := by
    intro member
    rcases bytes 0 member with null | null
    · cases null
    · cases null
  have noHeaders : (longRequest letters).toHttpMsg.Sendable := by
    intro field member
    cases member
  have version : IsWord (text "HTTP/1.1") ∧ 0 ∉ text "HTTP/1.1" := by decide +kernel
  have known : (longRequest letters).method ≠ .unknown := Method.noConfusion
  exact ⟨noHeaders, known, ⟨url, clean⟩, version⟩

theorem longRequest_size (letters : Nat) :
    (methodToString (longRequest letters).method).length + 1 +
      (longRequest letters).queryUrl.length + 1 + (longRequest letters).version.length + 2 =
        letters + 16 := by
  have method : (methodToString .get).length = 3 := by decide
  have version : (text "HTTP/1.1").length = 8 := by decide
  show (methodToString .get).length + 1 + (47 :: List.replicate letters 97).length + 1 +
    (text "HTTP/1.1").length + 2 = letters + 16
  rw [method, version, List.length_cons, List.length_replicate]
  omega

/-- The longest URL that survives with this method and version. -/
theorem request_round_trip_longest : (longRequest 4079).Survives true := by
  refine (request_round_trip_iff (longRequest 4079) (longRequest_sendable 4079)
    (by decide +kernel) true).mpr ?_
  rw [longRequest_size]
  decide

/-- A URL with one more letter does not survive. -/
theorem request_round_trip_fails : ¬ (longRequest 4080).Survives true := by
  refine (longRequest_sendable 4080).not_survives (by decide +kernel) ?_ true
  decide +kernel

end HttpRequest

end YYNet
