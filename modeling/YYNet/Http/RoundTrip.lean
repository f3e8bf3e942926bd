/-
This file proves what the decoders make of an encoded message.

An encoded message is a first line, header fields in lines of their own, the
empty line, and the body. The decoder finds the empty line, splits the header
into the same fields and takes the body by its length, whatever bytes follow. For
responses this is the round trip. For requests it is one as long as the request
line fits the array it is formatted in: from 4096 bytes on, its line end is lost,
the first header field is read as a part of the request line, and the headers
are not what they were.
-/

import YYNet.Http.Message

namespace YYNet

open Checked Storage

namespace HttpMsg

/-! ### The header of an encoded message -/

/-- A header field, without the line end. -/
def fieldText (field : List UInt8 × List UInt8) : List UInt8 :=
  field.1 ++ text ": " ++ field.2

/-- A field that is read as it is written: the name has no space and the value is trimmed, not
empty, and within a line. -/
structure Readable (field : List UInt8 × List UInt8) : Prop where
  noSpace : ∀ byte ∈ field.1, isSpace byte = false
  nonempty : field.2 ≠ []
  trimmed : Trimmed field.2
  inLine : InLine field.2

/-- The entry that a field makes. -/
def entryOf (field : List UInt8 × List UInt8) : List UInt8 × List UInt8 :=
  (field.1.map toLower, field.2)

/-- The lines of the header behind the first one, each with the line end before it. -/
def fieldLines (fields : List (List UInt8 × List UInt8)) : List UInt8 :=
  fields.flatMap fun field => crlf ++ fieldText field

theorem fieldLines_cons (field : List UInt8 × List UInt8)
    (fields : List (List UInt8 × List UInt8)) :
    fieldLines (field :: fields) = crlf ++ fieldText field ++ fieldLines fields :=
  List.flatMap_cons

theorem Readable.isWord {field : List UInt8 × List UInt8} (readable : Readable field) :
    IsWord (field.1 ++ [58]) := by
  refine ⟨by simp, fun byte member => ?_⟩
  rcases List.mem_append.mp member with inName | colon
  · exact readable.noSpace byte inName
  · rw [List.mem_singleton.mp colon]
    decide

theorem fieldText_eq (field : List UInt8 × List UInt8) :
    fieldText field = (field.1 ++ [58]) ++ (32 :: field.2) := by
  show field.1 ++ [58, 32] ++ field.2 = _
  simp

theorem Readable.inLine_text {field : List UInt8 × List UInt8} (readable : Readable field) :
    InLine (fieldText field) := by
  rw [fieldText_eq]
  refine readable.isWord.inLine.append fun byte member => ?_
  rcases List.mem_cons.mp member with rfl | inValue
  · decide
  · exact readable.inLine byte inValue

/-- One round of the loop over the fields. -/
theorem parseFields_field {field : List UInt8 × List UInt8} (readable : Readable field)
    {separator rest : List UInt8} (two : separator.length = 2)
    (stop : ∀ byte ∈ rest.head?, isLineEnd byte = true) (fuel : Nat) (headers : StringMap) :
    parseFields (fuel + 1) (separator ++ fieldText field ++ rest) headers =
      parseFields fuel rest (headers.set (entryOf field).1 (entryOf field).2) := by
  have shape : (separator ++ fieldText field ++ rest).drop 2 = fieldText field ++ rest := by
    rw [List.append_assoc, List.drop_left' two]
  have line : eatLine (fieldText field ++ rest) = (fieldText field, rest) :=
    eatLine_append readable.inLine_text stop
  have word : eatWord (fieldText field) = (field.1 ++ [58], 32 :: field.2) := by
    rw [fieldText_eq]
    exact eatWord_append readable.isWord (by simp [isSpace])
  have value : trimSpace (32 :: field.2) = field.2 := by
    rw [trimSpace_space]
    exact readable.trimmed
  have long : ¬ (separator ++ fieldText field ++ rest).length < 2 := by
    simp only [List.length_append]
    omega
  have nonempty : separator ++ fieldText field ++ rest ≠ [] := by
    intro empty
    rw [empty] at long
    simp at long
  rw [parseFields, if_neg nonempty, if_neg long, shape, line]
  simp only
  rw [word]
  simp only [value]
  rw [if_pos ⟨by simp, readable.nonempty, by simp⟩, List.dropLast_concat]
  rfl

/-- The lines end where the next one begins. -/
theorem head_fieldLines (fields : List (List UInt8 × List UInt8)) :
    ∀ byte ∈ (fieldLines fields).head?, isLineEnd byte = true := by
  intro byte first
  cases fields with
  | nil => cases first
  | cons field rest =>
    have same : some 13 = some byte := first
    rw [← Option.some.inj same]
    decide

/-- The loop reads all fields. -/
theorem parseFields_fieldLines {fields : List (List UInt8 × List UInt8)}
    (readable : ∀ field ∈ fields, Readable field) {fuel : Nat} (enough : fields.length ≤ fuel)
    (headers : StringMap) :
    parseFields fuel (fieldLines fields) headers =
      (true, headers.setAll (fields.map entryOf)) := by
  induction fields generalizing fuel headers with
  | nil =>
    cases fuel with
    | zero => rfl
    | succ fuel =>
      rw [fieldLines, List.flatMap_nil, parseFields, if_pos rfl]
      rfl
  | cons field rest inductionHypothesis =>
    obtain ⟨fuel, rfl⟩ : ∃ less, fuel = less + 1 :=
      ⟨fuel - 1, by rw [List.length_cons] at enough; omega⟩
    rw [fieldLines_cons,
      parseFields_field (readable field List.mem_cons_self) rfl (head_fieldLines rest),
      inductionHypothesis (fun other member => readable other (List.mem_cons_of_mem _ member))
        (by rw [List.length_cons] at enough; omega)]
    rfl

theorem length_le_fieldLines (fields : List (List UInt8 × List UInt8)) :
    fields.length ≤ (fieldLines fields).length := by
  induction fields with
  | nil => exact Nat.zero_le _
  | cons field rest inductionHypothesis =>
    rw [fieldLines_cons, List.length_cons]
    simp only [List.length_append, crlf, List.length_cons, List.length_nil]
    omega

/-! ### The end of the header -/

/-- The search passes a byte that is not a carriage return. -/
theorem seek_cons {byte : UInt8} (other : byte ≠ 13) {rest : List UInt8}
    (long : 3 ≤ rest.length) : seek (byte :: rest) = ((seek rest).1 + 1, (seek rest).2) := by
  have different : (byte :: rest).take 4 ≠ headerEnd := by
    intro same
    have first := congrArg List.head? same
    simp only [List.take_succ_cons, List.head?_cons] at first
    exact other (Option.some.inj first)
  rw [seek, if_neg (by rw [List.length_cons]; omega), if_neg different]

/-- The search passes a carriage return that is not followed by a newline. -/
theorem seek_return {byte : UInt8} (other : byte ≠ 10) {rest : List UInt8}
    (long : 2 ≤ rest.length) :
    seek (13 :: byte :: rest) = ((seek (byte :: rest)).1 + 1, (seek (byte :: rest)).2) := by
  have different : (13 :: byte :: rest).take 4 ≠ headerEnd := by
    intro same
    have second := congrArg (fun bytes => bytes[1]?) same
    simp only [List.take_succ_cons, List.getElem?_cons_succ, List.getElem?_cons_zero] at second
    exact other (Option.some.inj second)
  rw [seek, if_neg (by simp only [List.length_cons]; omega), if_neg different]

/-- The search passes a line end that is followed by another line. -/
theorem seek_crlf {byte : UInt8} (other : byte ≠ 13) {rest : List UInt8}
    (long : 3 ≤ rest.length) :
    seek (crlf ++ byte :: rest) = ((seek (byte :: rest)).1 + 2, (seek (byte :: rest)).2) := by
  have different : (13 :: 10 :: byte :: rest).take 4 ≠ headerEnd := by
    intro same
    have third := congrArg (fun bytes => bytes[2]?) same
    simp only [List.take_succ_cons, List.getElem?_cons_succ, List.getElem?_cons_zero] at third
    exact other (Option.some.inj third)
  show seek (13 :: 10 :: byte :: rest) = _
  rw [seek, if_neg (by simp only [List.length_cons]; omega), if_neg different,
    seek_cons (by decide) (by rw [List.length_cons]; omega)]

/-- The search passes a piece of a line. -/
theorem seek_inLine {line : List UInt8} (inLine : InLine line) {rest : List UInt8}
    (long : 3 ≤ rest.length) :
    seek (line ++ rest) = ((seek rest).1 + line.length, (seek rest).2) := by
  induction line with
  | nil => rfl
  | cons byte more inductionHypothesis =>
    have other : byte ≠ 13 := by
      rintro rfl
      exact Bool.noConfusion (inLine 13 List.mem_cons_self)
    rw [List.cons_append, seek_cons other (by rw [List.length_append]; omega),
      inductionHypothesis fun byte member => inLine byte (List.mem_cons_of_mem _ member)]
    refine Prod.ext ?_ rfl
    rw [List.length_cons]
    exact Nat.add_assoc _ _ _

/-- Lines, each with the line end before it. -/
def linesText (lines : List (List UInt8)) : List UInt8 :=
  lines.flatMap fun line => crlf ++ line

theorem fieldLines_eq (fields : List (List UInt8 × List UInt8)) :
    fieldLines fields = linesText (fields.map fieldText) := by
  unfold fieldLines linesText
  rw [List.flatMap_map]

/-- The marker is behind the last line. -/
theorem seek_linesText {lines : List (List UInt8)} (inLine : ∀ line ∈ lines, InLine line)
    (nonempty : ∀ line ∈ lines, line ≠ []) (rest : List UInt8) :
    seek (linesText lines ++ headerEnd ++ rest) = ((linesText lines).length, true) := by
  induction lines with
  | nil =>
    show seek (13 :: 10 :: 13 :: 10 :: rest) = (0, true)
    rw [seek, if_neg (by simp), if_pos (by rfl)]
  | cons line more inductionHypothesis =>
    have here := inLine line List.mem_cons_self
    have later := inductionHypothesis
      (fun other member => inLine other (List.mem_cons_of_mem _ member))
      (fun other member => nonempty other (List.mem_cons_of_mem _ member))
    have long : 3 ≤ (linesText more ++ headerEnd ++ rest).length := by
      simp only [List.length_append, headerEnd, crlf, List.length_cons, List.length_nil]
      omega
    obtain ⟨first, others, rfl⟩ := List.exists_cons_of_ne_nil (nonempty line List.mem_cons_self)
    have notReturn : first ≠ 13 := by
      rintro rfl
      exact Bool.noConfusion (here 13 List.mem_cons_self)
    have passed := seek_inLine here long
    rw [later] at passed
    have shape : linesText ((first :: others) :: more) = crlf ++ (first :: others) ++
        linesText more := List.flatMap_cons
    have whole : linesText ((first :: others) :: more) ++ headerEnd ++ rest =
        crlf ++ first :: (others ++ (linesText more ++ headerEnd ++ rest)) := by
      rw [shape]
      simp
    rw [whole, seek_crlf notReturn (by rw [List.length_append]; omega), ← List.cons_append, passed,
      shape]
    simp only [List.length_append, crlf, List.length_cons, List.length_nil]
    refine Prod.ext ?_ rfl
    simp only
    omega

/-- The marker is behind the last field. -/
theorem seek_fieldLines {fields : List (List UInt8 × List UInt8)}
    (readable : ∀ field ∈ fields, Readable field) (rest : List UInt8) :
    seek (fieldLines fields ++ headerEnd ++ rest) = ((fieldLines fields).length, true) := by
  rw [fieldLines_eq]
  refine seek_linesText (fun line member => ?_) (fun line member => ?_) rest
  · obtain ⟨field, isField, rfl⟩ := List.mem_map.mp member
    exact (readable field isField).inLine_text
  · obtain ⟨field, -, rfl⟩ := List.mem_map.mp member
    rw [fieldText_eq]
    simp

/-! ### The decoder on an encoded message -/

/-- The message when its header has been parsed. -/
def headed (msg : HttpMsg) (line1 : List UInt8) (fields : List (List UInt8 × List UInt8)) :
    HttpMsg :=
  { msg with
    headers := msg.headers.setAll (fields.map entryOf)
    contentLen := contentLenOf (msg.headers.setAll (fields.map entryOf))
    scanned := (line1 ++ fieldLines fields ++ headerEnd).length }

/-- The message when its body has been taken, too. -/
def taken (msg : HttpMsg) (front body : List UInt8) (copyBody : Bool) : HttpMsg :=
  { msg with
    body := if copyBody then body else msg.body
    bodyView := if copyBody then msg.bodyView else body
    complete := true
    scanned := (front ++ body).length }

/-- The body that was taken is the body of the message. -/
theorem taken_getBody {msg : HttpMsg} (noBody : msg.body = []) (noView : msg.bodyView = [])
    (front body : List UInt8) (copyBody : Bool) :
    (msg.taken front body copyBody).getBody = body := by
  cases copyBody with
  | false =>
    show (if body ≠ [] then body else msg.body) = body
    split
    · rfl
    · rename_i empty
      rw [noBody, not_not.mp empty]
  | true =>
    show (if msg.bodyView ≠ [] then msg.bodyView else body) = body
    rw [if_neg (not_not.mpr noView)]

/-- A header whose end is found and whose fields are well formed. -/
theorem decodeHeader_found {msg : HttpMsg} (start : msg.scanned = 0)
    {headerSlice rest line1 fields : List UInt8} {headers : StringMap}
    (found : seek (headerSlice ++ rest) = (headerSlice.length, true))
    (nonempty : headerSlice ≠ []) (line : eatLine headerSlice = (line1, fields))
    (parsed : parseFields fields.length fields msg.headers = (true, headers)) :
    msg.decodeHeader (headerSlice ++ rest) = .parsed { msg with
      headers := headers
      contentLen := contentLenOf headers
      scanned := headerSlice.length + 4 } line1 := by
  have looked : msg.look (headerSlice ++ rest) = { msg with scanned := headerSlice.length } := by
    unfold look
    rw [start, List.drop_zero, found, Nat.zero_add]
  unfold decodeHeader
  rw [looked, start, List.drop_zero, found, if_neg (by simpa using nonempty), List.take_left]
  unfold parseHeader
  rw [line]
  simp only
  rw [parsed]

/-- The header of a message that the decoder has not looked at yet. -/
theorem decodeHeader_lines {msg : HttpMsg} (start : msg.scanned = 0) {line1 : List UInt8}
    (nonempty : line1 ≠ []) (inLine : InLine line1) {fields : List (List UInt8 × List UInt8)}
    (readable : ∀ field ∈ fields, Readable field) (rest : List UInt8) :
    msg.decodeHeader (line1 ++ fieldLines fields ++ headerEnd ++ rest) =
      .parsed (msg.headed line1 fields) line1 := by
  have long : 3 ≤ (fieldLines fields ++ headerEnd ++ rest).length := by
    simp only [List.length_append, headerEnd, crlf, List.length_cons, List.length_nil]
    omega
  have found : seek ((line1 ++ fieldLines fields) ++ (headerEnd ++ rest)) =
      ((line1 ++ fieldLines fields).length, true) := by
    have passed := seek_inLine inLine long
    rw [seek_fieldLines readable rest] at passed
    rw [List.append_assoc, ← List.append_assoc (fieldLines fields), passed, List.length_append,
      Nat.add_comm]
  have header := decodeHeader_found start found (by simp [nonempty])
    (eatLine_append inLine (head_fieldLines fields))
    (parseFields_fieldLines readable (length_le_fieldLines fields) msg.headers)
  rw [List.append_assoc, header]
  simp only [headed, headerEnd, crlf, List.length_append, List.length_cons, List.length_nil]

/-- The body of a message that is all there. -/
theorem decodeBody_whole {msg : HttpMsg} {front body : List UInt8}
    (scanned : msg.scanned = front.length) (contentLen : msg.contentLen = body.length)
    (rest : List UInt8) (fits : (front ++ body ++ rest).length ≤ maxSize) (copyBody : Bool) :
    msg.decodeBody (front ++ body ++ rest) copyBody =
      .ok (.complete, msg.taken front body copyBody) := by
  have small : front.length + body.length ≤ maxSize := by
    simp only [List.length_append] at fits
    omega
  have bound := TcpBuffer.maxSize_lt_sizeModulus
  have ends : addSize msg.scanned msg.contentLen = (front ++ body).length := by
    rw [scanned, contentLen, addSize_of_lt (by omega), List.length_append]
  have needed : addSize msg.contentLen msg.scanned = (front ++ body).length := by
    rw [scanned, contentLen, addSize_of_lt (by omega), List.length_append, Nat.add_comm]
  have found : ((front ++ body ++ rest).drop msg.scanned).take msg.contentLen = body := by
    rw [scanned, contentLen, List.append_assoc, List.drop_left, List.take_left]
  unfold decodeBody
  rw [needed, if_neg (by simp only [List.length_append]; omega), if_neg (by omega), found, ends]
  cases copyBody <;> rfl

/-- The decoder on a message it has not looked at yet, whatever follows it. -/
theorem tryDecode_lines {msg : HttpMsg} (start : msg.scanned = 0) (unread : msg.contentLen = 0)
    (unfinished : msg.complete = false) {line1 : List UInt8} (nonempty : line1 ≠ [])
    (inLine : InLine line1) {fields : List (List UInt8 × List UInt8)}
    (readable : ∀ field ∈ fields, Readable field) {body : List UInt8}
    (contentLen : (msg.headed line1 fields).contentLen = body.length) (rest : List UInt8)
    (fits : (line1 ++ fieldLines fields ++ headerEnd ++ body ++ rest).length ≤ maxSize)
    (copyBody : Bool) :
    msg.tryDecode_ (line1 ++ fieldLines fields ++ headerEnd ++ body ++ rest) copyBody =
      .ok (.complete, (msg.headed line1 fields).taken
        (line1 ++ fieldLines fields ++ headerEnd) body copyBody, line1) := by
  have header := decodeHeader_lines start nonempty inLine readable (body ++ rest)
  rw [← List.append_assoc] at header
  have whole := decodeBody_whole (by rfl) contentLen rest fits copyBody
  have enough : ¬ (line1 ++ fieldLines fields ++ headerEnd ++ body ++ rest).length <
      addSize (msg.headed line1 fields).contentLen (msg.headed line1 fields).scanned := by
    intro short
    unfold decodeBody at whole
    rw [if_pos short] at whole
    cases whole
  unfold tryDecode_
  rw [unfinished, if_neg (by decide), if_neg (by simpa using unread), header]
  simp only
  rw [if_neg (fun both => enough both.1), whole]
  rfl

/-! ### The encoder -/

/-- The header fields of an encoded message: its own and the two automatic ones. -/
def allFields (msg : HttpMsg) : List (List UInt8 × List UInt8) :=
  msg.headers.entries ++ [(text "Connection", text "Keep-Alive"),
    (text "Content-Length", Decimal.text msg.getBody.length)]

/-- The headers with the two automatic ones. -/
def sentHeaders (msg : HttpMsg) : StringMap :=
  (msg.headers.set (text "connection") (text "Keep-Alive")).set (text "content-length")
    (Decimal.text msg.getBody.length)

/-- Headers that can be sent: the names are words in lower case other than the automatic ones, and
the values are trimmed, not empty, and within a line. -/
def Sendable (msg : HttpMsg) : Prop :=
  ∀ field ∈ msg.headers.entries, (IsWord field.1 ∧ field.1.map toLower = field.1) ∧
    (field.1 ≠ text "connection" ∧ field.1 ≠ text "content-length") ∧
    field.2 ≠ [] ∧ Trimmed field.2 ∧ InLine field.2

instance (msg : HttpMsg) : Decidable msg.Sendable :=
  inferInstanceAs (Decidable (∀ field ∈ msg.headers.entries, _))

theorem fieldLine_eq (field : List UInt8 × List UInt8) :
    fieldLine field = fieldText field ++ crlf :=
  rfl

/-- Lines with their ends behind them and in front of them. -/
theorem crlf_append_fieldLine (fields : List (List UInt8 × List UInt8)) :
    crlf ++ fields.flatMap fieldLine = fieldLines fields ++ crlf := by
  induction fields with
  | nil => rfl
  | cons field rest inductionHypothesis =>
    rw [List.flatMap_cons, fieldLines_cons, fieldLine_eq, List.append_assoc (fieldText field),
      inductionHypothesis]
    simp only [List.append_assoc]

/-- The encoder writes the lines of the header and the body. -/
theorem encodeBehind_eq {msg : HttpMsg} (small : msg.getBody.length < 2 ^ 64)
    (line1 : List UInt8) :
    (msg.encodeBehind line1 []).2 =
      line1 ++ msg.allFields.flatMap fieldLine ++ crlf ++ msg.getBody := by
  have short := Decimal.length_text_le (by decide) (small.trans (by decide : 2 ^ 64 < 10 ^ 20))
  have printed : snprintf tmpSize (text "Content-Length: " ++ Decimal.text msg.getBody.length ++
      crlf) = fieldLine (text "Content-Length", Decimal.text msg.getBody.length) := by
    rw [snprintf_of_lt]
    · rfl
    · have name : (text "Content-Length: ").length = 16 := by decide
      simp only [List.length_append, name, crlf, tmpSize, List.length_cons, List.length_nil]
      omega
  have connection : text "Connection: Keep-Alive\r\n" =
      fieldLine (text "Connection", text "Keep-Alive") := by decide
  unfold encodeBehind allFields
  rw [printed, connection]
  simp only [List.nil_append, List.flatMap_append, List.flatMap_cons, List.flatMap_nil,
    List.append_nil, List.append_assoc]

/-- The encoded message behind a first line with its end. -/
theorem encodeBehind_lines {msg : HttpMsg} (small : msg.getBody.length < 2 ^ 64)
    (line1 : List UInt8) :
    (msg.encodeBehind (line1 ++ crlf) []).2 =
      line1 ++ fieldLines msg.allFields ++ headerEnd ++ msg.getBody := by
  rw [encodeBehind_eq small, List.append_assoc line1, crlf_append_fieldLine, headerEnd]
  simp only [List.append_assoc]

/-- The two automatic fields. -/
def automatic (msg : HttpMsg) : List (List UInt8 × List UInt8) :=
  [(text "Connection", text "Keep-Alive"),
    (text "Content-Length", Decimal.text msg.getBody.length)]

theorem automatic_readable (msg : HttpMsg) : ∀ field ∈ msg.automatic, Readable field := by
  intro field member
  rcases List.mem_cons.mp member with rfl | contentLength
  · exact ⟨by decide +kernel, by decide +kernel, by decide +kernel, by decide +kernel⟩
  · obtain rfl := List.mem_singleton.mp contentLength
    have isWord := isWord_text msg.getBody.length
    have named : ∀ byte ∈ text "Content-Length", isSpace byte = false := by decide +kernel
    exact ⟨named, isWord.1, isWord.trimmed, isWord.inLine⟩

theorem Sendable.readable {msg : HttpMsg} (sendable : msg.Sendable) :
    ∀ field ∈ msg.allFields, Readable field := by
  intro field member
  rcases List.mem_append.mp member with own | automatic
  · obtain ⟨⟨isWord, -⟩, -, nonempty, trimmed, inLine⟩ := sendable field own
    exact ⟨isWord.2, nonempty, trimmed, inLine⟩
  · exact msg.automatic_readable field automatic

/-- The fields make the headers that were sent. -/
theorem Sendable.setAll {msg : HttpMsg} (sendable : msg.Sendable) :
    OrderedMap.empty.setAll (msg.allFields.map entryOf) = msg.sentHeaders := by
  have same : msg.headers.entries.map entryOf = msg.headers.entries := by
    conv_rhs => rw [← List.map_id msg.headers.entries]
    refine List.map_congr_left fun field member => ?_
    obtain ⟨⟨-, lower⟩, -⟩ := sendable field member
    exact Prod.ext lower rfl
  unfold allFields
  rw [List.map_append, OrderedMap.setAll_append, same, OrderedMap.setAll_entries]
  rfl

theorem contentLenOf_sentHeaders {msg : HttpMsg} (small : msg.getBody.length < 2 ^ 63) :
    contentLenOf msg.sentHeaders = msg.getBody.length := by
  unfold contentLenOf sentHeaders
  rw [OrderedMap.find_set, if_pos rfl]
  simp only [Option.getD_some]
  rw [if_neg (Decimal.text_ne_nil _), atollSize_text small]

end HttpMsg

namespace HttpResponse

/-! ### Responses -/

/-- The status line, without its end. -/
def statusLine (resp : HttpResponse) : List UInt8 :=
  resp.version ++ text " " ++ formatInt resp.status ++ text " " ++ resp.statusMsg

/-- A response that can be sent: sendable headers, a version that is a word, a trimmed status
message within a line, no null in either, and a status line that fits its array. -/
structure Sendable (resp : HttpResponse) : Prop where
  headers : resp.toHttpMsg.Sendable
  version : IsWord resp.version ∧ 0 ∉ resp.version
  statusMsg : Trimmed resp.statusMsg ∧ InLine resp.statusMsg ∧ 0 ∉ resp.statusMsg
  short : (resp.statusLine ++ crlf).length < HttpMsg.tmpSize

/-- The bytes of an encoded response in front of its body. -/
def sentHeader (resp : HttpResponse) : List UInt8 :=
  resp.statusLine ++ HttpMsg.fieldLines resp.allFields ++ headerEnd

/-- The encoded response: `encode` into an empty string. -/
def encoded (resp : HttpResponse) : List UInt8 := (resp.encode []).2

/-- What the decoder has of a response when it has read the header. -/
def headed (resp : HttpResponse) : HttpResponse where
  toHttpMsg := { HttpMsg.cleared.headed resp.statusLine resp.allFields with
    version := resp.version }
  status := resp.status
  statusMsg := resp.statusMsg

/-- What the decoder makes of a response. -/
def received (resp : HttpResponse) (copyBody : Bool) : HttpResponse :=
  { resp.headed with toHttpMsg := resp.headed.taken resp.sentHeader resp.getBody copyBody }

theorem statusLine_ne_nil (resp : HttpResponse) : resp.statusLine ≠ [] := by
  unfold statusLine
  simp [text]

theorem Sendable.inLine {resp : HttpResponse} (sendable : resp.Sendable) :
    InLine resp.statusLine := by
  exact (((sendable.version.1.inLine.append inLine_space).append
    (isWord_formatInt resp.status).inLine).append inLine_space).append sendable.statusMsg.2.1

theorem Sendable.encoded_eq {resp : HttpResponse} (sendable : resp.Sendable)
    (small : resp.getBody.length < 2 ^ 64) : resp.encoded = resp.sentHeader ++ resp.getBody := by
  unfold encoded encode
  rw [cStr_of_not_mem sendable.version.2, cStr_of_not_mem sendable.statusMsg.2.2, ← statusLine,
    snprintf_of_lt sendable.short, HttpMsg.encodeBehind_lines small]
  rfl

/-- The status line is read back, whatever follows it in the buffer. -/
theorem Sendable.readStatusLine {resp : HttpResponse} (sendable : resp.Sendable)
    (decoded : HttpResponse) (rest : List UInt8) :
    decoded.readStatusLine (resp.statusLine ++ rest) resp.statusLine =
      { decoded with
        version := resp.version
        status := resp.status
        statusMsg := resp.statusMsg } := by
  have space : ∀ piece : List UInt8, ∀ byte ∈ (32 :: piece).head?, isSpace byte = true := by
    simp [isSpace]
  have shape : resp.statusLine =
      resp.version ++ (32 :: (formatInt resp.status ++ (32 :: resp.statusMsg))) := by
    unfold statusLine
    simp [text]
  have version : eatWord resp.statusLine =
      (resp.version, 32 :: (formatInt resp.status ++ (32 :: resp.statusMsg))) := by
    rw [shape]
    exact eatWord_append sendable.version.1 (space _)
  have status : eatWord (32 :: (formatInt resp.status ++ (32 :: resp.statusMsg))) =
      (formatInt resp.status, 32 :: resp.statusMsg) := by
    rw [eatWord_space]
    exact eatWord_append (isWord_formatInt resp.status) (space _)
  have start : (32 :: (formatInt resp.status ++ (32 :: resp.statusMsg))).dropWhile isSpace =
      formatInt resp.status ++ (32 :: resp.statusMsg) := by
    rw [List.dropWhile_cons_of_pos (by decide), dropWhile_isSpace_word (isWord_formatInt _)]
  have pointer : (resp.statusLine ++ rest).drop (resp.statusLine.length -
      (formatInt resp.status ++ (32 :: resp.statusMsg)).length) =
        formatInt resp.status ++ (32 :: (resp.statusMsg ++ rest)) := by
    have front : resp.statusLine.length - (formatInt resp.status ++ (32 :: resp.statusMsg)).length =
        (resp.version ++ [32]).length := by
      rw [shape]
      simp only [List.length_append, List.length_cons, List.length_nil]
      omega
    have whole : resp.statusLine ++ rest = (resp.version ++ [32]) ++
        (formatInt resp.status ++ (32 :: (resp.statusMsg ++ rest))) := by
      rw [shape]
      simp
    rw [front, whole, List.drop_left]
  have message : trimSpace (32 :: resp.statusMsg) = resp.statusMsg := by
    rw [trimSpace_space]
    exact sendable.statusMsg.1
  unfold HttpResponse.readStatusLine
  rw [version]
  simp only
  rw [start, pointer, status]
  simp only
  rw [message, atoi_formatInt resp.status (by simp [Decimal.isDigit])]

theorem getBody_lt {resp : HttpResponse} (fits : resp.encoded.length ≤ maxSize) :
    resp.getBody.length < 2 ^ 63 :=
  HttpMsg.getBody_lt fits

theorem Sendable.decodeHeader {resp : HttpResponse} (sendable : resp.Sendable)
    (rest : List UInt8) :
    HttpMsg.cleared.decodeHeader (resp.sentHeader ++ rest) =
      .parsed (HttpMsg.cleared.headed resp.statusLine resp.allFields) resp.statusLine :=
  HttpMsg.decodeHeader_lines rfl (statusLine_ne_nil resp) sendable.inLine
    sendable.headers.readable rest

theorem Sendable.headed_contentLen {resp : HttpResponse} (sendable : resp.Sendable)
    (small : resp.getBody.length < 2 ^ 63) : resp.headed.contentLen = resp.getBody.length := by
  show HttpMsg.contentLenOf (OrderedMap.empty.setAll _) = _
  rw [sendable.headers.setAll, HttpMsg.contentLenOf_sentHeaders small]

/-- Encoding a response and decoding what was encoded, with any bytes behind it. -/
theorem Sendable.tryDecode {resp : HttpResponse} (sendable : resp.Sendable)
    (rest behind : List UInt8) (fits : (resp.encoded ++ rest).length ≤ maxSize) (copyBody : Bool) :
    cleared.tryDecode (resp.encoded ++ rest) behind copyBody =
      .ok (.complete, resp.received copyBody) := by
  have small : resp.getBody.length < 2 ^ 63 := getBody_lt (le_trans (by simp) fits)
  have contentLen := sendable.headed_contentLen small
  rw [sendable.encoded_eq (by omega)] at fits ⊢
  have decoded : cleared.toHttpMsg.tryDecode_ (resp.sentHeader ++ resp.getBody ++ rest) copyBody =
      .ok (.complete, (HttpMsg.cleared.headed resp.statusLine resp.allFields).taken
        resp.sentHeader resp.getBody copyBody, resp.statusLine) :=
    HttpMsg.tryDecode_lines rfl rfl rfl (statusLine_ne_nil resp) sendable.inLine
      sendable.headers.readable contentLen rest fits copyBody
  have whole : resp.sentHeader ++ resp.getBody ++ rest ++ behind = resp.statusLine ++
      (HttpMsg.fieldLines resp.allFields ++ headerEnd ++ resp.getBody ++ rest ++ behind) := by
    unfold sentHeader
    simp only [List.append_assoc]
  unfold HttpResponse.tryDecode
  rw [decoded, ok_bind]
  simp only
  rw [if_neg (statusLine_ne_nil resp), whole, sendable.readStatusLine]
  rfl

/-- For every response that can be sent and every bytes behind it, in the piece and in memory, the
decoder takes exactly the encoded response and returns the same version, status, status message
and body, and the headers with the two automatic ones. The bytes are an array, which has at most
`maxSize` bytes. -/
theorem response_round_trip (resp : HttpResponse) (sendable : resp.Sendable)
    (rest behind : List UInt8) (fits : (resp.encoded ++ rest).length ≤ maxSize) (copyBody : Bool) :
    ∃ decoded, cleared.tryDecode (resp.encoded ++ rest) behind copyBody =
        .ok (.complete, decoded) ∧
      decoded.version = resp.version ∧ decoded.status = resp.status ∧
      decoded.statusMsg = resp.statusMsg ∧ decoded.getBody = resp.getBody ∧
      decoded.headers = resp.sentHeaders ∧ decoded.getByte = resp.encoded.length := by
  have small : resp.getBody.length < 2 ^ 63 := getBody_lt (le_trans (by simp) fits)
  refine ⟨resp.received copyBody, sendable.tryDecode rest behind fits copyBody, rfl, rfl, rfl,
    HttpMsg.taken_getBody rfl rfl _ _ copyBody, sendable.headers.setAll, ?_⟩
  rw [sendable.encoded_eq (by omega)]
  rfl

/-- A negative status, a value with a space, and the marker of the header in the body. -/
def oddResponse : HttpResponse :=
  { cleared with
    headers := OrderedMap.empty.set (text "x") (text "a b")
    body := headerEnd
    status := -7
    statusMsg := text "Not Found" }

theorem response_round_trip_odd :
    oddResponse.encoded = text "HTTP/1.1 -7 Not Found\r\nx: a b\r\nConnection: Keep-Alive\r\n" ++
      text "Content-Length: 4\r\n\r\n\r\n\r\n" ∧
    ∃ decoded, cleared.tryDecode (oddResponse.encoded ++ text "HTTP") (text "7") true =
        .ok (.complete, decoded) ∧
      decoded.version = oddResponse.version ∧ decoded.status = oddResponse.status ∧
      decoded.statusMsg = oddResponse.statusMsg ∧ decoded.getBody = oddResponse.getBody ∧
      decoded.headers = oddResponse.sentHeaders ∧
      decoded.getByte = oddResponse.encoded.length := by
  have sendable : oddResponse.Sendable :=
    ⟨by decide +kernel, by decide +kernel, by decide +kernel, by decide +kernel⟩
  exact ⟨by decide,
    response_round_trip oddResponse sendable (text "HTTP") (text "7") (by decide +kernel) true⟩

end HttpResponse

end YYNet
