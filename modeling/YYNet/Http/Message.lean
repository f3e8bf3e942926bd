/-
This file models HTTP messages: the message class with its incremental decoder,
and requests and responses with their encoders and decoders.

A decoder is called again and again on a growing buffer. It remembers how far it
has looked for the empty line that ends the header, and once it has the header,
how long the body is. An encoder formats the first line through an array of 4096
bytes and appends everything else to a string.

The lemmas are about a buffer that grows: what the decoder has found in a buffer
it finds in every longer one, and resuming a search is the same as starting it
again.
-/

import YYNet.Lib.OrderedMap
import YYNet.Common.StringPiece
import YYNet.Net.TcpBuffer

namespace YYNet

open Checked Storage

/-! ### Messages -/

inductive ParseResult
  | error
  | complete
  | notComplete
  | continue100
  deriving DecidableEq, Repr

/-- `std::map<std::string,std::string>`. -/
abbrev StringMap := OrderedMap (List UInt8) (List UInt8)

/-- `HttpMsg`. A view is modelled by the bytes it shows. -/
structure HttpMsg where
  headers : StringMap
  version : List UInt8
  body : List UInt8
  bodyView : List UInt8
  complete : Bool
  contentLen : Nat
  scanned : Nat
  deriving DecidableEq

def crlf : List UInt8 := [13, 10]

/-- The marker behind the header, `"\r\n\r\n"`. -/
def headerEnd : List UInt8 := crlf ++ crlf

namespace HttpMsg

/-- What `clear` leaves, and the constructor. -/
def cleared : HttpMsg where
  headers := OrderedMap.empty
  version := text "HTTP/1.1"
  body := []
  bodyView := []
  complete := false
  contentLen := 0
  scanned := 0

def getHeader (msg : HttpMsg) (name : List UInt8) : List UInt8 :=
  (msg.headers.find name).getD []

def getBody (msg : HttpMsg) : List UInt8 :=
  if msg.bodyView ≠ [] then msg.bodyView else msg.body

def getByte (msg : HttpMsg) : Nat := msg.scanned

/-! ### The decoder -/

/-- The search for the marker, from `scanned_` on: by how much `scanned_` grows, and whether the
marker is there. -/
def seek : List UInt8 → Nat × Bool
  | [] => (0, false)
  | byte :: rest =>
    if (byte :: rest).length < 4 then (0, false)
    else if (byte :: rest).take 4 = headerEnd then (0, true)
    else ((seek rest).1 + 1, (seek rest).2)

/-- The loop over the header fields, on what is left of the header. It returns whether all of
them are well formed, and the headers. `eat(2)` leaves a piece of one byte behind its end, where
it is neither empty nor has a line. -/
def parseFields : Nat → List UInt8 → StringMap → Bool × StringMap
  | 0, slice, headers => (slice.isEmpty, headers)
  | fuel + 1, slice, headers =>
    if slice = [] then (true, headers)
    else if slice.length < 2 then (false, headers)
    else
      let (line, rest) := eatLine (slice.drop 2)
      let (key, tail) := eatWord line
      let value := trimSpace tail
      if key ≠ [] ∧ value ≠ [] ∧ key.getLast? = some 58 then
        parseFields fuel rest (headers.set (key.dropLast.map toLower) value)
      else if key = [] ∧ value = [] ∧ rest = [] then (true, headers)
      else (false, headers)

/-- What became of the header: its end is not there, it is malformed, or it is parsed. -/
inductive Header
  | missing (msg : HttpMsg)
  | malformed (msg : HttpMsg) (line1 : List UInt8)
  | parsed (msg : HttpMsg) (line1 : List UInt8)
  deriving DecidableEq

/-- `contentLen_` of a message with some headers. -/
def contentLenOf (headers : StringMap) : Nat :=
  let contentLenStr := (headers.find (text "content-length")).getD []
  if contentLenStr = [] then 0 else atollSize contentLenStr

/-- Parse the header, when its end has been found. -/
def parseHeader (msg : HttpMsg) (headerSlice : List UInt8) : Header :=
  let (line1, fields) := eatLine headerSlice
  match parseFields fields.length fields msg.headers with
  | (false, headers) => .malformed { msg with headers := headers } line1
  | (true, headers) =>
    .parsed { msg with
      headers := headers
      contentLen := contentLenOf headers
      scanned := msg.scanned + 4 } line1

/-- The message after the search for the marker. -/
def look (msg : HttpMsg) (buf : List UInt8) : HttpMsg :=
  { msg with scanned := msg.scanned + (seek (buf.drop msg.scanned)).1 }

/-- The part of `tryDecode_` that finds and parses the header. -/
def decodeHeader (msg : HttpMsg) (buf : List UInt8) : Header :=
  if (seek (buf.drop msg.scanned)).2 = false ∨ (msg.look buf).scanned = 0 then
    .missing (msg.look buf)
  else (msg.look buf).parseHeader (buf.take (msg.look buf).scanned)

/-- The part of `tryDecode_` that parses the body. A string refuses to take more than its
`max_size()`, and a view of that size leaves the buffer. -/
def decodeBody (msg : HttpMsg) (buf : List UInt8) (copyBody : Bool) :
    Except Fault (ParseResult × HttpMsg) :=
  if buf.length < addSize msg.contentLen msg.scanned then return (.notComplete, msg)
  else if maxSize < msg.contentLen then throw (if copyBody then .lengthError else .outOfBounds)
  else
    let found := (buf.drop msg.scanned).take msg.contentLen
    let read := if copyBody then { msg with body := found } else { msg with bodyView := found }
    return (.complete, { read with
      complete := true, scanned := addSize msg.scanned msg.contentLen })

/-- `tryDecode_`, with the line that it stores in `line1`. -/
def tryDecode_ (msg : HttpMsg) (buf : List UInt8) (copyBody : Bool) :
    Except Fault (ParseResult × HttpMsg × List UInt8) :=
  if msg.complete then return (.complete, msg, [])
  else if msg.contentLen ≠ 0 then do
    let (result, decoded) ← msg.decodeBody buf copyBody
    return (result, decoded, [])
  else
    match msg.decodeHeader buf with
    | .missing looked => return (.notComplete, looked, [])
    | .malformed looked line1 => return (.error, looked, line1)
    | .parsed looked line1 =>
      if buf.length < addSize looked.contentLen looked.scanned ∧
          looked.getHeader (text "expect") ≠ [] then return (.continue100, looked, line1)
      else do
        let (result, decoded) ← looked.decodeBody buf copyBody
        return (result, decoded, line1)

/-! ### A buffer that grows -/

theorem seek_le (bytes : List UInt8) : (seek bytes).1 ≤ bytes.length := by
  induction bytes with
  | nil => exact Nat.zero_le _
  | cons byte rest inductionHypothesis =>
    rw [seek]
    split
    · exact Nat.zero_le _
    · split
      · exact Nat.zero_le _
      · exact Nat.succ_le_succ inductionHypothesis

theorem seek_found_le {bytes : List UInt8} (found : (seek bytes).2 = true) :
    (seek bytes).1 + 4 ≤ bytes.length := by
  induction bytes with
  | nil => cases found
  | cons byte rest inductionHypothesis =>
    rw [seek] at found ⊢
    split
    · rename_i short
      rw [if_pos short] at found
      cases found
    · rename_i long
      rw [if_neg long] at found
      split
      · omega
      · rename_i other
        rw [if_neg other] at found
        have := inductionHypothesis found
        simp only [List.length_cons]
        omega

/-- A marker that was found is found again. -/
theorem seek_append_found {bytes : List UInt8} (found : (seek bytes).2 = true)
    (more : List UInt8) : seek (bytes ++ more) = seek bytes := by
  induction bytes with
  | nil => cases found
  | cons byte rest inductionHypothesis =>
    rw [List.cons_append, seek, seek]
    rw [seek] at found
    by_cases short : (byte :: rest).length < 4
    · rw [if_pos short] at found
      cases found
    · rw [if_neg short] at found ⊢
      have same : (byte :: (rest ++ more)).take 4 = (byte :: rest).take 4 := by
        rw [← List.cons_append, List.take_append_of_le_length (by omega)]
      rw [if_neg (by simp only [List.length_cons, List.length_append] at short ⊢; omega), same]
      split
      · rfl
      · rename_i other
        rw [if_neg other] at found
        rw [inductionHypothesis found]

/-- A search that found nothing goes on where it stopped. -/
theorem seek_append_missing {bytes : List UInt8} (missing : (seek bytes).2 = false)
    (more : List UInt8) :
    seek (bytes ++ more) =
      ((seek ((bytes ++ more).drop (seek bytes).1)).1 + (seek bytes).1,
        (seek ((bytes ++ more).drop (seek bytes).1)).2) := by
  induction bytes with
  | nil => rfl
  | cons byte rest inductionHypothesis =>
    rw [seek] at missing
    by_cases short : (byte :: rest).length < 4
    · have stopped : seek (byte :: rest) = (0, false) := by rw [seek, if_pos short]
      rw [stopped]
      rfl
    · rw [if_neg short] at missing
      have same : (byte :: (rest ++ more)).take 4 = (byte :: rest).take 4 := by
        rw [← List.cons_append, List.take_append_of_le_length (by omega)]
      by_cases here : (byte :: rest).take 4 = headerEnd
      · rw [if_pos here] at missing
        cases missing
      · rw [if_neg here] at missing
        have stopped : seek (byte :: rest) = ((seek rest).1 + 1, (seek rest).2) := by
          rw [seek, if_neg short, if_neg here]
        have longer : seek (byte :: (rest ++ more)) =
            ((seek (rest ++ more)).1 + 1, (seek (rest ++ more)).2) := by
          rw [seek, if_neg (by simp only [List.length_cons, List.length_append] at short ⊢; omega),
            same, if_neg here]
        rw [List.cons_append, longer, stopped, inductionHypothesis missing]
        rfl

theorem parseHeader_ne_missing (msg looked : HttpMsg) (headerSlice : List UInt8) :
    msg.parseHeader headerSlice ≠ .missing looked := by
  unfold parseHeader
  simp only
  split <;> exact Header.noConfusion

/-- The stored line is the first line of the header. -/
theorem line_of_parseHeader {msg looked : HttpMsg} {headerSlice line1 : List UInt8}
    (parses : msg.parseHeader headerSlice = .malformed looked line1 ∨
      msg.parseHeader headerSlice = .parsed looked line1) : line1 = (eatLine headerSlice).1 := by
  unfold parseHeader at parses
  simp only at parses
  rcases parses with malformed | parsed
  · split at malformed
    · exact (Header.malformed.inj malformed).2.symm
    · cases malformed
  · split at parsed
    · cases parsed
    · exact (Header.parsed.inj parsed).2.symm

/-- A header that is not missing was found. -/
theorem seek_of_decodeHeader {msg : HttpMsg} {buf : List UInt8}
    (found : ∀ looked, msg.decodeHeader buf ≠ .missing looked) :
    (seek (buf.drop msg.scanned)).2 = true ∧ (msg.look buf).scanned ≠ 0 := by
  by_contra missing
  refine found (msg.look buf) (if_pos ?_)
  rw [not_and_or, Bool.not_eq_true, not_not] at missing
  exact missing

/-- A header that was parsed lies inside the buffer, with its end. -/
theorem scanned_of_decodeHeader {msg parsed : HttpMsg} {buf line1 : List UInt8}
    (header : msg.decodeHeader buf = .parsed parsed line1) : parsed.scanned ≤ buf.length := by
  obtain ⟨found, somewhere⟩ := seek_of_decodeHeader fun looked missing => by
    rw [missing] at header
    cases header
  have bound := seek_found_le found
  rw [List.length_drop] at bound
  have inside : (msg.look buf).scanned + 4 ≤ buf.length := by
    show msg.scanned + (seek (buf.drop msg.scanned)).1 + 4 ≤ buf.length
    omega
  unfold decodeHeader at header
  rw [if_neg (by simp [found, somewhere])] at header
  unfold parseHeader at header
  simp only at header
  split at header
  · cases header
  · cases header
    exact inside

/-- A header that was found is found again. -/
theorem decodeHeader_append {msg : HttpMsg} {buf : List UInt8}
    (found : ∀ looked, msg.decodeHeader buf ≠ .missing looked) (more : List UInt8) :
    msg.decodeHeader (buf ++ more) = msg.decodeHeader buf := by
  obtain ⟨isFound, -⟩ := seek_of_decodeHeader found
  have bound := seek_found_le isFound
  rw [List.length_drop] at bound
  have longer : seek ((buf ++ more).drop msg.scanned) = seek (buf.drop msg.scanned) := by
    rw [List.drop_append_of_le_length (by omega)]
    exact seek_append_found isFound more
  have same : msg.look (buf ++ more) = msg.look buf := by
    unfold look
    rw [longer]
  have inside : (msg.look buf).scanned ≤ buf.length := by
    show msg.scanned + (seek (buf.drop msg.scanned)).1 ≤ buf.length
    omega
  unfold decodeHeader
  rw [longer, same, List.take_append_of_le_length inside]

/-- Looking for the header again from where the search stopped is looking for it from the
start. -/
theorem decodeHeader_resume {msg looked : HttpMsg} {buf : List UInt8}
    (inside : msg.scanned ≤ buf.length) (missing : msg.decodeHeader buf = .missing looked)
    (more : List UInt8) : looked.decodeHeader (buf ++ more) = msg.decodeHeader (buf ++ more) := by
  unfold decodeHeader at missing
  split at missing
  · rename_i stopped
    obtain rfl := Header.missing.inj missing
    rcases stopped with nothing | atFront
    · have dropped : (buf ++ more).drop msg.scanned = buf.drop msg.scanned ++ more :=
        List.drop_append_of_le_length inside
      have further : (buf ++ more).drop (msg.look buf).scanned =
          (buf.drop msg.scanned ++ more).drop (seek (buf.drop msg.scanned)).1 := by
        rw [← dropped, List.drop_drop]
        rfl
      have resumed := seek_append_missing nothing more
      have same : (msg.look buf).look (buf ++ more) = msg.look (buf ++ more) := by
        unfold look at further ⊢
        simp only at further ⊢
        rw [further, dropped, resumed]
        simp only [Nat.add_assoc, Nat.add_comm (seek (buf.drop msg.scanned)).1]
      unfold decodeHeader
      rw [same, further, dropped, resumed]
    · have unmoved : msg.look buf = msg := by
        have : msg.scanned + (seek (buf.drop msg.scanned)).1 = 0 := atFront
        unfold look
        rw [this, show 0 = msg.scanned by omega]
      rw [unmoved]
  · exact absurd missing (parseHeader_ne_missing _ _ _)

/-! ### The encoder -/

/-- `sizeof(tmp)`. -/
def tmpSize : Nat := 4096

/-- One header field as it is written. -/
def fieldLine (field : List UInt8 × List UInt8) : List UInt8 :=
  field.1 ++ text ": " ++ field.2 ++ crlf

/-- The two encoders behind their first line: the header fields, the two automatic ones, and the
body. They return the number of bytes as an `int`. -/
def encodeBehind (msg : HttpMsg) (line1 buf : List UInt8) : Int32 × List UInt8 :=
  let encoded := line1 ++ msg.headers.entries.flatMap fieldLine ++
    text "Connection: Keep-Alive\r\n" ++
    snprintf tmpSize (text "Content-Length: " ++ Decimal.text msg.getBody.length ++ crlf) ++
    crlf ++ msg.getBody
  (Int32.ofNat encoded.length, buf ++ encoded)

/-- A body that is part of an array. -/
theorem getBody_lt {msg : HttpMsg} {line1 buf : List UInt8}
    (fits : (msg.encodeBehind line1 buf).2.length ≤ maxSize) : msg.getBody.length < 2 ^ 63 := by
  have inside : msg.getBody.length ≤ (msg.encodeBehind line1 buf).2.length := by
    unfold encodeBehind
    simp only [List.length_append]
    omega
  have bound := TcpBuffer.maxSize_lt
  omega

end HttpMsg

/-! ### Responses -/

/-- `HttpResponse`. A `Status` is any `int`. -/
structure HttpResponse extends HttpMsg where
  status : Int32
  statusMsg : List UInt8
  deriving DecidableEq

namespace HttpResponse

/-- What `clear` leaves, and the constructor. -/
def cleared : HttpResponse where
  toHttpMsg := HttpMsg.cleared
  status := 200
  statusMsg := text "OK"

def encode (resp : HttpResponse) (buf : List UInt8) : Int32 × List UInt8 :=
  resp.encodeBehind (snprintf HttpMsg.tmpSize (cStr resp.version ++ text " " ++
    formatInt resp.status ++ text " " ++ cStr resp.statusMsg ++ crlf)) buf

/-- The status line. The second word is handed to `atoi` as a pointer into the memory that begins
with the line, and `atoi` knows no end of the line or of the piece. -/
def readStatusLine (resp : HttpResponse) (memory line1 : List UInt8) : HttpResponse :=
  let (version, behind) := eatWord line1
  let pointer := line1.length - (behind.dropWhile isSpace).length
  let (_, message) := eatWord behind
  { resp with
    version := version
    status := atoi (memory.drop pointer)
    statusMsg := trimSpace message }

/-- `tryDecode` of a piece of memory, with the bytes that are in memory behind the piece. -/
def tryDecode (resp : HttpResponse) (buf behind : List UInt8) (copyBody : Bool) :
    Except Fault (ParseResult × HttpResponse) := do
  let (result, msg, line1) ← resp.toHttpMsg.tryDecode_ buf copyBody
  let decoded := { resp with toHttpMsg := msg }
  return (result, if line1 = [] then decoded else decoded.readStatusLine (buf ++ behind) line1)

end HttpResponse

/-! ### Requests -/

inductive Method
  | unknown
  | get
  | post
  | put
  | delete
  | head
  deriving DecidableEq, Repr

/-- `HttpRequest`. -/
structure HttpRequest extends HttpMsg where
  method : Method
  url : List UInt8
  queryUrl : List UInt8
  args : StringMap
  deriving DecidableEq

namespace HttpRequest

/-- What `clear` leaves, and the constructor. -/
def cleared : HttpRequest where
  toHttpMsg := HttpMsg.cleared
  method := .unknown
  url := []
  queryUrl := []
  args := OrderedMap.empty

def methodToString : Method → List UInt8
  | .get => text "GET"
  | .post => text "POST"
  | .put => text "PUT"
  | .delete => text "DELETE"
  | .head => text "HEAD"
  | .unknown => text "UNKNOWN"

def stringToMethod (string : List UInt8) : Method :=
  if string = text "GET" then .get
  else if string = text "POST" then .post
  else if string = text "PUT" then .put
  else if string = text "DELETE" then .delete
  else if string = text "HEAD" then .head
  else .unknown

/-- The loop over the arguments of a query, on what is left of the query. -/
def parseArgs : Nat → List UInt8 → StringMap → StringMap
  | 0, _, args => args
  | fuel + 1, query, args =>
    if query = [] ∨ 61 ∉ query then args
    else
      let key := query.takeWhile (· ≠ 61)
      let behind := (query.dropWhile (· ≠ 61)).tail
      let value := behind.takeWhile (· ≠ 38)
      parseArgs fuel (behind.dropWhile (· ≠ 38)).tail (args.set key value)

def parseUrlParams (req : HttpRequest) : HttpRequest :=
  if 63 ∈ req.queryUrl then
    let query := (req.queryUrl.dropWhile (· ≠ 63)).tail
    { req with
      url := req.queryUrl.takeWhile (· ≠ 63)
      args := parseArgs query.length query req.args }
  else { req with url := req.queryUrl }

def encode (req : HttpRequest) (buf : List UInt8) : Int32 × List UInt8 :=
  req.encodeBehind (snprintf HttpMsg.tmpSize (methodToString req.method ++ text " " ++
    cStr (if req.queryUrl = [] then req.url else req.queryUrl) ++ text " " ++
    cStr req.version ++ crlf)) buf

/-- The request line. -/
def readRequestLine (req : HttpRequest) (line1 : List UInt8) : HttpRequest :=
  let (method, behindMethod) := eatWord line1
  let (url, behindUrl) := eatWord behindMethod
  let (version, _) := eatWord behindUrl
  parseUrlParams { req with
    method := stringToMethod method
    queryUrl := url
    version := version }

def tryDecode (req : HttpRequest) (buf : List UInt8) (copyBody : Bool) :
    Except Fault (ParseResult × HttpRequest) := do
  let (result, msg, line1) ← req.toHttpMsg.tryDecode_ buf copyBody
  let decoded := { req with toHttpMsg := msg }
  return (result, if line1 = [] then decoded else decoded.readRequestLine line1)

end HttpRequest

end YYNet
