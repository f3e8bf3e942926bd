/-
This file proves what a decoder makes of a buffer that grows from call to call,
and when its arithmetic with the content length is safe.

A decoder that has seen a part of the input is in one of four phases: it looks
for the end of the header, it has found a malformed header, it has the header
and waits for the body, or it is complete. In each of them the next call on a
longer buffer leaves the object as one call on a cleared object would. The one
exception is the status of a response: its second word is handed to `atoi` as a
pointer, so with no second word in the line the number is read from whatever is
behind the line in that call, in the piece and in memory behind the piece.

The content length is read as a signed number and added to the header's length
modulo `2 ^ 64`. A small negative number passes the comparison with the size of
the buffer, and then the body is as long as the number cast to an unsigned one.
-/

import YYNet.Http.Progress

namespace YYNet

open Checked Storage

namespace HttpMsg

/-! ### Parsing again -/

/-- The header fields are assigned one after another, whatever is there. -/
theorem parseFields_eq_setAll (fuel : Nat) (slice : List UInt8) :
    ∃ ok entries, ∀ headers, parseFields fuel slice headers = (ok, headers.setAll entries) := by
  induction fuel generalizing slice with
  | zero => exact ⟨slice.isEmpty, [], fun _ => rfl⟩
  | succ fuel inductionHypothesis =>
    by_cases empty : slice = []
    · exact ⟨true, [], fun headers => by rw [parseFields, if_pos empty]; rfl⟩
    · by_cases short : slice.length < 2
      · exact ⟨false, [], fun headers => by rw [parseFields, if_neg empty, if_pos short]; rfl⟩
      · obtain ⟨ok, entries, later⟩ := inductionHypothesis (eatLine (slice.drop 2)).2
        simp only [parseFields, if_neg empty, if_neg short]
        split
        · refine ⟨ok, ((eatWord (eatLine (slice.drop 2)).1).1.dropLast.map toLower,
            trimSpace (eatWord (eatLine (slice.drop 2)).1).2) :: entries, fun headers => ?_⟩
          rw [later, OrderedMap.setAll_cons]
        · split
          · exact ⟨true, [], fun _ => rfl⟩
          · exact ⟨false, [], fun _ => rfl⟩

/-- Parsing the fields again changes nothing. -/
theorem parseFields_again {fuel : Nat} {slice : List UInt8} {headers parsed : StringMap} {ok : Bool}
    (once : parseFields fuel slice headers = (ok, parsed)) :
    parseFields fuel slice parsed = (ok, parsed) := by
  obtain ⟨found, entries, assigns⟩ := parseFields_eq_setAll fuel slice
  rw [assigns] at once ⊢
  obtain ⟨rfl, rfl⟩ := Prod.mk.inj once
  rw [OrderedMap.setAll_setAll]

/-- The search finds the marker at once where it has found it. -/
theorem seek_found {bytes : List UInt8} (found : (seek bytes).2 = true) :
    seek (bytes.drop (seek bytes).1) = (0, true) := by
  induction bytes with
  | nil => cases found
  | cons byte rest inductionHypothesis =>
    rw [seek] at found ⊢
    split at found
    · cases found
    · rename_i long
      split at found
      · rename_i here
        rw [if_neg long, if_pos here, List.drop_zero, seek, if_neg long, if_pos here]
      · rename_i elsewhere
        rw [if_neg long, if_neg elsewhere, List.drop_succ_cons]
        exact inductionHypothesis found

/-- A malformed header is found malformed again, in every longer buffer. -/
theorem decodeHeader_malformed {msg looked : HttpMsg} {buf line1 : List UInt8}
    (header : msg.decodeHeader buf = .malformed looked line1) (more : List UInt8) :
    looked.decodeHeader (buf ++ more) = .malformed looked line1 := by
  obtain ⟨found, somewhere⟩ := seek_of_decodeHeader fun looked missing => by
    rw [missing] at header
    cases header
  have bound := seek_found_le found
  rw [List.length_drop] at bound
  unfold decodeHeader at header
  rw [if_neg (by simp [found, somewhere])] at header
  unfold parseHeader at header
  simp only at header
  split at header
  · rename_i headers parsed
    obtain ⟨rfl, rfl⟩ := Header.malformed.inj header
    have scanned : ({ msg.look buf with headers := headers } : HttpMsg).scanned =
        msg.scanned + (seek (buf.drop msg.scanned)).1 := rfl
    have here : seek ((buf ++ more).drop (msg.scanned + (seek (buf.drop msg.scanned)).1)) =
        (0, true) := by
      rw [← List.drop_drop, List.drop_append_of_le_length (by omega),
        ← seek_append_found found more]
      exact seek_found (by rw [seek_append_found found more]; exact found)
    have looks : ({ msg.look buf with headers := headers } : HttpMsg).look (buf ++ more) =
        { msg.look buf with headers := headers } := by
      unfold look
      simp only
      rw [here]
      rfl
    have present : ¬ ((0, true) : Nat × Bool).2 = false := Bool.noConfusion
    have somewhere : msg.scanned + (seek (buf.drop msg.scanned)).1 ≠ 0 := somewhere
    unfold decodeHeader
    rw [looks, scanned, here, if_neg (not_or.mpr ⟨present, somewhere⟩),
      List.take_append_of_le_length (by omega)]
    unfold parseHeader
    simp only
    rw [show msg.scanned + (seek (buf.drop msg.scanned)).1 = (msg.look buf).scanned from rfl,
      parseFields_again parsed]
  · cases header

/-! ### The phases of a decoder -/

/-- What a cleared message has become by one call on a buffer. -/
inductive Phase (buf : List UInt8) (copyBody : Bool) : ParseResult → HttpMsg → List UInt8 → Prop
  | looking (looked : HttpMsg) (missing : cleared.decodeHeader buf = .missing looked) :
      Phase buf copyBody .notComplete looked []
  | malformed (looked : HttpMsg) (line1 : List UInt8)
      (header : cleared.decodeHeader buf = .malformed looked line1) :
      Phase buf copyBody .error looked line1
  | waiting (parsed : HttpMsg) (line1 : List UInt8)
      (header : cleared.decodeHeader buf = .parsed parsed line1)
      (short : buf.length < addSize parsed.contentLen parsed.scanned) :
      Phase buf copyBody
        (if parsed.getHeader (text "expect") ≠ [] then .continue100 else .notComplete) parsed line1
  | complete (parsed done : HttpMsg) (line1 : List UInt8)
      (header : cleared.decodeHeader buf = .parsed parsed line1)
      (body : parsed.decodeBody buf copyBody = .ok (.complete, done)) :
      Phase buf copyBody .complete done line1

/-- One call on a cleared message ends in one of the phases. -/
theorem phase_of_tryDecode {msg : HttpMsg} {buf line1 : List UInt8} {copyBody : Bool}
    {result : ParseResult} (decoded : cleared.tryDecode_ buf copyBody = .ok (result, msg, line1)) :
    Phase buf copyBody result msg line1 := by
  unfold tryDecode_ at decoded
  rw [if_neg (by decide), if_neg (by decide)] at decoded
  cases header : cleared.decodeHeader buf with
  | missing looked =>
    rw [header] at decoded
    obtain ⟨rfl, rfl, rfl⟩ : ParseResult.notComplete = result ∧ looked = msg ∧ [] = line1 := by
      simpa using decoded
    exact .looking looked header
  | malformed looked line =>
    rw [header] at decoded
    obtain ⟨rfl, rfl, rfl⟩ : ParseResult.error = result ∧ looked = msg ∧ line = line1 := by
      simpa using decoded
    exact .malformed looked line header
  | parsed parsed line =>
    rw [header] at decoded
    simp only at decoded
    split at decoded
    · rename_i waits
      obtain ⟨rfl, rfl, rfl⟩ : ParseResult.continue100 = result ∧ parsed = msg ∧ line = line1 := by
        simpa using decoded
      have phase : Phase buf copyBody _ parsed line := .waiting parsed line header waits.1
      rwa [if_pos waits.2] at phase
    · rename_i goesOn
      obtain ⟨⟨found, body⟩, read, same⟩ := bind_eq_ok decoded
      obtain ⟨rfl, rfl, rfl⟩ : found = result ∧ body = msg ∧ line = line1 := by simpa using same
      rcases decodeBody_cases read with ⟨rfl, rfl, short⟩ | ⟨rfl, -⟩
      · have phase : Phase buf copyBody _ body line := .waiting body line header short
        rwa [if_neg fun expects => goesOn ⟨short, expects⟩] at phase
      · exact .complete parsed body line header read

/-- The phases are what one call returns. -/
theorem Phase.tryDecode {msg : HttpMsg} {buf line1 : List UInt8} {copyBody : Bool}
    {result : ParseResult} (phase : Phase buf copyBody result msg line1) :
    cleared.tryDecode_ buf copyBody = .ok (result, msg, line1) := by
  unfold tryDecode_
  rw [if_neg (by decide), if_neg (by decide)]
  cases phase with
  | looking looked missing =>
    rw [missing]
    rfl
  | malformed looked line header =>
    rw [header]
    rfl
  | waiting parsed line header short =>
    rw [header]
    simp only
    split
    · rename_i waits
      rw [if_pos waits.2]
      rfl
    · rename_i goesOn
      have silent : ¬ msg.getHeader (text "expect") ≠ [] := fun expects => goesOn ⟨short, expects⟩
      rw [if_neg silent, decodeBody, if_pos short]
      rfl
  | complete parsed done line header body =>
    rw [header]
    simp only
    rw [if_neg]
    · rw [body]
      rfl
    · rintro ⟨short, -⟩
      rw [decodeBody, if_pos short] at body
      cases body

/-- The parsed header: its length with the marker, and the content length it gives. -/
theorem parsed_of_decodeHeader {msg parsed : HttpMsg} {buf line1 : List UInt8}
    (header : msg.decodeHeader buf = .parsed parsed line1) :
    parsed.scanned = (msg.look buf).scanned + 4 ∧ parsed.complete = msg.complete ∧
      parsed.version = msg.version ∧ parsed.contentLen = contentLenOf parsed.headers := by
  rcases decodeHeader_cases msg buf with
    ⟨-, missing⟩ | ⟨-, ⟨headers, line, malformed⟩ | ⟨headers, line, isParsed⟩⟩
  · rw [missing] at header
    cases header
  · rw [malformed] at header
    cases header
  · rw [isParsed] at header
    obtain ⟨rfl, -⟩ := Header.parsed.inj header
    exact ⟨rfl, rfl, rfl, rfl⟩

/-- A body that is short leaves a content length. -/
theorem Phase.contentLen_ne_zero {parsed : HttpMsg} {buf line1 : List UInt8}
    (header : cleared.decodeHeader buf = .parsed parsed line1) (small : buf.length ≤ maxSize)
    (short : buf.length < addSize parsed.contentLen parsed.scanned) : parsed.contentLen ≠ 0 :=
  HttpMsg.contentLen_ne_zero (scanned_of_decodeHeader header) small short

/-- What the next call on a longer buffer returns, beside what one call on a cleared message
would: the same message, and the same result and line, unless the header had been parsed. -/
inductive Next (phase : ParseResult) (line : List UInt8) :
    Except Fault (ParseResult × HttpMsg × List UInt8) →
    Except Fault (ParseResult × HttpMsg × List UInt8) → Prop
  | same (returned : Except Fault (ParseResult × HttpMsg × List UInt8)) (fresh : line = []) :
      Next phase line returned returned
  | again (msg : HttpMsg) (failed : phase = .error) :
      Next phase line (.ok (.error, msg, line)) (.ok (.error, msg, line))
  | waits (msg : HttpMsg) (waiting : phase ≠ .error) (open' : msg.contentLen ≠ 0)
      (unread : msg.complete = false) :
      Next phase line (.ok (.notComplete, msg, []))
        (.ok (if msg.getHeader (text "expect") ≠ [] then .continue100 else .notComplete, msg, line))
  | completes (msg : HttpMsg) (noError : phase ≠ .error) (read : msg.complete = true) :
      Next phase line (.ok (.complete, msg, [])) (.ok (.complete, msg, line))

theorem contentLenOf_lt (headers : StringMap) : contentLenOf headers < sizeModulus := by
  unfold sizeModulus contentLenOf atollSize
  simp only
  split
  · decide
  · omega

/-- A body whose end is not in the buffer does not make the sum of the lengths wrap around. -/
theorem addSize_of_short {contentLen scanned size : Nat} (isSize : contentLen < sizeModulus)
    (inside : scanned ≤ size) (small : size ≤ maxSize)
    (short : size < addSize contentLen scanned) :
    addSize contentLen scanned = contentLen + scanned := by
  have bound := TcpBuffer.maxSize_lt_sizeModulus
  by_cases fits : contentLen + scanned < sizeModulus
  · exact addSize_of_lt fits
  · rw [addSize_of_ge (not_lt.mp fits) (by omega)] at short
    omega

/-- The body is in the buffer, and no longer than it. -/
theorem decodeBody_complete {msg : HttpMsg} {buf : List UInt8} (copyBody : Bool)
    (small : buf.length ≤ maxSize)
    (noWrap : addSize msg.contentLen msg.scanned = msg.contentLen + msg.scanned)
    (present : msg.contentLen + msg.scanned ≤ buf.length) :
    ∃ done, msg.decodeBody buf copyBody = .ok (.complete, done) := by
  unfold decodeBody
  rw [if_neg (by omega), if_neg (by omega)]
  exact ⟨_, rfl⟩

/-- What is stored of a body that is complete. -/
theorem decodeBody_stores {msg done : HttpMsg} {buf : List UInt8} {copyBody : Bool}
    (body : msg.decodeBody buf copyBody = .ok (.complete, done)) :
    done.complete = true ∧ done.contentLen = msg.contentLen ∧ done.headers = msg.headers ∧
      (if copyBody then done.body else done.bodyView) =
        (buf.drop msg.scanned).take msg.contentLen := by
  unfold decodeBody at body
  split at body
  · cases body
  · split at body
    · cases body
    · obtain ⟨-, rfl⟩ := Prod.mk.inj (Except.ok.inj body)
      cases copyBody <;> exact ⟨rfl, rfl, rfl, rfl⟩

/-- What the next call makes of a longer buffer. -/
theorem Phase.next {msg : HttpMsg} {front line1 : List UInt8} {copyBody : Bool}
    {result : ParseResult} (phase : Phase front copyBody result msg line1) (more : List UInt8)
    (small : (front ++ more).length ≤ maxSize) :
    Next result line1 (msg.tryDecode_ (front ++ more) copyBody)
      (cleared.tryDecode_ (front ++ more) copyBody) := by
  have shorter : front.length ≤ (front ++ more).length := by simp
  have decoded := phase.tryDecode
  cases phase with
  | looking looked missing =>
    rw [tryDecode_resume missing]
    exact .same _ rfl
  | malformed looked line header =>
    have oneShot : cleared.decodeHeader (front ++ more) = .malformed msg line1 := by
      rw [decodeHeader_append (by simp [header]), header]
    have again := decodeHeader_malformed header more
    have outcome := tryDecode_outcome cleared_resumable (by omega) decoded
    obtain ⟨resumable, noBody⟩ : msg.Resumable ∧ msg.contentLen = 0 := outcome
    have left : msg.tryDecode_ (front ++ more) copyBody = .ok (.error, msg, line1) := by
      unfold tryDecode_
      rw [if_neg (by simp [resumable.unread]), if_neg (not_not.mpr noBody), again]
      rfl
    have right : cleared.tryDecode_ (front ++ more) copyBody = .ok (.error, msg, line1) :=
      Phase.tryDecode (.malformed msg line1 oneShot)
    rw [left, right]
    exact .again msg rfl
  | waiting parsed line header short =>
    have inside := scanned_of_decodeHeader header
    obtain ⟨-, unread, -, isLength⟩ := parsed_of_decodeHeader header
    have openBody := Phase.contentLen_ne_zero header (by omega) short
    have noWrap := addSize_of_short (isLength ▸ contentLenOf_lt _) inside (by omega) short
    have oneShot : cleared.decodeHeader (front ++ more) = .parsed msg line1 := by
      rw [decodeHeader_append (by simp [header]), header]
    have noError : (if msg.getHeader (text "expect") ≠ [] then ParseResult.continue100
        else .notComplete) ≠ .error := by
      split <;> exact ParseResult.noConfusion
    have left : msg.tryDecode_ (front ++ more) copyBody =
        msg.decodeBody (front ++ more) copyBody >>= fun found => .ok (found.1, found.2, []) := by
      unfold tryDecode_
      rw [if_neg (by simp [unread, cleared]), if_pos openBody]
      rfl
    by_cases later : (front ++ more).length < addSize msg.contentLen msg.scanned
    · have right : cleared.tryDecode_ (front ++ more) copyBody = _ :=
        Phase.tryDecode (.waiting msg line1 oneShot later)
      rw [left, right, decodeBody, if_pos later]
      exact .waits msg noError openBody unread
    · obtain ⟨done, body⟩ := decodeBody_complete copyBody small noWrap (by omega)
      have right := (Phase.complete msg done line1 oneShot body).tryDecode
      rw [left, right, body]
      exact .completes done noError (decodeBody_stores body).1
  | complete parsed done line header body =>
    have right := tryDecode_append (by omega : front.length ≤ maxSize) rfl rfl decoded more
    have read := (decodeBody_stores body).1
    have left : msg.tryDecode_ (front ++ more) copyBody = .ok (.complete, msg, []) := by
      unfold tryDecode_
      rw [if_pos read]
      rfl
    rw [left, right]
    exact .completes msg ParseResult.noConfusion read

/-- A message that waits may ask for its body where the next call does not. -/
theorem waiting_agrees (msg : HttpMsg) :
    ParseResult.notComplete =
        (if msg.getHeader (text "expect") ≠ [] then ParseResult.continue100 else .notComplete) ∨
      (if msg.getHeader (text "expect") ≠ [] then ParseResult.continue100 else .notComplete) =
        .continue100 ∧ ParseResult.notComplete = .notComplete := by
  split
  · exact .inr ⟨rfl, rfl⟩
  · exact .inl rfl

/-! ### The content length -/

/-- The messages a decoder leaves behind on a growing buffer. -/
inductive Fed (copyBody : Bool) : List UInt8 → HttpMsg → Prop
  | start : Fed copyBody [] cleared
  | call (front buf : List UInt8) (msg done : HttpMsg) (result : ParseResult) (line1 : List UInt8)
      (fed : Fed copyBody front msg) (grows : front <+: buf)
      (decoded : msg.tryDecode_ buf copyBody = .ok (result, done, line1)) : Fed copyBody buf done

/-- The next call leaves the message that one call would. -/
theorem Next.message {phase result : ParseResult} {line line1 : List UInt8} {done : HttpMsg}
    {returned oneShot : Except Fault (ParseResult × HttpMsg × List UInt8)}
    (next : Next phase line returned oneShot) (ok : returned = .ok (result, done, line1)) :
    ∃ alone first, oneShot = .ok (alone, done, first) := by
  cases next with
  | same returned fresh => exact ⟨result, line1, ok⟩
  | again msg failed =>
    obtain ⟨-, rfl, -⟩ : ParseResult.error = result ∧ msg = done ∧ line = line1 := by simpa using ok
    exact ⟨_, _, rfl⟩
  | waits msg waiting open' unread =>
    obtain ⟨-, rfl, -⟩ : ParseResult.notComplete = result ∧ msg = done ∧ [] = line1 := by
      simpa using ok
    exact ⟨_, _, rfl⟩
  | completes msg noError read =>
    obtain ⟨-, rfl, -⟩ : ParseResult.complete = result ∧ msg = done ∧ [] = line1 := by
      simpa using ok
    exact ⟨_, _, rfl⟩

/-- What calls on a growing buffer leave is what one call on the last of them leaves. -/
theorem Fed.phase {copyBody : Bool} {front : List UInt8} {msg : HttpMsg}
    (fed : Fed copyBody front msg) (small : front.length ≤ maxSize) :
    ∃ result line1, Phase front copyBody result msg line1 := by
  induction fed with
  | start => exact ⟨_, _, phase_of_tryDecode rfl⟩
  | call front buf msg done result line1 fed grows decoded inductionHypothesis =>
    obtain ⟨more, rfl⟩ := grows
    have shorter : front.length ≤ (front ++ more).length := by simp
    obtain ⟨_, _, phase⟩ := inductionHypothesis (by omega)
    obtain ⟨alone, first, oneShot⟩ := (phase.next more small).message decoded
    exact ⟨alone, first, phase_of_tryDecode oneShot⟩

/-- The number in the content-length field: what `atoll` returns. -/
def declaredLength (headers : StringMap) : Int :=
  if (headers.find (text "content-length")).getD [] = [] then 0
  else strtol (cStr ((headers.find (text "content-length")).getD []))

/-- The header is well formed, and its content length is a negative number that is no larger than
the length of the header with the marker. -/
def ShortNegative (buf : List UInt8) : Prop :=
  ∃ parsed line1, cleared.decodeHeader buf = .parsed parsed line1 ∧
    -(parsed.scanned : Int) ≤ declaredLength parsed.headers ∧ declaredLength parsed.headers < 0

/-- The body lies behind the first marker and inside the buffer, is as long as the content length,
and is what is stored. -/
def BodyFits (done : HttpMsg) (buf : List UInt8) (copyBody : Bool) : Prop :=
  ∃ header body rest, buf = header ++ headerEnd ++ body ++ rest ∧
    seek buf = (header.length, true) ∧ body.length = done.contentLen ∧
    done.getByte = header.length + 4 + done.contentLen ∧ done.getByte ≤ buf.length ∧
    (if copyBody then done.body else done.bodyView) = body

/-- A call returned, and if it completed the message, the body fits. -/
def SafeReturn (buf : List UInt8) (copyBody : Bool) :
    Except Fault (ParseResult × HttpMsg × List UInt8) → Prop
  | .error _ => False
  | .ok (.complete, done, _) => BodyFits done buf copyBody
  | .ok _ => True

/-- A call returns, and if it completes the message, the body fits. -/
def LengthSafe (msg : HttpMsg) (buf : List UInt8) (copyBody : Bool) : Prop :=
  SafeReturn buf copyBody (msg.tryDecode_ buf copyBody)

theorem safeReturn_waiting (msg : HttpMsg) (buf line1 : List UInt8) (copyBody : Bool) :
    SafeReturn buf copyBody (.ok (if msg.getHeader (text "expect") ≠ [] then .continue100
      else .notComplete, msg, line1)) := by
  by_cases expects : msg.getHeader (text "expect") ≠ []
  · rw [if_pos expects]
    trivial
  · rw [if_neg expects]
    trivial

theorem strtol_bounds (bytes : List UInt8) : -2 ^ 63 ≤ strtol bytes ∧ strtol bytes < 2 ^ 63 := by
  unfold strtol
  split <;> omega

theorem contentLenOf_eq (headers : StringMap) :
    contentLenOf headers = (declaredLength headers % 2 ^ 64).toNat := by
  unfold contentLenOf declaredLength atollSize
  simp only
  split <;> rfl

/-- The sum of the lengths wraps around for small negative content lengths only. -/
theorem wraps_iff {headers : StringMap} {scanned : Nat} (small : scanned ≤ maxSize) :
    sizeModulus ≤ contentLenOf headers + scanned ↔
      -(scanned : Int) ≤ declaredLength headers ∧ declaredLength headers < 0 := by
  have bounds : -2 ^ 63 ≤ declaredLength headers ∧ declaredLength headers < 2 ^ 63 := by
    unfold declaredLength
    split
    · decide
    · exact strtol_bounds _
  rw [contentLenOf_eq]
  unfold sizeModulus
  unfold maxSize at small
  omega

/-- What the search for the marker finds. -/
theorem seek_shape {bytes : List UInt8} (found : (seek bytes).2 = true) :
    bytes = bytes.take (seek bytes).1 ++ headerEnd ++ bytes.drop ((seek bytes).1 + 4) := by
  induction bytes with
  | nil => cases found
  | cons byte rest inductionHypothesis =>
    rw [seek] at found ⊢
    split at found
    · cases found
    · rename_i long
      rw [if_neg long]
      split at found
      · rename_i here
        rw [if_pos here, List.take_zero, List.nil_append, ← here]
        exact (List.take_append_drop 4 _).symm
      · rename_i elsewhere
        rw [if_neg elsewhere]
        have behind := inductionHypothesis found
        simp only [List.take_succ_cons, Nat.add_right_comm _ 1 4, List.drop_succ_cons,
          List.cons_append]
        rw [← behind]

/-- A body without wrap-around fits when it is complete. -/
theorem bodyFits_of_complete {parsed done : HttpMsg} {buf line1 : List UInt8} {copyBody : Bool}
    (small : buf.length ≤ maxSize) (header : cleared.decodeHeader buf = .parsed parsed line1)
    (body : parsed.decodeBody buf copyBody = .ok (.complete, done)) : BodyFits done buf copyBody := by
  have bound := TcpBuffer.maxSize_lt_sizeModulus
  obtain ⟨found, -⟩ := seek_of_decodeHeader fun looked missing => by
    rw [missing] at header
    cases header
  have found : (seek buf).2 = true := found
  have marker := seek_found_le found
  have isScanned : parsed.scanned = (seek buf).1 + 4 := by
    have scanned := (parsed_of_decodeHeader header).1
    have looked : (cleared.look buf).scanned = 0 + (seek buf).1 := rfl
    omega
  obtain ⟨-, contentLen, -, stored⟩ := decodeBody_stores body
  rcases decodeBody_cases body with ⟨impossible, -⟩ | ⟨-, present, fits, read⟩
  · cases impossible
  · rw [addSize_of_lt (by omega)] at present read
    have shape := seek_shape found
    refine ⟨buf.take (seek buf).1, (buf.drop parsed.scanned).take parsed.contentLen,
      (buf.drop parsed.scanned).drop parsed.contentLen, ?_, ?_, ?_, ?_, ?_, stored⟩
    · rw [List.append_assoc, List.take_append_drop, isScanned]
      exact shape
    · rw [List.length_take, min_eq_left (by omega), ← found]
    · rw [contentLen, List.length_take, List.length_drop]
      omega
    · rw [contentLen, List.length_take, getByte, read]
      omega
    · rw [getByte, read]
      omega

theorem cleared_lengthSafe_iff (buf : List UInt8) (copyBody : Bool) (small : buf.length ≤ maxSize) :
    LengthSafe cleared buf copyBody ↔ ¬ ShortNegative buf := by
  have bound := TcpBuffer.maxSize_lt_sizeModulus
  have absent (noHeader : ∀ parsed line1, cleared.decodeHeader buf ≠ .parsed parsed line1) :
      ¬ ShortNegative buf := fun ⟨parsed, line1, header, _⟩ => noHeader parsed line1 header
  cases header : cleared.decodeHeader buf with
  | missing looked =>
    refine iff_of_true ?_ (absent (by simp [header]))
    rw [LengthSafe, Phase.tryDecode (.looking looked header)]
    trivial
  | malformed looked line =>
    refine iff_of_true ?_ (absent (by simp [header]))
    rw [LengthSafe, Phase.tryDecode (.malformed looked line header)]
    trivial
  | parsed parsed line =>
    have inside := scanned_of_decodeHeader header
    obtain ⟨-, -, -, isLength⟩ := parsed_of_decodeHeader header
    have wraps : ShortNegative buf ↔ sizeModulus ≤ parsed.contentLen + parsed.scanned := by
      rw [isLength, wraps_iff (by omega)]
      constructor
      · rintro ⟨other, line', same, negative⟩
        rw [header] at same
        obtain ⟨rfl, -⟩ := Header.parsed.inj same
        exact negative
      · exact fun negative => ⟨parsed, line, header, negative⟩
    have isSize : parsed.contentLen < sizeModulus := isLength ▸ contentLenOf_lt _
    rw [wraps, not_le]
    by_cases short : buf.length < addSize parsed.contentLen parsed.scanned
    · have noWrap := addSize_of_short isSize inside small short
      refine iff_of_true ?_ ?_
      · rw [LengthSafe, Phase.tryDecode (.waiting parsed line header short)]
        exact safeReturn_waiting parsed buf line copyBody
      · rw [← noWrap]
        exact Nat.mod_lt _ (by omega)
    · by_cases fits : parsed.contentLen + parsed.scanned < sizeModulus
      · have noWrap := addSize_of_lt fits
        obtain ⟨done, body⟩ := decodeBody_complete copyBody small noWrap (by omega)
        refine iff_of_true ?_ fits
        rw [LengthSafe, Phase.tryDecode (.complete parsed done line header body)]
        exact bodyFits_of_complete small header body
      · refine iff_of_false (fun safe => ?_) fits
        have huge : maxSize < parsed.contentLen := by omega
        have stops : cleared.tryDecode_ buf copyBody =
            .error (if copyBody then .lengthError else .outOfBounds) := by
          unfold tryDecode_
          rw [if_neg (by decide), if_neg (by decide), header]
          simp only
          rw [if_neg fun waits => short waits.1, decodeBody, if_neg short, if_pos huge]
          rfl
        rw [LengthSafe, stops] at safe
        exact safe

/-- A call on a growing buffer returns, and completes a message only with a body that fits, if and
only if the content length is not a negative number within the length of the header. -/
theorem lengthSafe_iff (copyBody : Bool) (front buf : List UInt8) (msg : HttpMsg)
    (fed : Fed copyBody front msg) (grows : front <+: buf) (small : buf.length ≤ maxSize) :
    LengthSafe msg buf copyBody ↔ ¬ ShortNegative buf := by
  rw [← cleared_lengthSafe_iff buf copyBody small]
  obtain ⟨more, rfl⟩ := grows
  have shorter : front.length ≤ (front ++ more).length := by simp
  obtain ⟨result, line1, phase⟩ := fed.phase (by omega)
  have next := phase.next more small
  unfold LengthSafe
  generalize msg.tryDecode_ (front ++ more) copyBody = returned at next ⊢
  generalize cleared.tryDecode_ (front ++ more) copyBody = oneShot at next ⊢
  cases next with
  | same returned fresh => exact Iff.rfl
  | again msg failed => exact Iff.rfl
  | waits msg waiting open' unread =>
    exact iff_of_true trivial (safeReturn_waiting msg _ line1 copyBody)
  | completes msg noError read => exact Iff.rfl

/-- A request with a content length. -/
def lengthRequest (length : String) : List UInt8 :=
  text "POST / HTTP/1.1\r\nContent-Length: " ++ text length ++ text "\r\n\r\nhello"

/-- The decoder has seen the header and two bytes of the body, and then gets the whole buffer. -/
theorem lengthSafe_five : ∃ msg line1,
    cleared.tryDecode_ ((lengthRequest "5").take 40) true = .ok (.notComplete, msg, line1) ∧
      msg.contentLen = 5 ∧ LengthSafe msg (lengthRequest "5") true := by
  have first : ((cleared.tryDecode_ ((lengthRequest "5").take 40) true).toOption.map fun next =>
      (next.1, next.2.1.contentLen)) = some (.notComplete, 5) := by
    decide +kernel
  obtain ⟨⟨result, msg, line1⟩, returned, same⟩ := Option.map_eq_some_iff.mp first
  have returned := toOption_eq_some returned
  obtain ⟨rfl, length⟩ : result = .notComplete ∧ msg.contentLen = 5 := Prod.mk.inj same
  have fed : Fed true ((lengthRequest "5").take 40) msg :=
    .call [] _ cleared msg .notComplete line1 .start List.nil_prefix returned
  refine ⟨msg, line1, returned, length, ?_⟩
  refine (lengthSafe_iff true _ (lengthRequest "5") msg fed (List.take_prefix _ _)
    (by unfold maxSize; decide)).mpr ?_
  rintro ⟨parsed, line, header, -, negative⟩
  have declared : (match cleared.decodeHeader (lengthRequest "5") with
      | .parsed parsed _ => decide (0 ≤ declaredLength parsed.headers)
      | _ => true) = true := by
    decide +kernel
  rw [header] at declared
  exact absurd (of_decide_eq_true declared) (not_le.mpr negative)

/-- With the content length -1 the copy of the body throws, and the view of it leaves the
buffer. -/
theorem not_lengthSafe_negative :
    cleared.tryDecode_ (lengthRequest "-1") true = .error .lengthError ∧
      cleared.tryDecode_ (lengthRequest "-1") false = .error .outOfBounds ∧
      ¬ LengthSafe cleared (lengthRequest "-1") true ∧
      ¬ LengthSafe cleared (lengthRequest "-1") false := by
  have copied : cleared.tryDecode_ (lengthRequest "-1") true = .error .lengthError := by
    decide +kernel
  have viewed : cleared.tryDecode_ (lengthRequest "-1") false = .error .outOfBounds := by
    decide +kernel
  refine ⟨copied, viewed, fun safe => ?_, fun safe => ?_⟩
  · rw [LengthSafe, copied] at safe
    exact safe
  · rw [LengthSafe, viewed] at safe
    exact safe

/-- The content length is not negative. -/
def NonNegative (whole : List UInt8) : Prop :=
  ∀ parsed line1, cleared.decodeHeader whole = .parsed parsed line1 →
    0 ≤ declaredLength parsed.headers

/-- With a content length that is not negative a call on any part of the input returns. -/
theorem NonNegative.returns {buf whole : List UInt8} (nonNegative : NonNegative whole)
    (part : buf <+: whole) (small : whole.length ≤ maxSize) (copyBody : Bool) :
    ∃ result msg line1, cleared.tryDecode_ buf copyBody = .ok (result, msg, line1) := by
  obtain ⟨more, rfl⟩ := part
  have shorter : buf.length ≤ (buf ++ more).length := by simp
  have safe : LengthSafe cleared buf copyBody := by
    refine (cleared_lengthSafe_iff buf copyBody (by omega)).mpr ?_
    rintro ⟨parsed, line1, header, -, negative⟩
    have longer : cleared.decodeHeader (buf ++ more) = .parsed parsed line1 := by
      rw [decodeHeader_append (by simp [header]), header]
    exact absurd (nonNegative parsed line1 longer) (not_le.mpr negative)
  unfold LengthSafe at safe
  cases returned : cleared.tryDecode_ buf copyBody with
  | error fault =>
    rw [returned] at safe
    exact safe.elim
  | ok value => exact ⟨_, _, _, rfl⟩

/-! ### The version is not read -/

/-- A message with another version. -/
def withVersion (msg : HttpMsg) (version : List UInt8) : HttpMsg := { msg with version := version }

/-- A decoded header with another version. -/
def Header.withVersion (version : List UInt8) : Header → Header
  | .missing msg => .missing (msg.withVersion version)
  | .malformed msg line1 => .malformed (msg.withVersion version) line1
  | .parsed msg line1 => .parsed (msg.withVersion version) line1

theorem decodeHeader_withVersion (msg : HttpMsg) (version buf : List UInt8) :
    (msg.withVersion version).decodeHeader buf = (msg.decodeHeader buf).withVersion version := by
  have looks : (msg.withVersion version).look buf = (msg.look buf).withVersion version := rfl
  unfold decodeHeader
  rw [looks]
  by_cases missing : (seek (buf.drop msg.scanned)).2 = false ∨ (msg.look buf).scanned = 0
  · rw [if_pos missing]
    exact if_pos missing
  · rw [if_neg missing]
    refine (if_neg missing).trans ?_
    have slice : ((msg.look buf).withVersion version).scanned = (msg.look buf).scanned := rfl
    have fields : ((msg.look buf).withVersion version).headers = (msg.look buf).headers := rfl
    unfold parseHeader
    rw [slice, fields]
    simp only
    split <;> rfl

theorem decodeBody_withVersion (msg : HttpMsg) (version buf : List UInt8) (copyBody : Bool) :
    (msg.withVersion version).decodeBody buf copyBody =
      (msg.decodeBody buf copyBody).map fun (result, done) => (result, done.withVersion version) := by
  have length : (msg.withVersion version).contentLen = msg.contentLen := rfl
  have scanned : (msg.withVersion version).scanned = msg.scanned := rfl
  unfold decodeBody
  rw [length, scanned]
  split
  · rfl
  · split
    · rfl
    · cases copyBody <;> rfl

theorem tryDecode_withVersion (msg : HttpMsg) (version buf : List UInt8) (copyBody : Bool) :
    (msg.withVersion version).tryDecode_ buf copyBody =
      (msg.tryDecode_ buf copyBody).map fun (result, done, line1) =>
        (result, done.withVersion version, line1) := by
  have complete : (msg.withVersion version).complete = msg.complete := rfl
  have length : (msg.withVersion version).contentLen = msg.contentLen := rfl
  unfold tryDecode_
  rw [complete, length, decodeHeader_withVersion]
  split
  · rfl
  · split
    · rw [decodeBody_withVersion]
      cases msg.decodeBody buf copyBody <;> rfl
    · cases msg.decodeHeader buf with
      | missing looked => rfl
      | malformed looked line1 => rfl
      | parsed looked line1 =>
        simp only [Header.withVersion]
        by_cases waits : buf.length < addSize looked.contentLen looked.scanned ∧
            looked.getHeader (text "expect") ≠ []
        · rw [if_pos waits]
          exact if_pos waits
        · rw [if_neg waits]
          refine (if_neg waits).trans ?_
          rw [decodeBody_withVersion]
          cases looked.decodeBody buf copyBody <;> rfl

/-- A cleared message keeps its version. -/
theorem Phase.version {msg : HttpMsg} {buf line1 : List UInt8} {copyBody : Bool}
    {result : ParseResult} (phase : Phase buf copyBody result msg line1) :
    msg.version = cleared.version := by
  have decoded := phase.tryDecode
  have same : cleared.withVersion cleared.version = cleared := rfl
  rw [← same, tryDecode_withVersion, phase.tryDecode] at decoded
  obtain ⟨-, isMsg, -⟩ : result = result ∧ msg.withVersion cleared.version = msg ∧
    line1 = line1 := by simpa [Except.map] using decoded
  rw [← isMsg]
  rfl

/-! ### One call -/

theorem tryDecode_of_complete {msg : HttpMsg} (read : msg.complete = true) (buf : List UInt8)
    (copyBody : Bool) : msg.tryDecode_ buf copyBody = .ok (.complete, msg, []) := by
  unfold tryDecode_
  rw [if_pos read]
  rfl

/-- The header is parsed: the message waits for its body, or it is complete. -/
def Headed (msg : HttpMsg) : Prop := msg.complete = true ∨ msg.contentLen ≠ 0

/-- With the header parsed, a call does not ask for the body, and the header stays parsed. -/
theorem Headed.call {msg done : HttpMsg} {buf line1 : List UInt8} {copyBody : Bool}
    {result : ParseResult} (headed : msg.Headed)
    (decoded : msg.tryDecode_ buf copyBody = .ok (result, done, line1)) :
    result ≠ .continue100 ∧ done.Headed := by
  by_cases read : msg.complete = true
  · rw [tryDecode_of_complete read] at decoded
    obtain ⟨rfl, rfl, -⟩ : ParseResult.complete = result ∧ msg = done ∧ [] = line1 := by
      simpa using decoded
    exact ⟨ParseResult.noConfusion, .inl read⟩
  · have openBody := headed.resolve_left read
    unfold tryDecode_ at decoded
    rw [if_neg read, if_pos openBody] at decoded
    obtain ⟨⟨found, body⟩, isBody, same⟩ := bind_eq_ok decoded
    obtain ⟨rfl, rfl, -⟩ : found = result ∧ body = done ∧ [] = line1 := by simpa using same
    rcases decodeBody_cases isBody with ⟨rfl, rfl, -⟩ | ⟨rfl, -⟩
    · exact ⟨ParseResult.noConfusion, .inr openBody⟩
    · exact ⟨ParseResult.noConfusion, .inl (decodeBody_stores isBody).1⟩

/-- What a call that parses the header returns. -/
theorem tryDecode_parsed {msg : HttpMsg} {buf line1 : List UInt8} {copyBody : Bool}
    {result : ParseResult} {done : HttpMsg} (unheaded : ¬ msg.Headed)
    (decoded : msg.tryDecode_ buf copyBody = .ok (result, done, line1))
    (goesOn : result = .complete ∨ result = .continue100) :
    ∃ parsed, msg.decodeHeader buf = .parsed parsed line1 ∧
      (result = .complete ∧ parsed.decodeBody buf copyBody = .ok (.complete, done) ∨
        result = .continue100 ∧ parsed = done ∧
          buf.length < addSize done.contentLen done.scanned ∧
          done.getHeader (text "expect") ≠ []) := by
  obtain ⟨unread, noBody⟩ := not_or.mp unheaded
  unfold tryDecode_ at decoded
  rw [if_neg unread, if_neg noBody] at decoded
  cases header : msg.decodeHeader buf with
  | missing looked =>
    rw [header] at decoded
    obtain ⟨rfl, -⟩ : ParseResult.notComplete = result ∧ looked = done ∧ [] = line1 := by
      simpa using decoded
    simp at goesOn
  | malformed looked line =>
    rw [header] at decoded
    obtain ⟨rfl, -⟩ : ParseResult.error = result ∧ looked = done ∧ line = line1 := by
      simpa using decoded
    simp at goesOn
  | parsed parsed line =>
    rw [header] at decoded
    simp only at decoded
    split at decoded
    · rename_i waits
      obtain ⟨rfl, rfl, rfl⟩ : ParseResult.continue100 = result ∧ parsed = done ∧
        line = line1 := by simpa using decoded
      exact ⟨parsed, rfl, .inr ⟨rfl, rfl, waits⟩⟩
    · obtain ⟨⟨found, body⟩, read, same⟩ := bind_eq_ok decoded
      obtain ⟨rfl, rfl, rfl⟩ : found = result ∧ body = done ∧ line = line1 := by simpa using same
      rcases decodeBody_cases read with ⟨rfl, -⟩ | ⟨rfl, -⟩
      · simp at goesOn
      · exact ⟨parsed, rfl, .inl ⟨rfl, read⟩⟩

theorem complete_of_tryDecode {msg done : HttpMsg} {buf line1 : List UInt8} {copyBody : Bool}
    (decoded : msg.tryDecode_ buf copyBody = .ok (.complete, done, line1)) :
    done.complete = true := by
  by_cases read : msg.complete = true
  · rw [tryDecode_of_complete read] at decoded
    obtain ⟨rfl, -⟩ : msg = done ∧ [] = line1 := by simpa using decoded
    exact read
  · by_cases openBody : msg.contentLen ≠ 0
    · unfold tryDecode_ at decoded
      rw [if_neg read, if_pos openBody] at decoded
      obtain ⟨⟨found, body⟩, isBody, same⟩ := bind_eq_ok decoded
      obtain ⟨rfl, rfl, -⟩ : found = .complete ∧ body = done ∧ [] = line1 := by simpa using same
      exact (decodeBody_stores isBody).1
    · obtain ⟨parsed, -, ⟨-, body⟩ | ⟨impossible, -⟩⟩ :=
        tryDecode_parsed (not_or.mpr ⟨read, openBody⟩) decoded (.inl rfl)
      · exact (decodeBody_stores body).1
      · cases impossible

/-- A call asks for the body when the header says so and the body is not there. -/
theorem continue_of_tryDecode {msg done : HttpMsg} {buf line1 : List UInt8} {copyBody : Bool}
    (small : buf.length ≤ maxSize)
    (decoded : msg.tryDecode_ buf copyBody = .ok (.continue100, done, line1)) :
    done.getHeader (text "expect") ≠ [] ∧ buf.length < done.contentLen + done.getByte ∧
      done.Headed := by
  by_cases headed : msg.Headed
  · exact absurd rfl (headed.call decoded).1
  · obtain ⟨parsed, header, ⟨impossible, -⟩ | ⟨-, rfl, short, expects⟩⟩ :=
      tryDecode_parsed headed decoded (.inr rfl)
    · cases impossible
    · have inside := scanned_of_decodeHeader header
      obtain ⟨-, -, -, isLength⟩ := parsed_of_decodeHeader header
      have noWrap := addSize_of_short (isLength ▸ contentLenOf_lt _) inside small short
      refine ⟨expects, ?_, .inr (contentLen_ne_zero inside small short)⟩
      rw [getByte, ← noWrap]
      exact short

end HttpMsg

/-! ### Chains of calls -/

section

variable {Object : Type}

/-- A piece of memory that is handed to a decoder, and what is in memory behind it. -/
structure Piece where
  bytes : List UInt8
  behind : List UInt8

/-- Calls of a decoder on one input after another: the results, each with the object behind the
call. -/
def decodeChain {Input : Type} (decode : Object → Input → Except Fault (ParseResult × Object)) :
    Object → List Input → Except Fault (List (ParseResult × Object))
  | _, [] => .ok []
  | object, input :: rest => do
    let (result, next) ← decode object input
    let later ← decodeChain decode next rest
    return (result, next) :: later

/-- Each buffer begins with the one before it. -/
def Growing : List UInt8 → List (List UInt8) → Prop
  | _, [] => True
  | front, buf :: rest => front <+: buf ∧ Growing buf rest

/-- A message that is complete stays complete, the body is asked for at most once, and only with
an expect field and a body that is not there. -/
structure Orderly (message : Object → HttpMsg) (chain : List (List UInt8))
    (trace : List (ParseResult × Object)) : Prop where
  kept : (trace.map Prod.fst).Pairwise fun earlier later =>
    earlier = .complete → later = .complete
  once : (trace.map Prod.fst).count .continue100 ≤ 1
  expected : ∀ call ∈ chain.zip trace, call.2.1 = .continue100 →
    (message call.2.2).getHeader (text "expect") ≠ [] ∧
      call.1.length < (message call.2.2).contentLen + (message call.2.2).getByte

/-- Calls on a chain of pieces end with the object that one call on the whole gives, and with its
result, except that the body may have been asked for before; and they are orderly. -/
def Incremental (message : Object → HttpMsg)
    (decode : Object → Piece → Except Fault (ParseResult × Object)) (start : Object)
    (chain : List Piece) (whole : Piece) : Prop :=
  ∃ trace last result object, decodeChain decode start chain = .ok trace ∧
    decode start whole = .ok (result, object) ∧ trace.getLast? = some (last, object) ∧
    (last = result ∨ result = .continue100 ∧ last = .notComplete) ∧
    Orderly message (chain.map Piece.bytes) trace

/-- A decoder calls `tryDecode_` on its message, and changes at most the version behind it. -/
def Calls (message : Object → HttpMsg) (copyBody : Bool)
    (decode : Object → Piece → Except Fault (ParseResult × Object)) : Prop :=
  ∀ object piece result next, decode object piece = .ok (result, next) →
    ∃ msg line1 version, (message object).tryDecode_ piece.bytes copyBody = .ok (result, msg, line1) ∧
      message next = msg.withVersion version

section

variable {message : Object → HttpMsg} {copyBody : Bool}
  {decode : Object → Piece → Except Fault (ParseResult × Object)}
  (calls : Calls message copyBody decode)

include calls

/-- Behind a complete message every call returns it. -/
theorem Calls.complete {object : Object} {chain : List Piece}
    {trace : List (ParseResult × Object)} (read : (message object).complete = true)
    (decoded : decodeChain decode object chain = .ok trace) :
    ∀ result ∈ trace.map Prod.fst, result = .complete := by
  induction chain generalizing object trace with
  | nil =>
    obtain rfl := Except.ok.inj decoded
    nofun
  | cons piece rest inductionHypothesis =>
    obtain ⟨⟨result, next⟩, first, more⟩ := bind_eq_ok decoded
    obtain ⟨later, behind, same⟩ := bind_eq_ok more
    obtain rfl := Except.ok.inj same
    obtain ⟨msg, line1, version, called, isNext⟩ := calls object piece result next first
    rw [HttpMsg.tryDecode_of_complete read] at called
    obtain ⟨rfl, rfl, -⟩ : ParseResult.complete = result ∧ message object = msg ∧ [] = line1 := by
      simpa using called
    have stays : (message next).complete = true := by
      rw [isNext]
      exact read
    rw [List.map_cons, List.forall_mem_cons]
    exact ⟨rfl, inductionHypothesis stays behind⟩

/-- With the header parsed, no call asks for the body. -/
theorem Calls.headed {object : Object} {chain : List Piece}
    {trace : List (ParseResult × Object)} (headed : (message object).Headed)
    (decoded : decodeChain decode object chain = .ok trace) :
    ParseResult.continue100 ∉ trace.map Prod.fst := by
  induction chain generalizing object trace with
  | nil =>
    obtain rfl := Except.ok.inj decoded
    nofun
  | cons piece rest inductionHypothesis =>
    obtain ⟨⟨result, next⟩, first, more⟩ := bind_eq_ok decoded
    obtain ⟨later, behind, same⟩ := bind_eq_ok more
    obtain rfl := Except.ok.inj same
    obtain ⟨msg, line1, version, called, isNext⟩ := calls object piece result next first
    obtain ⟨other, stays⟩ := headed.call called
    have stays : (message next).Headed := by
      rw [isNext]
      exact stays
    rw [List.map_cons, List.mem_cons, not_or]
    exact ⟨Ne.symm other, inductionHypothesis stays behind⟩

theorem Calls.orderly {object : Object} {chain : List Piece}
    {trace : List (ParseResult × Object)} (small : ∀ piece ∈ chain, piece.bytes.length ≤ maxSize)
    (decoded : decodeChain decode object chain = .ok trace) :
    Orderly message (chain.map Piece.bytes) trace := by
  induction chain generalizing object trace with
  | nil =>
    obtain rfl := Except.ok.inj decoded
    exact ⟨List.Pairwise.nil, Nat.zero_le _, nofun⟩
  | cons piece rest inductionHypothesis =>
    obtain ⟨⟨result, next⟩, first, more⟩ := bind_eq_ok decoded
    obtain ⟨later, behind, same⟩ := bind_eq_ok more
    obtain rfl := Except.ok.inj same
    obtain ⟨msg, line1, version, called, isNext⟩ := calls object piece result next first
    obtain ⟨kept, once, expected⟩ := inductionHypothesis
      (fun other member => small other (List.mem_cons_of_mem _ member)) behind
    have asks (isContinue : result = .continue100) :
        msg.getHeader (text "expect") ≠ [] ∧
          piece.bytes.length < msg.contentLen + msg.getByte ∧ msg.Headed := by
      subst isContinue
      exact HttpMsg.continue_of_tryDecode (small piece List.mem_cons_self) called
    refine ⟨?_, ?_, ?_⟩
    · rw [List.map_cons, List.pairwise_cons]
      refine ⟨fun other member isComplete => ?_, kept⟩
      subst isComplete
      have read := HttpMsg.complete_of_tryDecode called
      refine calls.complete ?_ behind other member
      rw [isNext]
      exact read
    · rw [List.map_cons, List.count_cons]
      by_cases isContinue : result = .continue100
      · have headed : (message next).Headed := by
          rw [isNext]
          exact (asks isContinue).2.2
        rw [List.count_eq_zero_of_not_mem (calls.headed headed behind)]
        split <;> omega
      · rw [if_neg (by simpa using isContinue)]
        exact once
    · rw [List.map_cons, List.zip_cons_cons, List.forall_mem_cons]
      refine ⟨fun isContinue => ?_, expected⟩
      rw [isNext]
      exact ⟨(asks isContinue).1, (asks isContinue).2.1⟩

end

/-- Every buffer of a chain begins the last one. -/
theorem Growing.whole {buf whole : List UInt8} {rest : List (List UInt8)}
    (growing : Growing buf rest) (last : (buf :: rest).getLast? = some whole) : buf <+: whole := by
  induction rest generalizing buf with
  | nil =>
    obtain rfl := Option.some.inj last
    exact List.prefix_refl _
  | cons next rest inductionHypothesis =>
    rw [List.getLast?_cons_cons] at last
    exact growing.1.trans (inductionHypothesis growing.2 last)

/-- A call on a longer piece leaves the object that one call on it does. -/
def Resumes (decode : Object → Piece → Except Fault (ParseResult × Object)) (start : Object)
    (whole : List UInt8) : Prop :=
  ∀ front piece result object, front.bytes <+: piece.bytes → piece.bytes <+: whole →
    decode start front = .ok (result, object) →
    ∃ next called oneShot, decode object piece = .ok (called, next) ∧
      decode start piece = .ok (oneShot, next) ∧
      (called = oneShot ∨ oneShot = .continue100 ∧ called = .notComplete)

/-- From single calls to chains. -/
theorem Resumes.chain {decode : Object → Piece → Except Fault (ParseResult × Object)}
    {start object : Object} {front last : Piece} {chain : List Piece} {result : ParseResult}
    (resumes : Resumes decode start last.bytes)
    (growing : Growing front.bytes (chain.map Piece.bytes)) (isLast : chain.getLast? = some last)
    (reached : decode start front = .ok (result, object)) :
    ∃ trace called oneShot final, decodeChain decode object chain = .ok trace ∧
      decode start last = .ok (oneShot, final) ∧ trace.getLast? = some (called, final) ∧
      (called = oneShot ∨ oneShot = .continue100 ∧ called = .notComplete) := by
  induction chain generalizing front object result with
  | nil => cases isLast
  | cons piece rest inductionHypothesis =>
    obtain ⟨grows, later⟩ := growing
    have whole : (piece.bytes :: rest.map Piece.bytes).getLast? = some last.bytes := by
      rw [← List.map_cons, List.getLast?_map, isLast]
      rfl
    obtain ⟨next, called, oneShot, first, alone, agree⟩ :=
      resumes front piece result object grows (later.whole whole) reached
    cases rest with
    | nil =>
      obtain rfl := Option.some.inj isLast
      refine ⟨[(called, next)], called, oneShot, next, ?_, alone, rfl, agree⟩
      rw [decodeChain, first]
      rfl
    | cons other rest =>
      rw [List.getLast?_cons_cons] at isLast
      obtain ⟨trace, called', oneShot', final, decoded, whole', isFinal, agree'⟩ :=
        inductionHypothesis later isLast alone
      refine ⟨(called, next) :: trace, called', oneShot', final, ?_, whole', ?_, agree'⟩
      · rw [decodeChain, first, ok_bind]
        simp only [decoded]
        rfl
      · cases trace with
        | nil => cases isFinal
        | cons entry trace =>
          rw [List.getLast?_cons_cons]
          exact isFinal

theorem Growing.small {front whole : List UInt8} {chain : List (List UInt8)}
    (growing : Growing front chain) (last : chain.getLast? = some whole)
    (small : whole.length ≤ maxSize) : ∀ buf ∈ chain, buf.length ≤ maxSize := by
  induction chain generalizing front with
  | nil => nofun
  | cons buf rest inductionHypothesis =>
    rw [List.forall_mem_cons]
    refine ⟨(growing.2.whole last).length_le.trans small, ?_⟩
    cases rest with
    | nil => nofun
    | cons other rest =>
      rw [List.getLast?_cons_cons] at last
      exact inductionHypothesis growing.2 last

/-- What is behind the whole input does not matter to one call on it. -/
def Blind (decode : Object → Piece → Except Fault (ParseResult × Object)) (start : Object)
    (whole : List UInt8) : Prop :=
  ∀ behind other, decode start ⟨whole, behind⟩ = decode start ⟨whole, other⟩

/-- A decoder whose single calls resume decodes incrementally, if what is behind the whole input
does not matter to it. -/
theorem Resumes.incremental {message : Object → HttpMsg} {copyBody : Bool}
    {decode : Object → Piece → Except Fault (ParseResult × Object)} {start : Object}
    {whole : List UInt8} {chain : List Piece} (resumes : Resumes decode start whole)
    (blind : Blind decode start whole) (calls : Calls message copyBody decode)
    (growing : Growing [] (chain.map Piece.bytes))
    (last : (chain.map Piece.bytes).getLast? = some whole) (small : whole.length ≤ maxSize)
    (empty : decode start ⟨[], []⟩ = .ok (.notComplete, start)) (behind : List UInt8) :
    Incremental message decode start chain ⟨whole, behind⟩ := by
  obtain ⟨piece, isLast, rfl⟩ : ∃ piece, chain.getLast? = some piece ∧ piece.bytes = whole := by
    rw [List.getLast?_map] at last
    exact Option.map_eq_some_iff.mp last
  obtain ⟨trace, called, oneShot, final, decoded, alone, isFinal, agree⟩ :=
    resumes.chain growing isLast empty
  have fits : ∀ other ∈ chain, other.bytes.length ≤ maxSize := fun other member =>
    growing.small last small other.bytes (List.mem_map_of_mem member)
  exact ⟨trace, called, oneShot, final, decoded, (blind behind piece.behind).trans alone, isFinal,
    agree, calls.orderly fits decoded⟩

end

/-! ### Requests -/

namespace HttpRequest

/-- The loop over the arguments assigns them one after another. -/
theorem parseArgs_eq_setAll (fuel : Nat) (query : List UInt8) :
    ∃ entries, ∀ args, parseArgs fuel query args = OrderedMap.setAll args entries := by
  induction fuel generalizing query with
  | zero => exact ⟨[], fun _ => rfl⟩
  | succ fuel inductionHypothesis =>
    by_cases done : query = [] ∨ 61 ∉ query
    · exact ⟨[], fun args => by rw [parseArgs, if_pos done]; rfl⟩
    · simp only [parseArgs, if_neg done]
      obtain ⟨entries, later⟩ := inductionHypothesis
        (((query.dropWhile (· ≠ 61)).tail).dropWhile (· ≠ 38)).tail
      refine ⟨(query.takeWhile (· ≠ 61),
        ((query.dropWhile (· ≠ 61)).tail).takeWhile (· ≠ 38)) :: entries, fun args => ?_⟩
      rw [later, OrderedMap.setAll_cons]

/-- What the request line says: it is written over what is there, except that arguments are
assigned to the ones that are there. -/
theorem readRequestLine_eq (line1 : List UInt8) :
    ∃ version method url queryUrl entries, ∀ req : HttpRequest, req.readRequestLine line1 =
      { toHttpMsg := req.toHttpMsg.withVersion version
        method := method
        url := url
        queryUrl := queryUrl
        args := OrderedMap.setAll req.args entries } := by
  by_cases question : 63 ∈ (eatWord (eatWord line1).2).1
  · obtain ⟨entries, assigns⟩ := parseArgs_eq_setAll
      ((eatWord (eatWord line1).2).1.dropWhile (· ≠ 63)).tail.length
      ((eatWord (eatWord line1).2).1.dropWhile (· ≠ 63)).tail
    refine ⟨(eatWord (eatWord (eatWord line1).2).2).1, stringToMethod (eatWord line1).1,
      (eatWord (eatWord line1).2).1.takeWhile (· ≠ 63), (eatWord (eatWord line1).2).1, entries,
      fun req => ?_⟩
    rw [← assigns]
    simp only [readRequestLine, parseUrlParams, if_pos question]
    rfl
  · refine ⟨(eatWord (eatWord (eatWord line1).2).2).1, stringToMethod (eatWord line1).1,
      (eatWord (eatWord line1).2).1, (eatWord (eatWord line1).2).1, [], fun req => ?_⟩
    simp only [readRequestLine, parseUrlParams, if_neg question]
    rfl

/-- The request that a message and a request line make of a cleared one. -/
def assembled (msg : HttpMsg) (line1 : List UInt8) : HttpRequest :=
  if line1 = [] then { cleared with toHttpMsg := msg }
  else ({ cleared with toHttpMsg := msg } : HttpRequest).readRequestLine line1

theorem cleared_tryDecode (buf : List UInt8) (copyBody : Bool) :
    cleared.tryDecode buf copyBody = (HttpMsg.cleared.tryDecode_ buf copyBody).map
      fun (result, msg, line1) => (result, assembled msg line1) := by
  unfold tryDecode
  rw [show cleared.toHttpMsg = HttpMsg.cleared from rfl]
  cases HttpMsg.cleared.tryDecode_ buf copyBody <;> rfl

/-- A request line leaves a request with a version that does not depend on the message, and
reading it again or replacing the message changes nothing else. -/
theorem assembled_spec (line1 version : List UInt8) :
    ∃ known, ∀ msg : HttpMsg, msg.version = version →
      (assembled msg line1).toHttpMsg = msg.withVersion known ∧
      (∀ other : HttpMsg, other.version = version →
        ({ assembled msg line1 with toHttpMsg := other.withVersion known } : HttpRequest) =
          assembled other line1) ∧
      (line1 ≠ [] → ({ assembled msg line1 with
        toHttpMsg := msg.withVersion known } : HttpRequest).readRequestLine line1 =
          assembled msg line1) := by
  by_cases empty : line1 = []
  · refine ⟨version, fun msg same => ?_⟩
    unfold assembled
    rw [if_pos empty]
    refine ⟨?_, fun other same' => ?_, fun nonempty => absurd empty nonempty⟩
    · rw [← same]
      rfl
    · rw [if_pos empty, ← same']
      rfl
  · obtain ⟨known, method, url, queryUrl, entries, reads⟩ := readRequestLine_eq line1
    refine ⟨known, fun msg same => ?_⟩
    unfold assembled
    rw [if_neg empty, reads]
    refine ⟨rfl, fun other _ => ?_, fun _ => ?_⟩
    · rw [if_neg empty, reads]
    · rw [reads]
      simp only [OrderedMap.setAll_setAll]
      rfl

theorem tryDecode_calls (copyBody : Bool) :
    Calls toHttpMsg copyBody fun req piece => req.tryDecode piece.bytes copyBody := by
  intro req piece result next decoded
  obtain ⟨⟨found, msg, line1⟩, called, same⟩ := bind_eq_ok decoded
  obtain ⟨rfl, rfl⟩ := Prod.mk.inj (Except.ok.inj same)
  split
  · exact ⟨msg, line1, msg.version, called, rfl⟩
  · obtain ⟨version, method, url, queryUrl, entries, reads⟩ := readRequestLine_eq line1
    refine ⟨msg, line1, version, called, ?_⟩
    rw [reads]

/-- A call on a longer piece leaves the request that one call on it does. -/
theorem tryDecode_resumes (copyBody : Bool) {whole : List UInt8} (small : whole.length ≤ maxSize)
    (nonNegative : HttpMsg.NonNegative whole) :
    Resumes (fun req piece => req.tryDecode piece.bytes copyBody) cleared whole := by
  rintro ⟨front, beyond⟩ ⟨buf, behind⟩ result object ⟨more, isBuf⟩ part reached
  obtain rfl : front ++ more = buf := isBuf
  have shorter : (front ++ more).length ≤ whole.length := part.length_le
  obtain ⟨alone, one, first, oneShot⟩ := nonNegative.returns part small copyBody
  simp only [cleared_tryDecode, oneShot] at reached ⊢
  cases returned : HttpMsg.cleared.tryDecode_ front copyBody with
  | error fault =>
    rw [returned] at reached
    cases reached
  | ok value =>
    obtain ⟨found, msg, line1⟩ := value
    rw [returned] at reached
    obtain ⟨rfl, rfl⟩ := Prod.mk.inj (Except.ok.inj reached)
    have phase := HttpMsg.phase_of_tryDecode returned
    have oneVersion := (HttpMsg.phase_of_tryDecode oneShot).version
    obtain ⟨known, spec⟩ := assembled_spec line1 HttpMsg.cleared.version
    obtain ⟨isMsg, replaces, -⟩ := spec msg phase.version
    have next := phase.next more (by omega)
    rw [oneShot] at next
    have called : tryDecode (assembled msg line1) (front ++ more) copyBody =
        ((msg.tryDecode_ (front ++ more) copyBody).map fun (result, done, line) =>
          (result, done.withVersion known, line)) >>= fun (result, done, line) =>
            .ok (result, if line = [] then { assembled msg line1 with toHttpMsg := done }
              else ({ assembled msg line1 with toHttpMsg := done } : HttpRequest).readRequestLine
                line) := by
      rw [← HttpMsg.tryDecode_withVersion, ← isMsg]
      rfl
    simp only
    rw [called]
    generalize msg.tryDecode_ (front ++ more) copyBody = value at next
    cases next with
    | same _ fresh =>
      subst fresh
      have isKnown : known = one.version := by
        have version := congrArg HttpMsg.version isMsg
        exact version.symm.trans (phase.version.trans oneVersion.symm)
      have kept : one.withVersion known = one := by
        rw [isKnown]
        rfl
      refine ⟨assembled one first, alone, alone, ?_, rfl, .inl rfl⟩
      show Except.ok _ = _
      rw [kept]
      rfl
    | again _ failed =>
      obtain ⟨-, same, again⟩ := spec one oneVersion
      have same := same one oneVersion
      refine ⟨assembled one first, .error, .error, ?_, rfl, .inl rfl⟩
      show Except.ok (_, if first = [] then _ else _) = _
      rw [replaces one oneVersion]
      by_cases empty : first = []
      · rw [if_pos empty]
      · have again := again empty
        rw [same] at again
        rw [if_neg empty, again]
    | waits _ waiting open' unread =>
      refine ⟨assembled one first, _, _, congrArg _ (congrArg _ (replaces one oneVersion)), rfl, ?_⟩
      exact HttpMsg.waiting_agrees one
    | completes _ noError read =>
      exact ⟨assembled one first, _, _, congrArg _ (congrArg _ (replaces one oneVersion)), rfl,
        .inl rfl⟩

end HttpRequest

/-! ### Responses -/

namespace HttpResponse

/-- Where in the buffer `atoi` reads the status. -/
def statusPointer (line1 : List UInt8) : Nat :=
  line1.length - ((eatWord line1).2.dropWhile isSpace).length

/-- The response that a message and a status line make of a cleared one. -/
def assembled (msg : HttpMsg) (memory line1 : List UInt8) : HttpResponse :=
  if line1 = [] then { cleared with toHttpMsg := msg }
  else ({ cleared with toHttpMsg := msg } : HttpResponse).readStatusLine memory line1

theorem readStatusLine_eq (resp : HttpResponse) (memory line1 : List UInt8) :
    resp.readStatusLine memory line1 =
      { toHttpMsg := resp.toHttpMsg.withVersion (eatWord line1).1
        status := atoi (memory.drop (statusPointer line1))
        statusMsg := trimSpace (eatWord (eatWord line1).2).2 } :=
  rfl

theorem cleared_tryDecode (buf behind : List UInt8) (copyBody : Bool) :
    cleared.tryDecode buf behind copyBody = (HttpMsg.cleared.tryDecode_ buf copyBody).map
      fun (result, msg, line1) => (result, assembled msg (buf ++ behind) line1) := by
  unfold tryDecode
  rw [show cleared.toHttpMsg = HttpMsg.cleared from rfl]
  cases HttpMsg.cleared.tryDecode_ buf copyBody <;> rfl

theorem tryDecode_calls (copyBody : Bool) :
    Calls toHttpMsg copyBody fun resp piece => resp.tryDecode piece.bytes piece.behind copyBody := by
  intro resp piece result next decoded
  obtain ⟨⟨found, msg, line1⟩, called, same⟩ := bind_eq_ok decoded
  obtain ⟨rfl, rfl⟩ := Prod.mk.inj (Except.ok.inj same)
  split
  · exact ⟨msg, line1, msg.version, called, rfl⟩
  · exact ⟨msg, line1, (eatWord line1).1, called, rfl⟩

/-- The version behind a status line. -/
def knownVersion (line1 : List UInt8) : List UInt8 :=
  if line1 = [] then HttpMsg.cleared.version else (eatWord line1).1

theorem assembled_toHttpMsg {msg : HttpMsg} (same : msg.version = HttpMsg.cleared.version)
    (memory line1 : List UInt8) :
    (assembled msg memory line1).toHttpMsg = msg.withVersion (knownVersion line1) := by
  unfold assembled knownVersion
  split
  · rw [← same]
    rfl
  · rfl

/-- With another message behind it, a response differs from the one assembled in other memory in
its status at most. -/
theorem assembled_replace (msg : HttpMsg) {other : HttpMsg}
    (same : other.version = HttpMsg.cleared.version) (front memory line1 : List UInt8) :
    ({ assembled msg front line1 with
      toHttpMsg := other.withVersion (knownVersion line1) } : HttpResponse) =
      { assembled other memory line1 with status := (assembled msg front line1).status } := by
  unfold assembled knownVersion
  split
  · rw [← same]
    rfl
  · rfl

/-- Reading the status line again writes over what is there. -/
theorem assembled_again {msg other : HttpMsg} (same : other.version = HttpMsg.cleared.version)
    (front memory line1 : List UInt8) :
    (if line1 = [] then ({ assembled msg front line1 with
        toHttpMsg := other.withVersion (knownVersion line1) } : HttpResponse)
      else ({ assembled msg front line1 with
        toHttpMsg := other.withVersion (knownVersion line1) } : HttpResponse).readStatusLine memory
          line1) = assembled other memory line1 := by
  unfold assembled knownVersion
  by_cases empty : line1 = []
  · rw [if_pos empty, if_pos empty, if_pos empty, if_pos empty, ← same]
    rfl
  · rw [if_neg empty, if_neg empty, if_neg empty, if_neg empty]
    rfl

end HttpResponse

/-- A header that is parsed shows in the phase. -/
theorem HttpMsg.Phase.of_parsed {msg parsed : HttpMsg} {buf line1 line : List UInt8}
    {copyBody : Bool} {result : ParseResult} (phase : Phase buf copyBody result msg line1)
    (header : cleared.decodeHeader buf = .parsed parsed line) :
    line1 = line ∧ result ≠ .error := by
  cases phase with
  | looking looked missing =>
    rw [missing] at header
    cases header
  | malformed looked line1 malformed =>
    rw [malformed] at header
    cases header
  | waiting other line1 isParsed short =>
    rw [isParsed] at header
    obtain ⟨-, rfl⟩ := Header.parsed.inj header
    refine ⟨rfl, ?_⟩
    split <;> exact ParseResult.noConfusion
  | complete other done line1 isParsed body =>
    rw [isParsed] at header
    obtain ⟨-, rfl⟩ := Header.parsed.inj header
    exact ⟨rfl, ParseResult.noConfusion⟩

/-- A line that was stored is the first one of a header that was parsed, or of a malformed one. -/
theorem HttpMsg.Phase.parsed_of_line {msg : HttpMsg} {buf line1 : List UInt8} {copyBody : Bool}
    {result : ParseResult} (phase : Phase buf copyBody result msg line1) (nonempty : line1 ≠ [])
    (noError : result ≠ .error) : ∃ parsed, cleared.decodeHeader buf = .parsed parsed line1 := by
  cases phase with
  | looking looked missing => exact absurd rfl nonempty
  | malformed looked line1 malformed => exact absurd rfl noError
  | waiting parsed line1 header short => exact ⟨_, header⟩
  | complete parsed done line1 header body => exact ⟨parsed, header⟩

namespace HttpResponse

/-- A call on a longer piece leaves the response that one call on it does, except that the status
is the one of the call that parsed the header. -/
theorem tryDecode_next (copyBody : Bool) {front more whole beyond : List UInt8}
    (behind : List UInt8) {object : HttpResponse} {result : ParseResult}
    (small : whole.length ≤ maxSize) (nonNegative : HttpMsg.NonNegative whole)
    (part : front ++ more <+: whole)
    (reached : cleared.tryDecode front beyond copyBody = .ok (result, object)) :
    ∃ next called oneShot final,
      object.tryDecode (front ++ more) behind copyBody = .ok (called, next) ∧
      cleared.tryDecode (front ++ more) behind copyBody = .ok (oneShot, final) ∧
      (called = oneShot ∨ oneShot = .continue100 ∧ called = .notComplete) ∧
      ((∀ parsed line1, HttpMsg.cleared.decodeHeader front = .parsed parsed line1 → line1 = []) →
        next = final) ∧
      ∀ parsed line1, HttpMsg.cleared.decodeHeader front = .parsed parsed line1 → line1 ≠ [] →
        next = { final with status := object.status } ∧
          object.status = atoi ((front ++ beyond).drop (statusPointer line1)) ∧
          final.status = atoi ((front ++ more ++ behind).drop (statusPointer line1)) := by
  have shorter := part.length_le
  obtain ⟨alone, one, first, oneShot⟩ := nonNegative.returns part small copyBody
  simp only [cleared_tryDecode, oneShot] at reached ⊢
  cases returned : HttpMsg.cleared.tryDecode_ front copyBody with
  | error fault =>
    rw [returned] at reached
    cases reached
  | ok value =>
    obtain ⟨found, msg, line1⟩ := value
    rw [returned] at reached
    obtain ⟨rfl, rfl⟩ := Prod.mk.inj (Except.ok.inj reached)
    have phase := HttpMsg.phase_of_tryDecode returned
    have oneVersion := (HttpMsg.phase_of_tryDecode oneShot).version
    have isMsg := assembled_toHttpMsg phase.version (front ++ beyond) line1
    have next := phase.next more (by omega)
    rw [oneShot] at next
    have called : tryDecode (assembled msg (front ++ beyond) line1) (front ++ more) behind copyBody =
        ((msg.tryDecode_ (front ++ more) copyBody).map fun (result, done, line) =>
          (result, done.withVersion (knownVersion line1), line)) >>= fun (result, done, line) =>
            .ok (result, if line = [] then
                { assembled msg (front ++ beyond) line1 with toHttpMsg := done }
              else ({ assembled msg (front ++ beyond) line1 with toHttpMsg := done } :
                HttpResponse).readStatusLine (front ++ more ++ behind) line) := by
      rw [← HttpMsg.tryDecode_withVersion, ← isMsg]
      rfl
    rw [called]
    generalize msg.tryDecode_ (front ++ more) copyBody = value at next
    have read (parsed : HttpMsg) (line : List UInt8)
        (header : HttpMsg.cleared.decodeHeader front = .parsed parsed line) (nonempty : line ≠ [])
        (other : HttpMsg) (memory : List UInt8) :
        (assembled other memory line1).status = atoi (memory.drop (statusPointer line)) := by
      obtain ⟨rfl, -⟩ := phase.of_parsed header
      unfold assembled
      rw [if_neg nonempty, readStatusLine_eq]
    -- Without a status line the status is the one of a cleared response in both.
    have unread (noError : found ≠ .error)
        (empty : ∀ parsed line, HttpMsg.cleared.decodeHeader front = .parsed parsed line →
          line = []) : ({ assembled one (front ++ more ++ behind) line1 with
            status := (assembled msg (front ++ beyond) line1).status } : HttpResponse) =
          assembled one (front ++ more ++ behind) line1 := by
      have noLine : line1 = [] := by
        by_contra nonempty
        obtain ⟨parsed, header⟩ := phase.parsed_of_line nonempty noError
        exact nonempty (empty parsed line1 header)
      subst noLine
      rfl
    cases next with
    | same _ fresh =>
      subst fresh
      have kept : one.withVersion (knownVersion []) = one := by
        rw [show knownVersion [] = one.version from oneVersion.symm]
        rfl
      refine ⟨assembled one (front ++ more ++ behind) first, alone, alone, _, ?_, rfl, .inl rfl,
        fun _ => rfl, fun parsed line header nonempty => ?_⟩
      · show Except.ok _ = _
        rw [kept]
        rfl
      · exact absurd (phase.of_parsed header).1.symm nonempty
    | again _ failed =>
      refine ⟨_, .error, .error, _, rfl, rfl, .inl rfl, fun _ => ?_,
        fun parsed line header _ => absurd failed (phase.of_parsed header).2⟩
      exact assembled_again oneVersion (front ++ beyond) (front ++ more ++ behind) first
    | waits _ waiting open' _ =>
      have replaced := assembled_replace msg oneVersion (front ++ beyond)
        (front ++ more ++ behind) first
      refine ⟨_, _, _, _, rfl, rfl, HttpMsg.waiting_agrees one,
        fun empty => replaced.trans (unread waiting empty), fun parsed line header nonempty => ?_⟩
      exact ⟨replaced, read parsed line header nonempty msg (front ++ beyond),
        read parsed line header nonempty one (front ++ more ++ behind)⟩
    | completes _ noError isRead =>
      have replaced := assembled_replace msg oneVersion (front ++ beyond)
        (front ++ more ++ behind) first
      refine ⟨_, _, _, _, rfl, rfl, .inl rfl,
        fun empty => replaced.trans (unread noError empty), fun parsed line header nonempty => ?_⟩
      exact ⟨replaced, read parsed line header nonempty msg (front ++ beyond),
        read parsed line header nonempty one (front ++ more ++ behind)⟩

end HttpResponse

namespace HttpMsg

/-- The search finds the marker in the part of the input that ends with it. -/
theorem seek_take {bytes : List UInt8} (found : (seek bytes).2 = true) :
    seek (bytes.take ((seek bytes).1 + 4)) = seek bytes := by
  induction bytes with
  | nil => cases found
  | cons byte rest inductionHypothesis =>
    have bound := seek_found_le found
    by_cases short : (byte :: rest).length < 4
    · omega
    by_cases here : (byte :: rest).take 4 = headerEnd
    · have isHere : seek (byte :: rest) = (0, true) := by rw [seek, if_neg short, if_pos here]
      rw [isHere, Nat.zero_add, here]
      rfl
    · have isLater : seek (byte :: rest) = ((seek rest).1 + 1, (seek rest).2) := by
        rw [seek, if_neg short, if_neg here]
      rw [isLater] at found bound ⊢
      have long : ¬ (byte :: rest.take ((seek rest).1 + 4)).length < 4 := by
        rw [List.length_cons] at bound ⊢
        rw [List.length_take]
        omega
      have same : (byte :: rest.take ((seek rest).1 + 4)).take 4 = (byte :: rest).take 4 := by
        rw [List.take_succ_cons, List.take_succ_cons, List.take_take, min_eq_left (by omega)]
      rw [Nat.add_right_comm, List.take_succ_cons, seek, if_neg long, same, if_neg here,
        inductionHypothesis found]

/-- The header is parsed in the part of the input that ends with the marker, and its first line
lies in front of the marker. -/
theorem decodeHeader_take {parsed : HttpMsg} {buf line1 : List UInt8}
    (header : cleared.decodeHeader buf = .parsed parsed line1) :
    cleared.decodeHeader (buf.take parsed.scanned) = .parsed parsed line1 ∧
      line1.length + 4 ≤ parsed.scanned ∧
      (buf.take parsed.scanned).drop (parsed.scanned - 4) = headerEnd := by
  have inside := scanned_of_decodeHeader header
  obtain ⟨found, somewhere⟩ := seek_of_decodeHeader fun looked missing => by
    rw [missing] at header
    cases header
  have found : (seek buf).2 = true := found
  have looked : (cleared.look buf).scanned = (seek buf).1 := Nat.zero_add _
  have isScanned : parsed.scanned = (seek buf).1 + 4 :=
    (parsed_of_decodeHeader header).1.trans (by rw [looked])
  rw [looked] at somewhere
  refine ⟨?_, ?_, ?_⟩
  · have present : ∀ other, cleared.decodeHeader (buf.take parsed.scanned) ≠ .missing other := by
      intro other
      have again : seek ((buf.take parsed.scanned).drop cleared.scanned) = seek buf := by
        rw [isScanned]
        exact seek_take found
      have nonzero : (cleared.look (buf.take parsed.scanned)).scanned ≠ 0 := by
        show 0 + (seek ((buf.take parsed.scanned).drop cleared.scanned)).1 ≠ 0
        rw [again, Nat.zero_add]
        exact somewhere
      unfold decodeHeader
      rw [again, if_neg (by simp [found, nonzero])]
      exact parseHeader_ne_missing _ _ _
    rw [← decodeHeader_append present (buf.drop parsed.scanned), List.take_append_drop, header]
  · have isLine : line1 = (eatLine (buf.take (seek buf).1)).1 := by
      unfold decodeHeader at header
      rw [looked, if_neg (by simp [cleared, found, somewhere])] at header
      unfold parseHeader at header
      simp only at header
      split at header
      · cases header
      · exact (Header.parsed.inj header).2.symm
    have shorter : line1.length ≤ (buf.take (seek buf).1).length := by
      rw [isLine]
      exact (List.takeWhile_prefix _).length_le
    rw [List.length_take] at shorter
    omega
  · obtain ⟨front, rest, isBuf, length⟩ : ∃ front rest,
        buf = front ++ (headerEnd ++ rest) ∧ front.length = (seek buf).1 := by
      refine ⟨buf.take (seek buf).1, buf.drop ((seek buf).1 + 4), ?_, ?_⟩
      · rw [← List.append_assoc]
        exact seek_shape found
      · rw [List.length_take, min_eq_left (seek_le buf)]
    rw [isScanned, Nat.add_sub_cancel, ← length, isBuf, List.take_length_add_append,
      List.drop_left]
    rfl

end HttpMsg

namespace HttpResponse

/-- The whole input settles the status. A header that is parsed has a byte that is no space at or
behind the place where `atoi` begins to read. Of a malformed header, which every call reads again,
the number there is settled by the input. -/
structure StatusSettled (whole : List UInt8) : Prop where
  parsed : ∀ parsed line1, HttpMsg.cleared.decodeHeader whole = .parsed parsed line1 → line1 ≠ [] →
    ∃ byte ∈ (whole.take parsed.scanned).drop (statusPointer line1), isSpace byte = false
  malformed : ∀ looked line1, HttpMsg.cleared.decodeHeader whole = .malformed looked line1 →
    line1 ≠ [] → Settled (whole.drop (statusPointer line1))

theorem headerEnd_spaces : ∀ byte ∈ headerEnd, isSpace byte = true :=
  List.all_eq_true.mp rfl

theorem headerEnd_head (more : List UInt8) :
    ∀ byte ∈ (headerEnd ++ more).head?, Decimal.isDigit byte = false := by
  intro byte member
  obtain rfl : 13 = byte := Option.some.inj member
  decide

/-- A number that begins in the header ends in it, since the marker has no digit. -/
theorem strtol_header {parsed : HttpMsg} {whole line1 : List UInt8}
    (header : HttpMsg.cleared.decodeHeader whole = .parsed parsed line1) (more : List UInt8)
    (solid : ∃ byte ∈ (whole.take parsed.scanned).drop (statusPointer line1),
      isSpace byte = false) :
    strtol ((whole.take parsed.scanned).drop (statusPointer line1) ++ more) =
      strtol ((whole.take parsed.scanned).drop (statusPointer line1)) := by
  obtain ⟨-, inFront, marker⟩ := HttpMsg.decodeHeader_take header
  have inside : statusPointer line1 ≤ line1.length := Nat.sub_le _ _
  have within := HttpMsg.scanned_of_decodeHeader header
  have isLength : (whole.take parsed.scanned).length = parsed.scanned := by
    rw [List.length_take, min_eq_left within]
  generalize whole.take parsed.scanned = part at *
  have parts : part.drop (statusPointer line1) =
      (part.take (parsed.scanned - 4)).drop (statusPointer line1) ++ headerEnd := by
    have cut : part.take (parsed.scanned - 4) ++ headerEnd = part := by
      rw [← marker, List.take_append_drop]
    have covered : statusPointer line1 ≤ (part.take (parsed.scanned - 4)).length := by
      rw [List.length_take, ← isLength]
      omega
    rw [← List.drop_append_of_le_length covered, cut]
  have begins : ((part.take (parsed.scanned - 4)).drop (statusPointer line1)).dropWhile isSpace ≠
      [] := by
    intro blank
    rw [List.dropWhile_eq_nil_iff] at blank
    obtain ⟨byte, member, noSpace⟩ := solid
    rw [parts, List.mem_append] at member
    rcases member with member | member
    · rw [blank byte member] at noSpace
      cases noSpace
    · rw [headerEnd_spaces byte member] at noSpace
      cases noSpace
  have alone := headerEnd_head []
  rw [List.append_nil] at alone
  rw [parts, List.append_assoc, strtol_append begins (headerEnd_head more),
    strtol_append begins alone]

/-- Every piece that holds a header that settles the status gives the same number, whatever is
behind the piece. -/
theorem StatusSettled.atoi_eq {parsed : HttpMsg} {front whole line1 : List UInt8}
    (settled : StatusSettled whole) (part : front <+: whole)
    (header : HttpMsg.cleared.decodeHeader front = .parsed parsed line1) (nonempty : line1 ≠ [])
    (behind : List UInt8) : atoi ((front ++ behind).drop (statusPointer line1)) =
      atoi ((whole.take parsed.scanned).drop (statusPointer line1)) := by
  obtain ⟨more, rfl⟩ := part
  have longer : HttpMsg.cleared.decodeHeader (front ++ more) = .parsed parsed line1 := by
    rw [HttpMsg.decodeHeader_append (by simp [header]), header]
  have inside := HttpMsg.scanned_of_decodeHeader header
  obtain ⟨-, inFront, -⟩ := HttpMsg.decodeHeader_take header
  have covered : statusPointer line1 ≤ line1.length := Nat.sub_le _ _
  have same : (front ++ more).take parsed.scanned = front.take parsed.scanned :=
    List.take_append_of_le_length inside
  have parts : (front ++ behind).drop (statusPointer line1) =
      (front.take parsed.scanned).drop (statusPointer line1) ++
        (front.drop parsed.scanned ++ behind) := by
    rw [← List.drop_append_of_le_length, ← List.append_assoc, List.take_append_drop]
    rw [List.length_take, min_eq_left inside]
    omega
  have solid := settled.parsed parsed line1 longer nonempty
  rw [same] at solid ⊢
  rw [parts, atoi, atoi, strtol_header header _ solid]

/-- Where the input settles the status, a call on a longer piece leaves the response that one call
on it does. -/
theorem tryDecode_resumes (copyBody : Bool) {whole : List UInt8} (small : whole.length ≤ maxSize)
    (nonNegative : HttpMsg.NonNegative whole) (settled : StatusSettled whole) :
    Resumes (fun resp piece => resp.tryDecode piece.bytes piece.behind copyBody) cleared whole := by
  rintro ⟨front, beyond⟩ ⟨buf, behind⟩ result object ⟨more, isBuf⟩ part reached
  obtain rfl : front ++ more = buf := isBuf
  obtain ⟨next, called, oneShot, final, resumed, alone, agree, unread, readsStatus⟩ :=
    tryDecode_next copyBody behind small nonNegative part reached
  refine ⟨next, called, oneShot, resumed, alone.trans ?_, agree⟩
  by_cases line : ∀ parsed line1, HttpMsg.cleared.decodeHeader front = .parsed parsed line1 →
      line1 = []
  · rw [unread line]
  · push Not at line
    obtain ⟨parsed, line1, header, nonempty⟩ := line
    obtain ⟨isNext, frontStatus, finalStatus⟩ := readsStatus parsed line1 header nonempty
    have inWhole : front <+: whole := (List.prefix_append front more).trans part
    have same : object.status = final.status := by
      rw [frontStatus, finalStatus, settled.atoi_eq inWhole header nonempty, List.append_assoc,
        settled.atoi_eq inWhole header nonempty]
    rw [isNext, same]

/-- The first line of a header begins the buffer. -/
theorem line_le {msg looked : HttpMsg} {buf line1 : List UInt8}
    (header : msg.decodeHeader buf = .malformed looked line1) : line1.length ≤ buf.length := by
  unfold HttpMsg.decodeHeader at header
  split at header
  · cases header
  · unfold HttpMsg.parseHeader at header
    simp only at header
    split at header
    · obtain ⟨-, rfl⟩ := HttpMsg.Header.malformed.inj header
      exact (List.takeWhile_prefix _).length_le.trans (List.length_take_le' _ _)
    · cases header

/-- What is behind the input does not change a status that is settled. -/
theorem StatusSettled.blind (copyBody : Bool) {whole : List UInt8}
    (settled : StatusSettled whole) :
    Blind (fun resp piece => resp.tryDecode piece.bytes piece.behind copyBody) cleared whole := by
  intro behind other
  simp only [cleared_tryDecode]
  cases called : HttpMsg.cleared.tryDecode_ whole copyBody with
  | error fault => rfl
  | ok value =>
    obtain ⟨result, msg, line1⟩ := value
    have phase := HttpMsg.phase_of_tryDecode called
    have status (nonempty : line1 ≠ []) : atoi ((whole ++ behind).drop (statusPointer line1)) =
        atoi ((whole ++ other).drop (statusPointer line1)) := by
      by_cases failed : result = .error
      · cases phase with
        | looking => cases failed
        | complete => cases failed
        | waiting parsed _ header short => split at failed <;> cases failed
        | malformed looked _ header =>
          have covered : statusPointer line1 ≤ whole.length :=
            (Nat.sub_le _ _).trans (line_le header)
          have number := settled.malformed _ line1 header nonempty
          rw [List.drop_append_of_le_length covered, List.drop_append_of_le_length covered,
            number.append, number.append]
      · obtain ⟨parsed, header⟩ := phase.parsed_of_line nonempty failed
        rw [settled.atoi_eq (List.prefix_refl _) header nonempty,
          settled.atoi_eq (List.prefix_refl _) header nonempty]
    have same : assembled msg (whole ++ behind) line1 = assembled msg (whole ++ other) line1 := by
      unfold assembled
      split
      · rfl
      · rename_i nonempty
        rw [readStatusLine_eq, readStatusLine_eq, status nonempty]
    show Except.ok (result, assembled msg (whole ++ behind) line1) =
      Except.ok (result, assembled msg (whole ++ other) line1)
    rw [same]

/-- Decoding incrementally, the call that parses the header reads the status of the whole input. -/
theorem atoi_of_incremental {copyBody : Bool} {front whole line1 : List UInt8} {parsed : HttpMsg}
    (small : whole.length ≤ maxSize) (nonNegative : HttpMsg.NonNegative whole)
    {beyond : List UInt8} (incremental : Incremental toHttpMsg
      (fun resp piece => resp.tryDecode piece.bytes piece.behind copyBody) cleared
      [⟨front, beyond⟩, ⟨whole, []⟩] ⟨whole, []⟩) (part : front <+: whole)
    (header : HttpMsg.cleared.decodeHeader front = .parsed parsed line1) (nonempty : line1 ≠ []) :
    atoi ((front ++ beyond).drop (statusPointer line1)) =
      atoi ((whole ++ []).drop (statusPointer line1)) := by
  obtain ⟨trace, last, result, object, decoded, oneShot, isLast, -, -⟩ := incremental
  obtain ⟨⟨found, first⟩, called, later⟩ := bind_eq_ok decoded
  obtain ⟨rest, again, isTrace⟩ := bind_eq_ok later
  obtain ⟨⟨found', second⟩, called', later'⟩ := bind_eq_ok again
  obtain rfl := Except.ok.inj later'
  obtain rfl := Except.ok.inj isTrace
  obtain ⟨-, rfl⟩ := Prod.mk.inj (Option.some.inj isLast)
  obtain ⟨more, rfl⟩ := part
  obtain ⟨next, _, _, final, resumed, alone, -, -, readsStatus⟩ :=
    tryDecode_next copyBody [] small nonNegative (List.prefix_refl _) called
  obtain ⟨isNext, frontStatus, finalStatus⟩ := readsStatus parsed line1 header nonempty
  have isSecond : next = second :=
    (Prod.mk.inj (Except.ok.inj (resumed.symm.trans called'))).2
  have isFinal : final = second := (Prod.mk.inj (Except.ok.inj (alone.symm.trans oneShot))).2
  rw [← frontStatus, ← finalStatus, isFinal, ← isSecond]
  exact (congrArg HttpResponse.status isNext).symm

/-- One call on a malformed header reads the status in the piece and behind it. -/
theorem status_of_malformed {copyBody : Bool} {buf behind line1 : List UInt8} {looked : HttpMsg}
    {result : ParseResult} {object : HttpResponse}
    (header : HttpMsg.cleared.decodeHeader buf = .malformed looked line1) (nonempty : line1 ≠ [])
    (called : cleared.tryDecode buf behind copyBody = .ok (result, object)) :
    object.status = atoi ((buf ++ behind).drop (statusPointer line1)) := by
  rw [cleared_tryDecode, HttpMsg.Phase.tryDecode (.malformed looked line1 header)] at called
  obtain ⟨-, rfl⟩ := Prod.mk.inj (Except.ok.inj called)
  unfold assembled
  rw [if_neg nonempty, readStatusLine_eq]

/-- Where the input does not settle the status, what is behind a piece changes it. -/
theorem statusSettled_of_incremental {copyBody : Bool} {whole : List UInt8}
    (small : whole.length ≤ maxSize) (nonNegative : HttpMsg.NonNegative whole)
    (incremental : ∀ chain behind, Growing [] (chain.map Piece.bytes) →
      (chain.map Piece.bytes).getLast? = some whole →
      Incremental toHttpMsg (fun resp piece => resp.tryDecode piece.bytes piece.behind copyBody)
        cleared chain ⟨whole, behind⟩) : StatusSettled whole := by
  constructor
  · intro parsed line1 header nonempty
    by_contra blank
    have spaces : ∀ byte ∈ (whole.take parsed.scanned).drop (statusPointer line1),
        isSpace byte = true := fun byte member => by
      by_contra noSpace
      exact blank ⟨byte, member, Bool.eq_false_iff.mpr noSpace⟩
    obtain ⟨short, inFront, -⟩ := HttpMsg.decodeHeader_take header
    have within := HttpMsg.scanned_of_decodeHeader header
    have covered : statusPointer line1 ≤ (whole.take parsed.scanned).length := by
      have := Nat.sub_le line1.length ((eatWord line1).2.dropWhile isSpace).length
      rw [List.length_take, min_eq_left within]
      unfold statusPointer
      omega
    -- The header alone gives zero, and with a digit behind the piece that digit.
    have reads (beyond : List UInt8) := atoi_of_incremental small nonNegative
      (incremental [⟨whole.take parsed.scanned, beyond⟩, ⟨whole, []⟩] []
        ⟨List.nil_prefix, List.take_prefix _ _, trivial⟩ rfl) (List.take_prefix _ _) short nonempty
    obtain ⟨zero, seven⟩ := atoi_blank spaces
    have same := (reads []).trans (reads [55]).symm
    rw [List.append_nil, List.drop_append_of_le_length covered, zero, seven] at same
    cases same
  · intro looked line1 header nonempty digit _
    obtain ⟨trace, last, result, object, decoded, oneShot, isLast, -, -⟩ :=
      incremental [⟨whole, [digit]⟩] [] ⟨List.nil_prefix, trivial⟩ rfl
    obtain ⟨⟨found, first⟩, called, later⟩ := bind_eq_ok decoded
    obtain rfl := Except.ok.inj later
    obtain ⟨-, rfl⟩ := Prod.mk.inj (Option.some.inj isLast)
    have covered : statusPointer line1 ≤ whole.length := (Nat.sub_le _ _).trans (line_le header)
    have inChain := status_of_malformed header nonempty called
    have alone := status_of_malformed header nonempty oneShot
    rw [List.append_nil] at alone
    rw [List.drop_append_of_le_length covered] at inChain
    exact inChain.symm.trans alone

theorem incremental_iff (copyBody : Bool) {whole : List UInt8} (small : whole.length ≤ maxSize)
    (nonNegative : HttpMsg.NonNegative whole) :
    (∀ chain behind, Growing [] (chain.map Piece.bytes) →
      (chain.map Piece.bytes).getLast? = some whole →
      Incremental toHttpMsg (fun resp piece => resp.tryDecode piece.bytes piece.behind copyBody)
        cleared chain ⟨whole, behind⟩) ↔ StatusSettled whole := by
  refine ⟨statusSettled_of_incremental small nonNegative, ?_⟩
  intro settled chain behind growing last
  exact (tryDecode_resumes copyBody small nonNegative settled).incremental
    (settled.blind copyBody) (tryDecode_calls copyBody) growing last small
    (by cases copyBody <;> decide) behind

end HttpResponse

/-! ### One call and many -/

/-- Every request decodes incrementally, and a response does, whatever is in memory behind the
pieces, if and only if the input settles its status. -/
theorem tryDecode_incremental_iff (copyBody : Bool) (whole : List UInt8)
    (small : whole.length ≤ maxSize) (nonNegative : HttpMsg.NonNegative whole) :
    (∀ chain behind, Growing [] (chain.map Piece.bytes) →
      (chain.map Piece.bytes).getLast? = some whole →
      Incremental HttpRequest.toHttpMsg (fun req piece => req.tryDecode piece.bytes copyBody)
        HttpRequest.cleared chain ⟨whole, behind⟩) ∧
    ((∀ chain behind, Growing [] (chain.map Piece.bytes) →
      (chain.map Piece.bytes).getLast? = some whole →
      Incremental HttpResponse.toHttpMsg
        (fun resp piece => resp.tryDecode piece.bytes piece.behind copyBody)
        HttpResponse.cleared chain ⟨whole, behind⟩) ↔ HttpResponse.StatusSettled whole) := by
  refine ⟨fun chain behind growing last => ?_,
    HttpResponse.incremental_iff copyBody small nonNegative⟩
  exact (HttpRequest.tryDecode_resumes copyBody small nonNegative).incremental
    (fun _ _ => rfl) (HttpRequest.tryDecode_calls copyBody) growing last small
    (by cases copyBody <;> decide) behind

/-- A status line without a status. -/
def bareResponse (body : String) : List UInt8 :=
  text "HTTP/1.1\r\n\r\n" ++ text body

theorem decodeHeader_bareResponse : HttpMsg.cleared.decodeHeader (bareResponse "7") =
    .parsed { HttpMsg.cleared with scanned := 12 } (text "HTTP/1.1") := by
  decide

/-- A status line with a status, and a byte behind the header. -/
def numberedResponse : List UInt8 :=
  text "HTTP/1.1 404\r\n\r\n7"

theorem decodeHeader_numberedResponse : HttpMsg.cleared.decodeHeader numberedResponse =
    .parsed { HttpMsg.cleared with scanned := 16 } (text "HTTP/1.1 404") := by
  decide

theorem numberedResponse_settled : HttpResponse.StatusSettled numberedResponse := by
  constructor
  · intro parsed line1 header _
    rw [decodeHeader_numberedResponse] at header
    obtain ⟨rfl, rfl⟩ := HttpMsg.Header.parsed.inj header
    decide
  · intro looked line1 header
    rw [decodeHeader_numberedResponse] at header
    cases header

theorem bareResponse_not_settled : ¬ HttpResponse.StatusSettled (bareResponse "7") := by
  intro settled
  have solid := settled.parsed _ _ decodeHeader_bareResponse (by decide)
  revert solid
  decide

theorem tryDecode_incremental_bare :
    (∀ chain behind, Growing [] (chain.map Piece.bytes) →
      (chain.map Piece.bytes).getLast? = some numberedResponse →
      Incremental HttpResponse.toHttpMsg
        (fun resp piece => resp.tryDecode piece.bytes piece.behind true)
        HttpResponse.cleared chain ⟨numberedResponse, behind⟩) ∧
    ¬ ∀ chain behind, Growing [] (chain.map Piece.bytes) →
      (chain.map Piece.bytes).getLast? = some (bareResponse "7") →
      Incremental HttpResponse.toHttpMsg
        (fun resp piece => resp.tryDecode piece.bytes piece.behind true)
        HttpResponse.cleared chain ⟨bareResponse "7", behind⟩ := by
  constructor
  · refine (tryDecode_incremental_iff true numberedResponse (by unfold maxSize; decide)
      fun parsed line1 header => ?_).2.mpr numberedResponse_settled
    rw [decodeHeader_numberedResponse] at header
    obtain ⟨rfl, -⟩ := HttpMsg.Header.parsed.inj header
    decide
  · refine fun all => bareResponse_not_settled ((tryDecode_incremental_iff true (bareResponse "7")
      (by unfold maxSize; decide) fun parsed line1 header => ?_).2.mp all)
    rw [decodeHeader_bareResponse] at header
    obtain ⟨rfl, -⟩ := HttpMsg.Header.parsed.inj header
    decide

/-- The header alone gives the status 0, and with a digit behind it the status 7. -/
theorem not_tryDecode_incremental_bare :
    Growing [] [bareResponse "", bareResponse "7"] ∧
      ¬ Incremental HttpResponse.toHttpMsg
        (fun resp piece => resp.tryDecode piece.bytes piece.behind true) HttpResponse.cleared
        [⟨bareResponse "", []⟩, ⟨bareResponse "7", []⟩] ⟨bareResponse "7", []⟩ := by
  refine ⟨⟨List.nil_prefix, ⟨text "7", by decide⟩, trivial⟩, fun incremental => ?_⟩
  obtain ⟨trace, last, result, object, decoded, oneShot, isLast, -⟩ := incremental
  have status : ((decodeChain
      (fun resp (piece : Piece) => HttpResponse.tryDecode resp piece.bytes piece.behind true)
      HttpResponse.cleared [⟨bareResponse "", []⟩, ⟨bareResponse "7", []⟩]).toOption.bind
        List.getLast?).map (fun call => call.2.status) = some 0 := by
    decide +kernel
  have alone : (HttpResponse.cleared.tryDecode (bareResponse "7") [] true).toOption.map
      (fun call => call.2.status) = some 7 := by
    decide +kernel
  have left : some object.status = some 0 := by
    rw [decoded] at status
    simpa [Except.toOption, isLast] using status
  have right : some object.status = some 7 := by
    have called : HttpResponse.cleared.tryDecode (bareResponse "7") [] true =
        .ok (result, object) := oneShot
    rw [called] at alone
    exact alone
  exact absurd (left.symm.trans right) (by decide)

end YYNet
