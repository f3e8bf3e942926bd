/-
This file compares the header fields that the decoder reads with the header
fields of HTTP/1.1.

The decoder cuts a header into pieces at every carriage return and at every
newline, and skips two bytes there without looking at the second one. A piece is
a field if its first word ends with a colon and something other than space is
behind that word.

For lines that end as they should the pieces are the lines. They are read as the
grammar has them, if and only if each has space behind its colon and a value that
is not blank. A bare carriage return or newline swallows the byte behind it, and
what follows is read as a line of its own. A blank last piece is passed over, and
a header that ends in a lone carriage return or newline is rejected.
-/

import YYNet.Http.Incremental

namespace YYNet

open Checked Storage

namespace HttpMsg

/-! ### The header of a buffer -/

/-- The search finds the same marker from every place before it. -/
theorem seek_drop {bytes : List UInt8} {size : Nat} (found : seek bytes = (size, true))
    {place : Nat} (before : place ≤ size) : seek (bytes.drop place) = (size - place, true) := by
  induction place generalizing bytes size with
  | zero => exact found
  | succ place inductionHypothesis =>
    cases bytes with
    | nil => cases found
    | cons byte rest =>
      have elsewhere : (seek rest).1 + 1 = size ∧ (seek rest).2 = true := by
        rw [seek] at found
        split at found
        · cases found
        · split at found
          · obtain ⟨rfl, -⟩ := Prod.mk.inj found
            omega
          · exact Prod.mk.inj found
      have later : seek rest = (size - 1, true) := by
        rw [← elsewhere.1, ← elsewhere.2]
        rfl
      rw [List.drop_succ_cons, inductionHypothesis later (by omega), Nat.sub_sub, Nat.add_comm 1]

/-- The header that is decoded ends at the first marker, when the search starts before it. -/
theorem decodeHeader_before {msg : HttpMsg} {header rest : List UInt8}
    (found : seek (header ++ headerEnd ++ rest) = (header.length, true)) (nonempty : header ≠ [])
    (before : msg.scanned ≤ header.length) :
    msg.decodeHeader (header ++ headerEnd ++ rest) =
      ({ msg with scanned := header.length } : HttpMsg).parseHeader header := by
  have later := seek_drop found before
  have looked : msg.look (header ++ headerEnd ++ rest) = { msg with scanned := header.length } := by
    unfold look
    rw [later]
    simp only
    rw [Nat.add_sub_cancel' before]
  have somewhere : header.length ≠ 0 := by simpa using nonempty
  unfold decodeHeader
  rw [looked, later, if_neg (by simpa using nonempty), List.append_assoc, List.take_left]

/-- The header of a buffer that the decoder has not looked at yet ends at the first marker. -/
theorem decodeHeader_of_seek {msg : HttpMsg} (start : msg.scanned = 0) {header rest : List UInt8}
    (found : seek (header ++ headerEnd ++ rest) = (header.length, true)) (nonempty : header ≠ []) :
    msg.decodeHeader (header ++ headerEnd ++ rest) =
      ({ msg with scanned := header.length } : HttpMsg).parseHeader header :=
  decodeHeader_before found nonempty (by omega)

/-- A header that the decoder finds in a buffer. -/
theorem header_of_decodeHeader {msg : HttpMsg} (start : msg.scanned = 0) {buf : List UInt8}
    (present : ∀ looked, msg.decodeHeader buf ≠ .missing looked) :
    ∃ header rest, buf = header ++ headerEnd ++ rest ∧ header ≠ [] ∧
      seek (header ++ headerEnd ++ rest) = (header.length, true) := by
  obtain ⟨found, somewhere⟩ := seek_of_decodeHeader present
  have moved : (msg.look buf).scanned = (seek buf).1 := by
    show msg.scanned + (seek (buf.drop msg.scanned)).1 = _
    rw [start, List.drop_zero, Nat.zero_add]
  rw [start, List.drop_zero] at found
  rw [moved] at somewhere
  have inside := seek_found_le found
  have shape := seek_shape found
  have size : (buf.take (seek buf).1).length = (seek buf).1 := by
    rw [List.length_take]
    omega
  refine ⟨buf.take (seek buf).1, buf.drop ((seek buf).1 + 4), shape, ?_, ?_⟩
  · rw [← List.length_pos_iff, size]
    omega
  · rw [← shape, size, ← found]

/-- The fields that a call leaves in the object, whatever it returns. -/
def storedHeaders (msg : HttpMsg) (buf : List UInt8) : StringMap :=
  match msg.decodeHeader buf with
  | .missing looked => looked.headers
  | .malformed looked _ => looked.headers
  | .parsed looked _ => looked.headers

theorem storedHeaders_of_tryDecode {msg : HttpMsg} {buf line1 : List UInt8} {copyBody : Bool}
    {result : ParseResult} (decoded : cleared.tryDecode_ buf copyBody = .ok (result, msg, line1)) :
    msg.headers = cleared.storedHeaders buf := by
  unfold storedHeaders
  cases phase_of_tryDecode decoded with
  | looking looked missing => rw [missing]
  | malformed looked line header => rw [header]
  | waiting parsed line header short => rw [header]
  | complete parsed done line header body =>
    rw [header]
    exact (decodeBody_stores body).2.2.1

/-- A call returns an error if and only if the header is malformed. -/
theorem error_iff_malformed (buf : List UInt8) (copyBody : Bool) :
    (∃ decoded line1, cleared.tryDecode_ buf copyBody = .ok (.error, decoded, line1)) ↔
      ∃ looked line1, cleared.decodeHeader buf = .malformed looked line1 := by
  constructor
  · rintro ⟨decoded, line1, failed⟩
    generalize isError : ParseResult.error = result at failed
    cases phase_of_tryDecode failed with
    | looking looked missing => cases isError
    | malformed looked line header => exact ⟨_, _, header⟩
    | waiting parsed line header short => split at isError <;> cases isError
    | complete parsed done line header body => cases isError
  · rintro ⟨looked, line1, header⟩
    exact ⟨looked, line1, Phase.tryDecode (.malformed looked line1 header)⟩

/-! ### The pieces of a header -/

/-- A piece that the decoder takes for a field. -/
structure IsField (piece name value : List UInt8) : Prop where
  key : (eatWord piece).1 = name ++ [58]
  trimmed : trimSpace (eatWord piece).2 = value
  visible : value ≠ []

/-- What the decoder makes of the bytes behind the first line: breaks of two bytes, the first of
them a line end, and fields between them. A blank piece may be the last one. A line end with nothing
behind it is no break, so it is not read. -/
inductive Reads : List UInt8 → List (List UInt8 × List UInt8) → Prop
  | done : Reads [] []
  | blank (first second : UInt8) (piece : List UInt8) (ends : isLineEnd first = true)
      (space : ∀ byte ∈ piece, isSpace byte = true) (inLine : InLine piece) :
      Reads (first :: second :: piece) []
  | field (first second : UInt8) (piece name value rest : List UInt8)
      (fields : List (List UInt8 × List UInt8)) (ends : isLineEnd first = true)
      (inLine : InLine piece) (stop : ∀ byte ∈ rest.head?, isLineEnd byte = true)
      (isField : IsField piece name value) (more : Reads rest fields) :
      Reads (first :: second :: (piece ++ rest)) ((name.map toLower, value) :: fields)

/-- The line and the rest are what `eatLine` finds. -/
theorem eatLine_spec (piece : List UInt8) :
    piece = (eatLine piece).1 ++ (eatLine piece).2 ∧ InLine (eatLine piece).1 ∧
      ∀ byte ∈ (eatLine piece).2.head?, isLineEnd byte = true := by
  refine ⟨List.takeWhile_append_dropWhile.symm, fun byte member => ?_, fun byte member => ?_⟩
  · simpa using List.mem_takeWhile_imp member
  · have stopped := List.head?_dropWhile_not (fun byte => !isLineEnd byte) piece
    rw [show (piece.dropWhile fun byte => !isLineEnd byte) = (eatLine piece).2 from rfl,
      Option.mem_def.mp member] at stopped
    simpa using stopped

/-- A piece within one line is the whole line. -/
theorem eatLine_whole {piece : List UInt8} (inLine : InLine piece) :
    eatLine piece = (piece, []) := by
  have alone : eatLine (piece ++ []) = (piece, []) := eatLine_append inLine (by simp)
  rwa [List.append_nil] at alone

/-- The line of a piece ends in the piece, or where the piece ends. -/
theorem eatLine_front (piece : List UInt8) {rest : List UInt8}
    (stop : ∀ byte ∈ rest.head?, isLineEnd byte = true) :
    eatLine (piece ++ rest) = ((eatLine piece).1, (eatLine piece).2 ++ rest) := by
  obtain ⟨shape, inLine, stops⟩ := eatLine_spec piece
  have behind : ∀ byte ∈ ((eatLine piece).2 ++ rest).head?, isLineEnd byte = true := by
    intro byte first
    cases left : (eatLine piece).2 with
    | nil =>
      rw [left] at first
      exact stop byte first
    | cons other more =>
      rw [left] at first stops
      exact stops byte first
  have whole : piece ++ rest = (eatLine piece).1 ++ ((eatLine piece).2 ++ rest) := by
    rw [← List.append_assoc, ← shape]
  rw [whole, eatLine_append inLine behind]

/-- Nothing is eaten from space. -/
theorem eatWord_blank {piece : List UInt8} (space : ∀ byte ∈ piece, isSpace byte = true) :
    eatWord piece = ([], []) := by
  have nothing : piece.dropWhile isSpace = [] := List.dropWhile_eq_nil_iff.mpr space
  unfold eatWord
  rw [nothing]
  rfl

/-- A piece without a word is space. -/
theorem space_of_eatWord {piece : List UInt8} (noWord : (eatWord piece).1 = []) :
    ∀ byte ∈ piece, isSpace byte = true := by
  rw [← List.dropWhile_eq_nil_iff]
  by_contra solid
  have notSpace := List.head_dropWhile_not isSpace solid
  obtain ⟨first, more, shape⟩ := List.exists_cons_of_ne_nil solid
  unfold eatWord at noWord
  simp only [shape, List.head_cons] at notSpace noWord
  rw [List.takeWhile_cons_of_pos (by simp [notSpace])] at noWord
  cases noWord

theorem isField_of_key {piece : List UInt8} (solid : (eatWord piece).1 ≠ [])
    (visible : trimSpace (eatWord piece).2 ≠ []) (colon : (eatWord piece).1.getLast? = some 58) :
    IsField piece (eatWord piece).1.dropLast (trimSpace (eatWord piece).2) := by
  refine ⟨?_, rfl, visible⟩
  rw [List.getLast?_eq_some_getLast solid] at colon
  rw [← Option.some.inj colon, List.dropLast_concat_getLast solid]

/-- A break, and what is behind it. -/
theorem reads_cons_iff {first second : UInt8} {behind : List UInt8}
    {fields : List (List UInt8 × List UInt8)} (ends : isLineEnd first = true) :
    Reads (first :: second :: behind) fields ↔
      ((∀ byte ∈ behind, isSpace byte = true) ∧ InLine behind ∧ fields = []) ∨
        ∃ name value more, IsField (eatLine behind).1 name value ∧
          Reads (eatLine behind).2 more ∧ fields = (name.map toLower, value) :: more := by
  constructor
  · intro reads
    cases reads with
    | blank _ _ _ _ space inLine => exact .inl ⟨space, inLine, rfl⟩
    | field _ _ piece name value rest more _ inLine stop isField later =>
      rw [eatLine_append inLine stop]
      exact .inr ⟨name, value, more, isField, later, rfl⟩
  · rintro (⟨space, inLine, rfl⟩ | ⟨name, value, more, isField, later, rfl⟩)
    · exact .blank first second behind ends space inLine
    · obtain ⟨shape, inLine, stop⟩ := eatLine_spec behind
      rw [shape]
      exact .field first second _ name value _ more ends inLine stop isField later

theorem reads_nil_iff (headers parsed : StringMap) :
    ((true, headers) = (true, parsed)) ↔
      ∃ fields, Reads [] fields ∧ parsed = headers.setAll fields := by
  constructor
  · intro same
    exact ⟨[], .done, (Prod.mk.inj same).2.symm⟩
  · rintro ⟨fields, reads, rfl⟩
    cases reads
    rfl

/-- What the decoder tests of a piece. -/
theorem isField_iff {piece name value : List UInt8} :
    IsField piece name value ↔
      ((eatWord piece).1 ≠ [] ∧ trimSpace (eatWord piece).2 ≠ [] ∧
        (eatWord piece).1.getLast? = some 58) ∧
      name = (eatWord piece).1.dropLast ∧ value = trimSpace (eatWord piece).2 := by
  constructor
  · rintro ⟨key, trimmed, visible⟩
    rw [key, trimmed]
    simp [visible]
  · rintro ⟨⟨solid, visible, colon⟩, rfl, rfl⟩
    exact isField_of_key solid visible colon

/-- What the loop over the fields accepts, and what it makes of it. -/
theorem parseFields_iff {fuel : Nat} {slice : List UInt8} (enough : slice.length ≤ fuel)
    (starts : ∀ byte ∈ slice.head?, isLineEnd byte = true) (headers parsed : StringMap) :
    parseFields fuel slice headers = (true, parsed) ↔
      ∃ fields, Reads slice fields ∧ parsed = headers.setAll fields := by
  induction fuel generalizing slice headers with
  | zero =>
    obtain rfl := List.length_eq_zero_iff.mp (Nat.le_zero.mp enough)
    exact reads_nil_iff headers parsed
  | succ fuel inductionHypothesis =>
    match slice with
    | [] =>
      rw [parseFields, if_pos rfl]
      exact reads_nil_iff headers parsed
    | [first] =>
      rw [parseFields, if_neg (by simp), if_pos (by simp)]
      refine iff_of_false (fun same => Bool.noConfusion (Prod.mk.inj same).1) ?_
      rintro ⟨fields, reads, -⟩
      cases reads
    | first :: second :: behind =>
      obtain ⟨shape, inLine, stop⟩ := eatLine_spec behind
      have shorter : (eatLine behind).2.length ≤ fuel := by
        have sizes := congrArg List.length shape
        rw [List.length_append] at sizes
        rw [List.length_cons, List.length_cons] at enough
        omega
      rw [parseFields, if_neg (by simp), if_neg (by simp)]
      simp only [List.drop_succ_cons, List.drop_zero, reads_cons_iff (starts first rfl)]
      split
      · -- The piece is a field.
        rename_i found
        have later := inductionHypothesis shorter stop
          (headers.set ((eatWord (eatLine behind).1).1.dropLast.map toLower)
            (trimSpace (eatWord (eatLine behind).1).2))
        rw [later]
        constructor
        · rintro ⟨more, reads, rfl⟩
          exact ⟨_, .inr ⟨_, _, more, isField_iff.mpr ⟨found, rfl, rfl⟩, reads, rfl⟩, rfl⟩
        · rintro ⟨fields, ⟨space, allInLine, -⟩ | ⟨name, value, more, isField, reads, rfl⟩, rfl⟩
          · rw [eatLine_whole allInLine, eatWord_blank space] at found
            exact absurd rfl found.1
          · obtain ⟨-, rfl, rfl⟩ := isField_iff.mp isField
            exact ⟨more, reads, rfl⟩
      · rename_i noField
        split
        · -- The piece is blank, and nothing is behind it.
          rename_i blank
          obtain ⟨noWord, -, nothing⟩ := blank
          rw [nothing, List.append_nil] at shape
          rw [← shape] at noWord inLine
          constructor
          · intro same
            exact ⟨[], .inl ⟨space_of_eatWord noWord, inLine, rfl⟩, (Prod.mk.inj same).2.symm⟩
          · rintro ⟨fields, ⟨-, -, rfl⟩ | ⟨name, value, more, isField, -, rfl⟩, rfl⟩
            · rfl
            · exact absurd (isField_iff.mp isField).1 noField
        · rename_i notBlank
          refine iff_of_false (fun same => Bool.noConfusion (Prod.mk.inj same).1) ?_
          rintro ⟨fields, ⟨space, allInLine, -⟩ | ⟨name, value, more, isField, -, rfl⟩, -⟩
          · rw [eatLine_whole allInLine, eatWord_blank space] at notBlank
            exact notBlank ⟨rfl, rfl, rfl⟩
          · exact noField (isField_iff.mp isField).1

/-- A header is malformed, or it is parsed into the fields that are read. -/
theorem parseHeader_iff (msg : HttpMsg) (header : List UInt8) :
    ((∃ looked line1, msg.parseHeader header = .malformed looked line1) ↔
      ¬ ∃ fields, Reads (eatLine header).2 fields) ∧
    ∀ headers, (∃ parsed line1, msg.parseHeader header = .parsed parsed line1 ∧
        parsed.headers = headers) ↔
      ∃ fields, Reads (eatLine header).2 fields ∧ headers = msg.headers.setAll fields := by
  have parses := fun headers => parseFields_iff (le_refl (eatLine header).2.length)
    (eatLine_spec header).2.2 msg.headers headers
  cases outcome : parseFields (eatLine header).2.length (eatLine header).2 msg.headers with
  | mk ok found =>
    have shape : msg.parseHeader header = if ok then .parsed { msg with
        headers := found
        contentLen := contentLenOf found
        scanned := msg.scanned + 4 } (eatLine header).1
      else .malformed { msg with headers := found } (eatLine header).1 := by
      unfold parseHeader
      simp only
      rw [outcome]
      cases ok <;> rfl
    rw [outcome] at parses
    rw [shape]
    cases ok with
    | false =>
      have never : ∀ fields, ¬ Reads (eatLine header).2 fields := fun fields reads =>
        Bool.noConfusion (Prod.mk.inj ((parses _).mpr ⟨fields, reads, rfl⟩)).1
      refine ⟨iff_of_true ⟨_, _, rfl⟩ (not_exists.mpr never), fun headers => ?_⟩
      refine iff_of_false ?_ ?_
      · rintro ⟨parsed, line1, same, -⟩
        cases same
      · rintro ⟨fields, reads, -⟩
        exact never fields reads
    | true =>
      obtain ⟨fields, reads, same⟩ := (parses found).mp rfl
      refine ⟨iff_of_false ?_ (not_not.mpr ⟨fields, reads⟩), fun headers => ?_⟩
      · rintro ⟨looked, line1, malformed⟩
        cases malformed
      · rw [← parses headers]
        constructor
        · rintro ⟨parsed, line1, isParsed, rfl⟩
          obtain ⟨rfl, -⟩ := Header.parsed.inj isParsed
          rfl
        · intro isFound
          exact ⟨_, _, rfl, (Prod.mk.inj isFound).2⟩

/-! ### Header lines -/

/-- The white space of the grammar: spaces and tabs. -/
def isOws (byte : UInt8) : Bool :=
  byte = 32 || byte = 9

/-- A byte of a token: a letter, a digit, or one of fifteen marks. -/
def isTokenByte (byte : UInt8) : Bool :=
  (48 ≤ byte && byte ≤ 57) || (65 ≤ byte && byte ≤ 90) || (97 ≤ byte && byte ≤ 122) ||
    (text "!#$%&'*+-.^_|~").contains byte || byte = 96

/-- A value without white space around it. -/
def trimOws (value : List UInt8) : List UInt8 :=
  (value.dropWhile isOws).rdropWhile isOws

/-- A header line of the grammar, `name ':' OWS value OWS`. -/
structure HeaderLine where
  name : List UInt8
  before : List UInt8
  value : List UInt8
  behind : List UInt8
  named : name ≠ []
  token : ∀ byte ∈ name, isTokenByte byte = true
  owsBefore : ∀ byte ∈ before, isOws byte = true
  owsBehind : ∀ byte ∈ behind, isOws byte = true
  inLine : InLine value

namespace HeaderLine

/-- The line, without its end. -/
def line (field : HeaderLine) : List UInt8 :=
  field.name ++ [58] ++ (field.before ++ field.value ++ field.behind)

/-- What the grammar makes of the line. -/
def meaning (field : HeaderLine) : List UInt8 × List UInt8 :=
  (field.name.map toLower, trimOws field.value)

/-- What the decoder makes of a line that it reads. -/
def reading (field : HeaderLine) : List UInt8 × List UInt8 :=
  (field.name.map toLower, trimSpace field.value)

/-- There is space behind the colon, and the value is not blank. -/
def Spaced (field : HeaderLine) : Prop :=
  (field.before ≠ [] ∨ ∃ byte ∈ field.value.head?, isSpace byte = true) ∧
    trimSpace field.value ≠ []

theorem isSpace_of_isOws {byte : UInt8} (ows : isOws byte = true) : isSpace byte = true := by
  unfold isOws at ows
  rcases Bool.or_eq_true _ _ |>.mp ows with space | tab
  · rw [of_decide_eq_true space]
    decide
  · rw [of_decide_eq_true tab]
    decide

/-- A byte of a token is no space and no colon. -/
theorem isTokenByte_spec {byte : UInt8} (token : isTokenByte byte = true) :
    isSpace byte = false ∧ byte ≠ 58 ∧ toLower byte ≠ 58 := by
  revert token
  revert byte
  decide +kernel

/-- Space around a piece is trimmed. -/
theorem trimSpace_pad {before behind : List UInt8}
    (spaceBefore : ∀ byte ∈ before, isSpace byte = true)
    (spaceBehind : ∀ byte ∈ behind, isSpace byte = true) (value : List UInt8) :
    trimSpace (before ++ value ++ behind) = trimSpace value := by
  have trailing : ∀ piece : List UInt8,
      (piece ++ behind).rdropWhile isSpace = piece.rdropWhile isSpace := by
    intro piece
    unfold List.rdropWhile
    rw [List.reverse_append, List.dropWhile_append_of_pos fun byte member =>
      spaceBehind byte (List.mem_reverse.mp member)]
  unfold trimSpace
  rw [List.append_assoc, List.dropWhile_append_of_pos spaceBefore, List.dropWhile_append]
  split
  · rename_i blank
    rw [List.isEmpty_iff.mp blank, List.dropWhile_eq_nil_iff.mpr spaceBehind]
  · exact trailing _

theorem isWord_key (field : HeaderLine) : IsWord (field.name ++ [58]) := by
  refine ⟨by simp, fun byte member => ?_⟩
  rcases List.mem_append.mp member with inName | colon
  · exact (isTokenByte_spec (field.token byte inName)).1
  · rw [List.mem_singleton.mp colon]
    decide

theorem space_before (field : HeaderLine) : ∀ byte ∈ field.before, isSpace byte = true :=
  fun byte member => isSpace_of_isOws (field.owsBefore byte member)

theorem space_behind (field : HeaderLine) : ∀ byte ∈ field.behind, isSpace byte = true :=
  fun byte member => isSpace_of_isOws (field.owsBehind byte member)

theorem line_inLine (field : HeaderLine) : InLine field.line := by
  have padded : ∀ {piece : List UInt8}, (∀ byte ∈ piece, isOws byte = true) → InLine piece := by
    intro piece ows byte member
    have isOws := ows byte member
    unfold HttpMsg.isOws at isOws
    rcases Bool.or_eq_true _ _ |>.mp isOws with space | tab
    · rw [of_decide_eq_true space]
      decide
    · rw [of_decide_eq_true tab]
      decide
  exact field.isWord_key.inLine.append
    (((padded field.owsBefore).append field.inLine).append (padded field.owsBehind))

theorem line_ne_nil (field : HeaderLine) : field.line ≠ [] := by
  simp [line]

/-- A spaced line is read as the grammar has it, up to what counts as space. -/
theorem Spaced.isField {field : HeaderLine} (spaced : field.Spaced) :
    IsField field.line field.name (trimSpace field.value) := by
  have stop : ∀ byte ∈ (field.before ++ field.value ++ field.behind).head?,
      isSpace byte = true := by
    intro byte first
    cases shape : field.before with
    | cons other more =>
      rw [shape] at first
      obtain rfl : other = byte := Option.some.inj first
      exact field.space_before other (by rw [shape]; exact List.mem_cons_self)
    | nil =>
      obtain ⟨other, inValue, isSpace⟩ := spaced.1.resolve_left (not_not.mpr shape)
      obtain ⟨more, value⟩ := List.head?_eq_some_iff.mp inValue
      rw [shape, value] at first
      obtain rfl : other = byte := Option.some.inj first
      exact isSpace
  have word := eatWord_append field.isWord_key stop
  refine ⟨?_, ?_, spaced.2⟩
  · rw [line, word]
  · rw [line, word]
    exact trimSpace_pad field.space_before field.space_behind field.value

/-- A line that is read as a field is spaced, or its value has become a part of the name. -/
theorem spaced_of_isField {field : HeaderLine} {name value : List UInt8}
    (isField : IsField field.line name value) :
    (field.Spaced ∧ name = field.name ∧ value = trimSpace field.value) ∨ 58 ∈ name := by
  obtain ⟨key, trimmed, visible⟩ := isField
  by_cases stop : ∀ byte ∈ (field.before ++ field.value ++ field.behind).head?, isSpace byte = true
  · have word := eatWord_append field.isWord_key stop
    rw [line, word] at key trimmed
    have isValue : trimSpace field.value = value := by
      rw [← trimmed]
      exact (trimSpace_pad field.space_before field.space_behind field.value).symm
    rw [← isValue] at visible
    refine .inl ⟨⟨?_, visible⟩, (List.append_cancel_right key).symm, isValue.symm⟩
    by_contra tight
    rw [not_or, not_not] at tight
    cases shape : field.value with
    | nil =>
      rw [shape] at visible
      exact visible rfl
    | cons first more =>
      rw [tight.1, shape] at stop
      exact tight.2 ⟨first, by rw [shape]; rfl, stop first rfl⟩
  · -- The word goes on behind the colon.
    push Not at stop
    obtain ⟨first, isFirst, notSpace⟩ := stop
    obtain ⟨more, shape⟩ := List.head?_eq_some_iff.mp isFirst
    have goesOn : (eatWord field.line).1 =
        (field.name ++ [58]) ++ (first :: more.takeWhile fun byte => !isSpace byte) := by
      unfold eatWord
      simp only
      rw [line, dropWhile_isSpace_word field.isWord_key, shape,
        List.takeWhile_append_of_pos fun byte member => by simp [field.isWord_key.2 byte member],
        List.takeWhile_cons_of_pos (by simp [notSpace])]
    rw [goesOn] at key
    have front := congrArg List.dropLast key
    rw [List.dropLast_concat, List.dropLast_append_of_ne_nil (List.cons_ne_nil _ _)] at front
    refine .inr ?_
    rw [← front]
    simp

end HeaderLine

theorem linesText_cons (line : List UInt8) (lines : List (List UInt8)) :
    linesText (line :: lines) = 13 :: 10 :: (line ++ linesText lines) := by
  unfold linesText
  rw [List.flatMap_cons]
  rfl

theorem head_linesText (lines : List (List UInt8)) :
    ∀ byte ∈ (linesText lines).head?, isLineEnd byte = true := by
  intro byte first
  cases lines with
  | nil => cases first
  | cons line rest =>
    obtain rfl : 13 = byte := Option.some.inj first
    decide

/-- Spaced lines are read one after another. -/
theorem reads_of_spaced {fields : List HeaderLine} (spaced : ∀ field ∈ fields, field.Spaced) :
    Reads (linesText (fields.map HeaderLine.line)) (fields.map HeaderLine.reading) := by
  induction fields with
  | nil => exact .done
  | cons field rest inductionHypothesis =>
    rw [List.map_cons, linesText_cons]
    exact .field 13 10 _ _ _ _ _ (by decide) field.line_inLine (head_linesText _)
      (spaced field List.mem_cons_self).isField
      (inductionHypothesis fun other member => spaced other (List.mem_cons_of_mem _ member))

/-- Lines that are read are spaced, or a value has become a part of a name. -/
theorem spaced_of_reads {fields : List HeaderLine} {entries : List (List UInt8 × List UInt8)}
    (reads : Reads (linesText (fields.map HeaderLine.line)) entries) :
    ((∀ field ∈ fields, field.Spaced) ∧ entries = fields.map HeaderLine.reading) ∨
      ∃ entry ∈ entries, 58 ∈ entry.1 := by
  induction fields generalizing entries with
  | nil =>
    cases reads
    exact .inl ⟨fun _ member => absurd member List.not_mem_nil, rfl⟩
  | cons field rest inductionHypothesis =>
    rw [List.map_cons, linesText_cons, reads_cons_iff (by decide),
      eatLine_append field.line_inLine (head_linesText _)] at reads
    rcases reads with ⟨space, -, -⟩ | ⟨name, value, more, isField, later, rfl⟩
    · -- The name is not blank.
      obtain ⟨first, others, shape⟩ := List.exists_cons_of_ne_nil field.named
      have inName : first ∈ field.name := by rw [shape]; exact List.mem_cons_self
      have notSpace := (HeaderLine.isTokenByte_spec (field.token first inName)).1
      rw [space first (by simp [HeaderLine.line, inName])] at notSpace
      cases notSpace
    · rcases field.spaced_of_isField isField with ⟨spaced, rfl, rfl⟩ | colon
      · rcases inductionHypothesis later with ⟨allSpaced, rfl⟩ | ⟨entry, member, inName⟩
        · exact .inl ⟨List.forall_mem_cons.mpr ⟨spaced, allSpaced⟩, rfl⟩
        · exact .inr ⟨entry, List.mem_cons_of_mem _ member, inName⟩
      · exact .inr ⟨_, List.mem_cons_self, List.mem_map.mpr ⟨58, colon, by decide⟩⟩

/-- What the grammar makes of header lines; the last line of a name wins. -/
def grammarHeaders (fields : List HeaderLine) : StringMap :=
  OrderedMap.empty.setAll (fields.map HeaderLine.meaning)

/-- Every line is spaced, and the last line of each name has no other space around its value than
spaces and tabs. -/
def Conforms (fields : List HeaderLine) : Prop :=
  (∀ field ∈ fields, field.Spaced) ∧
    ∀ front field back, fields = front ++ field :: back →
      (∀ later ∈ back, later.name.map toLower ≠ field.name.map toLower) →
      trimSpace field.value = trimOws field.value

/-- A name that occurs has a last line. -/
theorem exists_last {fields : List HeaderLine} {name : List UInt8}
    (occurs : ∃ field ∈ fields, field.name.map toLower = name) :
    ∃ front field back, fields = front ++ field :: back ∧ field.name.map toLower = name ∧
      ∀ later ∈ back, later.name.map toLower ≠ name := by
  induction fields with
  | nil =>
    obtain ⟨field, member, -⟩ := occurs
    cases member
  | cons field rest inductionHypothesis =>
    by_cases later : ∃ other ∈ rest, other.name.map toLower = name
    · obtain ⟨front, last, back, rfl, isName, none⟩ := inductionHypothesis later
      exact ⟨field :: front, last, back, rfl, isName, none⟩
    · obtain ⟨found, member, isName⟩ := occurs
      rcases List.mem_cons.mp member with rfl | behind
      · exact ⟨[], found, rest, rfl, isName, fun other inRest same => later ⟨other, inRest, same⟩⟩
      · exact absurd ⟨found, behind, isName⟩ later

/-- Spaced lines give the headers of the grammar, if and only if the lines that win do. -/
theorem readings_eq_iff (fields : List HeaderLine) :
    OrderedMap.empty.setAll (fields.map HeaderLine.reading) = grammarHeaders fields ↔
      ∀ front field back, fields = front ++ field :: back →
        (∀ later ∈ back, later.name.map toLower ≠ field.name.map toLower) →
        trimSpace field.value = trimOws field.value := by
  have values : ∀ front field back, fields = front ++ field :: back →
      (∀ later ∈ back, later.name.map toLower ≠ field.name.map toLower) →
      (OrderedMap.empty.setAll (fields.map HeaderLine.reading)).find (field.name.map toLower) =
          some (trimSpace field.value) ∧
        (grammarHeaders fields).find (field.name.map toLower) = some (trimOws field.value) := by
    rintro front field back rfl last
    unfold grammarHeaders
    rw [List.map_append, List.map_cons, List.map_append, List.map_cons]
    constructor
    · exact OrderedMap.find_setAll_last _ _ field.reading fun entry member => by
        obtain ⟨later, inBack, rfl⟩ := List.mem_map.mp member
        exact last later inBack
    · exact OrderedMap.find_setAll_last _ _ field.meaning fun entry member => by
        obtain ⟨later, inBack, rfl⟩ := List.mem_map.mp member
        exact last later inBack
  constructor
  · intro same front field back shape last
    obtain ⟨reading, meaning⟩ := values front field back shape last
    rw [same, meaning] at reading
    exact (Option.some.inj reading).symm
  · intro agree
    refine OrderedMap.ext_find fun name => ?_
    by_cases occurs : ∃ field ∈ fields, field.name.map toLower = name
    · obtain ⟨front, field, back, shape, rfl, last⟩ := exists_last occurs
      obtain ⟨reading, meaning⟩ := values front field back shape last
      rw [reading, meaning, agree front field back shape last]
    · have absent : ∀ assigned : HeaderLine → List UInt8 × List UInt8,
          (∀ field, (assigned field).1 = field.name.map toLower) →
          ∀ entry ∈ fields.map assigned, entry.1 ≠ name := by
        rintro assigned names _ member same
        obtain ⟨field, isField, rfl⟩ := List.mem_map.mp member
        exact occurs ⟨field, isField, by rw [← names, same]⟩
      unfold grammarHeaders
      rw [OrderedMap.find_setAll_of_not_mem _ (absent HeaderLine.reading fun _ => rfl),
        OrderedMap.find_setAll_of_not_mem _ (absent HeaderLine.meaning fun _ => rfl)]

/-- No name of the grammar's headers has a colon. -/
theorem find_grammarHeaders {name : List UInt8} (colon : 58 ∈ name) (fields : List HeaderLine) :
    (grammarHeaders fields).find name = none := by
  unfold grammarHeaders
  rw [OrderedMap.find_setAll_eq_none_iff]
  refine ⟨OrderedMap.find_empty name, fun entry member same => ?_⟩
  obtain ⟨field, -, rfl⟩ := List.mem_map.mp member
  rw [← same] at colon
  obtain ⟨byte, inName, isColon⟩ := List.mem_map.mp colon
  exact (HeaderLine.isTokenByte_spec (field.token byte inName)).2.2 isColon

/-! ### Header blocks -/

/-- A start line and header lines. -/
def blockText (startLine : List UInt8) (fields : List HeaderLine) : List UInt8 :=
  startLine ++ linesText (fields.map HeaderLine.line)

/-- A call on a message that is new returns no error, and its header fields are these. -/
def ParsedAs (buf : List UInt8) (copyBody : Bool) (headers : StringMap) : Prop :=
  (∀ decoded line1, cleared.tryDecode_ buf copyBody ≠ .ok (.error, decoded, line1)) ∧
    cleared.storedHeaders buf = headers

/-- A call on a message that is new returns an error. -/
def Rejected (buf : List UInt8) (copyBody : Bool) : Prop :=
  ∃ decoded line1, cleared.tryDecode_ buf copyBody = .ok (.error, decoded, line1)

theorem seek_blockText {startLine : List UInt8} (inLine : InLine startLine)
    (fields : List HeaderLine) (rest : List UInt8) :
    seek (blockText startLine fields ++ headerEnd ++ rest) =
      ((blockText startLine fields).length, true) := by
  have behind : ∀ line ∈ fields.map HeaderLine.line, InLine line ∧ line ≠ [] := by
    intro line member
    obtain ⟨field, -, rfl⟩ := List.mem_map.mp member
    exact ⟨field.line_inLine, field.line_ne_nil⟩
  have found := seek_linesText (fun line member => (behind line member).1)
    (fun line member => (behind line member).2) rest
  have long : 3 ≤ (linesText (fields.map HeaderLine.line) ++ headerEnd ++ rest).length := by
    simp only [List.length_append, headerEnd, crlf, List.length_cons, List.length_nil]
    omega
  have passed := seek_inLine inLine long
  rw [found] at passed
  unfold blockText
  rw [List.append_assoc, List.append_assoc, ← List.append_assoc (linesText _), passed,
    List.length_append, Nat.add_comm]

/-- A header block is parsed as the grammar has it, if and only if its lines conform. -/
theorem parsedAs_iff {startLine : List UInt8} (nonempty : startLine ≠ [])
    (inLine : InLine startLine) (fields : List HeaderLine) (rest : List UInt8) (copyBody : Bool) :
    ParsedAs (blockText startLine fields ++ headerEnd ++ rest) copyBody (grammarHeaders fields) ↔
      Conforms fields := by
  have header := decodeHeader_of_seek (show cleared.scanned = 0 from rfl)
    (seek_blockText inLine fields rest)
    (by simp [blockText, nonempty])
  have line : eatLine (blockText startLine fields) =
      (startLine, linesText (fields.map HeaderLine.line)) :=
    eatLine_append inLine (head_linesText _)
  obtain ⟨malformed, parsed⟩ := parseHeader_iff
    { cleared with scanned := (blockText startLine fields).length } (blockText startLine fields)
  rw [← header, line] at malformed
  simp only [← header, line] at parsed
  have noError : (∀ decoded line1, cleared.tryDecode_
      (blockText startLine fields ++ headerEnd ++ rest) copyBody ≠
        .ok (.error, decoded, line1)) ↔
      ∃ entries, Reads (linesText (fields.map HeaderLine.line)) entries := by
    rw [← not_iff_not, ← malformed, ← error_iff_malformed _ copyBody]
    push Not
    rfl
  unfold ParsedAs
  rw [noError]
  constructor
  · rintro ⟨⟨entries, reads⟩, stored⟩
    obtain ⟨msg, line1, isParsed, headers⟩ := (parsed _).mpr ⟨entries, reads, rfl⟩
    unfold storedHeaders at stored
    rw [isParsed] at stored
    simp only at stored
    rw [stored] at headers
    rcases spaced_of_reads reads with ⟨spaced, rfl⟩ | ⟨entry, member, colon⟩
    · exact ⟨spaced, (readings_eq_iff fields).mp headers.symm⟩
    · have absent := find_grammarHeaders colon fields
      rw [headers, OrderedMap.find_setAll_eq_none_iff] at absent
      exact absurd rfl (absent.2 entry member)
  · rintro ⟨spaced, agree⟩
    have reads := reads_of_spaced spaced
    obtain ⟨msg, line1, isParsed, headers⟩ := (parsed _).mpr ⟨_, reads, rfl⟩
    refine ⟨⟨_, reads⟩, ?_⟩
    unfold storedHeaders
    rw [isParsed]
    exact headers.trans ((readings_eq_iff fields).mpr agree)

/-! ### Bare line ends -/

/-- Bytes in front of the marker of a header: no marker begins inside them. -/
def IsHeader (header : List UInt8) : Prop :=
  header ≠ [] ∧ ∀ index < header.length, ((header ++ headerEnd).drop index).take 4 ≠ headerEnd

/-- A carriage return without a newline behind it, or a newline without a carriage return before
it. -/
def BareBreak (header : List UInt8) : Prop :=
  ∃ front back, (header = front ++ 13 :: back ∧ back.head? ≠ some 10) ∨
    (header = front ++ 10 :: back ∧ front.getLast? ≠ some 13)

/-- The search finds the first marker. -/
theorem seek_of_isHeader {header : List UInt8}
    (unended : ∀ index < header.length, ((header ++ headerEnd).drop index).take 4 ≠ headerEnd)
    (rest : List UInt8) : seek (header ++ headerEnd ++ rest) = (header.length, true) := by
  induction header with
  | nil =>
    show seek (13 :: 10 :: 13 :: 10 :: rest) = (0, true)
    rw [seek, if_neg (by simp), if_pos (by rfl)]
  | cons byte more inductionHypothesis =>
    have here := unended 0 (by simp)
    have later := inductionHypothesis fun index inside =>
      unended (index + 1) (by rw [List.length_cons]; omega)
    have long : ¬ (byte :: (more ++ headerEnd ++ rest)).length < 4 := by
      simp only [List.length_append, headerEnd, crlf, List.length_cons, List.length_nil]
      omega
    have front : (byte :: (more ++ headerEnd ++ rest)).take 4 =
        ((byte :: more ++ headerEnd).drop 0).take 4 := by
      rw [List.drop_zero, ← List.cons_append, ← List.cons_append, List.take_append_of_le_length]
      simp only [List.length_append, headerEnd, crlf, List.length_cons, List.length_nil]
      omega
    rw [List.cons_append, List.cons_append, seek, if_neg long, front, if_neg here, later,
      List.length_cons]

/-- A header is rejected, if and only if its pieces are not all fields. -/
theorem rejected_iff {header : List UInt8} (isHeader : IsHeader header) (rest : List UInt8)
    (copyBody : Bool) :
    Rejected (header ++ headerEnd ++ rest) copyBody ↔
      ¬ ∃ fields, Reads (eatLine header).2 fields := by
  unfold Rejected
  rw [error_iff_malformed, decodeHeader_of_seek rfl (seek_of_isHeader isHeader.2 rest) isHeader.1]
  exact (parseHeader_iff _ header).1

/-- For every start line and header lines of the grammar, the header fields are what the grammar
says, if and only if the lines conform; and every header, with bare carriage returns and newlines or
without, is rejected, if and only if its pieces are not all fields, but for a blank last one. -/
theorem header_grammar_iff (rest : List UInt8) (copyBody : Bool) :
    (∀ startLine fields, startLine ≠ [] → InLine startLine →
      (ParsedAs (blockText startLine fields ++ headerEnd ++ rest) copyBody (grammarHeaders fields) ↔
        Conforms fields)) ∧
    ∀ header, IsHeader header → (Rejected (header ++ headerEnd ++ rest) copyBody ↔
      ¬ ∃ fields, Reads (eatLine header).2 fields) :=
  ⟨fun _ fields nonempty inLine => parsedAs_iff nonempty inLine fields rest copyBody,
    fun _ isHeader => rejected_iff isHeader rest copyBody⟩

/-- The line `Host:` with a value behind some white space. -/
def hostLine (spaces : List UInt8) (ows : ∀ byte ∈ spaces, isOws byte = true) : HeaderLine where
  name := text "Host"
  before := spaces
  value := text "yy.net"
  behind := []
  named := by decide +kernel
  token := by decide +kernel
  owsBefore := ows
  owsBehind _ member := absurd member List.not_mem_nil
  inLine := by decide +kernel

/-- A tab behind the colon. -/
def tabLine : HeaderLine := hostLine [9] (List.forall_mem_singleton.mpr rfl)

/-- Nothing behind the colon. -/
def tightLine : HeaderLine := hostLine [] (List.forall_mem_nil _)

/-- A start line. -/
def getLine : List UInt8 := text "GET / HTTP/1.1"

theorem getLine_spec : getLine ≠ [] ∧ InLine getLine := by decide +kernel

/-- A header with a bare newline in front of something that is no field. -/
def cutHeader : List UInt8 := text "GET / HTTP/1.1\r\nHost: yy\nnet"

theorem cutHeader_isHeader : IsHeader cutHeader := by
  refine ⟨by decide, ?_⟩
  decide

theorem cutHeader_bareBreak : BareBreak cutHeader := by
  refine ⟨text "GET / HTTP/1.1\r\nHost: yy", text "net", .inr ⟨?_, ?_⟩⟩
  · decide
  · decide

/-- A tab behind the colon, and a header with a bare newline. -/
theorem header_grammar_iff_tab :
    ParsedAs (blockText getLine [tabLine] ++ headerEnd ++ []) true
        (grammarHeaders [tabLine]) ∧
      BareBreak cutHeader ∧ Rejected (cutHeader ++ headerEnd ++ []) true := by
  obtain ⟨conforming, cut⟩ := header_grammar_iff [] true
  refine ⟨?_, cutHeader_bareBreak, ?_⟩
  · refine (conforming getLine _ getLine_spec.1 getLine_spec.2).mpr ⟨?_, ?_⟩
    · intro field member
      rw [List.mem_singleton.mp member]
      refine ⟨.inl (by decide), ?_⟩
      show trimSpace (text "yy.net") ≠ []
      decide
    · intro front field back shape _
      have here : field ∈ [tabLine] := by
        rw [shape]
        exact List.mem_append_right _ List.mem_cons_self
      rw [List.mem_singleton.mp here]
      show trimSpace (text "yy.net") = trimOws (text "yy.net")
      decide
  · refine (cut cutHeader cutHeader_isHeader).mpr ?_
    rintro ⟨fields, reads⟩
    have accepted := (parseFields_iff (le_refl _) (eatLine_spec cutHeader).2.2 OrderedMap.empty
      _).mpr ⟨fields, reads, rfl⟩
    have refused : (parseFields (eatLine cutHeader).2.length (eatLine cutHeader).2
        OrderedMap.empty).1 = false := by
      decide
    rw [accepted] at refused
    cases refused

/-- No white space behind the colon: the line is not read. -/
theorem not_header_grammar :
    ¬ ((∀ startLine fields, startLine ≠ [] → InLine startLine →
        ParsedAs (blockText startLine fields ++ headerEnd ++ []) true (grammarHeaders fields)) ∧
      ∀ header, IsHeader header → BareBreak header →
        Rejected (header ++ headerEnd ++ []) true) := by
  rintro ⟨grammar, -⟩
  have parsed := grammar getLine [tightLine] getLine_spec.1 getLine_spec.2
  have conforms := (parsedAs_iff getLine_spec.1 getLine_spec.2 _ [] true).mp parsed
  rcases (conforms.1 _ List.mem_cons_self).1 with before | ⟨byte, first, space⟩
  · exact before rfl
  · obtain rfl : 121 = byte := Option.some.inj first
    cases space

end HttpMsg

end YYNet
