/-
This file models the header phase of `tryDecode_` with pieces as the source has
them, two pointers into the buffer, and proves that every byte it reads lies
inside the buffer.

`eat` moves the front pointer without a look at the end. On a header that ends in
a single line-end byte the two bytes of a break are not there, and the front
pointer gets behind the end: the size of the piece is then a huge number and the
piece is not empty. But the scans compare pointers and not sizes, so they find an
empty line there, and a line that is empty while the header is not is an error.

Pointers are counted from the start of the buffer. Every read is checked and
every loop has fuel, so a call that returns with enough of it has read inside the
buffer only and has ended; what it returns is what the decoder on lists of bytes
returns.
-/

import YYNet.Lib.Cursor
import YYNet.Http.Incremental

namespace YYNet

open Checked Storage Cursor

/-! ### Pieces of two pointers -/

/-- `stringPiece`: `pb_` and `pe_`. Nothing keeps them in order. -/
structure StringPiece where
  pb : Nat
  pe : Nat
  deriving DecidableEq, Repr

namespace StringPiece

/-- `size`, which wraps around when the front is behind the end. -/
def size (piece : StringPiece) : Nat := subSize piece.pe piece.pb

def empty (piece : StringPiece) : Bool := piece.pe = piece.pb

/-- `eat`: what it ate, and what is left. -/
def eat (piece : StringPiece) (sz : Nat) : StringPiece × StringPiece :=
  (⟨piece.pb, piece.pb + sz⟩, ⟨piece.pb + sz, piece.pe⟩)

def sub (piece : StringPiece) (boff eoff : Int) : StringPiece where
  pb := (piece.pb + boff).toNat
  pe := (piece.pe + eoff).toNat

/-- The bytes that a piece shows. -/
def shown (buf : List UInt8) (piece : StringPiece) : List UInt8 :=
  window buf piece.pb piece.pe

/-- `toString` copies the bytes. -/
def toString (buf : List UInt8) (piece : StringPiece) : Except Cursor.Fault (List UInt8) :=
  readRange buf piece.pb piece.pe

/-- `eatWord`: the word, and what is left. -/
def eatWord (fuel : Nat) (buf : List UInt8) (piece : StringPiece) :
    Except Cursor.Fault (StringPiece × StringPiece) := do
  let b ← skip fuel buf isSpace piece.pe piece.pb
  let e ← skip fuel buf (fun byte => !isSpace byte) piece.pe b
  return (⟨b, e⟩, ⟨e, piece.pe⟩)

/-- `eatLine`: the line, and what is left. -/
def eatLine (fuel : Nat) (buf : List UInt8) (piece : StringPiece) :
    Except Cursor.Fault (StringPiece × StringPiece) := do
  let pb ← skip fuel buf (fun byte => !isLineEnd byte) piece.pe piece.pb
  return (⟨piece.pb, pb⟩, ⟨pb, piece.pe⟩)

def trimSpace (fuel : Nat) (buf : List UInt8) (piece : StringPiece) :
    Except Cursor.Fault StringPiece := do
  let pb ← skip fuel buf isSpace piece.pe piece.pb
  let pe ← skipBack fuel buf isSpace pb piece.pe
  return ⟨pb, pe⟩

/-! ### What the pieces show -/

/-- A piece that shows a part of the buffer. -/
structure Inside (buf : List UInt8) (piece : StringPiece) : Prop where
  ordered : piece.pb ≤ piece.pe
  within : piece.pe ≤ buf.length

theorem Inside.size_eq {buf : List UInt8} {piece : StringPiece} (inside : piece.Inside buf) :
    piece.size = (piece.shown buf).length := by
  rw [size, subSize_of_le inside.ordered, shown, window_length buf inside.within]

theorem Inside.size_ne_zero_iff {buf : List UInt8} {piece : StringPiece}
    (inside : piece.Inside buf) : piece.size ≠ 0 ↔ piece.shown buf ≠ [] := by
  rw [inside.size_eq, ne_eq, List.length_eq_zero_iff]

theorem Inside.empty_iff {buf : List UInt8} {piece : StringPiece} (inside : piece.Inside buf) :
    piece.empty = true ↔ piece.shown buf = [] := by
  rw [shown, window_eq_nil_iff inside.within, empty, decide_eq_true_iff]
  have ordered := inside.ordered
  omega

theorem Inside.toString_eq {buf : List UInt8} {piece : StringPiece} (inside : piece.Inside buf) :
    piece.toString buf = .ok (piece.shown buf) :=
  readRange_eq inside.ordered inside.within

/-- Two positions that split what is shown are in order. -/
theorem inside_of_split {buf front rest : List UInt8} {first stop : Nat} (within : stop ≤ buf.length)
    (ordered : first ≤ stop) (split : window buf first stop = front ++ rest) :
    Inside buf ⟨first, first + front.length⟩ ∧ Inside buf ⟨first + front.length, stop⟩ := by
  have size := congrArg List.length split
  rw [window_length buf within, List.length_append] at size
  exact ⟨⟨Nat.le_add_right _ _, by simp only; omega⟩, ⟨by simp only; omega, within⟩⟩

/-- A scan forward splits a piece. -/
theorem Inside.skip_eq {buf : List UInt8} {piece : StringPiece} (inside : piece.Inside buf)
    (test : UInt8 → Bool) {fuel : Nat} (enough : buf.length < fuel) :
    ∃ place, skip fuel buf test piece.pe piece.pb = .ok place ∧ piece.pb ≤ place ∧
      Inside buf ⟨piece.pb, place⟩ ∧ Inside buf ⟨place, piece.pe⟩ ∧
      shown buf ⟨piece.pb, place⟩ = (piece.shown buf).takeWhile test ∧
      shown buf ⟨place, piece.pe⟩ = (piece.shown buf).dropWhile test := by
  have within := inside.within
  have split : window buf piece.pb piece.pe =
      (piece.shown buf).takeWhile test ++ (piece.shown buf).dropWhile test :=
    List.takeWhile_append_dropWhile.symm
  obtain ⟨before, behind⟩ := inside_of_split within inside.ordered split
  obtain ⟨taken, left⟩ := window_split within split
  exact ⟨_, Cursor.skip_eq within (by omega), Nat.le_add_right _ _, before, behind, taken, left⟩

/-- `eatLine` shows the line and the rest of what it is called on. -/
theorem Inside.eatLine_eq {buf : List UInt8} {piece : StringPiece} (inside : piece.Inside buf)
    {fuel : Nat} (enough : buf.length < fuel) :
    ∃ line rest, piece.eatLine fuel buf = .ok (line, rest) ∧ line.Inside buf ∧ rest.Inside buf ∧
      piece.pb ≤ rest.pb ∧ rest.pe = piece.pe ∧
      (line.shown buf, rest.shown buf) = YYNet.eatLine (piece.shown buf) := by
  obtain ⟨place, skipped, further, lineInside, restInside, taken, left⟩ :=
    inside.skip_eq (fun byte => !isLineEnd byte) enough
  refine ⟨_, _, ?_, lineInside, restInside, further, rfl, Prod.ext taken left⟩
  rw [eatLine, skipped]
  rfl

/-- `eatWord` shows the word and the rest of what it is called on. -/
theorem Inside.eatWord_eq {buf : List UInt8} {piece : StringPiece} (inside : piece.Inside buf)
    {fuel : Nat} (enough : buf.length < fuel) :
    ∃ word rest, piece.eatWord fuel buf = .ok (word, rest) ∧ word.Inside buf ∧ rest.Inside buf ∧
      (word.shown buf, rest.shown buf) = YYNet.eatWord (piece.shown buf) := by
  obtain ⟨b, skipped, -, -, solidInside, -, solid⟩ := inside.skip_eq isSpace enough
  obtain ⟨e, ended, -, wordInside, restInside, taken, left⟩ :=
    solidInside.skip_eq (fun byte => !isSpace byte) enough
  rw [solid] at taken left
  refine ⟨_, _, ?_, wordInside, restInside, Prod.ext taken left⟩
  rw [eatWord, skipped, ok_bind, ended]
  rfl

theorem Inside.trimSpace_eq {buf : List UInt8} {piece : StringPiece} (inside : piece.Inside buf)
    {fuel : Nat} (enough : buf.length < fuel) :
    ∃ trimmed, piece.trimSpace fuel buf = .ok trimmed ∧ trimmed.Inside buf ∧
      trimmed.shown buf = YYNet.trimSpace (piece.shown buf) := by
  obtain ⟨pb, skipped, -, -, solidInside, -, solid⟩ := inside.skip_eq isSpace enough
  have ordered : pb ≤ piece.pe := solidInside.ordered
  have within := inside.within
  obtain ⟨spaces, split⟩ := List.rdropWhile_prefix isSpace (window buf pb piece.pe)
  obtain ⟨trimmedInside, -⟩ := inside_of_split within ordered split.symm
  obtain ⟨trimmed, -⟩ := window_split within split.symm
  refine ⟨_, ?_, trimmedInside, trimmed.trans ?_⟩
  · rw [trimSpace, skipped, ok_bind, skipBack_eq ordered within (by omega)]
    rfl
  · rw [show window buf pb piece.pe = (piece.shown buf).dropWhile isSpace from solid]
    rfl

/-- The last byte of a piece, and the piece without it. -/
theorem Inside.last {buf : List UInt8} {piece : StringPiece} (inside : piece.Inside buf)
    (nonempty : piece.shown buf ≠ []) :
    ∃ last, read buf (piece.pb + subSize piece.size 1) = .ok last ∧
      (piece.shown buf).getLast? = some last ∧
      (piece.sub 0 (-1)).toString buf = .ok (piece.shown buf).dropLast := by
  obtain ⟨pb, pe⟩ := piece
  have ordered : pb ≤ pe := inside.ordered
  have within : pe ≤ buf.length := inside.within
  have isBehind : ¬ pe ≤ pb := fun short => nonempty ((window_eq_nil_iff within).mpr short)
  obtain ⟨stop, rfl⟩ : ∃ less, pe = less + 1 := ⟨pe - 1, by omega⟩
  have front : pb ≤ stop := by omega
  have shape : shown buf ⟨pb, stop + 1⟩ = window buf pb stop ++ [buf[stop]] :=
    window_eq_snoc front within
  have place : pb + subSize (size ⟨pb, stop + 1⟩) 1 = stop := by
    rw [size, subSize_of_le ordered, subSize_of_le (by omega)]
    omega
  have shorter : sub ⟨pb, stop + 1⟩ 0 (-1) = ⟨pb, stop⟩ := by
    simp only [sub, StringPiece.mk.injEq]
    omega
  refine ⟨buf[stop], ?_, ?_, ?_⟩
  · exact (congrArg (read buf) place).trans (read_eq within)
  · rw [shape, List.getLast?_concat]
  · rw [shorter, shape, List.dropLast_concat]
    exact readRange_eq front (Nat.le_of_succ_le within)

end StringPiece

namespace HttpMsg

/-! ### The header phase -/

/-- The search for the marker: `scanned_`, and the header when it has been found. -/
structure Search where
  scanned : Nat
  headerSlice : StringPiece := ⟨0, 0⟩
  deriving DecidableEq

/-- `p[scanned_]=='\r'&&memcmp(p+scanned_,"\r\n\r\n",4)==0`. -/
def isMarker (buf : List UInt8) (scanned : Nat) : Except Cursor.Fault Bool := do
  let first ← read buf scanned
  if first = 13 then do
    let four ← readRange buf scanned (scanned + 4)
    return decide (four = headerEnd)
  else return false

/-- One round of the search. -/
def searchRound (buf : List UInt8) (state : Search) : Except Cursor.Fault (Bool × Search) :=
  if addSize state.scanned 4 ≤ buf.length then do
    let marker ← isMarker buf state.scanned
    if marker then return (true, { state with headerSlice := ⟨0, state.scanned⟩ })
    else return (false, { state with scanned := addSize state.scanned 1 })
  else return (true, state)

/-- The loop over the header fields: what is left of the header, the headers, and whether the
fields were well formed. -/
structure FieldLoop where
  headerSlice : StringPiece
  headers : StringMap
  wellFormed : Bool := true
  deriving DecidableEq

/-- `key.size()&&line.size()&&key.data()[key.size()-1]==':'`. -/
def isField (buf : List UInt8) (key line : StringPiece) : Except Cursor.Fault Bool :=
  if key.size ≠ 0 ∧ line.size ≠ 0 then do
    let last ← read buf (key.pb + subSize key.size 1)
    return decide (last = 58)
  else return false

/-- One round of the loop over the header fields. -/
def fieldRound (fuel : Nat) (buf : List UInt8) (state : FieldLoop) :
    Except Cursor.Fault (Bool × FieldLoop) :=
  if state.headerSlice.size = 0 then return (true, state)
  else do
    let (line, headerSlice) ← (state.headerSlice.eat 2).2.eatLine fuel buf
    let (key, behind) ← line.eatWord fuel buf
    let value ← behind.trimSpace fuel buf
    let field ← isField buf key value
    if field then do
      let keyStr ← (key.sub 0 (-1)).toString buf
      let valueStr ← value.toString buf
      return (false, { state with
        headerSlice := headerSlice
        headers := state.headers.set (keyStr.map toLower) valueStr })
    else if key.empty ∧ value.empty ∧ headerSlice.empty then
      return (true, { state with headerSlice := headerSlice })
    else return (true, { state with headerSlice := headerSlice, wellFormed := false })

/-- The part of `tryDecode_` that parses the header, when its end has been found. -/
def parsePhase (fuel : Nat) (looked : HttpMsg) (buf : List UInt8) (headerSlice : StringPiece) :
    Except Cursor.Fault Header := do
  let (line1, behind) ← headerSlice.eatLine fuel buf
  let fields ← loop fuel (fieldRound fuel buf) { headerSlice := behind, headers := looked.headers }
  if fields.wellFormed then
    return .parsed { looked with
      headers := fields.headers
      contentLen := contentLenOf fields.headers
      scanned := addSize looked.scanned 4 } (line1.shown buf)
  else return .malformed { looked with headers := fields.headers } (line1.shown buf)

/-- The part of `tryDecode_` that finds and parses the header, if it comes to it. -/
def headerPhase (fuel : Nat) (msg : HttpMsg) (buf : List UInt8) :
    Except Cursor.Fault (Option Header) :=
  if msg.complete ∨ msg.contentLen ≠ 0 then return none
  else do
    let search ← loop fuel (searchRound buf) { scanned := msg.scanned }
    let looked := { msg with scanned := search.scanned }
    if search.headerSlice.empty then return some (.missing looked)
    else do
      let header ← parsePhase fuel looked buf search.headerSlice
      return some header

/-! ### The search for the marker -/

theorem isMarker_eq {buf : List UInt8} {scanned : Nat} (inside : scanned + 4 ≤ buf.length) :
    isMarker buf scanned = .ok (decide ((buf.drop scanned).take 4 = headerEnd)) := by
  have four : window buf scanned (scanned + 4) = (buf.drop scanned).take 4 := by
    rw [window, List.drop_take, Nat.add_sub_cancel_left]
  have shape := List.drop_eq_getElem_cons (show scanned < buf.length by omega)
  unfold isMarker
  rw [read_eq (show scanned < buf.length by omega), ok_bind]
  split
  · rw [readRange_eq (by omega) inside, ok_bind, four]
    rfl
  · rename_i other
    rw [decide_eq_false]
    · rfl
    · intro marker
      rw [shape] at marker
      exact other (List.cons.inj marker).1

/-- No sum with a place in the buffer wraps around. -/
theorem addSize_place {buf : List UInt8} {scanned more : Nat} (small : buf.length ≤ maxSize)
    (inside : scanned ≤ buf.length) (few : more ≤ 4) : addSize scanned more = scanned + more := by
  have bound := TcpBuffer.maxSize_lt
  refine addSize_of_lt ?_
  unfold sizeModulus
  omega

/-- The search ends with what the decoder on lists finds from the same place on. -/
theorem search_eq {buf : List UInt8} {fuel scanned : Nat} (small : buf.length ≤ maxSize)
    (inside : scanned ≤ buf.length) (enough : buf.length - scanned < fuel) :
    loop fuel (searchRound buf) { scanned := scanned } =
      .ok { scanned := scanned + (seek (buf.drop scanned)).1
            headerSlice := if (seek (buf.drop scanned)).2 then
              ⟨0, scanned + (seek (buf.drop scanned)).1⟩ else ⟨0, 0⟩ } := by
  induction fuel generalizing scanned with
  | zero => omega
  | succ fuel inductionHypothesis =>
    obtain ⟨next, four⟩ : addSize scanned 1 = scanned + 1 ∧ addSize scanned 4 = scanned + 4 :=
      ⟨addSize_place small inside (by omega), addSize_place small inside (by omega)⟩
    by_cases room : scanned + 4 ≤ buf.length
    · have marker := isMarker_eq room
      have shape := List.drop_eq_getElem_cons (show scanned < buf.length by omega)
      have long : ¬ (buf[scanned] :: buf.drop (scanned + 1)).length < 4 := by
        rw [← shape, List.length_drop]
        omega
      by_cases here : (buf.drop scanned).take 4 = headerEnd
      · have found : seek (buf.drop scanned) = (0, true) := by
          rw [shape] at here ⊢
          rw [seek, if_neg long, if_pos here]
        rw [found]
        refine loop_returns ?_ fuel
        rw [searchRound, four, if_pos room, marker, ok_bind, decide_eq_true here]
        rfl
      · have further : seek (buf.drop scanned) =
            ((seek (buf.drop (scanned + 1))).1 + 1, (seek (buf.drop (scanned + 1))).2) := by
          rw [shape] at here ⊢
          rw [seek, if_neg long, if_neg here]
        have goesOn : searchRound buf { scanned := scanned } =
            .ok (false, { scanned := scanned + 1 }) := by
          rw [searchRound, four, next, if_pos room, marker, ok_bind, decide_eq_false here]
          rfl
        rw [loop_continues goesOn, inductionHypothesis (by omega) (by omega), further]
        simp only [Nat.add_assoc, Nat.add_comm 1]
    · have missing : seek (buf.drop scanned) = (0, false) := by
        cases shape : buf.drop scanned with
        | nil => rfl
        | cons byte rest =>
          have short := congrArg List.length shape
          rw [List.length_drop] at short
          rw [seek, if_pos (by omega)]
      rw [missing]
      refine loop_returns ?_ fuel
      rw [searchRound, four, if_neg room]
      rfl

/-- A header that has been found ends in front of the marker. -/
theorem search_slice {buf : List UInt8} {fuel scanned : Nat} {search : Search}
    (small : buf.length ≤ maxSize) (inside : scanned ≤ buf.length) (enough : buf.length < fuel)
    (searched : loop fuel (searchRound buf) { scanned := scanned } = .ok search)
    (solid : search.headerSlice.empty = false) :
    search.headerSlice = ⟨0, search.scanned⟩ ∧ search.scanned < buf.length := by
  have few : buf.length - scanned < fuel := by omega
  obtain rfl := Except.ok.inj ((search_eq small inside few).symm.trans searched)
  cases present : (seek (buf.drop scanned)).2 with
  | false =>
    rw [present] at solid
    cases solid
  | true =>
    have bound := seek_found_le present
    rw [List.length_drop] at bound
    exact ⟨rfl, by simp only; omega⟩

/-! ### The loop over the header fields -/

/-- The decoder's test of a field. -/
theorem isField_eq {buf : List UInt8} {key line : StringPiece} (keyInside : key.Inside buf)
    (lineInside : line.Inside buf) :
    isField buf key line = .ok (decide (key.shown buf ≠ [] ∧ line.shown buf ≠ [] ∧
      (key.shown buf).getLast? = some 58)) := by
  have test := and_congr keyInside.size_ne_zero_iff lineInside.size_ne_zero_iff
  unfold isField
  by_cases solid : key.shown buf ≠ [] ∧ line.shown buf ≠ []
  · obtain ⟨last, found, isLast, -⟩ := keyInside.last solid.1
    rw [if_pos (test.mpr solid), found, ok_bind, isLast]
    simp [solid]
  · rw [if_neg (mt test.mp solid), decide_eq_false]
    · rfl
    · exact fun whole => solid ⟨whole.1, whole.2.1⟩

/-- Behind the header there is more of the buffer. -/
structure FieldLoop.Inside (buf : List UInt8) (state : FieldLoop) : Prop where
  slice : state.headerSlice.Inside buf
  further : state.headerSlice.pe < buf.length

/-- A break that is cut short puts the front behind the end, and ends the loop with an error. -/
theorem fieldRound_passed {buf : List UInt8} {fuel : Nat} {state : FieldLoop}
    (inside : state.Inside buf) (nonempty : state.headerSlice.size ≠ 0)
    (passed : (state.headerSlice.eat 2).2.pe < (state.headerSlice.eat 2).2.pb)
    (enough : buf.length < fuel) :
    fieldRound fuel buf state = .ok (true, { state with
      headerSlice := (state.headerSlice.eat 2).2
      wellFormed := false }) := by
  obtain ⟨⟨pb, pe⟩, headers, wellFormed⟩ := state
  have ordered : pb ≤ pe := inside.slice.ordered
  have further : pe < buf.length := inside.further
  have passed : pe < pb + 2 := passed
  have one : pe = pb + 1 := by
    by_contra other
    obtain rfl : pe = pb := by omega
    exact nonempty ((subSize_of_le (le_refl pe)).trans (Nat.sub_self pe))
  have nothing : window buf (pb + 2) pe = [] :=
    (window_eq_nil_iff further.le).mpr passed.le
  have line : StringPiece.eatLine fuel buf ⟨pb + 2, pe⟩ = .ok (⟨pb + 2, pb + 2⟩, ⟨pb + 2, pe⟩) := by
    rw [StringPiece.eatLine, Cursor.skip_eq further.le (by omega), nothing]
    rfl
  have lineInside : StringPiece.Inside buf ⟨pb + 2, pb + 2⟩ := ⟨le_refl _, by simp only; omega⟩
  have lineShown : StringPiece.shown buf ⟨pb + 2, pb + 2⟩ = [] :=
    (window_eq_nil_iff lineInside.within).mpr (le_refl _)
  obtain ⟨key, behind, word, keyInside, behindInside, wordShown⟩ := lineInside.eatWord_eq enough
  obtain ⟨value, trimmed, valueInside, valueShown⟩ := behindInside.trimSpace_eq enough
  rw [lineShown] at wordShown
  obtain ⟨keyShown, behindShown⟩ := Prod.mk.inj wordShown
  have noField : isField buf key value = .ok false := by
    rw [isField_eq keyInside valueInside, keyShown]
    rfl
  have behindEnd : StringPiece.empty ⟨pb + 2, pe⟩ = false :=
    decide_eq_false (show ¬ pe = pb + 2 by omega)
  rw [fieldRound, if_neg nonempty]
  simp only [StringPiece.eat, line, ok_bind, word, trimmed, noField, behindEnd]
  rw [if_neg Bool.false_ne_true, if_neg fun all => Bool.false_ne_true all.2.2]
  rfl

/-- A round on a header with room for a break does what the decoder on lists does. -/
theorem fieldRound_eq {buf : List UInt8} {fuel : Nat} {state : FieldLoop}
    (inside : state.Inside buf) (room : state.headerSlice.pb + 2 ≤ state.headerSlice.pe)
    (enough : buf.length < fuel) :
    ∃ headerSlice : StringPiece, headerSlice.Inside buf ∧
      headerSlice.pe = state.headerSlice.pe ∧ state.headerSlice.pb + 2 ≤ headerSlice.pb ∧
      headerSlice.shown buf = (eatLine ((state.headerSlice.shown buf).drop 2)).2 ∧
      fieldRound fuel buf state =
        .ok (let (line, rest) := eatLine ((state.headerSlice.shown buf).drop 2)
          let (key, tail) := eatWord line
          let value := trimSpace tail
          if key ≠ [] ∧ value ≠ [] ∧ key.getLast? = some 58 then
            (false, { state with
              headerSlice := headerSlice
              headers := state.headers.set (key.dropLast.map toLower) value })
          else if key = [] ∧ value = [] ∧ rest = [] then
            (true, { state with headerSlice := headerSlice })
          else (true, { state with headerSlice := headerSlice, wellFormed := false })) := by
  have eaten : StringPiece.Inside buf (state.headerSlice.eat 2).2 := ⟨room, inside.slice.within⟩
  have eatenShown : StringPiece.shown buf (state.headerSlice.eat 2).2 =
      (state.headerSlice.shown buf).drop 2 := List.drop_drop.symm
  have nonempty : state.headerSlice.size ≠ 0 := by
    rw [StringPiece.size, subSize_of_le (by omega)]
    omega
  obtain ⟨line, headerSlice, lineEaten, lineInside, restInside, further, sameEnd, lineShown⟩ :=
    eaten.eatLine_eq enough
  obtain ⟨key, behind, word, keyInside, behindInside, wordShown⟩ := lineInside.eatWord_eq enough
  obtain ⟨value, trimmed, valueInside, valueShown⟩ := behindInside.trimSpace_eq enough
  rw [eatenShown] at lineShown
  rw [← lineShown]
  refine ⟨headerSlice, restInside, sameEnd, further, rfl, ?_⟩
  simp only
  rw [← wordShown]
  simp only
  rw [← valueShown]
  rw [fieldRound, if_neg nonempty]
  simp only [lineEaten, ok_bind, word, trimmed, isField_eq keyInside valueInside,
    decide_eq_true_eq]
  split
  · rename_i field
    obtain ⟨-, -, -, name⟩ := keyInside.last field.1
    rw [name, ok_bind, valueInside.toString_eq, ok_bind]
    rfl
  · simp only [keyInside.empty_iff, valueInside.empty_iff, restInside.empty_iff]
    split <;> rfl

/-- A round that goes on leaves a header inside the buffer. -/
theorem FieldLoop.Inside.next {buf : List UInt8} {fuel : Nat} {state next : FieldLoop}
    (inside : state.Inside buf) (enough : buf.length < fuel)
    (taken : fieldRound fuel buf state = .ok (false, next)) : next.Inside buf := by
  by_cases nonempty : state.headerSlice.size = 0
  · have ends : fieldRound fuel buf state = .ok (true, state) := if_pos nonempty
    cases ends.symm.trans taken
  · by_cases passed : state.headerSlice.pe < state.headerSlice.pb + 2
    · cases (fieldRound_passed inside nonempty passed enough).symm.trans taken
    · obtain ⟨headerSlice, restInside, sameEnd, -, -, round⟩ :=
        fieldRound_eq inside (not_lt.mp passed) enough
      rw [round] at taken
      simp only at taken
      split at taken
      · obtain rfl := congrArg Prod.snd (Except.ok.inj taken)
        exact ⟨restInside, sameEnd.symm ▸ inside.further⟩
      · split at taken <;> cases taken

/-- The loop over the header fields returns what the decoder on lists makes of them. -/
theorem fields_eq {buf : List UInt8} {fuel : Nat} (enough : buf.length < fuel) {size count : Nat}
    {state : FieldLoop} (inside : state.Inside buf) (wellFormed : state.wellFormed = true)
    (fits : (state.headerSlice.shown buf).length ≤ size) (rounds : size < count) :
    ∃ final, loop count (fieldRound fuel buf) state = .ok final ∧
      (final.wellFormed, final.headers) =
        parseFields size (state.headerSlice.shown buf) state.headers := by
  -- The induction is on the fuel of the list decoder; every round that goes on uses up two bytes.
  induction size generalizing count state with
  | zero =>
    obtain ⟨count, rfl⟩ : ∃ less, count = less + 1 := ⟨count - 1, by omega⟩
    have nothing := List.length_eq_zero_iff.mp (Nat.le_zero.mp fits)
    have ends : fieldRound fuel buf state = .ok (true, state) :=
      if_pos (by rw [inside.slice.size_eq, nothing, List.length_nil])
    exact ⟨state, loop_returns ends count, by rw [wellFormed, nothing, parseFields, List.isEmpty_nil]⟩
  | succ size inductionHypothesis =>
    obtain ⟨count, rfl⟩ : ∃ less, count = less + 1 := ⟨count - 1, by omega⟩
    have length : (state.headerSlice.shown buf).length =
        state.headerSlice.pe - state.headerSlice.pb := window_length buf inside.slice.within
    have ordered := inside.slice.ordered
    rw [parseFields]
    by_cases nothing : state.headerSlice.shown buf = []
    · have ends : fieldRound fuel buf state = .ok (true, state) :=
        if_pos (by rw [inside.slice.size_eq, nothing, List.length_nil])
      exact ⟨state, loop_returns ends count, by rw [wellFormed, if_pos nothing]⟩
    · rw [if_neg nothing]
      by_cases passed : state.headerSlice.pe < state.headerSlice.pb + 2
      · have ends := fieldRound_passed inside (inside.slice.size_ne_zero_iff.mpr nothing) passed
          enough
        exact ⟨_, loop_returns ends count, by rw [if_pos (by omega)]⟩
      · obtain ⟨headerSlice, restInside, sameEnd, further, restShown, round⟩ :=
          fieldRound_eq inside (not_lt.mp passed) enough
        rw [if_neg (by omega)]
        simp only at round ⊢
        split at round
        · rename_i field
          have shorter : (headerSlice.shown buf).length ≤ size := by
            rw [StringPiece.shown, window_length buf restInside.within]
            omega
          have fewer : size < count := by omega
          have goesOn := FieldLoop.Inside.next inside enough round
          obtain ⟨final, ran, outcome⟩ := inductionHypothesis goesOn wellFormed shorter fewer
          refine ⟨final, (loop_continues round count).trans ran, ?_⟩
          rw [if_pos field, outcome, restShown]
        · rename_i noField
          rw [if_neg noField]
          split at round
          · rename_i blank
            exact ⟨_, loop_returns round count, by rw [if_pos blank, wellFormed]⟩
          · rename_i other
            exact ⟨_, loop_returns round count, by rw [if_neg other]⟩

/-! ### The whole phase -/

/-- A header with more of the buffer behind it is parsed as the decoder on lists does. -/
theorem parsePhase_eq (looked : HttpMsg) {buf : List UInt8} {fuel : Nat}
    (small : buf.length ≤ maxSize) (inside : looked.scanned < buf.length)
    (enough : buf.length < fuel) :
    parsePhase fuel looked buf ⟨0, looked.scanned⟩ =
      .ok (looked.parseHeader (buf.take looked.scanned)) := by
  have whole : StringPiece.Inside buf ⟨0, looked.scanned⟩ := ⟨Nat.zero_le _, inside.le⟩
  obtain ⟨line1, behind, eaten, -, restInside, -, sameEnd, shows⟩ := whole.eatLine_eq enough
  have start : FieldLoop.Inside buf { headerSlice := behind, headers := looked.headers } :=
    ⟨restInside, sameEnd.symm ▸ inside⟩
  have few : (behind.shown buf).length < fuel := by
    rw [StringPiece.shown, window_length buf restInside.within]
    have within := restInside.within
    omega
  obtain ⟨final, ran, outcome⟩ := fields_eq enough start rfl (le_refl _) few
  have slice : StringPiece.shown buf ⟨0, looked.scanned⟩ = buf.take looked.scanned :=
    List.drop_zero
  rw [slice] at shows
  unfold parsePhase parseHeader
  rw [← shows, eaten, ok_bind]
  simp only
  rw [← outcome, ran, ok_bind, addSize_place small inside.le (le_refl 4)]
  cases final.wellFormed <;> rfl

/-- The header phase returns what the decoder on lists returns. -/
theorem headerPhase_eq {msg : HttpMsg} {buf : List UInt8} {fuel : Nat}
    (small : buf.length ≤ maxSize) (enough : buf.length < fuel)
    (inside : ¬ (msg.complete = true ∨ msg.contentLen ≠ 0) → msg.scanned ≤ buf.length) :
    headerPhase fuel msg buf = .ok (if msg.complete = true ∨ msg.contentLen ≠ 0 then none
      else some (msg.decodeHeader buf)) := by
  unfold headerPhase
  by_cases skips : msg.complete = true ∨ msg.contentLen ≠ 0
  · rw [if_pos skips, if_pos skips]
    rfl
  · have few : buf.length - msg.scanned < fuel := by omega
    rw [if_neg skips, if_neg skips, search_eq small (inside skips) few, ok_bind]
    unfold decodeHeader look
    cases found : (seek (buf.drop msg.scanned)).2 with
    | false => rfl
    | true =>
      have bound := seek_found_le found
      rw [List.length_drop] at bound
      have room : msg.scanned + (seek (buf.drop msg.scanned)).1 < buf.length := by omega
      generalize msg.scanned + (seek (buf.drop msg.scanned)).1 = scanned at room ⊢
      have parsed := parsePhase_eq { msg with scanned := scanned } small room enough
      simp only [if_true, Bool.true_eq_false, false_or]
      by_cases atFront : scanned = 0
      · subst atFront
        rfl
      · have solid : StringPiece.empty ⟨0, scanned⟩ = false := decide_eq_false atFront
        rw [solid, if_neg Bool.false_ne_true, if_neg atFront, parsed]
        rfl

/-- The messages that calls on prefixes of a buffer leave behind. Between two calls the callers
keep the version they have read in the first line. -/
inductive Called (buf : List UInt8) : HttpMsg → Prop
  | start : Called buf cleared
  | call (msg done : HttpMsg) (part line1 : List UInt8) (copyBody : Bool) (result : ParseResult)
      (called : Called buf msg) (isPart : part <+: buf)
      (decoded : msg.tryDecode_ part copyBody = .ok (result, done, line1)) : Called buf done
  | keepVersion (msg : HttpMsg) (version : List UInt8) (called : Called buf msg) :
      Called buf (msg.withVersion version)

/-- As long as the header is not parsed, `scanned_` is a place in the buffer. -/
theorem Called.scanned_le {buf : List UInt8} {msg : HttpMsg} (called : Called buf msg)
    (unparsed : ¬ msg.Headed) : msg.scanned ≤ buf.length := by
  induction called with
  | start => exact Nat.zero_le _
  | keepVersion msg version called inductionHypothesis => exact inductionHypothesis unparsed
  | call msg done part line1 copyBody result called isPart decoded inductionHypothesis =>
    have shorter := isPart.length_le
    have open' : ¬ msg.Headed := fun headed => unparsed (headed.call decoded).2
    have scanned := inductionHypothesis open'
    have looked : (msg.look part).scanned ≤ buf.length := by
      have moved := seek_le (part.drop msg.scanned)
      rw [List.length_drop] at moved
      show msg.scanned + (seek (part.drop msg.scanned)).1 ≤ buf.length
      omega
    obtain ⟨unread, noBody⟩ := not_or.mp open'
    unfold tryDecode_ at decoded
    rw [if_neg unread, if_neg noBody] at decoded
    rcases decodeHeader_cases msg part with
      ⟨-, missing⟩ | ⟨room, ⟨headers, line, malformed⟩ | ⟨headers, line, parsed⟩⟩
    · rw [missing] at decoded
      obtain ⟨-, rfl, -⟩ : ParseResult.notComplete = result ∧ msg.look part = done ∧ [] = line1 := by
        simpa using decoded
      exact looked
    · rw [malformed] at decoded
      obtain ⟨-, rfl, -⟩ : ParseResult.error = result ∧
          { msg.look part with headers := headers } = done ∧ line = line1 := by
        simpa using decoded
      exact looked
    · rw [parsed] at decoded
      simp only at decoded
      split at decoded
      · obtain ⟨-, message⟩ := Prod.mk.inj (Except.ok.inj decoded)
        obtain ⟨rfl, -⟩ := Prod.mk.inj message
        exact room.trans shorter
      · obtain ⟨⟨found, body⟩, isBody, same⟩ := bind_eq_ok decoded
        obtain ⟨-, rfl, -⟩ : found = result ∧ body = done ∧ line = line1 := by simpa using same
        rcases decodeBody_cases isBody with ⟨-, rfl, -⟩ | ⟨rfl, -⟩
        · exact room.trans shorter
        · exact absurd (.inl (decodeBody_stores isBody).1) unparsed

/-- The rounds of the loop over the header fields in a call. -/
def FieldRounds (fuel : Nat) (msg : HttpMsg) (buf : List UInt8) (state : FieldLoop) : Prop :=
  ¬ msg.Headed ∧ ∃ search line1 behind,
    loop fuel (searchRound buf) { scanned := msg.scanned } = .ok search ∧
      search.headerSlice.empty = false ∧
      search.headerSlice.eatLine fuel buf = .ok (line1, behind) ∧
      Loop.Rounds (fieldRound fuel buf) { headerSlice := behind, headers := msg.headers } state

/-- `eat` puts the front of the header behind its end. -/
def EatsTooFar (state : FieldLoop) : Prop :=
  state.headerSlice.size ≠ 0 ∧
    (state.headerSlice.eat 2).2.pe < (state.headerSlice.eat 2).2.pb

/-- A round that eats too far makes the header malformed. -/
theorem malformed_of_eatsTooFar {buf : List UInt8} {msg : HttpMsg} {fuel : Nat} {state : FieldLoop}
    (small : buf.length ≤ maxSize) (inside : msg.scanned ≤ buf.length) (enough : buf.length < fuel)
    (rounds : FieldRounds fuel msg buf state) (tooFar : EatsTooFar state) :
    ∃ looked line1, headerPhase fuel msg buf = .ok (some (.malformed looked line1)) := by
  obtain ⟨unparsed, search, line1, behind, searched, solid, eaten, reached⟩ := rounds
  obtain ⟨slice, room⟩ := search_slice small inside enough searched solid
  have whole : search.headerSlice.Inside buf := by
    rw [slice]
    exact ⟨Nat.zero_le _, room.le⟩
  obtain ⟨line, rest, eaten', -, restInside, -, sameEnd, -⟩ := whole.eatLine_eq enough
  obtain ⟨rfl, rfl⟩ := Prod.mk.inj (Except.ok.inj (eaten.symm.trans eaten'))
  have start : FieldLoop.Inside buf { headerSlice := behind, headers := msg.headers } := by
    refine ⟨restInside, ?_⟩
    rw [show (FieldLoop.mk behind msg.headers true).headerSlice.pe = search.headerSlice.pe from
      sameEnd, slice]
    exact room
  have stateInside : state.Inside buf := reached.always (FieldLoop.Inside buf) start
    fun _ _ _ inside taken => inside.next enough taken
  have ends := fieldRound_passed stateInside tooFar.1 tooFar.2 enough
  have few : (behind.shown buf).length < fuel := by
    rw [StringPiece.shown, window_length buf restInside.within]
    have within := restInside.within
    omega
  obtain ⟨final, ran, -⟩ := fields_eq enough start rfl (le_refl _) few
  obtain rfl := loop_of_rounds reached ends ran
  refine ⟨{ msg with scanned := search.scanned, headers := state.headers }, line1.shown buf, ?_⟩
  have unparsed : ¬ (msg.complete = true ∨ msg.contentLen ≠ 0) := unparsed
  rw [headerPhase, if_neg unparsed, searched, ok_bind, solid, if_neg Bool.false_ne_true, parsePhase,
    eaten, ok_bind]
  simp only
  rw [ran]
  rfl

/-- The header phase, for every buffer and whatever calls on its prefixes have left: with more
fuel than the buffer has bytes it returns what the decoder on lists returns, so it has ended and
has read inside the buffer only; and where `eat` passes the end, the result is an error. -/
theorem headerPhase_inside (buf : List UInt8) (msg : HttpMsg) (fuel : Nat)
    (called : Called buf msg) (small : buf.length ≤ maxSize) (enough : buf.length < fuel) :
    headerPhase fuel msg buf = .ok (if msg.complete = true ∨ msg.contentLen ≠ 0 then none
        else some (msg.decodeHeader buf)) ∧
      ∀ state, FieldRounds fuel msg buf state → EatsTooFar state →
        ∃ looked line1, headerPhase fuel msg buf = .ok (some (.malformed looked line1)) ∧
          ∀ copyBody, msg.tryDecode_ buf copyBody = .ok (.error, looked, line1) := by
  have same := headerPhase_eq small enough called.scanned_le
  refine ⟨same, fun state rounds tooFar => ?_⟩
  have unparsed : ¬ (msg.complete = true ∨ msg.contentLen ≠ 0) := rounds.1
  obtain ⟨looked, line1, malformed⟩ :=
    malformed_of_eatsTooFar small (called.scanned_le unparsed) enough rounds tooFar
  refine ⟨looked, line1, malformed, fun copyBody => ?_⟩
  rw [same, if_neg unparsed] at malformed
  have header := Option.some.inj (Except.ok.inj malformed)
  obtain ⟨unread, noBody⟩ := not_or.mp unparsed
  unfold tryDecode_
  rw [if_neg unread, if_neg noBody, header]
  rfl

/-- A header of one letter that ends in a lone carriage return. -/
def loneCr : List UInt8 := text "A\r\r\n\r\n"

/-- A call on four bytes of it and then a call on all: the break is cut short, and the header is
an error. -/
theorem headerPhase_inside_lone_cr :
    ∃ msg, Called loneCr msg ∧ msg.scanned = 1 ∧ ∃ looked line1,
      headerPhase 7 msg loneCr = .ok (some (.malformed looked line1)) ∧
        ∀ copyBody, msg.tryDecode_ loneCr copyBody = .ok (.error, looked, line1) := by
  have called : Called loneCr { cleared with scanned := 1 } :=
    .call cleared _ (loneCr.take 4) [] false .notComplete .start (List.take_prefix _ _) (by decide)
  have small : loneCr.length ≤ maxSize := TcpBuffer.le_maxSize (by decide)
  have unparsed : ¬ Headed { cleared with scanned := 1 } := by
    unfold Headed
    decide
  have searched := search_eq small (show 1 ≤ loneCr.length by decide)
    (show loneCr.length - 1 < 7 by decide)
  have rounds : FieldRounds 7 { cleared with scanned := 1 } loneCr
      { headerSlice := ⟨1, 2⟩, headers := OrderedMap.empty } :=
    ⟨unparsed, _, ⟨0, 1⟩, ⟨1, 2⟩, searched, by decide, by decide, .refl⟩
  exact ⟨_, called, rfl,
    (headerPhase_inside loneCr _ 7 called small (by decide)).2 _ rounds ⟨by decide, by decide⟩⟩

end HttpMsg

end YYNet
