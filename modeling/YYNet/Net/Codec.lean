/-
This file models the two codecs of the library and the loop that takes messages
off a receive buffer, and proves when the loop takes off what was sent.

`readView` is one byte longer than the readable bytes: the byte behind the write
index is part of the view, whatever an earlier message left there, and there is
none when the storage is full. The line codec takes that byte for the end of a
line when it is a newline, and for the end-of-file mark when nothing is readable.
The length codec takes it for the last byte of any message that is one byte short.

The main theorem says that nothing else goes wrong: for every list of messages,
every split of their encodings into chunks and every earlier content of the
storage, the loop takes off exactly the messages and never more than there is,
if and only if the byte behind the write index completes nothing each time the
loop comes to its end.
-/

import YYNet.Lib.BigEndian
import YYNet.Net.TcpBuffer

namespace YYNet

open Checked Storage BigEndian

/-! ### Views -/

/-- `readView`: one byte more than there is to read. A byte outside the storage is `none`. -/
def TcpBuffer.readView (b : TcpBuffer) : List (Option UInt8) :=
  (List.range (addSize b.readableSize 1)).map fun offset => b.buffer[b.readIndex + offset]?

/-- Read a byte of a view. -/
def readCell : Option UInt8 → Except Fault UInt8
  | some byte => .ok byte
  | none => .error .outOfBounds

/-- `static_cast<int>` of a size. -/
def castInt (size : Nat) : Int := Int.bmod size (2 ^ 32)

theorem castInt_of_lt {size : Nat} (small : size < 2 ^ 31) : castInt size = size := by
  unfold castInt
  rw [Int.bmod_def]
  split <;> omega

/-! ### The codecs -/

/-- `LineCodec` and `LengthCodec`. -/
inductive Codec
  | line
  | length
  deriving DecidableEq, Repr

namespace Codec

/-- The loop of `LineCodec::tryDecode`, from an index on. -/
def findNewline : Nat → List (Option UInt8) → Except Fault (Option Nat)
  | _, [] => .ok none
  | index, cell :: rest => do
    let byte ← readCell cell
    if byte = 10 then .ok (some index) else findNewline (index + 1) rest

/-- `LineCodec::tryDecode` behind its first test. -/
def lineScan (data : List (Option UInt8)) : Except Fault (Int × List (Option UInt8)) := do
  match ← findNewline 0 data with
  | some index =>
    .ok (castInt (index + 1),
      data.take (if 0 < index ∧ data[index - 1]? = some (some 13) then index - 1 else index))
  | none => .ok (0, [])

/-- `LineCodec::tryDecode`: a view of one byte may be the end-of-file mark. -/
def lineDecode : List (Option UInt8) → Except Fault (Int × List (Option UInt8))
  | [cell] => do
    let byte ← readCell cell
    if byte = 4 then .ok (1, [cell]) else lineScan [cell]
  | data => lineScan data

/-- The mark in front of the length, `mBdT`. -/
def magic : List UInt8 := [109, 66, 100, 84]

/-- The longest message of `LengthCodec`. -/
def maxLength : Nat := 1024 * 1024

/-- `LengthCodec::tryDecode`. -/
def lengthDecode (data : List (Option UInt8)) : Except Fault (Int × List (Option UInt8)) :=
  if data.length < 8 then .ok (0, [])
  else do
    let word ← ((data.drop 4).take 4).mapM readCell
    if maxLength < valueOf word then .ok (-1, [])
    else do
      let mark ← (data.take 4).mapM readCell
      if mark ≠ magic then .ok (-1, [])
      else if valueOf word + 8 ≤ data.length then
        .ok (castInt (valueOf word + 8), (data.drop 8).take (valueOf word))
      else .ok (0, [])

/-- `tryDecode`: the length of the frame and the message, zero for an unfinished frame, a
negative number for what is none. -/
def tryDecode : Codec → List (Option UInt8) → Except Fault (Int × List (Option UInt8))
  | .line => lineDecode
  | .length => lengthDecode

/-- `encode`. -/
def encode (build : Build) (b : TcpBuffer) (message : List UInt8) :
    Codec → Except Fault TcpBuffer
  | .line => do
    let appended ← b.fluentAppend build message
    appended.append build [13, 10]
  | .length => do
    let marked ← b.fluentAppend build magic
    let measured ← marked.fluentAppend build (bytesOf 4 message.length)
    measured.append build message

/-- Messages encoded one after another. -/
def encodeAll (build : Build) (codec : Codec) : TcpBuffer → List (List UInt8) →
    Except Fault TcpBuffer
  | b, [] => .ok b
  | b, message :: rest => do
    let encoded ← codec.encode build b message
    encodeAll build codec encoded rest

/-! ### The receive loop -/

/-- One round of the loop: what `tryDecode` returned, and how much was readable. -/
structure Decoded where
  taken : Int
  message : List (Option UInt8)
  readable : Nat
  deriving DecidableEq, Repr

/-- How a loop ended. -/
inductive Ending
  | stopped (b : TcpBuffer)
  | faulted (fault : Fault)
  | outOfFuel
  deriving DecidableEq, Repr

/-- The loop over a receive buffer: the rounds that found a message, and the end. -/
def drain (build : Build) (codec : Codec) : Nat → TcpBuffer → List Decoded × Ending
  | 0, _ => ([], .outOfFuel)
  | fuel + 1, b =>
    match codec.tryDecode b.readView with
    | .error fault => ([], .faulted fault)
    | .ok (taken, message) =>
      if 0 < taken then
        match b.consume build taken.toNat with
        | .error fault => ([⟨taken, message, b.readableSize⟩], .faulted fault)
        | .ok consumed =>
          (⟨taken, message, b.readableSize⟩ :: (drain build codec fuel consumed).1,
            (drain build codec fuel consumed).2)
      else ([], .stopped b)

/-- Every chunk is appended and followed by the loop. A round for each readable byte and one
more are enough for a loop that makes progress. -/
def receive (build : Build) (codec : Codec) : TcpBuffer → List (List UInt8) → List Decoded × Ending
  | b, [] => ([], .stopped b)
  | b, chunk :: more =>
    match b.append build chunk with
    | .error fault => ([], .faulted fault)
    | .ok appended =>
      match drain build codec (appended.readableSize + 1) appended with
      | (rounds, .stopped rest) =>
        (rounds ++ (receive build codec rest more).1, (receive build codec rest more).2)
      | ended => ended

/-- What the loop is for: it takes off the messages and nothing else, and never more than was
readable. -/
def TakesOff (build : Build) (codec : Codec) (b : TcpBuffer) (chunks messages : List (List UInt8)) :
    Prop :=
  (∃ rest, (receive build codec b chunks).2 = .stopped rest) ∧
    (receive build codec b chunks).1.map Decoded.message = messages.map (·.map some) ∧
    ∀ round ∈ (receive build codec b chunks).1, round.taken ≤ round.readable

/-! ### What the encodings are -/

/-- The bytes `encode` appends. -/
def frame : Codec → List UInt8 → List UInt8
  | .line, message => message ++ [13, 10]
  | .length, message => magic ++ bytesOf 4 message.length ++ message

/-- The messages a codec is for. -/
def Admissible : Codec → List UInt8 → Prop
  | .line, message => 10 ∉ message ∧ message.head? ≠ some 4
  | .length, message => message.length ≤ maxLength

/-- The length of a frame is an `int`. -/
def Fits (codec : Codec) (message : List UInt8) : Prop := (codec.frame message).length < 2 ^ 31

theorem encode_returns (build : Build) (codec : Codec) {b encoded : TcpBuffer}
    (valid : b.Valid) {message : List UInt8}
    (returned : codec.encode build b message = .ok encoded) :
    encoded.Valid ∧ encoded.readable = b.readable ++ codec.frame message := by
  cases codec with
  | line =>
    obtain ⟨appended, first, second⟩ := bind_eq_ok returned
    have one := TcpBuffer.append_returns build valid first
    have two := TcpBuffer.append_returns build one.valid second
    refine ⟨two.valid, ?_⟩
    rw [two.readable_eq, one.readable_eq, List.append_assoc]
    rfl
  | length =>
    obtain ⟨marked, first, rest⟩ := bind_eq_ok returned
    obtain ⟨measured, second, third⟩ := bind_eq_ok rest
    have one := TcpBuffer.append_returns build valid first
    have two := TcpBuffer.append_returns build one.valid second
    have three := TcpBuffer.append_returns build two.valid third
    refine ⟨three.valid, ?_⟩
    rw [three.readable_eq, two.readable_eq, one.readable_eq, List.append_assoc, List.append_assoc]
    simp [frame]

/-- The encodings of messages stand one behind another. -/
theorem encodeAll_returns (build : Build) (codec : Codec) {b encoded : TcpBuffer}
    (valid : b.Valid) {messages : List (List UInt8)}
    (returned : codec.encodeAll build b messages = .ok encoded) :
    encoded.readable = b.readable ++ messages.flatMap codec.frame := by
  induction messages generalizing b with
  | nil =>
    obtain rfl : b = encoded := Except.ok.inj returned
    rw [List.flatMap_nil, List.append_nil]
  | cons message rest inductionHypothesis =>
    obtain ⟨next, first, later⟩ := bind_eq_ok returned
    obtain ⟨nextValid, nextReadable⟩ := encode_returns build codec valid first
    rw [inductionHypothesis nextValid later, nextReadable, List.flatMap_cons, List.append_assoc]

/-! ### The byte behind the write index -/

theorem readView_eq {b : TcpBuffer} (valid : b.Valid) :
    b.readView = b.readable.map some ++ [b.buffer[b.writeIndex]?] := by
  have small : b.readableSize + 1 < sizeModulus := by
    have := valid.read_add_readable
    have := valid.write_le_size
    have := valid.size_le_max
    have := TcpBuffer.maxSize_lt_sizeModulus
    omega
  unfold TcpBuffer.readView
  rw [addSize_of_lt small, List.range_succ, List.map_append, List.map_singleton,
    valid.read_add_readable]
  congr 1
  refine List.ext_getElem ?_ fun index inRange inReadable => ?_
  · rw [List.length_map, List.length_range, List.length_map, valid.readable_length]
  · have inside : b.readIndex + index < b.buffer.length := by
      rw [List.length_map, List.length_range] at inRange
      have := valid.read_add_readable
      have := valid.write_le_size
      omega
    simp [TcpBuffer.readable, stretch, inside]

/-- The byte behind the write index completes nothing: with the unfinished frame in front of it,
it is neither the end of a line nor an end-of-file mark, and neither the last byte of a message
nor the last byte of a zero length. -/
def Harmless : Codec → List UInt8 → Option UInt8 → Prop
  | .line, unfinished, behind =>
    behind ≠ none ∧ behind ≠ some 10 ∧ (unfinished = [] → behind ≠ some 4)
  | .length, unfinished, behind =>
    (unfinished.length = 7 → behind ≠ none ∧
      ¬ (unfinished.drop 4 = [0, 0, 0] ∧ behind = some 0)) ∧
    (8 ≤ unfinished.length →
      unfinished.length + 1 ≠ valueOf ((unfinished.drop 4).take 4) + 8)

/-! ### `LineCodec` -/

theorem findNewline_skip (index : Nat) (bytes : List UInt8) (rest : List (Option UInt8))
    (none : 10 ∉ bytes) :
    findNewline index (bytes.map some ++ rest) = findNewline (index + bytes.length) rest := by
  induction bytes generalizing index with
  | nil => rfl
  | cons byte later inductionHypothesis =>
    have different : byte ≠ 10 := fun same => none (same ▸ List.mem_cons_self)
    have noneLater : 10 ∉ later := fun member => none (List.mem_cons_of_mem _ member)
    rw [List.map_cons, List.cons_append, findNewline, readCell, ok_bind, if_neg different,
      inductionHypothesis _ noneLater, List.length_cons]
    congr 1
    omega

theorem lineDecode_of_length {data : List (Option UInt8)} (several : data.length ≠ 1) :
    lineDecode data = lineScan data := by
  match data with
  | [] => rfl
  | [_] => exact absurd rfl several
  | _ :: _ :: _ => rfl

/-- A whole line at the front of a view. -/
theorem lineDecode_frame {message : List UInt8} (admissible : Admissible .line message)
    (fits : Fits .line message) (rest : List (Option UInt8)) :
    lineDecode ((frame .line message).map some ++ rest) =
      .ok ((frame .line message).length, message.map some) := by
  have frameLength : (frame .line message).length = message.length + 2 := by simp [frame]
  have whole : (frame .line message).map some ++ rest =
      (message ++ [13]).map some ++ some 10 :: rest := by simp [frame]
  have clear : 10 ∉ message ++ [13] := by
    rw [List.mem_append, List.mem_singleton]
    rintro (member | same)
    · exact admissible.1 member
    · cases same
  have found : findNewline 0 ((frame .line message).map some ++ rest) =
      .ok (some (message.length + 1)) := by
    rw [whole, findNewline_skip 0 _ _ clear, findNewline, readCell, ok_bind, if_pos rfl]
    simp
  have scanned : lineScan ((frame .line message).map some ++ rest) =
      .ok ((frame .line message).length, message.map some) := by
    have before : ((frame .line message).map some ++ rest)[message.length]? =
        some (some 13) := by
      simp [frame]
    unfold Fits at fits
    rw [lineScan, found, ok_bind]
    simp only [Nat.add_sub_cancel, before, and_true]
    rw [if_pos (Nat.succ_pos _), castInt_of_lt (by omega), frameLength]
    congr 2
    simp [frame]
  rw [← scanned]
  refine lineDecode_of_length ?_
  rw [List.length_append, List.length_map, frameLength]
  omega

/-- A round that goes wrong: it reads outside the storage, or takes more than there is. -/
def Misled (readable : Nat) (outcome : Except Fault (Int × List (Option UInt8))) : Prop :=
  (∃ fault, outcome = .error fault) ∨
    ∃ taken message, outcome = .ok (taken, message) ∧ (readable : Int) < taken

/-- An unfinished line is left alone, if and only if the byte behind it is harmless. -/
theorem lineDecode_unfinished {unfinished : List UInt8} (clear : 10 ∉ unfinished)
    (small : unfinished.length + 1 < 2 ^ 31) (behind : Option UInt8) :
    (Harmless .line unfinished behind →
      lineDecode (unfinished.map some ++ [behind]) = .ok (0, [])) ∧
    (¬ Harmless .line unfinished behind →
      Misled unfinished.length (lineDecode (unfinished.map some ++ [behind]))) := by
  have found : findNewline 0 (unfinished.map some ++ [behind]) =
      findNewline unfinished.length [behind] := by
    rw [findNewline_skip 0 _ _ clear, Nat.zero_add]
  have scanNone : behind = none →
      lineScan (unfinished.map some ++ [behind]) = .error .outOfBounds := by
    rintro rfl
    rw [lineScan, found]
    rfl
  have scanNewline : behind = some 10 →
      ∃ message, lineScan (unfinished.map some ++ [behind]) =
        .ok (unfinished.length + 1, message) := by
    rintro rfl
    rw [lineScan, found, findNewline, readCell, ok_bind, if_pos rfl, ok_bind]
    exact ⟨_, by simp only [castInt_of_lt small]; rfl⟩
  have scanOther : ∀ byte, behind = some byte → byte ≠ 10 →
      lineScan (unfinished.map some ++ [behind]) = .ok (0, []) := by
    rintro byte rfl different
    rw [lineScan, found, findNewline, readCell, ok_bind, if_neg different, findNewline, ok_bind]
  by_cases empty : unfinished = []
  · subst empty
    -- The view is the stale byte alone.
    cases behind with
    | none => exact ⟨fun harmless => absurd rfl harmless.1, fun _ => .inl ⟨.outOfBounds, rfl⟩⟩
    | some byte =>
      have start : lineDecode ([].map some ++ [some byte]) =
          if byte = 4 then .ok (1, [some byte]) else lineScan ([].map some ++ [some byte]) := rfl
      rw [start]
      by_cases mark : byte = 4
      · rw [if_pos mark]
        subst mark
        refine ⟨fun harmless => absurd rfl (harmless.2.2 rfl), fun _ => .inr ⟨_, _, rfl, ?_⟩⟩
        simp
      · rw [if_neg mark]
        by_cases newline : byte = 10
        · subst newline
          obtain ⟨message, scanned⟩ := scanNewline rfl
          refine ⟨fun harmless => absurd rfl harmless.2.1, fun _ => .inr ⟨_, message, scanned, ?_⟩⟩
          simp
        · have harmless : Harmless .line [] (some byte) :=
            ⟨by simp, by simpa using newline, fun _ => by simpa using mark⟩
          exact ⟨fun _ => scanOther byte rfl newline, fun harmful => absurd harmless harmful⟩
  · have several : lineDecode (unfinished.map some ++ [behind]) =
        lineScan (unfinished.map some ++ [behind]) := by
      refine lineDecode_of_length ?_
      have := List.length_pos_iff.mpr empty
      rw [List.length_append, List.length_map, List.length_singleton]
      omega
    rw [several]
    cases behind with
    | none =>
      refine ⟨fun harmless => absurd rfl harmless.1, fun _ => .inl ⟨_, scanNone rfl⟩⟩
    | some byte =>
      by_cases newline : byte = 10
      · subst newline
        obtain ⟨message, scanned⟩ := scanNewline rfl
        refine ⟨fun harmless => absurd rfl harmless.2.1, fun _ => .inr ⟨_, message, scanned, ?_⟩⟩
        omega
      · have harmless : Harmless .line unfinished (some byte) :=
          ⟨by simp, by simpa using newline, fun none => absurd none empty⟩
        exact ⟨fun _ => scanOther byte rfl newline, fun harmful => absurd harmless harmful⟩

/-! ### `LengthCodec` -/

theorem mapM_readCell (bytes : List UInt8) : (bytes.map some).mapM readCell = .ok bytes := by
  induction bytes with
  | nil => rfl
  | cons byte rest inductionHypothesis =>
    rw [List.map_cons, List.mapM_cons, readCell, ok_bind, inductionHypothesis, ok_bind, pure_eq_ok]

theorem valueOf_length {message : List UInt8} (admissible : Admissible .length message) :
    valueOf (bytesOf 4 message.length) = message.length := by
  rw [valueOf_bytesOf]
  have small : message.length ≤ maxLength := admissible
  unfold maxLength at small
  exact Nat.mod_eq_of_lt (by omega)

/-- What the decoder does with a view that starts with the mark and four more bytes. -/
theorem lengthDecode_word {word : List UInt8} (four : word.length = 4)
    (rest : List (Option UInt8)) :
    lengthDecode ((magic ++ word).map some ++ rest) =
      if maxLength < valueOf word then .ok (-1, [])
      else if valueOf word ≤ rest.length then
        .ok ((valueOf word + 8 : Nat), rest.take (valueOf word))
      else .ok (0, []) := by
  have headerLength : ((magic ++ word).map some).length = 8 := by
    simp [magic, four]
  have first : ((magic ++ word).map some ++ rest).take 4 = magic.map some := by simp [magic]
  have second : (((magic ++ word).map some ++ rest).drop 4).take 4 = word.map some := by
    rw [List.map_append, List.append_assoc, List.drop_left' (by rfl),
      List.take_left' (by rw [List.length_map, four])]
  have third : ((magic ++ word).map some ++ rest).drop 8 = rest :=
    List.drop_left' headerLength
  have enough : ¬ ((magic ++ word).map some ++ rest).length < 8 := by
    rw [List.length_append, headerLength]
    omega
  rw [lengthDecode, if_neg enough, second, mapM_readCell, ok_bind]
  by_cases long : maxLength < valueOf word
  · rw [if_pos long, if_pos long]
  · have fits : valueOf word + 8 < 2 ^ 31 := by
      unfold maxLength at long
      omega
    rw [if_neg long, if_neg long, first, mapM_readCell, ok_bind, if_neg (by simp), third,
      castInt_of_lt fits, List.length_append, headerLength]
    by_cases whole : valueOf word ≤ rest.length
    · rw [if_pos whole, if_pos (by omega)]
    · rw [if_neg whole, if_neg (by omega)]

/-- What the decoder does with a view whose first eight bytes are a header. -/
theorem lengthDecode_header {message : List UInt8} (admissible : Admissible .length message)
    (rest : List (Option UInt8)) :
    lengthDecode ((magic ++ bytesOf 4 message.length).map some ++ rest) =
      if message.length ≤ rest.length then
        .ok ((message.length + 8 : Nat), rest.take message.length)
      else .ok (0, []) := by
  have small : message.length ≤ maxLength := admissible
  rw [lengthDecode_word (bytesOf_length 4 _), valueOf_length admissible,
    if_neg (not_lt.mpr small)]

/-- A whole frame at the front of a view. -/
theorem lengthDecode_frame {message : List UInt8} (admissible : Admissible .length message)
    (rest : List (Option UInt8)) :
    lengthDecode ((frame .length message).map some ++ rest) =
      .ok ((frame .length message).length, message.map some) := by
  have whole : (frame .length message).map some ++ rest =
      (magic ++ bytesOf 4 message.length).map some ++ (message.map some ++ rest) := by
    simp [frame]
  have frameLength : (frame .length message).length = message.length + 8 := by
    simp [frame, magic]
    omega
  rw [whole, lengthDecode_header admissible, if_pos (by simp), frameLength,
    List.take_left' (List.length_map _)]

theorem valueOf_eq_zero {first second third last : UInt8} :
    valueOf [first, second, third, last] = 0 ↔
      [first, second, third] = [0, 0, 0] ∧ last = 0 := by
  have zero : ∀ byte : UInt8, byte.toNat = 0 ↔ byte = 0 := by
    intro byte
    rw [← UInt8.toNat_inj]
    rfl
  simp only [valueOf, List.foldl_cons, List.foldl_nil, List.cons.injEq, and_true, ← zero]
  omega

/-- With seven bytes the byte behind them is the last one of the length. -/
theorem lengthDecode_seven (first second third : UInt8) (behind : Option UInt8) :
    lengthDecode ((magic ++ [first, second, third]).map some ++ [behind]) =
      [some first, some second, some third, behind].mapM readCell >>= fun word =>
        if maxLength < valueOf word then .ok (-1, [])
        else if valueOf word + 8 ≤ 8 then
          .ok (castInt (valueOf word + 8), [].take (valueOf word))
        else .ok (0, []) := by
  have view : (magic ++ [first, second, third]).map some ++ [behind] =
      magic.map some ++ [some first, some second, some third, behind] := rfl
  have mark : (magic.map some).mapM readCell = .ok magic := mapM_readCell magic
  rw [view, lengthDecode, if_neg (by simp [magic]), List.drop_left' (by rfl),
    List.take_left' (by rfl), mark]
  rfl

/-- An unfinished frame is left alone, if and only if the byte behind it is harmless. -/
theorem lengthDecode_unfinished {message unfinished missing : List UInt8}
    (admissible : Admissible .length message) (isShort : missing ≠ [])
    (shape : unfinished ++ missing = frame .length message) (behind : Option UInt8) :
    (Harmless .length unfinished behind →
      ∃ taken text, lengthDecode (unfinished.map some ++ [behind]) = .ok (taken, text) ∧
        taken ≤ 0) ∧
    (¬ Harmless .length unfinished behind →
      Misled unfinished.length (lengthDecode (unfinished.map some ++ [behind]))) := by
  have shorter : unfinished.length < message.length + 8 := by
    have lengths := congrArg List.length shape
    have := List.length_pos_iff.mpr isShort
    simp [frame, magic] at lengths
    omega
  have prefixed : ∀ count, count ≤ unfinished.length →
      unfinished.take count = (frame .length message).take count := by
    intro count inside
    rw [← shape, List.take_append_of_le_length inside]
  rcases Nat.lt_trichotomy unfinished.length 7 with few | seven | many
  · have harmless : Harmless .length unfinished behind :=
      ⟨fun same => by omega, fun more => by omega⟩
    refine ⟨fun _ => ⟨0, [], ?_, le_refl _⟩, fun harmful => absurd harmless harmful⟩
    rw [lengthDecode, if_pos]
    simp
    omega
  · -- The byte behind is the last one of the length.
    have front : unfinished.take 4 = magic := by
      rw [prefixed 4 (by omega), frame, List.append_assoc]
      exact List.take_left' (by rfl)
    obtain ⟨first, second, third, back⟩ : ∃ first second third,
        unfinished.drop 4 = [first, second, third] :=
      List.length_eq_three.mp (by rw [List.length_drop]; omega)
    have whole : unfinished = magic ++ [first, second, third] := by
      rw [← front, ← back, List.take_append_drop]
    have decode := lengthDecode_seven first second third behind
    rw [← whole] at decode
    rw [decode]
    cases behind with
    | none =>
      refine ⟨fun harmless => absurd rfl (harmless.1 seven).1, fun _ => .inl ⟨.outOfBounds, rfl⟩⟩
    | some last =>
      have word : [some first, some second, some third, some last].mapM readCell =
          .ok [first, second, third, last] := mapM_readCell [first, second, third, last]
      rw [word, ok_bind]
      by_cases zero : valueOf [first, second, third, last] = 0
      · obtain ⟨zeros, isZero⟩ := valueOf_eq_zero.mp zero
        refine ⟨fun harmless => ?_, fun _ => .inr ⟨8, [], ?_, ?_⟩⟩
        · exact absurd ⟨back.trans zeros, by rw [isZero]⟩ (harmless.1 seven).2
        · rw [zero]
          rfl
        · rw [seven]
          decide
      · have harmless : Harmless .length unfinished (some last) := by
          refine ⟨fun _ => ⟨by simp, fun zeros => zero ?_⟩, fun more => by omega⟩
          exact valueOf_eq_zero.mpr ⟨back.symm.trans zeros.1, by simpa using zeros.2⟩
        refine ⟨fun _ => ?_, fun harmful => absurd harmless harmful⟩
        by_cases long : maxLength < valueOf [first, second, third, last]
        · rw [if_pos long]
          exact ⟨-1, [], rfl, by decide⟩
        · rw [if_neg long, if_neg (by omega)]
          exact ⟨0, [], rfl, le_refl _⟩
  · -- The header is complete.
    have header : unfinished = magic ++ bytesOf 4 message.length ++ unfinished.drop 8 := by
      have start := prefixed 8 many
      have front : (frame .length message).take 8 = magic ++ bytesOf 4 message.length :=
        List.take_left' (by simp [magic])
      rw [front] at start
      rw [← start, List.take_append_drop]
    have word : (unfinished.drop 4).take 4 = bytesOf 4 message.length := by
      rw [header, List.append_assoc, List.drop_left' (by rfl), List.take_left' (by simp)]
    have view : unfinished.map some ++ [behind] =
        (magic ++ bytesOf 4 message.length).map some ++
          ((unfinished.drop 8).map some ++ [behind]) := by
      conv_lhs => rw [header]
      rw [List.map_append, List.append_assoc]
    have restLength : ((unfinished.drop 8).map some ++ [behind]).length =
        unfinished.length - 8 + 1 := by simp
    rw [view, lengthDecode_header admissible, restLength]
    constructor
    · rintro ⟨-, notOne⟩
      have differs := notOne many
      rw [word, valueOf_length admissible] at differs
      rw [if_neg (by omega)]
      exact ⟨0, [], rfl, le_refl _⟩
    · intro harmful
      have one : unfinished.length + 1 = message.length + 8 := by
        by_contra differs
        refine harmful ⟨fun same => by omega, fun _ => ?_⟩
        rwa [word, valueOf_length admissible]
      rw [if_pos (by omega)]
      refine .inr ⟨_, _, rfl, ?_⟩
      omega

/-! ### Both codecs -/

theorem frame_ne_nil (codec : Codec) (message : List UInt8) : codec.frame message ≠ [] := by
  cases codec <;> simp [frame, magic]

theorem tryDecode_frame (codec : Codec) {message : List UInt8}
    (admissible : codec.Admissible message) (fits : codec.Fits message)
    (rest : List (Option UInt8)) :
    codec.tryDecode ((codec.frame message).map some ++ rest) =
      .ok ((codec.frame message).length, message.map some) := by
  cases codec with
  | line => exact lineDecode_frame admissible fits rest
  | length => exact lengthDecode_frame admissible rest

/-- A part of a line that is not the whole of it has no newline. -/
theorem newline_not_mem {message unfinished missing : List UInt8}
    (admissible : Admissible .line message) (isShort : missing ≠ [])
    (shape : unfinished ++ missing = frame .line message) : 10 ∉ unfinished := by
  intro member
  have whole : frame .line message = (message ++ [13]) ++ [10] := by simp [frame]
  obtain ⟨early, last, rfl⟩ := List.eq_nil_or_concat missing |>.resolve_left isShort
  rw [List.concat_eq_append, ← List.append_assoc, whole] at shape
  obtain ⟨front, -⟩ := List.append_inj' shape rfl
  have inFront : 10 ∈ message ++ [13] := front ▸ List.mem_append_left _ member
  rw [List.mem_append, List.mem_singleton] at inFront
  rcases inFront with inMessage | same
  · exact admissible.1 inMessage
  · cases same

/-- An unfinished frame is left alone, if and only if the byte behind it is harmless. -/
theorem tryDecode_unfinished (codec : Codec) {message unfinished missing : List UInt8}
    (admissible : codec.Admissible message) (fits : codec.Fits message) (isShort : missing ≠ [])
    (shape : unfinished ++ missing = codec.frame message) (behind : Option UInt8) :
    (codec.Harmless unfinished behind →
      ∃ taken text, codec.tryDecode (unfinished.map some ++ [behind]) = .ok (taken, text) ∧
        taken ≤ 0) ∧
    (¬ codec.Harmless unfinished behind →
      Misled unfinished.length (codec.tryDecode (unfinished.map some ++ [behind]))) := by
  cases codec with
  | line =>
    have small : unfinished.length + 1 < 2 ^ 31 := by
      have lengths := congrArg List.length shape
      have := List.length_pos_iff.mpr isShort
      unfold Fits at fits
      rw [List.length_append] at lengths
      omega
    obtain ⟨left, misled⟩ := lineDecode_unfinished (newline_not_mem admissible isShort shape) small
      behind
    exact ⟨fun harmless => ⟨0, [], left harmless, le_refl _⟩, misled⟩
  | length => exact lengthDecode_unfinished admissible isShort shape behind

/-! ### What a loop should leave -/

/-- The buffer without the whole frames of a list of messages at its front, and the messages that
are left. -/
def settle (codec : Codec) : TcpBuffer → List (List UInt8) → TcpBuffer × List (List UInt8)
  | b, [] => (b, [])
  | b, message :: rest =>
    if (codec.frame message).length ≤ b.readableSize then
      settle codec (b.consumed (codec.frame message).length) rest
    else (b, message :: rest)

/-- Each time a loop should come to its end, the byte behind the write index is harmless. -/
def Undisturbed (build : Build) (codec : Codec) :
    TcpBuffer → List (List UInt8) → List (List UInt8) → Prop
  | _, _, [] => True
  | b, messages, chunk :: more => ∃ appended, b.append build chunk = .ok appended ∧
    codec.Harmless (codec.settle appended messages).1.readable
      (codec.settle appended messages).1.buffer[(codec.settle appended messages).1.writeIndex]? ∧
    Undisturbed build codec (codec.settle appended messages).1
      (codec.settle appended messages).2 more

/-- What is readable is short of the first frame. -/
def Short (codec : Codec) (b : TcpBuffer) (messages : List (List UInt8)) : Prop :=
  ∀ message ∈ messages.head?, b.readableSize < (codec.frame message).length

/-- What `settle` leaves of a stream. -/
theorem settle_spec (codec : Codec) {messages : List (List UInt8)} {b : TcpBuffer}
    (valid : b.Valid) {later : List UInt8}
    (stream : b.readable ++ later = messages.flatMap codec.frame) :
    (codec.settle b messages).1.Valid ∧
      (codec.settle b messages).1.readable ++ later =
        (codec.settle b messages).2.flatMap codec.frame ∧
      codec.Short (codec.settle b messages).1 (codec.settle b messages).2 := by
  induction messages generalizing b with
  | nil => exact ⟨valid, stream, fun message none => by cases none⟩
  | cons message rest inductionHypothesis =>
    rw [settle]
    split
    · rename_i whole
      refine inductionHypothesis (TcpBuffer.consumed_valid valid _) ?_
      rw [← valid.readable_length] at whole
      have dropped := congrArg (List.drop (codec.frame message).length) stream
      rw [List.drop_append_of_le_length whole, List.flatMap_cons, List.drop_left] at dropped
      rwa [TcpBuffer.consumed_readable valid]
    · rename_i short
      refine ⟨valid, stream, fun first isFirst => ?_⟩
      obtain rfl : message = first := Option.some.inj isFirst
      exact not_le.mp short

theorem settle_suffix (codec : Codec) (b : TcpBuffer) (messages : List (List UInt8)) :
    (codec.settle b messages).2 <:+ messages := by
  induction messages generalizing b with
  | nil => exact List.suffix_refl _
  | cons message rest inductionHypothesis =>
    rw [settle]
    split
    · exact (inductionHypothesis _).trans (List.suffix_cons message rest)
    · exact List.suffix_refl _

/-- The rounds a loop should make. -/
def rounds (codec : Codec) : TcpBuffer → List (List UInt8) → List Decoded
  | _, [] => []
  | b, message :: rest =>
    if (codec.frame message).length ≤ b.readableSize then
      ⟨(codec.frame message).length, message.map some, b.readableSize⟩ ::
        rounds codec (b.consumed (codec.frame message).length) rest
    else []

theorem rounds_message (codec : Codec) (b : TcpBuffer) (messages : List (List UInt8)) :
    (codec.rounds b messages).map Decoded.message ++
      (codec.settle b messages).2.map (·.map some) = messages.map (·.map some) := by
  induction messages generalizing b with
  | nil => rfl
  | cons message rest inductionHypothesis =>
    rw [rounds, settle]
    split
    · rw [List.map_cons, List.map_cons, List.cons_append, inductionHypothesis]
    · rfl

theorem rounds_taken (codec : Codec) (b : TcpBuffer) (messages : List (List UInt8)) :
    ∀ round ∈ codec.rounds b messages, round.taken ≤ round.readable := by
  induction messages generalizing b with
  | nil =>
    intro round member
    cases member
  | cons message rest inductionHypothesis =>
    rw [rounds]
    split
    · rename_i whole
      intro round member
      rcases List.mem_cons.mp member with rfl | later
      · exact Int.ofNat_le.mpr whole
      · exact inductionHypothesis _ round later
    · intro round member
      cases member

/-- A loop that goes wrong: a round takes more than there is, or something stops it. -/
def GoesWrong (outcome : List Decoded × Ending) : Prop :=
  (∃ round ∈ outcome.1, (round.readable : Int) < round.taken) ∨
    ∃ fault, outcome.2 = .faulted fault

/-- One round on a buffer without a whole frame. -/
theorem drain_unfinished (build : Build) (codec : Codec) {b : TcpBuffer} (valid : b.Valid)
    {message missing : List UInt8} (admissible : codec.Admissible message)
    (fits : codec.Fits message) (isShort : missing ≠ [])
    (shape : b.readable ++ missing = codec.frame message) (fuel : Nat) :
    (codec.Harmless b.readable b.buffer[b.writeIndex]? →
      drain build codec (fuel + 1) b = ([], .stopped b)) ∧
    (¬ codec.Harmless b.readable b.buffer[b.writeIndex]? →
      GoesWrong (drain build codec (fuel + 1) b)) := by
  obtain ⟨left, misled⟩ := codec.tryDecode_unfinished admissible fits isShort shape
    b.buffer[b.writeIndex]?
  rw [← readView_eq valid] at left misled
  constructor
  · intro harmless
    obtain ⟨taken, text, decoded, nothing⟩ := left harmless
    rw [drain, decoded]
    exact if_neg (by omega)
  · intro harmful
    rcases misled harmful with ⟨fault, stopped⟩ | ⟨taken, text, decoded, more⟩
    · right
      rw [drain, stopped]
      exact ⟨fault, rfl⟩
    · left
      rw [valid.readable_length] at more
      rw [drain, decoded]
      simp only
      rw [if_pos (by omega)]
      cases b.consume build taken.toNat with
      | error fault => exact ⟨_, List.mem_singleton_self _, more⟩
      | ok consumed => exact ⟨_, List.mem_cons_self, more⟩

/-- The loop makes the rounds it should and leaves what it should, if and only if the byte behind
the write index is harmless in the end. -/
theorem drain_settles (build : Build) (codec : Codec) {messages : List (List UInt8)}
    (admissible : ∀ message ∈ messages, codec.Admissible message)
    (fits : ∀ message ∈ messages, codec.Fits message) {b : TcpBuffer} (valid : b.Valid)
    {later : List UInt8} (stream : b.readable ++ later = messages.flatMap codec.frame) {fuel : Nat}
    (enough : b.readableSize < fuel) :
    (codec.Harmless (codec.settle b messages).1.readable
        (codec.settle b messages).1.buffer[(codec.settle b messages).1.writeIndex]? →
      drain build codec fuel b =
        (codec.rounds b messages, .stopped (codec.settle b messages).1)) ∧
    (¬ codec.Harmless (codec.settle b messages).1.readable
        (codec.settle b messages).1.buffer[(codec.settle b messages).1.writeIndex]? →
      GoesWrong (drain build codec fuel b)) := by
  obtain ⟨fuel, rfl⟩ : ∃ less, fuel = less + 1 := ⟨fuel - 1, by omega⟩
  induction messages generalizing b fuel with
  | nil =>
    have empty : b.readable = [] := (List.append_eq_nil_iff.mp stream).1
    have trivialMessage : codec.Admissible [] ∧ codec.Fits [] := by
      cases codec with
      | line => exact ⟨⟨by simp, by simp⟩, by unfold Fits; decide⟩
      | length => exact ⟨Nat.zero_le _, by unfold Fits; decide⟩
    refine drain_unfinished build codec valid trivialMessage.1 trivialMessage.2
      (codec.frame_ne_nil []) ?_ fuel
    rw [empty, List.nil_append]
  | cons message rest inductionHypothesis =>
    have firstAdmissible := admissible message List.mem_cons_self
    have firstFits := fits message List.mem_cons_self
    rw [settle, rounds]
    by_cases whole : (codec.frame message).length ≤ b.readableSize
    · rw [if_pos whole, if_pos whole]
      have nonempty := List.length_pos_iff.mpr (codec.frame_ne_nil message)
      have inside : (codec.frame message).length ≤ b.readable.length := by
        rwa [valid.readable_length]
      have front : b.readable.take (codec.frame message).length = codec.frame message := by
        have taken := congrArg (List.take (codec.frame message).length) stream
        rwa [List.take_append_of_le_length inside, List.flatMap_cons, List.take_left] at taken
      have back : b.readable.drop (codec.frame message).length ++ later =
          rest.flatMap codec.frame := by
        have dropped := congrArg (List.drop (codec.frame message).length) stream
        rwa [List.drop_append_of_le_length inside, List.flatMap_cons, List.drop_left] at dropped
      have view : b.readView = (codec.frame message).map some ++
          ((b.readable.drop (codec.frame message).length).map some ++
            [b.buffer[b.writeIndex]?]) := by
        have parts := List.take_append_drop (codec.frame message).length b.readable
        rw [front] at parts
        rw [readView_eq valid, ← List.append_assoc, ← List.map_append, parts]
      have decoded := codec.tryDecode_frame firstAdmissible firstFits
        ((b.readable.drop (codec.frame message).length).map some ++ [b.buffer[b.writeIndex]?])
      rw [← view] at decoded
      have consumed := TcpBuffer.consume_eq build valid whole
      have start : drain build codec (fuel + 1) b =
          (⟨(codec.frame message).length, message.map some, b.readableSize⟩ ::
            (drain build codec fuel (b.consumed (codec.frame message).length)).1,
            (drain build codec fuel (b.consumed (codec.frame message).length)).2) := by
        rw [drain, decoded]
        simp only
        rw [if_pos (by omega), Int.toNat_natCast, consumed]
      have smaller : (b.consumed (codec.frame message).length).readableSize < fuel := by
        rw [TcpBuffer.consumed_readableSize valid]
        omega
      obtain ⟨less, rfl⟩ : ∃ less, fuel = less + 1 := ⟨fuel - 1, by omega⟩
      obtain ⟨settles, wrong⟩ := inductionHypothesis
        (fun other member => admissible other (List.mem_cons_of_mem _ member))
        (fun other member => fits other (List.mem_cons_of_mem _ member))
        (TcpBuffer.consumed_valid valid _)
        (by rw [TcpBuffer.consumed_readable valid]; exact back) less smaller
      rw [start]
      constructor
      · intro harmless
        rw [settles harmless]
      · intro harmful
        rcases wrong harmful with ⟨round, member, more⟩ | stopped
        · exact .inl ⟨round, List.mem_cons_of_mem _ member, more⟩
        · exact .inr stopped
    · rw [if_neg whole, if_neg whole]
      have shorter : b.readable.length < (codec.frame message).length := by
        rw [valid.readable_length]
        omega
      have shape : b.readable ++ (codec.frame message).drop b.readable.length =
          codec.frame message := by
        have front := congrArg (List.take b.readable.length) stream
        rw [List.take_left, List.flatMap_cons,
          List.take_append_of_le_length shorter.le] at front
        exact (congrArg (· ++ (codec.frame message).drop b.readable.length) front).trans
          (List.take_append_drop _ _)
      refine drain_unfinished build codec valid firstAdmissible firstFits ?_ shape fuel
      intro none
      have := List.drop_eq_nil_iff.mp none
      omega

/-- When the loop stops where it settles, the rest of the chunks decides. -/
theorem takesOff_settled (build : Build) (codec : Codec) {b appended : TcpBuffer}
    {chunk : List UInt8} {more messages : List (List UInt8)}
    (returned : b.append build chunk = .ok appended)
    (settles : drain build codec (appended.readableSize + 1) appended =
      (codec.rounds appended messages, .stopped (codec.settle appended messages).1)) :
    TakesOff build codec b (chunk :: more) messages ↔
      TakesOff build codec (codec.settle appended messages).1 more
        (codec.settle appended messages).2 := by
  have received : receive build codec b (chunk :: more) =
      (codec.rounds appended messages ++
        (receive build codec (codec.settle appended messages).1 more).1,
        (receive build codec (codec.settle appended messages).1 more).2) := by
    rw [receive, returned]
    simp only [settles]
  have split := codec.rounds_message appended messages
  have taken := codec.rounds_taken appended messages
  unfold TakesOff
  rw [received]
  simp only
  rw [List.map_append, ← split, List.append_cancel_left_eq, List.forall_mem_append]
  tauto

/-- When the loop goes wrong, the messages are not taken off. -/
theorem not_takesOff_of_goesWrong (build : Build) (codec : Codec) {b appended : TcpBuffer}
    {chunk : List UInt8} {more messages : List (List UInt8)}
    (returned : b.append build chunk = .ok appended)
    (wrong : GoesWrong (drain build codec (appended.readableSize + 1) appended)) :
    ¬ TakesOff build codec b (chunk :: more) messages := by
  rintro ⟨⟨rest, stopped⟩, -, taken⟩
  rw [receive, returned] at stopped taken
  simp only at stopped taken
  rcases wrong with ⟨round, member, tooMuch⟩ | ⟨fault, faulted⟩
  · have inside : round ∈ (match drain build codec (appended.readableSize + 1) appended with
        | (rounds, .stopped rest) => (rounds ++ (receive build codec rest more).1,
            (receive build codec rest more).2)
        | ended => ended).1 := by
      split
      · rename_i outcome
        rw [outcome] at member
        exact List.mem_append_left _ member
      · exact member
    have := taken round inside
    omega
  · split at stopped
    · rename_i outcome
      rw [outcome] at faulted
      cases faulted
    · rw [stopped] at faulted
      cases faulted

/-- The loop takes off what was sent, if and only if the byte behind the write index is harmless
whenever it comes to its end. -/
theorem takesOff_iff (build : Build) (codec : Codec) {chunks messages : List (List UInt8)}
    (admissible : ∀ message ∈ messages, codec.Admissible message)
    (fits : ∀ message ∈ messages, codec.Fits message) {b : TcpBuffer} (valid : b.Valid)
    (isShort : codec.Short b messages)
    (stream : b.readable ++ chunks.flatten = messages.flatMap codec.frame) :
    TakesOff build codec b chunks messages ↔ Undisturbed build codec b messages chunks := by
  induction chunks generalizing b messages with
  | nil =>
    -- All has been received, and no whole frame is left: there is no message left.
    have none : messages = [] := by
      cases messages with
      | nil => rfl
      | cons message rest =>
        have lengths := congrArg List.length stream
        have less := isShort message rfl
        rw [← valid.readable_length] at less
        simp only [List.flatten_nil, List.append_nil, List.flatMap_cons,
          List.length_append] at lengths
        omega
    subst none
    refine ⟨fun _ => trivial, fun _ => ⟨⟨b, rfl⟩, rfl, fun round member => ?_⟩⟩
    cases member
  | cons chunk more inductionHypothesis =>
    cases returned : b.append build chunk with
    | error fault =>
      constructor
      · rintro ⟨⟨rest, stopped⟩, -⟩
        rw [receive, returned] at stopped
        cases stopped
      · rintro ⟨appended, isAppended, -⟩
        rw [returned] at isAppended
        cases isAppended
    | ok appended =>
      have spec := TcpBuffer.append_returns build valid returned
      have later : appended.readable ++ more.flatten = messages.flatMap codec.frame := by
        rw [spec.readable_eq, List.append_assoc, ← stream, List.flatten_cons]
      obtain ⟨settles, wrong⟩ := drain_settles build codec admissible fits spec.valid later
        (Nat.lt_succ_self appended.readableSize)
      obtain ⟨settledValid, settledStream, settledShort⟩ := codec.settle_spec spec.valid later
      have remaining := codec.settle_suffix appended messages
      have recursion := inductionHypothesis
        (fun message member => admissible message (remaining.subset member))
        (fun message member => fits message (remaining.subset member)) settledValid settledShort
        settledStream
      by_cases harmless : codec.Harmless (codec.settle appended messages).1.readable
        (codec.settle appended messages).1.buffer[(codec.settle appended messages).1.writeIndex]?
      · rw [takesOff_settled build codec returned (settles harmless), recursion]
        constructor
        · intro undisturbed
          exact ⟨appended, returned, harmless, undisturbed⟩
        · rintro ⟨other, isOther, -, undisturbed⟩
          obtain rfl : appended = other := Except.ok.inj (returned.symm.trans isOther)
          exact undisturbed
      · constructor
        · intro takesOff
          exact absurd takesOff (not_takesOff_of_goesWrong build codec returned (wrong harmless))
        · rintro ⟨other, isOther, harmlessThere, -⟩
          obtain rfl : appended = other := Except.ok.inj (returned.symm.trans isOther)
          exact absurd harmlessThere harmless

/-- For every list of messages, every split of their encodings and every earlier content of the
receive buffer's storage: with frames whose length is an `int`, the loop takes off exactly the
messages, if and only if the byte behind the write index is harmless whenever it comes to its
end. -/
theorem takesOff_encoded_iff (build : Build) (codec : Codec) (messages chunks : List (List UInt8))
    (admissible : ∀ message ∈ messages, codec.Admissible message) (sender encoded b : TcpBuffer)
    (senderValid : sender.Valid) (unsent : sender.readable = [])
    (encodes : codec.encodeAll build sender messages = .ok encoded)
    (split : chunks.flatten = encoded.readable) (valid : b.Valid) (unread : b.readable = []) :
    ((∀ message ∈ messages, codec.Fits message) ∧ TakesOff build codec b chunks messages) ↔
      ((∀ message ∈ messages, codec.Fits message) ∧
        Undisturbed build codec b messages chunks) := by
  refine and_congr_right fun fits => takesOff_iff build codec admissible fits valid ?_ ?_
  · intro message _
    rw [← valid.readable_length, unread]
    exact List.length_pos_iff.mpr (codec.frame_ne_nil message)
  · rw [unread, split, encodeAll_returns build codec senderValid encodes, unsent, List.nil_append,
      List.nil_append]

/-- A buffer that has just been constructed, with room for a few bytes. -/
def smallBuffer : TcpBuffer where
  buffer := List.replicate 24 0
  prependSize := 8
  readIndex := 8
  writeIndex := 8

theorem smallBuffer_valid : smallBuffer.Valid := by
  have small : 24 ≤ maxSize := by
    unfold maxSize
    norm_num
  exact ⟨le_refl _, le_refl _, by decide, small⟩

/-- Two lines, the second one split between its last two bytes: all is well in a new buffer. -/
theorem undisturbed_two_lines :
    Undisturbed .debug .line smallBuffer [[97, 98], [99]] [[97], [98, 13, 10, 99, 13], [10]] := by
  have encodes : Codec.line.encodeAll .debug smallBuffer [[97, 98], [99]] =
      .ok { smallBuffer with
        buffer := List.replicate 8 0 ++ [97, 98, 13, 10, 99, 13, 10] ++ List.replicate 9 0
        writeIndex := 15 } := by decide +kernel
  have received : receive .debug .line smallBuffer [[97], [98, 13, 10, 99, 13], [10]] =
      ([⟨4, [some 97, some 98], 6⟩, ⟨3, [some 99], 3⟩], .stopped { smallBuffer with
        buffer := List.replicate 8 0 ++ [97, 98, 13, 10, 99, 13, 10] ++ List.replicate 9 0 }) := by
    decide +kernel
  refine ((takesOff_encoded_iff .debug .line [[97, 98], [99]] [[97], [98, 13, 10, 99, 13], [10]] ?_
    smallBuffer _ smallBuffer smallBuffer_valid ?_ encodes ?_ smallBuffer_valid ?_).mp
      ⟨?_, ?_⟩).2
  · intro message member
    fin_cases member
    · exact ⟨by decide, by decide⟩
    · exact ⟨by decide, by decide⟩
  · decide
  · decide
  · decide
  · intro message member
    unfold Fits
    fin_cases member
    · decide
    · decide
  · unfold TakesOff
    rw [received]
    exact ⟨⟨_, rfl⟩, rfl, by decide⟩

/-- The newline of the first line is behind the write index when the second line is there but for
its own: it is taken off too early. A message with a length is taken off without its last byte. -/
theorem not_takesOff_stale_byte :
    ¬ TakesOff .release .line smallBuffer [[97, 13, 10], [98, 13], [10]] [[97], [98]] ∧
      ¬ TakesOff .release .length smallBuffer [magic ++ [0, 0, 0, 1], [97]] [[97]] := by
  have lines : (receive .release .line smallBuffer [[97, 13, 10], [98, 13], [10]]).1 =
      [⟨3, [some 97], 3⟩, ⟨3, [some 98], 2⟩, ⟨1, [], 1⟩, ⟨1, [], 0⟩] := by decide +kernel
  have lengths : (receive .release .length smallBuffer [magic ++ [0, 0, 0, 1], [97]]).1 =
      [⟨9, [some 0], 8⟩] := by decide +kernel
  constructor
  · rintro ⟨-, -, taken⟩
    rw [lines] at taken
    exact absurd (taken ⟨3, [some 98], 2⟩ (by decide)) (by decide)
  · rintro ⟨-, -, taken⟩
    rw [lengths] at taken
    exact absurd (taken ⟨9, [some 0], 8⟩ (by decide)) (by decide)

end Codec

end YYNet
