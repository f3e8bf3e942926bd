/-
This file proves what the two codecs do with a stream when they are given
exactly the bytes that are unconsumed, and not the view of the receive buffer.

The length codec decodes every stream of frames, leaves an unfinished frame
alone, and never changes its mind when more bytes arrive. The line codec does
the same however the stream is cut, with one exception: it returns the length of
a line as an `int`. A line of `2 ^ 31` bytes or more, with its terminator, makes
that length negative or drops its upper half, and the loop never gets past it.
-/

import YYNet.Net.Codec

namespace YYNet

open Checked BigEndian

namespace Codec

/-! ### The loop on plain bytes -/

/-- `tryDecode` is applied to the remaining bytes until it returns no length: the rounds that
found a message, what was returned last, and the bytes that remain. -/
def drainBytes (codec : Codec) :
    Nat → List UInt8 → Option (List (Int × List (Option UInt8)) × Int × List UInt8)
  | 0, _ => none
  | fuel + 1, bytes =>
    match codec.tryDecode (bytes.map some) with
    | .error _ => none
    | .ok (taken, message) =>
      if 0 < taken then
        (drainBytes codec fuel (bytes.drop taken.toNat)).map fun outcome =>
          ((taken, message) :: outcome.1, outcome.2)
      else some ([], taken, bytes)

/-- Every chunk is put behind the unconsumed bytes and followed by the loop: the messages, and
the bytes left over. -/
def feed (codec : Codec) :
    List UInt8 → List (List UInt8) → Option (List (List (Option UInt8)) × List UInt8)
  | bytes, [] => some ([], bytes)
  | bytes, chunk :: more =>
    match drainBytes codec ((bytes ++ chunk).length + 1) (bytes ++ chunk) with
    | none => none
    | some (rounds, _, rest) =>
      (feed codec rest more).map fun outcome => (rounds.map Prod.snd ++ outcome.1, outcome.2)

/-- One round that found a message. -/
theorem drainBytes_frame (codec : Codec) {message : List UInt8}
    (admissible : codec.Admissible message) (fits : codec.Fits message) (rest : List UInt8)
    (fuel : Nat) :
    codec.drainBytes (fuel + 1) (codec.frame message ++ rest) =
      (codec.drainBytes fuel rest).map fun outcome =>
        ((((codec.frame message).length : Int), message.map some) :: outcome.1, outcome.2) := by
  have nonempty := List.length_pos_iff.mpr (codec.frame_ne_nil message)
  rw [drainBytes, List.map_append, codec.tryDecode_frame admissible fits]
  simp only
  rw [if_pos (by omega), Int.toNat_natCast, List.drop_left]

/-! ### `LengthCodec` -/

/-- A strict part of a frame is left alone. -/
theorem lengthDecode_waits {message unfinished missing : List UInt8}
    (admissible : Admissible .length message) (isShort : missing ≠ [])
    (shape : unfinished ++ missing = frame .length message) :
    lengthDecode (unfinished.map some) = .ok (0, []) := by
  have shorter : unfinished.length < message.length + 8 := by
    have lengths := congrArg List.length shape
    have := List.length_pos_iff.mpr isShort
    simp [frame, magic] at lengths
    omega
  by_cases few : unfinished.length < 8
  · rw [lengthDecode, if_pos]
    rwa [List.length_map]
  · have header : unfinished = magic ++ bytesOf 4 message.length ++ unfinished.drop 8 := by
      have start : unfinished.take 8 = (frame .length message).take 8 := by
        rw [← shape, List.take_append_of_le_length (by omega)]
      have front : (frame .length message).take 8 = magic ++ bytesOf 4 message.length :=
        List.take_left' (by simp [magic])
      rw [front] at start
      rw [← start, List.take_append_drop]
    rw [header, List.map_append, lengthDecode_header admissible, if_neg]
    rw [List.length_map, List.length_drop]
    omega

/-- A result other than zero does not change when more bytes arrive. -/
theorem lengthDecode_append {bytes : List UInt8} {taken : Int} {message : List (Option UInt8)}
    (decoded : lengthDecode (bytes.map some) = .ok (taken, message)) (isResult : taken ≠ 0)
    (extension : List UInt8) :
    lengthDecode ((bytes ++ extension).map some) = .ok (taken, message) := by
  have enough : ¬ (bytes.map some).length < 8 := by
    intro few
    rw [lengthDecode, if_pos few] at decoded
    exact isResult (congrArg Prod.fst (Except.ok.inj decoded)).symm
  have enoughMore : ¬ ((bytes ++ extension).map some).length < 8 := by
    rw [List.map_append, List.length_append]
    omega
  rw [List.length_map] at enough
  have word : ((((bytes ++ extension).map some).drop 4).take 4) =
      ((bytes.map some).drop 4).take 4 := by
    rw [List.map_append, List.drop_append_of_le_length (by rw [List.length_map]; omega),
      List.take_append_of_le_length (by rw [List.length_drop, List.length_map]; omega)]
  have mark : ((bytes ++ extension).map some).take 4 = (bytes.map some).take 4 := by
    rw [List.map_append, List.take_append_of_le_length (by rw [List.length_map]; omega)]
  rw [lengthDecode, if_neg (by rw [List.length_map]; omega)] at decoded
  rw [lengthDecode, if_neg enoughMore, word, mark]
  obtain ⟨length, isRead, decoded⟩ := bind_eq_ok decoded
  rw [isRead, ok_bind]
  split at decoded
  · rename_i long
    rw [if_pos long]
    exact decoded
  · rename_i short
    rw [if_neg short]
    obtain ⟨start, isStart, decoded⟩ := bind_eq_ok decoded
    rw [isStart, ok_bind]
    split at decoded
    · rename_i other
      rw [if_pos other]
      exact decoded
    · rename_i same
      rw [if_neg same]
      split at decoded
      · rename_i whole
        rw [List.length_map] at whole
        have wholeMore : valueOf length + 8 ≤ ((bytes ++ extension).map some).length := by
          rw [List.length_map, List.length_append]
          omega
        have sameMessage : (((bytes ++ extension).map some).drop 8).take (valueOf length) =
            ((bytes.map some).drop 8).take (valueOf length) := by
          rw [List.map_append, List.drop_append_of_le_length (by rw [List.length_map]; omega),
            List.take_append_of_le_length (by rw [List.length_drop, List.length_map]; omega)]
        rw [if_pos wholeMore, sameMessage]
        exact decoded
      · exact absurd (congrArg Prod.fst (Except.ok.inj decoded)).symm isResult

/-- The decoder reads nothing outside the bytes it is given. -/
theorem lengthDecode_returns (bytes : List UInt8) :
    ∃ taken message, lengthDecode (bytes.map some) = .ok (taken, message) := by
  rw [lengthDecode, ← List.map_drop, ← List.map_take, ← List.map_take, mapM_readCell,
    mapM_readCell, ok_bind, ok_bind]
  split
  · exact ⟨_, _, rfl⟩
  · split
    · exact ⟨_, _, rfl⟩
    · split
      · exact ⟨_, _, rfl⟩
      · split
        · exact ⟨_, _, rfl⟩
        · exact ⟨_, _, rfl⟩

/-- Frames, and a strict part of one behind them. -/
theorem drainBytes_length {messages : List (List UInt8)}
    (admissible : ∀ message ∈ messages, Admissible .length message)
    {next unfinished missing : List UInt8} (nextAdmissible : Admissible .length next)
    (isShort : missing ≠ []) (shape : unfinished ++ missing = frame .length next) {fuel : Nat}
    (enough : messages.length < fuel) :
    drainBytes .length fuel (messages.flatMap (frame .length) ++ unfinished) =
      some (messages.map fun message => ((8 + message.length : Int), message.map some), 0,
        unfinished) := by
  obtain ⟨fuel, rfl⟩ : ∃ less, fuel = less + 1 := ⟨fuel - 1, by omega⟩
  induction messages generalizing fuel with
  | nil =>
    have decoded : Codec.length.tryDecode (unfinished.map some) = .ok (0, []) :=
      lengthDecode_waits nextAdmissible isShort shape
    rw [List.flatMap_nil, List.nil_append, drainBytes, decoded]
    rfl
  | cons message rest inductionHypothesis =>
    have first := admissible message List.mem_cons_self
    have frameLength : (frame .length message).length = 8 + message.length := by
      simp [frame, magic]
      omega
    have fits : Fits .length message := by
      have small : message.length ≤ maxLength := first
      unfold Fits
      unfold maxLength at small
      omega
    rw [List.length_cons] at enough
    obtain ⟨less, rfl⟩ : ∃ less, fuel = less + 1 := ⟨fuel - 1, by omega⟩
    have later := inductionHypothesis
      (fun other member => admissible other (List.mem_cons_of_mem _ member)) less (by omega)
    rw [List.flatMap_cons, List.append_assoc, drainBytes_frame .length first fits, later,
      Option.map_some, List.map_cons, frameLength, Nat.cast_add, Nat.cast_ofNat]

/-- For every list of messages and every strict part of a further one, the loop returns the
messages with the lengths of their frames and then zero; and a result other than zero stays what
it is whatever comes behind the bytes it was found in. -/
theorem length_stream_law (build : Build) (messages : List (List UInt8))
    (next unfinished missing : List UInt8) (sender encoded further : TcpBuffer)
    (small : ∀ message ∈ messages, message.length ≤ 2 ^ 20) (nextSmall : next.length ≤ 2 ^ 20)
    (valid : sender.Valid) (unsent : sender.readable = [])
    (encodes : Codec.length.encodeAll build sender messages = .ok encoded)
    (encodesNext : Codec.length.encode build sender next = .ok further)
    (strict : missing ≠ []) (shape : unfinished ++ missing = further.readable) :
    (∀ fuel, messages.length < fuel →
      Codec.length.drainBytes fuel (encoded.readable ++ unfinished) =
        some (messages.map fun message => ((8 + message.length : Int), message.map some), 0,
          unfinished)) ∧
    ∀ bytes : List UInt8, ∃ taken message, Codec.length.tryDecode (bytes.map some) = .ok (taken, message) ∧
      (taken ≠ 0 → ∀ extension,
        Codec.length.tryDecode ((bytes ++ extension).map some) = .ok (taken, message)) := by
  constructor
  · intro fuel enough
    have whole := encodeAll_returns build .length valid encodes
    have nextWhole := (encode_returns build .length valid encodesNext).2
    rw [unsent, List.nil_append] at whole nextWhole
    rw [whole]
    rw [nextWhole] at shape
    exact drainBytes_length small nextSmall strict shape enough
  · intro bytes
    obtain ⟨taken, message, decoded⟩ := lengthDecode_returns bytes
    exact ⟨taken, message, decoded, fun isResult extension =>
      lengthDecode_append decoded isResult extension⟩

/-- Two messages, one of them empty, and the first bytes of a third one. -/
theorem length_stream_law_two :
    Codec.length.drainBytes 3
      (magic ++ [0, 0, 0, 2, 97, 98] ++ (magic ++ [0, 0, 0, 0]) ++ [109, 66]) =
        some ([(10, [some 97, some 98]), (8, [])], 0, [109, 66]) := by
  have encodes : Codec.length.encodeAll .debug smallBuffer [[97, 98], []] =
      .ok { smallBuffer with
        buffer := List.replicate 8 0 ++ (magic ++ [0, 0, 0, 2, 97, 98]) ++
          (magic ++ [0, 0, 0, 0])
        writeIndex := 26 } := by decide +kernel
  have encodesNext : Codec.length.encode .debug smallBuffer [99] =
      .ok { smallBuffer with
        buffer := List.replicate 8 0 ++ (magic ++ [0, 0, 0, 1, 99]) ++ List.replicate 7 0
        writeIndex := 17 } := by decide +kernel
  exact (length_stream_law .debug [[97, 98], []] [99] [109, 66] [100, 84, 0, 0, 0, 1, 99]
    smallBuffer _ _ (by decide) (by decide) smallBuffer_valid (by decide) encodes
    encodesNext (by decide) (by decide)).1 3 (by decide)

/-! ### `LineCodec` -/

/-- The message in a line: a carriage return at its end is not part of it. -/
def lineText (line : List UInt8) : List UInt8 :=
  if line.getLast? = some 13 then line.dropLast else line

/-- A line at the front of the bytes, whatever its length. -/
theorem lineDecode_line {line : List UInt8} (clear : 10 ∉ line) (rest : List UInt8) :
    lineDecode ((line ++ 10 :: rest).map some) =
      .ok (castInt (line.length + 1), (lineText line).map some) := by
  have found : findNewline 0 ((line ++ 10 :: rest).map some) = .ok (some line.length) := by
    rw [List.map_append, findNewline_skip 0 _ _ clear, List.map_cons, findNewline, readCell,
      ok_bind, if_pos rfl, Nat.zero_add]
  have cut : ∀ size, size ≤ line.length →
      ((line ++ 10 :: rest).map some).take size = (line.take size).map some := by
    intro size inside
    rw [List.map_append, List.take_append_of_le_length (by rwa [List.length_map]), List.map_take]
  have last : (0 < line.length ∧ ((line ++ 10 :: rest).map some)[line.length - 1]? =
      some (some 13)) ↔ line.getLast? = some 13 := by
    rcases List.eq_nil_or_concat line with rfl | ⟨front, byte, rfl⟩
    · simp
    · simp
  have scanned : lineScan ((line ++ 10 :: rest).map some) =
      .ok (castInt (line.length + 1), (lineText line).map some) := by
    rw [lineScan, found, ok_bind]
    unfold lineText
    by_cases isReturn : line.getLast? = some 13
    · simp only [last, isReturn, if_true]
      rw [cut _ (Nat.sub_le _ _), ← List.dropLast_eq_take]
    · simp only [last, isReturn, if_false]
      rw [cut _ (le_refl _), List.take_length]
  by_cases single : ((line ++ 10 :: rest).map some).length = 1
  · rw [List.length_map, List.length_append, List.length_cons] at single
    obtain rfl : line = [] := List.length_eq_zero_iff.mp (by omega)
    obtain rfl : rest = [] := List.length_eq_zero_iff.mp (by omega)
    exact scanned
  · rw [lineDecode_of_length single]
    exact scanned

/-- Bytes without a newline are left alone, unless they are the end-of-file mark. -/
theorem lineDecode_waits {bytes : List UInt8} (clear : 10 ∉ bytes) (other : bytes ≠ [4]) :
    lineDecode (bytes.map some) = .ok (0, []) := by
  have scanned : lineScan (bytes.map some) = .ok (0, []) := by
    have found : findNewline 0 (bytes.map some) = .ok none := by
      have skipped := findNewline_skip 0 bytes [] clear
      rwa [List.append_nil] at skipped
    rw [lineScan, found, ok_bind]
  by_cases single : (bytes.map some).length = 1
  · rw [List.length_map] at single
    obtain ⟨byte, rfl⟩ := List.length_eq_one_iff.mp single
    have different : byte ≠ 4 := fun same => other (by rw [same])
    show (readCell (some byte) >>= fun found =>
      if found = 4 then .ok (1, [some byte]) else lineScan [some byte]) = _
    rw [readCell, ok_bind, if_neg different]
    exact scanned
  · rw [lineDecode_of_length single]
    exact scanned

/-- The length of the line at the front is no length for the loop. -/
def Stuck (bytes : List UInt8) : Prop :=
  ∃ line rest, bytes = line ++ 10 :: rest ∧ 10 ∉ line ∧ castInt (line.length + 1) ≤ 0

theorem Stuck.append {bytes : List UInt8} (stuck : Stuck bytes) (more : List UInt8) :
    Stuck (bytes ++ more) := by
  obtain ⟨line, rest, rfl, clear, nothing⟩ := stuck
  exact ⟨line, rest ++ more, by simp, clear, nothing⟩

theorem Stuck.drainBytes {bytes : List UInt8} (stuck : Stuck bytes) (fuel : Nat) :
    ∃ last, Codec.line.drainBytes (fuel + 1) bytes = some ([], last, bytes) := by
  obtain ⟨line, rest, rfl, clear, nothing⟩ := stuck
  have decoded := lineDecode_line clear rest
  refine ⟨castInt (line.length + 1), ?_⟩
  rw [Codec.drainBytes, show Codec.line.tryDecode _ = _ from decoded]
  exact if_neg (by omega)

/-- No chunk gets the loop past such a line. -/
theorem Stuck.feed {bytes : List UInt8} (stuck : Stuck bytes) (chunks : List (List UInt8)) :
    ∃ messages rest, Codec.line.feed bytes chunks = some (messages, rest) ∧ rest ≠ [] := by
  induction chunks generalizing bytes with
  | nil =>
    refine ⟨[], bytes, rfl, ?_⟩
    obtain ⟨line, rest, rfl, -⟩ := stuck
    simp
  | cons chunk more inductionHypothesis =>
    obtain ⟨last, drained⟩ := (stuck.append chunk).drainBytes (bytes ++ chunk).length
    obtain ⟨messages, rest, fed, left⟩ := inductionHypothesis (stuck.append chunk)
    refine ⟨messages, rest, ?_, left⟩
    rw [Codec.feed, drained]
    simp only [fed]
    rfl

/-- A positive length is the lower half of the size. -/
theorem castInt_of_pos {size : Nat} (positive : 0 < castInt size) :
    castInt size = (size % 2 ^ 32 : Nat) := by
  unfold castInt at positive ⊢
  rw [Int.bmod_def] at positive ⊢
  split at positive
  · rename_i low
    rw [if_pos low]
    omega
  · omega

/-- What is left when the lower half is gone has no lower half. -/
theorem castInt_sub_mod (size : Nat) : castInt (size - size % 2 ^ 32) = 0 := by
  unfold castInt
  rw [Int.bmod_def]
  split <;> omega

/-- A line whose length is no `int` stops the loop, at once or after a first part of it. -/
theorem drainBytes_unfit {message : List UInt8} (admissible : Admissible .line message)
    (unfit : ¬ Fits .line message) (rest : List UInt8) (fuel : Nat) :
    ∃ rounds last left, Codec.line.drainBytes (fuel + 2) (frame .line message ++ rest) =
      some (rounds, last, left) ∧ Stuck left := by
  have whole : frame .line message ++ rest = (message ++ [13]) ++ 10 :: rest := by simp [frame]
  have frameLength : (frame .line message).length = (message ++ [13]).length + 1 := by
    simp [frame]
  have clear : 10 ∉ message ++ [13] := by
    rw [List.mem_append, List.mem_singleton]
    rintro (member | same)
    · exact admissible.1 member
    · cases same
  unfold Fits at unfit
  rw [frameLength] at unfit
  rw [whole]
  generalize message ++ [13] = line at *
  by_cases nothing : castInt (line.length + 1) ≤ 0
  · have stuck : Stuck (line ++ 10 :: rest) := ⟨_, rest, rfl, clear, nothing⟩
    obtain ⟨last, drained⟩ := stuck.drainBytes (fuel + 1)
    exact ⟨[], last, _, drained, stuck⟩
  · have decoded := lineDecode_line clear rest
    have lower := castInt_of_pos (not_le.mp nothing)
    have inside : (line.length + 1) % 2 ^ 32 ≤ line.length := by
      by_contra outside
      -- The length would be its own lower half, and that is an `int`.
      have same : (line.length + 1) % 2 ^ 32 = line.length + 1 := by omega
      rw [same] at lower
      unfold castInt at lower
      rw [Int.bmod_def] at lower
      split at lower <;> omega
    have dropped : (line ++ 10 :: rest).drop ((line.length + 1) % 2 ^ 32) =
        line.drop ((line.length + 1) % 2 ^ 32) ++ 10 :: rest :=
      List.drop_append_of_le_length inside
    have stuck : Stuck (line.drop ((line.length + 1) % 2 ^ 32) ++ 10 :: rest) := by
      refine ⟨_, rest, rfl, fun member => clear (List.mem_of_mem_drop member), ?_⟩
      have length : (line.drop ((line.length + 1) % 2 ^ 32)).length + 1 =
          line.length + 1 - (line.length + 1) % 2 ^ 32 := by
        rw [List.length_drop]
        omega
      rw [length, castInt_sub_mod]
    obtain ⟨last, drained⟩ := stuck.drainBytes fuel
    refine ⟨[(castInt (line.length + 1), (lineText line).map some)], last, _, ?_, stuck⟩
    rw [Codec.drainBytes, show Codec.line.tryDecode _ = _ from decoded]
    simp only
    rw [if_pos (not_le.mp nothing), lower, Int.toNat_natCast, dropped, drained]
    rfl

/-- One call of the loop: it is stopped for good by a line whose length is no `int`, or it takes
off the whole lines in front and leaves less than a line. -/
theorem drainBytes_line {messages : List (List UInt8)}
    (admissible : ∀ message ∈ messages, Admissible .line message) {bytes later : List UInt8}
    (stream : bytes ++ later = messages.flatMap (frame .line)) {fuel : Nat}
    (enough : bytes.length < fuel) :
    ∃ rounds last rest, drainBytes .line fuel bytes = some (rounds, last, rest) ∧
      ((Stuck rest ∧ ∃ message ∈ messages, ¬ Fits .line message) ∨
        ∃ done left, messages = done ++ left ∧ rounds.map Prod.snd = done.map (·.map some) ∧
          rest ++ later = left.flatMap (frame .line) ∧ (∀ message ∈ done, Fits .line message) ∧
          ∀ message ∈ left.head?, rest.length < (frame .line message).length) := by
  obtain ⟨fuel, rfl⟩ : ∃ less, fuel = less + 1 := ⟨fuel - 1, by omega⟩
  induction messages generalizing bytes fuel with
  | nil =>
    obtain ⟨rfl, rfl⟩ := List.append_eq_nil_iff.mp stream
    exact ⟨[], 0, [], rfl, .inr ⟨[], [], rfl, rfl, rfl, by simp, by simp⟩⟩
  | cons message others inductionHypothesis =>
    have first := admissible message List.mem_cons_self
    have frameLength : (frame .line message).length = message.length + 2 := by simp [frame]
    by_cases whole : (frame .line message).length ≤ bytes.length
    · have front : bytes = frame .line message ++ bytes.drop (frame .line message).length := by
        have taken := congrArg (List.take (frame .line message).length) stream
        rw [List.take_append_of_le_length whole, List.flatMap_cons, List.take_left] at taken
        have parts := List.take_append_drop (frame .line message).length bytes
        rw [taken] at parts
        exact parts.symm
      have back : bytes.drop (frame .line message).length ++ later =
          others.flatMap (frame .line) := by
        have dropped := congrArg (List.drop (frame .line message).length) stream
        rwa [List.drop_append_of_le_length whole, List.flatMap_cons, List.drop_left] at dropped
      obtain ⟨less, rfl⟩ : ∃ less, fuel = less + 1 := ⟨fuel - 1, by omega⟩
      by_cases fits : Fits .line message
      · have shorter : (bytes.drop (frame .line message).length).length < less + 1 := by
          rw [List.length_drop]
          omega
        obtain ⟨rounds, last, rest, drained, outcome⟩ := inductionHypothesis
          (fun other member => admissible other (List.mem_cons_of_mem _ member)) back less shorter
        refine ⟨(((frame .line message).length : Int), message.map some) :: rounds, last, rest,
          ?_, ?_⟩
        · rw [front, drainBytes_frame .line first fits, drained]
          rfl
        · rcases outcome with ⟨stuck, other, member, unfit⟩ |
            ⟨done, left, rfl, found, ends, fit, short⟩
          · exact .inl ⟨stuck, other, List.mem_cons_of_mem _ member, unfit⟩
          · refine .inr ⟨message :: done, left, rfl, ?_, ends, ?_, short⟩
            · rw [List.map_cons, List.map_cons, found]
            · intro other member
              rcases List.mem_cons.mp member with rfl | member
              · exact fits
              · exact fit other member
      · obtain ⟨rounds, last, rest, drained, stuck⟩ := drainBytes_unfit first fits
          (bytes.drop (frame .line message).length) less
        rw [← front] at drained
        exact ⟨rounds, last, rest, drained, .inl ⟨stuck, message, List.mem_cons_self, fits⟩⟩
    · -- What is there is a strict part of the first line.
      have start : bytes = (frame .line message).take bytes.length := by
        have taken := congrArg (List.take bytes.length) stream
        rwa [List.take_left, List.flatMap_cons,
          List.take_append_of_le_length (by omega)] at taken
      have part : bytes = (message ++ [13]).take bytes.length := by
        have shape : frame .line message = (message ++ [13]) ++ [10] := by simp [frame]
        rw [shape, List.take_append_of_le_length (by simp; omega)] at start
        exact start
      have clear : 10 ∉ bytes := by
        rw [part]
        intro member
        rcases List.mem_append.mp (List.mem_of_mem_take member) with inside | inside
        · exact first.1 inside
        · cases List.mem_singleton.mp inside
      have other : bytes ≠ [4] := by
        rintro rfl
        cases message with
        | nil => cases part
        | cons byte text =>
          refine first.2 ?_
          rw [List.head?_cons]
          exact congrArg some (List.cons.inj part).1.symm
      refine ⟨[], 0, bytes, ?_, .inr ⟨[], message :: others, rfl, rfl, stream, by simp, ?_⟩⟩
      · rw [drainBytes, show Codec.line.tryDecode _ = _ from lineDecode_waits clear other]
        rfl
      · rintro _ ⟨⟩
        omega

/-- Chunks that make up whole lines: all is taken off and nothing is left, if and only if the
length of every line is an `int`. -/
theorem feed_line_iff {chunks messages : List (List UInt8)}
    (admissible : ∀ message ∈ messages, Admissible .line message) {bytes : List UInt8}
    (isShort : ∀ message ∈ messages.head?, bytes.length < (frame .line message).length)
    (stream : bytes ++ chunks.flatten = messages.flatMap (frame .line)) :
    feed .line bytes chunks = some (messages.map (·.map some), []) ↔
      ∀ message ∈ messages, Fits .line message := by
  induction chunks generalizing bytes messages with
  | nil =>
    rw [List.flatten_nil, List.append_nil] at stream
    cases messages with
    | nil =>
      subst stream
      exact ⟨fun _ message member => absurd member List.not_mem_nil, fun _ => rfl⟩
    | cons message others =>
      have less := isShort message rfl
      rw [stream, List.flatMap_cons, List.length_append] at less
      omega
  | cons chunk more inductionHypothesis =>
    rw [List.flatten_cons, ← List.append_assoc] at stream
    obtain ⟨rounds, last, rest, drained, outcome⟩ := drainBytes_line admissible stream
      (Nat.lt_succ_self (bytes ++ chunk).length)
    have fed : feed .line bytes (chunk :: more) =
        (feed .line rest more).map fun outcome =>
          (rounds.map Prod.snd ++ outcome.1, outcome.2) := by
      rw [feed, drained]
    rw [fed]
    rcases outcome with ⟨stuck, message, member, unfit⟩ |
      ⟨done, left, rfl, found, ends, fit, short⟩
    · obtain ⟨found, remaining, fed, notEmpty⟩ := stuck.feed more
      rw [fed]
      constructor
      · intro same
        exact absurd (congrArg Prod.snd (Option.some.inj same)) notEmpty
      · intro fits
        exact absurd (fits message member) unfit
    · have recursion := inductionHypothesis
        (fun message member => admissible message (List.mem_append_right _ member)) short ends
      rw [List.forall_mem_append, and_iff_right fit, ← recursion, found, List.map_append]
      cases feed .line rest more with
      | none => simp
      | some outcome => simp [Prod.ext_iff]

/-- For every list of messages without a newline that do not start with the end-of-file mark, and
every split of their encodings into chunks: the loop yields exactly the messages and leaves
nothing, if and only if the length of every encoding is an `int`. -/
theorem line_stream_law_iff (build : Build) (messages chunks : List (List UInt8))
    (sender encoded : TcpBuffer)
    (clear : ∀ message ∈ messages, 10 ∉ message ∧ message.head? ≠ some 4)
    (valid : sender.Valid) (unsent : sender.readable = [])
    (encodes : Codec.line.encodeAll build sender messages = .ok encoded)
    (split : chunks.flatten = encoded.readable) :
    Codec.line.feed [] chunks = some (messages.map (·.map some), []) ↔
      ∀ message ∈ messages, message.length + 2 < 2 ^ 31 := by
  have whole := encodeAll_returns build .line valid encodes
  rw [unsent, List.nil_append] at whole
  have fits : (∀ message ∈ messages, Fits .line message) ↔
      ∀ message ∈ messages, message.length + 2 < 2 ^ 31 := by
    simp [Fits, frame]
  rw [← fits]
  refine feed_line_iff clear ?_ ?_
  · intro message _
    simp [frame]
  · rw [List.nil_append, split, whole]

/-- Two lines, an empty one and one that ends with a carriage return, cut inside both. -/
theorem line_stream_law_iff_two :
    Codec.line.feed [] [[13], [10, 97, 13], [13, 10]] = some ([[], [some 97, some 13]], []) := by
  have encodes : Codec.line.encodeAll .debug smallBuffer [[], [97, 13]] =
      .ok { smallBuffer with
        buffer := List.replicate 8 0 ++ [13, 10, 97, 13, 13, 10] ++ List.replicate 10 0
        writeIndex := 14 } := by decide +kernel
  exact (line_stream_law_iff .debug [[], [97, 13]] [[13], [10, 97, 13], [13, 10]] smallBuffer _
    (by decide) smallBuffer_valid (by decide) encodes (by decide)).mpr (by decide)

/-- A line that the vector can hold is encoded. -/
theorem encodeAll_line_ok (build : Build) {message : List UInt8}
    (small : message.length + 10 ≤ maxSize) :
    ∃ encoded, Codec.line.encodeAll build smallBuffer [message] = .ok encoded := by
  have empty : smallBuffer.readableSize = 0 := by decide
  have prependSize : smallBuffer.prependSize = 8 := rfl
  rcases TcpBuffer.append_spec build smallBuffer_valid
    (show message.length ≤ maxSize by omega) with ⟨large, -⟩ | ⟨appended, first, spec⟩
  · omega
  · have length := congrArg List.length spec.readable_eq
    rw [spec.valid.readable_length, List.length_append, smallBuffer_valid.readable_length,
      empty] at length
    have samePrepend := spec.prepend_eq
    have short : [(13 : UInt8), 10].length = 2 := rfl
    rcases TcpBuffer.append_spec build spec.valid
      (show [(13 : UInt8), 10].length ≤ maxSize by omega) with
        ⟨large, -⟩ | ⟨encoded, second, -⟩
    · omega
    · refine ⟨encoded, ?_⟩
      rw [encodeAll, encode, show smallBuffer.fluentAppend build message = _ from first, ok_bind,
        second, ok_bind, encodeAll]

theorem clear_replicate (count : Nat) :
    ∀ message ∈ [List.replicate count (97 : UInt8)],
      10 ∉ message ∧ message.head? ≠ some 4 := by
  intro message member
  rw [List.mem_singleton.mp member]
  refine ⟨fun inside => ?_, fun start => ?_⟩
  · cases List.eq_of_mem_replicate inside
  · cases List.eq_of_mem_replicate (List.mem_of_head? start)

theorem feed_line_long (count : Nat) (long : 2 ^ 31 ≤ count + 2) (small : count + 10 ≤ maxSize) :
    ∃ encoded, Codec.line.encodeAll .release smallBuffer [List.replicate count 97] = .ok encoded ∧
      Codec.line.feed [] [encoded.readable] ≠ some ([(List.replicate count 97).map some], []) := by
  have room : (List.replicate count (97 : UInt8)).length + 10 ≤ maxSize := by
    rwa [List.length_replicate]
  obtain ⟨encoded, encodes⟩ := encodeAll_line_ok .release room
  refine ⟨encoded, encodes, fun fed => ?_⟩
  have whole := encodeAll_returns .release .line smallBuffer_valid encodes
  rw [show smallBuffer.readable = [] by decide, List.nil_append] at whole
  have stream : ([] : List UInt8) ++ [encoded.readable].flatten =
      [List.replicate count 97].flatMap (frame .line) := by
    rw [List.nil_append, List.flatten_singleton, whole]
  have fits := (feed_line_iff (clear_replicate count) (fun message _ => by simp [frame])
    stream).mp fed _ (List.mem_singleton.mpr rfl)
  unfold Fits at fits
  rw [frame, List.length_append, List.length_replicate] at fits
  simp only [List.length_cons, List.length_nil] at fits
  omega

/-- A line of `2 ^ 31 - 2` bytes is not taken off, though all of it has arrived. -/
theorem not_line_stream_law_long :
    ¬ ∀ (messages chunks : List (List UInt8)) (encoded : TcpBuffer),
      (∀ message ∈ messages, 10 ∉ message ∧ message.head? ≠ some 4) →
      Codec.line.encodeAll .release smallBuffer messages = .ok encoded →
      chunks.flatten = encoded.readable →
      Codec.line.feed [] chunks = some (messages.map (·.map some), []) := by
  intro law
  obtain ⟨encoded, encodes, different⟩ := feed_line_long (2 ^ 31 - 2) (by norm_num)
    (by unfold maxSize; norm_num)
  refine different (law _ [encoded.readable] encoded (clear_replicate _) encodes ?_)
  rw [List.flatten_singleton]

end Codec

end YYNet
