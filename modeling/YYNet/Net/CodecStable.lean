/-
This file proves when the decisions of the codecs are right whatever comes
behind the bytes they were made on.

The length codec refuses a message of more than `2 ^ 20` bytes by the length in
its header, and the encoder writes only the lower half of the size there. A
message is refused if and only if that half is more than `2 ^ 20`: one of
`2 ^ 32` bytes is taken for an empty one, and its bytes for what follows.

The line codec decides on the bytes of a line once its newline is there, and
nothing behind the newline matters. One decision rests on how many bytes there
are: a single byte 4 is the end-of-file mark, and is the first byte of a line
when more follows.
-/

import YYNet.Net.CodecStream

namespace YYNet

open Checked BigEndian

namespace Codec

/-! ### Messages that are too long -/

/-- What the decoder makes of any message: the header has the lower half of its size. -/
theorem lengthDecode_any (message rest : List UInt8) :
    lengthDecode ((frame .length message ++ rest).map some) =
      if maxLength < message.length % 2 ^ 32 then .ok (-1, [])
      else .ok ((message.length % 2 ^ 32 + 8 : Nat),
        (message.take (message.length % 2 ^ 32)).map some) := by
  have whole : (frame .length message ++ rest).map some =
      (magic ++ bytesOf 4 message.length).map some ++ (message ++ rest).map some := by
    simp [frame]
  have lower : valueOf (bytesOf 4 message.length) = message.length % 2 ^ 32 :=
    valueOf_bytesOf 4 message.length
  have inside : message.length % 2 ^ 32 ≤ message.length := Nat.mod_le _ _
  rw [whole, lengthDecode_word (bytesOf_length 4 _), lower]
  split
  · rfl
  · rw [if_pos (by rw [List.length_map, List.length_append]; omega), ← List.map_take,
      List.take_append_of_le_length inside]

/-- For every message and whatever bytes behind its encoding, the decoder refuses it, if and only
if the lower half of its size is more than `2 ^ 20`. -/
theorem oversized_refused_iff (build : Build) (message rest : List UInt8)
    (sender encoded : TcpBuffer) (valid : sender.Valid) (unsent : sender.readable = [])
    (encodes : Codec.length.encode build sender message = .ok encoded) :
    (∃ text, Codec.length.tryDecode ((encoded.readable ++ rest).map some) = .ok (-1, text)) ↔
      2 ^ 20 < message.length % 2 ^ 32 := by
  have whole := (encode_returns build .length valid encodes).2
  rw [unsent, List.nil_append] at whole
  have limit : maxLength = 2 ^ 20 := by decide
  rw [whole, show Codec.length.tryDecode _ = _ from lengthDecode_any message rest, limit]
  constructor
  · rintro ⟨text, same⟩
    by_contra small
    rw [if_neg small] at same
    have negative := congrArg Prod.fst (Except.ok.inj same)
    simp only at negative
    omega
  · intro large
    exact ⟨[], if_pos large⟩

/-- A message that the vector can hold with its header is encoded. -/
theorem encode_length_ok (build : Build) {message : List UInt8}
    (small : message.length + 16 ≤ maxSize) :
    ∃ encoded, Codec.length.encode build smallBuffer message = .ok encoded := by
  have fresh : smallBuffer.readableSize = 0 := by decide
  have prependSize : smallBuffer.prependSize = 8 := rfl
  have magicLength : magic.length = 4 := rfl
  have wordLength : (bytesOf 4 message.length).length = 4 := bytesOf_length 4 _
  rcases TcpBuffer.append_spec build smallBuffer_valid (show magic.length ≤ maxSize by omega) with
    ⟨large, -⟩ | ⟨marked, first, one⟩
  · omega
  · have markedSize := congrArg List.length one.readable_eq
    rw [one.valid.readable_length, List.length_append, smallBuffer_valid.readable_length,
      fresh] at markedSize
    have markedPrepend := one.prepend_eq
    rcases TcpBuffer.append_spec build one.valid
      (show (bytesOf 4 message.length).length ≤ maxSize by omega) with
        ⟨large, -⟩ | ⟨measured, second, two⟩
    · omega
    · have measuredSize := congrArg List.length two.readable_eq
      rw [two.valid.readable_length, List.length_append, one.valid.readable_length] at measuredSize
      have measuredPrepend := two.prepend_eq
      rcases TcpBuffer.append_spec build two.valid (show message.length ≤ maxSize by omega) with
        ⟨large, -⟩ | ⟨encoded, third, -⟩
      · omega
      · refine ⟨encoded, ?_⟩
        rw [encode, show smallBuffer.fluentAppend build magic = _ from first, ok_bind,
          show marked.fluentAppend build _ = _ from second, ok_bind, third]

/-- A message of one byte more than allowed is refused. -/
theorem oversized_refused_one_more : ∃ encoded text,
    Codec.length.encode .release smallBuffer (List.replicate (2 ^ 20 + 1) 97) = .ok encoded ∧
      Codec.length.tryDecode ((encoded.readable ++ [98]).map some) = .ok (-1, text) := by
  have fits : (List.replicate (2 ^ 20 + 1) (97 : UInt8)).length + 16 ≤ maxSize := by
    rw [List.length_replicate]
    unfold maxSize
    norm_num
  obtain ⟨encoded, encodes⟩ := encode_length_ok .release fits
  obtain ⟨text, refused⟩ := (oversized_refused_iff .release _ [98] smallBuffer encoded
    smallBuffer_valid (by decide) encodes).mpr
    (by rw [List.length_replicate]; norm_num)
  exact ⟨encoded, text, encodes, refused⟩

/-- A message of `2 ^ 32` bytes is taken for an empty one. -/
theorem not_oversized_refused :
    ¬ ∀ (message rest : List UInt8) (encoded : TcpBuffer), 2 ^ 20 < message.length →
      Codec.length.encode .release smallBuffer message = .ok encoded →
      ∃ text, Codec.length.tryDecode ((encoded.readable ++ rest).map some) = .ok (-1, text) := by
  intro refuses
  have size : (List.replicate (2 ^ 32) (97 : UInt8)).length = 2 ^ 32 := List.length_replicate
  have fits : (List.replicate (2 ^ 32) (97 : UInt8)).length + 16 ≤ maxSize := by
    rw [size]
    unfold maxSize
    norm_num
  obtain ⟨encoded, encodes⟩ := encode_length_ok .release fits
  obtain ⟨text, refused⟩ := refuses _ [] encoded (by rw [size]; norm_num) encodes
  have whole := (encode_returns .release .length smallBuffer_valid encodes).2
  rw [show smallBuffer.readable = [] by decide, List.nil_append] at whole
  rw [whole, show Codec.length.tryDecode _ = _ from lengthDecode_any _ [], size] at refused
  cases refused

/-! ### Lines when more bytes follow -/

/-- Bytes are the end-of-file mark, or without a newline, or a line and what follows it. -/
theorem line_cases (bytes : List UInt8) :
    bytes = [4] ∨ (bytes ≠ [4] ∧ 10 ∉ bytes) ∨
      ∃ line rest, bytes = line ++ 10 :: rest ∧ 10 ∉ line := by
  by_cases isMark : bytes = [4]
  · exact .inl isMark
  · by_cases isLine : 10 ∈ bytes
    · obtain ⟨line, rest, shape, clear⟩ := List.eq_append_cons_of_mem isLine
      exact .inr (.inr ⟨line, rest, shape, clear⟩)
    · exact .inr (.inl ⟨isMark, isLine⟩)

/-- The line that starts with the byte of the mark is not the mark. -/
theorem lineDecode_mark_ne {extension : List UInt8} (more : extension ≠ []) :
    lineDecode ((4 :: extension).map some) ≠ .ok (1, [some 4]) := by
  rcases line_cases (4 :: extension) with isMark | ⟨isOther, clear⟩ | ⟨line, rest, shape, clear⟩
  · exact absurd (List.cons.inj isMark).2 more
  · rw [lineDecode_waits clear isOther]
    intro same
    cases same
  · rw [shape, lineDecode_line clear]
    intro same
    obtain ⟨size, message⟩ := Prod.mk.inj (Except.ok.inj same)
    have lower : castInt (line.length + 1) = _ := castInt_of_pos (by rw [size]; decide)
    rw [size] at lower
    have textLength : (lineText line).length = 1 := by
      simpa using congrArg List.length message
    have longer : line.length ≤ (lineText line).length + 1 := by
      unfold lineText
      split
      · rw [List.length_dropLast]
        omega
      · omega
    have empty : line = [] := by
      rw [← List.length_eq_zero_iff]
      omega
    rw [empty] at shape
    exact absurd (List.cons.inj shape).1 (by decide)

/-- A decision on a line stands when more bytes follow, if and only if it was not made on the
end-of-file mark alone. -/
theorem lineDecode_append_iff {bytes : List UInt8} {taken : Int} {message : List (Option UInt8)}
    (decoded : lineDecode (bytes.map some) = .ok (taken, message)) (positive : 0 < taken)
    (extension : List UInt8) :
    lineDecode ((bytes ++ extension).map some) = .ok (taken, message) ↔
      (bytes = [4] → extension = []) := by
  rcases line_cases bytes with rfl | ⟨isOther, clear⟩ | ⟨line, rest, rfl, clear⟩
  · obtain ⟨rfl, rfl⟩ : 1 = taken ∧ [some 4] = message := Prod.mk.inj (Except.ok.inj decoded)
    constructor
    · intro same _
      by_contra more
      exact lineDecode_mark_ne more same
    · intro nothing
      rw [nothing rfl]
      rfl
  · rw [lineDecode_waits clear isOther] at decoded
    obtain ⟨rfl, -⟩ := Prod.mk.inj (Except.ok.inj decoded)
    exact absurd positive (lt_irrefl _)
  · rw [lineDecode_line clear] at decoded
    rw [List.append_assoc, List.cons_append, lineDecode_line clear, decoded]
    refine iff_of_true rfl fun isMark => ?_
    have newline : (10 : UInt8) ∈ [4] := isMark ▸ List.mem_append_right _ List.mem_cons_self
    exact absurd newline (by decide)

/-! ### Lines in chunks -/

/-- The bytes behind the last newline. -/
def unfinishedLine (bytes : List UInt8) : List UInt8 :=
  bytes.rtakeWhile (· ≠ 10)

/-- What has been taken off ends with a newline, or leaves one. -/
theorem unfinishedLine_append {front : List UInt8} {rest : List UInt8}
    (newline : front.getLast? = some 10 ∨ 10 ∈ rest) :
    unfinishedLine (front ++ rest) = unfinishedLine rest := by
  unfold unfinishedLine List.rtakeWhile
  rw [List.reverse_append, List.takeWhile_append]
  split
  · rename_i all
    have clear : 10 ∉ rest := by
      intro member
      have passed := List.takeWhile_eq_self_iff.mp (List.IsPrefix.eq_of_length
        (List.takeWhile_prefix _) all) 10 (List.mem_reverse.mpr member)
      simp at passed
    rcases newline with last | member
    · obtain ⟨more, rfl⟩ : ∃ more, front = more ++ [10] := List.getLast?_eq_some_iff.mp last
      have whole := List.IsPrefix.eq_of_length (List.takeWhile_prefix _) all
      rw [whole, List.reverse_append]
      simp
    · exact absurd member clear
  · rfl

/-- More bytes are behind the same newline. -/
theorem unfinishedLine_congr {first second : List UInt8}
    (same : unfinishedLine first = unfinishedLine second) (more : List UInt8) :
    unfinishedLine (first ++ more) = unfinishedLine (second ++ more) := by
  unfold unfinishedLine List.rtakeWhile at *
  rw [List.reverse_append, List.reverse_append, List.takeWhile_append, List.takeWhile_append]
  split
  · rw [List.reverse_append, List.reverse_append, same]
  · rfl

/-- What a decision takes off a line ends at the newline or in front of it. -/
theorem lineDecode_takes {line : List UInt8} (rest : List UInt8)
    (positive : 0 < castInt (line.length + 1)) :
    (castInt (line.length + 1)).toNat ≤ (line ++ 10 :: rest).length ∧
      (((line ++ 10 :: rest).take (castInt (line.length + 1)).toNat).getLast? = some 10 ∨
        10 ∈ (line ++ 10 :: rest).drop (castInt (line.length + 1)).toNat) := by
  have lower := castInt_of_pos positive
  have inside : (line.length + 1) % 2 ^ 32 ≤ line.length + 1 := Nat.mod_le _ _
  rw [lower, Int.toNat_natCast]
  refine ⟨by rw [List.length_append, List.length_cons]; omega, ?_⟩
  rcases Nat.lt_or_eq_of_le inside with less | same
  · refine .inr ?_
    rw [List.drop_append_of_le_length (by omega)]
    exact List.mem_append_right _ List.mem_cons_self
  · refine .inl ?_
    rw [same, List.take_append, List.take_of_length_le (by omega), Nat.add_sub_cancel_left]
    simp

/-- A loop with a round for each byte and one more does not need any more of them. -/
theorem drainBytes_enough (codec : Codec) {bytes : List UInt8} {fuel : Nat}
    (enough : bytes.length < fuel) :
    codec.drainBytes fuel bytes = codec.drainBytes (bytes.length + 1) bytes := by
  induction fuel using Nat.strong_induction_on generalizing bytes with
  | _ fuel inductionHypothesis =>
    obtain ⟨less, rfl⟩ : ∃ less, fuel = less + 1 := ⟨fuel - 1, by omega⟩
    rw [drainBytes, drainBytes]
    cases decoded : codec.tryDecode (bytes.map some) with
    | error fault => rfl
    | ok outcome =>
      obtain ⟨taken, message⟩ := outcome
      by_cases positive : 0 < taken
      · have nonempty : bytes ≠ [] := by
          rintro rfl
          have nothing : codec.tryDecode ([].map some) = .ok (0, []) := by cases codec <;> rfl
          rw [nothing] at decoded
          obtain ⟨rfl, -⟩ := Prod.mk.inj (Except.ok.inj decoded)
          exact lt_irrefl _ positive
        have size := List.length_pos_iff.mpr nonempty
        have shorter : (bytes.drop taken.toNat).length < bytes.length := by
          rw [List.length_drop]
          omega
        simp only [if_pos positive]
        rw [inductionHypothesis less (by omega) (by omega),
          inductionHypothesis bytes.length (by omega) shorter]
      · simp only [if_neg positive]

/-- The loop ends, its end is one, and with more bytes behind it does the same rounds and goes on,
unless the first of these bytes come behind an end-of-file mark. -/
def GoesOn (bytes : List UInt8) : Prop :=
  ∃ rounds last rest, Codec.line.drainBytes (bytes.length + 1) bytes = some (rounds, last, rest) ∧
    (unfinishedLine bytes ≠ [4] → unfinishedLine rest = unfinishedLine bytes) ∧
    (∃ last, Codec.line.drainBytes (rest.length + 1) rest = some ([], last, rest)) ∧
    ∀ extension, (unfinishedLine bytes = [4] → extension = []) →
      Codec.line.drainBytes ((bytes ++ extension).length + 1) (bytes ++ extension) =
        (Codec.line.drainBytes ((rest ++ extension).length + 1) (rest ++ extension)).map
          fun outcome => (rounds ++ outcome.1, outcome.2)

theorem goesOn (bytes : List UInt8) : GoesOn bytes := by
  induction size : bytes.length using Nat.strong_induction_on generalizing bytes with
  | _ size inductionHypothesis =>
    subst size
    -- A decision that takes nothing off ends the loop.
    have ends : ∀ {taken message}, lineDecode (bytes.map some) = .ok (taken, message) →
        ¬ 0 < taken → GoesOn bytes := by
      intro taken message decoded nothing
      have drained : Codec.line.drainBytes (bytes.length + 1) bytes = some ([], taken, bytes) := by
        rw [drainBytes, show Codec.line.tryDecode _ = _ from decoded]
        exact if_neg nothing
      refine ⟨[], taken, bytes, drained, fun _ => rfl, ⟨taken, drained⟩, fun extension _ => ?_⟩
      simp
    rcases line_cases bytes with rfl | ⟨isOther, clear⟩ | ⟨line, rest, rfl, clear⟩
    · refine ⟨[(1, [some 4])], 0, [], rfl, fun other => absurd rfl other, ⟨0, rfl⟩,
        fun extension nothing => ?_⟩
      rw [nothing rfl]
      rfl
    · exact ends (lineDecode_waits clear isOther) (lt_irrefl _)
    · by_cases positive : 0 < castInt (line.length + 1)
      · obtain ⟨inside, newline⟩ := lineDecode_takes rest positive
        have decoded := lineDecode_line clear rest
        generalize bytesShape : line ++ 10 :: rest = bytes at *
        generalize castInt (line.length + 1) = taken at *
        have nonempty : 0 < bytes.length := by
          rw [← bytesShape, List.length_append, List.length_cons]
          omega
        have unfinished : unfinishedLine (bytes.drop taken.toNat) = unfinishedLine bytes := by
          have appended := unfinishedLine_append newline
          rwa [List.take_append_drop, eq_comm] at appended
        have shorter : (bytes.drop taken.toNat).length < bytes.length := by
          rw [List.length_drop]
          omega
        obtain ⟨rounds, last, left, drained, same, settled, continues⟩ :=
          inductionHypothesis _ shorter (bytes.drop taken.toNat) rfl
        refine ⟨(taken, (lineText line).map some) :: rounds, last, left, ?_, ?_, settled,
          fun extension stands => ?_⟩
        · rw [drainBytes, show Codec.line.tryDecode _ = _ from decoded]
          simp only [if_pos positive]
          rw [drainBytes_enough _ shorter, drained]
          rfl
        · rw [← unfinished]
          exact same
        · have decodedMore : lineDecode ((bytes ++ extension).map some) =
              .ok (taken, (lineText line).map some) := by
            refine (lineDecode_append_iff decoded positive extension).mpr fun isMark => ?_
            exact stands (by rw [isMark]; rfl)
          have longer : (bytes.drop taken.toNat ++ extension).length <
              (bytes ++ extension).length := by
            rw [List.length_append, List.length_append]
            omega
          rw [drainBytes, show Codec.line.tryDecode _ = _ from decodedMore]
          simp only [if_pos positive]
          rw [List.drop_append_of_le_length inside, drainBytes_enough _ longer,
            continues extension (by rwa [unfinished]), Option.map_map]
          rfl
      · exact ends (lineDecode_line clear rest) positive

/-- No cut is behind an end-of-file mark that starts a line, unless nothing follows. -/
def UncutMarks (bytes : List UInt8) (chunks : List (List UInt8)) : Prop :=
  ∀ done left, chunks = done ++ left → done ≠ [] → left.flatten ≠ [] →
    unfinishedLine (bytes ++ done.flatten) ≠ [4]

/-- The loop over chunks does what it does with all their bytes at once. -/
theorem feed_line_flatten {bytes : List UInt8} {chunks : List (List UInt8)}
    (settled : ∃ last, Codec.line.drainBytes (bytes.length + 1) bytes = some ([], last, bytes))
    (uncut : UncutMarks bytes chunks) :
    Codec.line.feed bytes chunks = Codec.line.feed bytes [chunks.flatten] := by
  induction chunks generalizing bytes with
  | nil =>
    obtain ⟨last, drained⟩ := settled
    rw [List.flatten_nil, feed, feed, List.append_nil, drained]
    rfl
  | cons chunk more inductionHypothesis =>
    obtain ⟨rounds, last, rest, drained, same, settledRest, continues⟩ := goesOn (bytes ++ chunk)
    have stands : unfinishedLine (bytes ++ chunk) = [4] → more.flatten = [] := by
      intro isMark
      by_contra follows
      have unmarked := uncut [chunk] more rfl (List.cons_ne_nil _ _) follows
      rw [List.flatten_singleton] at unmarked
      exact unmarked isMark
    have uncutRest : UncutMarks rest more := by
      intro done left shape started follows
      have whole := uncut (chunk :: done) left (by rw [shape, List.cons_append])
        (List.cons_ne_nil _ _) follows
      rw [List.flatten_cons, ← List.append_assoc] at whole
      rwa [unfinishedLine_congr (same fun isMark => ?_) done.flatten]
      refine follows ?_
      have nothing := stands isMark
      rw [shape, List.flatten_append] at nothing
      exact (List.append_eq_nil_iff.mp nothing).2
    have together := continues more.flatten stands
    rw [feed, drained]
    simp only
    rw [inductionHypothesis settledRest uncutRest, List.flatten_cons, feed, feed,
      ← List.append_assoc, together]
    cases Codec.line.drainBytes ((rest ++ more.flatten).length + 1) (rest ++ more.flatten) with
    | none => rfl
    | some outcome =>
      simp [feed]

/-- For every decision on a line and whatever bytes that follow, the decision stays the same, if
and only if it was not made on a single end-of-file mark; and a stream gives the same messages
however it is cut, when no cut is behind such a mark at the start of a line. -/
theorem line_decision_stable_iff (bytes extension : List UInt8) (taken : Int)
    (message : List (Option UInt8))
    (decoded : Codec.line.tryDecode (bytes.map some) = .ok (taken, message))
    (positive : 0 < taken) :
    (Codec.line.tryDecode ((bytes ++ extension).map some) = .ok (taken, message) ↔
      (bytes = [4] → extension = [])) ∧
    ∀ chunks, UncutMarks [] chunks →
      Codec.line.feed [] chunks = Codec.line.feed [] [chunks.flatten] :=
  ⟨lineDecode_append_iff decoded positive extension,
    fun _ uncut => feed_line_flatten ⟨0, rfl⟩ uncut⟩

/-- A line with a carriage return, and two bytes of the next one. -/
theorem line_decision_stable_next :
    Codec.line.tryDecode (([97, 13, 10] ++ [4, 98] : List UInt8).map some) =
      .ok (3, [some 97]) :=
  (line_decision_stable_iff [97, 13, 10] [4, 98] 3 [some 97] (by decide) (by decide)).1.mpr
    (by decide)

/-- The byte 4 alone is a message, and with a newline behind it a line. -/
theorem not_line_decision_stable :
    ¬ ∀ (bytes extension : List UInt8) (taken : Int) (message : List (Option UInt8)),
      Codec.line.tryDecode (bytes.map some) = .ok (taken, message) → 0 < taken →
        Codec.line.tryDecode ((bytes ++ extension).map some) = .ok (taken, message) := by
  intro stable
  have same : lineDecode ((4 :: [10]).map some) = .ok (1, [some 4]) :=
    stable [4] [10] 1 [some 4] (by decide) (by decide)
  exact lineDecode_mark_ne (List.cons_ne_nil 10 []) same

end Codec

end YYNet
