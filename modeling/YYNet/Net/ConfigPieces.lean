/-
This file proves what the line of an entry stores, however long it is.

A line that is too long for the buffer is read in pieces, and the pieces are
parsed as lines. Nothing that they store can be the value: each piece stores
less than it is made of. There is one exception, a name so long that the buffer
ends right behind the equals sign. Then the value begins the next piece, behind
a blank, and is taken for a continuation line.
-/

import YYNet.Net.ConfigStored

namespace YYNet

/-! ### Values in front of blanks -/

/-- The part of a text in front of its first blank. -/
def firstWord (value : List UInt8) : List UInt8 := value.takeWhile fun byte => !isSpace byte

theorem firstWord_eq_self_iff {value : List UInt8} :
    firstWord value = value ↔ ∀ byte ∈ value, isSpace byte = false := by
  unfold firstWord
  rw [List.takeWhile_eq_self_iff]
  simp only [Bool.not_eq_true']

namespace LineScanner

/-- The scan takes the first word, and the blank behind it. -/
theorem tillEnd_firstWord {value : List UInt8} (plain : ∀ byte ∈ value, byte ≠ 59 ∧ byte ≠ 35)
    {ending : List UInt8} (blank : Blank ending) :
    rstrip (tillEnd false (value ++ ending)) = firstWord value := by
  have scans : ∃ more, Blank more ∧ tillEnd false (value ++ ending) = firstWord value ++ more := by
    induction value with
    | nil =>
      have taken : tillEnd false ([] ++ ending) = [] ++ ending.take 1 :=
        tillEnd_word nofun nofun blank
      exact ⟨ending.take 1, fun byte member => blank byte (List.mem_of_mem_take member), taken⟩
    | cons byte rest inductionHypothesis =>
      obtain ⟨⟨notSemicolon, notHash⟩, plainRest⟩ := List.forall_mem_cons.mp plain
      have other : ¬ (byte = 59 ∨ byte = 35 ∨ false = true) := by simp [notSemicolon, notHash]
      rw [List.cons_append, tillEnd, if_neg other]
      by_cases space : isSpace byte = true
      · refine ⟨[byte], fun other member => ?_, ?_⟩
        · rw [List.mem_singleton.mp member]
          exact space
        · rw [space, tillEnd_true, firstWord, List.takeWhile_cons_of_neg (by simp [space])]
          rfl
      · have solid := Bool.eq_false_iff.mpr space
        obtain ⟨more, isBlank, taken⟩ := inductionHypothesis plainRest
        refine ⟨more, isBlank, ?_⟩
        rw [solid, taken, firstWord, firstWord, List.takeWhile_cons_of_pos (by simp [solid])]
        rfl
  obtain ⟨more, isBlank, taken⟩ := scans
  rw [taken, Blank.rstrip_append isBlank]
  refine List.rdropWhile_eq_self_iff.mpr fun nonempty => ?_
  have last := List.getLast_mem nonempty
  simpa using (List.mem_takeWhile_imp last)

/-- Of the value behind a blank, the first word is taken. -/
theorem consumeTillEnd_firstWord {value : List UInt8} (solid : Solid value)
    (plain : ∀ byte ∈ value, byte ≠ 59 ∧ byte ≠ 35) {ending : List UInt8} (blank : Blank ending) :
    (consumeTillEnd ⟨32 :: (value ++ ending), false⟩).1 = firstWord value := by
  unfold consumeTillEnd
  rw [skipSpaces_eq, List.dropWhile_cons_of_pos rfl]
  by_cases empty : value = []
  · subst empty
    rw [List.nil_append, List.dropWhile_eq_nil_iff.mpr blank]
    rfl
  · rw [(solid.append empty ending).dropWhile]
    simp only [Bool.false_eq_true, if_false]
    exact tillEnd_firstWord plain blank

end LineScanner

/-! ### Lines that are read in pieces -/

/-- A piece that fills the buffer. -/
theorem fgets_full {room : Nat} {piece : List UInt8} (oneLine : 10 ∉ piece)
    (size : piece.length = room) (rest : List UInt8) :
    fgets room (piece ++ rest) = (piece, rest) := by
  induction piece generalizing room with
  | nil =>
    subst size
    rfl
  | cons byte piece inductionHypothesis =>
    rw [List.mem_cons, not_or] at oneLine
    subst size
    rw [List.cons_append, List.length_cons, fgets, if_neg (Ne.symm oneLine.1),
      inductionHypothesis oneLine.2 rfl]

/-- What is behind a line: the end of the file, or a newline and more. -/
def behind : Option (List UInt8) → List UInt8
  | none => []
  | some rest => 10 :: rest

namespace ConfParser

/-- A line that fits into the buffer is parsed at once, with its newline or without it. -/
theorem parseRest_whole {s : ConfParser} (running : s.err = false) {line : List UInt8}
    (nonempty : line ≠ []) (oneLine : 10 ∉ line) (fits : line.length ≤ maxLine - 1)
    (rest : Option (List UInt8)) :
    ∃ ending, Blank ending ∧
      ((s.parseLine (line ++ ending)).err = true →
        parseRest (line ++ behind rest) s = s.parseLine (line ++ ending)) ∧
      ((s.parseLine (line ++ ending)).err = false → ∃ count, parseRest (line ++ behind rest) s =
        parseRest (rest.getD []) { s.parseLine (line ++ ending) with lineno := count }) := by
  cases rest with
  | none =>
    refine ⟨[], nofun, ?_⟩
    have whole : parseRest (line ++ behind none) s = s.parseLine (line ++ []) := by
      rw [behind, List.append_nil, parseRest_step running nonempty, fgets_last oneLine fits]
      rfl
    rw [whole]
    exact ⟨fun _ => rfl, fun _ => ⟨_, rfl⟩⟩
  | some rest =>
    rcases Nat.lt_or_eq_of_le fits with short | full
    · refine ⟨[10], blank_newline, ?_⟩
      rw [behind, parseRest_line running oneLine short]
      exact ⟨fun stopped => parseRest_stopped stopped rest, fun _ => ⟨_, rfl⟩⟩
    · refine ⟨[], nofun, ?_⟩
      rw [behind, parseRest_step running (by simp), fgets_full oneLine full, List.append_nil]
      refine ⟨fun stopped => parseRest_stopped stopped _, fun goesOn => ?_⟩
      have alone := parseRest_line goesOn (List.not_mem_nil) (show 0 < maxLine - 1 by decide) rest
      rw [List.nil_append, List.nil_append,
        parseLine_blank _ (by decide) blank_newline] at alone
      exact ⟨_, alone⟩

theorem CutFrom.of_append_blank {line ending value : List UInt8} (nonempty : line ≠ [])
    (blank : Blank ending) (cut : CutFrom (line ++ ending) value) : CutFrom line value := by
  obtain ⟨byte, rest, rfl⟩ := List.exists_cons_of_ne_nil nonempty
  unfold CutFrom at cut ⊢
  rw [solids_append, solids_blank blank, Nat.add_zero] at cut
  exact cut

theorem CutFrom.of_front {piece more value : List UInt8} (nonempty : piece ≠ [])
    (cut : CutFrom piece value) : CutFrom (piece ++ more) value := by
  obtain ⟨byte, rest, rfl⟩ := List.exists_cons_of_ne_nil nonempty
  have longer : solids (byte :: rest) ≤ solids (byte :: rest ++ more) := by
    rw [solids_append]
    exact Nat.le_add_right _ _
  exact ⟨cut.1.trans longer, fun solid => (cut.2 solid).trans_le longer⟩

theorem CutFrom.of_back {piece more value : List UInt8} (nonempty : piece ≠ [])
    (cut : CutFrom more value) : CutFrom (piece ++ more) value := by
  obtain ⟨byte, rest, rfl⟩ := List.exists_cons_of_ne_nil nonempty
  rw [CutFrom, solids_append]
  refine ⟨cut.1.trans (Nat.le_add_left _ _), fun solid => ?_⟩
  have positive := solids_cons_of_solid (show isSpace byte = false from solid) rest
  have atMost := cut.1
  omega

/-- A line of any length: what its pieces store is cut from it. -/
theorem parseRest_pieces {s : ConfParser} (running : s.err = false) {line : List UInt8}
    (nonempty : line ≠ []) (oneLine : 10 ∉ line) (rest : Option (List UInt8)) :
    ∃ (next : ConfParser) (stored : List (List UInt8 × List UInt8)),
      next.values = s.values.pushAll stored ∧ (∀ pair ∈ stored, CutFrom line pair.2) ∧
      (parseRest (line ++ behind rest) s = next ∨
        next.err = false ∧ parseRest (line ++ behind rest) s = parseRest (rest.getD []) next) := by
  induction size : line.length using Nat.strong_induction_on generalizing line s with
  | _ size inductionHypothesis =>
  subst size
  by_cases fits : line.length ≤ maxLine - 1
  · obtain ⟨ending, blank, stops, goesOn⟩ := parseRest_whole running nonempty oneLine fits rest
    obtain ⟨values, cuts⟩ := s.parseLine_values (line ++ ending)
    have allCut : ∀ pair ∈ (s.storedBy (line ++ ending)).map ConfEntry.keyed,
        CutFrom line pair.2 := by
      intro pair member
      obtain ⟨entry, stored, rfl⟩ := List.mem_map.mp member
      exact CutFrom.of_append_blank nonempty blank (cuts entry stored)
    cases failed : (s.parseLine (line ++ ending)).err with
    | true => exact ⟨_, _, values, allCut, .inl (stops failed)⟩
    | false =>
      obtain ⟨count, read⟩ := goesOn failed
      exact ⟨{ s.parseLine (line ++ ending) with lineno := count }, _, values, allCut,
        .inr ⟨failed, read⟩⟩
  · have piece : (line.take (maxLine - 1)).length = maxLine - 1 :=
      List.length_take_of_le (by omega)
    have someFront : line.take (maxLine - 1) ≠ [] := by
      intro empty
      rw [empty] at piece
      exact absurd piece (by decide)
    have left : (line.drop (maxLine - 1)).length = line.length - (maxLine - 1) :=
      List.length_drop
    have someBack : line.drop (maxLine - 1) ≠ [] := by
      intro empty
      rw [empty, List.length_nil] at left
      omega
    have split := List.take_append_drop (maxLine - 1) line
    have oneFront : 10 ∉ line.take (maxLine - 1) :=
      fun member => oneLine (List.mem_of_mem_take member)
    have oneBack : 10 ∉ line.drop (maxLine - 1) :=
      fun member => oneLine (List.mem_of_mem_drop member)
    generalize line.take (maxLine - 1) = first at *
    generalize line.drop (maxLine - 1) = more at *
    subst split
    obtain ⟨values, cuts⟩ := s.parseLine_values first
    have allCut : ∀ pair ∈ (s.storedBy first).map ConfEntry.keyed,
        CutFrom (first ++ more) pair.2 := by
      intro pair member
      obtain ⟨entry, stored, rfl⟩ := List.mem_map.mp member
      exact (cuts entry stored).of_front someFront
    rw [List.append_assoc, parseRest_step running (by simp [someFront]), fgets_full oneFront piece]
    cases failed : (s.parseLine first).err with
    | true => exact ⟨_, _, values, allCut, .inl (parseRest_stopped failed _)⟩
    | false =>
      obtain ⟨next, stored, laterValues, laterCut, read⟩ :=
        inductionHypothesis more.length (by simp [List.length_pos_of_ne_nil someFront]) failed
          someBack oneBack rfl
      refine ⟨next, (s.storedBy first).map ConfEntry.keyed ++ stored, ?_, ?_, read⟩
      · rw [laterValues, values, OrderedMap.pushAll_append]
      · exact List.forall_mem_append.mpr ⟨allCut, fun pair member =>
          (laterCut pair member).of_back someFront⟩

/-- A line with neither separator ends the parsing. -/
theorem parseLine_unseparated (s : ConfParser) {first : UInt8} {rest : List UInt8}
    (clean : 0 ∉ first :: rest) (solid : isSpace first = false)
    (reserved : isReserved first = false) (noEquals : 61 ∉ first :: rest)
    (noColon : 58 ∉ first :: rest) :
    s.parseLine (first :: rest) =
      { s with
        lineno := s.lineno + 1
        key := []
        err := true
        values := s.values.pushBack (makeKey s.sectionName []) [] } := by
  have solidLine : Solid (first :: rest) := by
    intro byte member
    rw [← Option.some.inj member]
    exact solid
  have notEquals : first ≠ 61 := fun equal => noEquals (equal ▸ List.mem_cons_self)
  have notColon : first ≠ 58 := fun equal => noColon (equal ▸ List.mem_cons_self)
  have stays : ((⟨first :: rest, true⟩ : LineScanner).peekChar).1 = first := rfl
  have failed : ((⟨first :: rest, true⟩ : LineScanner).matchChar 58).err = true :=
    decide_eq_true notColon
  rw [parseLine_named s clean solid reserved,
    LineScanner.consumeTill_missing solidLine noEquals (by decide)]
  simp only
  rw [if_neg (stays ▸ notEquals), LineScanner.consumeTill_missing solidLine noColon (by decide)]
  simp only
  rw [failed, LineScanner.consumeTillEnd_failed failed]

/-- A line that begins with a bracket stores nothing. -/
theorem parseLine_bracket (s : ConfParser) {indent rest : List UInt8} (blank : Blank indent)
    (clean : 0 ∉ indent ++ 91 :: rest) :
    (s.parseLine (indent ++ 91 :: rest)).values = s.values := by
  unfold parseLine
  rw [peekChar_line clean, blank.dropWhile_append, List.dropWhile_cons_of_neg (by decide)]
  simp only [List.headD_cons]
  rw [if_neg (by decide), if_pos trivial]

/-- The header of a section that is cut off ends the parsing. -/
theorem parseLine_unclosed (s : ConfParser) {sectionName : List UInt8} (clean : 0 ∉ sectionName)
    (nonempty : sectionName ≠ []) (solid : Solid sectionName) (absent : 93 ∉ sectionName) :
    (s.parseLine (91 :: sectionName)).err = true := by
  have cleanLine : 0 ∉ 91 :: sectionName := by
    rw [List.mem_cons, not_or]
    exact ⟨by decide, clean⟩
  obtain ⟨first, more, rfl⟩ := List.exists_cons_of_ne_nil nonempty
  have notClosed : first ≠ 93 := fun equal => absent (equal ▸ List.mem_cons_self)
  have failed : ((⟨first :: more, true⟩ : LineScanner).matchChar 93).err = true :=
    decide_eq_true notClosed
  unfold parseLine
  rw [peekChar_line cleanLine, List.dropWhile_cons_of_neg (by decide)]
  simp only [List.headD_cons]
  rw [if_neg (by decide), if_pos trivial]
  simp only [LineScanner.skip, List.drop_succ_cons, List.drop_zero]
  rw [LineScanner.consumeTill_missing solid absent (by decide)]
  exact failed

end ConfParser

/-! ### The line of an entry -/

theorem blank_space : Blank [32] := by
  intro byte member
  rw [List.mem_singleton.mp member]
  rfl

/-- Bytes within one line. -/
def OneLine (piece : List UInt8) : Prop := ∀ byte ∈ piece, byte ≠ 0 ∧ byte ≠ 10

instance oneLineDecidable (piece : List UInt8) : Decidable (OneLine piece) :=
  inferInstanceAs (Decidable (∀ byte ∈ piece, _))

theorem oneLine_space : OneLine [32] := by
  intro byte member
  rw [List.mem_singleton.mp member]
  decide

/-- The text of a name. -/
structure NameText (name : List UInt8) : Prop where
  nonempty : name ≠ []
  nameable : Nameable name
  oneLine : OneLine name

/-- The text of a value, which may have blanks inside. -/
structure ValueText (value : List UInt8) : Prop where
  nonempty : value ≠ []
  trimmed : Trimmed value
  plain : ∀ byte ∈ value, byte ≠ 59 ∧ byte ≠ 35
  oneLine : OneLine value

/-- `name = v`. -/
def entryLine (name value : List UInt8) : List UInt8 := name ++ ([32] ++ 61 :: 32 :: value)

/-- The line fits into the buffer and the value has no blank, or the buffer ends behind the equals
sign and the value fits into the next piece, where it does not look like a header. -/
def KeepsLine (name value : List UInt8) : Prop :=
  name.length + 3 + value.length ≤ maxLine - 1 ∧ (∀ byte ∈ value, isSpace byte = false) ∨
    name.length = maxLine - 3 ∧ value.length + 1 ≤ maxLine - 1 ∧ value.head? ≠ some 91

theorem entryLine_oneLine {name value : List UInt8} (nameOneLine : OneLine name)
    (valueOneLine : OneLine value) : OneLine (entryLine name value) := by
  intro byte member
  simp only [entryLine, List.mem_append, List.mem_cons, List.not_mem_nil, or_false] at member
  rcases member with inName | rfl | rfl | rfl | inValue
  · exact nameOneLine byte inName
  · decide
  · decide
  · decide
  · exact valueOneLine byte inValue

theorem OneLine.no_newline {piece : List UInt8} (oneLine : OneLine piece) : 10 ∉ piece :=
  fun member => (oneLine 10 member).2 rfl

theorem OneLine.no_null {piece : List UInt8} (oneLine : OneLine piece) : 0 ∉ piece :=
  fun member => (oneLine 0 member).1 rfl

theorem OneLine.append_blank {piece ending : List UInt8} (oneLine : OneLine piece)
    (blank : Blank ending) : 0 ∉ piece ++ ending := by
  rw [List.mem_append, not_or]
  exact ⟨oneLine.no_null, blank.not_mem rfl⟩

theorem OneLine.of_subset {part whole : List UInt8} (oneLine : OneLine whole)
    (subset : part ⊆ whole) : OneLine part := fun byte member => oneLine byte (subset member)

/-- A part of a value without its first byte, which is solid. -/
theorem ValueText.solids_drop_lt {value : List UInt8} (isValue : ValueText value) {count : Nat}
    (positive : 0 < count) : solids (value.drop count) < solids value := by
  obtain ⟨first, rest, rfl⟩ := List.exists_cons_of_ne_nil isValue.nonempty
  obtain ⟨count, rfl⟩ := Nat.exists_eq_add_one_of_ne_zero positive.ne'
  rw [List.drop_succ_cons, solids_cons_of_solid (isValue.trimmed.solid first rfl)]
  exact Nat.lt_succ_of_le (solids_le_of_sublist (List.drop_sublist _ _))

/-- A part of a value without its last byte, which is solid. -/
theorem ValueText.solids_take_lt {value : List UInt8} (isValue : ValueText value) {count : Nat}
    (less : count < value.length) : solids (value.take count) < solids value := by
  have stripped := isValue.trimmed.rstrip
  have last := List.rdropWhile_eq_self_iff.mp stripped isValue.nonempty
  have split := List.dropLast_append_getLast isValue.nonempty
  have whole : solids value = solids value.dropLast + 1 := by
    conv_lhs => rw [← split]
    rw [solids_append]
    exact congrArg _ (solids_cons_of_solid (Bool.eq_false_iff.mpr last) [])
  have part : (value.take count).Sublist value.dropLast := by
    rw [List.dropLast_eq_take]
    exact (List.take_sublist_take_left (by omega))
  have atMost := solids_le_of_sublist part
  omega

namespace ConfParser

/-- The piece with the name and the equals sign. -/
theorem parseLine_entryLine (s : ConfParser) {name value ending : List UInt8}
    (isName : NameText name) (solid : Solid value)
    (plain : ∀ byte ∈ value, byte ≠ 59 ∧ byte ≠ 35) (oneLine : OneLine value)
    (blank : Blank ending) :
    s.parseLine (entryLine name value ++ ending) =
      { s with
        lineno := s.lineno + 1
        key := name
        values := s.values.pushBack (makeKey s.sectionName name) (firstWord value) } := by
  have clean := (entryLine_oneLine isName.oneLine oneLine).append_blank blank
  have bytes : entryLine name value ++ ending =
      name ++ ([32] ++ 61 :: (32 :: (value ++ ending))) := by simp [entryLine]
  rw [bytes] at clean ⊢
  rw [parseLine_equals s clean isName.nonempty isName.nameable blank_space,
    LineScanner.consumeTillEnd_firstWord solid plain blank]

/-- The buffer ends behind the equals sign, and the value is left for the next piece. -/
theorem parseRest_long_name {s : ConfParser} (running : s.err = false) {name : List UInt8}
    (isName : NameText name) (size : name.length = maxLine - 3) (value : List UInt8)
    (rest : Option (List UInt8)) :
    parseRest (entryLine name value ++ behind rest) s =
      parseRest ((32 :: value) ++ behind rest) { s with
        lineno := s.lineno + 1
        key := name
        values := s.values.pushBack (makeKey s.sectionName name) [] } := by
  have bytes : entryLine name value ++ behind rest =
      (name ++ ([32] ++ 61 :: [])) ++ ((32 :: value) ++ behind rest) := by simp [entryLine]
  have full : (name ++ ([32] ++ 61 :: [])).length = maxLine - 1 := by
    have isSize : maxLine = 16384 := rfl
    simp only [List.length_append, List.length_cons, List.length_nil]
    omega
  have oneLine : OneLine (name ++ ([32] ++ 61 :: [])) :=
    List.forall_mem_append.mpr ⟨isName.oneLine, List.forall_mem_append.mpr ⟨oneLine_space,
      List.forall_mem_singleton.mpr (by decide)⟩⟩
  rw [bytes, parseRest_step running (by simp), fgets_full oneLine.no_newline full,
    parseLine_equals s oneLine.no_null isName.nonempty isName.nameable blank_space]
  rfl

/-- The value is stored last, and the section and the name hold behind it. -/
theorem parseRest_kept {s : ConfParser} (running : s.err = false) {name value : List UInt8}
    (isName : NameText name) (isValue : ValueText value) (keeps : KeepsLine name value)
    (rest : Option (List UInt8)) :
    ∃ (next : ConfParser) (before : List (List UInt8 × List UInt8)),
      next.err = false ∧ next.sectionName = s.sectionName ∧ next.key = name ∧
      next.values = s.values.pushAll (before ++ [(makeKey s.sectionName name, value)]) ∧
      parseRest (entryLine name value ++ behind rest) s = parseRest (rest.getD []) next := by
  rcases keeps with ⟨fits, word⟩ | ⟨size, fits, notBracket⟩
  · have nonempty : entryLine name value ≠ [] := List.append_ne_nil_of_left_ne_nil isName.nonempty _
    have oneLine := entryLine_oneLine isName.oneLine isValue.oneLine
    have short : (entryLine name value).length ≤ maxLine - 1 := by
      simp only [entryLine, List.length_append, List.length_cons, List.length_nil]
      omega
    obtain ⟨ending, blank, -, goesOn⟩ :=
      parseRest_whole running nonempty oneLine.no_newline short rest
    rw [parseLine_entryLine s isName isValue.trimmed.solid isValue.plain isValue.oneLine blank,
      firstWord_eq_self_iff.mpr word] at goesOn
    obtain ⟨count, read⟩ := goesOn running
    exact ⟨{ s with
        lineno := count
        key := name
        values := s.values.pushBack (makeKey s.sectionName name) value }, [], running, rfl, rfl,
      rfl, read⟩
  · rw [parseRest_long_name running isName size]
    have oneLine : OneLine (32 :: value) :=
      List.forall_mem_cons.mpr ⟨by decide, isValue.oneLine⟩
    have plain : ∀ byte ∈ value.head?, byte ≠ 91 ∧ byte ≠ 59 ∧ byte ≠ 35 := by
      intro byte member
      have inValue := List.mem_of_mem_head? member
      refine ⟨?_, isValue.plain byte inValue⟩
      rintro rfl
      exact notBracket member
    have short : (32 :: value).length ≤ maxLine - 1 := fits
    have still : ConfParser.err { s with
        lineno := s.lineno + 1
        key := name
        values := s.values.pushBack (makeKey s.sectionName name) [] } = false := running
    obtain ⟨ending, blank, -, goesOn⟩ :=
      parseRest_whole still (List.cons_ne_nil 32 value) oneLine.no_newline short rest
    have clean : 0 ∉ [32] ++ (value ++ ending) := oneLine.append_blank blank
    have continued := parseLine_continuation { s with
        lineno := s.lineno + 1
        key := name
        values := s.values.pushBack (makeKey s.sectionName name) [] }
      clean (List.cons_ne_nil 32 []) blank_space isValue.nonempty
      isValue.trimmed plain blank isName.nonempty
    rw [show (32 :: value) ++ ending = [32] ++ (value ++ ending) from rfl, continued] at goesOn
    obtain ⟨count, read⟩ := goesOn running
    exact ⟨{ s with
        lineno := count
        key := name
        values := (s.values.pushBack (makeKey s.sectionName name) []).pushBack
          (makeKey s.sectionName name) value }, [(makeKey s.sectionName name, [])], running, rfl,
      rfl, rfl, read⟩

/-- What is read behind a line stores nothing of the kind, or stops. -/
def Misses (s : ConfParser) (file rest value : List UInt8) : Prop :=
  ∃ (next : ConfParser) (stored : List (List UInt8 × List UInt8)),
    next.values = s.values.pushAll stored ∧ (∀ pair ∈ stored, pair.2 ≠ value) ∧
    (parseRest file s = next ∨ next.err = false ∧ parseRest file s = parseRest rest next)

/-- A line with too few solid bytes. -/
theorem misses_of_fewer {s : ConfParser} (running : s.err = false) {line value : List UInt8}
    (nonempty : line ≠ []) (oneLine : OneLine line)
    (fewer : solids line < solids value ∨
      isSpace (line.headD 0) = false ∧ solids line ≤ solids value)
    (rest : Option (List UInt8)) :
    Misses s (line ++ behind rest) (rest.getD []) value := by
  obtain ⟨next, stored, values, cuts, read⟩ :=
    parseRest_pieces running nonempty oneLine.no_newline rest
  refine ⟨next, stored, values, fun pair member same => ?_, read⟩
  obtain ⟨atMost, less⟩ := cuts pair member
  rw [same] at atMost less
  rcases fewer with few | ⟨solid, few⟩
  · omega
  · exact absurd (less solid) (not_lt_of_ge few)

/-- Values that were stored in front do not matter. -/
theorem Misses.prepend {s middle : ConfParser} {file left rest value : List UInt8}
    {stored : List (List UInt8 × List UInt8)} (misses : Misses middle left rest value)
    (values : middle.values = s.values.pushAll stored) (others : ∀ pair ∈ stored, pair.2 ≠ value)
    (read : parseRest file s = parseRest left middle) : Misses s file rest value := by
  obtain ⟨next, more, nextValues, moreOthers, ends⟩ := misses
  refine ⟨next, stored ++ more, ?_, List.forall_mem_append.mpr ⟨others, moreOthers⟩, ?_⟩
  · rw [nextValues, values, OrderedMap.pushAll_append]
  · rwa [read]

theorem firstWord_length_le (value : List UInt8) : (firstWord value).length ≤ value.length :=
  (List.takeWhile_sublist _).length_le

/-- A line that fits stores the first word. -/
theorem misses_short {s : ConfParser} (running : s.err = false) {name value : List UInt8}
    (isName : NameText name) (isValue : ValueText value)
    (fits : name.length + 3 + value.length ≤ maxLine - 1) (lost : firstWord value ≠ value)
    (rest : Option (List UInt8)) :
    Misses s (entryLine name value ++ behind rest) (rest.getD []) value := by
  have nonempty : entryLine name value ≠ [] := List.append_ne_nil_of_left_ne_nil isName.nonempty _
  have oneLine := entryLine_oneLine isName.oneLine isValue.oneLine
  have short : (entryLine name value).length ≤ maxLine - 1 := by
    simp only [entryLine, List.length_append, List.length_cons, List.length_nil]
    omega
  obtain ⟨ending, blank, -, goesOn⟩ :=
    parseRest_whole running nonempty oneLine.no_newline short rest
  rw [parseLine_entryLine s isName isValue.trimmed.solid isValue.plain isValue.oneLine blank]
    at goesOn
  obtain ⟨count, read⟩ := goesOn running
  refine ⟨{ s with
      lineno := count
      key := name
      values := s.values.pushBack (makeKey s.sectionName name) (firstWord value) },
    [(makeKey s.sectionName name, firstWord value)], rfl, fun pair member => ?_,
    .inr ⟨running, read⟩⟩
  rw [List.mem_singleton.mp member]
  exact lost

/-- Where the name takes the buffer and more, there is no separator. -/
theorem misses_huge_name {s : ConfParser} (running : s.err = false) {name value : List UInt8}
    (isName : NameText name) (isValue : ValueText value) (huge : maxLine - 2 ≤ name.length)
    (rest : Option (List UInt8)) :
    Misses s (entryLine name value ++ behind rest) (rest.getD []) value := by
  have isSize : maxLine = 16384 := rfl
  have bytes : entryLine name value ++ behind rest =
      (name ++ [32]).take (maxLine - 1) ++
        ((name ++ [32]).drop (maxLine - 1) ++ (61 :: 32 :: value ++ behind rest)) := by
    rw [← List.append_assoc, List.take_append_drop]
    simp [entryLine]
  have full : ((name ++ [32]).take (maxLine - 1)).length = maxLine - 1 := by
    refine List.length_take_of_le ?_
    rw [List.length_append]
    exact (by omega : maxLine - 1 ≤ name.length + 1)
  have whole : OneLine (name ++ [32]) :=
    List.forall_mem_append.mpr ⟨isName.oneLine, oneLine_space⟩
  have oneLine := whole.of_subset (List.take_subset (maxLine - 1) _)
  have absent (byte : UInt8) (reserved : isReserved byte = true) (notSpace : isSpace byte = false) :
      byte ∉ (name ++ [32]).take (maxLine - 1) := by
    intro member
    rcases List.mem_append.mp (List.mem_of_mem_take member) with inName | inSpace
    · exact isName.nameable.not_mem reserved inName
    · exact blank_space.not_mem notSpace inSpace
  obtain ⟨first, more, rfl⟩ := List.exists_cons_of_ne_nil isName.nonempty
  obtain ⟨size, isPiece⟩ : ∃ size, maxLine - 1 = size + 1 := ⟨maxLine - 2, by omega⟩
  have piece : (first :: more ++ [32]).take (maxLine - 1) = first :: (more ++ [32]).take size := by
    rw [isPiece]
    rfl
  have noEquals := absent 61 rfl rfl
  have noColon := absent 58 rfl rfl
  rw [piece] at full oneLine noEquals noColon bytes
  have parsed := parseLine_unseparated s oneLine.no_null (isName.nameable.1.solid first rfl)
    (isName.nameable.2 first List.mem_cons_self) noEquals noColon
  refine ⟨s.parseLine (first :: (more ++ [32]).take size), [(makeKey s.sectionName [], [])],
    congrArg ConfParser.values parsed, fun pair member => ?_, .inl ?_⟩
  · rw [List.mem_singleton.mp member]
    exact isValue.nonempty.symm
  · rw [bytes, parseRest_step running (by simp), fgets_full oneLine.no_newline full]
    exact parseRest_stopped (congrArg ConfParser.err parsed) _

/-- A line that is longer than the buffer, with its first piece. -/
theorem Misses.piece {s : ConfParser} (running : s.err = false) {first more value : List UInt8}
    (size : first.length = maxLine - 1) (oneLine : OneLine first)
    {stored : List (List UInt8 × List UInt8)}
    (values : (s.parseLine first).values = s.values.pushAll stored)
    (others : ∀ pair ∈ stored, pair.2 ≠ value) {rest : Option (List UInt8)}
    (later : ∀ next : ConfParser, next.err = false →
      Misses next (more ++ behind rest) (rest.getD []) value) :
    Misses s (first ++ (more ++ behind rest)) (rest.getD []) value := by
  have nonempty : first ≠ [] := by
    rintro rfl
    exact absurd size (by decide)
  have read : parseRest (first ++ (more ++ behind rest)) s =
      parseRest (more ++ behind rest) (s.parseLine first) := by
    rw [parseRest_step running (List.append_ne_nil_of_left_ne_nil nonempty _),
      fgets_full oneLine.no_newline size]
  cases failed : (s.parseLine first).err with
  | true =>
    rw [parseRest_stopped failed] at read
    exact ⟨s.parseLine first, stored, values, others, .inl read⟩
  | false => exact (later _ failed).prepend values others read

/-- What is left of a value behind a cut. -/
theorem misses_drop {s : ConfParser} (running : s.err = false) {value : List UInt8}
    (isValue : ValueText value) {count : Nat} (less : count < value.length)
    (rest : Option (List UInt8)) :
    Misses s (value.drop count ++ behind rest) (rest.getD []) value := by
  have nonempty : value.drop count ≠ [] := by
    rw [ne_eq, List.drop_eq_nil_iff]
    exact Nat.not_le_of_lt less
  refine misses_of_fewer running nonempty
    (isValue.oneLine.of_subset (List.drop_subset count value)) ?_ rest
  rcases Nat.eq_zero_or_pos count with rfl | positive
  · obtain ⟨first, more, rfl⟩ := List.exists_cons_of_ne_nil isValue.nonempty
    exact .inr ⟨isValue.trimmed.solid first rfl, le_rfl⟩
  · exact .inl (isValue.solids_drop_lt positive)

/-- The buffer ends within the value. -/
theorem misses_long_line {s : ConfParser} (running : s.err = false) {name value : List UInt8}
    (isName : NameText name) (isValue : ValueText value) (nameFits : name.length + 3 ≤ maxLine - 1)
    (long : maxLine - 1 < name.length + 3 + value.length) (rest : Option (List UInt8)) :
    Misses s (entryLine name value ++ behind rest) (rest.getD []) value := by
  obtain ⟨count, fills⟩ := Nat.exists_eq_add_of_le nameFits
  have less : count < value.length := by omega
  have bytes : entryLine name value ++ behind rest =
      entryLine name (value.take count) ++ (value.drop count ++ behind rest) := by
    simp only [entryLine, List.append_assoc, List.cons_append, List.nil_append]
    rw [← List.append_assoc (value.take count), List.take_append_drop]
  have size : (entryLine name (value.take count)).length = maxLine - 1 := by
    simp only [entryLine, List.length_append, List.length_cons, List.length_nil,
      List.length_take_of_le less.le]
    omega
  have taken := List.take_subset count value
  have solid : Solid (value.take count) := by
    intro byte member
    rw [List.head?_take] at member
    split at member
    · cases member
    · exact isValue.trimmed.solid byte member
  have oneLine := isValue.oneLine.of_subset taken
  have parsed := parseLine_entryLine s isName solid (fun byte member =>
    isValue.plain byte (taken member)) oneLine (show Blank [] from nofun)
  rw [List.append_nil] at parsed
  have values : (s.parseLine (entryLine name (value.take count))).values =
      s.values.pushAll [(makeKey s.sectionName name, firstWord (value.take count))] :=
    congrArg ConfParser.values parsed
  rw [bytes]
  refine Misses.piece running size (entryLine_oneLine isName.oneLine oneLine) values
    (fun pair member => ?_) fun next goesOn => misses_drop goesOn isValue less rest
  rw [List.mem_singleton.mp member]
  intro whole
  have shorter := firstWord_length_le (value.take count)
  rw [show firstWord (value.take count) = value from whole, List.length_take_of_le less.le]
    at shorter
  omega

/-- The buffer ends behind the equals sign, and the value is too long for the next piece or looks
like a header there. -/
theorem misses_long_name {s : ConfParser} (running : s.err = false) {name value : List UInt8}
    (isName : NameText name) (isValue : ValueText value) (size : name.length = maxLine - 3)
    (lost : value.length + 1 ≤ maxLine - 1 → value.head? = some 91) (rest : Option (List UInt8)) :
    Misses s (entryLine name value ++ behind rest) (rest.getD []) value := by
  have oneLine : OneLine (32 :: value) :=
    List.forall_mem_append.mpr ⟨oneLine_space, isValue.oneLine⟩
  have others : ∀ pair ∈ [(makeKey s.sectionName name, ([] : List UInt8))], pair.2 ≠ value :=
    List.forall_mem_singleton.mpr isValue.nonempty.symm
  refine Misses.prepend ?_ ?_ others (parseRest_long_name running isName size value rest)
  case refine_2 => rfl
  generalize still : ConfParser.mk (s.values.pushBack (makeKey s.sectionName name) [])
    s.sectionName name s.err (s.lineno + 1) = middle
  have goes : middle.err = false := still ▸ running
  by_cases fits : value.length + 1 ≤ maxLine - 1
  · obtain ⟨more, rfl⟩ := List.head?_eq_some_iff.mp (lost fits)
    obtain ⟨ending, blank, stops, goesOn⟩ := parseRest_whole goes (List.cons_ne_nil 32 _)
      oneLine.no_newline fits rest
    have values : (middle.parseLine (32 :: 91 :: more ++ ending)).values = middle.values :=
      parseLine_bracket middle blank_space (oneLine.append_blank blank)
    cases failed : (middle.parseLine (32 :: 91 :: more ++ ending)).err with
    | true => exact ⟨_, [], values, nofun, .inl (stops failed)⟩
    | false =>
      obtain ⟨count, read⟩ := goesOn failed
      exact ⟨{ middle.parseLine (32 :: 91 :: more ++ ending) with lineno := count }, [], values,
        nofun, .inr ⟨failed, read⟩⟩
  · have isSize : maxLine = 16384 := rfl
    have less : maxLine - 2 < value.length := by omega
    have bytes : (32 :: value) ++ behind rest = (32 :: value.take (maxLine - 2)) ++
        (value.drop (maxLine - 2) ++ behind rest) := by
      rw [List.cons_append, List.cons_append, ← List.append_assoc, List.take_append_drop]
    have full : (32 :: value.take (maxLine - 2)).length = maxLine - 1 := by
      rw [List.length_cons, List.length_take_of_le less.le]
      rfl
    obtain ⟨values, cuts⟩ := middle.parseLine_values (32 :: value.take (maxLine - 2))
    rw [bytes]
    refine Misses.piece goes full (oneLine.of_subset
      (List.cons_subset_cons 32 (List.take_subset _ value))) values (fun pair member same => ?_)
      fun next running => misses_drop running isValue less rest
    obtain ⟨entry, stored, rfl⟩ := List.mem_map.mp member
    have atMost := (cuts entry stored).1
    have fewer := isValue.solids_take_lt less
    have begins := solids_append [32] (value.take (maxLine - 2))
    rw [solids_blank blank_space] at begins
    rw [show entry.value = value from same, show 32 :: value.take (maxLine - 2) =
      [32] ++ value.take (maxLine - 2) from rfl, begins] at atMost
    omega

/-- Where a line does not keep its value, the value is not stored. -/
theorem misses_of_not_keepsLine {s : ConfParser} (running : s.err = false)
    {name value : List UInt8} (isName : NameText name) (isValue : ValueText value)
    (lost : ¬ KeepsLine name value) (rest : Option (List UInt8)) :
    Misses s (entryLine name value ++ behind rest) (rest.getD []) value := by
  have isSize : maxLine = 16384 := rfl
  obtain ⟨notShort, notLong⟩ := not_or.mp lost
  by_cases huge : maxLine - 2 ≤ name.length
  · exact misses_huge_name running isName isValue huge rest
  by_cases full : name.length = maxLine - 3
  · refine misses_long_name running isName isValue full (fun fits => ?_) rest
    by_contra notBracket
    exact notLong ⟨full, fits, notBracket⟩
  by_cases fits : name.length + 3 + value.length ≤ maxLine - 1
  · refine misses_short running isName isValue fits (fun word => ?_) rest
    exact notShort ⟨fits, firstWord_eq_self_iff.mp word⟩
  · exact misses_long_line running isName isValue (by omega) (by omega) rest

end ConfParser

end YYNet
