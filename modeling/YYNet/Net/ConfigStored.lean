/-
This file says what the parser of configuration files stores, whatever the file.

A round stores one value or none, under the section and the key that hold behind
it, and what it stores does not depend on what is stored already. The value is
cut out of the line, so it has no more bytes that are not spaces than the line,
and strictly fewer if the line does not begin with a space: then a byte of the
name or the separator is left out.
-/

import YYNet.Net.ConfigCenter

namespace YYNet

/-! ### Bytes that are not spaces -/

/-- The number of bytes that are not spaces. -/
def solids (piece : List UInt8) : Nat := piece.countP fun byte => !isSpace byte

theorem solids_le_of_sublist {part whole : List UInt8} (sublist : part.Sublist whole) :
    solids part ≤ solids whole :=
  sublist.countP_le

theorem solids_append (first second : List UInt8) :
    solids (first ++ second) = solids first + solids second :=
  List.countP_append

theorem solids_cons_of_solid {byte : UInt8} (solid : isSpace byte = false) (rest : List UInt8) :
    solids (byte :: rest) = solids rest + 1 :=
  List.countP_cons_of_pos (by simp [solid])

theorem solids_blank {spaces : List UInt8} (blank : Blank spaces) : solids spaces = 0 :=
  List.countP_eq_zero.mpr fun byte member => by simp [blank byte member]

namespace LineScanner

/-! ### What a scan cuts out -/

theorem skipSpaces_suffix (ls : LineScanner) : ls.skipSpaces.p <:+ ls.p := by
  unfold skipSpaces
  split
  · exact List.suffix_rfl
  · exact List.dropWhile_suffix isSpace

theorem rstrip_sublist (piece : List UInt8) : (rstrip piece).Sublist piece :=
  (List.rdropWhile_prefix isSpace piece).sublist

theorem consumeTill_sublist (ls : LineScanner) (c : UInt8) :
    (ls.consumeTill c).1.Sublist ls.p := by
  refine List.Sublist.trans ?_ ls.skipSpaces_suffix.sublist
  unfold consumeTill
  dsimp only
  generalize (if ls.skipSpaces.err then ls.skipSpaces.p
    else ls.skipSpaces.p.dropWhile (· ≠ c)) = found
  split
  · exact List.nil_sublist _
  · split
    · exact (rstrip_sublist _).trans (List.nil_sublist _)
    · exact (rstrip_sublist _).trans (List.takeWhile_sublist _)

theorem consumeTill_suffix (ls : LineScanner) (c : UInt8) :
    (ls.consumeTill c).2.p <:+ ls.p := by
  refine List.IsSuffix.trans ?_ ls.skipSpaces_suffix
  have within : (if ls.skipSpaces.err then ls.skipSpaces.p
      else ls.skipSpaces.p.dropWhile (· ≠ c)) <:+ ls.skipSpaces.p := by
    split
    · exact List.suffix_rfl
    · exact List.dropWhile_suffix _
  unfold consumeTill
  dsimp only
  generalize (if ls.skipSpaces.err then ls.skipSpaces.p
    else ls.skipSpaces.p.dropWhile (· ≠ c)) = found at within ⊢
  split
  · exact List.suffix_rfl
  · exact within

theorem tillEnd_sublist (wasspace : Bool) (piece : List UInt8) :
    (tillEnd wasspace piece).Sublist piece := by
  induction piece generalizing wasspace with
  | nil => exact List.nil_sublist _
  | cons byte rest inductionHypothesis =>
    rw [tillEnd]
    split
    · exact List.nil_sublist _
    · exact (inductionHypothesis _).cons_cons byte

theorem consumeTillEnd_sublist (ls : LineScanner) : ls.consumeTillEnd.1.Sublist ls.p := by
  refine List.Sublist.trans ?_ ls.skipSpaces_suffix.sublist
  unfold consumeTillEnd
  dsimp only
  refine (rstrip_sublist _).trans ?_
  split
  · exact List.nil_sublist _
  · exact tillEnd_sublist false _

/-- After an error the rest of a line is empty. -/
theorem consumeTillEnd_failed {ls : LineScanner} (failed : ls.err = true) :
    ls.consumeTillEnd.1 = [] := by
  have same : ls.skipSpaces = ls := if_pos failed
  unfold consumeTillEnd
  rw [same]
  simp only [failed, if_true]
  rfl

/-- What is behind a byte that is not a space. -/
theorem solids_skip_lt {ls : LineScanner} {c : UInt8} (isCurrent : ls.current = c)
    (nonzero : c ≠ 0) (solid : isSpace c = false) : solids (ls.skip 1).p < solids ls.p := by
  obtain ⟨p, err⟩ := ls
  cases p with
  | nil => exact absurd isCurrent.symm nonzero
  | cons byte rest =>
    obtain rfl : byte = c := isCurrent
    exact (solids_cons_of_solid solid rest).symm ▸ Nat.lt_succ_self _

/-- The value of an entry, behind the byte that separates it from the name. -/
theorem solids_value_lt (ls : LineScanner) {c : UInt8} (found : ls.peekChar.1 = c)
    (nonzero : c ≠ 0) (solid : isSpace c = false) :
    solids (ls.peekChar.2.skip 1).consumeTillEnd.1 < solids ls.p :=
  ((solids_le_of_sublist (consumeTillEnd_sublist _)).trans_lt
    (solids_skip_lt found nonzero solid)).trans_le
    (solids_le_of_sublist ls.skipSpaces_suffix.sublist)

/-- The value of an entry with a colon, or of a line without any separator. -/
theorem solids_matched_lt {ls : LineScanner} {c : UInt8} (nonzero : c ≠ 0)
    (solid : isSpace c = false) {limit : Nat} (within : solids ls.p ≤ limit)
    (positive : 0 < limit) : solids (ls.matchChar c).consumeTillEnd.1 < limit := by
  by_cases found : ls.skipSpaces.current = c
  · have behind : (ls.matchChar c).p = (ls.skipSpaces.skip 1).p := rfl
    refine (solids_le_of_sublist (consumeTillEnd_sublist _)).trans_lt ?_
    rw [behind]
    exact (solids_skip_lt found nonzero solid).trans_le
      ((solids_le_of_sublist ls.skipSpaces_suffix.sublist).trans within)
  · rw [consumeTillEnd_failed (decide_eq_true found)]
    exact positive

end LineScanner

namespace ConfParser

/-! ### What a round stores -/

/-- What a round stores. It is read off a round that starts with nothing stored. -/
def storedBy (s : ConfParser) (ln : List UInt8) : List ConfEntry :=
  let next := parseLine { s with values := OrderedMap.empty } ln
  ((next.values.find (makeKey next.sectionName next.key)).getD []).map fun value =>
    ⟨next.sectionName, next.key, value⟩

/-- The value that a line stores was cut out of it, and not from its beginning. -/
def CutFrom (ln value : List UInt8) : Prop :=
  solids value ≤ solids ln ∧ (isSpace (ln.headD 0) = false → solids value < solids ln)

/-- A round either stores nothing, whatever is stored already, or one value under the section and
the key behind it. -/
theorem parseLine_cases (s : ConfParser) (ln : List UInt8) :
    (∀ values, parseLine { s with values := values } ln =
      { s.parseLine ln with values := values }) ∨
    ∃ value, CutFrom ln value ∧ ∀ values, parseLine { s with values := values } ln =
      { s.parseLine ln with
        values := values.pushBack (makeKey (s.parseLine ln).sectionName (s.parseLine ln).key)
          value } := by
  have within : solids (cStr ln) ≤ solids ln := solids_le_of_sublist (List.takeWhile_sublist _)
  have scanned : solids (LineScanner.peekChar ⟨cStr ln, false⟩).2.p ≤ solids ln :=
    (solids_le_of_sublist (LineScanner.skipSpaces_suffix _).sublist).trans within
  have emptyLine : ln = [] → (LineScanner.peekChar ⟨cStr ln, false⟩).1 = 0 := by
    rintro rfl
    rfl
  unfold parseLine
  dsimp only
  generalize (LineScanner.peekChar ⟨cStr ln, false⟩).1 = c at emptyLine ⊢
  generalize (LineScanner.peekChar ⟨cStr ln, false⟩).2 = ls at scanned ⊢
  by_cases skipped : c = 59 ∨ c = 35 ∨ c = 0
  · simp only [if_pos skipped]
    exact .inl fun _ => trivial
  simp only [if_neg skipped]
  by_cases bracket : c = 91
  · simp only [if_pos bracket]
    exact .inl fun _ => trivial
  simp only [if_neg bracket]
  by_cases indented : isSpace (ln.headD 0) = true
  · simp only [if_pos indented]
    by_cases keyed : s.key ≠ []
    · simp only [if_pos keyed]
      refine .inr ⟨(ls.consumeTill 0).1, ⟨?_, fun solid => ?_⟩, fun values => rfl⟩
      · exact (solids_le_of_sublist (ls.consumeTill_sublist 0)).trans scanned
      · rw [indented] at solid
        cases solid
    · simp only [if_neg keyed]
      exact .inl fun _ => trivial
  simp only [if_neg indented]
  by_cases equals : (ls.consumeTill 61).2.peekChar.1 = 61
  · simp only [if_pos equals]
    have cut := ((ls.consumeTill 61).2.solids_value_lt equals (by decide) rfl).trans_le
      ((solids_le_of_sublist (ls.consumeTill_suffix 61).sublist).trans scanned)
    exact .inr ⟨_, ⟨cut.le, fun _ => cut⟩, fun _ => rfl⟩
  · simp only [if_neg equals]
    have positive : 0 < solids ln := by
      obtain ⟨byte, rest, rfl⟩ := List.exists_cons_of_ne_nil
        fun empty => skipped (.inr (.inr (emptyLine empty)))
      have solid : isSpace byte = false := Bool.eq_false_iff.mpr indented
      rw [solids_cons_of_solid solid]
      exact Nat.succ_pos _
    have cut := LineScanner.solids_matched_lt (c := 58) (by decide) rfl
      ((solids_le_of_sublist (ls.consumeTill_suffix 58).sublist).trans scanned) positive
    exact .inr ⟨_, ⟨cut.le, fun _ => cut⟩, fun _ => rfl⟩

/-- What a round stores is appended to what is stored already. -/
theorem parseLine_values (s : ConfParser) (ln : List UInt8) :
    (s.parseLine ln).values = s.values.pushAll ((s.storedBy ln).map ConfEntry.keyed) ∧
      ∀ entry ∈ s.storedBy ln, CutFrom ln entry.value := by
  have same : { s with values := s.values } = s := rfl
  unfold storedBy
  dsimp only
  rcases parseLine_cases s ln with stays | ⟨value, cut, pushes⟩
  · have kept := congrArg ConfParser.values (stays s.values)
    rw [same] at kept
    rw [stays OrderedMap.empty]
    simp only [OrderedMap.find_empty, Option.getD_none, List.map_nil, List.not_mem_nil,
      false_implies, implies_true, and_true]
    exact kept
  · have pushed := congrArg ConfParser.values (pushes s.values)
    rw [same] at pushed
    have alone := OrderedMap.getD_find_pushBack OrderedMap.empty
      (makeKey (s.parseLine ln).sectionName (s.parseLine ln).key)
      (makeKey (s.parseLine ln).sectionName (s.parseLine ln).key) value
    rw [OrderedMap.find_empty, if_pos rfl] at alone
    rw [pushes OrderedMap.empty]
    dsimp only
    rw [alone]
    refine ⟨pushed, fun entry member => ?_⟩
    obtain rfl := List.mem_singleton.mp member
    exact cut

/-- What the rounds of the loop store, in their order. -/
def storedLines : Nat → List UInt8 → ConfParser → List ConfEntry
  | 0, _, _ => []
  | fuel + 1, file, s =>
    if s.err = true ∨ file = [] then []
    else s.storedBy (fgets (maxLine - 1) file).1 ++
      storedLines fuel (fgets (maxLine - 1) file).2 (s.parseLine (fgets (maxLine - 1) file).1)

theorem parseLines_values (fuel : Nat) (file : List UInt8) (s : ConfParser) :
    (parseLines fuel file s).values =
      s.values.pushAll ((storedLines fuel file s).map ConfEntry.keyed) := by
  induction fuel generalizing file s with
  | zero => rfl
  | succ fuel inductionHypothesis =>
    rw [parseLines, storedLines]
    split
    · rfl
    · rw [inductionHypothesis, (s.parseLine_values _).1, List.map_append,
        OrderedMap.pushAll_append]

end ConfParser

end YYNet
