/-
This file proves when the entries of a configuration do not alias.

An entry is stored under one text, its section and its name in lower case with a
dot between them. A section may contain dots, and so may a name, so the text
does not say which dot is the one that was put there. A lookup finds the entries
of every pair that has the same text: its own, and those of the pairs from which
it differs by the dot alone.
-/

import YYNet.Net.ConfigStored

namespace YYNet

/-! ### Lookups of numbers and flags -/

/-- The value of a digit in a base up to 36, and 36 for any other byte. -/
def digitOf (byte : UInt8) : Nat :=
  if 48 ≤ byte ∧ byte ≤ 57 then byte.toNat - 48
  else if 97 ≤ byte ∧ byte ≤ 122 then byte.toNat - 87
  else if 65 ≤ byte ∧ byte ≤ 90 then byte.toNat - 55
  else 36

/-- The number that a text starts with in a base, if it starts with a digit. -/
def magnitude (base : Nat) (bytes : List UInt8) : Option Nat :=
  match bytes.takeWhile fun byte => decide (digitOf byte < base) with
  | [] => none
  | first :: rest => some ((first :: rest).foldl (fun sum byte => base * sum + digitOf byte) 0)

/-- The number that a text starts with, in the base that the text names: 16 behind `0x`, 8 behind
`0`, and else 10. -/
def prefixedMagnitude (bytes : List UInt8) : Option Nat :=
  match bytes with
  | 48 :: mark :: digits =>
    if (mark = 120 ∨ mark = 88) ∧ (magnitude 16 digits).isSome then magnitude 16 digits
    else magnitude 8 (48 :: mark :: digits)
  | 48 :: [] => magnitude 8 [48]
  | other => magnitude 10 other

/-- `strtol` with base 0, which finds no number where `end` stays at the beginning. -/
def strtolPrefixed (bytes : List UInt8) : Option Int :=
  match bytes.dropWhile isSpace with
  | 45 :: digits => (prefixedMagnitude digits).map fun number => max (-2 ^ 63) (-(number : Int))
  | 43 :: digits => (prefixedMagnitude digits).map fun number => min (2 ^ 63 - 1) (number : Int)
  | digits => (prefixedMagnitude digits).map fun number => min (2 ^ 63 - 1) (number : Int)

/-- What `getInteger` makes of a value. -/
def integerOf (value : List UInt8) (defaultValue : Int) : Int :=
  (strtolPrefixed (cStr value)).getD defaultValue

/-- What `getBoolean` makes of a value. -/
def booleanOf (value : List UInt8) (defaultValue : Bool) : Bool :=
  let lower := value.map toLower
  if lower = text "true" ∨ lower = text "yes" ∨ lower = text "on" ∨ lower = text "1" then true
  else if lower = text "false" ∨ lower = text "no" ∨ lower = text "off" ∨ lower = text "0" then
    false
  else defaultValue

namespace Conf

/-- `getInteger`. -/
def getInteger (conf : Conf) (sectionName name : List UInt8) (defaultValue : Int) : Int :=
  integerOf (conf.get sectionName name []) defaultValue

/-- `getBoolean`. -/
def getBoolean (conf : Conf) (sectionName name : List UInt8) (defaultValue : Bool) : Bool :=
  booleanOf (conf.get sectionName name []) defaultValue

/-! ### What several files store -/

/-- A configuration behind calls of `parse`, each with the name of its file and what `fopen`
finds. -/
def parsed (files : List (List UInt8 × Option (List UInt8))) : Conf :=
  files.foldl (fun conf file => (conf.parse (fun _ => file.2) file.1).2) empty

/-- The entries that a file stores. -/
def storedIn (file : List UInt8) : List ConfEntry :=
  ConfParser.storedLines file.length file ⟨OrderedMap.empty, [], [], false, 0⟩

/-- The entries that all files store, in their order. -/
def storedInAll (files : List (List UInt8 × Option (List UInt8))) : List ConfEntry :=
  files.flatMap fun file => (file.2.map storedIn).getD []

end Conf

/-- What a file stores does not depend on what is stored already. -/
theorem ConfParser.storedLines_values (fuel : Nat) (file : List UInt8) (s : ConfParser)
    (values : ConfValues) :
    storedLines fuel file { s with values := values } = storedLines fuel file s := by
  induction fuel generalizing file s values with
  | zero => rfl
  | succ fuel inductionHypothesis =>
    rw [storedLines, storedLines]
    have same (ln : List UInt8) : ∃ next, parseLine { s with values := values } ln =
        { s.parseLine ln with values := next } := by
      rcases parseLine_cases s ln with stays | ⟨value, -, pushes⟩
      · exact ⟨_, stays values⟩
      · exact ⟨_, pushes values⟩
    obtain ⟨next, moved⟩ := same (fgets (maxLine - 1) file).1
    rw [moved, inductionHypothesis]
    rfl

namespace Conf

theorem parse_values (conf : Conf) (file : List UInt8 × Option (List UInt8)) :
    (conf.parse (fun _ => file.2) file.1).2.values =
      conf.values.pushAll (((file.2.map storedIn).getD []).map ConfEntry.keyed) := by
  obtain ⟨filename, found⟩ := file
  cases found with
  | none => rfl
  | some file =>
    have stored := ConfParser.parseLines_values file.length file
      ⟨conf.values, [], [], false, 0⟩
    have same := ConfParser.storedLines_values file.length file
      ⟨OrderedMap.empty, [], [], false, 0⟩ conf.values
    rw [same] at stored
    exact stored

theorem parsed_values (files : List (List UInt8 × Option (List UInt8))) :
    (parsed files).values =
      OrderedMap.empty.pushAll ((storedInAll files).map ConfEntry.keyed) := by
  induction files using List.reverseRecOn with
  | nil => rfl
  | append_singleton files file inductionHypothesis =>
    have last : parsed (files ++ [file]) =
        ((parsed files).parse (fun _ => file.2) file.1).2 := by
      rw [parsed, List.foldl_append]
      rfl
    rw [last, parse_values, inductionHypothesis, ← OrderedMap.pushAll_append, ← List.map_append]
    simp [storedInAll]

/-- A lookup finds every entry whose section and name make the same text. -/
theorem getStrings_parsed (files : List (List UInt8 × Option (List UInt8)))
    (sectionName name : List UInt8) :
    (parsed files).getStrings sectionName name =
      ((storedInAll files).filter fun entry =>
        makeKey entry.sectionName entry.name = makeKey sectionName name).map ConfEntry.value := by
  unfold getStrings
  rw [parsed_values, OrderedMap.getD_find_pushAll, OrderedMap.find_empty, List.filter_map,
    List.map_map]
  simp only [Option.getD_none, List.nil_append]
  refine congrArg (List.map ConfEntry.value) (List.filter_congr fun entry _ => ?_)
  exact decide_eq_decide.mpr Iff.rfl

end Conf

/-! ### Keys that collide -/

/-- The entry was stored under this section and name, in either case. -/
def ConfEntry.Of (entry : ConfEntry) (sectionName name : List UInt8) : Prop :=
  entry.sectionName.map toLower = sectionName.map toLower ∧
    entry.name.map toLower = name.map toLower

instance confEntryOfDecidable (entry : ConfEntry) (sectionName name : List UInt8) :
    Decidable (entry.Of sectionName name) :=
  inferInstanceAs (Decidable (_ ∧ _))

/-- Some text and a dot end the one section and begin the other name. -/
def DotMoved (sectionName name otherSection otherName : List UInt8) : Prop :=
  ∃ middle, otherSection.map toLower = sectionName.map toLower ++ 46 :: middle ∧
    name.map toLower = middle ++ 46 :: otherName.map toLower

/-- Two pairs with one key are equal but for the case of letters, or differ by the dot. -/
theorem makeKey_collides_iff (entry : ConfEntry) (sectionName name : List UInt8) :
    makeKey entry.sectionName entry.name = makeKey sectionName name ↔
      entry.Of sectionName name ∨ DotMoved sectionName name entry.sectionName entry.name ∨
        DotMoved entry.sectionName entry.name sectionName name := by
  unfold ConfEntry.Of DotMoved
  rw [makeKey_parts, makeKey_parts]
  generalize entry.sectionName.map toLower = section₁
  generalize entry.name.map toLower = name₁
  generalize sectionName.map toLower = section₂
  generalize name.map toLower = name₂
  constructor
  · intro same
    rcases List.append_eq_append_iff.mp same with ⟨middle, front, back⟩ | ⟨middle, front, back⟩
    · cases middle with
      | nil =>
        rw [List.append_nil] at front
        exact .inl ⟨front.symm, (List.cons.inj back).2⟩
      | cons dot middle =>
        obtain ⟨rfl, isName⟩ := List.cons.inj back
        exact .inr (.inr ⟨middle, front, isName⟩)
    · cases middle with
      | nil =>
        rw [List.append_nil] at front
        exact .inl ⟨front, (List.cons.inj back).2.symm⟩
      | cons dot middle =>
        obtain ⟨rfl, isName⟩ := List.cons.inj back
        exact .inr (.inl ⟨middle, front, isName⟩)
  · rintro (⟨rfl, rfl⟩ | ⟨middle, rfl, rfl⟩ | ⟨middle, rfl, rfl⟩)
    · rfl
    · simp
    · simp

/-- Pairs that differ by the dot are not equal. -/
theorem DotMoved.not_of {sectionName name otherSection otherName : List UInt8}
    (moved : DotMoved sectionName name otherSection otherName) :
    otherSection.map toLower ≠ sectionName.map toLower := by
  obtain ⟨middle, longer, -⟩ := moved
  intro same
  rw [same] at longer
  have size := congrArg List.length longer
  simp at size

namespace Conf

/-! ### When lookups see their own entries only -/

/-- All four lookups of a section and a name see the entries that were stored under it, and no
others. -/
def SeesOwnOnly (files : List (List UInt8 × Option (List UInt8)))
    (sectionName name : List UInt8) : Prop :=
  let own := ((storedInAll files).filter (·.Of sectionName name)).map ConfEntry.value
  (parsed files).getStrings sectionName name = own ∧
    (∀ defaultValue,
      (parsed files).get sectionName name defaultValue = own.getLastD defaultValue) ∧
    (∀ defaultValue, (parsed files).getInteger sectionName name defaultValue =
      integerOf (own.getLastD []) defaultValue) ∧
    ∀ defaultValue, (parsed files).getBoolean sectionName name defaultValue =
      booleanOf (own.getLastD []) defaultValue

/-- The lookups follow `getStrings`. -/
theorem seesOwnOnly_iff_getStrings (files : List (List UInt8 × Option (List UInt8)))
    (sectionName name : List UInt8) :
    SeesOwnOnly files sectionName name ↔ (parsed files).getStrings sectionName name =
      ((storedInAll files).filter (·.Of sectionName name)).map ConfEntry.value := by
  refine ⟨fun sees => sees.1, fun same => ⟨same, fun defaultValue => ?_, fun defaultValue => ?_,
    fun defaultValue => ?_⟩⟩
  · rw [get_eq_getLastD, same]
  · rw [getInteger, get_eq_getLastD, same]
  · rw [getBoolean, get_eq_getLastD, same]

/-- Whatever the files, the lookups of a section and a name return nothing that was stored under
another pair exactly when nothing was stored under a pair that differs from it by the dot. -/
theorem seesOwnOnly_iff (files : List (List UInt8 × Option (List UInt8)))
    (sectionName name : List UInt8) :
    SeesOwnOnly files sectionName name ↔ ∀ entry ∈ storedInAll files,
      ¬ DotMoved sectionName name entry.sectionName entry.name ∧
        ¬ DotMoved entry.sectionName entry.name sectionName name := by
  rw [seesOwnOnly_iff_getStrings, getStrings_parsed]
  have own_of_filter : (storedInAll files).filter (·.Of sectionName name) =
      ((storedInAll files).filter fun entry =>
        makeKey entry.sectionName entry.name = makeKey sectionName name).filter
        (·.Of sectionName name) := by
    rw [List.filter_filter]
    refine List.filter_congr fun entry _ => ?_
    rw [← Bool.decide_and]
    refine decide_eq_decide.mpr ⟨fun own => ⟨own, ?_⟩, And.left⟩
    exact (makeKey_collides_iff entry sectionName name).mpr (.inl own)
  constructor
  · intro same entry stored
    have sizes := congrArg List.length same
    rw [List.length_map, List.length_map, own_of_filter] at sizes
    have all := List.length_filter_eq_length_iff.mp sizes.symm
    have never (moved : DotMoved sectionName name entry.sectionName entry.name ∨
        DotMoved entry.sectionName entry.name sectionName name) : entry.Of sectionName name :=
      of_decide_eq_true (all entry (List.mem_filter.mpr ⟨stored, decide_eq_true
        ((makeKey_collides_iff entry sectionName name).mpr (.inr moved))⟩))
    exact ⟨fun moved => moved.not_of (never (.inl moved)).1,
      fun moved => moved.not_of (never (.inr moved)).1.symm⟩
  · intro apart
    refine congrArg _ (List.filter_congr fun entry stored => decide_eq_decide.mpr ?_)
    rw [makeKey_collides_iff]
    obtain ⟨notFirst, notSecond⟩ := apart entry stored
    exact ⟨fun found => found.resolve_right fun moved => moved.elim notFirst notSecond, .inl⟩

/-- A file with one entry in a section with a dot. -/
def dottedFile : List UInt8 := text "[a.b]\nc=1\n"

/-- The entry `c` of the section `a.b` is returned for the name `b.c` of the section `a`, under
which nothing was stored. -/
theorem not_seesOwnOnly_dotted :
    storedInAll [([], some dottedFile)] = [⟨text "a.b", text "c", text "1"⟩] ∧
      (parsed [([], some dottedFile)]).getStrings (text "a") (text "b.c") = [text "1"] ∧
      (parsed [([], some dottedFile)]).getInteger (text "a") (text "b.c") 0 = 1 ∧
      (parsed [([], some dottedFile)]).getBoolean (text "a") (text "b.c") false = true ∧
      ¬ SeesOwnOnly [([], some dottedFile)] (text "a") (text "b.c") := by
  have stored : storedInAll [([], some dottedFile)] = [⟨text "a.b", text "c", text "1"⟩] := by
    decide
  have found : (parsed [([], some dottedFile)]).getStrings (text "a") (text "b.c") = [text "1"] := by
    decide
  refine ⟨stored, found, by decide, by decide, fun sees => ?_⟩
  have own := sees.1
  rw [found, stored] at own
  revert own
  decide

end Conf

end YYNet
