/-
This file proves when a value with blanks in it survives the parser.

The scan for the end of a value stops behind the first blank, where it should
only remember it, so that of a value with blanks the first word is stored. A
continuation line is read by another scan and is stored whole.

The file around the entry is arbitrary. What is behind a line that was read in
pieces may be stored under another section, or another name, than it says, but
never under those of the entry.
-/

import YYNet.Net.ConfigAlias
import YYNet.Net.ConfigPieces

namespace YYNet

/-! ### Files with one entry in view -/

/-- A file with an entry: the lines in front of the header of its section, the lines between the
header and the entry, and the lines behind the entry, if it is not the end of the file. -/
structure EntryFile where
  before : List ConfLine
  sectionName : List UInt8
  between : List ConfLine
  name : List UInt8
  value : List UInt8
  after : Option (List ConfLine)

namespace EntryFile

/-- The header of the section. -/
def header (file : EntryFile) : List UInt8 := 91 :: (file.sectionName ++ [93])

def bytes (file : EntryFile) : List UInt8 :=
  ended file.before ++ (file.header ++ behind (some
    (ended file.between ++ (entryLine file.name file.value ++
      behind (file.after.map fileBytes)))))

/-- The lines behind the entry. -/
def rest (file : EntryFile) : List ConfLine := file.after.getD []

/-- What is said in front of the entry. -/
def earlier (file : EntryFile) : List ConfEntry :=
  meaning [] [] file.before ++ meaning file.sectionName [] file.between

/-- The section, the name and the value are as they should be, the other lines are well-formed, and
what the section and the name have in front of the value is another value, and behind it nothing. -/
structure WellFormed (file : EntryFile) : Prop where
  beforeLines : ∀ line ∈ file.before, line.WellFormed
  beforeAttached : Attached false file.before
  nameable : Nameable file.sectionName
  sectionOneLine : OneLine file.sectionName
  betweenLines : ∀ line ∈ file.between, line.WellFormed
  betweenAttached : Attached false file.between
  sameSection : ∀ indent name trailing, .header indent name trailing ∉ file.between
  isName : NameText file.name
  isValue : ValueText file.value
  restLines : ∀ line ∈ file.rest, line.WellFormed
  restAttached : Attached true file.rest
  others : ∀ entry ∈ file.earlier, entry.Of file.sectionName file.name → entry.value ≠ file.value
  final : ∀ entry ∈ meaning file.sectionName file.name file.rest,
    ¬ entry.Of file.sectionName file.name

/-- Behind `parse`, the value is what `get` returns. -/
def Survives (file : EntryFile) : Prop :=
  ∀ defaultValue, (Conf.empty.parse (fun _ => some file.bytes) []).2.get file.sectionName file.name
    defaultValue = file.value

end EntryFile

/-! ### What lookups find -/

/-- Without dots in a section and a name, an entry is stored under their key if it is theirs. -/
theorem ConfEntry.keyed_fst_iff {sectionName name : List UInt8} (noDotSection : 46 ∉ sectionName)
    (noDotName : 46 ∉ name) (entry : ConfEntry) :
    entry.keyed.1 = makeKey sectionName name ↔ entry.Of sectionName name := by
  rw [eq_comm]
  refine (makeKey_eq_iff noDotSection noDotName).trans ?_
  exact and_congr eq_comm eq_comm

namespace Conf

/-- `get` returns the last value that was stored under a section and a name. -/
theorem get_pushAll (stored : List (List UInt8 × List UInt8)) (filename sectionName name
    defaultValue : List UInt8) :
    (Conf.mk (OrderedMap.empty.pushAll stored) filename).get sectionName name defaultValue =
      ((stored.filter fun pair => pair.1 = makeKey sectionName name).map Prod.snd).getLastD
        defaultValue := by
  rw [get_eq_getLastD, getStrings, OrderedMap.getD_find_pushAll, OrderedMap.find_empty,
    Option.getD_none, List.nil_append]
  refine congrArg (fun found : List (List UInt8 × List UInt8) =>
    (found.map Prod.snd).getLastD defaultValue) (List.filter_congr fun pair _ => ?_)
  exact decide_eq_decide.mpr Iff.rfl

/-- A value behind which nothing is stored under its key. -/
theorem get_last {front back : List (List UInt8 × List UInt8)} {sectionName name : List UInt8}
    (final : ∀ pair ∈ back, pair.1 ≠ makeKey sectionName name)
    (value filename defaultValue : List UInt8) :
    (Conf.mk (OrderedMap.empty.pushAll (front ++ [(makeKey sectionName name, value)] ++ back))
      filename).get sectionName name defaultValue = value := by
  have nothing : back.filter (fun pair => pair.1 = makeKey sectionName name) = [] :=
    List.filter_eq_nil_iff.mpr fun pair member => by simpa using final pair member
  rw [get_pushAll, List.filter_append, List.filter_append, nothing]
  simp

/-- A value that is not stored under its key. -/
theorem get_ne {stored : List (List UInt8 × List UInt8)} {sectionName name value : List UInt8}
    (others : ∀ pair ∈ stored, pair.1 = makeKey sectionName name → pair.2 ≠ value)
    (nonempty : value ≠ []) (filename : List UInt8) :
    (Conf.mk (OrderedMap.empty.pushAll stored) filename).get sectionName name [] ≠ value := by
  rw [get_pushAll]
  generalize matching : stored.filter (fun pair => pair.1 = makeKey sectionName name) = found
  rcases List.eq_nil_or_concat' found with rfl | ⟨init, last, rfl⟩
  · exact nonempty.symm
  · have member : last ∈ stored.filter (fun pair => pair.1 = makeKey sectionName name) := by
      rw [matching]
      exact List.mem_append_right _ (List.mem_singleton_self last)
    obtain ⟨stored, isKey⟩ := List.mem_filter.mp member
    have isLast : ((init ++ [last]).map Prod.snd).getLastD [] = last.2 := by simp
    rw [isLast]
    exact others last stored (of_decide_eq_true isKey)

end Conf

/-! ### Lines around the entry -/

/-- Lines that say nothing about a name do not begin with a continuation of it. -/
theorem Attached.of_silent {lines : List ConfLine} {sectionName name : List UInt8}
    (attached : Attached true lines)
    (silent : ∀ entry ∈ meaning sectionName name lines, ¬ entry.Of sectionName name)
    (entered : Bool) : Attached entered lines := by
  induction lines with
  | nil => trivial
  | cons line rest inductionHypothesis =>
    cases line with
    | blank | comment => exact inductionHypothesis attached silent
    | header | entry => exact attached
    | continuation => exact absurd ⟨rfl, rfl⟩ (silent _ List.mem_cons_self)

/-- Lines that say nothing about a section and a name store nothing under their key, whatever the
section and the name behind which they are read. -/
theorem keyed_ne_of_silent {lines : List ConfLine} {sectionName name : List UInt8}
    (noDotSection : 46 ∉ sectionName) (noDotName : 46 ∉ name) (otherSection : List UInt8)
    {key otherKey : List UInt8} (tracks : key = name ∨ key = otherKey)
    (silent : ∀ entry ∈ meaning sectionName key lines, ¬ entry.Of sectionName name) :
    ∀ entry ∈ meaning otherSection otherKey lines, entry.keyed.1 ≠ makeKey sectionName name := by
  have isOf := ConfEntry.keyed_fst_iff noDotSection noDotName
  induction lines generalizing key otherKey with
  | nil => nofun
  | cons line rest inductionHypothesis =>
    cases line with
    | blank | comment => exact inductionHypothesis tracks silent
    | header indent other trailing =>
      exact fun entry member => mt (isOf entry).mp (silent entry member)
    | entry other before separator after value trailing =>
      obtain ⟨here, later⟩ := List.forall_mem_cons.mp silent
      refine List.forall_mem_cons.mpr ⟨fun same => ?_, inductionHypothesis (.inr rfl) later⟩
      exact here ⟨rfl, ((isOf _).mp same).2⟩
    | continuation indent continued trailing =>
      obtain ⟨here, later⟩ := List.forall_mem_cons.mp silent
      rcases tracks with rfl | rfl
      · exact absurd ⟨rfl, rfl⟩ here
      · refine List.forall_mem_cons.mpr ⟨fun same => ?_, inductionHypothesis (.inr rfl) later⟩
        exact here ⟨rfl, ((isOf _).mp same).2⟩

namespace ConfParser

/-- Lines without a header stay in their section. -/
theorem foldl_enter_sectionName {lines : List ConfLine}
    (sameSection : ∀ indent name trailing, .header indent name trailing ∉ lines)
    (s : ConfParser) : (lines.foldl enter s).sectionName = s.sectionName := by
  induction lines generalizing s with
  | nil => rfl
  | cons line rest inductionHypothesis =>
    rw [List.foldl_cons, inductionHypothesis fun indent name trailing member =>
      sameSection indent name trailing (List.mem_cons_of_mem _ member)]
    cases line with
    | header indent name trailing =>
      exact absurd List.mem_cons_self (sameSection indent name trailing)
    | blank | comment | entry | continuation => rfl

/-- A header that fits into the buffer. -/
theorem parseRest_header {s : ConfParser} (running : s.err = false) {sectionName : List UInt8}
    (nameable : Nameable sectionName) (oneLine : OneLine (91 :: (sectionName ++ [93])))
    (fits : sectionName.length + 2 ≤ maxLine - 1) (rest : List UInt8) :
    ∃ count, parseRest (91 :: (sectionName ++ [93]) ++ behind (some rest)) s =
      parseRest rest
        { s with lineno := count, sectionName := sectionName, err := false, key := [] } := by
  have short : (91 :: (sectionName ++ [93])).length ≤ maxLine - 1 := by
    rw [List.length_cons, List.length_append]
    exact fits
  obtain ⟨ending, blank, -, goesOn⟩ := parseRest_whole running (List.cons_ne_nil 91 _)
    oneLine.no_newline short (some rest)
  have clean := oneLine.append_blank blank
  have bytes : 91 :: (sectionName ++ [93]) ++ ending =
      [] ++ 91 :: (sectionName ++ 93 :: ending) := by simp
  rw [bytes] at clean goesOn
  rw [parseLine_header s clean nofun nameable] at goesOn
  exact goesOn rfl

/-- A header that does not ends the parsing. -/
theorem parseRest_header_cut {s : ConfParser} (running : s.err = false) {sectionName : List UInt8}
    (nameable : Nameable sectionName) (oneLine : OneLine (91 :: (sectionName ++ [93])))
    (long : maxLine - 1 < sectionName.length + 2) (rest : List UInt8) :
    (parseRest (91 :: (sectionName ++ [93]) ++ behind (some rest)) s).values = s.values := by
  have isSize : maxLine = 16384 := rfl
  have atMost : maxLine - 2 ≤ sectionName.length := by omega
  have size : (91 :: sectionName.take (maxLine - 2)).length = maxLine - 1 := by
    rw [List.length_cons, List.length_take_of_le atMost]
    rfl
  have bytes : 91 :: (sectionName ++ [93]) ++ behind (some rest) =
      91 :: sectionName.take (maxLine - 2) ++
        (sectionName.drop (maxLine - 2) ++ (93 :: behind (some rest))) := by
    simp only [List.cons_append, List.append_assoc, List.nil_append]
    rw [← List.append_assoc (sectionName.take (maxLine - 2)), List.take_append_drop]
  have taken := List.take_subset (maxLine - 2) sectionName
  have pieceOneLine : OneLine (91 :: sectionName.take (maxLine - 2)) :=
    oneLine.of_subset (List.cons_subset_cons 91 (List.Subset.trans taken
      (List.subset_append_left _ _)))
  have failed : (s.parseLine (91 :: sectionName.take (maxLine - 2))).err = true := by
    refine parseLine_unclosed s (fun member => ?_) ?_ (fun byte member => ?_) (fun member => ?_)
    · exact pieceOneLine.no_null (List.mem_cons_of_mem _ member)
    · intro empty
      rw [empty] at size
      exact absurd size (by decide)
    · rw [List.head?_take, if_neg (by decide)] at member
      exact nameable.1.solid byte member
    · exact nameable.not_mem rfl (taken member)
  rw [bytes, parseRest_step running (List.append_ne_nil_of_left_ne_nil (List.cons_ne_nil 91 _) _),
    fgets_full pieceOneLine.no_newline size, parseRest_stopped failed]
  exact parseLine_bracket s (show Blank [] from nofun) pieceOneLine.no_null

end ConfParser

/-! ### When a value survives -/

namespace EntryFile

theorem WellFormed.header_oneLine {file : EntryFile} (wellFormed : file.WellFormed) :
    OneLine file.header :=
  List.forall_mem_cons.mpr ⟨by decide, List.forall_mem_append.mpr
    ⟨wellFormed.sectionOneLine, List.forall_mem_singleton.mpr (by decide)⟩⟩

theorem WellFormed.noDotSection {file : EntryFile} (wellFormed : file.WellFormed) :
    46 ∉ file.sectionName := wellFormed.nameable.not_mem rfl

theorem WellFormed.noDotName {file : EntryFile} (wellFormed : file.WellFormed) :
    46 ∉ file.name := wellFormed.isName.nameable.not_mem rfl

/-- The variables of `parse` at first. -/
def start : ConfParser := ⟨OrderedMap.empty, [], [], false, 0⟩

theorem parse_bytes (file : EntryFile) :
    (Conf.empty.parse (fun _ => some file.bytes) []).2 =
      ⟨(ConfParser.parseRest file.bytes start).values, []⟩ := rfl

/-- The lines in front of the header. -/
theorem WellFormed.read_before {file : EntryFile} (wellFormed : file.WellFormed) :
    ∃ s : ConfParser, s.err = false ∧
      s.values = OrderedMap.empty.pushAll ((meaning [] [] file.before).map ConfEntry.keyed) ∧
      ConfParser.parseRest file.bytes start = ConfParser.parseRest (file.header ++ behind (some
        (ended file.between ++ (entryLine file.name file.value ++
          behind (file.after.map fileBytes))))) s := by
  have attached : Attached (decide (start.key ≠ [])) (file.before ++ []) := by
    rw [List.append_nil]
    exact wellFormed.beforeAttached
  obtain ⟨read, running, -⟩ := ConfParser.parseRest_ended file.before wellFormed.beforeLines
    (show start.err = false from rfl) attached (file.header ++ behind (some
      (ended file.between ++ (entryLine file.name file.value ++
        behind (file.after.map fileBytes)))))
  exact ⟨_, running, ConfParser.foldl_enter_values _ _, read⟩

/-- The lines in front of the entry, if the header fits. -/
theorem WellFormed.read_earlier {file : EntryFile} (wellFormed : file.WellFormed)
    (fits : file.sectionName.length + 2 ≤ maxLine - 1) :
    ∃ s : ConfParser, s.err = false ∧ s.sectionName = file.sectionName ∧
      s.values = OrderedMap.empty.pushAll (file.earlier.map ConfEntry.keyed) ∧
      ConfParser.parseRest file.bytes start = ConfParser.parseRest
        (entryLine file.name file.value ++ behind (file.after.map fileBytes)) s := by
  obtain ⟨s, running, values, read⟩ := wellFormed.read_before
  obtain ⟨count, headerRead⟩ := ConfParser.parseRest_header running wellFormed.nameable
    wellFormed.header_oneLine fits (ended file.between ++
      (entryLine file.name file.value ++ behind (file.after.map fileBytes)))
  generalize isNext : ConfParser.mk s.values file.sectionName [] false count = next at headerRead
  have attached : Attached (decide (next.key ≠ [])) (file.between ++ []) := by
    subst isNext
    rw [List.append_nil]
    exact wellFormed.betweenAttached
  have goes : next.err = false := isNext ▸ rfl
  obtain ⟨betweenRead, stays, -⟩ := ConfParser.parseRest_ended file.between
    wellFormed.betweenLines goes attached
    (entryLine file.name file.value ++ behind (file.after.map fileBytes))
  refine ⟨file.between.foldl ConfParser.enter next, stays, ?_, ?_, ?_⟩
  · rw [ConfParser.foldl_enter_sectionName wellFormed.sameSection, ← isNext]
  · rw [ConfParser.foldl_enter_values, ← isNext, values, ← OrderedMap.pushAll_append,
      ← List.map_append]
    rfl
  · exact read.trans (headerRead.trans betweenRead)

/-- The lines behind the entry, whatever the section and the name behind which they are read. -/
theorem WellFormed.read_rest {file : EntryFile} (wellFormed : file.WellFormed) {s : ConfParser}
    (running : s.err = false) :
    (ConfParser.parseRest ((file.after.map fileBytes).getD []) s).values = s.values.pushAll
      ((meaning s.sectionName s.key file.rest).map ConfEntry.keyed) := by
  have bytes : (file.after.map fileBytes).getD [] = fileBytes file.rest := by
    unfold rest
    cases file.after <;> rfl
  rw [bytes]
  exact (ConfParser.parseRest_meaning file.rest wellFormed.restLines running
    (wellFormed.restAttached.of_silent wellFormed.final _)).2

/-- What they store is not stored under the key of the entry. -/
theorem WellFormed.rest_ne {file : EntryFile} (wellFormed : file.WellFormed)
    (otherSection otherName : List UInt8) :
    ∀ pair ∈ (meaning otherSection otherName file.rest).map ConfEntry.keyed,
      pair.1 ≠ makeKey file.sectionName file.name :=
  List.forall_mem_map.mpr (keyed_ne_of_silent wellFormed.noDotSection wellFormed.noDotName
    otherSection (.inl rfl) wellFormed.final)

/-- What is stored in front of the entry is not its value. -/
theorem WellFormed.earlier_ne {file : EntryFile} (wellFormed : file.WellFormed) :
    ∀ pair ∈ file.earlier.map ConfEntry.keyed,
      pair.1 = makeKey file.sectionName file.name → pair.2 ≠ file.value :=
  List.forall_mem_map.mpr fun entry member same => wellFormed.others entry member
    ((entry.keyed_fst_iff wellFormed.noDotSection wellFormed.noDotName).mp same)

theorem WellFormed.survives {file : EntryFile} (wellFormed : file.WellFormed)
    (fits : file.sectionName.length + 2 ≤ maxLine - 1) (keeps : KeepsLine file.name file.value) :
    file.Survives := by
  intro defaultValue
  obtain ⟨s, running, inSection, values, read⟩ := wellFormed.read_earlier fits
  obtain ⟨next, before, goes, -, -, nextValues, lineRead⟩ := ConfParser.parseRest_kept running
    wellFormed.isName wellFormed.isValue keeps (file.after.map fileBytes)
  have stored := wellFormed.read_rest goes
  rw [nextValues, values, inSection, ← OrderedMap.pushAll_append, ← OrderedMap.pushAll_append,
    ← List.append_assoc, ← List.append_assoc (file.earlier.map ConfEntry.keyed)] at stored
  rw [parse_bytes, read, lineRead, stored]
  exact Conf.get_last (wellFormed.rest_ne next.sectionName next.key) file.value [] defaultValue

/-- Where the header or the line does not fit or the value has a blank, it is not stored. -/
theorem WellFormed.lost {file : EntryFile} (wellFormed : file.WellFormed)
    (lost : ¬ (file.sectionName.length + 2 ≤ maxLine - 1 ∧ KeepsLine file.name file.value)) :
    ∃ stored, (ConfParser.parseRest file.bytes start).values = OrderedMap.empty.pushAll stored ∧
      ∀ pair ∈ stored, pair.1 = makeKey file.sectionName file.name → pair.2 ≠ file.value := by
  by_cases fits : file.sectionName.length + 2 ≤ maxLine - 1
  · obtain ⟨s, running, inSection, values, read⟩ := wellFormed.read_earlier fits
    obtain ⟨next, stored, nextValues, others, ends⟩ :=
      ConfParser.misses_of_not_keepsLine running wellFormed.isName wellFormed.isValue
        (fun keeps => lost ⟨fits, keeps⟩) (file.after.map fileBytes)
    rw [values, ← OrderedMap.pushAll_append] at nextValues
    have soFar : ∀ pair ∈ file.earlier.map ConfEntry.keyed ++ stored,
        pair.1 = makeKey file.sectionName file.name → pair.2 ≠ file.value :=
      List.forall_mem_append.mpr ⟨wellFormed.earlier_ne, fun pair member _ => others pair member⟩
    rw [read]
    rcases ends with stops | ⟨goes, goesOn⟩
    · exact ⟨_, stops ▸ nextValues, soFar⟩
    · have final := wellFormed.read_rest goes
      rw [nextValues, ← OrderedMap.pushAll_append] at final
      refine ⟨_, goesOn ▸ final, List.forall_mem_append.mpr ⟨soFar, fun pair member same => ?_⟩⟩
      exact absurd same (wellFormed.rest_ne _ _ pair member)
  · obtain ⟨s, running, values, read⟩ := wellFormed.read_before
    have cut := ConfParser.parseRest_header_cut running wellFormed.nameable
      wellFormed.header_oneLine (Nat.lt_of_not_le fits) (ended file.between ++
        (entryLine file.name file.value ++ behind (file.after.map fileBytes)))
    rw [values] at cut
    refine ⟨_, (congrArg ConfParser.values read).trans cut, fun pair member => ?_⟩
    refine wellFormed.earlier_ne pair ?_
    rw [earlier, List.map_append]
    exact List.mem_append_left _ member

/-- A value survives exactly when the header of its section fits into the buffer and the line keeps
the value. -/
theorem value_survives_iff (file : EntryFile) (wellFormed : file.WellFormed) :
    file.Survives ↔
      file.sectionName.length + 2 ≤ maxLine - 1 ∧ KeepsLine file.name file.value := by
  refine ⟨fun survives => ?_, fun ⟨fits, keeps⟩ => wellFormed.survives fits keeps⟩
  by_contra lost
  obtain ⟨stored, values, others⟩ := wellFormed.lost lost
  refine Conf.get_ne others wellFormed.isValue.nonempty [] ?_
  have found := survives []
  rwa [parse_bytes, values] at found

/-- A file with a header and an entry, and no other line. -/
theorem wellFormed_alone {sectionName name value : List UInt8} (nameable : Nameable sectionName)
    (oneLine : OneLine sectionName) (isName : NameText name) (isValue : ValueText value) :
    (EntryFile.mk [] sectionName [] name value none).WellFormed where
  beforeLines := nofun
  beforeAttached := trivial
  nameable := nameable
  sectionOneLine := oneLine
  betweenLines := nofun
  betweenAttached := trivial
  sameSection := nofun
  isName := isName
  isValue := isValue
  restLines := nofun
  restAttached := trivial
  others := nofun
  final := nofun

/-- A file that ends in an entry without a blank in its value. -/
def plainFile : EntryFile := ⟨[], text "log", [], text "file", text "a.log", none⟩

theorem value_survives_iff_plain : plainFile.Survives :=
  (value_survives_iff plainFile (wellFormed_alone (by decide +kernel) (by decide +kernel)
    ⟨by decide +kernel, by decide +kernel, by decide +kernel⟩
    ⟨by decide +kernel, by decide +kernel, by decide +kernel, by decide +kernel⟩)).mpr
    ⟨by decide +kernel, .inl ⟨by decide +kernel, by decide +kernel⟩⟩

/-- A file with a blank in the value of an entry. -/
def blankFile : EntryFile := ⟨[], text "s", [], text "name", text "a b", none⟩

/-- The first word is returned in place of the value, which a continuation line gives whole. -/
theorem not_survives_blank :
    blankFile.bytes = text "[s]\nname = a b" ∧ blankFile.WellFormed ∧
      (Conf.empty.parse (fun _ => some blankFile.bytes) []).2.get (text "s") (text "name") [] =
        text "a" ∧
      (Conf.empty.parse (fun _ => some (text "[s]\nname =\n  a b")) []).2.get (text "s")
        (text "name") [] = text "a b" ∧
      ¬ blankFile.Survives := by
  have found : (Conf.empty.parse (fun _ => some blankFile.bytes) []).2.get (text "s")
      (text "name") [] = text "a" := by decide
  have wellFormed : blankFile.WellFormed := wellFormed_alone (by decide +kernel)
    (by decide +kernel) ⟨by decide +kernel, by decide +kernel, by decide +kernel⟩
    ⟨by decide +kernel, by decide +kernel, by decide +kernel, by decide +kernel⟩
  refine ⟨by decide, wellFormed, found, by decide, fun survives => ?_⟩
  have whole : text "a" = text "a b" := found.symm.trans (survives [])
  revert whole
  decide

end EntryFile

end YYNet
