/-
This file models the configuration files: the scanner of one line, the parser
that keeps a section and a key from line to line, and the lookups; and proves
that a well-formed file parses to its meaning.

A line is a blank, a comment, the header of a section, an entry or the
continuation of an entry. What carries the proof is one lemma for each kind of
line, about the bytes that `fgets` returns for it: the line with the newline,
which is blank like everything that may trail.

Sections and names contain no dot, so the dot that `makeKey` puts between them
keeps the keys apart.
-/

import YYNet.Lib.OrderedMap
import YYNet.Common.StringPiece

namespace YYNet

/-! ### The scanner -/

/-- `LineScanner`: the string from `p` on, and `err`. -/
structure LineScanner where
  p : List UInt8
  err : Bool
  deriving DecidableEq

namespace LineScanner

def skipSpaces (ls : LineScanner) : LineScanner :=
  if ls.err then ls else { ls with p := ls.p.dropWhile isSpace }

/-- `*p`, which is 0 at the end of the string. -/
def current (ls : LineScanner) : UInt8 := ls.p.headD 0

/-- `rstrip`. -/
def rstrip (piece : List UInt8) : List UInt8 := piece.rdropWhile isSpace

def peekChar (ls : LineScanner) : UInt8 × LineScanner :=
  (ls.skipSpaces.current, ls.skipSpaces)

def skip (ls : LineScanner) (count : Nat) : LineScanner :=
  { ls with p := ls.p.drop count }

/-- `match`. It steps over the end of the string if that is what it finds, and then sets `err`,
after which nothing reads what is there. -/
def matchChar (ls : LineScanner) (c : UInt8) : LineScanner where
  p := ls.skipSpaces.p.drop 1
  err := ls.skipSpaces.current ≠ c

/-- `consumeTill`. -/
def consumeTill (ls : LineScanner) (c : UInt8) : List UInt8 × LineScanner :=
  let start := ls.skipSpaces
  let found := if start.err then start.p else start.p.dropWhile (· ≠ c)
  if found.headD 0 ≠ c then ([], { start with err := true })
  else (rstrip (if start.err then [] else start.p.takeWhile (· ≠ c)), { start with p := found })

/-- The loop of `consumeTillEnd`: what it steps over. It stops one byte behind the first space. -/
def tillEnd : Bool → List UInt8 → List UInt8
  | _, [] => []
  | wasspace, byte :: rest =>
    if byte = 59 ∨ byte = 35 ∨ wasspace then [] else byte :: tillEnd (isSpace byte) rest

/-- `consumeTillEnd`. -/
def consumeTillEnd (ls : LineScanner) : List UInt8 × LineScanner :=
  let start := ls.skipSpaces
  let consumed := if start.err then [] else tillEnd false start.p
  (rstrip consumed, start.skip consumed.length)

end LineScanner

/-! ### The parser -/

/-- `values_`. -/
abbrev ConfValues := OrderedMap (List UInt8) (List (List UInt8))

/-- `makeKey`. -/
def makeKey (sectionName name : List UInt8) : List UInt8 :=
  (sectionName ++ text "." ++ name).map toLower

/-- The variables of `parse`. -/
structure ConfParser where
  values : ConfValues
  sectionName : List UInt8
  key : List UInt8
  err : Bool
  lineno : Nat
  deriving DecidableEq

/-- The size of the line buffer. -/
def maxLine : Nat := 16 * 1024

/-- `fgets` on a buffer with some room: the line, with its newline, and the rest of the file. -/
def fgets : Nat → List UInt8 → List UInt8 × List UInt8
  | 0, file => ([], file)
  | _ + 1, [] => ([], [])
  | room + 1, byte :: rest =>
    if byte = 10 then ([byte], rest) else (byte :: (fgets room rest).1, (fgets room rest).2)

namespace ConfParser

/-- One round of the loop in `parse`. -/
def parseLine (s : ConfParser) (ln : List UInt8) : ConfParser :=
  let (c, ls) := LineScanner.peekChar ⟨cStr ln, false⟩
  if c = 59 ∨ c = 35 ∨ c = 0 then { s with lineno := s.lineno + 1 }
  else if c = 91 then
    let (name, ls) := (ls.skip 1).consumeTill 93
    { s with
      lineno := s.lineno + 1
      sectionName := name
      err := (ls.matchChar 93).err
      key := [] }
  else if isSpace (ln.headD 0) then
    if s.key ≠ [] then
      { s with
        lineno := s.lineno + 1
        values := s.values.pushBack (makeKey s.sectionName s.key) (ls.consumeTill 0).1 }
    else { s with lineno := s.lineno + 1, err := true }
  else
    let (name, first) := ls.consumeTill 61
    if first.peekChar.1 = 61 then
      { s with
        lineno := s.lineno + 1
        key := name
        values := s.values.pushBack (makeKey s.sectionName name)
          (first.peekChar.2.skip 1).consumeTillEnd.1 }
    else
      let (name, second) := ls.consumeTill 58
      { s with
        lineno := s.lineno + 1
        key := name
        err := (second.matchChar 58).err
        values := s.values.pushBack (makeKey s.sectionName name)
          (second.matchChar 58).consumeTillEnd.1 }

/-- The loop in `parse`. Every line takes a byte of the file at least. -/
def parseLines : Nat → List UInt8 → ConfParser → ConfParser
  | 0, _, s => s
  | fuel + 1, file, s =>
    if s.err = true ∨ file = [] then s
    else parseLines fuel (fgets (maxLine - 1) file).2 (s.parseLine (fgets (maxLine - 1) file).1)

end ConfParser

/-- `Conf`. -/
structure Conf where
  values : ConfValues
  filename : List UInt8
  deriving DecidableEq

namespace Conf

def empty : Conf := ⟨OrderedMap.empty, []⟩

/-- `parse`, with what `fopen` finds under each name. -/
def parse (conf : Conf) (fopen : List UInt8 → Option (List UInt8)) (filename : List UInt8) :
    Int × Conf :=
  match fopen filename with
  | none => (-1, { conf with filename := filename })
  | some file =>
    let s := ConfParser.parseLines file.length file ⟨conf.values, [], [], false, 0⟩
    (if s.err then s.lineno else 0, { conf with filename := filename, values := s.values })

/-- `getStrings`. -/
def getStrings (conf : Conf) (sectionName name : List UInt8) : List (List UInt8) :=
  (conf.values.find (makeKey sectionName name)).getD []

/-- `get`. The lists of `values_` are never empty, so `back` is defined. -/
def get (conf : Conf) (sectionName name defaultValue : List UInt8) : List UInt8 :=
  match conf.values.find (makeKey sectionName name) with
  | none => defaultValue
  | some values => values.getLastD defaultValue

end Conf

/-- Every list in `values_` has a last value for `get`. -/
def ConfValues.Filled (values : ConfValues) : Prop := ∀ key, values.find key ≠ some []

theorem ConfParser.parseLine_filled {s : ConfParser} (filled : s.values.Filled)
    (ln : List UInt8) : (s.parseLine ln).values.Filled := by
  have grows (key value : List UInt8) : ConfValues.Filled (s.values.pushBack key value) :=
    OrderedMap.find_pushBack_ne_nil filled key value
  unfold parseLine
  simp only
  repeat' split
  all_goals first | exact filled | exact grows _ _

theorem ConfParser.parseLines_filled (fuel : Nat) (file : List UInt8) {s : ConfParser}
    (filled : s.values.Filled) : (parseLines fuel file s).values.Filled := by
  induction fuel generalizing file s with
  | zero => exact filled
  | succ fuel inductionHypothesis =>
    rw [parseLines]
    split
    · exact filled
    · exact inductionHypothesis _ (parseLine_filled filled _)

/-- Whatever the file, `get` finds no empty list. -/
theorem Conf.parse_filled {conf : Conf} (filled : conf.values.Filled)
    (fopen : List UInt8 → Option (List UInt8)) (filename : List UInt8) :
    (conf.parse fopen filename).2.values.Filled := by
  unfold parse
  split
  · exact filled
  · exact ConfParser.parseLines_filled _ _ filled

/-! ### Well-formed files -/

/-- The bytes `.`, `[`, `]`, `=`, `:`, `;` and `#`. -/
def isReserved (byte : UInt8) : Bool :=
  byte = 46 || byte = 91 || byte = 93 || byte = 61 || byte = 58 || byte = 59 || byte = 35

/-- Spaces only. -/
def Blank (piece : List UInt8) : Prop := ∀ byte ∈ piece, isSpace byte = true

/-- The text of a section or a name. -/
def Nameable (piece : List UInt8) : Prop :=
  Trimmed piece ∧ ∀ byte ∈ piece, isReserved byte = false

/-- The lines of a file, without the newline. -/
inductive ConfLine
  | blank (spaces : List UInt8)
  | comment (indent : List UInt8) (mark : UInt8) (remark : List UInt8)
  | header (indent name trailing : List UInt8)
  | entry (name before : List UInt8) (separator : UInt8) (after value trailing : List UInt8)
  | continuation (indent continued trailing : List UInt8)
  deriving DecidableEq

namespace ConfLine

def bytes : ConfLine → List UInt8
  | .blank spaces => spaces
  | .comment indent mark remark => indent ++ mark :: remark
  | .header indent name trailing => indent ++ 91 :: name ++ 93 :: trailing
  | .entry name before separator after value trailing =>
    name ++ before ++ separator :: after ++ value ++ trailing
  | .continuation indent continued trailing => indent ++ continued ++ trailing

/-- The form of each kind of line. -/
def Shape : ConfLine → Prop
  | .blank spaces => Blank spaces
  | .comment indent mark _ => Blank indent ∧ (mark = 59 ∨ mark = 35)
  | .header indent name trailing => Blank indent ∧ Nameable name ∧ Blank trailing
  | .entry name before separator after value trailing =>
    name ≠ [] ∧ Nameable name ∧ Blank before ∧ Blank after ∧ Blank trailing ∧ IsWord value ∧
      (∀ byte ∈ value, byte ≠ 59 ∧ byte ≠ 35) ∧ (separator = 61 ∨ separator = 58 ∧ 61 ∉ value)
  | .continuation indent continued trailing =>
    indent ≠ [] ∧ Blank indent ∧ continued ≠ [] ∧ Trimmed continued ∧ Blank trailing ∧
      ∀ byte ∈ continued.head?, byte ≠ 91 ∧ byte ≠ 59 ∧ byte ≠ 35

/-- A line of ASCII characters that fits into the buffer. -/
structure WellFormed (line : ConfLine) : Prop where
  shape : line.Shape
  ascii : ∀ byte ∈ line.bytes, byte ≠ 0 ∧ byte ≠ 10 ∧ byte < 128
  short : line.bytes.length < maxLine - 2

end ConfLine

instance (piece : List UInt8) : Decidable (Blank piece) :=
  inferInstanceAs (Decidable (∀ byte ∈ piece, _))

instance (piece : List UInt8) : Decidable (Nameable piece) :=
  inferInstanceAs (Decidable (_ ∧ _))

/-- There is no `=` on a line with a colon. -/
local instance decidableNoEquals (value : List UInt8) : Decidable (61 ∉ value) :=
  decidable_of_iff (value.all (fun byte => !decide (byte = 61)) = true) <| by
    simp only [List.all_eq_true, Bool.not_eq_true', decide_eq_false_iff_not]
    exact ⟨fun absent member => absent 61 member rfl,
      fun absent _ member same => absent (same ▸ member)⟩

instance ConfLine.decidableShape : (line : ConfLine) → Decidable line.Shape
  | .blank spaces => inferInstanceAs (Decidable (Blank spaces))
  | .comment _ _ _ => inferInstanceAs (Decidable (_ ∧ _))
  | .header _ _ _ => inferInstanceAs (Decidable (_ ∧ _ ∧ _))
  | .entry name _ _ _ value _ => inferInstanceAs (Decidable (name ≠ [] ∧ _ ∧ _ ∧ _ ∧ _ ∧ _ ∧
      (∀ byte ∈ value, byte ≠ 59 ∧ byte ≠ 35) ∧ _))
  | .continuation indent continued _ => inferInstanceAs (Decidable (indent ≠ [] ∧ _ ∧
      continued ≠ [] ∧ _ ∧ _ ∧ ∀ byte ∈ continued.head?, byte ≠ 91 ∧ byte ≠ 59 ∧ byte ≠ 35))

instance (line : ConfLine) : Decidable line.WellFormed :=
  have : Decidable (∀ byte ∈ line.bytes, byte ≠ 0 ∧ byte ≠ 10 ∧ byte < 128) :=
    List.decidableBAll _ _
  decidable_of_iff (line.Shape ∧ (∀ byte ∈ line.bytes, byte ≠ 0 ∧ byte ≠ 10 ∧ byte < 128) ∧
      line.bytes.length < maxLine - 2)
    ⟨fun ⟨shape, ascii, short⟩ => ⟨shape, ascii, short⟩,
      fun ⟨shape, ascii, short⟩ => ⟨shape, ascii, short⟩⟩

/-- The bytes of a file. A file that ends in a newline has a blank line behind it. -/
def fileBytes (lines : List ConfLine) : List UInt8 :=
  List.intercalate [10] (lines.map ConfLine.bytes)

/-- Every continuation line follows an entry of its section. -/
def Attached : Bool → List ConfLine → Prop
  | _, [] => True
  | entered, .blank _ :: rest => Attached entered rest
  | entered, .comment _ _ _ :: rest => Attached entered rest
  | _, .header _ _ _ :: rest => Attached false rest
  | _, .entry _ _ _ _ _ _ :: rest => Attached true rest
  | entered, .continuation _ _ _ :: rest => entered = true ∧ Attached entered rest

/-- A value of a file, with its section and its name. -/
structure ConfEntry where
  sectionName : List UInt8
  name : List UInt8
  value : List UInt8
  deriving DecidableEq

/-- What the lines of a file say, behind a section and a name. -/
def meaning : List UInt8 → List UInt8 → List ConfLine → List ConfEntry
  | _, _, [] => []
  | sectionName, name, .blank _ :: rest => meaning sectionName name rest
  | sectionName, name, .comment _ _ _ :: rest => meaning sectionName name rest
  | _, _, .header _ sectionName _ :: rest => meaning sectionName [] rest
  | sectionName, _, .entry name _ _ _ value _ :: rest =>
    ⟨sectionName, name, value⟩ :: meaning sectionName name rest
  | sectionName, name, .continuation _ continued _ :: rest =>
    ⟨sectionName, name, continued⟩ :: meaning sectionName name rest

/-- The values of a section and a name in either case, in the order of the file. -/
def valuesOf (lines : List ConfLine) (sectionName name : List UInt8) : List (List UInt8) :=
  ((meaning [] [] lines).filter fun entry =>
    entry.sectionName.map toLower = sectionName.map toLower ∧
      entry.name.map toLower = name.map toLower).map ConfEntry.value

/-! ### Pieces of a line -/

/-- A piece that does not begin with a space. -/
def Solid (piece : List UInt8) : Prop := ∀ byte ∈ piece.head?, isSpace byte = false

theorem Solid.dropWhile {piece : List UInt8} (solid : Solid piece) :
    piece.dropWhile isSpace = piece := by
  cases piece with
  | nil => rfl
  | cons first rest => exact List.dropWhile_cons_of_neg (by simp [solid first rfl])

theorem Trimmed.dropWhile {piece : List UInt8} (trimmed : Trimmed piece) :
    piece.dropWhile isSpace = piece := by
  have shorter : piece.length ≤ (piece.dropWhile isSpace).length := by
    have isPrefix := (List.rdropWhile_prefix isSpace (l := piece.dropWhile isSpace)).length_le
    have whole : (piece.dropWhile isSpace).rdropWhile isSpace = piece := trimmed
    rwa [whole] at isPrefix
  exact (List.dropWhile_suffix isSpace).eq_of_length_le shorter

theorem Trimmed.rstrip {piece : List UInt8} (trimmed : Trimmed piece) :
    LineScanner.rstrip piece = piece := by
  have whole : (piece.dropWhile isSpace).rdropWhile isSpace = piece := trimmed
  rwa [trimmed.dropWhile] at whole

theorem Trimmed.solid {piece : List UInt8} (trimmed : Trimmed piece) : Solid piece := by
  intro byte member
  obtain ⟨rest, rfl⟩ : ∃ rest, piece = byte :: rest := by
    cases piece with
    | nil => cases member
    | cons first rest => exact ⟨rest, by rw [Option.some.inj member]⟩
  by_contra space
  have shorter := congrArg List.length trimmed.dropWhile
  rw [List.dropWhile_cons_of_pos (by simpa using space)] at shorter
  have bound := (List.dropWhile_suffix isSpace (l := rest)).length_le
  rw [List.length_cons] at shorter
  omega

/-- What is in front decides how a piece begins, if it is not empty. -/
theorem Solid.append {front : List UInt8} (solid : Solid front) (nonempty : front ≠ [])
    (rest : List UInt8) : Solid (front ++ rest) := by
  obtain ⟨first, more, rfl⟩ := List.exists_cons_of_ne_nil nonempty
  exact solid

theorem Blank.append {first second : List UInt8} (left : Blank first) (right : Blank second) :
    Blank (first ++ second) := by
  intro byte member
  rcases List.mem_append.mp member with inFirst | inSecond
  · exact left byte inFirst
  · exact right byte inSecond

theorem Blank.dropWhile_append {spaces : List UInt8} (blank : Blank spaces) (rest : List UInt8) :
    (spaces ++ rest).dropWhile isSpace = rest.dropWhile isSpace :=
  List.dropWhile_append_of_pos blank

theorem Blank.rstrip_append {spaces : List UInt8} (blank : Blank spaces) (piece : List UInt8) :
    LineScanner.rstrip (piece ++ spaces) = LineScanner.rstrip piece := by
  unfold LineScanner.rstrip List.rdropWhile
  rw [List.reverse_append, List.dropWhile_append_of_pos fun byte member =>
    blank byte (List.mem_reverse.mp member)]

theorem Blank.not_mem {spaces : List UInt8} (blank : Blank spaces) {byte : UInt8}
    (notSpace : isSpace byte = false) : byte ∉ spaces := fun member => by
  rw [blank byte member] at notSpace
  cases notSpace

theorem Nameable.not_mem {piece : List UInt8} (nameable : Nameable piece) {byte : UInt8}
    (reserved : isReserved byte = true) : byte ∉ piece := fun member => by
  rw [nameable.2 byte member] at reserved
  cases reserved

namespace LineScanner

theorem skipSpaces_eq (p : List UInt8) : skipSpaces ⟨p, false⟩ = ⟨p.dropWhile isSpace, false⟩ :=
  rfl

/-- A scan finds the byte in front of which it stops. -/
theorem consumeTill_found {piece rest : List UInt8} {c : UInt8} (solid : Solid (piece ++ c :: rest))
    (absent : c ∉ piece) :
    consumeTill ⟨piece ++ c :: rest, false⟩ c = (rstrip piece, ⟨c :: rest, false⟩) := by
  have inside : ∀ byte ∈ piece, decide (byte ≠ c) = true := fun byte member =>
    decide_eq_true fun same => absent (same ▸ member)
  have stop : ∀ byte ∈ (c :: rest).head?, decide (byte ≠ c) = false := fun byte member => by
    simp [← Option.some.inj member]
  obtain ⟨taken, left⟩ := takeWhile_stop (fun byte => decide (byte ≠ c)) inside stop
  unfold consumeTill
  rw [skipSpaces_eq, solid.dropWhile]
  simp only [Bool.false_eq_true, if_false]
  rw [taken, left]
  simp

/-- A scan fails if the byte is not there, and stays where it is. -/
theorem consumeTill_missing {piece : List UInt8} {c : UInt8} (solid : Solid piece)
    (absent : c ∉ piece) (nonzero : c ≠ 0) : consumeTill ⟨piece, false⟩ c = ([], ⟨piece, true⟩) := by
  have left : piece.dropWhile (fun byte => decide (byte ≠ c)) = [] :=
    List.dropWhile_eq_nil_iff.mpr fun byte member =>
      decide_eq_true fun same => absent (same ▸ member)
  unfold consumeTill
  rw [skipSpaces_eq, solid.dropWhile]
  simp only [Bool.false_eq_true, if_false]
  rw [left, if_pos (by simpa using nonzero.symm)]

/-- A scan for the end of the line takes all of it. -/
theorem consumeTill_end {piece : List UInt8} (solid : Solid piece) (clean : 0 ∉ piece) :
    (consumeTill ⟨piece, false⟩ 0).1 = rstrip piece := by
  have all : ∀ byte ∈ piece, decide (byte ≠ 0) = true := fun byte member =>
    decide_eq_true fun same => clean (same ▸ member)
  unfold consumeTill
  rw [skipSpaces_eq, solid.dropWhile]
  simp only [Bool.false_eq_true, if_false]
  rw [List.dropWhile_eq_nil_iff.mpr all, List.takeWhile_eq_self_iff.mpr all]
  rfl

theorem tillEnd_true (piece : List UInt8) : tillEnd true piece = [] := by
  cases piece with
  | nil => rfl
  | cons byte rest => rw [tillEnd, if_pos (.inr (.inr rfl))]

/-- The loop steps over a word and one space behind it. -/
theorem tillEnd_word {word trailing : List UInt8} (solid : ∀ byte ∈ word, isSpace byte = false)
    (plain : ∀ byte ∈ word, byte ≠ 59 ∧ byte ≠ 35) (blank : Blank trailing) :
    tillEnd false (word ++ trailing) = word ++ trailing.take 1 := by
  induction word with
  | nil =>
    cases trailing with
    | nil => rfl
    | cons byte rest =>
      have space := blank byte List.mem_cons_self
      have other : ¬ (byte = 59 ∨ byte = 35 ∨ false = true) := by
        rintro (rfl | rfl | impossible)
        · cases space
        · cases space
        · cases impossible
      rw [List.nil_append, tillEnd, if_neg other, space, tillEnd_true]
      rfl
  | cons byte rest inductionHypothesis =>
    obtain ⟨first, solidRest⟩ := List.forall_mem_cons.mp solid
    obtain ⟨⟨notSemicolon, notHash⟩, plainRest⟩ := List.forall_mem_cons.mp plain
    have other : ¬ (byte = 59 ∨ byte = 35 ∨ false = true) := by simp [notSemicolon, notHash]
    rw [List.cons_append, tillEnd, if_neg other, first, inductionHypothesis solidRest plainRest]
    rfl

/-- The value of an entry, with the blanks around it. -/
theorem consumeTillEnd_value {after value trailing : List UInt8} (blankAfter : Blank after)
    (isWord : IsWord value) (plain : ∀ byte ∈ value, byte ≠ 59 ∧ byte ≠ 35)
    (blankTrailing : Blank trailing) :
    (consumeTillEnd ⟨after ++ (value ++ trailing), false⟩).1 = value := by
  unfold consumeTillEnd
  rw [skipSpaces_eq, blankAfter.dropWhile_append, dropWhile_isSpace_word isWord]
  simp only [Bool.false_eq_true, if_false]
  rw [tillEnd_word isWord.2 plain blankTrailing, Blank.rstrip_append fun byte member =>
    blankTrailing byte (List.mem_of_mem_take member), isWord.trimmed.rstrip]

end LineScanner

/-! ### Lines -/

namespace ConfParser

/-- What a round finds first: the line behind its leading spaces. -/
theorem peekChar_line {ln : List UInt8} (clean : 0 ∉ ln) :
    LineScanner.peekChar ⟨cStr ln, false⟩ =
      ((ln.dropWhile isSpace).headD 0, ⟨ln.dropWhile isSpace, false⟩) := by
  rw [cStr_of_not_mem clean]
  rfl

theorem parseLine_blank (s : ConfParser) {ln : List UInt8} (clean : 0 ∉ ln) (blank : Blank ln) :
    s.parseLine ln = { s with lineno := s.lineno + 1 } := by
  unfold parseLine
  rw [peekChar_line clean, List.dropWhile_eq_nil_iff.mpr blank]
  rfl

theorem parseLine_comment (s : ConfParser) {indent remark : List UInt8} {mark : UInt8}
    (clean : 0 ∉ indent ++ mark :: remark) (blank : Blank indent) (isMark : mark = 59 ∨ mark = 35) :
    s.parseLine (indent ++ mark :: remark) = { s with lineno := s.lineno + 1 } := by
  have solid : isSpace mark = false := by rcases isMark with rfl | rfl <;> rfl
  unfold parseLine
  rw [peekChar_line clean, blank.dropWhile_append, List.dropWhile_cons_of_neg (by simp [solid])]
  simp only [List.headD_cons]
  rw [if_pos (by tauto)]

theorem parseLine_header (s : ConfParser) {indent name trailing : List UInt8}
    (clean : 0 ∉ indent ++ 91 :: (name ++ 93 :: trailing)) (blank : Blank indent)
    (nameable : Nameable name) :
    s.parseLine (indent ++ 91 :: (name ++ 93 :: trailing)) =
      { s with lineno := s.lineno + 1, sectionName := name, err := false, key := [] } := by
  have solid : Solid (name ++ 93 :: trailing) := by
    by_cases empty : name = []
    · rw [empty]
      intro byte member
      rw [← Option.some.inj member]
      rfl
    · exact nameable.1.solid.append empty _
  have closed : ((⟨93 :: trailing, false⟩ : LineScanner).matchChar 93).err = false := rfl
  unfold parseLine
  rw [peekChar_line clean, blank.dropWhile_append, List.dropWhile_cons_of_neg (by decide)]
  simp only [List.headD_cons]
  rw [if_neg (by decide), if_pos trivial]
  simp only [LineScanner.skip, List.drop_succ_cons, List.drop_zero]
  rw [LineScanner.consumeTill_found solid (nameable.not_mem rfl), nameable.1.rstrip, closed]

theorem parseLine_continuation (s : ConfParser) {indent continued trailing : List UInt8}
    (clean : 0 ∉ indent ++ (continued ++ trailing)) (indented : indent ≠ []) (blank : Blank indent)
    (nonempty : continued ≠ []) (trimmed : Trimmed continued)
    (plain : ∀ byte ∈ continued.head?, byte ≠ 91 ∧ byte ≠ 59 ∧ byte ≠ 35)
    (blankTrailing : Blank trailing) (keyed : s.key ≠ []) :
    s.parseLine (indent ++ (continued ++ trailing)) =
      { s with
        lineno := s.lineno + 1
        values := s.values.pushBack (makeKey s.sectionName s.key) continued } := by
  have solid := trimmed.solid.append nonempty trailing
  have notNull : 0 ∉ continued ++ trailing := fun member => clean (List.mem_append_right _ member)
  have found := LineScanner.consumeTill_end solid notNull
  rw [blankTrailing.rstrip_append, trimmed.rstrip] at found
  obtain ⟨first, rest, rfl⟩ := List.exists_cons_of_ne_nil nonempty
  obtain ⟨space, spaces, rfl⟩ := List.exists_cons_of_ne_nil indented
  obtain ⟨notBracket, notSemicolon, notHash⟩ := plain first rfl
  have notZero : first ≠ 0 := by
    rintro rfl
    exact notNull List.mem_cons_self
  unfold parseLine
  rw [peekChar_line clean, blank.dropWhile_append, solid.dropWhile]
  simp only [List.cons_append, List.headD_cons]
  rw [if_neg (by tauto), if_neg notBracket, if_pos (blank space List.mem_cons_self), if_pos keyed]
  rw [List.cons_append] at found
  rw [found]

/-- A line that begins with a name is read as an entry. -/
theorem parseLine_named (s : ConfParser) {first : UInt8} {rest : List UInt8}
    (clean : 0 ∉ first :: rest) (solid : isSpace first = false)
    (reserved : isReserved first = false) :
    s.parseLine (first :: rest) =
      let (name, found) := LineScanner.consumeTill ⟨first :: rest, false⟩ 61
      if found.peekChar.1 = 61 then
        { s with
          lineno := s.lineno + 1
          key := name
          values := s.values.pushBack (makeKey s.sectionName name)
            (found.peekChar.2.skip 1).consumeTillEnd.1 }
      else
        let (name, second) := LineScanner.consumeTill ⟨first :: rest, false⟩ 58
        { s with
          lineno := s.lineno + 1
          key := name
          err := (second.matchChar 58).err
          values := s.values.pushBack (makeKey s.sectionName name)
            (second.matchChar 58).consumeTillEnd.1 } := by
  have notZero : first ≠ 0 := by
    rintro rfl
    exact clean List.mem_cons_self
  have notMark : ¬ (first = 59 ∨ first = 35 ∨ first = 0) := by
    rintro (rfl | rfl | rfl)
    · cases reserved
    · cases reserved
    · exact notZero rfl
  have notBracket : first ≠ 91 := by
    rintro rfl
    cases reserved
  unfold parseLine
  rw [peekChar_line clean, List.dropWhile_cons_of_neg (by simp [solid])]
  simp only [List.headD_cons]
  rw [if_neg notMark, if_neg notBracket, if_neg (by simp [solid])]

/-- The scan for a separator stops behind the name and the blanks, which do not contain it. -/
theorem consumeTill_name {name before tail : List UInt8} {separator : UInt8} (nonempty : name ≠ [])
    (nameable : Nameable name) (blankBefore : Blank before)
    (reserved : isReserved separator = true) (notSpace : isSpace separator = false) :
    LineScanner.consumeTill ⟨name ++ (before ++ separator :: tail), false⟩ separator =
      (name, ⟨separator :: tail, false⟩) := by
  have solid := nameable.1.solid.append nonempty (before ++ separator :: tail)
  have stripped : LineScanner.rstrip (name ++ before) = name := by
    rw [blankBefore.rstrip_append, nameable.1.rstrip]
  rw [← List.append_assoc] at solid ⊢
  rw [LineScanner.consumeTill_found solid, stripped]
  rw [List.mem_append, not_or]
  exact ⟨nameable.not_mem reserved, blankBefore.not_mem notSpace⟩

/-- A line that begins with a name begins with a byte of it. -/
theorem exists_cons_name {name : List UInt8} (nonempty : name ≠ []) (nameable : Nameable name)
    (rest : List UInt8) : ∃ first more, name ++ rest = first :: more ∧ isSpace first = false ∧
      isReserved first = false := by
  obtain ⟨first, more, rfl⟩ := List.exists_cons_of_ne_nil nonempty
  exact ⟨first, more ++ rest, rfl, nameable.1.solid first rfl,
    nameable.2 first List.mem_cons_self⟩

/-- A name and `=`, whatever is behind it. -/
theorem parseLine_equals (s : ConfParser) {name before tail : List UInt8}
    (clean : 0 ∉ name ++ (before ++ 61 :: tail)) (nonempty : name ≠ []) (nameable : Nameable name)
    (blankBefore : Blank before) :
    s.parseLine (name ++ (before ++ 61 :: tail)) =
      { s with
        lineno := s.lineno + 1
        key := name
        values := s.values.pushBack (makeKey s.sectionName name)
          (LineScanner.consumeTillEnd ⟨tail, false⟩).1 } := by
  have found : LineScanner.consumeTill ⟨name ++ (before ++ 61 :: tail), false⟩ 61 =
      (name, ⟨61 :: tail, false⟩) := consumeTill_name nonempty nameable blankBefore rfl rfl
  obtain ⟨first, more, whole, solid, notReserved⟩ :=
    exists_cons_name nonempty nameable (before ++ 61 :: tail)
  rw [whole] at clean found ⊢
  rw [parseLine_named s clean solid notReserved, found]
  have peeked : (⟨61 :: tail, false⟩ : LineScanner).peekChar = (61, ⟨61 :: tail, false⟩) := rfl
  have skipped : (⟨61 :: tail, false⟩ : LineScanner).skip 1 = ⟨tail, false⟩ := rfl
  simp only
  rw [if_pos (congrArg Prod.fst peeked), peeked, skipped]

/-- An entry with either separator. -/
theorem parseLine_entry (s : ConfParser) {name before after value trailing : List UInt8}
    {separator : UInt8}
    (clean : 0 ∉ name ++ (before ++ separator :: (after ++ (value ++ trailing))))
    (nonempty : name ≠ []) (nameable : Nameable name) (blankBefore : Blank before)
    (blankAfter : Blank after) (blankTrailing : Blank trailing) (isWord : IsWord value)
    (plain : ∀ byte ∈ value, byte ≠ 59 ∧ byte ≠ 35)
    (separates : separator = 61 ∨ separator = 58 ∧ 61 ∉ value) (running : s.err = false) :
    s.parseLine (name ++ (before ++ separator :: (after ++ (value ++ trailing)))) =
      { s with
        lineno := s.lineno + 1
        key := name
        values := s.values.pushBack (makeKey s.sectionName name) value } := by
  have isValue := LineScanner.consumeTillEnd_value blankAfter isWord plain blankTrailing
  rcases separates with rfl | ⟨rfl, absent⟩
  · rw [parseLine_equals s clean nonempty nameable blankBefore, isValue]
  · have found : LineScanner.consumeTill
        ⟨name ++ (before ++ 58 :: (after ++ (value ++ trailing))), false⟩ 58 =
        (name, ⟨58 :: (after ++ (value ++ trailing)), false⟩) :=
      consumeTill_name nonempty nameable blankBefore rfl rfl
    have missing : 61 ∉ name ++ (before ++ 58 :: (after ++ (value ++ trailing))) := by
      simp only [List.mem_append, List.mem_cons, not_or]
      exact ⟨nameable.not_mem rfl, blankBefore.not_mem rfl, by decide, blankAfter.not_mem rfl,
        absent, blankTrailing.not_mem rfl⟩
    obtain ⟨first, rest, whole, solid, notReserved⟩ :=
      exists_cons_name nonempty nameable (before ++ 58 :: (after ++ (value ++ trailing)))
    have solidLine : Solid (first :: rest) := by
      intro byte member
      rw [← Option.some.inj member]
      exact solid
    rw [whole] at clean found missing ⊢
    rw [parseLine_named s clean solid notReserved]
    have other : first ≠ 61 := fun equal => missing (equal ▸ List.mem_cons_self)
    rw [LineScanner.consumeTill_missing solidLine missing (by decide), found]
    have stays : ((⟨first :: rest, true⟩ : LineScanner).peekChar).1 = first := rfl
    have matched : (⟨58 :: (after ++ (value ++ trailing)), false⟩ : LineScanner).matchChar 58 =
        ⟨after ++ (value ++ trailing), false⟩ := rfl
    simp only
    rw [if_neg (stays ▸ other), matched, isValue, running]

end ConfParser

/-- An entry as it is stored. -/
def ConfEntry.keyed (entry : ConfEntry) : List UInt8 × List UInt8 :=
  (makeKey entry.sectionName entry.name, entry.value)

namespace ConfParser

/-- What a round makes of a well-formed line. -/
def enter (s : ConfParser) : ConfLine → ConfParser
  | .blank _ => { s with lineno := s.lineno + 1 }
  | .comment _ _ _ => { s with lineno := s.lineno + 1 }
  | .header _ name _ =>
    { s with lineno := s.lineno + 1, sectionName := name, err := false, key := [] }
  | .entry name _ _ _ value _ =>
    { s with
      lineno := s.lineno + 1
      key := name
      values := s.values.pushBack (makeKey s.sectionName name) value }
  | .continuation _ continued _ =>
    { s with
      lineno := s.lineno + 1
      values := s.values.pushBack (makeKey s.sectionName s.key) continued }

/-- One round on a well-formed line. -/
theorem parseLine_eq_enter {s : ConfParser} {line : ConfLine} {rest : List ConfLine}
    (wellFormed : line.WellFormed) {ending : List UInt8} (blankEnding : Blank ending)
    (running : s.err = false) (attached : Attached (decide (s.key ≠ [])) (line :: rest)) :
    s.parseLine (line.bytes ++ ending) = s.enter line := by
  have clean : 0 ∉ line.bytes ++ ending := by
    rw [List.mem_append, not_or]
    exact ⟨fun member => (wellFormed.ascii 0 member).1 rfl, blankEnding.not_mem rfl⟩
  have shape := wellFormed.shape
  cases line with
  | blank spaces => exact parseLine_blank s clean (Blank.append shape blankEnding)
  | comment indent mark remark =>
    obtain ⟨blank, isMark⟩ := shape
    have bytes : (ConfLine.comment indent mark remark).bytes ++ ending =
        indent ++ mark :: (remark ++ ending) := by simp [ConfLine.bytes]
    rw [bytes] at clean ⊢
    exact parseLine_comment s clean blank isMark
  | header indent name trailing =>
    obtain ⟨blank, nameable, blankTrailing⟩ := shape
    have bytes : (ConfLine.header indent name trailing).bytes ++ ending =
        indent ++ 91 :: (name ++ 93 :: (trailing ++ ending)) := by simp [ConfLine.bytes]
    rw [bytes] at clean ⊢
    exact parseLine_header s clean blank nameable
  | entry name before separator after value trailing =>
    obtain ⟨nonempty, nameable, blankBefore, blankAfter, blankTrailing, isWord, plain,
      separates⟩ := shape
    have bytes : (ConfLine.entry name before separator after value trailing).bytes ++ ending =
        name ++ (before ++ separator :: (after ++ (value ++ (trailing ++ ending)))) := by
      simp [ConfLine.bytes]
    rw [bytes] at clean ⊢
    exact parseLine_entry s clean nonempty nameable blankBefore blankAfter
      (blankTrailing.append blankEnding) isWord plain separates running
  | continuation indent continued trailing =>
    obtain ⟨indented, blank, nonempty, trimmed, blankTrailing, plain⟩ := shape
    have bytes : (ConfLine.continuation indent continued trailing).bytes ++ ending =
        indent ++ (continued ++ (trailing ++ ending)) := by
      simp [ConfLine.bytes]
    rw [bytes] at clean ⊢
    exact parseLine_continuation s clean indented blank nonempty trimmed plain
      (blankTrailing.append blankEnding) (of_decide_eq_true attached.1)

theorem enter_err {s : ConfParser} (running : s.err = false) (line : ConfLine) :
    (s.enter line).err = false := by
  cases line <;> first | exact running | rfl

theorem enter_attached {s : ConfParser} {line : ConfLine} {rest : List ConfLine}
    (wellFormed : line.WellFormed) (attached : Attached (decide (s.key ≠ [])) (line :: rest)) :
    Attached (decide ((s.enter line).key ≠ [])) rest := by
  cases line with
  | blank | comment | header => exact attached
  | entry name before separator after value trailing =>
    show Attached (decide (name ≠ [])) rest
    rw [decide_eq_true wellFormed.shape.1]
    exact attached
  | continuation => exact attached.2

/-- The lines of a file store what they say. -/
theorem foldl_enter_values (lines : List ConfLine) (s : ConfParser) :
    (lines.foldl enter s).values =
      s.values.pushAll ((meaning s.sectionName s.key lines).map ConfEntry.keyed) := by
  induction lines generalizing s with
  | nil => rfl
  | cons line rest inductionHypothesis =>
    rw [List.foldl_cons, inductionHypothesis]
    cases line <;> rfl

end ConfParser

/-! ### Files -/

/-- A line with its newline is read at once if there is room for both. -/
theorem fgets_newline {room : Nat} {line : List UInt8} (oneLine : 10 ∉ line)
    (fits : line.length < room) (rest : List UInt8) :
    fgets room (line ++ 10 :: rest) = (line ++ [10], rest) := by
  induction line generalizing room with
  | nil =>
    obtain ⟨room, rfl⟩ := Nat.exists_eq_add_one_of_ne_zero (Nat.ne_zero_of_lt fits)
    rw [List.nil_append, fgets, if_pos rfl]
    rfl
  | cons byte line inductionHypothesis =>
    rw [List.mem_cons, not_or] at oneLine
    obtain ⟨room, rfl⟩ := Nat.exists_eq_add_one_of_ne_zero (Nat.ne_zero_of_lt fits)
    rw [List.cons_append, fgets, if_neg (Ne.symm oneLine.1),
      inductionHypothesis oneLine.2 (Nat.lt_of_succ_lt_succ fits)]
    rfl

/-- The last line may have no newline. -/
theorem fgets_last {room : Nat} {line : List UInt8} (oneLine : 10 ∉ line)
    (fits : line.length ≤ room) : fgets room line = (line, []) := by
  induction line generalizing room with
  | nil => cases room <;> rfl
  | cons byte line inductionHypothesis =>
    rw [List.mem_cons, not_or] at oneLine
    obtain ⟨room, rfl⟩ := Nat.exists_eq_add_one_of_ne_zero (Nat.ne_zero_of_lt fits)
    rw [fgets, if_neg (Ne.symm oneLine.1), inductionHypothesis oneLine.2
      (Nat.le_of_succ_le_succ fits)]

/-- A read takes a byte at least. -/
theorem fgets_shorter (room : Nat) {file : List UInt8} (nonempty : file ≠ []) :
    (fgets (room + 1) file).2.length < file.length := by
  have bounded (room : Nat) (file : List UInt8) : (fgets room file).2.length ≤ file.length := by
    induction room generalizing file with
    | zero => exact le_rfl
    | succ room inductionHypothesis =>
      cases file with
      | nil => exact le_rfl
      | cons byte rest =>
        rw [fgets]
        split
        · exact Nat.le_succ _
        · exact (inductionHypothesis rest).trans (Nat.le_succ _)
  obtain ⟨byte, rest, rfl⟩ := List.exists_cons_of_ne_nil nonempty
  rw [fgets]
  split
  · exact Nat.lt_succ_self _
  · exact Nat.lt_succ_of_le (bounded room rest)

theorem blank_newline : Blank [10] := by
  intro byte member
  rw [List.mem_singleton.mp member]
  rfl

theorem ConfLine.WellFormed.oneLine {line : ConfLine} (wellFormed : line.WellFormed) :
    10 ∉ line.bytes := fun member => (wellFormed.ascii 10 member).2.1 rfl

/-- Lines with their newlines. -/
def ended (lines : List ConfLine) : List UInt8 :=
  lines.flatMap fun line => line.bytes ++ [10]

/-- The last line of a file has no newline. -/
theorem fileBytes_snoc (lines : List ConfLine) (last : ConfLine) :
    fileBytes (lines ++ [last]) = ended lines ++ last.bytes := by
  induction lines with
  | nil => simp [fileBytes, ended]
  | cons line rest inductionHypothesis =>
    obtain ⟨other, more, whole⟩ := List.exists_cons_of_ne_nil
      (List.append_ne_nil_of_right_ne_nil rest (List.cons_ne_nil last []))
    have split : fileBytes (line :: other :: more) =
        line.bytes ++ 10 :: fileBytes (other :: more) := by
      unfold fileBytes
      rw [List.map_cons, List.map_cons, List.intercalate_cons_cons, List.append_assoc]
      rfl
    rw [List.cons_append, whole, split, ← whole, inductionHypothesis]
    simp [ended]

namespace ConfParser

/-- More fuel than bytes does not change what is parsed. -/
theorem parseLines_enough {fuel : Nat} {file : List UInt8} (enough : file.length ≤ fuel)
    (s : ConfParser) : parseLines fuel file s = parseLines file.length file s := by
  have agree : ∀ size fuel more (file : List UInt8) (s : ConfParser), file.length ≤ size →
      size ≤ fuel → size ≤ more → parseLines fuel file s = parseLines more file s := by
    intro size
    induction size with
    | zero =>
      intro fuel more file s small _ _
      obtain rfl := List.length_eq_zero_iff.mp (Nat.le_zero.mp small)
      have empty (fuel : Nat) : parseLines fuel [] s = s := by
        cases fuel with
        | zero => rfl
        | succ fuel => rw [parseLines, if_pos (.inr rfl)]
      rw [empty, empty]
    | succ size inductionHypothesis =>
      intro fuel more file s small fits alsoFits
      obtain ⟨fuel, rfl⟩ := Nat.exists_eq_add_one_of_ne_zero (show fuel ≠ 0 by omega)
      obtain ⟨more, rfl⟩ := Nat.exists_eq_add_one_of_ne_zero (show more ≠ 0 by omega)
      rw [parseLines, parseLines]
      by_cases stops : s.err = true ∨ file = []
      · rw [if_pos stops, if_pos stops]
      · rw [if_neg stops, if_neg stops]
        have shorter := fgets_shorter (maxLine - 2) (not_or.mp stops).2
        exact inductionHypothesis fuel more _ _ (by
          rw [show maxLine - 1 = maxLine - 2 + 1 from rfl]
          omega) (by omega) (by omega)
  exact agree file.length fuel file.length file s le_rfl enough le_rfl

/-- Parse the rest of a file. -/
def parseRest (file : List UInt8) (s : ConfParser) : ConfParser :=
  parseLines file.length file s

theorem parseRest_nil (s : ConfParser) : parseRest [] s = s := rfl

theorem parseRest_stopped {s : ConfParser} (stopped : s.err = true) (file : List UInt8) :
    parseRest file s = s := by
  unfold parseRest
  cases file with
  | nil => rfl
  | cons byte rest => rw [List.length_cons, parseLines, if_pos (.inl stopped)]

/-- One round of the loop. -/
theorem parseRest_step {s : ConfParser} (running : s.err = false) {file : List UInt8}
    (nonempty : file ≠ []) :
    parseRest file s =
      parseRest (fgets (maxLine - 1) file).2 (s.parseLine (fgets (maxLine - 1) file).1) := by
  obtain ⟨size, isSize⟩ := Nat.exists_eq_add_one_of_ne_zero
    (mt List.length_eq_zero_iff.mp nonempty)
  have shorter := fgets_shorter (maxLine - 2) nonempty
  unfold parseRest
  rw [isSize, parseLines, if_neg (by simp [running, nonempty])]
  exact parseLines_enough (by
    rw [show maxLine - 1 = maxLine - 2 + 1 from rfl]
    omega) _

/-- A line that fits with its newline takes one round. -/
theorem parseRest_line {s : ConfParser} (running : s.err = false) {line : List UInt8}
    (oneLine : 10 ∉ line) (fits : line.length < maxLine - 1) (rest : List UInt8) :
    parseRest (line ++ 10 :: rest) s = parseRest rest (s.parseLine (line ++ [10])) := by
  rw [parseRest_step running (by simp), fgets_newline oneLine fits]

/-- Well-formed lines with their newlines take one round each. -/
theorem parseRest_ended (lines : List ConfLine) (wellFormed : ∀ line ∈ lines, line.WellFormed)
    {s : ConfParser} (running : s.err = false) {rest : List ConfLine}
    (attached : Attached (decide (s.key ≠ [])) (lines ++ rest)) (file : List UInt8) :
    parseRest (ended lines ++ file) s = parseRest file (lines.foldl enter s) ∧
      (lines.foldl enter s).err = false ∧
      Attached (decide ((lines.foldl enter s).key ≠ [])) rest := by
  induction lines generalizing s with
  | nil => exact ⟨rfl, running, attached⟩
  | cons line lines inductionHypothesis =>
    obtain ⟨here, later⟩ := List.forall_mem_cons.mp wellFormed
    have short := here.short
    have split : ended (line :: lines) ++ file = line.bytes ++ 10 :: (ended lines ++ file) := by
      simp [ended]
    rw [split, parseRest_line running here.oneLine (by omega),
      parseLine_eq_enter here blank_newline running attached]
    exact inductionHypothesis later (enter_err running line) (enter_attached here attached)

/-- The loop stores what the lines say. -/
theorem parseRest_meaning (lines : List ConfLine)
    (wellFormed : ∀ line ∈ lines, line.WellFormed) {s : ConfParser} (running : s.err = false)
    (attached : Attached (decide (s.key ≠ [])) lines) :
    (parseRest (fileBytes lines) s).err = false ∧
      (parseRest (fileBytes lines) s).values =
        s.values.pushAll ((meaning s.sectionName s.key lines).map ConfEntry.keyed) := by
  rcases List.eq_nil_or_concat' lines with rfl | ⟨init, last, rfl⟩
  · exact ⟨running, rfl⟩
  obtain ⟨first, final⟩ := List.forall_mem_append.mp wellFormed
  have isLast := final last (List.mem_singleton_self last)
  obtain ⟨read, stays, follows⟩ := parseRest_ended init first running attached last.bytes
  rw [fileBytes_snoc, read, ← foldl_enter_values, List.foldl_append]
  generalize init.foldl enter s = before at stays follows
  by_cases empty : last.bytes = []
  · -- A line without a byte is not read, and has nothing to say.
    rw [empty, parseRest_nil]
    refine ⟨stays, ?_⟩
    have shape := isLast.shape
    cases last with
    | blank | comment | header => rfl
    | entry => simp [ConfLine.bytes] at empty
    | continuation indent continued trailing =>
      have nothing : indent = [] ∧ continued = [] ∧ trailing = [] := by
        simpa [ConfLine.bytes] using empty
      exact absurd nothing.1 shape.1
  · have short := isLast.short
    have blankEnding : Blank [] := nofun
    have entered := parseLine_eq_enter isLast blankEnding stays follows
    rw [List.append_nil] at entered
    rw [parseRest_step stays empty, fgets_last isLast.oneLine (by omega), entered, parseRest_nil]
    exact ⟨enter_err stays last, rfl⟩

end ConfParser

/-! ### Lookups -/

theorem toLower_eq_dot {byte : UInt8} (dot : toLower byte = 46) : byte = 46 := by
  unfold toLower at dot
  split at dot
  · rename_i upper
    have low : 65 ≤ byte.toNat := UInt8.le_iff_toNat_le.mp upper.1
    have high : byte.toNat ≤ 90 := UInt8.le_iff_toNat_le.mp upper.2
    have value : (byte + 32).toNat = 46 := congrArg UInt8.toNat dot
    rw [UInt8.toNat_add, show (32 : UInt8).toNat = 32 from rfl] at value
    omega
  · exact dot

/-- A byte that is not in the second pair stands between two pieces in one way. -/
theorem append_cons_inj {left right front back : List UInt8} {byte : UInt8}
    (notFront : byte ∉ front) (notBack : byte ∉ back)
    (same : left ++ byte :: right = front ++ byte :: back) : left = front ∧ right = back := by
  rcases List.append_eq_append_iff.mp same with ⟨more, isFront, isRight⟩ | ⟨more, isLeft, isBack⟩
  · cases more with
    | nil =>
      rw [List.append_nil] at isFront
      exact ⟨isFront.symm, (List.cons.inj isRight).2⟩
    | cons first more =>
      obtain ⟨rfl, -⟩ := List.cons.inj isRight
      exact absurd (isFront ▸ List.mem_append_right _ List.mem_cons_self) notFront
  · cases more with
    | nil =>
      rw [List.append_nil] at isLeft
      exact ⟨isLeft, (List.cons.inj isBack).2.symm⟩
    | cons first more =>
      obtain ⟨rfl, rfl⟩ := List.cons.inj isBack
      exact absurd (List.mem_append_right _ List.mem_cons_self) notBack

theorem makeKey_parts (sectionName name : List UInt8) :
    makeKey sectionName name = sectionName.map toLower ++ 46 :: name.map toLower := by
  unfold makeKey
  rw [show text "." = [46] by decide]
  simp only [List.map_append, List.append_assoc]
  rfl

/-- Without dots in a section and a name, their key is that of no other section and name but for
the case of letters. -/
theorem makeKey_eq_iff {sectionName name otherSection otherName : List UInt8}
    (noDotSection : 46 ∉ sectionName) (noDotName : 46 ∉ name) :
    makeKey sectionName name = makeKey otherSection otherName ↔
      sectionName.map toLower = otherSection.map toLower ∧
        name.map toLower = otherName.map toLower := by
  have noDot {piece : List UInt8} (absent : 46 ∉ piece) : 46 ∉ piece.map toLower := by
    intro member
    obtain ⟨byte, inPiece, isDot⟩ := List.mem_map.mp member
    exact absent (toLower_eq_dot isDot ▸ inPiece)
  rw [makeKey_parts, makeKey_parts]
  constructor
  · intro same
    obtain ⟨sections, names⟩ := append_cons_inj (noDot noDotSection) (noDot noDotName) same.symm
    exact ⟨sections.symm, names.symm⟩
  · rintro ⟨sections, names⟩
    rw [sections, names]

/-- The sections and names of a file have no dots. -/
theorem meaning_noDot {lines : List ConfLine} (wellFormed : ∀ line ∈ lines, line.WellFormed)
    {sectionName name : List UInt8} (noDotSection : 46 ∉ sectionName) (noDotName : 46 ∉ name) :
    ∀ entry ∈ meaning sectionName name lines, 46 ∉ entry.sectionName ∧ 46 ∉ entry.name := by
  induction lines generalizing sectionName name with
  | nil => nofun
  | cons line rest inductionHypothesis =>
    obtain ⟨here, later⟩ := List.forall_mem_cons.mp wellFormed
    have shape := here.shape
    have go := @inductionHypothesis later
    cases line with
    | blank spaces => exact go noDotSection noDotName
    | comment indent mark remark => exact go noDotSection noDotName
    | header indent other trailing => exact go (shape.2.1.not_mem rfl) nofun
    | entry other before separator after value trailing =>
      have noDotOther : 46 ∉ other := shape.2.1.not_mem rfl
      rw [meaning, List.forall_mem_cons]
      exact ⟨⟨noDotSection, noDotOther⟩, go noDotSection noDotOther⟩
    | continuation indent continued trailing =>
      rw [meaning, List.forall_mem_cons]
      exact ⟨⟨noDotSection, noDotName⟩, go noDotSection noDotName⟩

namespace Conf

/-- The two lookups agree: `get` returns the last of what `getStrings` returns. -/
theorem get_eq_getLastD (conf : Conf) (sectionName name defaultValue : List UInt8) :
    conf.get sectionName name defaultValue =
      (conf.getStrings sectionName name).getLastD defaultValue := by
  unfold get getStrings
  cases conf.values.find (makeKey sectionName name) <;> rfl

/-- A well-formed file parses to its meaning. -/
theorem parse_meaning (fopen : List UInt8 → Option (List UInt8)) (filename : List UInt8)
    (lines : List ConfLine) (file : fopen filename = some (fileBytes lines))
    (wellFormed : ∀ line ∈ lines, line.WellFormed) (attached : Attached false lines) :
    (empty.parse fopen filename).1 = 0 ∧
      ∀ sectionName name,
        (empty.parse fopen filename).2.getStrings sectionName name =
            valuesOf lines sectionName name ∧
          ∀ defaultValue, (empty.parse fopen filename).2.get sectionName name defaultValue =
            (valuesOf lines sectionName name).getLastD defaultValue := by
  obtain ⟨runs, stored⟩ := ConfParser.parseRest_meaning lines wellFormed
    (show ConfParser.err ⟨empty.values, [], [], false, 0⟩ = false from rfl) attached
  unfold ConfParser.parseRest at runs stored
  have parsed : empty.parse fopen filename =
      (0, ⟨OrderedMap.pushAll OrderedMap.empty ((meaning [] [] lines).map ConfEntry.keyed),
        filename⟩) := by
    unfold parse
    rw [file]
    simp only [runs, stored]
    rfl
  have strings (sectionName name : List UInt8) :
      (empty.parse fopen filename).2.getStrings sectionName name =
        valuesOf lines sectionName name := by
    rw [parsed]
    unfold getStrings valuesOf
    rw [OrderedMap.getD_find_pushAll, OrderedMap.find_empty, List.filter_map, List.map_map]
    simp only [Option.getD_none, List.nil_append]
    refine congrArg (List.map ConfEntry.value) (List.filter_congr fun entry member => ?_)
    obtain ⟨noDotSection, noDotName⟩ :=
      meaning_noDot wellFormed List.not_mem_nil List.not_mem_nil entry member
    exact decide_eq_decide.mpr (makeKey_eq_iff noDotSection noDotName)
  refine ⟨by rw [parsed], fun sectionName name => ⟨strings sectionName name, fun defaultValue => ?_⟩⟩
  rw [get_eq_getLastD, strings]

/-- A part of a configuration of the logger. -/
def loggerLines : List ConfLine :=
  [.comment [] 59 (text " logger"), .header [] (text "log") [],
    .entry (text "logLevel") [32] 58 [32] (text "debug") [32], .blank [32],
    .entry (text "modules") [] 61 [] (text "SYSTEM") [],
    .continuation (text "    ") (text "SIGNAL") [], .blank []]

theorem parse_meaning_logger :
    let conf := empty.parse (fun _ => some (fileBytes loggerLines)) (text "config.conf")
    conf.1 = 0 ∧
      conf.2.getStrings (text "LOG") (text "modules") = [text "SYSTEM", text "SIGNAL"] ∧
      conf.2.get (text "log") (text "loglevel") [] = text "debug" := by
  obtain ⟨parsed, lookups⟩ := parse_meaning (fun _ => some (fileBytes loggerLines))
    (text "config.conf") loggerLines rfl (by decide +kernel) ⟨rfl, trivial⟩
  refine ⟨parsed, ?_, ?_⟩
  · rw [(lookups _ _).1]
    decide
  · rw [(lookups _ _).2]
    decide

end Conf

end YYNet
