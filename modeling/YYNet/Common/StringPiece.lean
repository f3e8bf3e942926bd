/-
This file models the scanning functions of `stringPiece` and what the HTTP code
uses of the C library: character classes, numbers read from text, and formatting
into an array of a fixed size.

A piece is the list of its bytes. The functions that eat from the front of a
piece return what they ate and what is left. The lemmas say what each of them
finds in front of a byte that ends its scan.
-/

import YYNet.Lib.Decimal

namespace YYNet

/-! ### Bytes -/

/-- `char_traits<char>::compare` orders bytes as unsigned numbers. -/
instance byteLinearOrder : LinearOrder UInt8 where
  le_refl _ := UInt8.le_refl _
  le_trans _ _ _ := UInt8.le_trans
  le_antisymm _ _ := UInt8.le_antisymm
  le_total := UInt8.le_total
  lt_iff_le_not_ge first second := by
    rw [UInt8.lt_iff_toNat_lt, UInt8.le_iff_toNat_le, UInt8.le_iff_toNat_le]
    omega
  toDecidableLE := inferInstance
  toDecidableEq := inferInstance
  toDecidableLT := inferInstance

/-- The bytes of a literal. -/
def text (literal : String) : List UInt8 :=
  literal.toList.map fun letter => UInt8.ofNat letter.toNat

/-- `isspace` in the C locale. -/
def isSpace (byte : UInt8) : Bool :=
  byte = 32 || (9 ≤ byte && byte ≤ 13)

/-- `tolower` in the C locale. -/
def toLower (byte : UInt8) : UInt8 :=
  if 65 ≤ byte ∧ byte ≤ 90 then byte + 32 else byte

/-- The bytes `'\n'` and `'\r'`. -/
def isLineEnd (byte : UInt8) : Bool :=
  byte = 10 || byte = 13

/-- The part of a string before its first null, which is what `%s` prints of `c_str()`. -/
def cStr (string : List UInt8) : List UInt8 :=
  string.takeWhile (· ≠ 0)

/-- The string `snprintf` leaves in an array of a size. -/
def snprintf (size : Nat) (formatted : List UInt8) : List UInt8 :=
  formatted.take (size - 1)

/-- `%d`. -/
def formatInt (number : Int32) : List UInt8 :=
  if number.toInt < 0 then 45 :: Decimal.text number.toInt.natAbs
  else Decimal.text number.toInt.natAbs

/-! ### Numbers -/

/-- `strtol` and `strtoll` in base ten, which stop at the ends of their range. -/
def strtol (bytes : List UInt8) : Int :=
  match bytes.dropWhile isSpace with
  | 45 :: digits => max (-2 ^ 63) (-(Decimal.value digits : Int))
  | 43 :: digits => min (2 ^ 63 - 1) (Decimal.value digits : Int)
  | digits => min (2 ^ 63 - 1) (Decimal.value digits : Int)

/-- `atoi`: the result of `strtol` as an `int`. -/
def atoi (bytes : List UInt8) : Int32 :=
  Int32.ofInt (strtol bytes)

/-- `static_cast<size_t>(atoll(string.c_str()))`. -/
def atollSize (string : List UInt8) : Nat :=
  (strtol (cStr string) % 2 ^ 64).toNat

/-! ### Pieces -/

/-- `eatWord`: the word, and what is behind it. -/
def eatWord (piece : List UInt8) : List UInt8 × List UInt8 :=
  let word := piece.dropWhile isSpace
  (word.takeWhile fun byte => !isSpace byte, word.dropWhile fun byte => !isSpace byte)

/-- `eatLine`: the line, and what is behind it. -/
def eatLine (piece : List UInt8) : List UInt8 × List UInt8 :=
  (piece.takeWhile fun byte => !isLineEnd byte, piece.dropWhile fun byte => !isLineEnd byte)

def trimSpace (piece : List UInt8) : List UInt8 :=
  (piece.dropWhile isSpace).rdropWhile isSpace

/-- A piece without space at its ends. -/
def Trimmed (piece : List UInt8) : Prop :=
  trimSpace piece = piece

/-- A piece that is one word. -/
def IsWord (piece : List UInt8) : Prop :=
  piece ≠ [] ∧ ∀ byte ∈ piece, isSpace byte = false

/-- A piece within one line. -/
def InLine (piece : List UInt8) : Prop :=
  ∀ byte ∈ piece, isLineEnd byte = false

instance (piece : List UInt8) : Decidable (Trimmed piece) :=
  inferInstanceAs (Decidable (_ = _))

instance (piece : List UInt8) : Decidable (IsWord piece) :=
  inferInstanceAs (Decidable (_ ∧ _))

instance (piece : List UInt8) : Decidable (InLine piece) :=
  inferInstanceAs (Decidable (∀ byte ∈ piece, _))

/-! ### What the scans find -/

/-- A scan stops in front of a byte that fails. -/
theorem takeWhile_stop (holds : UInt8 → Bool) {front rest : List UInt8}
    (inside : ∀ byte ∈ front, holds byte = true)
    (stop : ∀ byte ∈ rest.head?, holds byte = false) :
    (front ++ rest).takeWhile holds = front ∧ (front ++ rest).dropWhile holds = rest := by
  rw [List.takeWhile_append_of_pos inside, List.dropWhile_append_of_pos inside]
  cases rest with
  | nil => simp
  | cons first more =>
    have fails : ¬ holds first = true := by simpa using stop first rfl
    rw [List.takeWhile_cons_of_neg fails, List.dropWhile_cons_of_neg fails, List.append_nil]
    exact ⟨rfl, rfl⟩

/-- A line ends in front of the first line end. -/
theorem eatLine_append {line rest : List UInt8} (inLine : InLine line)
    (stop : ∀ byte ∈ rest.head?, isLineEnd byte = true) : eatLine (line ++ rest) = (line, rest) := by
  obtain ⟨taken, left⟩ := takeWhile_stop (fun byte => !isLineEnd byte)
    (fun byte member => by simp [inLine byte member]) (fun byte member => by simp [stop byte member])
  exact Prod.ext taken left

/-- No space is skipped in front of a word. -/
theorem dropWhile_isSpace_word {word : List UInt8} (isWord : IsWord word) (rest : List UInt8) :
    (word ++ rest).dropWhile isSpace = word ++ rest := by
  obtain ⟨first, more, rfl⟩ := List.exists_cons_of_ne_nil isWord.1
  rw [List.cons_append, List.dropWhile_cons_of_neg]
  simp [isWord.2 first List.mem_cons_self]

/-- A word is trimmed. -/
theorem IsWord.trimmed {word : List UInt8} (isWord : IsWord word) : Trimmed word := by
  have start := dropWhile_isSpace_word isWord []
  rw [List.append_nil] at start
  unfold Trimmed trimSpace
  rw [start, List.rdropWhile_eq_self_iff]
  intro nonempty
  simp [isWord.2 _ (List.getLast_mem nonempty)]

/-- A word ends in front of the first space. -/
theorem eatWord_append {word rest : List UInt8} (isWord : IsWord word)
    (stop : ∀ byte ∈ rest.head?, isSpace byte = true) : eatWord (word ++ rest) = (word, rest) := by
  obtain ⟨taken, left⟩ := takeWhile_stop (fun byte => !isSpace byte)
    (fun byte member => by simp [isWord.2 byte member])
    (fun byte member => by simp [stop byte member])
  unfold eatWord
  rw [dropWhile_isSpace_word isWord]
  exact Prod.ext taken left

/-- A word is eaten whole. -/
theorem IsWord.eatWord {word : List UInt8} (isWord : IsWord word) : eatWord word = (word, []) := by
  have whole : YYNet.eatWord (word ++ []) = (word, []) := eatWord_append isWord (by simp)
  rwa [List.append_nil] at whole

/-- Space in front of a piece is not part of its next word. -/
theorem eatWord_space (piece : List UInt8) : eatWord (32 :: piece) = eatWord piece := by
  unfold eatWord
  rw [List.dropWhile_cons_of_pos (by decide)]

/-- Space in front of a piece is trimmed. -/
theorem trimSpace_space (piece : List UInt8) : trimSpace (32 :: piece) = trimSpace piece := by
  unfold trimSpace
  rw [List.dropWhile_cons_of_pos (by decide)]

theorem inLine_space : InLine (text " ") := by
  simp [InLine, text, isLineEnd]

theorem IsWord.inLine {word : List UInt8} (isWord : IsWord word) : InLine word := by
  intro byte member
  have notSpace := isWord.2 byte member
  by_contra ends
  have ends : isLineEnd byte = true := by simpa using ends
  unfold isLineEnd at ends
  rcases Bool.or_eq_true _ _ |>.mp ends with newline | carriage
  · rw [of_decide_eq_true newline] at notSpace
    cases notSpace
  · rw [of_decide_eq_true carriage] at notSpace
    cases notSpace

theorem InLine.append {first second : List UInt8} (left : InLine first) (right : InLine second) :
    InLine (first ++ second) := by
  intro byte member
  rcases List.mem_append.mp member with inFirst | inSecond
  · exact left byte inFirst
  · exact right byte inSecond

/-- A string without null is printed whole. -/
theorem cStr_of_not_mem {string : List UInt8} (clean : 0 ∉ string) : cStr string = string := by
  unfold cStr
  rw [List.takeWhile_eq_self_iff]
  intro byte member
  have : byte ≠ 0 := by
    rintro rfl
    exact clean member
  simpa using this

/-- What fits in the array is left there whole. -/
theorem snprintf_of_lt {size : Nat} {formatted : List UInt8} (fits : formatted.length < size) :
    snprintf size formatted = formatted :=
  List.take_of_length_le (by omega)

/-! ### Numbers read back -/

theorem isSpace_of_isDigit {byte : UInt8} (digit : Decimal.isDigit byte = true) :
    isSpace byte = false := by
  simp only [Decimal.isDigit, isSpace, Bool.and_eq_true, decide_eq_true_eq, Bool.or_eq_false_iff,
    decide_eq_false_iff_not, Bool.and_eq_false_iff, UInt8.le_iff_toNat_le, ← UInt8.toNat_inj,
    UInt8.toNat_ofNat] at digit ⊢
  omega

/-- A numeral is a word. -/
theorem isWord_text (number : Nat) : IsWord (Decimal.text number) :=
  ⟨Decimal.text_ne_nil number, fun _ member =>
    isSpace_of_isDigit (Decimal.isDigit_of_mem_text member)⟩

theorem isWord_formatInt (number : Int32) : IsWord (formatInt number) := by
  obtain ⟨nonempty, noSpace⟩ := isWord_text number.toInt.natAbs
  unfold formatInt
  split
  · refine ⟨List.cons_ne_nil _ _, fun byte member => ?_⟩
    rcases List.mem_cons.mp member with rfl | digit
    · decide
    · exact noSpace byte digit
  · exact ⟨nonempty, noSpace⟩

/-- A numeral does not start with a sign. -/
theorem text_append_ne_cons (number : Nat) (rest more : List UInt8) {byte : UInt8}
    (sign : Decimal.isDigit byte = false) : Decimal.text number ++ rest ≠ byte :: more := by
  intro shape
  obtain ⟨first, others, isText⟩ := List.exists_cons_of_ne_nil (Decimal.text_ne_nil number)
  rw [isText, List.cons_append, List.cons.injEq] at shape
  have digit : Decimal.isDigit first = true :=
    Decimal.isDigit_of_mem_text (by rw [isText]; exact List.mem_cons_self)
  rw [shape.1, sign] at digit
  cases digit

/-- A numeral without sign. -/
theorem strtol_text (number : Nat) {rest : List UInt8}
    (ends : ∀ byte ∈ rest.head?, Decimal.isDigit byte = false) :
    strtol (Decimal.text number ++ rest) = min (2 ^ 63 - 1) (number : Int) := by
  unfold strtol
  rw [dropWhile_isSpace_word (isWord_text number)]
  split
  · rename_i digits shape
    exact absurd shape (text_append_ne_cons number rest digits (by decide))
  · rename_i digits shape
    exact absurd shape (text_append_ne_cons number rest digits (by decide))
  · rw [Decimal.value_text_append number ends]

/-- `atoi` reads back what `%d` printed. -/
theorem atoi_formatInt (number : Int32) {rest : List UInt8}
    (ends : ∀ byte ∈ rest.head?, Decimal.isDigit byte = false) :
    atoi (formatInt number ++ rest) = number := by
  have low : -2 ^ 31 ≤ number.toInt := number.le_toInt
  have high : number.toInt < 2 ^ 31 := number.toInt_lt
  have read : strtol (formatInt number ++ rest) = number.toInt := by
    unfold formatInt
    split
    · rename_i negative
      have start : (45 :: Decimal.text number.toInt.natAbs ++ rest).dropWhile isSpace =
          45 :: (Decimal.text number.toInt.natAbs ++ rest) := by
        rw [List.cons_append, List.dropWhile_cons_of_neg (by decide)]
      unfold strtol
      rw [start]
      show max (-2 ^ 63)
        (-((Decimal.value (Decimal.text number.toInt.natAbs ++ rest) : Nat) : Int)) = _
      rw [Decimal.value_text_append _ ends]
      omega
    · rw [strtol_text _ ends]
      omega
  rw [atoi, read, Int32.ofInt_toInt]

/-- `atoll` reads back the size that `%zu` printed. -/
theorem atollSize_text {size : Nat} (small : size < 2 ^ 63) :
    atollSize (Decimal.text size) = size := by
  have clean : (0 : UInt8) ∉ Decimal.text size := fun member => by
    have digit := Decimal.isDigit_of_mem_text member
    cases digit
  have ends : ∀ byte ∈ ([] : List UInt8).head?, Decimal.isDigit byte = false := by simp
  have read := strtol_text size ends
  rw [List.append_nil] at read
  rw [atollSize, cStr_of_not_mem clean, read]
  omega

/-! ### Numbers with other bytes behind them -/

/-- A number with its sign, within the range of `strtol`. -/
def signedValue (negative : Bool) (value : Nat) : Int :=
  if negative then max (-2 ^ 63) (-(value : Int)) else min (2 ^ 63 - 1) (value : Int)

/-- A number that has begun goes on in the bytes behind it. -/
theorem strtol_begun {bytes : List UInt8} (solid : bytes.dropWhile isSpace ≠ []) :
    ∃ negative digits, ∀ more,
      strtol (bytes ++ more) = signedValue negative (Decimal.value (digits ++ more)) := by
  obtain ⟨first, rest, shape⟩ := List.exists_cons_of_ne_nil solid
  have longer (more : List UInt8) :
      (bytes ++ more).dropWhile isSpace = first :: (rest ++ more) := by
    rw [List.dropWhile_append, shape]
    rfl
  unfold strtol
  by_cases minus : first = 45
  · subst minus
    exact ⟨true, rest, fun more => by rw [longer]; rfl⟩
  by_cases plus : first = 43
  · subst plus
    exact ⟨false, rest, fun more => by rw [longer]; rfl⟩
  · refine ⟨false, first :: rest, fun more => ?_⟩
    rw [longer]
    split
    · rename_i same
      exact absurd (List.cons.inj same).1 minus
    · rename_i same
      exact absurd (List.cons.inj same).1 plus
    · rfl

theorem strtol_blank {bytes : List UInt8} (blank : bytes.dropWhile isSpace = []) :
    strtol bytes = 0 := by
  unfold strtol
  rw [blank]
  rfl

/-- A number that has begun ends in front of a byte that is not a digit. -/
theorem strtol_append {bytes more : List UInt8} (solid : bytes.dropWhile isSpace ≠ [])
    (ends : ∀ byte ∈ more.head?, Decimal.isDigit byte = false) :
    strtol (bytes ++ more) = strtol bytes := by
  obtain ⟨negative, digits, read⟩ := strtol_begun solid
  have alone := read []
  rw [List.append_nil, List.append_nil] at alone
  rw [read, alone, Decimal.value_append _ ends]

/-- Space in front of a number is skipped. -/
theorem strtol_spaces {spaces : List UInt8} (blank : ∀ byte ∈ spaces, isSpace byte = true)
    (bytes : List UInt8) : strtol (spaces ++ bytes) = strtol bytes := by
  unfold strtol
  rw [List.dropWhile_append_of_pos blank]

/-- A digit alone is read. -/
theorem atoi_blank {bytes : List UInt8} (blank : ∀ byte ∈ bytes, isSpace byte = true) :
    atoi bytes = 0 ∧ atoi (bytes ++ [55]) = 7 := by
  unfold atoi
  rw [strtol_blank (List.dropWhile_eq_nil_iff.mpr blank), strtol_spaces blank]
  decide

/-- The number that `atoi` reads is settled by the bytes: one digit more does not change it. -/
def Settled (bytes : List UInt8) : Prop :=
  ∀ digit, Decimal.isDigit digit = true → atoi (bytes ++ [digit]) = atoi bytes

/-- Where the digits 0 and 1 do not change the number as an `int`, it is at the end of its range,
and longer numbers are as well. -/
theorem signedValue_limit {negative : Bool} {value larger : Nat} (atLeast : 10 * value ≤ larger)
    (zero : Int32.ofInt (signedValue negative (10 * value)) =
      Int32.ofInt (signedValue negative value))
    (one : Int32.ofInt (signedValue negative (10 * value + 1)) =
      Int32.ofInt (signedValue negative value)) :
    Int32.ofInt (signedValue negative larger) = Int32.ofInt (signedValue negative value) := by
  have residue (number : Int) : (Int32.ofInt number).toInt % 2 ^ 32 = number % 2 ^ 32 := by
    rw [Int32.toInt_ofInt]
    exact @Int.bmod_emod number (2 ^ 32)
  have differ : signedValue negative (10 * value) % 2 ^ 32 =
      signedValue negative (10 * value + 1) % 2 ^ 32 := by
    rw [← residue, zero.trans one.symm, residue]
  rw [← zero]
  unfold signedValue at differ ⊢
  cases negative with
  | false =>
    simp only [Bool.false_eq_true, if_false] at differ ⊢
    have limit : 2 ^ 63 - 1 ≤ (10 * value : Int) := by omega
    congr 1
    omega
  | true =>
    simp only [if_true] at differ ⊢
    have limit : 2 ^ 63 ≤ (10 * value : Int) := by omega
    congr 1
    omega

/-- A number that is settled is read whatever is behind it. -/
theorem Settled.append {bytes : List UInt8} (settled : Settled bytes) (more : List UInt8) :
    atoi (bytes ++ more) = atoi bytes := by
  by_cases blank : bytes.dropWhile isSpace = []
  · obtain ⟨zero, seven⟩ := atoi_blank (List.dropWhile_eq_nil_iff.mp blank)
    have same := settled 55 (by decide)
    rw [zero, seven] at same
    cases same
  obtain ⟨negative, digits, read⟩ := strtol_begun blank
  have alone := read []
  rw [List.append_nil, List.append_nil] at alone
  by_cases ended : ∃ byte ∈ digits, Decimal.isDigit byte = false
  · rw [atoi, atoi, read, alone, Decimal.value_append_ended ended]
  · have isNumber : ∀ byte ∈ digits, Decimal.isDigit byte = true := by simpa using ended
    have next (digit : UInt8) (isDigit : Decimal.isDigit digit = true) :
        Int32.ofInt (signedValue negative (10 * Decimal.value digits + (digit.toNat - 48))) =
          Int32.ofInt (signedValue negative (Decimal.value digits)) := by
      have same := settled digit isDigit
      rw [atoi, atoi, read, alone, Decimal.value_snoc isNumber isDigit] at same
      exact same
    cases more with
    | nil => rw [List.append_nil]
    | cons first rest =>
      by_cases isDigit : Decimal.isDigit first = true
      · have longer := Decimal.value_le_append (digits ++ [first]) rest
        rw [Decimal.value_snoc isNumber isDigit, List.append_assoc, List.singleton_append] at longer
        rw [atoi, atoi, read, alone]
        exact signedValue_limit (by omega) (next 48 (by decide)) (next 49 (by decide))
      · rw [atoi, atoi, strtol_append blank (by simpa using isDigit)]

end YYNet
