/-
This file is a small library of decimal numerals as bytes: the text of a number,
and the number a text starts with. Reading stops at the first byte that is not
a digit, so a numeral is read back whatever else follows it.
-/

import Mathlib

namespace Decimal

/-- The bytes `'0'` to `'9'`. -/
def isDigit (byte : UInt8) : Bool := 48 ≤ byte && byte ≤ 57

/-- The numeral of a number. -/
def text (number : Nat) : List UInt8 :=
  if number = 0 then [48]
  else (Nat.digits 10 number).reverse.map fun digit => UInt8.ofNat (48 + digit)

/-- The number that a text starts with, or zero. -/
def value (bytes : List UInt8) : Nat :=
  (bytes.takeWhile isDigit).foldl (fun sum byte => 10 * sum + (byte.toNat - 48)) 0

theorem digit_toNat {digit : Nat} (small : digit < 10) :
    (UInt8.ofNat (48 + digit)).toNat = 48 + digit := by
  rw [UInt8.toNat_ofNat']
  omega

theorem text_ne_nil (number : Nat) : text number ≠ [] := by
  unfold text
  split
  · exact List.cons_ne_nil _ _
  · rename_i positive
    rw [ne_eq, List.map_eq_nil_iff, List.reverse_eq_nil_iff]
    exact Nat.digits_ne_nil_iff_ne_zero.mpr positive

/-- A numeral has digits only. -/
theorem isDigit_of_mem_text {number : Nat} {byte : UInt8} (member : byte ∈ text number) :
    isDigit byte = true := by
  unfold text at member
  split at member
  · rw [List.mem_singleton.mp member]
    decide
  · obtain ⟨digit, digits, rfl⟩ := List.mem_map.mp member
    have small := Nat.digits_lt_base (by decide : 1 < 10) (List.mem_reverse.mp digits)
    have same := digit_toNat small
    simp only [isDigit, UInt8.le_iff_toNat_le, same, Bool.and_eq_true, decide_eq_true_eq]
    exact ⟨by simp, by simp; omega⟩

/-- The length of a numeral. -/
theorem length_text_le {number count : Nat} (positive : 0 < count) (small : number < 10 ^ count) :
    (text number).length ≤ count := by
  unfold text
  split
  · exact positive
  · rw [List.length_map, List.length_reverse]
    exact (Nat.digits_length_le_iff (by decide) number).mpr small

/-- The value of the digits of a number. -/
theorem foldl_text (number : Nat) :
    (text number).foldl (fun sum byte => 10 * sum + (byte.toNat - 48)) 0 = number := by
  unfold text
  split
  · rename_i zero
    rw [zero]
    rfl
  · rw [List.foldl_map, List.foldl_reverse]
    have same : (Nat.digits 10 number).foldr
        (fun digit sum => 10 * sum + ((UInt8.ofNat (48 + digit)).toNat - 48)) 0 =
        (Nat.digits 10 number).foldr (fun digit sum => digit + 10 * sum) 0 := by
      refine List.foldr_ext _ _ _ fun digit digits sum => ?_
      rw [digit_toNat (Nat.digits_lt_base (by decide) digits)]
      omega
    have digits := Nat.ofDigits_digits 10 number
    rw [Nat.ofDigits_eq_foldr] at digits
    exact same.trans digits

/-- Bytes behind a byte that is not a digit do not count. -/
theorem value_append (front : List UInt8) {rest : List UInt8}
    (ends : ∀ byte ∈ rest.head?, isDigit byte = false) :
    value (front ++ rest) = value front := by
  have taken : (front ++ rest).takeWhile isDigit = front.takeWhile isDigit := by
    induction front with
    | nil =>
      cases rest with
      | nil => rfl
      | cons first more => exact List.takeWhile_cons_of_neg (by simpa using ends first rfl)
    | cons byte front inductionHypothesis =>
      rw [List.cons_append, List.takeWhile_cons, List.takeWhile_cons, inductionHypothesis]
  rw [value, value, taken]

/-- Bytes behind a text that ends its number inside do not count. -/
theorem value_append_ended {front : List UInt8} (ended : ∃ byte ∈ front, isDigit byte = false)
    (more : List UInt8) : value (front ++ more) = value front := by
  obtain ⟨byte, member, stops⟩ := ended
  obtain ⟨before, after, rfl⟩ := List.append_of_mem member
  rw [List.append_assoc, value_append before (by simpa using stops),
    value_append before (by simpa using stops)]

/-- One digit more. -/
theorem value_snoc {front : List UInt8} {digit : UInt8}
    (digits : ∀ byte ∈ front, isDigit byte = true) (isLast : isDigit digit = true) :
    value (front ++ [digit]) = 10 * value front + (digit.toNat - 48) := by
  have whole : ∀ byte ∈ front ++ [digit], isDigit byte = true := by
    intro byte member
    rcases List.mem_append.mp member with early | late
    · exact digits byte early
    · rw [List.mem_singleton.mp late]
      exact isLast
  rw [value, value, List.takeWhile_eq_self_iff.mpr whole, List.takeWhile_eq_self_iff.mpr digits,
    List.foldl_append]
  rfl

/-- A longer text has no smaller number. -/
theorem value_le_append (front more : List UInt8) : value front ≤ value (front ++ more) := by
  induction more using List.reverseRecOn with
  | nil => rw [List.append_nil]
  | append_singleton more byte inductionHypothesis =>
    rw [← List.append_assoc]
    refine inductionHypothesis.trans ?_
    by_cases ended : ∃ other ∈ front ++ more, isDigit other = false
    · rw [value_append_ended ended]
    · have digits : ∀ other ∈ front ++ more, isDigit other = true := by
        simpa using ended
      by_cases isLast : isDigit byte = true
      · rw [value_snoc digits isLast]
        omega
      · rw [value_append (front ++ more) (by simpa using isLast)]

/-- A numeral is read back, whatever follows it that is not a digit. -/
theorem value_text_append (number : Nat) {rest : List UInt8}
    (ends : ∀ byte ∈ rest.head?, isDigit byte = false) : value (text number ++ rest) = number := by
  rw [value_append _ ends, value,
    List.takeWhile_eq_self_iff.mpr fun byte member => isDigit_of_mem_text member, foldl_text]

end Decimal
