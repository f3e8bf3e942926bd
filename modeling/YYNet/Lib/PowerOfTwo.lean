/-
This file is a small library of rounding up to a power of two with shifts: every
bit of a number is spread to the places below it, the reach doubling each time,
until all places below the highest bit are set.
-/

import Mathlib

namespace PowerOfTwo

/-- Spread every bit `distance` places down. -/
def spread (number distance : Nat) : Nat := number ||| number >>> distance

/-- A place of `number` is set when a bit of `source` is there or less than `reach` above. -/
def Reaches (source number reach : Nat) : Prop :=
  ∀ place, number.testBit place = true ↔ ∃ distance < reach, source.testBit (place + distance) = true

theorem reaches_self (source : Nat) : Reaches source source 1 := by
  intro place
  constructor
  · intro isSet
    exact ⟨0, Nat.one_pos, isSet⟩
  · rintro ⟨distance, less, isSet⟩
    obtain rfl : distance = 0 := by omega
    exact isSet

/-- Spreading as far as the reach doubles the reach. -/
theorem Reaches.spread {source number reach : Nat} (reaches : Reaches source number reach) :
    Reaches source (spread number reach) (2 * reach) := by
  intro place
  rw [PowerOfTwo.spread, Nat.testBit_or, Bool.or_eq_true, Nat.testBit_shiftRight,
    Nat.add_comm reach place, reaches place, reaches (place + reach)]
  constructor
  · rintro (⟨distance, less, isSet⟩ | ⟨distance, less, isSet⟩)
    · exact ⟨distance, by omega, isSet⟩
    · exact ⟨reach + distance, by omega, by rwa [← Nat.add_assoc]⟩
  · rintro ⟨distance, less, isSet⟩
    by_cases near : distance < reach
    · exact .inl ⟨distance, near, isSet⟩
    · refine .inr ⟨distance - reach, by omega, ?_⟩
      rwa [Nat.add_assoc, Nat.add_sub_cancel' (not_lt.mp near)]

/-- When the reach covers the number, all places below its highest bit are set. -/
theorem Reaches.eq_size {source number reach : Nat} (reaches : Reaches source number reach)
    (covers : source < 2 ^ reach) : number = 2 ^ source.size - 1 := by
  refine Nat.eq_of_testBit_eq fun place => ?_
  rw [Nat.testBit_two_pow_sub_one, Bool.eq_iff_iff, decide_eq_true_iff, Nat.lt_size, reaches place]
  constructor
  · rintro ⟨distance, -, isSet⟩
    calc 2 ^ place ≤ 2 ^ (place + distance) := Nat.pow_le_pow_right Nat.two_pos (Nat.le_add_right _ _)
      _ ≤ source := Nat.ge_two_pow_of_testBit isSet
  · intro large
    obtain ⟨high, above, isSet⟩ := Nat.exists_ge_and_testBit_of_ge_two_pow large
    have below : high < reach := by
      by_contra far
      have := Nat.ge_two_pow_of_testBit isSet
      have := Nat.pow_le_pow_right Nat.two_pos (not_lt.mp far)
      omega
    exact ⟨high - place, by omega, by rwa [Nat.add_sub_cancel' above]⟩

/-- The power behind a number is the least one that is not below its successor. -/
theorem lt_two_pow_size_iff {number bound : Nat} :
    2 ^ number.size ≤ 2 ^ bound ↔ number < 2 ^ bound := by
  rw [Nat.pow_le_pow_iff_right Nat.one_lt_two, Nat.size_le]

end PowerOfTwo
