/-
This file is a small library of flat byte storage: 64-bit size arithmetic,
overwriting a stretch of a list, and the copy of a stretch within one list.
Sizes are natural numbers with the wrap-around of a 64-bit word written
out, so that a sum that overflows is a different number and not a larger one.
-/

import Mathlib

namespace Storage

/-! ### Size arithmetic -/

/-- The number of values of a 64-bit size. It is irreducible so that no unification counts
down from it. -/
@[irreducible] def sizeModulus : Nat := 2 ^ 64

/-- The sum of two sizes, wrapping around. -/
def addSize (first second : Nat) : Nat := (first + second) % sizeModulus

/-- The difference of two sizes, wrapping around. -/
def subSize (first second : Nat) : Nat :=
  if second ≤ first then first - second else first + sizeModulus - second

theorem addSize_of_lt {first second : Nat} (fits : first + second < sizeModulus) :
    addSize first second = first + second :=
  Nat.mod_eq_of_lt fits

/-- A sum that overflows once. -/
theorem addSize_of_ge {first second : Nat} (overflows : sizeModulus ≤ first + second)
    (once : first + second < 2 * sizeModulus) :
    addSize first second = first + second - sizeModulus := by
  unfold addSize
  rw [Nat.mod_eq_sub_mod overflows]
  exact Nat.mod_eq_of_lt (by omega)

theorem subSize_of_le {first second : Nat} (ordered : second ≤ first) :
    subSize first second = first - second :=
  if_pos ordered

/-! ### Overwriting a stretch -/

section

variable {Cell : Type*}

/-- Overwrite the cells from `position` on with `data`. -/
def overwrite (cells : List Cell) (position : Nat) (data : List Cell) : List Cell :=
  cells.take position ++ data ++ cells.drop (position + data.length)

/-- The cells from `position` on, `count` of them. -/
def stretch (cells : List Cell) (position count : Nat) : List Cell :=
  (cells.drop position).take count

theorem overwrite_length (cells : List Cell) (position : Nat) (data : List Cell)
    (fits : position + data.length ≤ cells.length) :
    (overwrite cells position data).length = cells.length := by
  simp only [overwrite, List.length_append, List.length_take, List.length_drop]
  omega

theorem stretch_length (cells : List Cell) (position count : Nat)
    (fits : position + count ≤ cells.length) : (stretch cells position count).length = count := by
  simp only [stretch, List.length_take, List.length_drop]
  omega

theorem stretch_zero (cells : List Cell) (position : Nat) : stretch cells position 0 = [] := by
  rw [stretch, List.take_zero]

/-- A stretch splits into two neighbouring stretches. -/
theorem stretch_add (cells : List Cell) (position first second : Nat) :
    stretch cells position (first + second) =
      stretch cells position first ++ stretch cells (position + first) second := by
  rw [stretch, stretch, stretch, List.take_add, List.drop_drop]

/-- The overwritten stretch holds the data. -/
theorem stretch_overwrite_self (cells : List Cell) (position : Nat) (data : List Cell)
    (fits : position ≤ cells.length) :
    stretch (overwrite cells position data) position data.length = data := by
  have front : (cells.take position).length = position := by
    rw [List.length_take]; omega
  rw [stretch, overwrite, List.append_assoc, List.drop_left' front, List.take_left]

/-- A stretch that ends before the overwritten one is unchanged. -/
theorem stretch_overwrite_before (cells : List Cell) (position : Nat) (data : List Cell)
    (start count : Nat) (below : start + count ≤ position) (fits : position ≤ cells.length) :
    stretch (overwrite cells position data) start count = stretch cells start count := by
  have front : (cells.take position).length = position := by
    rw [List.length_take]; omega
  rw [stretch, stretch, overwrite, List.append_assoc,
    List.drop_append_of_le_length (by omega), List.take_append_of_le_length (by
      rw [List.length_drop]; omega), List.drop_take, List.take_take,
    Nat.min_eq_left (by omega)]

/-- A stretch of a list that only grew at its end is unchanged. -/
theorem stretch_append (cells extra : List Cell) (position count : Nat)
    (fits : position + count ≤ cells.length) :
    stretch (cells ++ extra) position count = stretch cells position count := by
  rw [stretch, stretch, List.drop_append_of_le_length (by omega),
    List.take_append_of_le_length (by rw [List.length_drop]; omega)]

/-- A stretch of a list cut behind it is unchanged. -/
theorem stretch_take (cells : List Cell) (size position count : Nat)
    (fits : position + count ≤ size) :
    stretch (cells.take size) position count = stretch cells position count := by
  rw [stretch, stretch, List.drop_take, List.take_take, Nat.min_eq_left (by omega)]

/-- Overwriting inside a stretch overwrites the stretch. -/
theorem stretch_overwrite_inside (cells : List Cell) (start count offset : Nat)
    (data : List Cell) (inside : offset + data.length ≤ count)
    (fits : start + count ≤ cells.length) :
    stretch (overwrite cells (start + offset) data) start count =
      overwrite (stretch cells start count) offset data := by
  have front : (cells.take start).length = start := by
    rw [List.length_take]; omega
  have middle : ((cells.drop start).take offset ++ data).length = offset + data.length := by
    rw [List.length_append, List.length_take, List.length_drop]; omega
  have whole : overwrite cells (start + offset) data =
      cells.take start ++ overwrite (cells.drop start) offset data := by
    rw [overwrite, overwrite, List.take_add, List.drop_drop, List.append_assoc,
      List.append_assoc, List.append_assoc, Nat.add_assoc]
  rw [stretch, whole, List.drop_left' front, overwrite, overwrite, stretch, List.take_append,
    middle, List.take_of_length_le (by omega), List.take_take, Nat.min_eq_left (by omega),
    List.drop_take]

/-- Overwriting a part of a list with as many cells. -/
theorem overwrite_append (front old rest data : List Cell) (same : old.length = data.length) :
    overwrite (front ++ old ++ rest) front.length data = front ++ data ++ rest := by
  have behind : (front ++ old ++ rest).drop (front.length + old.length) = rest := by
    rw [← List.length_append, List.drop_left]
  rw [overwrite, ← same, behind, List.append_assoc front old, List.take_left]

/-! ### Copying within one list -/

/-- Copy the `count` cells from `first` on to `dest` on, as `memmove` does: what is copied are the
cells from before the copy, also where the two stretches overlap. -/
def copyWithin (cells : List Cell) (first dest count : Nat) : List Cell :=
  overwrite cells dest (stretch cells first count)

example : copyWithin [1, 2, 3, 0] 0 1 3 = [1, 1, 2, 3] := rfl

end

end Storage
