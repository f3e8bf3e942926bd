/-
This file is a small library of numbers in network byte order: the bytes of a
number, highest first, and the number that a list of bytes stands for.
-/

import Mathlib

namespace BigEndian

/-- The lowest `width` bytes of a number, highest first. -/
def bytesOf : Nat → Nat → List UInt8
  | 0, _ => []
  | width + 1, number => UInt8.ofNat (number / 256 ^ width) :: bytesOf width number

/-- The number a list of bytes stands for. -/
def valueOf (bytes : List UInt8) : Nat :=
  bytes.foldl (fun value byte => value * 256 + byte.toNat) 0

@[simp] theorem bytesOf_length (width number : Nat) : (bytesOf width number).length = width := by
  induction width with
  | zero => rfl
  | succ width inductionHypothesis => rw [bytesOf, List.length_cons, inductionHypothesis]

theorem foldl_bytesOf (width number start : Nat) :
    (bytesOf width number).foldl (fun value byte => value * 256 + byte.toNat) start =
      start * 256 ^ width + number % 256 ^ width := by
  induction width generalizing start with
  | zero => simp [bytesOf, Nat.mod_one]
  | succ width inductionHypothesis =>
    have split : number % 256 ^ (width + 1) =
        256 ^ width * (number / 256 ^ width % 256) + number % 256 ^ width := by
      rw [pow_succ, Nat.mod_mul]
      ring
    rw [bytesOf, List.foldl_cons, inductionHypothesis, split, UInt8.toNat_ofNat']
    ring

/-- The bytes of a number stand for it, as far as they go. -/
theorem valueOf_bytesOf (width number : Nat) :
    valueOf (bytesOf width number) = number % 256 ^ width := by
  rw [valueOf, foldl_bytesOf, zero_mul, zero_add]

end BigEndian
