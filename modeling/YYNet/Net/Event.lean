/-
This file models `LogicEvent` and `Event`: the bits a handler asks for and the
bits the poller reports. Testing for a bit, adding it and removing it are
masking operations; the lemmas read them as facts about single bits.
-/

import Mathlib

namespace YYNet

/-- The single bits of `LogicEvent`. -/
inductive LogicEvent
  | read
  | except
  | write
  | error
  | hup
  | nval
  | rdHup
  | edge
  | oneShot
  deriving DecidableEq, Repr

namespace LogicEvent

/-- The position of a bit in the mask. -/
def shift : LogicEvent → Nat
  | read => 0
  | except => 1
  | write => 2
  | error => 3
  | hup => 4
  | nval => 5
  | rdHup => 6
  | edge => 7
  | oneShot => 8

/-- The enumerator's value. -/
def value (event : LogicEvent) : BitVec 32 := 1#32 <<< event.shift

end LogicEvent

/-- `Event`, a mask of 32 bits. -/
structure Event where
  events : BitVec 32
  deriving DecidableEq, Repr

namespace Event

/-- `has`, which is also `operator&`. -/
def has (e : Event) (event : LogicEvent) : Bool := e.events &&& event.value != 0#32

def add (e : Event) (event : LogicEvent) : Event := ⟨e.events ||| event.value⟩

def remove (e : Event) (event : LogicEvent) : Event := ⟨e.events &&& ~~~event.value⟩

/-- The bits of `valid_mask` in `validate`. -/
def validMask : BitVec 32 := 0x1ff#32

def validate (e : Event) : Bool := e.events &&& ~~~validMask == 0#32

/-- Masking with a single bit asks for that bit. -/
theorem mask_ne_zero (bits : BitVec 32) (shift : Nat) (inside : shift < 32) :
    (bits &&& 1#32 <<< shift != 0#32) = bits.getLsbD shift := by
  rw [← BitVec.twoPow_eq, BitVec.and_twoPow]
  have positive : BitVec.twoPow 32 shift ≠ 0#32 := by
    intro zero
    have bit := congrArg (BitVec.getLsbD · shift) zero
    simp [inside] at bit
  cases bits.getLsbD shift <;> simp [positive]

/-- A valid mask has no bit above those of `LogicEvent`. -/
theorem validate_iff (e : Event) :
    e.validate = true ↔ ∀ index, 9 ≤ index → e.events.getLsbD index = false := by
  have bits (index : Nat) : validMask.getLsbD index = decide (index < 9) := by
    by_cases inside : index < 32
    · revert inside
      revert index
      decide
    · rw [BitVec.getLsbD_of_ge _ _ (by omega)]
      simp
      omega
  rw [validate, beq_iff_eq]
  constructor
  · intro zero index high
    have bit := congrArg (BitVec.getLsbD · index) zero
    by_cases inside : index < 32
    · simp only [BitVec.getLsbD_and, BitVec.getLsbD_not, inside, bits, Nat.not_lt.mpr high,
        BitVec.getLsbD_zero] at bit
      simpa using bit
    · exact BitVec.getLsbD_of_ge _ _ (by omega)
  · intro high
    refine BitVec.eq_of_getLsbD_eq fun index inside => ?_
    by_cases low : index < 9
    · simp only [BitVec.getLsbD_and, BitVec.getLsbD_not, bits, low, BitVec.getLsbD_zero]
      simp
    · simp only [BitVec.getLsbD_and, high index (by omega), BitVec.getLsbD_zero, Bool.false_and]

end Event

end YYNet
