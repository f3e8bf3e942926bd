/-
This file models the ring behind the log and proves that, used by one thread at
a time, it is a bounded queue, for exactly the capacities from two to `2 ^ 63`.

A call is modelled step by step: the loads, the weak exchange with its spurious
failures, the access to the data of a slot and the store to its sequence number.
A call that runs alone does what one look at the counters and the slot says,
whatever failed spuriously, and this is the form the later files use.

A slot is free in a lap when its sequence number is the position of that lap, and
full when it is one more. With a single slot, the next lap is one more too: a full
slot looks free to the next writer, which overwrites it. Above `2 ^ 63` the
capacity is rounded up to zero and there is no slot at all.
-/

import YYNet.Lib.PowerOfTwo
import YYNet.Lib.Checked
import YYNet.Lib.Storage

namespace YYNet

open Checked Storage PowerOfTwo

/-- A slot of the ring. -/
structure Slot (Value : Type*) where
  sequence : Nat
  data : Value
  deriving DecidableEq, Repr

/-- `LockFreeCurcularQueue`. -/
structure LockFreeCurcularQueue (Value : Type*) where
  enqueuePos : Nat
  dequeuePos : Nat
  buffer : List (Slot Value)
  bufferMask : Nat
  deriving DecidableEq, Repr

namespace LockFreeCurcularQueue

/-! ### The code -/

/-- `roundUpToPowerOf2`. -/
def roundUpToPowerOf2 (build : Build) (n : Nat) : Except Fault Nat := do
  assert build (0 < n)
  let less := subSize n 1
  let spreadOut := spread (spread (spread (spread (spread (spread less 1) 2) 4) 8) 16) 32
  .ok (addSize spreadOut 1)

/-- `static_cast<intptr_t>` of a size. -/
def castIntptr (size : Nat) : Int := Int.bmod size (2 ^ 64)

/-- What a call returns. -/
inductive Answer (Value : Type*)
  | enqueued (accepted : Bool)
  | dequeued (data : Option Value)
  | told (holds : Bool)
  deriving DecidableEq, Repr

/-- Where a call stands: before the load of its counter, before the load of a sequence number,
before the exchange, before the access to the data, before the store of the sequence number. -/
inductive Frame (Value : Type*)
  | enqueueLoad (data : Value)
  | enqueueRead (data : Value) (pos : Nat)
  | enqueueSwap (data : Value) (pos : Nat)
  | enqueueWrite (data : Value) (pos : Nat)
  | enqueuePublish (pos : Nat)
  | dequeueLoad
  | dequeueRead (pos : Nat)
  | dequeueSwap (pos : Nat)
  | dequeueTake (pos : Nat)
  | dequeueRelease (pos : Nat) (data : Value)
  deriving DecidableEq, Repr

/-- The rest of a call: it goes on, or it has returned. -/
inductive Next (Value : Type*)
  | goesOn (frame : Frame Value)
  | returns (answer : Answer Value)
  deriving DecidableEq, Repr

section

variable {Value : Type}

/-- The constructor. A vector of more slots than fit into half of the address space is refused. -/
def create [Inhabited Value] (build : Build) (slotSize capacity : Nat) :
    Except Fault (LockFreeCurcularQueue Value) := do
  let size ← roundUpToPowerOf2 build capacity
  if (2 ^ 63 - 1) / slotSize < size then .error .lengthError
  else .ok {
    enqueuePos := 0
    dequeuePos := 0
    buffer := (List.range size).map fun index => ⟨index, default⟩
    bufferMask := subSize size 1 }

/-- `buffer_[pos & bufferMask_]`. -/
def slot (q : LockFreeCurcularQueue Value) (pos : Nat) : Except Fault (Slot Value) :=
  match q.buffer[pos &&& q.bufferMask]? with
  | some slot => .ok slot
  | none => .error .outOfBounds

/-- A store to the slot of a position. -/
def updateSlot (q : LockFreeCurcularQueue Value) (pos : Nat) (update : Slot Value → Slot Value) :
    LockFreeCurcularQueue Value :=
  { q with buffer := q.buffer.modify (pos &&& q.bufferMask) update }

/-- One atomic step of `enqueueImpl` or `dequeue`. Only the exchange can fail spuriously. -/
def advance (spurious : Bool) (q : LockFreeCurcularQueue Value) :
    Frame Value → Except Fault (LockFreeCurcularQueue Value × Next Value)
  | .enqueueLoad data => .ok (q, .goesOn (.enqueueRead data q.enqueuePos))
  | .enqueueRead data pos => do
    let slot ← q.slot pos
    let dif := castIntptr slot.sequence - castIntptr pos
    if dif = 0 then .ok (q, .goesOn (.enqueueSwap data pos))
    else if dif < 0 then .ok (q, .returns (.enqueued false))
    else .ok (q, .goesOn (.enqueueLoad data))
  | .enqueueSwap data pos =>
    if spurious = false ∧ q.enqueuePos = pos then
      .ok ({ q with enqueuePos := addSize pos 1 }, .goesOn (.enqueueWrite data pos))
    else .ok (q, .goesOn (.enqueueRead data q.enqueuePos))
  | .enqueueWrite data pos =>
    .ok (q.updateSlot pos ({ · with data := data }), .goesOn (.enqueuePublish pos))
  | .enqueuePublish pos =>
    .ok (q.updateSlot pos ({ · with sequence := addSize pos 1 }), .returns (.enqueued true))
  | .dequeueLoad => .ok (q, .goesOn (.dequeueRead q.dequeuePos))
  | .dequeueRead pos => do
    let slot ← q.slot pos
    let dif := castIntptr slot.sequence - castIntptr (addSize pos 1)
    if dif = 0 then .ok (q, .goesOn (.dequeueSwap pos))
    else if dif < 0 then .ok (q, .returns (.dequeued none))
    else .ok (q, .goesOn .dequeueLoad)
  | .dequeueSwap pos =>
    if spurious = false ∧ q.dequeuePos = pos then
      .ok ({ q with dequeuePos := addSize pos 1 }, .goesOn (.dequeueTake pos))
    else .ok (q, .goesOn (.dequeueRead q.dequeuePos))
  | .dequeueTake pos => do
    let slot ← q.slot pos
    .ok (q, .goesOn (.dequeueRelease pos slot.data))
  | .dequeueRelease pos data =>
    .ok (q.updateSlot pos ({ · with sequence := addSize pos q.buffer.length }),
      .returns (.dequeued (some data)))

/-- `empty`. -/
def empty (q : LockFreeCurcularQueue Value) : Bool := q.dequeuePos = q.enqueuePos

/-- `getRemainCapacity`: what it returns is how many elements are held. -/
def getRemainCapacity (q : LockFreeCurcularQueue Value) : Nat :=
  subSize q.enqueuePos q.dequeuePos

/-- `full`. -/
def full (q : LockFreeCurcularQueue Value) : Bool :=
  q.buffer.length ≤ subSize q.enqueuePos q.dequeuePos

/-! ### Calls made one at a time -/

/-- The spurious failures that are left behind a step. -/
def Frame.remaining : Frame Value → Nat → Nat
  | .enqueueSwap .., spurious => spurious - 1
  | .dequeueSwap .., spurious => spurious - 1
  | _, spurious => spurious

/-- A call that runs alone, its exchange failing spuriously so many times. There is no result
when it leaves the ring or has not returned yet. -/
def finish : Nat → Nat → LockFreeCurcularQueue Value → Frame Value →
    Option (LockFreeCurcularQueue Value × Answer Value)
  | 0, _, _, _ => none
  | fuel + 1, spurious, q, frame =>
    match q.advance (0 < spurious) frame with
    | .error _ => none
    | .ok (after, .returns answer) => some (after, answer)
    | .ok (after, .goesOn next) => finish fuel (frame.remaining spurious) after next

/-- The calls of the public interface, with the spurious failures of their exchange. -/
inductive Call (Value : Type*)
  | enqueue (data : Value) (spurious : Nat)
  | dequeue (spurious : Nat)
  | empty
  | full
  deriving DecidableEq, Repr

/-- One call. -/
def answer (fuel : Nat) (q : LockFreeCurcularQueue Value) :
    Call Value → Option (LockFreeCurcularQueue Value × Answer Value)
  | .enqueue data spurious => finish fuel spurious q (.enqueueLoad data)
  | .dequeue spurious => finish fuel spurious q .dequeueLoad
  | .empty => some (q, .told q.empty)
  | .full => some (q, .told q.full)

/-- Calls one after another, and what they return. -/
def answers (fuel : Nat) : LockFreeCurcularQueue Value → List (Call Value) →
    Option (List (Answer Value))
  | _, [] => some []
  | q, call :: calls =>
    match q.answer fuel call with
    | none => none
    | some (after, first) => (answers fuel after calls).map (first :: ·)

/-! ### A call that runs alone -/

/-- The ring with one element more: the counter has moved, and the slot is written and published. -/
def stored (q : LockFreeCurcularQueue Value) (data : Value) : LockFreeCurcularQueue Value :=
  ({ q with enqueuePos := addSize q.enqueuePos 1 }.updateSlot q.enqueuePos
    ({ · with data := data })).updateSlot q.enqueuePos
      ({ · with sequence := addSize q.enqueuePos 1 })

/-- The ring with one element less: the counter has moved, and the slot is free for its next
lap. -/
def released (q : LockFreeCurcularQueue Value) : LockFreeCurcularQueue Value :=
  { q with dequeuePos := addSize q.dequeuePos 1 }.updateSlot q.dequeuePos
    ({ · with sequence := addSize q.dequeuePos q.buffer.length })

/-- `enqueue` alone: what one look at the counter and the slot decides. There is no result when
there is no slot, or when the call never returns. -/
def enqueue (q : LockFreeCurcularQueue Value) (data : Value) :
    Option (LockFreeCurcularQueue Value × Bool) :=
  match q.slot q.enqueuePos with
  | .error _ => none
  | .ok slot =>
    let dif := castIntptr slot.sequence - castIntptr q.enqueuePos
    if dif = 0 then some (q.stored data, true)
    else if dif < 0 then some (q, false)
    else none

/-- `dequeue` alone. -/
def dequeue (q : LockFreeCurcularQueue Value) :
    Option (LockFreeCurcularQueue Value × Option Value) :=
  match q.slot q.dequeuePos with
  | .error _ => none
  | .ok slot =>
    let dif := castIntptr slot.sequence - castIntptr (addSize q.dequeuePos 1)
    if dif = 0 then some (q.released, some slot.data)
    else if dif < 0 then some (q, none)
    else none

theorem finish_goesOn {q after : LockFreeCurcularQueue Value} {frame next : Frame Value}
    {spurious : Nat} (fuel : Nat)
    (advances : q.advance (0 < spurious) frame = .ok (after, .goesOn next)) :
    finish (fuel + 1) spurious q frame = finish fuel (frame.remaining spurious) after next := by
  rw [finish, advances]

/-- Spurious failures lead back to the same exchange. -/
theorem finish_retries {q : LockFreeCurcularQueue Value} {read swap : Frame Value}
    (reads : ∀ failing, q.advance failing read = .ok (q, .goesOn swap))
    (fails : q.advance true swap = .ok (q, .goesOn read))
    (isRead : ∀ spurious, read.remaining spurious = spurious)
    (isSwap : ∀ spurious, swap.remaining spurious = spurious - 1) (fuel spurious : Nat) :
    finish (fuel + 2 * spurious + 1) spurious q read = finish fuel 0 q swap := by
  induction spurious with
  | zero => rw [Nat.mul_zero, Nat.add_zero, finish_goesOn fuel (reads _), isRead]
  | succ spurious inductionHypothesis =>
    have failing : q.advance (0 < spurious + 1) swap = .ok (q, .goesOn read) := by
      rw [decide_eq_true (Nat.succ_pos spurious)]
      exact fails
    rw [finish_goesOn _ (reads _), isRead, Nat.mul_succ, ← Nat.add_assoc, finish_goesOn _ failing,
      isSwap, Nat.add_sub_cancel]
    exact inductionHypothesis

/-- A loop whose counter does not move comes back to the same comparison for ever. -/
theorem finish_spins {q : LockFreeCurcularQueue Value} {read load : Frame Value}
    (reads : ∀ failing, q.advance failing read = .ok (q, .goesOn load))
    (loads : ∀ failing, q.advance failing load = .ok (q, .goesOn read)) (fuel spurious : Nat) :
    finish fuel spurious q read = none ∧ finish fuel spurious q load = none := by
  induction fuel generalizing spurious with
  | zero => exact ⟨rfl, rfl⟩
  | succ fuel inductionHypothesis =>
    rw [finish_goesOn fuel (reads _), finish_goesOn fuel (loads _)]
    exact ⟨(inductionHypothesis _).2, (inductionHypothesis _).1⟩

/-- A call of `enqueue` that runs alone, whatever failed spuriously. -/
theorem finish_enqueue (q : LockFreeCurcularQueue Value) (data : Value) (spurious : Nat)
    {fuel : Nat} (enough : 2 * spurious + 5 ≤ fuel) :
    finish fuel spurious q (.enqueueLoad data) =
      (q.enqueue data).map fun outcome => (outcome.1, .enqueued outcome.2) := by
  obtain ⟨fuel, rfl⟩ : ∃ less, fuel = less + 3 + 2 * spurious + 1 + 1 :=
    ⟨fuel - (2 * spurious + 5), by omega⟩
  rw [finish_goesOn _ rfl]
  show finish _ spurious q (.enqueueRead data q.enqueuePos) = _
  cases found : q.slot q.enqueuePos with
  | error fault => rw [finish, advance, enqueue, found, error_bind, Option.map_none]
  | ok slot =>
    rw [enqueue, found]
    simp only
    by_cases free : castIntptr slot.sequence - castIntptr q.enqueuePos = 0
    · have reads : ∀ failing, q.advance failing (.enqueueRead data q.enqueuePos) =
          .ok (q, .goesOn (.enqueueSwap data q.enqueuePos)) := by
        intro failing
        rw [advance, found, ok_bind, if_pos free]
      rw [if_pos free, finish_retries reads rfl (fun _ => rfl) (fun _ => rfl)]
      simp [finish, advance, stored]
    · rw [if_neg free]
      by_cases behind : castIntptr slot.sequence - castIntptr q.enqueuePos < 0
      · rw [if_pos behind, finish, advance, found, ok_bind, if_neg free, if_pos behind]
        rfl
      · have reads : ∀ failing, q.advance failing (.enqueueRead data q.enqueuePos) =
            .ok (q, .goesOn (.enqueueLoad data)) := by
          intro failing
          rw [advance, found, ok_bind, if_neg free, if_neg behind]
        rw [if_neg behind, Option.map_none]
        exact (finish_spins reads (fun _ => rfl) _ _).1

/-- A call of `dequeue` that runs alone, whatever failed spuriously. -/
theorem finish_dequeue (q : LockFreeCurcularQueue Value) (spurious : Nat) {fuel : Nat}
    (enough : 2 * spurious + 5 ≤ fuel) :
    finish fuel spurious q .dequeueLoad =
      q.dequeue.map fun outcome => (outcome.1, .dequeued outcome.2) := by
  obtain ⟨fuel, rfl⟩ : ∃ less, fuel = less + 3 + 2 * spurious + 1 + 1 :=
    ⟨fuel - (2 * spurious + 5), by omega⟩
  rw [finish_goesOn _ rfl]
  show finish _ spurious q (.dequeueRead q.dequeuePos) = _
  cases found : q.slot q.dequeuePos with
  | error fault => rw [finish, advance, dequeue, found, error_bind, Option.map_none]
  | ok slot =>
    rw [dequeue, found]
    simp only
    by_cases held : castIntptr slot.sequence - castIntptr (addSize q.dequeuePos 1) = 0
    · have reads : ∀ failing, q.advance failing (.dequeueRead q.dequeuePos) =
          .ok (q, .goesOn (.dequeueSwap q.dequeuePos)) := by
        intro failing
        rw [advance, found, ok_bind, if_pos held]
      have taken : { q with dequeuePos := addSize q.dequeuePos 1 }.slot q.dequeuePos =
          .ok slot := found
      rw [if_pos held, finish_retries reads rfl (fun _ => rfl) (fun _ => rfl)]
      simp [finish, advance, taken, released]
    · rw [if_neg held]
      by_cases behind : castIntptr slot.sequence - castIntptr (addSize q.dequeuePos 1) < 0
      · rw [if_pos behind, finish, advance, found, ok_bind, if_neg held, if_pos behind]
        rfl
      · have reads : ∀ failing, q.advance failing (.dequeueRead q.dequeuePos) =
            .ok (q, .goesOn .dequeueLoad) := by
          intro failing
          rw [advance, found, ok_bind, if_neg held, if_neg behind]
        rw [if_neg behind, Option.map_none]
        exact (finish_spins reads (fun _ => rfl) _ _).1

/-! ### The capacity -/

/-- A capacity of at most `2 ^ 63` is rounded up to the least power of two that is not below it,
a greater one to zero. -/
theorem roundUpToPowerOf2_eq (build : Build) {capacity : Nat} (positive : 0 < capacity)
    (isSize : capacity < 2 ^ 64) :
    roundUpToPowerOf2 build capacity =
      .ok (if capacity ≤ 2 ^ 63 then 2 ^ (capacity - 1).size else 0) := by
  have modulus : sizeModulus = 2 ^ 64 := by unfold sizeModulus; rfl
  have spreadOut := (((((reaches_self (capacity - 1)).spread.spread).spread).spread).spread).spread
  have all := spreadOut.eq_size (show capacity - 1 < 2 ^ 64 by omega)
  simp only [Nat.mul_one, Nat.reduceMul] at all
  have most : (capacity - 1).size ≤ 64 := Nat.size_le.mpr (by omega)
  have nonzero : 0 < 2 ^ (capacity - 1).size := Nat.two_pow_pos _
  rw [roundUpToPowerOf2, assert_of_holds build positive, ok_bind, subSize_of_le positive]
  simp only [all]
  rw [addSize, Nat.sub_add_cancel nonzero, modulus]
  congr 1
  split
  · rename_i small
    have below : (capacity - 1).size ≤ 63 := Nat.size_le.mpr (by omega)
    exact Nat.mod_eq_of_lt (Nat.pow_lt_pow_right Nat.one_lt_two (by omega))
  · rename_i large
    have above : 63 < (capacity - 1).size := Nat.lt_size.mpr (by omega)
    rw [show (capacity - 1).size = 64 by omega]
    exact Nat.mod_self _

/-! ### The ring as a bounded queue -/

theorem castIntptr_of_lt {size : Nat} (small : size < 2 ^ 63) : castIntptr size = size := by
  unfold castIntptr
  rw [Int.bmod_def]
  split <;> omega

/-- Two positions less than a lap apart have different slots. -/
theorem offset_eq_of_mod {base first second size : Nat} (firstLess : first < size)
    (secondLess : second < size) (same : (base + first) % size = (base + second) % size) :
    first = second := by
  have congruent : first ≡ second [MOD size] := Nat.ModEq.add_left_cancel' base same
  rwa [Nat.ModEq, Nat.mod_eq_of_lt firstLess, Nat.mod_eq_of_lt secondLess] at congruent

/-- The ring has `2 ^ exponent` slots and holds `items`: from the position of the next `dequeue`
on, the slots are full in this lap as far as there are items, and free in this lap behind them. -/
structure Holds (q : LockFreeCurcularQueue Value) (exponent : Nat) (items : List Value) : Prop where
  size : q.buffer.length = 2 ^ exponent
  mask : q.bufferMask = 2 ^ exponent - 1
  tail : q.enqueuePos = q.dequeuePos + items.length
  bounded : items.length ≤ 2 ^ exponent
  held : ∀ offset item, items[offset]? = some item →
    q.buffer[(q.dequeuePos + offset) % 2 ^ exponent]? = some ⟨q.dequeuePos + offset + 1, item⟩
  free : ∀ offset, items.length ≤ offset → offset < 2 ^ exponent →
    ∃ data, q.buffer[(q.dequeuePos + offset) % 2 ^ exponent]? = some ⟨q.dequeuePos + offset, data⟩

theorem Holds.slot {q : LockFreeCurcularQueue Value} {exponent : Nat} {items : List Value}
    (holds : q.Holds exponent items) (pos : Nat) {slot : Slot Value}
    (there : q.buffer[pos % 2 ^ exponent]? = some slot) : q.slot pos = .ok slot := by
  rw [LockFreeCurcularQueue.slot, holds.mask, Nat.and_two_pow_sub_one_eq_mod, there]

/-- What the constructor builds, when it admits the capacity. -/
theorem create_eq [Inhabited Value] {build : Build} {slotSize capacity size : Nat}
    (rounded : roundUpToPowerOf2 build capacity = .ok size) {q : LockFreeCurcularQueue Value}
    (created : create build slotSize capacity = .ok q) :
    size ≤ (2 ^ 63 - 1) / slotSize ∧
      q = ⟨0, 0, (List.range size).map fun index => ⟨index, default⟩, subSize size 1⟩ := by
  rw [create, rounded, ok_bind] at created
  split at created
  · cases created
  · rename_i admitted
    exact ⟨not_lt.mp admitted, (Except.ok.inj created).symm⟩

/-- A ring that has just been constructed. -/
theorem create_holds [Inhabited Value] (build : Build) (slotSize : Nat) {capacity : Nat}
    (positive : 0 < capacity) (small : capacity ≤ 2 ^ 63) {q : LockFreeCurcularQueue Value}
    (created : create build slotSize capacity = .ok q) :
    q.Holds (capacity - 1).size [] ∧ q.dequeuePos = 0 ∧ (capacity - 1).size ≤ 62 := by
  have rounded := roundUpToPowerOf2_eq build positive (show capacity < 2 ^ 64 by omega)
  rw [if_pos small] at rounded
  obtain ⟨admitted, rfl⟩ := create_eq rounded created
  have nonzero : 0 < 2 ^ (capacity - 1).size := Nat.two_pow_pos _
  have most : 2 ^ (capacity - 1).size < 2 ^ 63 := by
    have := Nat.div_le_self (2 ^ 63 - 1) slotSize
    omega
  refine ⟨⟨by simp, subSize_of_le nonzero, rfl, Nat.zero_le _, ?_, ?_⟩, rfl, ?_⟩
  · intro offset item there
    cases there
  · intro offset _ inside
    refine ⟨default, ?_⟩
    have place : (0 + offset) % 2 ^ (capacity - 1).size = offset := by
      rw [Nat.zero_add, Nat.mod_eq_of_lt inside]
    simp only [place]
    simp [inside]
  · have := (Nat.pow_lt_pow_iff_right Nat.one_lt_two).mp most
    omega

section

variable {q : LockFreeCurcularQueue Value} {exponent : Nat} {items : List Value}

/-- A full ring refuses: the slot of the next lap is full in this one, which is earlier because
there are two slots or more. -/
theorem Holds.enqueue_full (holds : q.Holds exponent items) (several : 1 ≤ exponent)
    (unwrapped : q.enqueuePos < 2 ^ 63) (isFull : items.length = 2 ^ exponent) (data : Value) :
    q.enqueue data = some (q, false) := by
  have two : 2 ^ 1 ≤ 2 ^ exponent := Nat.pow_le_pow_right Nat.two_pos several
  obtain ⟨first, there⟩ : ∃ first, items[0]? = some first :=
    ⟨items[0], List.getElem?_eq_getElem (by omega)⟩
  have tail := holds.tail
  have oldest := holds.held 0 first there
  have same : (q.dequeuePos + 0) % 2 ^ exponent = q.enqueuePos % 2 ^ exponent := by
    rw [tail, isFull, Nat.add_mod_right, Nat.add_zero]
  rw [same] at oldest
  rw [enqueue, holds.slot _ oldest]
  simp only
  rw [castIntptr_of_lt (by omega), castIntptr_of_lt unwrapped, if_neg (by omega),
    if_pos (by omega)]

/-- A ring with room stores. -/
theorem Holds.enqueue_room (holds : q.Holds exponent items)
    (unwrapped : q.enqueuePos < 2 ^ 63) (room : items.length < 2 ^ exponent) (data : Value) :
    ∃ after, q.enqueue data = some (after, true) ∧ after.Holds exponent (items ++ [data]) ∧
      after.dequeuePos = q.dequeuePos := by
  have modulus : sizeModulus = 2 ^ 64 := by unfold sizeModulus; rfl
  obtain ⟨old, there⟩ := holds.free items.length (le_refl _) room
  have tail := holds.tail
  rw [← tail] at there
  have next : addSize q.enqueuePos 1 = q.enqueuePos + 1 := addSize_of_lt (by omega)
  have accepted : q.enqueue data = some (q.stored data, true) := by
    rw [enqueue, holds.slot _ there]
    simp only
    rw [if_pos (by omega)]
  refine ⟨_, accepted, ⟨?_, holds.mask, ?_, ?_, ?_, ?_⟩, rfl⟩
  · simp [stored, updateSlot, holds.size]
  · show addSize q.enqueuePos 1 = q.dequeuePos + (items ++ [data]).length
    rw [next, tail, List.length_append, List.length_singleton, Nat.add_assoc]
  · rw [List.length_append, List.length_singleton]
    omega
  · intro offset item isItem
    simp only [stored, updateSlot, holds.mask, Nat.and_two_pow_sub_one_eq_mod, List.getElem?_modify, next]
    by_cases last : offset = items.length
    · subst last
      rw [List.getElem?_concat_length] at isItem
      obtain rfl := Option.some.inj isItem
      rw [← tail, there]
      simp
    · have inside : offset < items.length := by
        have := (List.getElem?_eq_some_iff.mp isItem).1
        rw [List.length_append, List.length_singleton] at this
        omega
      have different : q.enqueuePos % 2 ^ exponent ≠ (q.dequeuePos + offset) % 2 ^ exponent := by
        intro same
        rw [tail] at same
        have := offset_eq_of_mod room (by omega) same
        omega
      rw [List.getElem?_append_left inside] at isItem
      rw [holds.held offset item isItem]
      simp [different]
  · intro offset behind inside
    rw [List.length_append, List.length_singleton] at behind
    have different : q.enqueuePos % 2 ^ exponent ≠ (q.dequeuePos + offset) % 2 ^ exponent := by
      intro same
      rw [tail] at same
      have := offset_eq_of_mod room inside same
      omega
    obtain ⟨data, free⟩ := holds.free offset (by omega) inside
    refine ⟨data, ?_⟩
    simp only [stored, updateSlot, holds.mask, Nat.and_two_pow_sub_one_eq_mod, List.getElem?_modify]
    rw [free]
    simp [different]

/-- An empty ring has nothing to take. -/
theorem Holds.dequeue_empty (holds : q.Holds exponent []) (unwrapped : q.dequeuePos + 1 < 2 ^ 63) :
    q.dequeue = some (q, none) := by
  have modulus : sizeModulus = 2 ^ 64 := by unfold sizeModulus; rfl
  obtain ⟨old, there⟩ := holds.free 0 (le_refl _) (Nat.two_pow_pos _)
  rw [Nat.add_zero] at there
  rw [dequeue, holds.slot _ there]
  simp only
  rw [addSize_of_lt (by omega), castIntptr_of_lt (by omega), castIntptr_of_lt unwrapped,
    if_neg (by omega), if_pos (by omega)]

/-- A ring that holds something gives the oldest item. -/
theorem Holds.dequeue_cons {item : Value} (holds : q.Holds exponent (item :: items))
    (small : exponent ≤ 62) (unwrapped : q.dequeuePos + 1 < 2 ^ 63) :
    ∃ after, q.dequeue = some (after, some item) ∧ after.Holds exponent items ∧
      after.dequeuePos = q.dequeuePos + 1 := by
  have modulus : sizeModulus = 2 ^ 64 := by unfold sizeModulus; rfl
  have most : 2 ^ exponent ≤ 2 ^ 62 := Nat.pow_le_pow_right Nat.two_pos small
  have there := holds.held 0 item rfl
  rw [Nat.add_zero] at there
  have tail := holds.tail
  have bounded := holds.bounded
  rw [List.length_cons] at tail bounded
  have next : addSize q.dequeuePos 1 = q.dequeuePos + 1 := addSize_of_lt (by omega)
  have nextLap : addSize q.dequeuePos q.buffer.length = q.dequeuePos + 2 ^ exponent := by
    rw [holds.size]
    exact addSize_of_lt (by omega)
  have taken : q.dequeue = some (q.released, some item) := by
    rw [dequeue, holds.slot _ there]
    simp only
    rw [if_pos (by rw [next]; omega)]
  have different : ∀ offset, offset + 1 < 2 ^ exponent →
      q.dequeuePos % 2 ^ exponent ≠ (q.dequeuePos + (offset + 1)) % 2 ^ exponent := by
    intro offset inside same
    have := offset_eq_of_mod (Nat.two_pow_pos exponent) inside same
    omega
  refine ⟨_, taken, ⟨?_, holds.mask, ?_, by omega, ?_, ?_⟩, by simp [released, updateSlot, next]⟩
  · simp [released, updateSlot, holds.size]
  · simp [released, updateSlot, next, tail]
    omega
  · intro offset other isOther
    have inside := (List.getElem?_eq_some_iff.mp isOther).1
    have later := holds.held (offset + 1) other (by simpa using isOther)
    simp only [released, updateSlot, holds.mask, Nat.and_two_pow_sub_one_eq_mod, List.getElem?_modify, next,
      Nat.add_right_comm q.dequeuePos 1, Nat.add_assoc q.dequeuePos offset 1]
    rw [later]
    simp [different offset (by omega)]
  · intro offset behind inside
    simp only [released, updateSlot, holds.mask, Nat.and_two_pow_sub_one_eq_mod, List.getElem?_modify, next,
      Nat.add_right_comm q.dequeuePos 1, Nat.add_assoc q.dequeuePos offset 1, nextLap]
    by_cases last : offset + 1 = 2 ^ exponent
    · refine ⟨item, ?_⟩
      rw [last, Nat.add_mod_right, there]
      simp
    · obtain ⟨data, free⟩ := holds.free (offset + 1) (by simpa using behind) (by omega)
      refine ⟨data, ?_⟩
      rw [free]
      simp [different offset (by omega)]

end

/-! ### The main theorem -/

/-- A bounded queue: what it holds behind a call and what the call returns. -/
def fifoAnswer (bound : Nat) (items : List Value) : Call Value → List Value × Answer Value
  | .enqueue data _ =>
    if items.length = bound then (items, .enqueued false) else (items ++ [data], .enqueued true)
  | .dequeue _ =>
    match items with
    | [] => ([], .dequeued none)
    | item :: rest => (rest, .dequeued (some item))
  | .empty => (items, .told (items.length = 0))
  | .full => (items, .told (items.length = bound))

/-- What a bounded queue returns to calls one after another. -/
def fifoAnswers (bound : Nat) : List Value → List (Call Value) → List (Answer Value)
  | _, [] => []
  | items, call :: calls =>
    (fifoAnswer bound items call).2 :: fifoAnswers bound (fifoAnswer bound items call).1 calls

/-- The ring behaves as a bounded queue: in every sequence of fewer than `2 ^ 63` calls, whatever
fails spuriously, every call returns what a bounded queue returns. -/
def BehavesAsFifo (q : LockFreeCurcularQueue Value) (bound : Nat) : Prop :=
  ∀ calls : List (Call Value), calls.length < 2 ^ 63 →
    ∃ enough, ∀ fuel, enough ≤ fuel → q.answers fuel calls = some (fifoAnswers bound [] calls)

/-- The steps a call needs. -/
def Call.steps : Call Value → Nat
  | .enqueue _ spurious => 2 * spurious + 5
  | .dequeue spurious => 2 * spurious + 5
  | .empty => 0
  | .full => 0

/-- One call of a ring that holds some items: the counters move together by one at most. -/
theorem Holds.answer {q : LockFreeCurcularQueue Value} {exponent : Nat} {items : List Value}
    (holds : q.Holds exponent items) (several : 1 ≤ exponent) (small : exponent ≤ 62)
    (unwrapped : q.enqueuePos + q.dequeuePos + 1 < 2 ^ 63) (call : Call Value) {fuel : Nat}
    (enough : call.steps ≤ fuel) :
    ∃ after, q.answer fuel call = some (after, (fifoAnswer (2 ^ exponent) items call).2) ∧
      after.Holds exponent (fifoAnswer (2 ^ exponent) items call).1 ∧
      after.enqueuePos + after.dequeuePos ≤ q.enqueuePos + q.dequeuePos + 1 := by
  have tail := holds.tail
  have bounded := holds.bounded
  cases call with
  | enqueue data spurious =>
    rw [LockFreeCurcularQueue.answer, finish_enqueue q data spurious enough, fifoAnswer]
    by_cases isFull : items.length = 2 ^ exponent
    · rw [if_pos isFull, holds.enqueue_full several (by omega) isFull data]
      exact ⟨q, rfl, holds, by omega⟩
    · obtain ⟨after, accepted, afterHolds, head⟩ :=
        holds.enqueue_room (by omega) (by omega) data
      rw [if_neg isFull, accepted]
      refine ⟨after, rfl, afterHolds, ?_⟩
      have afterTail := afterHolds.tail
      rw [List.length_append, List.length_singleton] at afterTail
      omega
  | dequeue spurious =>
    rw [LockFreeCurcularQueue.answer, finish_dequeue q spurious enough]
    cases items with
    | nil =>
      rw [holds.dequeue_empty (by omega)]
      exact ⟨q, rfl, holds, by omega⟩
    | cons item rest =>
      obtain ⟨after, taken, afterHolds, head⟩ := holds.dequeue_cons small (by omega)
      rw [taken]
      refine ⟨after, rfl, afterHolds, ?_⟩
      have afterTail := afterHolds.tail
      rw [List.length_cons] at tail
      omega
  | empty =>
    have same : q.empty = decide (items.length = 0) := by
      rw [LockFreeCurcularQueue.empty, tail]
      exact decide_eq_decide.mpr (by omega)
    rw [LockFreeCurcularQueue.answer, fifoAnswer, same]
    exact ⟨q, rfl, holds, by omega⟩
  | full =>
    have same : q.full = decide (items.length = 2 ^ exponent) := by
      rw [LockFreeCurcularQueue.full, subSize_of_le (by omega), holds.size]
      exact decide_eq_decide.mpr (by omega)
    rw [LockFreeCurcularQueue.answer, fifoAnswer, same]
    exact ⟨q, rfl, holds, by omega⟩

/-- All calls of a ring that holds some items. -/
theorem Holds.answers {q : LockFreeCurcularQueue Value} {exponent : Nat} {items : List Value}
    (holds : q.Holds exponent items) (several : 1 ≤ exponent) (small : exponent ≤ 62)
    {calls : List (Call Value)}
    (unwrapped : q.enqueuePos + q.dequeuePos + calls.length < 2 ^ 63) {fuel : Nat}
    (enough : ∀ call ∈ calls, call.steps ≤ fuel) :
    q.answers fuel calls = some (fifoAnswers (2 ^ exponent) items calls) := by
  induction calls generalizing q items with
  | nil => rfl
  | cons call rest inductionHypothesis =>
    rw [List.length_cons] at unwrapped
    obtain ⟨after, first, afterHolds, moved⟩ := holds.answer several small (by omega) call
      (enough call List.mem_cons_self)
    have later := inductionHypothesis afterHolds (by omega)
      (fun other member => enough other (List.mem_cons_of_mem _ member))
    rw [LockFreeCurcularQueue.answers, first, fifoAnswers]
    simp only
    rw [later, Option.map_some]

/-- The single slot of a ring looks free whether it holds something or not. -/
theorem enqueue_single {q : LockFreeCurcularQueue Value} (old : Value)
    (unwrapped : q.enqueuePos < 2 ^ 63) (single : q.buffer = [⟨q.enqueuePos, old⟩])
    (mask : q.bufferMask = 0) (data : Value) :
    ∃ after, q.enqueue data = some (after, true) ∧ after.enqueuePos = q.enqueuePos + 1 ∧
      after.buffer = [⟨q.enqueuePos + 1, data⟩] ∧ after.bufferMask = 0 := by
  have modulus : sizeModulus = 2 ^ 64 := by unfold sizeModulus; rfl
  have next : addSize q.enqueuePos 1 = q.enqueuePos + 1 := addSize_of_lt (by omega)
  have there : q.slot q.enqueuePos = .ok ⟨q.enqueuePos, old⟩ := by
    rw [slot, mask, Nat.and_zero, single]
    rfl
  refine ⟨q.stored data, ?_, next, ?_, mask⟩
  · rw [enqueue, there]
    exact if_pos (Int.sub_self _)
  · simp [stored, updateSlot, mask, single, next]

/-- Without a slot there is nothing to look at. -/
theorem enqueue_none {q : LockFreeCurcularQueue Value} (none : q.buffer = []) (data : Value) :
    q.enqueue data = .none := by
  rw [enqueue, slot, none]
  rfl

/-- With a single slot, a second element overwrites the first one. -/
theorem not_behavesAsFifo_single (old : Value) :
    ¬ (⟨0, 0, [⟨0, old⟩], 0⟩ : LockFreeCurcularQueue Value).BehavesAsFifo 1 := by
  intro behaves
  obtain ⟨enough, returns⟩ := behaves [.enqueue old 0, .enqueue old 0] (by simp)
  have answered := returns (enough + 5) (by omega)
  obtain ⟨first, stores, position, buffer, mask⟩ :=
    enqueue_single (q := (⟨0, 0, [⟨0, old⟩], 0⟩ : LockFreeCurcularQueue Value)) old
      (by norm_num) rfl rfl old
  obtain ⟨second, overwrites, -⟩ := enqueue_single (q := first) old
    (by rw [position]; norm_num) (by rw [buffer, position]) mask old
  rw [answers, answer, finish_enqueue _ old 0 (by omega), stores, Option.map_some] at answered
  simp only at answered
  rw [answers, answer, finish_enqueue first old 0 (by omega), overwrites,
    Option.map_some] at answered
  simp [answers, fifoAnswers, fifoAnswer] at answered

/-- Without a slot, no call returns. -/
theorem not_behavesAsFifo_none {q : LockFreeCurcularQueue Value} (none : q.buffer = [])
    (data : Value) (bound : Nat) : ¬ q.BehavesAsFifo bound := by
  intro behaves
  obtain ⟨enough, returns⟩ := behaves [.enqueue data 0] (by simp)
  have answered := returns (enough + 5) (by omega)
  rw [answers, answer, finish_enqueue _ data 0 (by omega), enqueue_none none] at answered
  cases answered

/-- For every capacity that the constructor admits, the ring behaves as a bounded queue of as many
elements as it has slots, if and only if the capacity is at least two and at most `2 ^ 63`. -/
theorem behavesAsFifo_iff [Inhabited Value] (build : Build) (slotSize capacity : Nat)
    (positive : 1 ≤ capacity) (isSize : capacity < 2 ^ 64) (q : LockFreeCurcularQueue Value)
    (size : Nat) (rounded : roundUpToPowerOf2 build capacity = .ok size)
    (created : create build slotSize capacity = .ok q) :
    q.BehavesAsFifo size ↔ 2 ≤ capacity ∧ capacity ≤ 2 ^ 63 := by
  constructor
  · intro behaves
    by_contra other
    have extreme : capacity = 1 ∨ 2 ^ 63 < capacity := by omega
    obtain ⟨-, rfl⟩ := create_eq rounded created
    rw [roundUpToPowerOf2_eq build positive isSize] at rounded
    rcases extreme with rfl | large
    · obtain rfl : 1 = size := by simpa using rounded
      exact not_behavesAsFifo_single default behaves
    · rw [if_neg (by omega)] at rounded
      obtain rfl := Except.ok.inj rounded
      exact not_behavesAsFifo_none rfl default 0 behaves
  · rintro ⟨least, most⟩
    obtain ⟨holds, head, small⟩ := create_holds build slotSize positive most created
    rw [roundUpToPowerOf2_eq build positive isSize, if_pos most] at rounded
    obtain rfl := Except.ok.inj rounded
    have several : 1 ≤ (capacity - 1).size := by
      have : 0 < (capacity - 1).size := Nat.lt_size.mpr (by omega)
      omega
    have tail := holds.tail
    intro calls few
    refine ⟨(calls.map Call.steps).sum, fun fuel enough => holds.answers several small ?_ ?_⟩
    · rw [List.length_nil] at tail
      omega
    · intro call member
      exact (List.le_sum_of_mem (List.mem_map_of_mem member)).trans enough

/-- A capacity of three gives four slots. -/
theorem behavesAsFifo_three :
    (⟨0, 0, [⟨0, 0⟩, ⟨1, 0⟩, ⟨2, 0⟩, ⟨3, 0⟩], 3⟩ : LockFreeCurcularQueue Nat).BehavesAsFifo 4 :=
  (behavesAsFifo_iff .debug 16 3 (by decide) (by decide) _ 4 (by decide +kernel)
    (by decide +kernel)).mpr (by decide)

/-- A capacity of one is admitted, and the ring accepts an element while it holds one. -/
theorem not_behavesAsFifo_one :
    roundUpToPowerOf2 .debug 1 = .ok 1 ∧
      create .debug 16 1 = .ok (⟨0, 0, [⟨0, 0⟩], 0⟩ : LockFreeCurcularQueue Nat) ∧
      ¬ (⟨0, 0, [⟨0, 0⟩], 0⟩ : LockFreeCurcularQueue Nat).BehavesAsFifo 1 :=
  ⟨by decide +kernel, by decide +kernel, not_behavesAsFifo_single 0⟩

end

end LockFreeCurcularQueue

end YYNet
