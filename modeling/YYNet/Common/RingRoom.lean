/-
This file proves what the size of the ring is and when the room it reports is the
room it has, in every state reached by completed calls, however many they are.

The size is the least power of two that is not below the capacity, so masking a
position is taking it modulo the size. `getRemainCapacity` answers with the
difference of the two counters. That is how many elements are held, which is the
room only when the ring is half full.

The counters wrap around, and the slots do not notice, because the size divides
the modulus. The comparison of a slot with a counter does: the two are cast to a
signed word before they are subtracted, and across `2 ^ 63` the difference does not
fit. A full ring that lies across that position never refuses.
-/

import YYNet.Lib.Transition
import YYNet.Common.LockFreeQueue

namespace YYNet

open Checked Storage PowerOfTwo Transition

namespace LockFreeCurcularQueue

variable {Value : Type}

/-! ### The size -/

/-- From one to `2 ^ 63`, rounding up gives the least power of two that is not below, and in a
ring of that size masking a position is taking it modulo the size. -/
theorem roundUpToPowerOf2_least [Inhabited Value] (build : Build) (n : Nat) (positive : 1 ≤ n)
    (most : n ≤ 2 ^ 63) :
    ∃ exponent, roundUpToPowerOf2 build n = .ok (2 ^ exponent) ∧ n ≤ 2 ^ exponent ∧
      (∀ other, n ≤ 2 ^ other → 2 ^ exponent ≤ 2 ^ other) ∧
      ∀ slotSize (q : LockFreeCurcularQueue Value), create build slotSize n = .ok q →
        q.buffer.length = 2 ^ exponent ∧
          ∀ pos, pos &&& q.bufferMask = pos % q.buffer.length := by
  have rounded := roundUpToPowerOf2_eq build positive (show n < 2 ^ 64 by omega)
  rw [if_pos most] at rounded
  have covers : n - 1 < 2 ^ (n - 1).size := lt_two_pow_size_iff.mp (le_refl _)
  refine ⟨(n - 1).size, rounded, by omega, fun other above => ?_, fun slotSize q created => ?_⟩
  · exact lt_two_pow_size_iff.mpr (by omega)
  · obtain ⟨-, rfl⟩ := create_eq rounded created
    have size : ((List.range (2 ^ (n - 1).size)).map
        fun index => (⟨index, default⟩ : Slot Value)).length = 2 ^ (n - 1).size := by simp
    refine ⟨size, fun pos => ?_⟩
    simp only [size, subSize_of_le (Nat.one_le_two_pow)]
    exact Nat.and_two_pow_sub_one_eq_mod pos _

/-- Five is rounded up to eight, and a ring of eight slots is made. -/
theorem roundUpToPowerOf2_least_five : ∃ q : LockFreeCurcularQueue Nat,
    create .debug 16 5 = .ok q ∧ q.buffer.length = 8 ∧ ∀ pos, pos &&& q.bufferMask = pos % 8 := by
  have made : ((create .debug 16 5 : Except Fault (LockFreeCurcularQueue Nat)).toOption.map
      fun q => q.buffer.length) = some 8 := by
    decide +kernel
  obtain ⟨q, created, size⟩ := Option.map_eq_some_iff.mp made
  have created := toOption_eq_some created
  obtain ⟨_, -, -, -, rings⟩ :=
    @roundUpToPowerOf2_least Nat _ .debug 5 (by decide) (by decide)
  obtain ⟨-, masked⟩ := rings 16 q created
  rw [size] at masked
  exact ⟨q, created, size, masked⟩

/-! ### What the room is -/

/-- A call that returns, with every number of steps that is large enough. -/
def Completes (q : LockFreeCurcularQueue Value) (call : Call Value × Answer Value)
    (after : LockFreeCurcularQueue Value) : Prop :=
  ∃ enough, ∀ fuel, enough ≤ fuel → q.answer fuel call.1 = some (after, call.2)

/-- So many further calls of `enqueue` succeed, and the one behind them returns false. -/
def Accepts (q : LockFreeCurcularQueue Value) : Nat → Prop
  | 0 => ∀ data spurious, ∃ after,
      q.Completes (.enqueue data spurious, .enqueued false) after
  | count + 1 => ∀ data spurious, ∃ after,
      q.Completes (.enqueue data spurious, .enqueued true) after ∧ after.Accepts count

def Answer.isAccepted : Answer Value → Bool
  | .enqueued accepted => accepted
  | _ => false

def Answer.isTaken : Answer Value → Bool
  | .dequeued data => data.isSome
  | _ => false

/-- How many elements were accepted. -/
def accepted (history : List (Call Value × Answer Value)) : Nat :=
  history.countP fun call => call.2.isAccepted

/-- How many elements were taken. -/
def taken (history : List (Call Value × Answer Value)) : Nat :=
  history.countP fun call => call.2.isTaken

/-- A position and one `distance` behind it are cast to two signed words whose difference does
not fit into one. -/
def Straddles (count distance : Nat) : Prop :=
  count % 2 ^ 64 < 2 ^ 63 ∧ 2 ^ 63 ≤ count % 2 ^ 64 + distance

instance straddlesDecidable (count distance : Nat) : Decidable (Straddles count distance) :=
  inferInstanceAs (Decidable (_ ∧ _))

/-! ### Positions -/

/-- The value of a counter that has moved so many times. -/
def position (count : Nat) : Nat := count % sizeModulus

theorem addSize_position (count more : Nat) :
    addSize (position count) more = position (count + more) :=
  Nat.mod_add_mod count sizeModulus more

theorem position_mod {exponent : Nat} (small : exponent ≤ 64) (count : Nat) :
    position count % 2 ^ exponent = count % 2 ^ exponent := by
  have divides : 2 ^ exponent ∣ sizeModulus := by
    unfold sizeModulus
    exact Nat.pow_dvd_pow 2 small
  exact Nat.mod_mod_of_dvd count divides

theorem subSize_position {count held : Nat} (less : held < 2 ^ 64) :
    subSize (position (count + held)) (position count) = held := by
  unfold subSize position sizeModulus
  split <;> omega

/-- Where the signed difference fits it is negative, elsewhere it is positive. -/
theorem castIntptr_position (count : Nat) {distance : Nat} (near : distance < 2 ^ 63) :
    castIntptr (position count) - castIntptr (position (count + distance)) =
      if Straddles count distance then (2 ^ 64 - distance : Int) else -distance := by
  unfold castIntptr position sizeModulus
  rw [Int.bmod_def, Int.bmod_def]
  by_cases straddles : Straddles count distance
  · rw [if_pos straddles]
    unfold Straddles at straddles
    split <;> split <;> omega
  · rw [if_neg straddles]
    unfold Straddles at straddles
    split <;> split <;> omega

/-! ### The ring in any lap -/

/-- The ring has `2 ^ exponent` slots and holds `items`, with `count` elements taken before: from
the position of the next `dequeue` on, the slots are full in this lap as far as there are items,
and free in this lap behind them. -/
structure Laps (q : LockFreeCurcularQueue Value) (exponent count : Nat) (items : List Value) :
    Prop where
  size : q.buffer.length = 2 ^ exponent
  mask : q.bufferMask = 2 ^ exponent - 1
  head : q.dequeuePos = position count
  tail : q.enqueuePos = position (count + items.length)
  bounded : items.length ≤ 2 ^ exponent
  held : ∀ offset item, items[offset]? = some item →
    q.buffer[(count + offset) % 2 ^ exponent]? = some ⟨position (count + offset + 1), item⟩
  free : ∀ offset, items.length ≤ offset → offset < 2 ^ exponent →
    ∃ data, q.buffer[(count + offset) % 2 ^ exponent]? = some ⟨position (count + offset), data⟩

section

variable {q : LockFreeCurcularQueue Value} {exponent count : Nat} {items : List Value}

theorem Laps.slot (laps : q.Laps exponent count items) (small : exponent ≤ 62) (counted : Nat)
    {slot : Slot Value} (there : q.buffer[counted % 2 ^ exponent]? = some slot) :
    q.slot (position counted) = .ok slot := by
  rw [LockFreeCurcularQueue.slot, laps.mask, Nat.and_two_pow_sub_one_eq_mod,
    position_mod (by omega), there]

/-- The constructor's ring is in its first lap. -/
theorem Holds.laps (holds : q.Holds exponent []) (small : exponent ≤ 62)
    (unused : q.dequeuePos = 0) : q.Laps exponent 0 [] := by
  have most : 2 ^ exponent ≤ 2 ^ 62 := Nat.pow_le_pow_right Nat.two_pos small
  have tail := holds.tail
  refine ⟨holds.size, holds.mask, unused, ?_, holds.bounded, ?_, fun offset _ inside => ?_⟩
  · rw [tail, unused]
    rfl
  · intro offset item there
    cases there
  · obtain ⟨data, there⟩ := holds.free offset (Nat.zero_le _) inside
    have same : position (0 + offset) = 0 + offset := by
      unfold position sizeModulus
      exact Nat.mod_eq_of_lt (by omega)
    rw [unused] at there
    exact ⟨data, by rw [same]; exact there⟩

/-- A ring with room stores, wherever the counters stand. -/
theorem Laps.enqueue_room (laps : q.Laps exponent count items) (small : exponent ≤ 62)
    (room : items.length < 2 ^ exponent) (data : Value) :
    ∃ after, q.enqueue data = some (after, true) ∧ after.Laps exponent count (items ++ [data]) := by
  obtain ⟨old, there⟩ := laps.free items.length (le_refl _) room
  have tail := laps.tail
  have next : addSize q.enqueuePos 1 = position (count + items.length + 1) := by
    rw [tail, addSize_position]
  have place : q.enqueuePos % 2 ^ exponent = (count + items.length) % 2 ^ exponent := by
    rw [tail, position_mod (by omega)]
  have accepts : q.enqueue data = some (q.stored data, true) := by
    rw [enqueue, tail, laps.slot small _ there]
    simp only
    rw [if_pos (Int.sub_self _)]
  have different : ∀ offset, offset ≠ items.length → offset < 2 ^ exponent →
      (count + items.length) % 2 ^ exponent ≠ (count + offset) % 2 ^ exponent := by
    intro offset other inside same
    exact other (offset_eq_of_mod room inside same).symm
  have elsewhere : ∀ offset, offset ≠ items.length → offset < 2 ^ exponent →
      (q.stored data).buffer[(count + offset) % 2 ^ exponent]? =
        q.buffer[(count + offset) % 2 ^ exponent]? := by
    intro offset other inside
    simp [stored, updateSlot, laps.mask, Nat.and_two_pow_sub_one_eq_mod, place,
      different offset other inside]
  refine ⟨_, accepts, ⟨?_, laps.mask, laps.head, ?_, ?_, ?_, ?_⟩⟩
  · simp [stored, updateSlot, laps.size]
  · rw [List.length_append, List.length_singleton, ← Nat.add_assoc]
    exact next
  · rw [List.length_append, List.length_singleton]
    omega
  · intro offset item isItem
    by_cases last : offset = items.length
    · subst last
      rw [List.getElem?_concat_length] at isItem
      obtain rfl := Option.some.inj isItem
      simp [stored, updateSlot, laps.mask, Nat.and_two_pow_sub_one_eq_mod, place, there, next]
    · have inside : offset < items.length := by
        have := (List.getElem?_eq_some_iff.mp isItem).1
        rw [List.length_append, List.length_singleton] at this
        omega
      rw [List.getElem?_append_left inside] at isItem
      rw [elsewhere offset last (by omega)]
      exact laps.held offset item isItem
  · intro offset behind inside
    rw [List.length_append, List.length_singleton] at behind
    rw [elsewhere offset (by omega) inside]
    exact laps.free offset (by omega) inside

/-- A ring that holds something gives the oldest item, wherever the counters stand. -/
theorem Laps.dequeue_cons {item : Value} (laps : q.Laps exponent count (item :: items))
    (small : exponent ≤ 62) :
    ∃ after, q.dequeue = some (after, some item) ∧ after.Laps exponent (count + 1) items := by
  have there := laps.held 0 item rfl
  rw [Nat.add_zero] at there
  have head := laps.head
  have bounded := laps.bounded
  rw [List.length_cons] at bounded
  have next : addSize q.dequeuePos 1 = position (count + 1) := by rw [head, addSize_position]
  have nextLap : addSize q.dequeuePos q.buffer.length = position (count + 2 ^ exponent) := by
    rw [head, laps.size, addSize_position]
  have place : q.dequeuePos % 2 ^ exponent = count % 2 ^ exponent := by
    rw [head, position_mod (by omega)]
  have takes : q.dequeue = some (q.released, some item) := by
    rw [dequeue, head, laps.slot small _ there]
    simp only
    rw [addSize_position, if_pos (Int.sub_self _)]
  have elsewhere : ∀ offset, offset + 1 < 2 ^ exponent →
      q.released.buffer[(count + 1 + offset) % 2 ^ exponent]? =
        q.buffer[(count + (offset + 1)) % 2 ^ exponent]? := by
    intro offset inside
    have different : count % 2 ^ exponent ≠ (count + (offset + 1)) % 2 ^ exponent := by
      intro same
      have := offset_eq_of_mod (Nat.two_pow_pos exponent) inside same
      omega
    rw [Nat.add_right_comm, Nat.add_assoc]
    simp [released, updateSlot, laps.mask, Nat.and_two_pow_sub_one_eq_mod, place, different]
  refine ⟨_, takes, ⟨?_, laps.mask, next, ?_, by omega, ?_, ?_⟩⟩
  · simp [released, updateSlot, laps.size]
  · show q.enqueuePos = _
    rw [laps.tail, List.length_cons]
    congr 1
    omega
  · intro offset other isOther
    have inside := (List.getElem?_eq_some_iff.mp isOther).1
    rw [elsewhere offset (by omega), laps.held (offset + 1) other (by simpa using isOther),
      Nat.add_right_comm count 1, Nat.add_assoc count offset 1]
  · intro offset behind inside
    by_cases last : offset + 1 = 2 ^ exponent
    · refine ⟨item, ?_⟩
      have lap : count + 1 + offset = count + 2 ^ exponent := by omega
      rw [lap, Nat.add_mod_right]
      simp [released, updateSlot, laps.mask, Nat.and_two_pow_sub_one_eq_mod, place, there,
        nextLap]
    · obtain ⟨data, free⟩ := laps.free (offset + 1) (by simpa using behind) (by omega)
      refine ⟨data, ?_⟩
      rw [elsewhere offset (by omega), free, Nat.add_right_comm count 1, Nat.add_assoc count offset 1]

/-- A full ring refuses when it does not straddle the largest signed word, and never returns when
it does. -/
theorem Laps.enqueue_full (laps : q.Laps exponent count items) (several : 1 ≤ exponent)
    (small : exponent ≤ 62) (isFull : items.length = 2 ^ exponent) (data : Value) :
    q.enqueue data =
      if Straddles (count + 1) (2 ^ exponent - 1) then none else some (q, false) := by
  have two : 2 ^ 1 ≤ 2 ^ exponent := Nat.pow_le_pow_right Nat.two_pos several
  have most : 2 ^ exponent ≤ 2 ^ 62 := Nat.pow_le_pow_right Nat.two_pos small
  obtain ⟨first, there⟩ : ∃ first, items[0]? = some first :=
    ⟨items[0], List.getElem?_eq_getElem (by omega)⟩
  have oldest := laps.held 0 first there
  have tail := laps.tail
  have same : (count + 0) % 2 ^ exponent = (count + items.length) % 2 ^ exponent := by
    rw [isFull, Nat.add_mod_right, Nat.add_zero]
  rw [same] at oldest
  have lap : count + items.length = count + 0 + 1 + (2 ^ exponent - 1) := by omega
  have differs := castIntptr_position (count + 0 + 1)
    (show 2 ^ exponent - 1 < 2 ^ 63 by omega)
  rw [← lap, Nat.add_zero] at differs
  rw [enqueue, tail, laps.slot small _ oldest]
  simp only [Nat.add_zero, differs]
  by_cases straddles : Straddles (count + 1) (2 ^ exponent - 1)
  · rw [if_pos straddles, if_neg (by omega), if_neg (by omega), if_pos straddles]
  · rw [if_neg straddles, if_neg (by omega), if_pos (by omega), if_neg straddles]

/-- An empty ring has nothing to take. -/
theorem Laps.dequeue_empty (laps : q.Laps exponent count []) (small : exponent ≤ 62)
    {after : LockFreeCurcularQueue Value} {data : Option Value}
    (returned : q.dequeue = some (after, data)) : after = q ∧ data = none := by
  obtain ⟨old, there⟩ := laps.free 0 (le_refl _) (Nat.two_pow_pos _)
  rw [Nat.add_zero] at there
  have head := laps.head
  rw [dequeue, head, laps.slot small _ there] at returned
  simp only [addSize_position] at returned
  have differs := castIntptr_position count (show 1 < 2 ^ 63 by norm_num)
  rw [if_neg (by rw [differs]; split <;> omega)] at returned
  split at returned
  · obtain ⟨rfl, rfl⟩ := Prod.mk.inj (Option.some.inj returned)
    exact ⟨rfl, rfl⟩
  · cases returned

theorem Laps.getRemainCapacity_eq (laps : q.Laps exponent count items) (small : exponent ≤ 62) :
    q.getRemainCapacity = items.length := by
  have most : 2 ^ exponent ≤ 2 ^ 62 := Nat.pow_le_pow_right Nat.two_pos small
  have bounded := laps.bounded
  rw [getRemainCapacity, laps.tail, laps.head]
  exact subSize_position (by omega)

/-! ### Completed calls -/

theorem completes_enqueue_iff {data : Value} {spurious : Nat} {answer : Answer Value}
    {after : LockFreeCurcularQueue Value} :
    q.Completes (.enqueue data spurious, answer) after ↔
      ∃ accepted, q.enqueue data = some (after, accepted) ∧ answer = .enqueued accepted := by
  constructor
  · rintro ⟨enough, returns⟩
    have returned := returns (enough + (2 * spurious + 5)) (by omega)
    rw [LockFreeCurcularQueue.answer, finish_enqueue q data spurious (by omega)] at returned
    obtain ⟨outcome, enqueued, same⟩ := Option.map_eq_some_iff.mp returned
    obtain ⟨rfl, rfl⟩ := Prod.mk.inj same
    exact ⟨outcome.2, enqueued, rfl⟩
  · rintro ⟨accepted, enqueued, rfl⟩
    refine ⟨2 * spurious + 5, fun fuel enough => ?_⟩
    rw [LockFreeCurcularQueue.answer, finish_enqueue q data spurious enough, enqueued]
    rfl

theorem dequeue_of_completes {spurious : Nat} {answer : Answer Value}
    {after : LockFreeCurcularQueue Value}
    (completes : q.Completes (.dequeue spurious, answer) after) :
    ∃ data, q.dequeue = some (after, data) ∧ answer = .dequeued data := by
  obtain ⟨enough, returns⟩ := completes
  have returned := returns (enough + (2 * spurious + 5)) (by omega)
  rw [LockFreeCurcularQueue.answer, finish_dequeue q spurious (by omega)] at returned
  obtain ⟨outcome, dequeued, same⟩ := Option.map_eq_some_iff.mp returned
  obtain ⟨rfl, rfl⟩ := Prod.mk.inj same
  exact ⟨outcome.2, dequeued, rfl⟩

/-- A completed call keeps the laps: an accepted element is held, a taken one is not. -/
theorem Laps.completed (laps : q.Laps exponent count items) (several : 1 ≤ exponent)
    (small : exponent ≤ 62) {call : Call Value} {answer : Answer Value}
    {after : LockFreeCurcularQueue Value} (completes : q.Completes (call, answer) after) :
    ∃ remaining, after.Laps exponent (count + answer.isTaken.toNat) remaining ∧
      remaining.length + answer.isTaken.toNat = items.length + answer.isAccepted.toNat := by
  cases call with
  | enqueue data spurious =>
    obtain ⟨accepted, enqueued, rfl⟩ := completes_enqueue_iff.mp completes
    by_cases room : items.length < 2 ^ exponent
    · obtain ⟨stored, accepts, later⟩ := laps.enqueue_room small room data
      obtain ⟨rfl, rfl⟩ := Prod.mk.inj (Option.some.inj (accepts.symm.trans enqueued))
      exact ⟨items ++ [data], later, by simp [Answer.isTaken, Answer.isAccepted]⟩
    · have isFull : items.length = 2 ^ exponent := le_antisymm laps.bounded (not_lt.mp room)
      rw [laps.enqueue_full several small isFull] at enqueued
      split at enqueued
      · cases enqueued
      · obtain ⟨rfl, rfl⟩ := Prod.mk.inj (Option.some.inj enqueued)
        exact ⟨items, laps, rfl⟩
  | dequeue spurious =>
    obtain ⟨data, dequeued, rfl⟩ := dequeue_of_completes completes
    cases items with
    | nil =>
      obtain ⟨rfl, rfl⟩ := laps.dequeue_empty small dequeued
      exact ⟨[], laps, rfl⟩
    | cons item rest =>
      obtain ⟨released, takes, later⟩ := laps.dequeue_cons small
      obtain ⟨rfl, rfl⟩ := Prod.mk.inj (Option.some.inj (takes.symm.trans dequeued))
      exact ⟨rest, later, rfl⟩
  | empty =>
    obtain ⟨enough, returns⟩ := completes
    obtain ⟨rfl, rfl⟩ := Prod.mk.inj (Option.some.inj (returns enough (le_refl _)))
    exact ⟨items, laps, rfl⟩
  | full =>
    obtain ⟨enough, returns⟩ := completes
    obtain ⟨rfl, rfl⟩ := Prod.mk.inj (Option.some.inj (returns enough (le_refl _)))
    exact ⟨items, laps, rfl⟩

/-- After any number of completed calls the ring holds what was accepted and not taken. -/
theorem Laps.run {start s : LockFreeCurcularQueue Value} (laps : start.Laps exponent 0 [])
    (several : 1 ≤ exponent) (small : exponent ≤ 62) {history : List (Call Value × Answer Value)}
    (run : Run Completes start history s) :
    ∃ remaining, s.Laps exponent (taken history) remaining ∧
      remaining.length + taken history = accepted history := by
  induction run with
  | nil => exact ⟨[], laps, rfl⟩
  | @snoc _ _ before call _ last inductionHypothesis =>
    obtain ⟨held, lapsBefore, counted⟩ := inductionHypothesis
    obtain ⟨remaining, later, moved⟩ := lapsBefore.completed several small last
    have isTaken : taken (before ++ [call]) = taken before + call.2.isTaken.toNat := by
      cases isTaken : call.2.isTaken <;> simp [taken, isTaken]
    have isAccepted : accepted (before ++ [call]) = accepted before + call.2.isAccepted.toNat := by
      cases isAccepted : call.2.isAccepted <;> simp [accepted, isAccepted]
    exact ⟨remaining, by rw [isTaken]; exact later, by omega⟩

/-! ### The reported room -/

/-- The room is what the held elements leave, when the full ring can refuse. -/
theorem Laps.accepts_iff (laps : q.Laps exponent count items) (several : 1 ≤ exponent)
    (small : exponent ≤ 62) (data : Value) (room : Nat) :
    q.Accepts room ↔
      items.length + room = 2 ^ exponent ∧ ¬ Straddles (count + 1) (2 ^ exponent - 1) := by
  induction room generalizing q items with
  | zero =>
    rw [Accepts, Nat.add_zero]
    constructor
    · intro refuses
      obtain ⟨after, completes⟩ := refuses data 0
      obtain ⟨accepted, enqueued, isRefused⟩ := completes_enqueue_iff.mp completes
      obtain rfl : false = accepted := Answer.enqueued.inj isRefused
      have isFull : items.length = 2 ^ exponent := by
        by_contra room
        obtain ⟨stored, accepts, -⟩ :=
          laps.enqueue_room small (lt_of_le_of_ne laps.bounded room) data
        cases (Option.some.inj (accepts.symm.trans enqueued))
      refine ⟨isFull, fun straddles => ?_⟩
      rw [laps.enqueue_full several small isFull, if_pos straddles] at enqueued
      cases enqueued
    · rintro ⟨isFull, fits⟩ other spurious
      refine ⟨q, completes_enqueue_iff.mpr ⟨false, ?_, rfl⟩⟩
      rw [laps.enqueue_full several small isFull, if_neg fits]
  | succ room inductionHypothesis =>
    rw [Accepts]
    constructor
    · intro accepts
      obtain ⟨after, completes, later⟩ := accepts data 0
      obtain ⟨accepted, enqueued, isAccepted⟩ := completes_enqueue_iff.mp completes
      obtain rfl : true = accepted := Answer.enqueued.inj isAccepted
      have less : items.length < 2 ^ exponent := by
        by_contra full
        rw [laps.enqueue_full several small (le_antisymm laps.bounded (not_lt.mp full))]
          at enqueued
        split at enqueued <;> cases enqueued
      obtain ⟨stored, stores, next⟩ := laps.enqueue_room small less data
      obtain rfl := (Prod.mk.inj (Option.some.inj (stores.symm.trans enqueued))).1
      have rest := (inductionHypothesis next).mp later
      rw [List.length_append, List.length_singleton] at rest
      exact ⟨by omega, rest.2⟩
    · rintro ⟨sum, fits⟩ other spurious
      obtain ⟨stored, stores, next⟩ := laps.enqueue_room small (by omega) other
      refine ⟨stored, completes_enqueue_iff.mpr ⟨true, stores, rfl⟩, ?_⟩
      refine (inductionHypothesis next).mpr ⟨?_, fits⟩
      rw [List.length_append, List.length_singleton]
      omega

/-- In a ring without slots only the calls return that look at the counters. -/
theorem same_of_completes (noSlots : q.buffer = []) {call : Call Value × Answer Value}
    {after : LockFreeCurcularQueue Value} (completes : q.Completes call after) : after = q := by
  obtain ⟨call, answer⟩ := call
  cases call with
  | enqueue data spurious =>
    obtain ⟨accepted, enqueued, -⟩ := completes_enqueue_iff.mp completes
    rw [enqueue_none noSlots] at enqueued
    cases enqueued
  | dequeue spurious =>
    obtain ⟨data, dequeued, -⟩ := dequeue_of_completes completes
    rw [dequeue, slot, noSlots] at dequeued
    cases dequeued
  | empty =>
    obtain ⟨enough, returns⟩ := completes
    exact (Prod.mk.inj (Option.some.inj (returns enough (le_refl _)))).1.symm
  | full =>
    obtain ⟨enough, returns⟩ := completes
    exact (Prod.mk.inj (Option.some.inj (returns enough (le_refl _)))).1.symm

theorem noSlots_of_run {start s : LockFreeCurcularQueue Value} (noSlots : start.buffer = [])
    {history : List (Call Value × Answer Value)} (run : Run Completes start history s) :
    s.buffer = [] := by
  induction run with
  | nil => exact noSlots
  | snoc _ last inductionHypothesis =>
    rw [same_of_completes inductionHypothesis last]
    exact inductionHypothesis

/-- A ring without slots accepts nothing and refuses nothing. -/
theorem not_accepts_none (noSlots : q.buffer = []) (data : Value) (room : Nat) :
    ¬ q.Accepts room := by
  intro accepts
  have stuck : ∀ answer after, ¬ q.Completes (.enqueue data 0, answer) after := by
    intro answer after completes
    obtain ⟨accepted, enqueued, -⟩ := completes_enqueue_iff.mp completes
    rw [enqueue_none noSlots] at enqueued
    cases enqueued
  cases room with
  | zero =>
    obtain ⟨after, completes⟩ := accepts data 0
    exact stuck _ _ completes
  | succ room =>
    obtain ⟨after, completes, -⟩ := accepts data 0
    exact stuck _ _ completes

/-- In every state that completed calls reach, the reported room is the number of further calls of
`enqueue` that succeed before one returns false if and only if the capacity can be rounded up,
half of the slots are taken and the full ring would not straddle the largest signed word. -/
theorem remainCapacity_iff [Inhabited Value] (build : Build) (slotSize capacity : Nat)
    (several : 2 ≤ capacity) (isSize : capacity < 2 ^ 64) (q : LockFreeCurcularQueue Value)
    (created : create build slotSize capacity = .ok q)
    (history : List (Call Value × Answer Value)) (s : LockFreeCurcularQueue Value)
    (run : Run Completes q history s) :
    s.Accepts s.getRemainCapacity ↔
      capacity ≤ 2 ^ 63 ∧ 2 * accepted history = 2 * taken history + q.buffer.length ∧
        ¬ Straddles (taken history + 1) (q.buffer.length - 1) := by
  by_cases most : capacity ≤ 2 ^ 63
  · obtain ⟨holds, head, small⟩ := create_holds build slotSize (by omega) most created
    have twoSlots : 1 ≤ (capacity - 1).size := by
      have : 0 < (capacity - 1).size := Nat.lt_size.mpr (by omega)
      omega
    obtain ⟨remaining, laps, counted⟩ := (holds.laps small head).run twoSlots small run
    rw [laps.getRemainCapacity_eq small, laps.accepts_iff twoSlots small default, holds.size]
    constructor
    · rintro ⟨half, fits⟩
      exact ⟨most, by omega, fits⟩
    · rintro ⟨-, half, fits⟩
      exact ⟨by omega, fits⟩
  · have rounded := roundUpToPowerOf2_eq build (show 0 < capacity by omega) isSize
    rw [if_neg most] at rounded
    obtain ⟨-, rfl⟩ := create_eq rounded created
    exact iff_of_false (not_accepts_none (noSlots_of_run rfl run) default _)
      fun inside => most inside.1

/-- A ring of two slots with one element has room for one more. -/
theorem remainCapacity_iff_half : ∃ s : LockFreeCurcularQueue Nat,
    Run Completes ⟨0, 0, [⟨0, 0⟩, ⟨1, 0⟩], 1⟩ [(.enqueue 7 0, .enqueued true)] s ∧
      s.Accepts s.getRemainCapacity := by
  have created : create .debug 16 2 =
      .ok (⟨0, 0, [⟨0, 0⟩, ⟨1, 0⟩], 1⟩ : LockFreeCurcularQueue Nat) := by decide +kernel
  have run : Run Completes (⟨0, 0, [⟨0, 0⟩, ⟨1, 0⟩], 1⟩ : LockFreeCurcularQueue Nat)
      [(.enqueue 7 0, .enqueued true)] ⟨1, 0, [⟨1, 7⟩, ⟨1, 0⟩], 1⟩ :=
    (Run.nil _).snoc (completes_enqueue_iff.mpr ⟨true, by decide +kernel, rfl⟩)
  exact ⟨_, run, (remainCapacity_iff .debug 16 2 (by decide) (by decide) _ created _ _ run).mpr
    (by decide)⟩

/-- A new ring of four slots reports no room and has room for four elements. -/
theorem not_remainCapacity_empty : ∃ q : LockFreeCurcularQueue Nat,
    create .debug 16 4 = .ok q ∧ q.getRemainCapacity = 0 ∧ q.Accepts 4 ∧
      ¬ q.Accepts q.getRemainCapacity := by
  have created : create .debug 16 4 =
      .ok (⟨0, 0, [⟨0, 0⟩, ⟨1, 0⟩, ⟨2, 0⟩, ⟨3, 0⟩], 3⟩ : LockFreeCurcularQueue Nat) := by
    decide +kernel
  obtain ⟨holds, head, small⟩ := create_holds .debug 16 (by decide) (by decide) created
  have two : (4 - 1).size = 2 := by decide
  rw [two] at holds small
  have accepts := (holds.laps small head).accepts_iff (by decide) small 0
  refine ⟨_, created, by decide, (accepts 4).mpr (by decide), fun none => ?_⟩
  have room := ((accepts 0).mp none).1
  cases room

end

end LockFreeCurcularQueue

end YYNet
