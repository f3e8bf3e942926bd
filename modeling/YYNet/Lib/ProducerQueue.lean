/-
This file is a small library for a queue with several producers that keeps the
order of each producer and promises none between producers. The queue is the
list of its entries in the order of their insertion, each with the producer
that put it there. Taking an entry serves one producer, which is the choice of
the environment, and takes the oldest entry of that producer.
-/

import Mathlib

namespace ProducerQueue

variable {Producer Item : Type*} [DecidableEq Producer]

/-- Serve one producer: its oldest item, and the queue without it. -/
def dequeue (producer : Producer) :
    List (Producer × Item) → Option (Item × List (Producer × Item))
  | [] => none
  | entry :: rest =>
    if entry.1 = producer then some (entry.2, rest)
    else (dequeue producer rest).map fun (found, remaining) => (found, entry :: remaining)

/-- The item taken off is the first of its producer, and nothing else changes. -/
theorem dequeue_eq_some (producer : Producer) (queue rest : List (Producer × Item)) (item : Item)
    (found : dequeue producer queue = some (item, rest)) :
    ∃ before after, queue = before ++ (producer, item) :: after ∧ rest = before ++ after ∧
      ∀ entry ∈ before, entry.1 ≠ producer := by
  induction queue generalizing rest with
  | nil => simp [dequeue] at found
  | cons first later inductionHypothesis =>
    rw [dequeue] at found
    split at found
    · rename_i served
      obtain ⟨rfl, rfl⟩ : first.2 = item ∧ later = rest := by simpa using found
      exact ⟨[], later, by rw [← served]; rfl, rfl, fun entry member => by cases member⟩
    · rename_i skipped
      obtain ⟨⟨other, remaining⟩, inner, same⟩ := Option.map_eq_some_iff.mp found
      obtain ⟨rfl, rfl⟩ : other = item ∧ first :: remaining = rest := by simpa using same
      obtain ⟨before, after, shape, left, others⟩ := inductionHypothesis remaining inner
      refine ⟨first :: before, after, by rw [shape]; rfl, by rw [left]; rfl, ?_⟩
      intro entry member
      rcases List.mem_cons.mp member with rfl | earlier
      · exact skipped
      · exact others entry earlier

/-- Taking an item off only moves its entry to the front of what was there. -/
theorem dequeue_perm (producer : Producer) (queue rest : List (Producer × Item)) (item : Item)
    (found : dequeue producer queue = some (item, rest)) :
    queue.Perm ((producer, item) :: rest) := by
  obtain ⟨before, after, rfl, rfl, -⟩ := dequeue_eq_some producer queue rest item found
  exact List.perm_middle

/-- The items of a queue, with the one taken off in front of those that stay. -/
theorem dequeue_items_perm (producer : Producer) (queue rest : List (Producer × Item))
    (item : Item) (found : dequeue producer queue = some (item, rest)) :
    (queue.map Prod.snd).Perm (item :: rest.map Prod.snd) :=
  (dequeue_perm producer queue rest item found).map Prod.snd

/-! ### The items of one producer -/

/-- The items one producer has on the queue, oldest first. -/
def itemsOf (producer : Producer) (queue : List (Producer × Item)) : List Item :=
  (queue.filter fun entry => entry.1 = producer).map Prod.snd

@[simp] theorem itemsOf_nil (producer : Producer) :
    itemsOf producer ([] : List (Producer × Item)) = [] := rfl

theorem itemsOf_append (producer : Producer) (first second : List (Producer × Item)) :
    itemsOf producer (first ++ second) = itemsOf producer first ++ itemsOf producer second := by
  rw [itemsOf, List.filter_append, List.map_append]
  rfl

theorem itemsOf_cons_self (producer : Producer) (item : Item) (rest : List (Producer × Item)) :
    itemsOf producer ((producer, item) :: rest) = item :: itemsOf producer rest := by
  simp [itemsOf]

theorem itemsOf_cons_other {producer other : Producer} (different : other ≠ producer)
    (item : Item) (rest : List (Producer × Item)) :
    itemsOf producer ((other, item) :: rest) = itemsOf producer rest := by
  simp [itemsOf, different]

/-- The producer that is served loses its oldest item. -/
theorem itemsOf_dequeue_self {producer : Producer} {queue rest : List (Producer × Item)}
    {item : Item} (found : dequeue producer queue = some (item, rest)) :
    itemsOf producer queue = item :: itemsOf producer rest := by
  obtain ⟨before, after, rfl, rfl, others⟩ := dequeue_eq_some producer queue rest item found
  have none : itemsOf producer before = [] := by
    have skipped : (before.filter fun entry => entry.1 = producer) = [] :=
      List.filter_eq_nil_iff.mpr (by simpa using others)
    rw [itemsOf, skipped, List.map_nil]
  rw [itemsOf_append, itemsOf_append, none, itemsOf_cons_self]
  rfl

/-- All other producers keep their items. -/
theorem itemsOf_dequeue_other {producer other : Producer} (different : producer ≠ other)
    {queue rest : List (Producer × Item)} {item : Item}
    (found : dequeue producer queue = some (item, rest)) :
    itemsOf other queue = itemsOf other rest := by
  obtain ⟨before, after, rfl, rfl, -⟩ := dequeue_eq_some producer queue rest item found
  rw [itemsOf_append, itemsOf_append, itemsOf_cons_other different]

end ProducerQueue
