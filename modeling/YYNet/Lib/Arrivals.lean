/-
This file is a small library about serving arrivals from two places: a queue,
whose front is taken, and a bag, from which anything may be taken. What arrives
goes to one of them.

While each thing that is taken is the earliest of all that wait, what was taken
is at all times a first part of what has arrived.
-/

import Mathlib

namespace Arrivals

variable {Item : Type*} [LinearOrder Item]

/-- What has arrived and what was taken, the newest first, and what waits in the queue and in the
bag: the queue is in order of arrival, and what was taken came before all that waits. -/
structure Waiting (arrived taken queue bag : List Item) : Prop where
  newestFirst : arrived.Pairwise (· > ·)
  inOrder : queue.Pairwise (· < ·)
  split : ∃ rest, arrived = rest ++ taken ∧ (queue ++ bag).Perm rest

variable {arrived taken queue bag : List Item} {item : Item}

theorem waiting_nil : Waiting ([] : List Item) [] [] [] :=
  ⟨.nil, .nil, [], rfl, .nil⟩

/-- What waits has arrived. -/
theorem Waiting.arrived_of_waits (waiting : Waiting arrived taken queue bag)
    (waits : item ∈ queue ++ bag) : item ∈ arrived := by
  obtain ⟨rest, rfl, same⟩ := waiting.split
  exact List.mem_append_left _ (same.mem_iff.mp waits)

/-- What was taken is a first part of what has arrived. -/
theorem Waiting.taken_suffix (waiting : Waiting arrived taken queue bag) :
    taken <:+ arrived := by
  obtain ⟨rest, rfl, -⟩ := waiting.split
  exact List.suffix_append rest taken

/-- An arrival at the end of the queue. -/
theorem Waiting.joinQueue (waiting : Waiting arrived taken queue bag)
    (newest : ∀ other ∈ arrived, other < item) :
    Waiting (item :: arrived) taken (queue ++ [item]) bag := by
  have arrivedQueue (other : Item) (member : other ∈ queue) : other < item :=
    newest other (waiting.arrived_of_waits (List.mem_append_left _ member))
  obtain ⟨newestFirst, inOrder, rest, split, same⟩ := waiting
  refine ⟨List.pairwise_cons.mpr ⟨newest, newestFirst⟩, ?_, item :: rest, by rw [split]; rfl, ?_⟩
  · refine List.pairwise_append.mpr ⟨inOrder, List.pairwise_singleton _ _, ?_⟩
    intro other member last isLast
    rw [List.mem_singleton.mp isLast]
    exact arrivedQueue other member
  · rw [List.append_assoc]
    exact List.perm_middle.trans (same.cons item)

/-- An arrival in the bag. -/
theorem Waiting.joinBag (waiting : Waiting arrived taken queue bag)
    (newest : ∀ other ∈ arrived, other < item) :
    Waiting (item :: arrived) taken queue (item :: bag) := by
  obtain ⟨newestFirst, inOrder, rest, split, same⟩ := waiting
  refine ⟨List.pairwise_cons.mpr ⟨newest, newestFirst⟩, inOrder, item :: rest, by rw [split]; rfl,
    ?_⟩
  exact List.perm_middle.trans (same.cons item)

/-- The least of a list with the newest first is its last. -/
theorem last_of_least {rest : List Item} (newestFirst : rest.Pairwise (· > ·))
    (member : item ∈ rest) (least : ∀ other ∈ rest, item ≤ other) :
    ∃ later, rest = later ++ [item] := by
  obtain ⟨later, earlier, rfl⟩ := List.append_of_mem member
  have older := (List.pairwise_cons.mp (List.pairwise_append.mp newestFirst).2.1).1
  cases earlier with
  | nil => exact ⟨later, rfl⟩
  | cons first others =>
    have atMost := least first (by simp)
    exact absurd (older first List.mem_cons_self) (not_lt_of_ge atMost)

/-- The earliest of all that waits is taken. -/
theorem Waiting.take (waiting : Waiting arrived taken queue bag) {left more : List Item}
    (inOrder : left.Pairwise (· < ·)) (removed : (queue ++ bag).Perm (item :: (left ++ more)))
    (earliest : ∀ other ∈ left ++ more, item ≤ other) :
    Waiting arrived (item :: taken) left more := by
  obtain ⟨newestFirst, -, rest, rfl, same⟩ := waiting
  have whole : rest.Perm (item :: (left ++ more)) := same.symm.trans removed
  obtain ⟨later, rfl⟩ := last_of_least (List.pairwise_append.mp newestFirst).1
    (whole.mem_iff.mpr List.mem_cons_self) fun other member =>
      (List.mem_cons.mp (whole.mem_iff.mp member)).elim (fun same => same ▸ le_refl _)
        (earliest other)
  refine ⟨newestFirst, inOrder, later, by simp, ?_⟩
  exact ((List.perm_append_singleton item later).symm.trans whole).cons_inv.symm

/-- The front of the queue is taken while it came before everything in the bag. -/
theorem Waiting.takeFront (waiting : Waiting arrived taken (item :: queue) bag)
    (earlier : ∀ other ∈ bag, item < other) : Waiting arrived (item :: taken) queue bag := by
  obtain ⟨front, inOrder⟩ := List.pairwise_cons.mp waiting.inOrder
  refine waiting.take inOrder (.refl _) fun other member => ?_
  exact (List.mem_append.mp member).elim (fun waits => (front other waits).le)
    fun waits => (earlier other waits).le

/-- The earliest of the bag is taken while it came before everything in the queue. -/
theorem Waiting.takeBag (waiting : Waiting arrived taken queue bag) (member : item ∈ bag)
    (first : ∀ other ∈ bag, item ≤ other) (earlier : ∀ other ∈ queue, item < other) :
    Waiting arrived (item :: taken) queue (bag.erase item) := by
  refine waiting.take waiting.inOrder ?_ fun other waits => ?_
  · exact ((List.perm_cons_erase member).append_left queue).trans List.perm_middle
  · exact (List.mem_append.mp waits).elim (fun waits => (earlier other waits).le)
      fun waits => first other (List.mem_of_mem_erase waits)

end Arrivals
