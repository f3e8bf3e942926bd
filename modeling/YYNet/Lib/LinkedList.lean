/-
This file is a small library of doubly linked lists in a heap: the cells are
found through a function `next` and a function `prev`, and a list of cells is
linked from a head when `next` visits exactly its members, in order, and `prev`
leads back from each member but the first. The first member's `prev` is
whatever it is.

Three operations are enough for a list that grows at its head and loses members
anywhere: a push at the head, the removal of the head, and the removal of a
later member through its neighbours.
-/

import Mathlib

namespace LinkedList

variable {Cell : Type*}

/-- `next` visits exactly the cells of a list from a head on. -/
def Visits (next : Cell → Option Cell) : Option Cell → List Cell → Prop
  | head, [] => head = none
  | head, cell :: rest => head = some cell ∧ Visits next (next cell) rest

/-- The cells of a list are linked in both directions, and are different. -/
structure Linked (next prev : Cell → Option Cell) (head : Option Cell) (cells : List Cell) :
    Prop where
  visits : Visits next head cells
  backed : cells.IsChain fun first second => prev second = some first
  nodup : cells.Nodup

theorem visits_congr {next other : Cell → Option Cell} {head : Option Cell} {cells : List Cell}
    (same : ∀ cell ∈ cells, other cell = next cell) (visits : Visits next head cells) :
    Visits other head cells := by
  induction cells generalizing head with
  | nil => exact visits
  | cons cell rest inductionHypothesis =>
    obtain ⟨first, later⟩ := visits
    refine ⟨first, ?_⟩
    rw [same cell List.mem_cons_self]
    exact inductionHypothesis (fun known member => same known (List.mem_cons_of_mem _ member)) later

/-- The head of a linked list is its first cell. -/
theorem Linked.head_eq {next prev : Cell → Option Cell} {head : Option Cell} {cells : List Cell}
    (linked : Linked next prev head cells) : head = cells.head? := by
  cases cells with
  | nil => exact linked.visits
  | cons cell rest => exact linked.visits.1

/-- A part of a list is visited from where the part in front of it leads. -/
theorem visits_append {next : Cell → Option Cell} {head : Option Cell} {first second : List Cell}
    (visits : Visits next head (first ++ second)) : ∃ middle, Visits next middle second := by
  induction first generalizing head with
  | nil => exact ⟨head, visits⟩
  | cons cell rest inductionHypothesis => exact inductionHypothesis visits.2

/-- The cell behind a member is the next member. -/
theorem Linked.next_eq {next prev : Cell → Option Cell} {head : Option Cell}
    {before after : List Cell} {cell : Cell}
    (linked : Linked next prev head (before ++ cell :: after)) : next cell = after.head? := by
  obtain ⟨middle, -, visits⟩ := visits_append linked.visits
  cases after with
  | nil => exact visits
  | cons other rest => exact visits.1

/-- The cell in front of a member that is not the first is the previous member. -/
theorem Linked.prev_eq {next prev : Cell → Option Cell} {head : Option Cell}
    {before after : List Cell} {first second : Cell}
    (linked : Linked next prev head (before ++ first :: second :: after)) :
    prev second = some first :=
  (List.isChain_cons_cons.mp (List.isChain_append.mp linked.backed).2.1).1

/-- One list of cells is visited from a head. -/
theorem visits_unique {next : Cell → Option Cell} {head : Option Cell} {first second : List Cell}
    (visits : Visits next head first) (other : Visits next head second) : first = second := by
  induction first generalizing head second with
  | nil =>
    obtain rfl : head = none := visits
    cases second with
    | nil => rfl
    | cons cell rest => cases other.1
  | cons cell rest inductionHypothesis =>
    obtain ⟨rfl, behind⟩ := visits
    cases second with
    | nil => cases other
    | cons cell' rest' =>
      obtain ⟨same, behind'⟩ := other
      obtain rfl := Option.some.inj same
      rw [inductionHypothesis behind behind']

/-- A cell that `next` leads to from a head. -/
inductive Reached (next : Cell → Option Cell) : Option Cell → Cell → Prop
  | head (cell : Cell) : Reached next (some cell) cell
  | later (first cell : Cell) (behind : Reached next (next first) cell) :
      Reached next (some first) cell

/-- The cells that are reached from the head are the visited ones. -/
theorem reached_iff {next : Cell → Option Cell} {head : Option Cell} {cells : List Cell}
    (visits : Visits next head cells) (cell : Cell) : Reached next head cell ↔ cell ∈ cells := by
  induction cells generalizing head with
  | nil =>
    obtain rfl : head = none := visits
    exact iff_of_false nofun List.not_mem_nil
  | cons first rest inductionHypothesis =>
    obtain ⟨rfl, behind⟩ := visits
    rw [List.mem_cons, ← inductionHypothesis behind]
    constructor
    · intro reached
      cases reached with
      | head => exact .inl rfl
      | later _ _ behind => exact .inr behind
    · rintro (rfl | behind)
      · exact .head cell
      · exact .later first cell behind

/-! ### Operations -/

/-- Links of other cells, and the first cell's link back, do not matter. -/
theorem Linked.frame {next prev next' prev' : Cell → Option Cell} {head : Option Cell}
    {cells : List Cell} (linked : Linked next prev head cells)
    (sameNext : ∀ cell ∈ cells, next' cell = next cell)
    (samePrev : ∀ cell ∈ cells.tail, prev' cell = prev cell) :
    Linked next' prev' head cells where
  visits := visits_congr sameNext linked.visits
  backed := by
    refine List.IsChain.imp_of_mem_tail_imp ?_ linked.backed
    intro first second _ member backed
    rw [samePrev second member]
    exact backed
  nodup := linked.nodup

/-- A new cell is pushed in front of the head. -/
theorem Linked.push {next prev next' prev' : Cell → Option Cell} {head : Option Cell}
    {cells : List Cell} {cell : Cell} (linked : Linked next prev head cells) (new : cell ∉ cells)
    (here : next' cell = head) (back : ∀ first ∈ head, prev' first = some cell)
    (sameNext : ∀ other ∈ cells, next' other = next other)
    (samePrev : ∀ other ∈ cells.tail, prev' other = prev other) :
    Linked next' prev' (some cell) (cell :: cells) where
  visits := ⟨rfl, here ▸ visits_congr sameNext linked.visits⟩
  backed := by
    have old := (linked.frame sameNext samePrev).backed
    cases cells with
    | nil => exact List.isChain_singleton cell
    | cons first rest =>
      exact List.isChain_cons_cons.mpr ⟨back first linked.visits.1, old⟩
  nodup := List.nodup_cons.mpr ⟨new, linked.nodup⟩

/-- The head is taken off. -/
theorem Linked.pop {next prev : Cell → Option Cell} {head : Option Cell} {cell : Cell}
    {rest : List Cell} (linked : Linked next prev head (cell :: rest)) :
    Linked next prev (next cell) rest where
  visits := linked.visits.2
  backed := linked.backed.tail
  nodup := (List.nodup_cons.mp linked.nodup).2

section

variable [DecidableEq Cell]

/-- A later cell is passed over by the one in front of it. -/
theorem visits_unlink {next : Cell → Option Cell} {head : Option Cell} {before after : List Cell}
    {first cell : Cell} (nodup : (before ++ first :: cell :: after).Nodup)
    (visits : Visits next head (before ++ first :: cell :: after)) :
    Visits (Function.update next first (next cell)) head (before ++ first :: after) := by
  induction before generalizing head with
  | nil =>
    obtain ⟨isFirst, -, later⟩ := visits
    refine ⟨isFirst, ?_⟩
    rw [Function.update_self]
    refine visits_congr (fun other member => ?_) later
    have different : other ≠ first := by
      rintro rfl
      exact (List.nodup_cons.mp nodup).1 (List.mem_cons_of_mem _ member)
    exact Function.update_of_ne different _ _
  | cons other rest inductionHypothesis =>
    obtain ⟨isFirst, later⟩ := visits
    obtain ⟨outside, nodup⟩ := List.nodup_cons.mp nodup
    refine ⟨isFirst, ?_⟩
    have different : other ≠ first := by
      rintro rfl
      exact outside (by simp)
    rw [Function.update_of_ne different]
    exact inductionHypothesis nodup later

/-- A cell that is not the first is taken out through its neighbours. -/
theorem Linked.unlink {next prev prev' : Cell → Option Cell} {head : Option Cell}
    {before after : List Cell} {first cell : Cell}
    (linked : Linked next prev head (before ++ first :: cell :: after))
    (back : ∀ other ∈ after.head?, prev' other = some first)
    (same : ∀ other, after.head? ≠ some other → prev' other = prev other) :
    Linked (Function.update next first (next cell)) prev' head (before ++ first :: after) where
  visits := visits_unlink linked.nodup linked.visits
  backed := by
    obtain ⟨front, rest⟩ := List.isChain_split.mp linked.backed
    have nodup := linked.nodup
    refine List.isChain_split.mpr ⟨?_, ?_⟩
    · refine List.IsChain.imp_of_mem_tail_imp ?_ front
      intro left right _ member backed
      rw [same right]
      · exact backed
      · intro inside
        have inFront : right ∈ before ++ [first] := List.mem_of_mem_tail member
        have behind : right ∈ after := List.mem_of_mem_head? inside
        simp only [List.nodup_append, List.nodup_cons, List.mem_cons] at nodup
        rw [List.mem_append, List.mem_singleton] at inFront
        rcases inFront with early | rfl
        · exact nodup.2.2 right early right (.inr (.inr behind)) rfl
        · exact nodup.2.1.1 (.inr behind)
    · cases after with
      | nil => exact List.isChain_singleton first
      | cons other later =>
        refine List.isChain_cons_cons.mpr ⟨back other rfl, ?_⟩
        have old := rest.tail.tail
        refine List.IsChain.imp_of_mem_tail_imp ?_ old
        intro left right _ member backed
        rw [same right]
        · exact backed
        · intro inside
          have repeated : other ∈ later := by
            obtain rfl : other = right := Option.some.inj inside
            exact member
          simp only [List.nodup_append, List.nodup_cons] at nodup
          exact nodup.2.1.2.2.1 repeated
  nodup := by
    refine List.Nodup.sublist ?_ linked.nodup
    exact List.Sublist.append_left (List.Sublist.cons_cons _ (List.sublist_cons_self _ _)) _

end

end LinkedList
