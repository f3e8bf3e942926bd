/-
This file is a small library of ordered sets kept as strictly increasing
lists: insertion of an element that may be there already, and the split at a
bound. Everything a client needs is a fact about membership, given that the
list is strictly increasing.
-/

import Mathlib

namespace OrderedSet

variable {Element : Type*} [LinearOrder Element]

/-- A set in order: strictly increasing. -/
def Ordered (set : List Element) : Prop := set.Pairwise (· < ·)

/-- Insert an element unless it is there. -/
def put (element : Element) : List Element → List Element
  | [] => [element]
  | first :: rest =>
    if element < first then element :: first :: rest
    else if element = first then first :: rest
    else first :: put element rest

theorem mem_put (element other : Element) (set : List Element) :
    other ∈ put element set ↔ other = element ∨ other ∈ set := by
  induction set with
  | nil => simp [put]
  | cons first rest inductionHypothesis =>
    rw [put]
    split
    · simp
    · split
      · rename_i same
        simp [same]
      · rw [List.mem_cons, inductionHypothesis, List.mem_cons]
        tauto

theorem ordered_put (element : Element) (set : List Element) (ordered : Ordered set) :
    Ordered (put element set) := by
  induction set with
  | nil => exact List.pairwise_singleton _ _
  | cons first rest inductionHypothesis =>
    obtain ⟨below, later⟩ := List.pairwise_cons.mp ordered
    rw [put]
    split
    · rename_i before
      refine List.pairwise_cons.mpr ⟨fun other member => ?_, ordered⟩
      rcases List.mem_cons.mp member with rfl | inside
      · exact before
      · exact before.trans (below other inside)
    · split
      · exact ordered
      · rename_i notBefore notSame
        refine List.pairwise_cons.mpr ⟨fun other member => ?_, inductionHypothesis later⟩
        rcases (mem_put element other rest).mp member with rfl | inside
        · exact lt_of_le_of_ne (not_lt.mp notBefore) (Ne.symm notSame)
        · exact below other inside

theorem ordered_of_sublist {small large : List Element} (sublist : small.Sublist large)
    (ordered : Ordered large) : Ordered small :=
  List.Pairwise.sublist sublist ordered

theorem Ordered.nodup {set : List Element} (ordered : Ordered set) : set.Nodup :=
  ordered.imp fun below => ne_of_lt below

/-- Insert several elements. -/
def putAll (elements set : List Element) : List Element :=
  elements.foldl (fun grown element => put element grown) set

theorem mem_putAll (elements : List Element) (other : Element) (set : List Element) :
    other ∈ putAll elements set ↔ other ∈ elements ∨ other ∈ set := by
  unfold putAll
  induction elements generalizing set with
  | nil => simp
  | cons first rest inductionHypothesis =>
    rw [List.foldl_cons, inductionHypothesis, mem_put, List.mem_cons]
    tauto

theorem ordered_putAll (elements set : List Element) (ordered : Ordered set) :
    Ordered (putAll elements set) := by
  unfold putAll
  induction elements generalizing set with
  | nil => exact ordered
  | cons first rest inductionHypothesis =>
    exact inductionHypothesis _ (ordered_put first set ordered)

/-! ### The split at a bound -/

/-- The elements up to a bound. -/
def upTo (bound : Element) (set : List Element) : List Element := set.takeWhile (· ≤ bound)

/-- The elements beyond a bound. -/
def beyond (bound : Element) (set : List Element) : List Element := set.dropWhile (· ≤ bound)

theorem upTo_append_beyond (bound : Element) (set : List Element) :
    upTo bound set ++ beyond bound set = set :=
  List.takeWhile_append_dropWhile

theorem upTo_sublist (bound : Element) (set : List Element) : (upTo bound set).Sublist set :=
  List.takeWhile_sublist _

theorem beyond_sublist (bound : Element) (set : List Element) : (beyond bound set).Sublist set :=
  List.dropWhile_sublist _

theorem le_of_mem_upTo {bound element : Element} {set : List Element}
    (member : element ∈ upTo bound set) : element ≤ bound := by
  simpa using List.mem_takeWhile_imp member

/-- Beyond a bound every element is larger than it. -/
theorem lt_of_mem_beyond {bound element : Element} {set : List Element} (ordered : Ordered set)
    (member : element ∈ beyond bound set) : bound < element := by
  induction set with
  | nil => cases member
  | cons first rest inductionHypothesis =>
    obtain ⟨below, later⟩ := List.pairwise_cons.mp ordered
    unfold beyond at member
    by_cases inside : first ≤ bound
    · rw [List.dropWhile_cons_of_pos (by simpa using inside)] at member
      exact inductionHypothesis later member
    · rw [List.dropWhile_cons_of_neg (by simpa using inside)] at member
      rcases List.mem_cons.mp member with rfl | further
      · exact not_le.mp inside
      · exact (not_le.mp inside).trans (below element further)

theorem upTo_eq_filter (bound : Element) (set : List Element) (ordered : Ordered set) :
    upTo bound set = set.filter (· ≤ bound) := by
  have whole := congrArg (List.filter fun element => decide (element ≤ bound))
    (upTo_append_beyond bound set)
  rw [List.filter_append] at whole
  have low : (upTo bound set).filter (· ≤ bound) = upTo bound set :=
    List.filter_eq_self.mpr fun element member => by simpa using le_of_mem_upTo member
  have high : (beyond bound set).filter (· ≤ bound) = [] :=
    List.filter_eq_nil_iff.mpr fun element member => by
      simpa using lt_of_mem_beyond ordered member
  rw [← whole, low, high, List.append_nil]

theorem beyond_eq_filter (bound : Element) (set : List Element) (ordered : Ordered set) :
    beyond bound set = set.filter (bound < ·) := by
  have whole := congrArg (List.filter fun element => decide (bound < element))
    (upTo_append_beyond bound set)
  rw [List.filter_append] at whole
  have low : (upTo bound set).filter (bound < ·) = [] :=
    List.filter_eq_nil_iff.mpr fun element member => by simpa using le_of_mem_upTo member
  have high : (beyond bound set).filter (bound < ·) = beyond bound set :=
    List.filter_eq_self.mpr fun element member => by
      simpa using lt_of_mem_beyond ordered member
  rw [← whole, low, high, List.nil_append]

/-- The first element beyond a bound separates the set there. -/
theorem le_iff_lt_head_beyond {bound first element : Element} {set : List Element}
    (ordered : Ordered set) (head : (beyond bound set).head? = some first)
    (member : element ∈ set) : element ≤ bound ↔ element < first := by
  obtain ⟨rest, shape⟩ := List.head?_eq_some_iff.mp head
  have whole : upTo bound set ++ first :: rest = set := shape ▸ upTo_append_beyond bound set
  rw [← whole] at member
  have pairs := List.pairwise_append.mp (whole.symm ▸ ordered)
  rcases List.mem_append.mp member with low | high
  · exact iff_of_true (le_of_mem_upTo low) (pairs.2.2 element low first List.mem_cons_self)
  · have above : bound < element := lt_of_mem_beyond ordered (shape ▸ high)
    refine iff_of_false (not_le.mpr above) (not_lt.mpr ?_)
    rcases List.mem_cons.mp high with rfl | later
    · exact le_refl _
    · exact ((List.pairwise_cons.mp pairs.2.1).1 element later).le

/-- Nothing lies beyond a bound when the elements up to it are all. -/
theorem le_of_head_beyond_eq_none {bound element : Element} {set : List Element}
    (none : (beyond bound set).head? = none) (member : element ∈ set) : element ≤ bound := by
  rw [List.head?_eq_none_iff] at none
  have whole := upTo_append_beyond bound set
  rw [none, List.append_nil] at whole
  exact le_of_mem_upTo (whole.symm ▸ member)

end OrderedSet
