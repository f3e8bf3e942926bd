/-
This file is a small library of finite maps that are walked in the order of
their keys, as lists of entries with increasing keys. A map carries the proof
that its keys increase, so two maps with the same answers to every lookup are
the same map, and one that is written down entry by entry and read back is the
one it was.
-/

import Mathlib

/-- A finite map: its entries in the order of their keys. -/
structure OrderedMap (Key Value : Type*) [LinearOrder Key] where
  entries : List (Key × Value)
  increasing : entries.Pairwise fun first second => first.1 < second.1

namespace OrderedMap

variable {Key Value : Type*} [LinearOrder Key]

instance [DecidableEq Value] : DecidableEq (OrderedMap Key Value) := fun first second =>
  decidable_of_iff (first.entries = second.entries) (by
    cases first
    cases second
    simp)

/-- The map without entries. -/
def empty : OrderedMap Key Value := ⟨[], List.Pairwise.nil⟩

/-- The value of a key, in a list of entries. -/
def search (key : Key) : List (Key × Value) → Option Value
  | [] => none
  | entry :: rest => if key = entry.1 then some entry.2 else search key rest

/-- The value of a key. -/
def find (map : OrderedMap Key Value) (key : Key) : Option Value :=
  search key map.entries

/-! ### Assignment -/

/-- Give a key a value, in a list of entries. -/
def put (key : Key) (value : Value) : List (Key × Value) → List (Key × Value)
  | [] => [(key, value)]
  | entry :: rest =>
    if key < entry.1 then (key, value) :: entry :: rest
    else if key = entry.1 then (key, value) :: rest
    else entry :: put key value rest

/-- Assignment adds one key to those that are there. -/
theorem keys_put (key : Key) (value : Value) (entries : List (Key × Value)) (entry : Key × Value)
    (member : entry ∈ put key value entries) : entry.1 = key ∨ entry ∈ entries := by
  induction entries with
  | nil =>
    rw [put, List.mem_singleton] at member
    exact .inl (by rw [member])
  | cons first rest inductionHypothesis =>
    rw [put] at member
    split at member
    · rcases List.mem_cons.mp member with rfl | old
      · exact .inl rfl
      · exact .inr old
    · split at member
      · rcases List.mem_cons.mp member with rfl | old
        · exact .inl rfl
        · exact .inr (List.mem_cons_of_mem _ old)
      · rcases List.mem_cons.mp member with rfl | later
        · exact .inr List.mem_cons_self
        · exact (inductionHypothesis later).imp_right (List.mem_cons_of_mem _)

theorem increasing_put (key : Key) (value : Value) (entries : List (Key × Value))
    (increasing : entries.Pairwise fun first second => first.1 < second.1) :
    (put key value entries).Pairwise fun first second => first.1 < second.1 := by
  induction entries with
  | nil => exact List.pairwise_singleton _ _
  | cons first rest inductionHypothesis =>
    obtain ⟨above, later⟩ := List.pairwise_cons.mp increasing
    rw [put]
    split
    · rename_i below
      refine List.pairwise_cons.mpr ⟨fun entry member => ?_, increasing⟩
      rcases List.mem_cons.mp member with rfl | inRest
      · exact below
      · exact below.trans (above entry inRest)
    · rename_i notBelow
      split
      · rename_i same
        refine List.pairwise_cons.mpr ⟨fun entry member => ?_, later⟩
        show key < entry.1
        rw [same]
        exact above entry member
      · rename_i different
        refine List.pairwise_cons.mpr ⟨fun entry member => ?_, inductionHypothesis later⟩
        rcases keys_put key value rest entry member with same | old
        · rw [same]
          exact lt_of_le_of_ne (not_lt.mp notBelow) (Ne.symm different)
        · exact above entry old

/-- Give a key a value. -/
def set (map : OrderedMap Key Value) (key : Key) (value : Value) : OrderedMap Key Value :=
  ⟨put key value map.entries, increasing_put key value map.entries map.increasing⟩

/-! ### Lookup -/

@[simp]
theorem find_empty (key : Key) : (empty : OrderedMap Key Value).find key = none :=
  rfl

theorem search_put (key other : Key) (value : Value) (entries : List (Key × Value)) :
    search other (put key value entries) =
      if other = key then some value else search other entries := by
  induction entries with
  | nil => rfl
  | cons first rest inductionHypothesis =>
    rw [put]
    split
    · rfl
    · split
      · rename_i replaced
        simp only [search, ← replaced]
        split <;> rfl
      · rename_i different
        simp only [search, inductionHypothesis]
        by_cases here : other = first.1
        · rw [if_pos here, if_neg (by rw [here]; exact Ne.symm different), if_pos here]
        · rw [if_neg here, if_neg here]

@[simp]
theorem find_set (map : OrderedMap Key Value) (key other : Key) (value : Value) :
    (map.set key value).find other = if other = key then some value else map.find other :=
  search_put key other value map.entries

/-- A lookup finds the entries. -/
theorem search_eq_some_iff {entries : List (Key × Value)}
    (increasing : entries.Pairwise fun first second => first.1 < second.1) (key : Key)
    (value : Value) : search key entries = some value ↔ (key, value) ∈ entries := by
  induction entries with
  | nil => simp [search]
  | cons first rest inductionHypothesis =>
    obtain ⟨above, later⟩ := List.pairwise_cons.mp increasing
    rw [search, List.mem_cons]
    split
    · rename_i here
      constructor
      · intro found
        exact .inl (by rw [here, ← Option.some.inj found])
      · rintro (rfl | member)
        · rfl
        · exact absurd here (above _ member).ne'
    · rename_i elsewhere
      rw [inductionHypothesis later]
      refine ⟨.inr, ?_⟩
      rintro (rfl | member)
      · exact absurd rfl elsewhere
      · exact member

/-- Two maps with the same lookups are the same. -/
theorem ext_find {first second : OrderedMap Key Value}
    (same : ∀ key, first.find key = second.find key) : first = second := by
  obtain ⟨left, leftIncreasing⟩ := first
  obtain ⟨right, rightIncreasing⟩ := second
  have members : ∀ entry, entry ∈ left ↔ entry ∈ right := by
    rintro ⟨key, value⟩
    rw [← search_eq_some_iff leftIncreasing, ← search_eq_some_iff rightIncreasing]
    exact iff_of_eq (congrArg (· = some value) (same key))
  have distinct {entries : List (Key × Value)}
      (increasing : entries.Pairwise fun first second => first.1 < second.1) : entries.Nodup :=
    increasing.imp fun below => by
      rintro rfl
      exact lt_irrefl _ below
  have permuted : left.Perm right :=
    (List.perm_ext_iff_of_nodup (distinct leftIncreasing) (distinct rightIncreasing)).mpr members
  have equal : left = right := permuted.eq_of_pairwise
    (fun _ _ _ _ below above => absurd below above.not_gt) leftIncreasing rightIncreasing
  simp [equal]

/-! ### Assignment of many entries -/

/-- Give a list of keys their values, one after another. -/
def setAll (map : OrderedMap Key Value) (entries : List (Key × Value)) : OrderedMap Key Value :=
  entries.foldl (fun known entry => known.set entry.1 entry.2) map

@[simp]
theorem setAll_cons (map : OrderedMap Key Value) (entry : Key × Value)
    (entries : List (Key × Value)) :
    map.setAll (entry :: entries) = (map.set entry.1 entry.2).setAll entries :=
  rfl

theorem setAll_append (map : OrderedMap Key Value) (first second : List (Key × Value)) :
    map.setAll (first ++ second) = (map.setAll first).setAll second :=
  List.foldl_append

/-- A key that is not among those assigned keeps its value. -/
theorem find_setAll_of_not_mem (map : OrderedMap Key Value) {entries : List (Key × Value)}
    {key : Key} (absent : ∀ entry ∈ entries, entry.1 ≠ key) :
    (map.setAll entries).find key = map.find key := by
  induction entries generalizing map with
  | nil => rfl
  | cons entry rest inductionHypothesis =>
    rw [setAll_cons, inductionHypothesis _ fun other member =>
      absent other (List.mem_cons_of_mem _ member), find_set,
      if_neg (Ne.symm (absent entry List.mem_cons_self))]

/-- A key that is among those assigned forgets its value. -/
theorem find_setAll_of_mem (first second : OrderedMap Key Value) {entries : List (Key × Value)}
    {key : Key} (present : ∃ entry ∈ entries, entry.1 = key) :
    (first.setAll entries).find key = (second.setAll entries).find key := by
  induction entries generalizing first second with
  | nil =>
    obtain ⟨entry, member, -⟩ := present
    cases member
  | cons entry rest inductionHypothesis =>
    rw [setAll_cons, setAll_cons]
    by_cases later : ∃ other ∈ rest, other.1 = key
    · exact inductionHypothesis _ _ later
    · have absent : ∀ other ∈ rest, other.1 ≠ key := fun other member same =>
        later ⟨other, member, same⟩
      obtain ⟨found, member, same⟩ := present
      have here : key = entry.1 := by
        rcases List.mem_cons.mp member with rfl | behind
        · exact same.symm
        · exact absurd same (absent found behind)
      rw [find_setAll_of_not_mem _ absent, find_setAll_of_not_mem _ absent, find_set, find_set,
        if_pos here, if_pos here]

/-- The last entry of a key among those assigned is its value. -/
theorem find_setAll_last (map : OrderedMap Key Value) (front : List (Key × Value))
    (entry : Key × Value) {back : List (Key × Value)}
    (last : ∀ later ∈ back, later.1 ≠ entry.1) :
    (map.setAll (front ++ entry :: back)).find entry.1 = some entry.2 := by
  rw [setAll_append, setAll_cons, find_setAll_of_not_mem _ last, find_set, if_pos rfl]

/-- A key has no value when it had none and is not among those assigned. -/
theorem find_setAll_eq_none_iff (map : OrderedMap Key Value) (entries : List (Key × Value))
    (key : Key) :
    (map.setAll entries).find key = none ↔
      map.find key = none ∧ ∀ entry ∈ entries, entry.1 ≠ key := by
  induction entries generalizing map with
  | nil => exact (and_iff_left fun _ member => absurd member List.not_mem_nil).symm
  | cons entry rest inductionHypothesis =>
    rw [setAll_cons, inductionHypothesis, find_set, List.forall_mem_cons]
    by_cases same : key = entry.1
    · simp [same]
    · rw [if_neg same, and_iff_right (Ne.symm same)]

/-- What a map had before is forgotten, if and only if all its keys are assigned. -/
theorem setAll_eq_setAll_empty_iff (map : OrderedMap Key Value) (entries : List (Key × Value)) :
    map.setAll entries = empty.setAll entries ↔
      ∀ key, map.find key ≠ none → (empty.setAll entries).find key ≠ none := by
  constructor
  · intro same key known absent
    rw [← same, find_setAll_eq_none_iff] at absent
    exact known absent.1
  · intro assigned
    refine ext_find fun key => ?_
    by_cases present : ∃ entry ∈ entries, entry.1 = key
    · exact find_setAll_of_mem _ _ present
    · have absent : ∀ entry ∈ entries, entry.1 ≠ key := fun entry member same =>
        present ⟨entry, member, same⟩
      rw [find_setAll_of_not_mem _ absent, find_setAll_of_not_mem _ absent, find_empty]
      by_contra known
      refine assigned key known ?_
      rw [find_setAll_of_not_mem _ absent, find_empty]

/-- Assigning the same entries again changes nothing. -/
theorem setAll_setAll (map : OrderedMap Key Value) (entries : List (Key × Value)) :
    (map.setAll entries).setAll entries = map.setAll entries := by
  refine ext_find fun key => ?_
  by_cases present : ∃ entry ∈ entries, entry.1 = key
  · exact find_setAll_of_mem _ _ present
  · exact find_setAll_of_not_mem _ fun entry member same => present ⟨entry, member, same⟩

/-- The entries of a map, assigned one after another. -/
theorem find_setAll_of_increasing (map : OrderedMap Key Value) {entries : List (Key × Value)}
    (increasing : entries.Pairwise fun first second => first.1 < second.1) (key : Key) :
    (map.setAll entries).find key = (search key entries).or (map.find key) := by
  induction entries generalizing map with
  | nil => rfl
  | cons entry rest inductionHypothesis =>
    obtain ⟨above, later⟩ := List.pairwise_cons.mp increasing
    rw [setAll_cons, search]
    split
    · rename_i here
      rw [find_setAll_of_not_mem _ fun other member => by rw [here]; exact (above other member).ne',
        find_set, if_pos here]
      rfl
    · rename_i elsewhere
      rw [inductionHypothesis _ later, find_set, if_neg elsewhere]

/-- A map written down entry by entry and read back is the same map. -/
theorem setAll_entries (map : OrderedMap Key Value) : empty.setAll map.entries = map := by
  refine ext_find fun key => ?_
  rw [find_setAll_of_increasing _ map.increasing, find_empty, Option.or_none]
  rfl

/-! ### Lists of values -/

/-- Append to the list of a key, which is empty at first. -/
def pushBack (map : OrderedMap Key (List Value)) (key : Key) (value : Value) :
    OrderedMap Key (List Value) :=
  map.set key ((map.find key).getD [] ++ [value])

/-- Append many entries to the lists of their keys. -/
def pushAll (map : OrderedMap Key (List Value)) (entries : List (Key × Value)) :
    OrderedMap Key (List Value) :=
  entries.foldl (fun known entry => known.pushBack entry.1 entry.2) map

@[simp]
theorem pushAll_nil (map : OrderedMap Key (List Value)) : map.pushAll [] = map :=
  rfl

@[simp]
theorem pushAll_cons (map : OrderedMap Key (List Value)) (entry : Key × Value)
    (entries : List (Key × Value)) :
    map.pushAll (entry :: entries) = (map.pushBack entry.1 entry.2).pushAll entries :=
  rfl

theorem pushAll_append (map : OrderedMap Key (List Value)) (first second : List (Key × Value)) :
    map.pushAll (first ++ second) = (map.pushAll first).pushAll second :=
  List.foldl_append

theorem getD_find_pushBack (map : OrderedMap Key (List Value)) (key other : Key) (value : Value) :
    ((map.pushBack key value).find other).getD [] =
      (map.find other).getD [] ++ if key = other then [value] else [] := by
  unfold pushBack
  rw [find_set]
  by_cases same : key = other
  · rw [if_pos same.symm, if_pos same, same]
    rfl
  · rw [if_neg (Ne.symm same), if_neg same, List.append_nil]

/-- The list of a key grows by the values appended under it, in their order. -/
theorem getD_find_pushAll (map : OrderedMap Key (List Value)) (entries : List (Key × Value))
    (key : Key) : ((map.pushAll entries).find key).getD [] =
      (map.find key).getD [] ++ (entries.filter fun entry => entry.1 = key).map Prod.snd := by
  induction entries generalizing map with
  | nil => simp
  | cons entry rest inductionHypothesis =>
    rw [pushAll_cons, inductionHypothesis, getD_find_pushBack, List.append_assoc]
    by_cases same : entry.1 = key <;> simp [same]

/-- No list is empty when none was. -/
theorem find_pushBack_ne_nil {map : OrderedMap Key (List Value)}
    (nonempty : ∀ key, map.find key ≠ some []) (key : Key) (value : Value) (other : Key) :
    (map.pushBack key value).find other ≠ some [] := by
  unfold pushBack
  rw [find_set]
  split
  · simp
  · exact nonempty other

end OrderedMap
