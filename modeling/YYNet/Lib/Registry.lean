/-
This file is a small library of registries: lists of keys with values where a new
key is appended and a key that is there gets its value replaced in place.

A lookup takes the first entry of its key. Since no key comes twice, that is the
value which was assigned last, and the number of entries is the number of different
keys.
-/

import Mathlib

namespace Registry

variable {Key Value : Type*} [DecidableEq Key]

/-- The value in the first entry of a key. -/
def find (key : Key) : List (Key × Value) → Option Value
  | [] => none
  | entry :: rest => if entry.1 = key then some entry.2 else find key rest

/-- Replace the value of a key in place, or append the key. -/
def assign (key : Key) (value : Value) : List (Key × Value) → List (Key × Value)
  | [] => [(key, value)]
  | entry :: rest =>
    if entry.1 = key then (entry.1, value) :: rest else entry :: assign key value rest

/-- Assignments one after another, to a registry without entries. -/
def assignAll (pairs : List (Key × Value)) : List (Key × Value) :=
  pairs.foldl (fun entries pair => assign pair.1 pair.2 entries) []

/-- The value that was assigned to a key last. -/
def last (key : Key) (pairs : List (Key × Value)) : Option Value := find key pairs.reverse

theorem assignAll_snoc (pairs : List (Key × Value)) (key : Key) (value : Value) :
    assignAll (pairs ++ [(key, value)]) = assign key value (assignAll pairs) := by
  simp [assignAll]

theorem last_snoc (pairs : List (Key × Value)) (key other : Key) (value : Value) :
    last other (pairs ++ [(key, value)]) = if key = other then some value else last other pairs := by
  rw [last, List.reverse_append, List.reverse_singleton, List.singleton_append, find]
  rfl

theorem find_assign (key other : Key) (value : Value) (entries : List (Key × Value)) :
    find other (assign key value entries) =
      if key = other then some value else find other entries := by
  induction entries with
  | nil => rfl
  | cons entry rest inductionHypothesis =>
    rw [assign]
    by_cases here : entry.1 = key
    · subst here
      rw [if_pos rfl, find, find]
      by_cases same : entry.1 = other <;> simp [same]
    · rw [if_neg here, find, find, inductionHypothesis]
      by_cases same : entry.1 = other
      · rw [if_pos same, if_pos same, if_neg fun found => here (same.trans found.symm)]
      · rw [if_neg same, if_neg same]

theorem keys_assign (key : Key) (value : Value) (entries : List (Key × Value)) :
    (assign key value entries).map Prod.fst =
      if key ∈ entries.map Prod.fst then entries.map Prod.fst
      else entries.map Prod.fst ++ [key] := by
  induction entries with
  | nil => rfl
  | cons entry rest inductionHypothesis =>
    rw [assign, List.map_cons]
    by_cases here : entry.1 = key
    · rw [if_pos here, if_pos (by rw [here]; exact List.mem_cons_self), List.map_cons]
    · rw [if_neg here, List.map_cons, inductionHypothesis]
      by_cases later : key ∈ rest.map Prod.fst
      · rw [if_pos later, if_pos (List.mem_cons_of_mem _ later)]
      · have missing : key ∉ entry.1 :: rest.map Prod.fst :=
          List.not_mem_cons_of_ne_of_not_mem (Ne.symm here) later
        rw [if_neg later, if_neg missing, List.cons_append]

/-- No key comes twice. -/
theorem nodup_assignAll (pairs : List (Key × Value)) :
    ((assignAll pairs).map Prod.fst).Nodup := by
  induction pairs using List.reverseRecOn with
  | nil => exact List.nodup_nil
  | append_singleton pairs pair inductionHypothesis =>
    rw [assignAll_snoc, keys_assign]
    split
    · exact inductionHypothesis
    · rename_i missing
      refine List.nodup_append.mpr ⟨inductionHypothesis, List.nodup_singleton _, ?_⟩
      intro key isKey other isOther same
      rw [same, List.mem_singleton.mp isOther] at isKey
      exact missing isKey

/-- A lookup finds what was assigned last. -/
theorem find_assignAll (key : Key) (pairs : List (Key × Value)) :
    find key (assignAll pairs) = last key pairs := by
  induction pairs using List.reverseRecOn with
  | nil => rfl
  | append_singleton pairs pair inductionHypothesis =>
    rw [assignAll_snoc, find_assign, last_snoc, inductionHypothesis]

/-- The keys of the entries are the ones that were assigned. -/
theorem mem_keys_assignAll (key : Key) (pairs : List (Key × Value)) :
    key ∈ (assignAll pairs).map Prod.fst ↔ key ∈ pairs.map Prod.fst := by
  induction pairs using List.reverseRecOn with
  | nil => exact Iff.rfl
  | append_singleton pairs pair inductionHypothesis =>
    rw [assignAll_snoc, keys_assign, List.map_append, List.map_singleton, List.mem_append,
      List.mem_singleton]
    split
    · rename_i there
      rw [inductionHypothesis]
      refine ⟨Or.inl, ?_⟩
      rintro (member | rfl)
      · exact member
      · exact inductionHypothesis.mp there
    · rw [List.mem_append, List.mem_singleton, inductionHypothesis]

/-- There are as many entries as different keys were assigned. -/
theorem length_assignAll (pairs : List (Key × Value)) :
    (assignAll pairs).length = (pairs.map Prod.fst).toFinset.card := by
  have sameKeys : ((assignAll pairs).map Prod.fst).toFinset = (pairs.map Prod.fst).toFinset := by
    ext key
    rw [List.mem_toFinset, List.mem_toFinset, mem_keys_assignAll]
  rw [← sameKeys, List.toFinset_card_of_nodup (nodup_assignAll pairs), List.length_map]

end Registry
