/-
This file is a small library for counting over finitely many parties: what a
sum over all of them becomes when one party changes, and what a sum that is
zero or one says about the parties.

A conservation law is a sum that no step changes. A step touches one party, so
the law needs only that party's share before and after.
-/

import Mathlib

namespace Tally

variable {Party State : Type*} [Fintype Party] [DecidableEq Party]

/-- When one party changes, the sum changes by its share. -/
theorem sum_update (share : State → Nat) (state : Party → State) (party : Party) (next : State) :
    ∑ other, share (Function.update state party next other) + share (state party) =
      ∑ other, share (state other) + share next := by
  have changed : ∀ other, share (Function.update state party next other) =
      Function.update (fun other => share (state other)) party (share next) other := by
    intro other
    by_cases same : other = party
    · subst same
      simp
    · simp [same]
  rw [Finset.sum_congr rfl fun other _ => changed other,
    Finset.sum_update_of_mem (Finset.mem_univ party),
    ← Finset.sum_sdiff (Finset.subset_univ {party})]
  simp
  omega

/-- A party whose share does not change leaves the sum as it is. -/
theorem sum_update_same (share : State → Nat) (state : Party → State) (party : Party)
    (next : State) (same : share next = share (state party)) :
    ∑ other, share (Function.update state party next other) = ∑ other, share (state other) := by
  have changed := sum_update share state party next
  omega

/-- When one party changes and every other share grows by little, the sum grows by as much as
there are other parties. -/
theorem sum_update_le (before after : State → Nat) (state : Party → State) (party : Party)
    (next : State) {extra : Nat}
    (others : ∀ other ≠ party, after (state other) ≤ before (state other) + extra) :
    ∑ other, after (Function.update state party next other) + before (state party) ≤
      ∑ other, before (state other) + after next + (Fintype.card Party - 1) * extra := by
  have changed := Finset.add_sum_erase Finset.univ
    (fun other => after (Function.update state party next other)) (Finset.mem_univ party)
  have whole := Finset.add_sum_erase Finset.univ (fun other => before (state other))
    (Finset.mem_univ party)
  have rest : ∑ other ∈ Finset.univ.erase party, after (Function.update state party next other) ≤
      ∑ other ∈ Finset.univ.erase party, (before (state other) + extra) := by
    refine Finset.sum_le_sum fun other member => ?_
    have different := Finset.ne_of_mem_erase member
    rw [Function.update_of_ne different]
    exact others other different
  rw [Finset.sum_add_distrib, Finset.sum_const, Finset.card_erase_of_mem (Finset.mem_univ party),
    Finset.card_univ, smul_eq_mul] at rest
  simp only [Function.update_self] at changed
  omega

/-- A sum of one has one party with a share of one, and all others have none. -/
theorem one_of_sum_eq_one {share : Party → Nat} (one : ∑ party, share party = 1) :
    ∃ party, share party = 1 ∧ ∀ other, other ≠ party → share other = 0 := by
  obtain ⟨party, -, positive⟩ : ∃ party ∈ Finset.univ, 0 < share party := by
    by_contra none
    push Not at none
    have zero : ∑ party, share party = 0 :=
      Finset.sum_eq_zero fun party member => Nat.le_zero.mp (none party member)
    omega
  have split := Finset.add_sum_erase Finset.univ share (Finset.mem_univ party)
  have rest : ∑ other ∈ Finset.univ.erase party, share other = 0 := by omega
  refine ⟨party, by omega, fun other different => ?_⟩
  exact Finset.sum_eq_zero_iff.mp rest other (by simp [different])

end Tally
