import Mathlib.Algebra.BigOperators.Group.Finset.Piecewise
import Mathlib.Algebra.Order.BigOperators.Group.Finset

/-!
# Amounts in many places

An amount lies in places, of which only finitely many have some of it, and beside them. When
it is moved from one place to another nothing gets lost and nothing is there twice.
-/

namespace Ledger

variable {ι : Type*}

/-- What lies in the places and beside them makes the total. -/
def Total (places : ι → Nat) (beside total : Nat) : Prop :=
  ∃ used : Finset ι, (∀ i, i ∉ used → places i = 0) ∧ beside + ∑ i ∈ used, places i = total

section Rules

variable {places : ι → Nat} {beside beside' total total' : Nat}

theorem Total.empty : Total (fun _ : ι => 0) beside beside := ⟨∅, fun _ _ => rfl, by simp⟩

/-- One place changes, and what lies beside the places or the total with it. -/
theorem Total.change [DecidableEq ι] (h : Total places beside total) (i : ι) {amount : Nat}
    (hsum : beside' + amount + total = beside + places i + total') :
    Total (Function.update places i amount) beside' total' := by
  obtain ⟨used, hnone, rfl⟩ := h
  have hrest : ∑ j ∈ insert i used, places j = ∑ j ∈ used, places j := by
    refine (Finset.sum_subset (Finset.subset_insert i used) fun j _ hj => hnone j hj).symm
  have hsplit := Finset.add_sum_erase (insert i used) places (Finset.mem_insert_self i used)
  refine ⟨insert i used, fun j hj => ?_, ?_⟩
  · rw [Finset.mem_insert, not_or] at hj
    rw [Function.update_of_ne hj.1]
    exact hnone j hj.2
  · have hupdated := Finset.sum_update_of_mem (Finset.mem_insert_self i used) places amount
    rw [← Finset.erase_eq] at hupdated
    omega

theorem Total.zero (h : Total places beside 0) : beside = 0 ∧ ∀ i, places i = 0 := by
  obtain ⟨used, hnone, hsum⟩ := h
  have hparts := Nat.add_eq_zero_iff.mp hsum
  refine ⟨hparts.1, fun i => ?_⟩
  by_cases hi : i ∈ used
  · exact Finset.sum_eq_zero_iff.mp hparts.2 i hi
  · exact hnone i hi

/-- What is one lies beside the places, or in a single one of them. -/
theorem Total.one [DecidableEq ι] (h : Total places beside 1) :
    (beside = 1 ∧ ∀ i, places i = 0) ∨
      (beside = 0 ∧ ∃ i, places i = 1 ∧ ∀ j, j ≠ i → places j = 0) := by
  obtain ⟨used, hnone, hsum⟩ := h
  by_cases hall : ∀ i ∈ used, places i = 0
  · left
    rw [Finset.sum_eq_zero hall, Nat.add_zero] at hsum
    refine ⟨hsum, fun i => ?_⟩
    by_cases hi : i ∈ used
    · exact hall i hi
    · exact hnone i hi
  · right
    push Not at hall
    obtain ⟨i, hi, hpos⟩ := hall
    have hsplit := Finset.add_sum_erase used places hi
    have hothers : ∑ j ∈ used.erase i, places j = 0 := by omega
    refine ⟨by omega, i, by omega, fun j hj => ?_⟩
    by_cases hin : j ∈ used
    · exact Finset.sum_eq_zero_iff.mp hothers j (Finset.mem_erase.mpr ⟨hj, hin⟩)
    · exact hnone j hin

end Rules

end Ledger
