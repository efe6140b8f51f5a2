import Mathlib.Algebra.BigOperators.Finprod
import Mathlib.Tactic.Abel

/-!
# Finite sums that change at few points

An update of a state changes a sum over its parts only at the parts it touches.
-/

namespace Mpich.FiniteSum

open List

variable {Index Value : Type*} [Fintype Index] [DecidableEq Index]
  [AddCommMonoid Value]

/-- Two families that agree except at two points have sums that differ by the
values at these points. -/
theorem sum_add_pair
    (before after : Index → Value)
    {first second : Index}
    (different : first ≠ second)
    (agree : ∀ index, index ≠ first → index ≠ second → after index = before index) :
    (∑ index, after index) + (before first + before second) =
      (∑ index, before index) + (after first + after second) := by
  have secondMember : second ∈ Finset.univ.erase first :=
    Finset.mem_erase.mpr ⟨different.symm, Finset.mem_univ second⟩
  have rest :
      ∑ index ∈ (Finset.univ.erase first).erase second, after index =
        ∑ index ∈ (Finset.univ.erase first).erase second, before index := by
    apply Finset.sum_congr rfl
    intro index member
    rw [Finset.mem_erase, Finset.mem_erase] at member
    exact agree index member.2.1 member.1
  have split (family : Index → Value) :
      ∑ index, family index = family first + (family second +
          ∑ index ∈ (Finset.univ.erase first).erase second, family index) := by
    rw [Finset.add_sum_erase _ family secondMember,
      Finset.add_sum_erase _ family (Finset.mem_univ first)]
  rw [split before, split after, rest]
  abel

/-- Two families that agree except at one point of a set have sums over the set
that differ by the values at that point. -/
theorem sum_add_point
    {Index Value : Type*} [DecidableEq Index] [AddCommMonoid Value]
    {set : Finset Index}
    (before after : Index → Value)
    {point : Index}
    (member : point ∈ set)
    (agree : ∀ index, index ≠ point → after index = before index) :
    (∑ index ∈ set, after index) + before point = (∑ index ∈ set, before index) + after point := by
  have rest : ∑ index ∈ set.erase point, after index = ∑ index ∈ set.erase point, before index := by
    apply Finset.sum_congr rfl
    intro index isOther
    exact agree index (Finset.ne_of_mem_erase isOther)
  rw [← Finset.add_sum_erase set after member, ← Finset.add_sum_erase set before member, rest]
  abel

/-- Two families with finitely many values that agree except at one point have sums that
differ by the values at that point. -/
theorem finsum_add_point
    {Index Value : Type*} [AddCommMonoid Value]
    (before after : Index → Value)
    {point : Index}
    (finite : before.support.Finite)
    (agree : ∀ index, index ≠ point → after index = before index) :
    (∑ᶠ index, after index) + before point = (∑ᶠ index, before index) + after point := by
  classical
  have beforeWithin : before.support ⊆ (insert point finite.toFinset : Finset Index) := by
    intro index inSupport
    exact Finset.mem_coe.mpr (Finset.mem_insert_of_mem (finite.mem_toFinset.mpr inSupport))
  have afterWithin : after.support ⊆ (insert point finite.toFinset : Finset Index) := by
    intro index inSupport
    by_cases isPoint : index = point
    · rw [isPoint]
      exact Finset.mem_coe.mpr (Finset.mem_insert_self point _)
    · apply beforeWithin
      rw [Function.mem_support, ← agree index isPoint]
      exact inSupport
  rw [finsum_eq_sum_of_support_subset before beforeWithin,
    finsum_eq_sum_of_support_subset after afterWithin]
  exact sum_add_point before after (Finset.mem_insert_self point _) agree

/-- The sum over a list in which one element is replaced. -/
theorem sum_map_set
    {Element : Type*}
    (measure : Element → Nat)
    {list : List Element} {index : Nat} {old : Element}
    (isOld : list[index]? = some old)
    (new : Element) :
    ((list.set index new).map measure).sum + measure old =
      (list.map measure).sum + measure new := by
  induction list generalizing index with
  | nil => simp at isOld
  | cons first rest ih =>
    cases index with
    | zero =>
      rw [getElem?_cons_zero, Option.some.injEq] at isOld
      rw [set_cons_zero, map_cons, map_cons, sum_cons, sum_cons, isOld]
      omega
    | succ index =>
      have sums := ih isOld
      rw [set_cons_succ, map_cons, map_cons, sum_cons, sum_cons]
      omega

end Mpich.FiniteSum

/-!
## Extreme values found by a loop

A loop over a list that keeps the least or the greatest value of a measure ends
with a bound for all values, and every other such bound is a bound for the
result.
-/

namespace Mpich.Extremes

variable {α β : Type*} [LinearOrder β] (measure : α → β)

theorem start_le_foldl_max
    (list : List α)
    (start : β) :
    start ≤ list.foldl (fun most element => max most (measure element)) start := by
  induction list generalizing start with
  | nil => exact le_refl start
  | cons first rest ih => exact le_trans (le_max_left _ _) (ih _)

theorem le_foldl_max
    {list : List α} {element : α}
    (member : element ∈ list)
    (start : β) :
    measure element ≤ list.foldl (fun most element => max most (measure element)) start := by
  induction list generalizing start with
  | nil => exact absurd member List.not_mem_nil
  | cons first rest ih =>
    rcases List.mem_cons.mp member with rfl | member
    · exact le_trans (le_max_right _ _) (start_le_foldl_max measure rest _)
    · exact ih member _

end Mpich.Extremes
