import Mathlib.Data.List.Nodup
import Mathlib.Data.Nat.ModEq

/-!
# Positions on a ring

Moving ahead and behind on a ring of positions, which are counted from zero.
-/

namespace Mpich.Cyclic

open List

/-- The position this many steps ahead. -/
def ahead (size position steps : Nat) : Nat :=
  (position + steps) % size

/-- The position this many steps behind. -/
def behind (size position steps : Nat) : Nat :=
  (position + size - steps) % size

variable {size position other steps more : Nat}

variable (inside : position < size)

section

include inside

theorem ahead_lt :
    ahead size position steps < size :=
  Nat.mod_lt _ (by omega)

theorem behind_lt :
    behind size position steps < size :=
  Nat.mod_lt _ (by omega)

theorem ahead_eq_ite
    (within : steps ≤ size) :
    ahead size position steps = if position + steps < size then position + steps
      else position + steps - size := by
  unfold ahead
  by_cases noWrap : position + steps < size
  · rw [if_pos noWrap, Nat.mod_eq_of_lt noWrap]
  · rw [if_neg noWrap, Nat.mod_eq_sub_mod (by omega), Nat.mod_eq_of_lt (by omega)]

theorem behind_eq_ite
    (within : steps ≤ size) :
    behind size position steps = if steps ≤ position then position - steps
      else position + size - steps := by
  unfold behind
  by_cases noWrap : steps ≤ position
  · rw [if_pos noWrap, show position + size - steps = position - steps + size by
      omega, Nat.add_mod_right, Nat.mod_eq_of_lt (by omega)]
  · rw [if_neg noWrap, Nat.mod_eq_of_lt (by omega)]

@[simp] theorem behind_zero :
    behind size position 0 = position := by
  rw [behind_eq_ite inside (Nat.zero_le _), if_pos (Nat.zero_le _), Nat.sub_zero]

@[simp] theorem ahead_zero :
    ahead size position 0 = position := by
  rw [ahead_eq_ite inside (Nat.zero_le _), if_pos (by omega), add_zero]

end

section

variable
    (inside : position < size)

include inside

/-- One position is ahead of another as far as the other is behind it. -/
theorem ahead_eq_iff
    (otherInside : other < size)
    (within : steps ≤ size) :
    ahead size position steps = other ↔ behind size other steps = position := by
  rw [ahead_eq_ite inside within, behind_eq_ite otherInside within]
  constructor
  · intro reaches
    split at reaches <;> split <;> omega
  · intro reaches
    split at reaches <;> split <;> omega

theorem ahead_behind (within : steps ≤ size) :
    ahead size (behind size position steps) steps = position :=
  (ahead_eq_iff (behind_lt inside) inside within).mpr rfl

theorem behind_ahead (within : steps ≤ size) :
    behind size (ahead size position steps) steps = position :=
  (ahead_eq_iff inside (ahead_lt inside) within).mp rfl

theorem behind_behind (within : steps + more ≤ size) :
    behind size (behind size position steps) more = behind size position (steps + more) := by
  rw [behind_eq_ite (behind_lt inside) (by omega),
    behind_eq_ite inside (by omega), behind_eq_ite inside within]
  split <;> split <;> split <;> omega

theorem ahead_ahead (within : steps + more ≤ size) :
    ahead size (ahead size position steps) more = ahead size position (steps + more) := by
  rw [ahead_eq_ite (ahead_lt inside) (by omega),
    ahead_eq_ite inside (by omega), ahead_eq_ite inside within]
  split <;> split <;> split <;> omega

/-- Positions that are reached in fewer steps than there are positions are
different. -/
theorem ahead_injective
    (within : steps < size)
    (moreWithin : more < size)
    (same : ahead size position steps = ahead size position more) :
    steps = more := by
  rw [ahead_eq_ite inside (by omega), ahead_eq_ite inside (by omega)] at same
  split at same <;> split at same <;> omega

/-- Every position is so many steps ahead of every other. -/
theorem exists_ahead_eq (otherInside : other < size) :
    ∃ steps < size, ahead size position steps = other := by
  refine ⟨ahead size other (size - position) % size, Nat.mod_lt _ (by omega), ?_⟩
  rw [Nat.mod_eq_of_lt (ahead_lt otherInside),
    ahead_eq_ite inside (ahead_lt otherInside).le, ahead_eq_ite otherInside (by omega)]
  split <;> split <;> omega

end

/-- Moving ahead permutes the positions. -/
theorem map_ahead_perm (within : steps ≤ size) :
    ((List.range size).map fun position => ahead size position steps).Perm
      (List.range size) := by
  have distinct : ((List.range size).map fun position =>
      ahead size position steps).Nodup := by
    apply List.Nodup.map_on _ nodup_range
    intro position inside other otherInside same
    rw [← behind_ahead (mem_range.mp inside) within, same,
      behind_ahead (mem_range.mp otherInside) within]
  rw [perm_ext_iff_of_nodup distinct nodup_range]
  intro position
  rw [mem_map, mem_range]
  constructor
  · rintro ⟨before, inside, rfl⟩
    exact ahead_lt (mem_range.mp inside)
  · intro inside
    exact ⟨behind size position steps, mem_range.mpr (behind_lt inside), ahead_behind inside within⟩

section

include inside

/-- The relative position moves ahead with the position, as long as it does not
wrap. -/
theorem behind_ahead_of_lt
    {root : Nat}
    (rootInside : root < size)
    (noWrap : behind size position root + steps < size) :
    behind size (ahead size position steps) root = behind size position root + steps := by
  rw [behind_eq_ite inside rootInside.le] at noWrap ⊢
  rw [behind_eq_ite (ahead_lt inside) rootInside.le, ahead_eq_ite inside (by omega)]
  split at noWrap <;> split <;> split <;> omega

/-- The relative position moves behind with the position, as long as it does not
wrap. -/
theorem behind_behind_of_le
    {root : Nat}
    (rootInside : root < size)
    (noWrap : steps ≤ behind size position root) :
    behind size (behind size position steps) root = behind size position root - steps := by
  have bound := @behind_lt size position root inside
  rw [behind_eq_ite inside rootInside.le] at noWrap bound ⊢
  rw [behind_eq_ite (behind_lt inside) rootInside.le, behind_eq_ite inside (by omega)]
  split at noWrap <;> split <;> split <;> omega

theorem behind_comm
    (within : steps ≤ size)
    (moreWithin : more ≤ size) :
    behind size (behind size position steps) more =
      behind size (behind size position more) steps := by
  rw [behind_eq_ite (behind_lt inside) moreWithin, behind_eq_ite (behind_lt inside) within,
    behind_eq_ite inside within, behind_eq_ite inside moreWithin]
  split <;> split <;> split <;> (try split) <;> omega

/-- Positions with the same relative position are the same. -/
theorem behind_injective
    {root : Nat}
    (otherInside : other < size)
    (rootInside : root < size)
    (same : behind size position root = behind size other root) :
    position = other := by
  rw [← ahead_behind inside rootInside.le, same, ahead_behind otherInside rootInside.le]

end

end Mpich.Cyclic
