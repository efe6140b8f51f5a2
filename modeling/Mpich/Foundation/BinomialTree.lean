import Mpich.Foundation.Masks
import Mpich.Foundation.MessagePassing.Schedule
import Mpich.Foundation.OrderedProduct

/-!
# Combining values up a binomial tree

The parent of a position has its lowest bit cleared. In round `r`, the positions
whose lowest bit is bit `r` hand their values to their parents, where a parent
without such a child keeps what it has. After `r` rounds a position that still
takes part has the values of the `2 ^ r` positions from its own on, as far as
there are so many.
-/

namespace Mpich.BinomialTree

open Masks MessagePassing List Cyclic OrderedProduct

variable {Value Index : Type*}

/-- Combined values, where a condition tells whether the child's value comes
first. -/
def valueAt
    (op : Value → Value → Value)
    (childFirst : Prop)
    [Decidable childFirst]
    (size : Nat)
    (start : Nat → Value) : Nat → Nat → Value
  | 0, position => start position
  | round + 1, position =>
    if position + 2 ^ round < size then
      if childFirst then
        op (valueAt op childFirst size start round (position + 2 ^ round))
          (valueAt op childFirst size start round position)
      else
        op (valueAt op childFirst size start round position)
          (valueAt op childFirst size start round (position + 2 ^ round))
    else valueAt op childFirst size start round position

/-- The positions whose values have been combined, in their order. -/
def groupAt
    (childFirst : Prop)
    [Decidable childFirst]
    (size : Nat) : Nat → Nat → List Nat
  | 0, position => [position]
  | round + 1, position =>
    if position + 2 ^ round < size then
      if childFirst then
        groupAt childFirst size round (position + 2 ^ round) ++
          groupAt childFirst size round position
      else
        groupAt childFirst size round position ++
          groupAt childFirst size round (position + 2 ^ round)
    else groupAt childFirst size round position

section

variable {op : Value → Value → Value} {childFirst : Prop} [Decidable childFirst]
variable {size : Nat} {start : Nat → Value}

/-- A combined value is the product over its group. -/
theorem product_valueAt
    (associative : ∀ a b c, op (op a b) c = op a (op b c))
    {value : Index → Value} {members : Nat → List Index}
    (starts : ∀ position, product op value (members position) = some (start position))
    (round position : Nat) :
    product op value ((groupAt childFirst size round position).flatMap members) =
      some (valueAt op childFirst size start round position) := by
  induction round generalizing position with
  | zero =>
    rw [groupAt, flatMap_singleton]
    exact starts position
  | succ round ih =>
    rw [groupAt, valueAt]
    split
    · split
      · rw [flatMap_append]
        exact product_append associative (ih _) (ih _)
      · rw [flatMap_append]
        exact product_append associative (ih _) (ih _)
    · exact ih _

variable {position round : Nat}

/-- A subtree is as large as there are positions for it. -/
theorem range'_subtrees
    (within : position + 2 ^ round < size) :
    range' position (min (2 ^ round) (size - position)) ++ range' (position + 2 ^ round)
          (min (2 ^ round) (size - (position + 2 ^ round))) =
      range' position (min (2 ^ (round + 1)) (size - position)) := by
  rw [show min (2 ^ round) (size - position) = 2 ^ round by omega, range'_append_1,
    show 2 ^ round + min (2 ^ round) (size - (position + 2 ^ round)) =
      min (2 ^ (round + 1)) (size - position) by omega]

theorem range'_subtree
    (beyond : ¬ position + 2 ^ round < size) :
    range' position (min (2 ^ round) (size - position)) =
      range' position (min (2 ^ (round + 1)) (size - position)) := by
  have few : size - position ≤ 2 ^ round := Nat.sub_le_iff_le_add'.mpr (Nat.le_of_not_lt beyond)
  have less : 2 ^ round ≤ 2 ^ (round + 1) := Nat.pow_le_pow_right two_pos (by omega)
  rw [Nat.min_eq_right few, Nat.min_eq_right (few.trans less)]

theorem groupAt_perm
    (inside : position < size)
    (round : Nat) :
    (groupAt childFirst size round position).Perm
      (range' position (min (2 ^ round) (size - position))) := by
  induction round generalizing position with
  | zero =>
    rw [groupAt, pow_zero, show min 1 (size - position) = 1 by omega]
    exact List.Perm.refl _
  | succ round ih =>
    rw [groupAt]
    by_cases within : position + 2 ^ round < size
    · have both := (ih inside).append (ih within)
      rw [range'_subtrees within] at both
      rw [if_pos within]
      split
      · exact perm_append_comm.trans both
      · exact both
    · rw [if_neg within, ← range'_subtree within]
      exact ih inside

/-- If children come last, a group is in order. -/
theorem groupAt_eq_range'
    (childLast : ¬ childFirst)
    (inside : position < size)
    (round : Nat) :
    groupAt childFirst size round position =
      range' position (min (2 ^ round) (size - position)) := by
  induction round generalizing position with
  | zero =>
    rw [groupAt, pow_zero, show min 1 (size - position) = 1 by omega]
    rfl
  | succ round ih =>
    rw [groupAt]
    by_cases within : position + 2 ^ round < size
    · rw [if_pos within, if_neg childLast, ih inside, ih within, range'_subtrees within]
    · rw [if_neg within, ← range'_subtree within]
      exact ih inside

/-- After enough rounds, the first position has all values. -/
theorem groupAt_zero_perm
    (nonempty : 0 < size)
    (enough : size ≤ 2 ^ round) :
    (groupAt childFirst size round 0).Perm (List.range size) := by
  have all := @groupAt_perm childFirst _ size 0 nonempty round
  rw [Nat.sub_zero, Nat.min_eq_right enough, ← range_eq_range'] at all
  exact all

theorem groupAt_zero_eq
    (childLast : ¬ childFirst)
    (nonempty : 0 < size)
    (enough : size ≤ 2 ^ round) :
    groupAt childFirst size round 0 = List.range size := by
  rw [groupAt_eq_range' childLast nonempty, Nat.sub_zero, Nat.min_eq_right enough, range_eq_range']

end

variable {Msg : Type}

/-- The communications of a rank in a round, where positions are relative to the
root of the tree. -/
def climbRound
    (size root : Nat)
    (msg : Nat → Nat → Msg)
    (rank round : Nat) : Round Nat Msg where
  sends := messageIf
    (rank < size ∧ behind size rank root % 2 ^ (round + 1) = 2 ^ round)
    (behind size rank (2 ^ round))
    (msg round (behind size rank root))
  recvs := messageIf
    (rank < size ∧ behind size rank root % 2 ^ (round + 1) = 0 ∧
      behind size rank root + 2 ^ round < size)
    (ahead size rank (2 ^ round))
    (msg round (behind size rank root + 2 ^ round))

section

variable {size root rank round position : Nat} {msg : Nat → Nat → Msg}

/-- A position with a bit as its lowest one. -/
theorem le_of_lowest
    (lowest : position % 2 ^ (round + 1) = 2 ^ round) :
    2 ^ round ≤ position := by
  have := Nat.mod_le position (2 ^ (round + 1))
  omega

/-- What children send in a round is what parents receive. -/
theorem climbRound_agrees
    (rooted : root < size)
    (msg : Nat → Nat → Msg)
    (round src dst : Nat) :
    Round.withRank dst (climbRound size root msg src round).sends =
      Round.withRank src (climbRound size root msg dst round).recvs := by
  apply withRank_messageIf_eq
  · constructor
    · rintro ⟨⟨srcIn, lowest⟩, rfl⟩
      have least := le_of_lowest lowest
      have below := @behind_lt _ _ root srcIn
      have moved : behind size (behind size src (2 ^ round)) root =
          behind size src root - 2 ^ round :=
        behind_behind_of_le srcIn rooted least
      have position := Nat.div_add_mod (behind size src root) (2 ^ (round + 1))
      refine ⟨⟨behind_lt srcIn, ?_, ?_⟩, ahead_behind srcIn (by omega)⟩
      · rw [moved, ← position, lowest, Nat.add_sub_cancel, Nat.mul_mod_right]
      · omega
    · rintro ⟨⟨dstIn, multiple, within⟩, rfl⟩
      have moved : behind size (ahead size dst (2 ^ round)) root =
          behind size dst root + 2 ^ round :=
        behind_ahead_of_lt dstIn rooted within
      refine ⟨⟨ahead_lt dstIn, ?_⟩, behind_ahead dstIn (by omega)⟩
      rw [moved, Nat.add_mod, multiple, zero_add, Nat.mod_mod, Nat.mod_eq_of_lt (by omega)]
  · rintro ⟨srcIn, lowest⟩ rfl
    rw [behind_behind_of_le srcIn rooted (le_of_lowest lowest),
      Nat.sub_add_cancel (le_of_lowest lowest)]

theorem climbRound_outside
    (outside : ¬ rank < size)
    (msg : Nat → Nat → Msg)
    (round : Nat) :
    climbRound size root msg rank round = .idle :=
  congrArg₂ Round.mk
    (messageIf_of_not (fun all => outside all.1) _ _)
    (messageIf_of_not (fun all => outside all.1) _ _)

theorem ops_climbRound_of_lowest
    (inside : rank < size)
    (lowest : behind size rank root % 2 ^ (round + 1) = 2 ^ round)
    (msg : Nat → Nat → Msg) :
    (climbRound size root msg rank round).ops = [.send (behind size rank (2 ^ round))
        (msg round (behind size rank root))] := by
  unfold climbRound
  rw [messageIf_of ⟨inside, lowest⟩, messageIf_of_not fun all => by omega]
  rfl

theorem ops_climbRound_of_multiple
    (inside : rank < size)
    (multiple : behind size rank root % 2 ^ (round + 1) = 0)
    (msg : Nat → Nat → Msg) :
    (climbRound size root msg rank round).ops = if behind size rank root + 2 ^ round < size then
        [.recv (ahead size rank (2 ^ round)) (msg round (behind size rank root + 2 ^ round))]
      else [] := by
  unfold climbRound
  rw [messageIf_of_not fun all => by omega]
  split
  · rename_i within
    rw [messageIf_of ⟨inside, multiple, within⟩]
    rfl
  · rename_i beyond
    rw [messageIf_of_not fun all => beyond all.2.2]
    rfl

/-- A position does nothing after the round of its lowest bit. -/
theorem ops_climbRound_of_above
    {low : Nat}
    (lowest : behind size rank root % 2 ^ (low + 1) = 2 ^ low)
    (above : low < round)
    (msg : Nat → Nat → Msg) :
    (climbRound size root msg rank round).ops = [] := by
  -- Both conditions of the round would make the position a multiple of the mask.
  have notMultiple : ¬ 2 ^ round ∣ behind size rank root := by
    intro divides
    have zero := Nat.mod_eq_zero_of_dvd ((Nat.pow_dvd_pow 2 above).trans divides)
    rw [lowest] at zero
    omega
  have smaller : 2 ^ round ∣ 2 ^ (round + 1) := Nat.pow_dvd_pow 2 (by omega)
  unfold climbRound
  rw [messageIf_of_not, messageIf_of_not]
  · rfl
  · rintro ⟨-, multiple, -⟩
    exact notMultiple (smaller.trans (Nat.dvd_of_mod_eq_zero multiple))
  · rintro ⟨-, mask⟩
    apply notMultiple
    rw [← Nat.div_add_mod (behind size rank root) (2 ^ (round + 1)), mask]
    exact Nat.dvd_add (smaller.mul_right _) dvd_rfl

end

end Mpich.BinomialTree
