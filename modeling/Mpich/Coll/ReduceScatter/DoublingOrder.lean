import Mpich.Coll.ReduceScatter.DoublingRun

/-!
# The order of the recursive doubling

At each level a rank has combined, in order, the elements of the ranks of its
subtree, at all positions that are for other subtrees or for itself.
-/

namespace Mpich.Coll.ReduceScatter

open Masks OrderedProduct

variable {Cell : Type} {shape : Shape} {uop : Cell → Cell → Cell}
variable {contents : Contents Cell}

variable {level : Nat}

/-- In the forwarding the ranks have received data whose low bits are small. -/
theorem Shape.receivedAfter_iff
    {rank step : Nat}
    (inComm : rank < shape.commSize)
    (forwards : shape.Forwards level rank)
    (within : step ≤ level) :
    shape.receivedAfter level rank step = true ↔
      rank % 2 ^ (level - step) < shape.completed level rank := by
  induction step with
  | zero =>
    have position := blockStart_eq_sub rank level
    have small := Nat.mod_le rank (2 ^ level)
    have right := forwards.otherRoot_eq inComm
    have clear : ¬ BitSet rank level := by
      intro set
      have own := blockStart_succ rank level
      have other := blockStart_xor_mask_self rank level
      rw [if_pos set] at own other
      unfold otherRoot at right
      omega
    rw [Shape.receivedAfter, decide_eq_true_iff, xor_mask_of_clear clear, Nat.sub_zero]
    unfold Shape.completed
    omega
  | succ step ih =>
    have now : level - step = level - (step + 1) + 1 := by omega
    have low := mod_two_pow_succ rank (level - (step + 1))
    have hypothesis := ih (by omega)
    rw [now] at hypothesis
    rw [Shape.receivedAfter]
    by_cases set : BitSet rank (level - (step + 1))
    · rw [if_pos set] at low
      by_cases receives : shape.ReceivesAt level (level - (step + 1)) rank
      · rw [if_pos receives]
        exact ⟨fun _ => receives.2.2.1, fun _ => rfl⟩
      · rw [if_neg receives, hypothesis]
        have limits : ¬ (_ ∧ _) := fun both => receives ⟨forwards, set, both⟩
        omega
    · rw [if_neg set] at low
      rw [if_neg fun receives => set receives.2.1, hypothesis, low, add_zero]

/-- At the end of a level, all ranks with another subtree have received data. -/
theorem Shape.receivedAfter_level_iff
    {rank : Nat}
    (inComm : rank < shape.commSize)
    (level : Nat) :
    shape.receivedAfter level rank level = true ↔ otherRoot level rank < shape.commSize := by
  by_cases forwards : shape.Forwards level rank
  · rw [Shape.receivedAfter_iff inComm forwards le_rfl,
      forwards.otherRoot_eq inComm, Nat.sub_self, pow_zero, Nat.mod_one]
    unfold Shape.completed
    omega
  · have direct : rank ^^^ 2 ^ level < shape.commSize :=
      (lt_blockStart_add _ _).trans_le (not_lt.mp forwards)
    rw [Shape.receivedAfter_of_complete forwards level]
    constructor
    · intro
      exact (blockStart_le _ _).trans_lt direct
    · intro
      exact decide_eq_true direct

/-- Two subtrees make up one of the next level. -/
theorem Shape.treeRanks_append
    {root : Nat}
    (within : root + 2 ^ level ≤ shape.commSize) :
    shape.treeRanks level root ++ shape.treeRanks level (root + 2 ^ level) =
      shape.treeRanks (level + 1) root := by
  unfold Shape.treeRanks
  rw [min_eq_left within, Nat.add_sub_cancel_left, List.range'_append_1]
  congr 1
  have := Nat.two_pow_pos level
  omega

theorem Shape.treeRanks_of_le
    {root : Nat}
    (beyond : shape.commSize ≤ root + 2 ^ level) :
    shape.treeRanks (level + 1) root = shape.treeRanks level root := by
  unfold Shape.treeRanks
  rw [min_eq_right beyond, min_eq_right (by have := Nat.two_pow_pos level; omega)]

/-- A position outside a subtree is outside its halves. -/
theorem Shape.covers_of_succ
    {root half column : Nat}
    (covers : (shape.outside (level + 1) root).Covers column)
    (inside : half = root ∨ half = root + 2 ^ level) :
    (shape.outside level half).Covers column := by
  have positive := Nat.two_pow_pos level
  rcases covers with before | behind
  · refine Or.inl (before.trans_le (Shape.disps_mono (min_le_min_right _ ?_)))
    omega
  · refine Or.inr ((Shape.disps_mono (min_le_min_right _ ?_)).trans behind)
    omega

/-- The elements for a rank are outside the subtrees it is not in. -/
theorem Shape.covers_of_slot
    {root rank column : Nat}
    (inComm : rank < shape.commSize)
    (outside : rank < root ∨ root + 2 ^ level ≤ rank)
    (after : shape.disps rank ≤ column)
    (before : column < shape.disps rank + shape.recvcnts rank) :
    (shape.outside level root).Covers column := by
  rcases outside with below | above
  · left
    rw [← Shape.disps_succ] at before
    exact before.trans_le (Shape.disps_mono (le_min below inComm))
  · right
    exact (Shape.disps_mono ((min_le_left _ _).trans above)).trans after

/-- A rank has, at some positions, combined the ranks of a subtree. -/
def Shape.Combines
    (shape : Shape)
    (uop : Cell → Cell → Cell)
    (contents : Contents Cell)
    (level root column : Nat)
    (value : Cell) : Prop :=
  product uop (fun rank => contents.input rank column) (shape.treeRanks level root) = some value

/-- The data that a rank has received are those of the other subtree. -/
theorem Shape.combines_forwardedAt
    (valid : ∀ rank < shape.commSize, ∀ column,
      (shape.outside level (blockStart rank level)).Covers column →
        shape.Combines uop contents level (blockStart rank level) column
          (shape.doubledAt uop contents level rank column))
    {step rank column : Nat}
    (within : step ≤ level)
    (inComm : rank < shape.commSize)
    (received : shape.receivedAfter level rank step = true)
    (covers : (shape.outside level (otherRoot level rank)).Covers column) :
    shape.Combines uop contents level (otherRoot level rank) column
      (shape.forwardedAt uop contents level step rank column) := by
  induction step generalizing rank with
  | zero =>
    have partnered : rank ^^^ 2 ^ level < shape.commSize := decide_eq_true_iff.mp received
    have merged : shape.forwardedAt uop contents level 0 rank = _ :=
      if_pos partnered
    rw [merged, TwoBlocks.merge_of_covers covers]
    exact valid _ partnered column covers
  | succ step ih =>
    have lower : level - (step + 1) < level := by omega
    by_cases receives : shape.ReceivesAt level (level - (step + 1)) rank
    · have merged : shape.forwardedAt uop contents level (step + 1) rank = _ :=
        if_pos receives
      have srcIn : rank ^^^ 2 ^ (level - (step + 1)) < shape.commSize := by
        rw [xor_mask_of_set receives.2.1]
        exact (Nat.sub_le _ _).trans_lt inComm
      have sends := (Shape.sendsAt_xor_mask lower rank).mpr receives
      -- The sender has the data, since its low bits are small.
      have srcReceived : shape.receivedAfter level
          (rank ^^^ 2 ^ (level - (step + 1))) step = true := by
        rw [Shape.receivedAfter_iff srcIn sends.1 (by omega),
          show level - step = level - (step + 1) + 1 by omega,
          mod_two_pow_succ, if_neg sends.2.1, add_zero]
        exact sends.2.2.1
      have same := otherRoot_xor_mask lower rank
      rw [merged, TwoBlocks.merge_of_covers covers, ← same]
      exact ih (by omega) srcIn srcReceived (same ▸ covers)
    · have kept : shape.forwardedAt uop contents level (step + 1) rank =
          shape.forwardedAt uop contents level step rank := if_neg receives
      have flag : shape.receivedAfter level rank (step + 1) =
          shape.receivedAfter level rank step := if_neg receives
      rw [kept]
      exact ih (by omega) inComm (flag ▸ received) covers

/-- Positions where a rank has combined its subtree. -/
def Shape.Holds (shape : Shape) (level rank column : Nat) : Prop :=
  (shape.outside level (blockStart rank level)).Covers column ∨
    (shape.disps rank ≤ column ∧ column < shape.disps rank + shape.recvcnts rank)

/-- The two subtrees at a level are the halves of the next. -/
theorem halves (level rank : Nat) :
    (otherRoot level rank < blockStart rank level ∧
      otherRoot level rank = blockStart rank (level + 1) ∧
      blockStart rank level = blockStart rank (level + 1) + 2 ^ level) ∨
    (¬ otherRoot level rank < blockStart rank level ∧
      blockStart rank level = blockStart rank (level + 1) ∧
      otherRoot level rank = blockStart rank (level + 1) + 2 ^ level) := by
  have own := blockStart_succ rank level
  have other := blockStart_xor_mask_self rank level
  have positive := Nat.two_pow_pos level
  unfold otherRoot
  by_cases set : BitSet rank level
  · rw [if_pos set] at own other
    left
    omega
  · rw [if_neg set] at own other
    right
    omega

theorem Shape.combines_doubledAt
    (associative : ∀ a b c, uop (uop a b) c = uop a (uop b c))
    (level : Nat)
    {rank column : Nat}
    (inComm : rank < shape.commSize)
    (holds : shape.Holds level rank column) :
    shape.Combines uop contents level (blockStart rank level) column
      (shape.doubledAt uop contents level rank column) := by
  induction level generalizing rank column with
  | zero =>
    have one : shape.treeRanks 0 (blockStart rank 0) = [rank] := by
      rw [Shape.treeRanks, blockStart_zero, pow_zero, min_eq_left (by omega),
        Nat.add_sub_cancel_left]
      rfl
    rw [Shape.Combines, one]
    rfl
  | succ level ih =>
    have below := blockStart_le rank level
    have above := lt_blockStart_add rank level
    have split := halves level rank
    have ownCovered : shape.Holds level rank column := by
      refine holds.imp (fun covers => Shape.covers_of_succ covers ?_) id
      omega
    have otherCovered :
        (shape.outside level (otherRoot level rank)).Covers column := by
      rcases holds with covers | slot
      · refine Shape.covers_of_succ covers ?_
        omega
      · refine Shape.covers_of_slot inComm ?_ slot.1 slot.2
        omega
    have own := ih inComm ownCovered
    have step : shape.doubledAt uop contents (level + 1) rank =
        (shape.combinedAfter uop (shape.doubledAt uop contents level)
          (fun other => (shape.stateAt uop contents level other).2)
          level rank).1 := rfl
    rw [step, Shape.combinedAfter]
    by_cases received : shape.receivedAfter level rank level = true
    · have otherIn := (Shape.receivedAfter_level_iff inComm level).mp received
      have other := Shape.combines_forwardedAt
        (fun rank inComm column covers =>
          ih inComm (Or.inl covers))
        le_rfl inComm received otherCovered
      rw [if_pos received]
      rcases split with ⟨left, otherEq, ownEq⟩ | ⟨right, ownEq, otherEq⟩
      · rw [if_pos left]
        simp only [TwoBlocks.merge_of_covers otherCovered]
        rw [otherEq] at other
        rw [ownEq] at own
        rw [Shape.Combines, ← Shape.treeRanks_append (by omega)]
        exact product_append associative other own
      · rw [if_neg right]
        simp only [TwoBlocks.merge_of_covers otherCovered]
        rw [otherEq] at other
        rw [ownEq] at own
        rw [Shape.Combines, ← Shape.treeRanks_append (by omega)]
        exact product_append associative own other
    · have otherOut : ¬ otherRoot level rank < shape.commSize := fun within =>
        received ((Shape.receivedAfter_level_iff inComm level).mpr within)
      rw [if_neg received]
      have ownEq : blockStart rank level = blockStart rank (level + 1) := by
        omega
      rw [Shape.Combines, Shape.treeRanks_of_le (by omega), ← ownEq]
      exact own

/-- The result for a rank is the product in the order of the ranks. -/
theorem Shape.product_doubledAt
    (associative : ∀ a b c, uop (uop a b) c = uop a (uop b c))
    {rank index : Nat}
    (inComm : rank < shape.commSize)
    (inside : index < shape.recvcnts rank) :
    product uop
        (fun src => contents.input src (shape.disps rank + index))
        (List.range shape.commSize) =
      some (shape.doubledAt uop contents shape.depth rank (shape.disps rank + index)) := by
  have all : shape.commSize ≤ 2 ^ shape.depth := Nat.le_pow_clog one_lt_two _
  have combined := @Shape.combines_doubledAt _ shape uop contents associative
    shape.depth rank (shape.disps rank + index) inComm
    (Or.inr ⟨Nat.le_add_right _ _, Nat.add_lt_add_left inside _⟩)
  rw [Shape.Combines, blockStart_of_lt (inComm.trans_le all), Shape.treeRanks,
    zero_add, min_eq_right all, Nat.sub_zero, ← List.range_eq_range'] at combined
  exact combined

end Mpich.Coll.ReduceScatter
