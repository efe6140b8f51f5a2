import Mpich.Foundation.Masks
import Mpich.Foundation.OrderedProduct

/-!
# Butterflies

In round `r` of a butterfly, each number is paired with the one that differs from
it in bit `r` only, and both combine what they have. After `r` rounds a number
has what all numbers of its aligned block of size `2 ^ r` started with. In a
butterfly that halves, each number keeps in each round one half of the slots that
it still has. In a truncated one a number whose partner is missing keeps what it has.
-/

namespace Mpich.Butterfly

open Masks List OrderedProduct

variable {Value Index : Type*}

/-- Combined values, where a condition tells whether the partner's value comes
first. -/
def valueAt
    (op : Value → Value → Value)
    (first : Nat → Nat → Prop)
    [∀ round number, Decidable (first round number)]
    (start : Nat → Value) : Nat → Nat → Value
  | 0, number => start number
  | round + 1, number =>
    if first round number then
      op (valueAt op first start round (number ^^^ 2 ^ round)) (valueAt op first start round number)
    else
      op (valueAt op first start round number) (valueAt op first start round (number ^^^ 2 ^ round))

/-- The numbers whose values have been combined, in their order. -/
def groupAt
    (first : Nat → Nat → Prop)
    [∀ round number, Decidable (first round number)] : Nat → Nat → List Nat
  | 0, number => [number]
  | round + 1, number =>
    if first round number then
      groupAt first round (number ^^^ 2 ^ round) ++ groupAt first round number
    else
      groupAt first round number ++ groupAt first round (number ^^^ 2 ^ round)

variable {op : Value → Value → Value} {first : Nat → Nat → Prop}
variable [∀ round number, Decidable (first round number)]
variable {start : Nat → Value}

/-- A combined value is the product over its group. -/
theorem product_valueAt
    (associative : ∀ a b c, op (op a b) c = op a (op b c))
    {value : Index → Value} {members : Nat → List Index}
    (starts : ∀ number, product op value (members number) = some (start number))
    (round number : Nat) :
    product op value ((groupAt first round number).flatMap members) =
      some (valueAt op first start round number) := by
  induction round generalizing number with
  | zero =>
    rw [groupAt, flatMap_singleton]
    exact starts number
  | succ round ih =>
    rw [groupAt, valueAt]
    by_cases partnerFirst : first round number
    · rw [if_pos partnerFirst, if_pos partnerFirst, flatMap_append]
      exact product_append associative (ih _) (ih _)
    · rw [if_neg partnerFirst, if_neg partnerFirst, flatMap_append]
      exact product_append associative (ih _) (ih _)

/-- The two halves of an aligned block. -/
theorem range'_halves (begin round : Nat) :
    range' begin (2 ^ round) ++ range' (begin + 2 ^ round) (2 ^ round) =
      range' begin (2 ^ (round + 1)) := by
  rw [range'_append_1, ← mul_two, ← pow_succ]

/-- A group is an aligned block. -/
theorem groupAt_perm (round number : Nat) :
    (groupAt first round number).Perm
      (range' (blockStart number round) (2 ^ round)) := by
  induction round generalizing number with
  | zero =>
    rw [blockStart_zero]
    exact List.Perm.refl _
  | succ round ih =>
    have both := (ih number).append (ih (number ^^^ 2 ^ round))
    have ordered : (groupAt first round number ++ groupAt first round (number ^^^ 2 ^ round)).Perm
          (range' (blockStart number (round + 1)) (2 ^ (round + 1))) := by
      rw [← range'_halves]
      rcases blockStart_halves number round with ⟨own, other⟩ | ⟨own, other⟩
      · rw [own, other] at both
        exact both
      · rw [own, other] at both
        exact both.trans perm_append_comm
    rw [groupAt]
    by_cases partnerFirst : first round number
    · rw [if_pos partnerFirst]
      exact perm_append_comm.trans ordered
    · rw [if_neg partnerFirst]
      exact ordered

/-- If lower numbers come first, a group is in order. -/
theorem groupAt_eq_range'
    (inOrder : ∀ round number, first round number ↔ BitSet number round)
    (round number : Nat) :
    groupAt first round number = range' (blockStart number round) (2 ^ round) := by
  induction round generalizing number with
  | zero =>
    rw [blockStart_zero]
    rfl
  | succ round ih =>
    have own := blockStart_succ number round
    have other := blockStart_xor_mask_self number round
    rw [groupAt, ← range'_halves, ih, ih]
    by_cases set : BitSet number round
    · rw [if_pos set] at own other
      rw [if_pos ((inOrder round number).mpr set), own, other, add_zero]
    · rw [if_neg set] at own other
      rw [if_neg fun partnerFirst => set ((inOrder round number).mp partnerFirst),
        own, other, add_zero]

variable {round : Nat}

/-- For a commutative operation, all numbers of a block have the same value. -/
theorem valueAt_eq_of_comm
    (commutative : ∀ a b, op a b = op b a)
    {number other : Nat}
    (same : blockStart number round = blockStart other round) :
    valueAt op first start round number = valueAt op first start round other := by
  induction round generalizing number other with
  | zero =>
    rw [blockStart_zero, blockStart_zero] at same
    rw [same]
  | succ round ih =>
    have step : ∀ number, valueAt op first start (round + 1) number =
        op (valueAt op first start round number)
          (valueAt op first start round (number ^^^ 2 ^ round)) := by
      intro number
      rw [valueAt]
      split
      · exact commutative _ _
      · rfl
    rw [step, step]
    rcases blockStart_halves number round with ⟨own, partner⟩ | ⟨own, partner⟩
    all_goals
      rcases blockStart_halves other round with ⟨theirs, next⟩ | ⟨theirs, next⟩
      all_goals
        first
          | rw [ih (show blockStart number round =
              blockStart other round by omega), ih (show blockStart (number ^^^ 2 ^ round) round =
                blockStart (other ^^^ 2 ^ round) round by omega)]
          | rw [commutative, ih (show blockStart number round =
              blockStart (other ^^^ 2 ^ round) round by omega),
              ih (show blockStart (number ^^^ 2 ^ round) round = blockStart other round by omega)]

/-- The first of the slots that a number has after some rounds. -/
def slot (levels : Nat) : Nat → Nat → Nat
  | 0, _ => 0
  | round + 1, number =>
    slot levels round number + if BitSet number round then 2 ^ (levels - (round + 1)) else 0

variable {levels : Nat}

theorem slot_congr
    {number other : Nat}
    (same : number % 2 ^ round = other % 2 ^ round) :
    slot levels round number = slot levels round other := by
  induction round with
  | zero => rfl
  | succ round ih =>
    obtain ⟨lower, bit⟩ := mod_two_pow_succ_eq_iff.mp same
    rw [slot, slot, ih lower]
    simp only [bit]

/-- Partners have had the same slots so far. -/
theorem slot_xor_mask (round number : Nat) :
    slot levels round (number ^^^ 2 ^ round) = slot levels round number :=
  slot_congr (xor_mask_mod _ _)

/-- The two halves that partners keep. -/
theorem slot_halves (round number : Nat) :
    (¬ BitSet number round ∧ slot levels (round + 1) number = slot levels round number ∧
      slot levels (round + 1) (number ^^^ 2 ^ round) =
        slot levels round number + 2 ^ (levels - (round + 1))) ∨
    (BitSet number round ∧ slot levels (round + 1) number =
        slot levels round number + 2 ^ (levels - (round + 1)) ∧
      slot levels (round + 1) (number ^^^ 2 ^ round) = slot levels round number) := by
  rw [slot, slot, slot_xor_mask]
  simp only [bitSet_xor_mask]
  by_cases set : BitSet number round
  · rw [if_pos set, if_neg (not_not.mpr set)]
    exact Or.inr ⟨set, rfl, add_zero _⟩
  · rw [if_neg set, if_pos set]
    exact Or.inl ⟨set, add_zero _, rfl⟩

theorem two_pow_levels_sub
    (within : round < levels) :
    2 ^ (levels - round) = 2 ^ (levels - (round + 1)) + 2 ^ (levels - (round + 1)) := by
  rw [← mul_two, ← pow_succ]
  congr 1
  omega

theorem slot_add_le
    (within : round ≤ levels)
    (number : Nat) :
    slot levels round number + 2 ^ (levels - round) ≤ 2 ^ levels := by
  induction round with
  | zero => rw [slot, zero_add, Nat.sub_zero]
  | succ round ih =>
    have double := two_pow_levels_sub within
    have positive := Nat.two_pow_pos (levels - (round + 1))
    rw [slot]
    split <;> omega

/-- Numbers that still have a slot in common have made the same choices. -/
theorem mod_eq_of_slot
    {number other position : Nat}
    (within : round ≤ levels)
    (lower : slot levels round number ≤ position)
    (upper : position < slot levels round number + 2 ^ (levels - round))
    (otherLower : slot levels round other ≤ position)
    (otherUpper : position < slot levels round other + 2 ^ (levels - round)) :
    number % 2 ^ round = other % 2 ^ round := by
  induction round with
  | zero => rw [pow_zero, Nat.mod_one, Nat.mod_one]
  | succ round ih =>
    have double := two_pow_levels_sub within
    rw [slot] at lower upper otherLower otherUpper
    have same := ih (by omega) (by split at lower <;> omega)
      (by split at upper <;> omega) (by split at otherLower <;> omega)
      (by split at otherUpper <;> omega)
    have slots : slot levels round number = slot levels round other := slot_congr same
    refine mod_two_pow_succ_eq_iff.mpr ⟨same, ?_⟩
    by_cases set : BitSet number round <;>
      by_cases otherSet : BitSet other round <;>
        simp only [set, otherSet, if_true, if_false] at * <;> omega

/-- In the end no two numbers have the same slot. -/
theorem eq_of_slot
    {number other : Nat}
    (inside : number < 2 ^ levels)
    (otherInside : other < 2 ^ levels)
    (same : slot levels levels number = slot levels levels other) :
    number = other := by
  have positive := Nat.two_pow_pos (levels - levels)
  have choices := @mod_eq_of_slot levels levels number other
    (slot levels levels number) le_rfl le_rfl (by omega) (by omega) (by omega)
  rw [Nat.mod_eq_of_lt inside, Nat.mod_eq_of_lt otherInside] at choices
  exact choices

end Mpich.Butterfly

namespace Mpich.TruncatedButterfly

open Masks List OrderedProduct

variable {Value : Type*}

section

variable (op : Value → Value → Value) (first : Nat → Nat → Prop)
variable [∀ round number, Decidable (first round number)]
variable (size : Nat) (start : Nat → Value)

/-- What a number has combined, where a condition tells whether the partner's
value comes first. -/
def partialAt : Nat → Nat → Value
  | 0, number => start number
  | round + 1, number =>
    if number ^^^ 2 ^ round < size then
      if first round number then
        op (partialAt round (number ^^^ 2 ^ round)) (partialAt round number)
      else op (partialAt round number) (partialAt round (number ^^^ 2 ^ round))
    else partialAt round number

/-- The values of the lower partners, and the own one at the end. -/
def inclusiveAt : Nat → Nat → Value
  | 0, number => start number
  | round + 1, number =>
    if number ^^^ 2 ^ round < size ∧ number ^^^ 2 ^ round < number then
      op (partialAt op first size start round (number ^^^ 2 ^ round)) (inclusiveAt round number)
    else inclusiveAt round number

/-- The values of the lower partners, if there has been one. -/
def exclusiveAt : Nat → Nat → Option Value
  | 0, _ => none
  | round + 1, number =>
    if number ^^^ 2 ^ round < size ∧ number ^^^ 2 ^ round < number then
      match exclusiveAt round number with
      | none => some (partialAt op first size start round (number ^^^ 2 ^ round))
      | some value =>
        some (op (partialAt op first size start round (number ^^^ 2 ^ round)) value)
    else exclusiveAt round number

end

variable {op : Value → Value → Value} {first : Nat → Nat → Prop}
variable [∀ round number, Decidable (first round number)]
variable {size : Nat} {start : Nat → Value}

/-- In a block that lies below the size, nothing is missing. -/
theorem partialAt_eq_valueAt
    {round number : Nat}
    (complete : blockStart number round + 2 ^ round ≤ size) :
    partialAt op first size start round number = Butterfly.valueAt op first start round number := by
  induction round generalizing number with
  | zero => rfl
  | succ round ih =>
    have positive := Nat.two_pow_pos round
    have inBlock := lt_blockStart_add (number ^^^ 2 ^ round) round
    have own : blockStart number round + 2 ^ round ≤ size := by
      rcases blockStart_halves number round with ⟨here, _⟩ | ⟨here, _⟩ <;> omega
    have other : blockStart (number ^^^ 2 ^ round) round + 2 ^ round ≤ size := by
      rcases blockStart_halves number round with ⟨_, there⟩ | ⟨_, there⟩ <;> omega
    rw [partialAt, Butterfly.valueAt, if_pos (inBlock.trans_le other), ih own, ih other]

variable (associative : ∀ a b c, op (op a b) c = op a (op b c))

include associative in
/-- The value of a lower partner is the product over the lower half of the
block. -/
theorem product_partner
    {round number : Nat}
    (below : number < size)
    (set : BitSet number round) :
    ∃ order, order.Perm (range' (blockStart number (round + 1)) (2 ^ round)) ∧
      ((∀ round number, first round number ↔ BitSet number round) →
        order = range' (blockStart number (round + 1)) (2 ^ round)) ∧
      product op start order =
        some (partialAt op first size start round (number ^^^ 2 ^ round)) := by
  have lower := blockStart_xor_mask_self number round
  have upper := blockStart_succ number round
  have atMost := blockStart_le number round
  rw [if_pos set] at lower upper
  have complete : blockStart (number ^^^ 2 ^ round) round + 2 ^ round ≤ size := by
    omega
  have product := @Butterfly.product_valueAt Value Nat op first _ start associative
    start (fun number => [number]) (fun _ => rfl) round (number ^^^ 2 ^ round)
  rw [flatMap_singleton'] at product
  have perm := @Butterfly.groupAt_perm first _ round (number ^^^ 2 ^ round)
  rw [lower, add_zero] at perm
  refine ⟨_, perm, ?_, ?_⟩
  · intro inOrder
    rw [Butterfly.groupAt_eq_range' inOrder, lower, add_zero]
  · rw [product, partialAt_eq_valueAt complete]

/-- A lower half and what comes after it. -/
theorem range'_lower
    {round number : Nat}
    (set : BitSet number round)
    {stop : Nat}
    (later : number ≤ stop) :
    range' (blockStart number (round + 1)) (2 ^ round) ++
        range' (blockStart number round) (stop - blockStart number round) =
      range' (blockStart number (round + 1)) (stop - blockStart number (round + 1)) := by
  have upper := blockStart_succ number round
  have atMost := blockStart_le number round
  have positive := Nat.two_pow_pos round
  rw [if_pos set] at upper
  rw [upper, range'_append_1]
  congr 1
  omega

/-- A clear bit leaves the start of the block. -/
theorem blockStart_succ_of_clear
    {round number : Nat}
    (clear : ¬ BitSet number round) :
    blockStart number (round + 1) = blockStart number round := by
  have upper := blockStart_succ number round
  rw [if_neg clear, add_zero] at upper
  exact upper.symm

/-- When a number hears from a lower partner. -/
theorem lower_partner_iff
    {round number : Nat}
    (below : number < size) :
    (number ^^^ 2 ^ round < size ∧ number ^^^ 2 ^ round < number) ↔ BitSet number round := by
  rw [xor_mask_lt_iff]
  refine ⟨And.right, fun set => ⟨?_, set⟩⟩
  exact ((xor_mask_lt_iff number round).mpr set).trans below

include associative in
/-- The inclusive prefix, from the start of the block. -/
theorem product_inclusiveAt
    {number : Nat}
    (below : number < size)
    (round : Nat) :
    ∃ order, order.Perm (range' (blockStart number round) (number + 1 - blockStart number round)) ∧
      ((∀ round number, first round number ↔ BitSet number round) →
        order = range' (blockStart number round) (number + 1 - blockStart number round)) ∧
      product op start order = some (inclusiveAt op first size start round number) := by
  induction round with
  | zero =>
    rw [blockStart_zero, Nat.add_sub_cancel_left]
    exact ⟨[number], List.Perm.refl _, fun _ => rfl, rfl⟩
  | succ round ih =>
    obtain ⟨back, backPerm, backOrder, backProduct⟩ := ih
    simp only [inclusiveAt, lower_partner_iff below]
    by_cases set : BitSet number round
    · obtain ⟨front, frontPerm, frontOrder, frontProduct⟩ :=
        @product_partner Value op first _ size start associative round number below set
      rw [if_pos set, ← range'_lower set (Nat.le_succ number)]
      refine ⟨front ++ back, frontPerm.append backPerm, ?_, ?_⟩
      · intro inOrder
        rw [← frontOrder inOrder, ← backOrder inOrder]
      · exact product_append associative frontProduct backProduct
    · rw [if_neg set, blockStart_succ_of_clear set]
      exact ⟨back, backPerm, backOrder, backProduct⟩

include associative in
/-- The exclusive prefix, from the start of the block. -/
theorem product_exclusiveAt
    {number : Nat}
    (below : number < size)
    (round : Nat) :
    ∃ order, order.Perm (range' (blockStart number round) (number - blockStart number round)) ∧
      ((∀ round number, first round number ↔ BitSet number round) →
        order = range' (blockStart number round) (number - blockStart number round)) ∧
      product op start order = exclusiveAt op first size start round number := by
  induction round with
  | zero =>
    rw [blockStart_zero, Nat.sub_self]
    exact ⟨[], List.Perm.refl _, fun _ => rfl, rfl⟩
  | succ round ih =>
    obtain ⟨back, backPerm, backOrder, backProduct⟩ := ih
    simp only [exclusiveAt, lower_partner_iff below]
    by_cases set : BitSet number round
    · obtain ⟨front, frontPerm, frontOrder, frontProduct⟩ :=
        @product_partner Value op first _ size start associative round number below set
      rw [if_pos set, ← range'_lower set le_rfl]
      refine ⟨front ++ back, frontPerm.append backPerm, ?_, ?_⟩
      · intro inOrder
        rw [← frontOrder inOrder, ← backOrder inOrder]
      · cases prior : exclusiveAt op first size start round number with
        | none =>
          rw [eq_nil_of_product (backProduct.trans prior), append_nil, frontProduct]
        | some value =>
          exact product_append associative frontProduct (backProduct.trans prior)
    · rw [if_neg set, blockStart_succ_of_clear set]
      exact ⟨back, backPerm, backOrder, backProduct⟩

end Mpich.TruncatedButterfly
