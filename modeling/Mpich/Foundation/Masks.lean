import Mathlib.Data.Nat.Bitwise
import Mathlib.Tactic.Ring

/-!
# Masks with one bit

Communication patterns over powers of two find their partners by setting,
clearing or flipping one bit of a rank. These are sums and differences, depending
on whether the bit is set.
-/

namespace Mpich.Masks

/-- The bit of a mask is set in a number. -/
def BitSet (number exponent : Nat) : Prop :=
  number / 2 ^ exponent % 2 = 1

instance (number exponent : Nat) : Decidable (BitSet number exponent) :=
  inferInstanceAs (Decidable (_ = _))

theorem two_pow_shiftLeft (round : Nat) : 2 ^ round <<< 1 = 2 ^ (round + 1) := by
  rw [Nat.shiftLeft_eq, pow_one, pow_succ]

theorem two_pow_shiftRight (round : Nat) : 2 ^ (round + 1) >>> 1 = 2 ^ round := by
  rw [Nat.shiftRight_eq_div_pow, pow_one, pow_succ, Nat.mul_div_cancel _ two_pos]

theorem testBit_eq_decide (number exponent : Nat) :
    number.testBit exponent = decide (BitSet number exponent) :=
  Nat.testBit_eq_decide_div_mod_eq

theorem and_mask_eq_zero_iff (number exponent : Nat) :
    number &&& 2 ^ exponent = 0 ↔ ¬ BitSet number exponent := by
  rw [Nat.and_two_pow, testBit_eq_decide]
  by_cases set : BitSet number exponent <;> simp [set]

/-- The remainder by the next power of two, from the bit and the remainder by
this one. -/
theorem mod_two_pow_succ (number exponent : Nat) :
    number % 2 ^ (exponent + 1) = number % 2 ^ exponent +
        if BitSet number exponent then 2 ^ exponent else 0 := by
  rw [Nat.mod_pow_succ]
  rcases Nat.mod_two_eq_zero_or_one (number / 2 ^ exponent) with clear | set
  · have notSet : ¬ BitSet number exponent := by
      unfold BitSet
      omega
    rw [if_neg notSet, clear, mul_zero]
  · have isSet : BitSet number exponent := set
    rw [if_pos isSet, set, mul_one]

variable {exponent number : Nat}

/-- Setting a bit that is clear adds the mask. -/
theorem or_mask
    (clear : ¬ BitSet number exponent) :
    number ||| 2 ^ exponent = number + 2 ^ exponent := by
  have low : number % 2 ^ (exponent + 1) < 2 ^ exponent := by
    rw [mod_two_pow_succ, if_neg clear, add_zero]
    exact Nat.mod_lt _ (Nat.two_pow_pos _)
  have sum : number % 2 ^ (exponent + 1) + 2 ^ exponent < 2 ^ (exponent + 1) := by
    omega
  have split := Nat.div_add_mod number (2 ^ (exponent + 1))
  have below := Nat.mod_lt number (Nat.two_pow_pos (exponent + 1))
  calc
    number ||| 2 ^ exponent
      = 2 ^ (exponent + 1) * (number / 2 ^ (exponent + 1)) |||
          (number % 2 ^ (exponent + 1) ||| 2 ^ exponent) := by
        rw [← Nat.or_assoc, ← Nat.two_pow_add_eq_or_of_lt below, split]
    _ = 2 ^ (exponent + 1) * (number / 2 ^ (exponent + 1)) +
          (number % 2 ^ (exponent + 1) + 2 ^ exponent) := by
        rw [Nat.or_two_pow_eq_add_of_lt low, Nat.two_pow_add_eq_or_of_lt sum]
    _ = number + 2 ^ exponent := by omega

/-- Flipping a bit that is clear adds the mask. -/
theorem xor_mask_of_clear
    (clear : ¬ BitSet number exponent) :
    number ^^^ 2 ^ exponent = number + 2 ^ exponent := by
  rw [← or_mask clear]
  apply Nat.eq_of_testBit_eq
  intro index
  by_cases here : exponent = index
  · subst here
    simp [testBit_eq_decide number, clear]
  · simp [here]

/-- Flipping a bit twice changes nothing. -/
theorem xor_mask_xor_mask (number exponent : Nat) :
    number ^^^ 2 ^ exponent ^^^ 2 ^ exponent = number := by
  rw [Nat.xor_assoc, Nat.xor_self, Nat.xor_zero]

section

variable
    {number exponent : Nat}
    (set : BitSet number exponent)

include set

theorem mask_le_of_bitSet :
    2 ^ exponent ≤ number := by
  by_contra small
  rw [BitSet, Nat.div_eq_of_lt (Nat.lt_of_not_le small)] at set
  omega

/-- Clearing a bit that is set gives a number in which it is clear. -/
theorem not_bitSet_sub :
    ¬ BitSet (number - 2 ^ exponent) exponent := by
  have divided :
      (number - 2 ^ exponent) / 2 ^ exponent = number / 2 ^ exponent - 1 := by
    have := Nat.sub_mul_div number (2 ^ exponent) 1
    rwa [mul_one] at this
  unfold BitSet at *
  omega

/-- Flipping a bit that is set subtracts the mask. -/
theorem xor_mask_of_set :
    number ^^^ 2 ^ exponent = number - 2 ^ exponent := by
  have atLeast := mask_le_of_bitSet set
  have flipped := xor_mask_of_clear (not_bitSet_sub set)
  rw [Nat.sub_add_cancel atLeast] at flipped
  calc
    number ^^^ 2 ^ exponent
      = (number - 2 ^ exponent) ^^^ 2 ^ exponent ^^^ 2 ^ exponent := by
        rw [flipped]
    _ = number - 2 ^ exponent := xor_mask_xor_mask _ _

end

/-- Flipping a bit changes it. -/
theorem bitSet_xor_mask (number exponent : Nat) :
    BitSet (number ^^^ 2 ^ exponent) exponent ↔ ¬ BitSet number exponent := by
  have flipped : (number ^^^ 2 ^ exponent).testBit exponent = !number.testBit exponent := by
    rw [Nat.testBit_xor, Nat.testBit_two_pow_self, Bool.xor_true]
  rw [testBit_eq_decide, testBit_eq_decide] at flipped
  by_cases set : BitSet number exponent <;> simp_all

/-- Numbers that agree in the lower bits and in one more. -/
theorem mod_two_pow_succ_eq_iff {other : Nat} :
    number % 2 ^ (exponent + 1) = other % 2 ^ (exponent + 1) ↔
      number % 2 ^ exponent = other % 2 ^ exponent ∧
        (BitSet number exponent ↔ BitSet other exponent) := by
  have below := Nat.mod_lt number (Nat.two_pow_pos exponent)
  have otherBelow := Nat.mod_lt other (Nat.two_pow_pos exponent)
  rw [mod_two_pow_succ, mod_two_pow_succ]
  by_cases set : BitSet number exponent <;>
    by_cases otherSet : BitSet other exponent <;>
      simp only [set, otherSet, if_true, if_false, iff_true, iff_false, and_true,
        and_false, not_true_eq_false] <;> omega

theorem xor_mask_lt
    {size : Nat}
    (within : number < 2 ^ size)
    (inside : exponent < size) :
    number ^^^ 2 ^ exponent < 2 ^ size :=
  Nat.xor_lt_two_pow within (Nat.pow_lt_pow_right (by omega) inside)

/-- Flipping a bit does not change the bits below it. -/
theorem xor_mask_mod (number exponent : Nat) :
    (number ^^^ 2 ^ exponent) % 2 ^ exponent = number % 2 ^ exponent := by
  rw [Nat.xor_mod_two_pow, Nat.mod_self, Nat.xor_zero]

/-- The first number of the aligned block of this size that a number is in. -/
def blockStart (number exponent : Nat) : Nat :=
  number / 2 ^ exponent * 2 ^ exponent

theorem blockStart_eq_sub (number exponent : Nat) :
    blockStart number exponent = number - number % 2 ^ exponent := by
  have split := Nat.div_add_mod' number (2 ^ exponent)
  unfold blockStart
  omega

theorem blockStart_le (number exponent : Nat) :
    blockStart number exponent ≤ number :=
  Nat.div_mul_le_self _ _

theorem lt_blockStart_add (number exponent : Nat) :
    number < blockStart number exponent + 2 ^ exponent := by
  have split := Nat.div_add_mod' number (2 ^ exponent)
  unfold blockStart
  omega

theorem blockStart_zero (number : Nat) :
    blockStart number 0 = number := by
  rw [blockStart, pow_zero, Nat.div_one, mul_one]

theorem blockStart_of_lt
    (within : number < 2 ^ exponent) :
    blockStart number exponent = 0 := by
  rw [blockStart, Nat.div_eq_of_lt within, zero_mul]

/-- A block is one of the halves of the next larger one. -/
theorem blockStart_succ (number exponent : Nat) :
    blockStart number exponent = blockStart number (exponent + 1) +
        if BitSet number exponent then 2 ^ exponent else 0 := by
  have next := mod_two_pow_succ number exponent
  have below := Nat.mod_le number (2 ^ (exponent + 1))
  rw [blockStart_eq_sub, blockStart_eq_sub]
  omega

/-- Flipping a bit stays in the larger blocks. -/
theorem blockStart_xor_mask_of_lt
    {size : Nat}
    (smaller : exponent < size)
    (number : Nat) :
    blockStart (number ^^^ 2 ^ exponent) size = blockStart number size := by
  unfold blockStart
  rw [Nat.xor_div_two_pow, Nat.div_eq_of_lt (Nat.pow_lt_pow_right one_lt_two smaller), Nat.xor_zero]

/-- Flipping a bit stays in the block that is halved by it. -/
theorem blockStart_xor_mask (number exponent : Nat) :
    blockStart (number ^^^ 2 ^ exponent) (exponent + 1) = blockStart number (exponent + 1) :=
  blockStart_xor_mask_of_lt (Nat.lt_succ_self exponent) number

/-- The block of a number with a bit flipped is the other half. -/
theorem blockStart_xor_mask_self (number exponent : Nat) :
    blockStart (number ^^^ 2 ^ exponent) exponent = blockStart number (exponent + 1) +
        if BitSet number exponent then 0 else 2 ^ exponent := by
  rw [blockStart_succ, blockStart_xor_mask]
  simp only [bitSet_xor_mask]
  by_cases set : BitSet number exponent <;> simp [set]

/-- The block of a number and that of the number with a bit flipped are the
halves of a larger block. -/
theorem blockStart_halves (number exponent : Nat) :
    (blockStart number exponent = blockStart number (exponent + 1) ∧
      blockStart (number ^^^ 2 ^ exponent) exponent =
        blockStart number (exponent + 1) + 2 ^ exponent) ∨
    (blockStart number exponent = blockStart number (exponent + 1) + 2 ^ exponent ∧
      blockStart (number ^^^ 2 ^ exponent) exponent = blockStart number (exponent + 1)) := by
  have first := blockStart_succ number exponent
  have second := blockStart_xor_mask_self number exponent
  by_cases set : BitSet number exponent
  · rw [if_pos set] at first second
    exact Or.inr ⟨first, second⟩
  · rw [if_neg set] at first second
    exact Or.inl ⟨first, second⟩

/-- Blocks of numbers below a power of two end there. -/
theorem blockStart_add_le
    {size : Nat}
    (within : number < 2 ^ size)
    (inside : exponent ≤ size) :
    blockStart number exponent + 2 ^ exponent ≤ 2 ^ size := by
  obtain ⟨factor, factored⟩ := Nat.pow_dvd_pow 2 inside
  have quotient : number / 2 ^ exponent < factor := by
    rw [Nat.div_lt_iff_lt_mul (Nat.two_pow_pos _), mul_comm, ← factored]
    exact within
  calc
    blockStart number exponent + 2 ^ exponent
      = (number / 2 ^ exponent + 1) * 2 ^ exponent := by
        rw [blockStart, Nat.succ_mul]
    _ ≤ factor * 2 ^ exponent := Nat.mul_le_mul_right _ quotient
    _ = 2 ^ size := by rw [factored, mul_comm]

/-- The numbers that differ in a bit, and in no bit above it, are those of the
other half. -/
theorem lt_xor_mask_iff (number exponent : Nat) :
    number < number ^^^ 2 ^ exponent ↔ ¬ BitSet number exponent := by
  have positive := Nat.two_pow_pos exponent
  by_cases set : BitSet number exponent
  · rw [xor_mask_of_set set]
    exact ⟨fun below => by omega, fun clear => absurd set clear⟩
  · rw [xor_mask_of_clear set]
    exact ⟨fun _ => set, fun _ => by omega⟩

theorem xor_mask_lt_iff (number exponent : Nat) :
    number ^^^ 2 ^ exponent < number ↔ BitSet number exponent := by
  have flipped := lt_xor_mask_iff (number ^^^ 2 ^ exponent) exponent
  rw [xor_mask_xor_mask, bitSet_xor_mask, not_not] at flipped
  exact flipped

end Mpich.Masks

/-!
## Bit fields of a word

Packing fields with shifts and bitwise or, and reading one back with a mask and
a shift. Where the lower part fits below the shift, packing is a sum, and the
mask with `width` bits at `low` reads the digits of the word from `low` on.
-/

namespace Mpich.BitFields

/-- Putting a field above a part that fits below it adds the two. -/
theorem shiftLeft_or_eq_add
    (field low : Nat)
    {part : Nat}
    (fits : part < 2 ^ low) :
    field <<< low ||| part = field * 2 ^ low + part := by
  rw [← Nat.shiftLeft_add_eq_or_of_lt fits, Nat.shiftLeft_eq]

/-- A mask over the lowest bits takes the remainder. -/
theorem and_lowMask (word width : Nat) :
    word &&& (2 ^ width - 1) = word % 2 ^ width :=
  Nat.and_two_pow_sub_one_eq_mod word width

/-- A mask and a shift read the field at `low` with `width` bits. -/
theorem and_mask_shiftRight (word low width : Nat) :
    (word &&& ((2 ^ width - 1) <<< low)) >>> low = word / 2 ^ low % 2 ^ width := by
  rw [Nat.shiftRight_and_distrib, Nat.shiftLeft_shiftRight, and_lowMask, Nat.shiftRight_eq_div_pow]

end Mpich.BitFields
