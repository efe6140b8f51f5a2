import Mathlib.Algebra.BigOperators.Intervals
import Mathlib.Algebra.BigOperators.Ring.Finset
import Mathlib.Algebra.Order.BigOperators.Group.Finset
import Mpich.Foundation.Tabulate

/-!
# Buffers that are partly known

A buffer agrees with its intended contents at some positions. Reading at such
positions gives the intended cells, and writing intended cells makes more
positions known.
-/

namespace Mpich.Buffer

open Buffer

variable {Cell : Type*}

/-- The positions of a range. -/
def InRange (offset count index : Nat) : Prop :=
  offset ≤ index ∧ index < offset + count

/-- A buffer of this length holds the intended cells at the known positions. -/
def Knows
    (length : Nat)
    (goal : Nat → Cell)
    (known : Nat → Prop)
    (buffer : List Cell) : Prop :=
  ∃ cell, buffer = tabulate length cell ∧ ∀ index < length, known index → cell index = goal index

/-- A range of the intended cells. -/
def slice (goal : Nat → Cell) (offset count : Nat) : List Cell :=
  tabulate count fun index => goal (offset + index)

@[simp] theorem length_slice (goal : Nat → Cell) (offset count : Nat) :
    (slice goal offset count).length = count :=
  length_tabulate _ _

theorem slice_congr
    {goal other : Nat → Cell} {offset otherOffset count : Nat}
    (same : ∀ index < count, goal (offset + index) = other (otherOffset + index)) :
    slice goal offset count = slice other otherOffset count :=
  tabulate_congr same

variable {length : Nat} {goal : Nat → Cell} {known : Nat → Prop}
variable {buffer : List Cell}

theorem knows_tabulate
    {cell : Nat → Cell}
    (agree : ∀ index < length, known index → cell index = goal index) :
    Knows length goal known (tabulate length cell) :=
  ⟨cell, rfl, agree⟩

section

variable (knows : Knows length goal known buffer)

include knows

theorem Knows.mono
    {fewer : Nat → Prop}
    (weakens : ∀ index < length, fewer index → known index) :
    Knows length goal fewer buffer := by
  obtain ⟨cell, bufferEq, agree⟩ := knows
  exact ⟨cell, bufferEq, fun index inside less =>
    agree index inside (weakens index inside less)⟩

/-- What is known, in other words. -/
theorem Knows.congr
    {other : Nat → Cell}
    (same : ∀ index < length, known index → goal index = other index) :
    Knows length other known buffer := by
  obtain ⟨cell, bufferEq, agree⟩ := knows
  exact ⟨cell, bufferEq, fun index inside covered =>
    (agree index inside covered).trans (same index inside covered)⟩

/-- A buffer of which everything is known. -/
theorem Knows.eq_tabulate
    (all : ∀ index < length, known index) :
    buffer = tabulate length goal := by
  obtain ⟨cell, rfl, agree⟩ := knows
  apply tabulate_congr
  intro index inside
  exact agree index inside (all index inside)

/-- Reading known positions. -/
theorem Knows.load
    {offset count : Nat}
    (within : offset + count ≤ length)
    (covered : ∀ index, InRange offset count index → known index) :
    load buffer offset count = some (slice goal offset count) := by
  obtain ⟨cell, rfl, agree⟩ := knows
  rw [load_tabulate within]
  apply congrArg some
  apply tabulate_congr
  intro index inside
  exact agree _ (by omega) (covered _ ⟨by omega, by omega⟩)

/-- Writing intended cells. -/
theorem Knows.store
    {offset count : Nat}
    (within : offset + count ≤ length) :
    ∃ written, store buffer offset (slice goal offset count) = some written ∧
      Knows length goal (fun index => known index ∨ InRange offset count index) written := by
  obtain ⟨cell, rfl, agree⟩ := knows
  rw [slice, store_tabulate within]
  refine ⟨_, rfl, _, rfl, ?_⟩
  intro index inside already
  by_cases here : InRange offset count index
  · rw [patch_of_mem here, Nat.add_sub_cancel' here.1]
  · rw [patch_of_not_mem here]
    exact agree index inside (already.resolve_right here)

end

/-- Read cells; an empty range may be anywhere. -/
def loadAny (buffer : List Cell) (offset count : Nat) : Option (List Cell) :=
  if count = 0 then some [] else load buffer offset count

/-- Write cells; no cells may be written anywhere. -/
def storeAny
    (buffer : List Cell)
    (offset : Nat)
    (cells : List Cell) : Option (List Cell) :=
  if cells.length = 0 then some buffer else store buffer offset cells

section

variable
    (knows : Knows length goal known buffer)
    {offset count : Nat}
    (within : count ≠ 0 → offset + count ≤ length)

include knows within

theorem Knows.loadAny
    (covered : ∀ index, InRange offset count index → known index) :
    Buffer.loadAny buffer offset count = some (slice goal offset count) := by
  unfold Buffer.loadAny
  by_cases empty : count = 0
  · rw [if_pos empty, empty]
    rfl
  · rw [if_neg empty]
    exact knows.load (within empty) covered

theorem Knows.storeAny :
    ∃ written, Buffer.storeAny buffer offset (slice goal offset count) = some written ∧
      Knows length goal (fun index => known index ∨ InRange offset count index) written := by
  unfold Buffer.storeAny
  rw [length_slice]
  by_cases empty : count = 0
  · refine ⟨buffer, if_pos empty, knows.mono ?_⟩
    rintro index - (already | ⟨lower, upper⟩)
    · exact already
    · omega
  · rw [if_neg empty]
    exact knows.store (within empty)

end

end Mpich.Buffer

/-!
## Blocks of different sizes

Blocks that lie at given places of a buffer without overlapping, and the special
case of blocks that lie one behind the other.
-/

namespace Mpich

open List

/-- The number of cells in the first blocks. -/
def prefixSum (size : Nat → Nat) (count : Nat) : Nat :=
  ∑ block ∈ Finset.range count, size block

section

variable {size : Nat → Nat}

@[simp] theorem prefixSum_zero : prefixSum size 0 = 0 :=
  rfl

theorem prefixSum_succ (count : Nat) :
    prefixSum size (count + 1) = prefixSum size count + size count :=
  Finset.sum_range_succ _ _

theorem prefixSum_mono {front back : Nat} (order : front ≤ back) :
    prefixSum size front ≤ prefixSum size back :=
  Finset.sum_le_sum_of_subset (Finset.range_mono order)

/-- The blocks behind the first ones. -/
theorem prefixSum_add (front back : Nat) :
    prefixSum size (front + back) = prefixSum size front +
        prefixSum (fun block => size (front + block)) back :=
  Finset.sum_range_add _ _ _

theorem prefixSum_congr
    {other : Nat → Nat} {count : Nat}
    (same : ∀ block < count, size block = other block) :
    prefixSum size count = prefixSum other count :=
  Finset.sum_congr rfl fun block member =>
    same block (Finset.mem_range.mp member)

theorem prefixSum_mul (count factor : Nat) :
    prefixSum size count * factor = prefixSum (fun block => size block * factor) count :=
  Finset.sum_mul _ _ _

theorem prefixSum_const (count each : Nat) :
    prefixSum (fun _ => each) count = count * each := by
  rw [prefixSum, Finset.sum_const_nat fun _ _ => rfl, Finset.card_range]

theorem eq_zero_of_prefixSum
    {count block : Nat}
    (empty : prefixSum size count = 0)
    (bound : block < count) :
    size block = 0 :=
  Finset.sum_eq_zero_iff.mp empty block (Finset.mem_range.mpr bound)

variable {index : Nat}

/-- Every cell is in a block. -/
theorem exists_block_of_lt
    {count : Nat}
    (inside : index < prefixSum size count) :
    ∃ block < count, ∃ offset < size block, index = prefixSum size block + offset := by
  induction count with
  | zero => exact absurd inside (Nat.not_lt_zero _)
  | succ count ih =>
    by_cases earlier : index < prefixSum size count
    · obtain ⟨block, bound, rest⟩ := ih earlier
      exact ⟨block, Nat.lt_succ_of_lt bound, rest⟩
    · rw [prefixSum_succ] at inside
      exact ⟨count, Nat.lt_succ_self _, index - prefixSum size count, by omega, by omega⟩

/-- The number of cells in some blocks from one on. -/
def span (size : Nat → Nat) (first count : Nat) : Nat :=
  prefixSum size (first + count) - prefixSum size first

theorem prefixSum_add_span (size : Nat → Nat) (first count : Nat) :
    prefixSum size first + span size first count = prefixSum size (first + count) := by
  have := @prefixSum_mono size _ _ (Nat.le_add_right first count)
  unfold span
  omega

theorem span_mono
    {first fewer more : Nat}
    (order : fewer ≤ more) :
    span size first fewer ≤ span size first more :=
  Nat.sub_le_sub_right (prefixSum_mono (by omega)) _

theorem span_zero (size : Nat → Nat) (count : Nat) :
    span size 0 count = prefixSum size count := by
  rw [span, zero_add, prefixSum_zero, Nat.sub_zero]

theorem span_one (size : Nat → Nat) (first : Nat) :
    span size first 1 = size first := by
  rw [span, prefixSum_succ, Nat.add_sub_cancel_left]

theorem span_add (size : Nat → Nat) (first front back : Nat) :
    span size first (front + back) = span size first front + span size (first + front) back := by
  have whole := prefixSum_add_span size first (front + back)
  have here := prefixSum_add_span size first front
  have later := prefixSum_add_span size (first + front) back
  rw [← add_assoc] at whole
  omega

end

/-- Blocks at given places. -/
structure Layout where
  count : Nat
  displ : Nat → Nat
  size : Nat → Nat
  /-- No cell is in two blocks. -/
  disjoint : ∀ first second index, first < count → second < count →
    Buffer.InRange (displ first) (size first) index →
    Buffer.InRange (displ second) (size second) index → first = second

namespace Layout

variable {Cell : Type*} (layout : Layout)

/-- A cell is in a block. -/
def Covers (block index : Nat) : Prop :=
  Buffer.InRange (layout.displ block) (layout.size block) index

instance (block index : Nat) : Decidable (layout.Covers block index) :=
  inferInstanceAs (Decidable (_ ∧ _))

/-- The contents of a buffer with the blocks at their places, and the rest as
given. -/
def fill
    (block : Nat → Nat → Cell)
    (rest : Nat → Cell)
    (index : Nat) : Cell :=
  match (List.range layout.count).find? (layout.Covers · index) with
  | some number => block number (index - layout.displ number)
  | none => rest index

variable {layout}

variable {number index : Nat}

theorem fill_of_covers
    (bound : number < layout.count)
    (covers : layout.Covers number index)
    (block : Nat → Nat → Cell)
    (rest : Nat → Cell) :
    layout.fill block rest index = block number (index - layout.displ number) := by
  have found : (List.range layout.count).find? (layout.Covers · index) = some number := by
    cases search : (List.range layout.count).find? (layout.Covers · index) with
    | none =>
      have none := find?_eq_none.mp search number (mem_range.mpr bound)
      simp [covers] at none
    | some other =>
      have otherCovers := find?_some search
      rw [decide_eq_true_iff] at otherCovers
      have otherBound := mem_range.mp (mem_of_find?_eq_some search)
      rw [layout.disjoint other number index otherBound bound otherCovers covers]
  unfold fill
  rw [found]

theorem fill_add
    {offset : Nat}
    (bound : number < layout.count)
    (inside : offset < layout.size number)
    (block : Nat → Nat → Cell)
    (rest : Nat → Cell) :
    layout.fill block rest (layout.displ number + offset) = block number offset := by
  rw [fill_of_covers bound ⟨Nat.le_add_right _ _, by omega⟩, Nat.add_sub_cancel_left]

theorem fill_of_not_covers
    (outside : ∀ number < layout.count, ¬ layout.Covers number index)
    (block : Nat → Nat → Cell)
    (rest : Nat → Cell) :
    layout.fill block rest index = rest index := by
  have search : (List.range layout.count).find? (layout.Covers · index) = none := by
    apply find?_eq_none.mpr
    intro number member
    rw [decide_eq_true_iff]
    exact outside number (mem_range.mp member)
  unfold fill
  rw [search]

/-- A block of such a buffer. -/
theorem slice_fill
    (bound : number < layout.count)
    (block : Nat → Nat → Cell)
    (rest : Nat → Cell) :
    Buffer.slice (layout.fill block rest) (layout.displ number) (layout.size number) =
      Buffer.tabulate (layout.size number) (block number) := by
  apply Buffer.tabulate_congr
  intro offset inside
  exact fill_add bound inside block rest

/-- Consecutive blocks. -/
def consecutive (count : Nat) (size : Nat → Nat) : Layout where
  count := count
  displ := prefixSum size
  size := size
  disjoint := by
    rintro first second index - - ⟨firstLower, firstUpper⟩ ⟨secondLower, secondUpper⟩
    rw [← prefixSum_succ] at firstUpper secondUpper
    rcases lt_trichotomy first second with below | same | above
    · have := @prefixSum_mono size _ _ below
      rw [Nat.succ_eq_add_one] at this
      omega
    · exact same
    · have := @prefixSum_mono size _ _ above
      rw [Nat.succ_eq_add_one] at this
      omega

variable {size : Nat → Nat}

theorem fill_consecutive
    {count offset : Nat}
    (bound : number < count)
    (inside : offset < size number)
    (block : Nat → Nat → Cell)
    (rest : Nat → Cell) :
    (consecutive count size).fill block rest (prefixSum size number + offset) =
      block number offset :=
  @fill_add _ (consecutive count size) _ _ bound inside block rest

/-- Behind consecutive blocks is no block. -/
theorem not_covers_consecutive
    {count : Nat}
    (beyond : prefixSum size count ≤ index)
    (bound : number < count) :
    ¬ (consecutive count size).Covers number index := by
  rintro ⟨-, upper⟩
  change index < prefixSum size number + size number at upper
  rw [← prefixSum_succ] at upper
  have := @prefixSum_mono size _ _ (show number + 1 ≤ count from bound)
  omega

/-- Consecutive blocks from one on, at two places of possibly different
sequences of blocks. -/
theorem fill_consecutive_shift
    {count otherCount first : Nat} {otherSize : Nat → Nat}
    {block otherBlock : Nat → Nat → Cell}
    (within : number ≤ otherCount)
    (firstWithin : first + number ≤ count)
    (sameSize : ∀ another < number, otherSize another = size (first + another))
    (sameBlock : ∀ another < number, otherBlock another = block (first + another))
    (inside : index < prefixSum otherSize number)
    (rest otherRest : Nat → Cell) :
    (consecutive otherCount otherSize).fill otherBlock otherRest index =
      (consecutive count size).fill block rest (prefixSum size first + index) := by
  obtain ⟨another, bound, offset, inBlock, rfl⟩ := exists_block_of_lt inside
  have here : prefixSum size first + (prefixSum otherSize another + offset) =
      prefixSum size (first + another) + offset := by
    rw [prefixSum_add, add_assoc,
      prefixSum_congr fun earlier less => sameSize earlier (less.trans bound)]
  rw [here, fill_consecutive (by omega) inBlock,
    fill_consecutive (by omega) (by rw [← sameSize another bound]; exact inBlock),
    sameBlock another bound]

end Layout

end Mpich
