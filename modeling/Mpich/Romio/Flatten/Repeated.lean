import Mathlib.Algebra.BigOperators.Fin
import Mpich.Romio.Flatten.Defs

/-!
# The bytes of a list of blocks

The bytes of a list of blocks move with the blocks, and merging blocks that
touch each other does not change them.
-/

namespace Mpich.Romio.Flatten

open Copies List

@[simp] theorem cover_nil : cover [] = [] := rfl

theorem cover_cons
    (block : Block)
    (blocks : List Block) :
    cover (block :: blocks) = block.positions ++ cover blocks := rfl

@[simp] theorem cover_append
    (first second : List Block) :
    cover (first ++ second) = cover first ++ cover second :=
  flatMap_append

theorem cover_singleton (block : Block) :
    cover [block] = block.positions :=
  append_nil _

theorem cover_flatMap
    {α : Type*}
    (list : List α)
    (blocks : α → List Block) :
    cover (list.flatMap blocks) = list.flatMap fun element => cover (blocks element) :=
  flatMap_assoc

theorem positions_vadd
    (distance : Int)
    (block : Block) :
    (distance +ᵥ block).positions = shifted distance block.positions :=
  (shifted_run distance block.index block.blocklen.toNat).symm

theorem cover_shifted
    (distance : Int)
    (blocks : List Block) :
    cover (shifted distance blocks) = shifted distance (cover blocks) := by
  induction blocks with
  | nil => rfl
  | cons block blocks ih =>
    rw [cover_cons, shifted_append, ← ih, ← positions_vadd]
    rfl

theorem cover_copies
    (count : Nat)
    (distance : Int)
    (blocks : List Block) :
    cover (copies count distance blocks) = copies count distance (cover blocks) := by
  induction count generalizing blocks with
  | zero => rfl
  | succ count ih => rw [copies, cover_append, ih, cover_shifted, copies]

theorem Forward.append
    {first second : List Block}
    (forwardFirst : Forward first)
    (forwardSecond : Forward second) :
    Forward (first ++ second) := fun block member =>
  (mem_append.mp member).elim (forwardFirst block) (forwardSecond block)

variable {blocks : List Block}

theorem Forward.shifted
    (forward : Forward blocks)
    (distance : Int) :
    Forward (shifted distance blocks) := by
  intro block member
  obtain ⟨before, isBefore, rfl⟩ := mem_map.mp member
  exact forward before isBefore

theorem Forward.copies
    (forward : Forward blocks)
    (count : Nat)
    (distance : Int) :
    Forward (copies count distance blocks) := by
  induction count generalizing blocks with
  | zero => exact fun block impossible => absurd impossible not_mem_nil
  | succ count ih => exact forward.append (ih (forward.shifted distance))

/-- The blocks that are merged have the bytes of the current block and of the
blocks to come. -/
theorem cover_mergeBlocks
    {previous current : Block}
    (sameEnd : current.index + current.blocklen = previous.index + previous.blocklen)
    (nonneg : 0 ≤ current.blocklen)
    (forward : Forward blocks) :
    cover (mergeBlocks previous current blocks) = current.positions ++ cover blocks := by
  induction blocks generalizing previous current with
  | nil => rw [mergeBlocks, cover_singleton, cover_nil, append_nil]
  | cons next rest ih =>
    have nextNonneg := forward next (mem_cons_self ..)
    have restForward : Forward rest := fun block member =>
      forward block (mem_cons_of_mem _ member)
    rw [mergeBlocks]
    split
    case isTrue touching =>
      rw [touches, decide_eq_true_eq] at touching
      have start : next.index = current.index + current.blocklen.toNat := by
        omega
      have length : (current.blocklen + next.blocklen).toNat =
          current.blocklen.toNat + next.blocklen.toNat := by
        omega
      have merged : Block.positions
          ⟨current.index, current.blocklen + next.blocklen⟩ =
            current.positions ++ next.positions := by
        rw [Block.positions, Block.positions, Block.positions, length, start, run_append]
      rw [ih (by simp only; omega) (by simp only; omega)
        restForward, merged, cover_cons, append_assoc]
    case isFalse =>
      rw [cover_cons, ih rfl nextNonneg restForward, cover_cons]

/-- Merging keeps the bytes. -/
theorem cover_optimizeFlattened
    (some : blocks ≠ [])
    (forward : Forward blocks) :
    ∃ optimized, optimizeFlattened blocks = .some optimized ∧ cover optimized = cover blocks := by
  obtain ⟨first, rest, rfl⟩ := exists_cons_of_ne_nil some
  unfold optimizeFlattened
  split
  case isTrue => exact ⟨first :: rest, rfl, rfl⟩
  case isFalse =>
    exact ⟨_, rfl, cover_mergeBlocks rfl (forward first (mem_cons_self ..))
      fun block member => forward block (mem_cons_of_mem _ member)⟩

theorem optimizeFlattened_nil :
    optimizeFlattened [] = none := rfl

end Mpich.Romio.Flatten

/-!
## When a constructor is flattened right

The condition on one constructor, its arguments and its old types. Where the old
type is named or contiguous, the flattened type takes its copies for one run of
bytes. Where it is not, the first copy is written whatever the count or the
block length is.
-/

namespace Mpich.Romio.Flatten

open Copies

namespace Library

variable (library : Library)

-- The equations of the two recursions are made once, before the proofs that use them.
attribute [local simp] flatten countContiguousBlocks

/-- So many copies of the type are one run of bytes of this length. -/
def Solid
    (count length : Nat)
    (old : Basic) : Prop :=
  copies count (library.extent old) (library.bytes old) = run 0 length

/-- The constructor is flattened right, if the types it is made of are. -/
def Harmless : Basic → Prop
  | .named _ => False
  | .dup old => library.isSimple old = false
  | .contiguous count old =>
    if library.isSimple old then
      library.Solid count (count * library.size old) old
    else count ≠ 0
  | .vector count blocklength stride old =>
    count ≠ 0 ∧ if library.isSimple old then
        library.Solid blocklength (blocklength * library.size old) old ∧
          (count = 1 ∨ blocklength * library.size old = 0 ∨
            unsignedProduct stride (library.size old) = stride * library.extent old)
      else blocklength ≠ 0
  | .hvector count blocklength _ old =>
    count ≠ 0 ∧ if library.isSimple old then
        library.Solid blocklength (blocklength * library.size old) old
      else blocklength ≠ 0
  | .indexed blocks old =>
    blocks ≠ [] ∧ if library.isSimple old then
        ∀ block ∈ blocks, 0 ≤ block.1 * library.extent old ∧
          library.Solid block.1 (block.1 * library.extent old).toNat old
      else
        (∀ block ∈ blocks, block.1 ≠ 0) ∧ (library.size old = 0 ∨ (blocks.map Prod.snd).IsChain
            fun before next =>
              intSub next before * library.extent old = (next - before) * library.extent old)
  | .hindexed blocks old =>
    blocks ≠ [] ∧ if library.isSimple old then
        ∀ block ∈ blocks, library.Solid block.1 (block.1 * library.size old) old
      else ∀ block ∈ blocks, block.1 ≠ 0
  | .struct count blocklengths _ types =>
    count ≠ 0 ∧ ∀ index, if library.isSimple (types index) then
        library.Solid (blocklengths index)
          (blocklengths index * library.size (types index)) (types index)
      else blocklengths index ≠ 0

/-- The entries that are written for a type at displacement zero are as many as
are counted, move with the displacement, and have the bytes of the type map. -/
structure Fine
    (type : Basic)
    (written : List Block) : Prop where
  some : written ≠ []
  count : library.countContiguousBlocks type = .some (written.length, written.length)
  flatten : ∀ stOffset, library.flatten type stOffset = .some (shifted stOffset written)
  forward : Forward written
  cover : cover written = library.bytes type

variable {library}

variable {type : Basic}

variable {written : List Block}

theorem Fine.represents
    (fine : library.Fine type written) :
    library.Represents type := by
  have isFlatten := fine.flatten 0
  rw [shifted_zero] at isFlatten
  refine ⟨_, _, written, fine.count, isFlatten, fine.forward, le_refl _, fun unwritten exact_ => ?_⟩
  have none : unwritten = [] := List.eq_nil_of_length_eq_zero (by omega)
  rw [none, List.append_nil]
  obtain ⟨optimized, isOptimized, same⟩ := cover_optimizeFlattened fine.some fine.forward
  exact ⟨optimized, isOptimized, same.trans fine.cover⟩

/-- If as many entries are written as are counted, the type is represented when
they have the bytes of the type map. -/
theorem fine_of_represents
    (count : library.countContiguousBlocks type =
      some ((written.length : Int), (written.length : Int)))
    (flatten : ∀ stOffset, library.flatten type stOffset = some (shifted stOffset written))
    (represents : library.Represents type) :
    library.Fine type written := by
  obtain ⟨counted, num, entries, isCount, isFlatten, forward, _, covers⟩ := represents
  obtain ⟨rfl, rfl⟩ := Prod.mk.inj (Option.some.inj (isCount.symm.trans count))
  have isEntries := isFlatten.symm.trans (flatten 0)
  rw [shifted_zero] at isEntries
  obtain rfl := Option.some.inj isEntries
  obtain ⟨optimized, isOptimized, same⟩ := covers [] (by simp)
  rw [List.append_nil] at isOptimized
  have nonempty : entries ≠ [] := by
    rintro rfl
    exact Option.some_ne_none optimized isOptimized.symm
  refine ⟨nonempty, count, flatten, forward, ?_⟩
  obtain ⟨found, isFound, keeps⟩ := cover_optimizeFlattened nonempty forward
  obtain rfl := Option.some.inj (isFound.symm.trans isOptimized)
  exact keeps.symm.trans same

/-- The arrays are too short. -/
theorem not_represents_of_lt
    {count num : Int}
    (isCount : library.countContiguousBlocks type = some (count, num))
    (isFlatten : library.flatten type 0 = some written)
    (short : count < written.length) :
    ¬ library.Represents type := by
  rintro ⟨counted, _, entries, counts, flattens, _, bound, _⟩
  obtain ⟨rfl, _⟩ := Prod.mk.inj (Option.some.inj (counts.symm.trans isCount))
  obtain rfl := Option.some.inj (flattens.symm.trans isFlatten)
  omega

variable (library) in
/-- The type is represented exactly when it is harmless, and then its entries
are fine. -/
structure Agrees
    (type : Basic) : Prop where
  iff : library.Represents type ↔ library.Harmless type
  fine : library.Harmless type → ∃ written, library.Fine type written

/-- What the last step of a constructor shows: the entries it writes, and that
it is harmless exactly when they are right. -/
theorem agrees_of
    (written : List Block)
    (count : library.countContiguousBlocks type =
      some ((written.length : Int), (written.length : Int)))
    (flatten : ∀ stOffset, library.flatten type stOffset = some (shifted stOffset written))
    (harmless : library.Harmless type ↔
      written ≠ [] ∧ Forward written ∧ Flatten.cover written = library.bytes type) :
    library.Agrees type := by
  have fine (isHarmless : library.Harmless type) : library.Fine type written := by
    obtain ⟨nonempty, forward, isCover⟩ := harmless.mp isHarmless
    exact ⟨nonempty, count, flatten, forward, isCover⟩
  refine ⟨⟨fun represents => ?_, fun isHarmless => (fine isHarmless).represents⟩,
    fun isHarmless => ⟨written, fine isHarmless⟩⟩
  have isFine := fine_of_represents count flatten represents
  exact harmless.mpr ⟨isFine.some, isFine.forward, isFine.cover⟩

/-- A constructor that is neither represented nor harmless. -/
theorem agrees_of_not
    (wrong : ¬ library.Represents type)
    (harmful : ¬ library.Harmless type) :
    library.Agrees type :=
  ⟨iff_of_false wrong harmful, fun isHarmless => absurd isHarmless harmful⟩

end Mpich.Romio.Flatten.Library

/-!
## Constructors with copies at equal distances

A duplicate, a contiguous type, a vector and a vector with a stride in bytes:
each is represented exactly when it is harmless, if its old type is represented
or is not flattened.
-/

namespace Mpich.Romio.Flatten

open Copies List

namespace Library

variable {library : Library} {old : Basic} {inner : List Block}

theorem forward_singleton
    (index : Int)
    (length : Nat) :
    Forward [⟨index, length⟩] := by
  intro block member
  rw [mem_singleton.mp member]
  exact Int.natCast_nonneg length

theorem cover_block
    (index : Int)
    (length : Nat) :
    cover [⟨index, length⟩] = run index length := by
  rw [cover_singleton, Block.positions, Int.toNat_natCast]

theorem shifted_block (distance index length : Int) :
    shifted distance [(⟨index, length⟩ : Block)] = [⟨distance + index, length⟩] :=
  rfl

/-- The loop for the copies of entries at a displacement. -/
theorem again_shifted
    (entries : List Block)
    (stOffset distance : Int)
    (times : Nat) :
    again (shifted stOffset entries).length distance times (shifted stOffset entries) =
      shifted stOffset (copies (times + 1) distance entries) := by
  rw [again_eq_copies, shifted_copies]

theorem length_ne_zero
    {entries : List Block}
    (some : entries ≠ []) :
    (entries.length : Int) ≠ 0 := by
  have positive := length_pos_of_ne_nil some
  omega

theorem copies_ne_nil
    {α : Type*} [AddAction Int α] {entries : List α}
    (some : entries ≠ [])
    {count : Nat}
    (positive : count ≠ 0)
    {distance : Int} :
    copies count distance entries ≠ [] := by
  cases count with
  | zero => exact absurd rfl positive
  | succ count => exact append_ne_nil_of_left_ne_nil some _

/-- A duplicate of a type that is not flattened writes no entry, and one is
counted. -/
theorem not_represents_dup (simple : library.isSimple old = true) :
    ¬ library.Represents (.dup old) := by
  rintro ⟨count, num, written, isCount, isFlatten, _, _, covers⟩
  rw [countContiguousBlocks, if_pos simple] at isCount
  rw [flatten, if_pos simple] at isFlatten
  obtain ⟨rfl, _⟩ := Prod.mk.inj (Option.some.inj isCount)
  obtain rfl := Option.some.inj isFlatten
  let longer : Block := ⟨0, library.size old + 1⟩
  obtain ⟨optimized, isOptimized, same⟩ := covers [longer] (by simp)
  have single : optimizeFlattened ([] ++ [longer]) = some [longer] := rfl
  obtain rfl := Option.some.inj (single.symm.trans isOptimized)
  have lengths := congrArg length same
  rw [cover_singleton, Block.positions, length_run] at lengths
  have isSize : (library.bytes (.dup old)).length = library.size old := rfl
  simp only [longer] at lengths
  omega

variable (isFine : library.isSimple old = false → ∃ written, library.Fine old written)

include isFine in
theorem agrees_dup : library.Agrees (.dup old) := by
  cases simple : library.isSimple old with
  | true =>
    have harmful : ¬ library.Harmless (.dup old) := by
      rw [Harmless, simple]
      exact Bool.noConfusion
    exact agrees_of_not (not_represents_dup simple) harmful
  | false =>
    obtain ⟨written, fine⟩ := isFine simple
    have notSimple := Bool.eq_false_iff.mp simple
    refine agrees_of written ?_ ?_ ?_
    · rw [countContiguousBlocks, if_neg notSimple, fine.count]
    · intro stOffset
      rw [flatten, if_neg notSimple, fine.flatten]
    · rw [Harmless, simple]
      exact iff_of_true rfl ⟨fine.some, fine.forward, fine.cover⟩

variable
    (notSimple : ¬ library.isSimple old = true)
    {stOffset : Int}
    (isInner : library.flatten old stOffset = some inner)
    (nonempty : inner ≠ [])

include notSimple isInner nonempty in
theorem flatten_contiguous
    {count : Nat} :
    library.flatten (.contiguous count old) stOffset =
      some (again inner.length (library.extent old) (count - 1) inner) := by
  rw [flatten, if_neg notSimple, isInner]
  cases inner with
  | nil => exact absurd rfl nonempty
  | cons first rest => rfl

include isFine in
theorem agrees_contiguous
    (count : Nat) :
    library.Agrees (.contiguous count old) := by
  cases simple : library.isSimple old with
  | true =>
    refine agrees_of [⟨0, (count * library.size old : Nat)⟩] ?_ ?_ ?_
    · rw [countContiguousBlocks, if_pos simple]
      rfl
    · intro stOffset
      rw [flatten, if_pos simple, shifted_block, add_zero, Nat.cast_mul]
    · rw [Harmless, if_pos simple, cover_block, Solid, bytes]
      constructor
      · exact fun solid =>
          ⟨cons_ne_nil _ _, forward_singleton _ _, solid.symm⟩
      · exact fun right => right.2.2.symm
  | false =>
    obtain ⟨inner, fine⟩ := isFine simple
    have notSimple := Bool.eq_false_iff.mp simple
    have isFlatten (stOffset : Int) :
        library.flatten (.contiguous count old) stOffset = some (shifted stOffset
            (copies (count - 1 + 1) (library.extent old) inner)) := by
      have nonempty : shifted stOffset inner ≠ [] := mt shifted_eq_nil.mp fine.some
      rw [flatten_contiguous notSimple (fine.flatten stOffset) nonempty, again_shifted]
    have isCount : library.countContiguousBlocks (.contiguous count old) =
        some ((inner.length : Int) * count, (inner.length : Int) * count) := by
      rw [countContiguousBlocks, if_neg notSimple, fine.count]
      simp only [if_neg (length_ne_zero fine.some)]
      congr 2
      ring
    cases count with
    | zero =>
      refine agrees_of_not (not_represents_of_lt isCount (isFlatten 0) ?_) ?_
      · rw [length_shifted, length_copies]
        have positive := length_pos_of_ne_nil fine.some
        omega
      · rw [Harmless, if_neg notSimple]
        exact fun impossible => impossible rfl
    | succ count =>
      refine agrees_of (copies (count + 1) (library.extent old) inner)
        ?_ isFlatten ?_
      · rw [isCount, length_copies]
        congr 2 <;> push_cast <;> ring
      · rw [Harmless, if_neg notSimple, cover_copies, fine.cover]
        exact iff_of_true (Nat.succ_ne_zero count)
          ⟨copies_ne_nil fine.some (Nat.succ_ne_zero count), fine.forward.copies _ _, rfl⟩

variable {count blocklength : Nat}

variable {stride : Int}

/-- A vector over a type that is not flattened: its blocks lie at the distance
that `ADIOI_Flatten` uses for them. -/
theorem agrees_strided_of_simple
    {type : Basic}
    (distance : Int)
    (isCount : library.countContiguousBlocks type = some ((count : Int), (count : Int)))
    (isFlatten : ∀ stOffset, library.flatten type stOffset =
      some (again 1 distance (count - 1) [⟨stOffset, (blocklength * library.size old : Nat)⟩]))
    (isBytes : library.bytes type = copies count stride
      (copies blocklength (library.extent old) (library.bytes old)))
    (harmless : library.Harmless type ↔
      count ≠ 0 ∧ library.Solid blocklength (blocklength * library.size old) old ∧
        (count = 1 ∨ blocklength * library.size old = 0 ∨ distance = stride)) :
    library.Agrees type := by
  let block : Block := ⟨0, (blocklength * library.size old : Nat)⟩
  have written (stOffset : Int) : library.flatten type stOffset =
      some (shifted stOffset (copies (count - 1 + 1) distance [block])) := by
    have first : [(⟨stOffset, (blocklength * library.size old : Nat)⟩ : Block)] =
        shifted stOffset [block] := by
      rw [shifted_block, add_zero]
    rw [isFlatten, first, ← again_shifted]
    rfl
  by_cases positive : count = 0
  · apply agrees_of_not (not_represents_of_lt isCount (written 0) ?_)
    · exact fun isHarmless => (harmless.mp isHarmless).1 positive
    · rw [length_shifted, length_copies, positive]
      exact Int.one_pos
  · have again_ : count - 1 + 1 = count := Nat.succ_pred positive
    rw [again_] at written
    refine agrees_of (copies count distance [block]) ?_ written ?_
    · rw [isCount, length_copies, length_singleton, mul_one]
    · have lengths : (run 0 (blocklength * library.size old)).length =
          (copies blocklength (library.extent old) (library.bytes old)).length := by
        rw [length_run, length_copies, size]
      have isEmpty : run 0 (blocklength * library.size old) = [] ↔
          blocklength * library.size old = 0 := by
        rw [← length_eq_zero_iff, length_run]
      rw [harmless, cover_copies, cover_block, isBytes, copies_inj positive lengths, isEmpty, Solid,
        @eq_comm _ (run 0 (blocklength * library.size old))]
      constructor
      · rintro ⟨_, solid, same⟩
        exact ⟨copies_ne_nil (cons_ne_nil block []) positive,
          (forward_singleton _ _).copies _ _, solid, same⟩
      · rintro ⟨_, _, solid, same⟩
        exact ⟨positive, solid, same⟩

/-- The entries of a vector over a flattened type. -/
theorem repeated_shifted
    (inner : List Block)
    (stOffset oldExtent stride : Int)
    (blocklength count : Nat) :
    repeated (shifted stOffset inner) oldExtent blocklength stride count =
      shifted stOffset (copies (count - 1 + 1) stride
        (copies (blocklength - 1 + 1) oldExtent inner)) := by
  unfold repeated
  simp only [again_shifted]

/-- A vector over a flattened type: the first copy is always written. -/
theorem agrees_strided_of_fine
    {type : Basic}
    (fine : library.Fine old inner)
    (isCount : library.countContiguousBlocks type =
      some ((inner.length : Int) * (blocklength * count),
        (inner.length : Int) * (blocklength * count)))
    (isFlatten : ∀ stOffset, library.flatten type stOffset =
      some (repeated (shifted stOffset inner) (library.extent old) blocklength stride count))
    (isBytes : library.bytes type = copies count stride
      (copies blocklength (library.extent old) (library.bytes old)))
    (harmless : library.Harmless type ↔ count ≠ 0 ∧ blocklength ≠ 0) :
    library.Agrees type := by
  have innerPositive := length_pos_of_ne_nil fine.some
  have written := fun stOffset =>
    (isFlatten stOffset).trans (congrArg some (repeated_shifted ..))
  by_cases positive : count ≠ 0 ∧ blocklength ≠ 0
  · have countAgain : count - 1 + 1 = count := Nat.succ_pred positive.1
    have blockAgain : blocklength - 1 + 1 = blocklength := Nat.succ_pred positive.2
    rw [countAgain, blockAgain] at written
    refine agrees_of _ ?_ written ?_
    · rw [isCount, length_copies, length_copies]
      congr 2 <;> push_cast <;> ring
    · rw [cover_copies, cover_copies, fine.cover, isBytes]
      exact iff_of_true (harmless.mpr positive)
        ⟨copies_ne_nil (copies_ne_nil fine.some positive.2) positive.1,
          (fine.forward.copies _ _).copies _ _, rfl⟩
  · apply agrees_of_not (not_represents_of_lt isCount (written 0) ?_)
    · exact mt harmless.mp positive
    · have none : blocklength * count = 0 := by
        rw [Nat.mul_eq_zero]
        omega
      have isZero : (blocklength : Int) * count = 0 := mod_cast none
      rw [isZero, mul_zero, length_shifted, length_copies, length_copies]
      exact Int.natCast_pos.mpr (Nat.mul_pos (Nat.succ_pos _)
        (Nat.mul_pos (Nat.succ_pos _) innerPositive))

/-- The number of entries that is counted for a vector over a flattened type. -/
theorem strided_count
    (width : Int)
    (count blocklength : Nat) :
    (width * ((blocklength : Int) * count), width + ((blocklength : Int) - 1) * width +
          ((count : Int) - 1) * (width + ((blocklength : Int) - 1) * width)) =
      (width * ((blocklength : Int) * count), width * ((blocklength : Int) * count)) := by
  congr 1
  ring

include notSimple isInner nonempty in
theorem flatten_vector :
    library.flatten (.vector count blocklength stride old) stOffset =
      some (repeated inner (library.extent old) blocklength
        (stride * library.extent old) count) := by
  rw [flatten, if_neg notSimple, isInner]
  cases inner with
  | nil => exact absurd rfl nonempty
  | cons first rest => rfl

include isFine in
theorem agrees_vector
    (count blocklength : Nat)
    (stride : Int) :
    library.Agrees (.vector count blocklength stride old) := by
  cases simple : library.isSimple old with
  | true =>
    refine agrees_strided_of_simple (unsignedProduct stride (library.size old))
      ?_ (fun stOffset => ?_) rfl ?_
    · rw [countContiguousBlocks, if_pos simple]
      rfl
    · rw [flatten, if_pos simple, Nat.cast_mul]
    · rw [Harmless, if_pos simple]
  | false =>
    obtain ⟨inner, fine⟩ := isFine simple
    have notSimple := Bool.eq_false_iff.mp simple
    refine agrees_strided_of_fine fine ?_ (fun stOffset => ?_) rfl ?_
    · rw [countContiguousBlocks, if_neg notSimple, fine.count]
      simp only [if_neg (length_ne_zero fine.some), strided_count]
    · exact flatten_vector notSimple (fine.flatten stOffset) (mt shifted_eq_nil.mp fine.some)
    · rw [Harmless, if_neg notSimple]

include notSimple isInner nonempty in
theorem flatten_hvector :
    library.flatten (.hvector count blocklength stride old) stOffset =
      some (repeated inner (library.extent old) blocklength stride count) := by
  rw [flatten, if_neg notSimple, isInner]
  cases inner with
  | nil => exact absurd rfl nonempty
  | cons first rest => rfl

include isFine in
theorem agrees_hvector
    (count blocklength : Nat)
    (stride : Int) :
    library.Agrees (.hvector count blocklength stride old) := by
  cases simple : library.isSimple old with
  | true =>
    refine agrees_strided_of_simple stride ?_ (fun stOffset => ?_) rfl ?_
    · rw [countContiguousBlocks, if_pos simple]
      rfl
    · rw [flatten, if_pos simple, Nat.cast_mul]
    · rw [Harmless, if_pos simple]
      simp only [or_true, and_true]
  | false =>
    obtain ⟨inner, fine⟩ := isFine simple
    have notSimple := Bool.eq_false_iff.mp simple
    refine agrees_strided_of_fine fine ?_ (fun stOffset => ?_) rfl ?_
    · rw [countContiguousBlocks, if_neg notSimple, fine.count]
      simp only [if_neg (length_ne_zero fine.some), strided_count]
    · exact flatten_hvector notSimple (fine.flatten stOffset) (mt shifted_eq_nil.mp fine.some)
    · rw [Harmless, if_neg notSimple]

end Mpich.Romio.Flatten.Library
