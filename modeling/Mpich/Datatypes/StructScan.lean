import Mpich.Datatypes.Defs

/-!
# The scan of a struct

`MPID_Type_struct` walks over its blocks once. Afterwards the displacements it
keeps are the lowest and the highest of the bounds of the blocks, where only some
of the blocks count: blocks without elements are skipped, markers have no true
bounds, and a sticky bound comes from the blocks that have one.
-/

namespace Mpich.Datatypes

open List

namespace Block

/-- The bounds of the block. -/
def bounds (block : Block) : Int × Int :=
  block.oldtype.blockBounds block.blocklength block.displacement

/-- The true lower bound of the block. -/
def start (block : Block) : Int :=
  block.bounds.1 + (block.oldtype.trueLb - block.oldtype.lb)

/-- The true upper bound of the block. -/
def stop (block : Block) : Int :=
  block.bounds.2 + (block.oldtype.trueUb - block.oldtype.ub)

/-- A block with elements. -/
def isPresent (block : Block) : Bool :=
  decide (block.blocklength ≠ 0)

/-- A block that has true bounds. -/
def isPlaced (block : Block) : Bool :=
  block.isPresent && !block.oldtype.isMarker

/-- A block that gives a sticky lower bound. -/
def fixesLb (block : Block) : Bool :=
  block.isPresent && block.oldtype.givesStickyLb

/-- A block that gives a sticky upper bound. -/
def fixesUb (block : Block) : Bool :=
  block.isPresent && block.oldtype.givesStickyUb

end Block

/-- The lowest value among the blocks that count. -/
def lowestOf
    (counts : Block → Bool)
    (value : Block → Int)
    (blocks : List Block) : Option Int :=
  ((blocks.filter counts).map value).min?

/-- The highest value among the blocks that count. -/
def highestOf
    (counts : Block → Bool)
    (value : Block → Int)
    (blocks : List Block) : Option Int :=
  ((blocks.filter counts).map value).max?

/-- The lowest true lower bound. -/
def lowestStart : List Block → Option Int :=
  lowestOf Block.isPlaced Block.start

/-- The highest true upper bound. -/
def highestStop : List Block → Option Int :=
  highestOf Block.isPlaced Block.stop

/-- The lowest sticky lower bound. -/
def fixedLb : List Block → Option Int :=
  lowestOf Block.fixesLb fun block => block.bounds.1

/-- The highest sticky upper bound. -/
def fixedUb : List Block → Option Int :=
  highestOf Block.fixesUb fun block => block.bounds.2

/-- The bytes in the blocks. -/
def totalSize (blocks : List Block) : Int :=
  (blocks.map fun block => block.oldtype.size * (block.blocklength : Int)).sum

/-- The contiguous blocks that are counted. -/
def countedBlocks (blocks : List Block) : Int :=
  ((blocks.filter Block.isPresent).map fun block =>
    block.oldtype.nContigBlocks).sum

/-- No block starts in front of the first one, and each ends behind the blocks in
front of it. -/
structure InOrder (blocks : List Block) : Prop where
  starts : ∀ first ∈ (blocks.filter Block.isPlaced).head?,
    ∀ block ∈ blocks.filter Block.isPlaced, first.start ≤ block.start
  stops : (blocks.filter Block.isPlaced).Pairwise fun block next =>
    block.stop < next.stop

theorem min?_concat
    (values : List Int)
    (value : Int) :
    (values ++ [value]).min? = keepLowest values.min? value := by
  cases values with
  | nil => rfl
  | cons first rest =>
    rw [cons_append, min?_cons', min?_cons', foldl_append,
      keepLowest, foldl_cons, foldl_nil, min_def]
    congr 1
    split <;> split <;> omega

theorem max?_concat
    (values : List Int)
    (value : Int) :
    (values ++ [value]).max? = keepHighest values.max? value := by
  cases values with
  | nil => rfl
  | cons first rest =>
    rw [cons_append, max?_cons', max?_cons', foldl_append,
      keepHighest, foldl_cons, foldl_nil, max_def]
    congr 1
    split <;> split <;> omega

theorem lowestOf_concat
    (counts : Block → Bool)
    (value : Block → Int)
    (blocks : List Block)
    (block : Block) :
    lowestOf counts value (blocks ++ [block]) =
      if counts block then keepLowest (lowestOf counts value blocks) (value block)
      else lowestOf counts value blocks := by
  unfold lowestOf
  rw [filter_append, map_append]
  split
  · rename_i counted
    rw [filter_cons_of_pos counted]
    exact min?_concat _ _
  · rename_i skipped
    rw [filter_cons_of_neg skipped, filter_nil, map_nil, append_nil]

theorem highestOf_concat
    (counts : Block → Bool)
    (value : Block → Int)
    (blocks : List Block)
    (block : Block) :
    highestOf counts value (blocks ++ [block]) =
      if counts block then keepHighest (highestOf counts value blocks) (value block)
      else highestOf counts value blocks := by
  unfold highestOf
  rw [filter_append, map_append]
  split
  · rename_i counted
    rw [filter_cons_of_pos counted]
    exact max?_concat _ _
  · rename_i skipped
    rw [filter_cons_of_neg skipped, filter_nil, map_nil, append_nil]

/-- What the variables of the loop say about the blocks that it has seen. -/
structure Scanned (scan : StructScan) (blocks : List Block) : Prop where
  size_eq : scan.size = totalSize blocks
  counted_eq : scan.nContigBlocks = countedBlocks blocks
  stickyLb_eq : scan.stickyLbDisp = fixedLb blocks
  stickyUb_eq : scan.stickyUbDisp = fixedUb blocks
  trueLb_eq : scan.trueLbDisp = lowestStart blocks
  trueUb_eq : scan.trueUbDisp = highestStop blocks
  inOrder : scan.definitelyNotContig = false → InOrder blocks
  areContig : scan.oldAreContig = true →
    ∀ block ∈ blocks, block.isPresent = true → block.oldtype.isContig = true

theorem scanned_start : Scanned .start [] where
  size_eq := rfl
  counted_eq := rfl
  stickyLb_eq := rfl
  stickyUb_eq := rfl
  trueLb_eq := rfl
  trueUb_eq := rfl
  inOrder := fun _ => {
    starts := fun _ _ _ member => by cases member
    stops := .nil }
  areContig := fun _ _ member => by cases member

variable {blocks : List Block}

variable {block : Block}

theorem le_of_lowestOf
    {counts : Block → Bool} {value : Block → Int} {lowest : Int}
    (isLowest : lowestOf counts value blocks = some lowest)
    (member : block ∈ blocks.filter counts) :
    lowest ≤ value block :=
  (min?_eq_some_iff.mp isLowest).2 _ (mem_map_of_mem member)

theorem le_of_highestOf
    {counts : Block → Bool} {value : Block → Int} {highest : Int}
    (isHighest : highestOf counts value blocks = some highest)
    (member : block ∈ blocks.filter counts) :
    value block ≤ highest :=
  (max?_eq_some_iff.mp isHighest).2 _ (mem_map_of_mem member)

/-- A block behind the others keeps the order when the loop says so. -/
theorem InOrder.concat
    (inOrder : InOrder blocks)
    (tested : block.isPlaced = true →
      ((lowestStart blocks).any fun lowest => decide (lowest > block.start)) = false ∧
        ((highestStop blocks).any fun highest => !decide (highest < block.stop)) = false) :
    InOrder (blocks ++ [block]) := by
  by_cases placed : block.isPlaced = true
  · obtain ⟨notBefore, endsBehind⟩ := tested placed
    have split : (blocks ++ [block]).filter Block.isPlaced =
        blocks.filter Block.isPlaced ++ [block] := by
      rw [filter_append, filter_cons_of_pos placed, filter_nil]
    refine ⟨?_, ?_⟩
    · rw [split]
      intro first isFirst other member
      cases isLowest : lowestStart blocks with
      | none =>
        have none : blocks.filter Block.isPlaced = [] := by
          simpa [lowestStart, lowestOf] using isLowest
        rw [none, nil_append] at isFirst member
        cases isFirst
        rw [mem_singleton.mp member]
      | some lowest =>
        have occupied : blocks.filter Block.isPlaced ≠ [] := by
          intro none
          rw [lowestStart, lowestOf, none] at isLowest
          cases isLowest
        rw [head?_append_of_ne_nil _ occupied] at isFirst
        rw [isLowest, Option.any_some] at notBefore
        rw [mem_append, mem_singleton] at member
        rcases member with member | rfl
        · exact inOrder.starts first isFirst other member
        · obtain ⟨starter, starterMember, start_eq⟩ := mem_map.mp (min?_mem isLowest)
          have above := inOrder.starts first isFirst starter starterMember
          have notAbove : ¬lowest > other.start := by simpa using notBefore
          omega
    · rw [split, pairwise_append]
      refine ⟨inOrder.stops, pairwise_singleton _ _, ?_⟩
      intro other member next isBlock
      rw [mem_singleton] at isBlock
      subst isBlock
      cases isHighest : highestStop blocks with
      | none =>
        have none : blocks.filter Block.isPlaced = [] := by
          simpa [highestStop, highestOf] using isHighest
        rw [none] at member
        cases member
      | some highest =>
        have below := le_of_highestOf isHighest member
        rw [isHighest, Option.any_some] at endsBehind
        have above : highest < next.stop := by simpa using endsBehind
        exact below.trans_lt above
  · have same : (blocks ++ [block]).filter Block.isPlaced = blocks.filter Block.isPlaced := by
      rw [filter_append, filter_cons_of_neg placed, filter_nil, append_nil]
    exact ⟨by rw [same]; exact inOrder.starts, by rw [same]; exact inOrder.stops⟩

theorem totalSize_concat
    (blocks : List Block)
    (block : Block) :
    totalSize (blocks ++ [block]) = totalSize blocks + block.oldtype.size * block.blocklength := by
  rw [totalSize, map_append, sum_append, totalSize, map_singleton, sum_singleton]

theorem countedBlocks_concat
    (blocks : List Block)
    (block : Block) :
    countedBlocks (blocks ++ [block]) = countedBlocks blocks +
        if block.isPresent then block.oldtype.nContigBlocks else 0 := by
  unfold countedBlocks
  rw [filter_append, map_append, sum_append]
  split
  · rename_i present
    rw [filter_cons_of_pos present, filter_nil, map_singleton, sum_singleton]
  · rename_i absent
    rw [filter_cons_of_neg absent, filter_nil, map_nil, sum_nil]

theorem Scanned.next
    {scan : StructScan}
    (scanned : Scanned scan blocks)
    (block : Block) :
    Scanned (scan.next block) (blocks ++ [block]) := by
  by_cases empty : block.blocklength = 0
  · have absent : block.isPresent = false := by simp [Block.isPresent, empty]
    have notPlaced : block.isPlaced = false := by simp [Block.isPlaced, absent]
    have notLb : block.fixesLb = false := by simp [Block.fixesLb, absent]
    have notUb : block.fixesUb = false := by simp [Block.fixesUb, absent]
    rw [StructScan.next, if_pos empty]
    refine ⟨?_, ?_, ?_, ?_, ?_, ?_, ?_, ?_⟩
    · rw [totalSize_concat, empty, Nat.cast_zero, mul_zero, add_zero]
      exact scanned.size_eq
    · rw [countedBlocks_concat, absent]
      exact scanned.counted_eq.trans (add_zero _).symm
    · rw [fixedLb, lowestOf_concat, notLb]
      exact scanned.stickyLb_eq
    · rw [fixedUb, highestOf_concat, notUb]
      exact scanned.stickyUb_eq
    · rw [lowestStart, lowestOf_concat, notPlaced]
      exact scanned.trueLb_eq
    · rw [highestStop, highestOf_concat, notPlaced]
      exact scanned.trueUb_eq
    · intro notBroken
      refine (scanned.inOrder notBroken).concat fun placed => ?_
      rw [notPlaced] at placed
      cases placed
    · intro areContig other member present
      rw [mem_append, mem_singleton] at member
      rcases member with member | rfl
      · exact scanned.areContig areContig other member present
      · rw [absent] at present
        cases present
  · have present : block.isPresent = true := by simp [Block.isPresent, empty]
    rw [StructScan.next, if_neg empty]
    refine ⟨?_, ?_, ?_, ?_, ?_, ?_, ?_, ?_⟩
    · rw [totalSize_concat, ← scanned.size_eq]
    · rw [countedBlocks_concat, present, if_pos rfl, ← scanned.counted_eq]
    · rw [fixedLb, lowestOf_concat, Block.fixesLb, present, Bool.true_and,
        ← fixedLb, ← scanned.stickyLb_eq]
      rfl
    · rw [fixedUb, highestOf_concat, Block.fixesUb, present, Bool.true_and,
        ← fixedUb, ← scanned.stickyUb_eq]
      rfl
    · rw [lowestStart, lowestOf_concat, Block.isPlaced, present, Bool.true_and,
        ← lowestStart, ← scanned.trueLb_eq]
      change (if block.oldtype.isMarker = true then _ else _) = _
      cases block.oldtype.isMarker <;> rfl
    · rw [highestStop, highestOf_concat, Block.isPlaced, present, Bool.true_and,
        ← highestStop, ← scanned.trueUb_eq]
      change (if block.oldtype.isMarker = true then _ else _) = _
      cases block.oldtype.isMarker <;> rfl
    · intro notBroken
      obtain ⟨before, unbroken⟩ := Bool.or_eq_false_iff.mp notBroken
      refine (scanned.inOrder before).concat fun placed => ?_
      rw [Block.isPlaced, present, Bool.true_and] at placed
      rw [placed, Bool.true_and] at unbroken
      rw [← scanned.trueLb_eq, ← scanned.trueUb_eq]
      exact Bool.or_eq_false_iff.mp unbroken
    · intro areContig other member otherPresent
      obtain ⟨before, isContig⟩ := Bool.and_eq_true_iff.mp areContig
      rw [mem_append, mem_singleton] at member
      rcases member with member | rfl
      · exact scanned.areContig before other member otherPresent
      · exact isContig

theorem scanned_foldl (blocks : List Block) :
    Scanned (blocks.foldl StructScan.next .start) blocks := by
  induction blocks using reverseRecOn with
  | nil => exact scanned_start
  | append_singleton blocks block ih =>
    rw [foldl_concat]
    exact ih.next block

end Mpich.Datatypes
