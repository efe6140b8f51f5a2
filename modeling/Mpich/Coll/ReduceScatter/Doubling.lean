import Mpich.Coll.ReduceScatter.Defs

/-!
# Recursive doubling

At each level the ranks of two subtrees exchange what they have combined. Where
one of the subtrees is not complete, ranks of the other one get their data from
each other. The states of the processes are given level by level.
-/

namespace Mpich.Coll.ReduceScatter

open MessagePassing Masks List Option Buffer

variable {Cell : Type}

namespace TwoBlocks

/-- The blocks are the beginning and the end of buffers of this length. -/
structure Surrounds (blocks : TwoBlocks) (length : Nat) : Prop where
  ordered : blocks.first ≤ blocks.disp
  ending : blocks.disp + blocks.second = length

/-- A position in one of the blocks. -/
def Covers (blocks : TwoBlocks) (index : Nat) : Prop :=
  index < blocks.first ∨ blocks.disp ≤ index

instance (blocks : TwoBlocks) (index : Nat) : Decidable (blocks.Covers index) :=
  inferInstanceAs (Decidable (_ ∨ _))

/-- The elements of the blocks are replaced. -/
def merge
    (blocks : TwoBlocks)
    (cell other : Nat → Cell) : Nat → Cell :=
  fun index => if blocks.Covers index then other index else cell index

theorem merge_of_covers
    {blocks : TwoBlocks} {index : Nat}
    (covers : blocks.Covers index)
    (cell other : Nat → Cell) :
    blocks.merge cell other index = other index :=
  if_pos covers

/-- The elements of the blocks, one block after the other. -/
def packed (blocks : TwoBlocks) (cell : Nat → Cell) : List Cell :=
  tabulate blocks.first cell ++ tabulate blocks.second fun index => cell (blocks.disp + index)

theorem length_packed (blocks : TwoBlocks) (cell : Nat → Cell) :
    (blocks.packed cell).length = blocks.first + blocks.second := by
  rw [packed, length_append, length_tabulate, length_tabulate]

variable {blocks : TwoBlocks} {length : Nat}

section

variable
    (surrounds : blocks.Surrounds length)

include surrounds

theorem Surrounds.pack (cell : Nat → Cell) :
    blocks.pack (tabulate length cell) = some (blocks.packed cell) := by
  have ordered := surrounds.ordered
  have ending := surrounds.ending
  rw [TwoBlocks.pack, load_tabulate (by omega), bind_some, load_tabulate (by omega), map_some]
  simp only [zero_add]
  rfl

theorem Surrounds.patches
    {first second : Nat → Cell} {cell other : Nat → Cell}
    (sameFirst : ∀ index < blocks.first, first index = other index)
    (sameSecond : ∀ index < blocks.second, second index = other (blocks.disp + index)) :
    tabulate length (patch (patch cell 0 blocks.first first) blocks.disp blocks.second second) =
      tabulate length (blocks.merge cell other) := by
  have ending := surrounds.ending
  apply tabulate_congr
  intro index inside
  by_cases behind : blocks.disp ≤ index
  · rw [patch_of_mem (by omega), sameSecond _ (by omega),
      Nat.add_sub_cancel' behind, merge_of_covers (Or.inr behind)]
  · rw [patch_of_not_mem (by omega)]
    by_cases before : index < blocks.first
    · rw [patch_of_mem (by omega), Nat.sub_zero, sameFirst index before,
        merge_of_covers (Or.inl before)]
    · have uncovered : ¬ blocks.Covers index := not_or.mpr ⟨before, behind⟩
      rw [patch_of_not_mem (by omega), merge, if_neg uncovered]

theorem Surrounds.unpack (cell other : Nat → Cell) :
    blocks.unpack (tabulate length cell) (blocks.packed other) =
      some (tabulate length (blocks.merge cell other)) := by
  have ordered := surrounds.ordered
  have ending := surrounds.ending
  have front : (blocks.packed other).take blocks.first = tabulate blocks.first other :=
    take_left' (length_tabulate _ _)
  have back : (blocks.packed other).drop blocks.first =
      tabulate blocks.second fun index => other (blocks.disp + index) :=
    drop_left' (length_tabulate _ _)
  rw [TwoBlocks.unpack, front, back, store_tabulate (by omega),
    bind_some, store_tabulate (by omega), surrounds.patches (fun _ _ => rfl) fun _ _ => rfl]

theorem Surrounds.applyOp
    (uop : Cell → Cell → Cell)
    (incell inoutcell : Nat → Cell) :
    blocks.applyOp uop (tabulate length incell) (tabulate length inoutcell) =
      some (tabulate length (blocks.merge inoutcell fun index =>
        uop (incell index) (inoutcell index))) := by
  have ordered := surrounds.ordered
  have ending := surrounds.ending
  rw [TwoBlocks.applyOp, applyOp_tabulate (by omega) (by omega),
    bind_some, applyOp_tabulate (by omega) (by omega), surrounds.patches]
  · intro index inside
    rw [zero_add]
  · intro index inside
    rw [patch_of_not_mem (by omega)]

end

end TwoBlocks

theorem Call.treeRoot_eq (rank level : Nat) :
    Call.treeRoot rank level = blockStart rank level := by
  rw [Call.treeRoot, Nat.shiftLeft_eq, Nat.shiftRight_eq_div_pow]
  rfl

/-- The first rank of the subtree that a rank exchanges data with. -/
def otherRoot (level rank : Nat) : Nat :=
  blockStart (rank ^^^ 2 ^ level) level

namespace Shape

variable (shape : Shape)

/-- The number of levels of the doubling. -/
def depth : Nat :=
  Nat.clog 2 shape.commSize

/-- The elements that are not for the ranks of a subtree. -/
def outside (level root : Nat) : TwoBlocks where
  first := shape.disps (min root shape.commSize)
  second := shape.totalCount - shape.disps (min (root + 2 ^ level) shape.commSize)
  disp := shape.disps (min (root + 2 ^ level) shape.commSize)

/-- The ranks of a subtree. -/
def treeRanks (level root : Nat) : List Nat :=
  range' root (min (root + 2 ^ level) shape.commSize - root)

/-- The other subtree of a rank is not complete. -/
def Forwards (level rank : Nat) : Prop :=
  shape.commSize < otherRoot level rank + 2 ^ level

instance (level rank : Nat) : Decidable (shape.Forwards level rank) :=
  inferInstanceAs (Decidable (_ < _))

/-- `nprocs_completed`, or zero where that is negative. -/
def completed (level rank : Nat) : Nat :=
  shape.commSize - (blockStart rank level + 2 ^ level)

/-- A rank forwards data in a step, which is for the bit with this number. -/
def SendsAt (level bit rank : Nat) : Prop :=
  shape.Forwards level rank ∧ ¬ BitSet rank bit ∧ rank % 2 ^ bit < shape.completed level rank ∧
    shape.completed level rank ≤ rank % 2 ^ bit + 2 ^ bit

/-- A rank gets data from another rank of its subtree in a step. -/
def ReceivesAt (level bit rank : Nat) : Prop :=
  shape.Forwards level rank ∧ BitSet rank bit ∧ rank % 2 ^ bit < shape.completed level rank ∧
    shape.completed level rank ≤ rank % 2 ^ bit + 2 ^ bit

instance (level bit rank : Nat) : Decidable (shape.SendsAt level bit rank) :=
  inferInstanceAs (Decidable (_ ∧ _))

instance (level bit rank : Nat) : Decidable (shape.ReceivesAt level bit rank) :=
  inferInstanceAs (Decidable (_ ∧ _))

/-- Whether a rank has received data at a level after some steps. -/
def receivedAfter (level rank : Nat) : Nat → Bool
  | 0 => decide (rank ^^^ 2 ^ level < shape.commSize)
  | step + 1 =>
    if shape.ReceivesAt level (level - (step + 1)) rank then true
    else receivedAfter level rank step

variable (uop : Cell → Cell → Cell)

/-- The elements of `tmp_recvbuf` at a level after some steps, from the elements
of both buffers of all ranks at the beginning of the level. -/
def forwardedAfter (results incoming : Nat → Nat → Cell) (level : Nat) :
    Nat → Nat → Nat → Cell
  | 0, rank =>
    if rank ^^^ 2 ^ level < shape.commSize then
      (shape.outside level (otherRoot level rank)).merge (incoming rank)
        (results (rank ^^^ 2 ^ level))
    else incoming rank
  | step + 1, rank =>
    let bit := level - (step + 1)
    if shape.ReceivesAt level bit rank then
      (shape.outside level (otherRoot level rank)).merge
        (forwardedAfter results incoming level step rank)
        (forwardedAfter results incoming level step (rank ^^^ 2 ^ bit))
    else forwardedAfter results incoming level step rank

/-- The elements of `tmp_results` and of `tmp_recvbuf` at the end of a level. -/
def combinedAfter
    (results incoming : Nat → Nat → Cell)
    (level rank : Nat) : (Nat → Cell) × (Nat → Cell) :=
  let blocks := shape.outside level (otherRoot level rank)
  let tmp := shape.forwardedAfter results incoming level level rank
  if shape.receivedAfter level rank level then
    if otherRoot level rank < blockStart rank level then
      (blocks.merge (results rank) fun index =>
        uop (tmp index) (results rank index), tmp)
    else
      let combined := blocks.merge tmp fun index =>
        uop (results rank index) (tmp index)
      (blocks.merge (results rank) combined, combined)
  else (results rank, tmp)

variable (contents : Contents Cell)

/-- The elements of `tmp_results` and of `tmp_recvbuf` at a level. -/
def stateAt : Nat → Nat → (Nat → Cell) × (Nat → Cell)
  | 0, rank => (contents.input rank, contents.garbage rank)
  | level + 1, rank =>
    shape.combinedAfter uop
      (fun other => (stateAt level other).1)
      (fun other => (stateAt level other).2) level rank

/-- The elements of `tmp_results` at a level. -/
def doubledAt (level rank : Nat) : Nat → Cell :=
  (shape.stateAt uop contents level rank).1

/-- The elements of `tmp_recvbuf` at a level after some steps. -/
def forwardedAt (level step rank : Nat) : Nat → Cell :=
  shape.forwardedAfter (shape.doubledAt uop contents level)
    (fun other => (shape.stateAt uop contents level other).2) level step rank

end Shape

/-- The rounds of the recursive doubling. -/
inductive DoublingLabel
  /-- The ranks of two subtrees exchange data. -/
  | exchange (level : Nat)
  /-- Ranks forward data within their subtree. -/
  | forward (level step : Nat)

/-- The communications of a rank in a round of the recursive doubling. -/
def Shape.doublingRound
    (shape : Shape)
    (uop : Cell → Cell → Cell)
    (contents : Contents Cell)
    (rank : Nat) : DoublingLabel → Round Nat (List Cell)
  | .exchange level =>
    let dst := rank ^^^ 2 ^ level
    { sends := messageIf (rank < shape.commSize ∧ dst < shape.commSize) dst
        ((shape.outside level (blockStart rank level)).packed
          (shape.doubledAt uop contents level rank))
      recvs := messageIf (rank < shape.commSize ∧ dst < shape.commSize) dst
        ((shape.outside level (otherRoot level rank)).packed
          (shape.doubledAt uop contents level dst)) }
  | .forward level step =>
    let bit := level - (step + 1)
    let dst := rank ^^^ 2 ^ bit
    { sends := messageIf
        (rank < shape.commSize ∧ shape.SendsAt level bit rank) dst
        ((shape.outside level (otherRoot level rank)).packed
          (shape.forwardedAt uop contents level step rank))
      recvs := messageIf
        (rank < shape.commSize ∧ shape.ReceivesAt level bit rank) dst
        ((shape.outside level (otherRoot level rank)).packed
          (shape.forwardedAt uop contents level step dst)) }

/-- The rounds of one level. -/
def levelSchedule (level : Nat) : List DoublingLabel :=
  .exchange level :: (List.range level).map (.forward level)

/-- The rounds in their order. -/
def Shape.doublingSchedule (shape : Shape) : List DoublingLabel :=
  (List.range shape.depth).flatMap levelSchedule

variable {shape : Shape}

/-- The ranks of one half of a subtree have the same other subtree. -/
theorem otherRoot_xor_mask
    {bit level : Nat}
    (lower : bit < level)
    (rank : Nat) :
    otherRoot level (rank ^^^ 2 ^ bit) = otherRoot level rank := by
  unfold otherRoot
  rw [Nat.xor_right_comm, blockStart_xor_mask_of_lt lower]

/-- The other subtree of the partner is the own subtree. -/
theorem otherRoot_partner (level rank : Nat) :
    otherRoot level (rank ^^^ 2 ^ level) = blockStart rank level := by
  rw [otherRoot, xor_mask_xor_mask]

/-- Where the other subtree is not complete, it is the right one. -/
theorem Shape.Forwards.otherRoot_eq
    {level rank : Nat}
    (forwards : shape.Forwards level rank)
    (inComm : rank < shape.commSize) :
    otherRoot level rank = blockStart rank level + 2 ^ level := by
  have own := blockStart_succ rank level
  have other := blockStart_xor_mask_self rank level
  have below := blockStart_le rank level
  unfold Shape.Forwards otherRoot at *
  by_cases set : BitSet rank level
  · rw [if_pos set] at own other
    omega
  · rw [if_neg set] at own other
    omega

/-- A rank that forwards data does so within the communicator. -/
theorem Shape.SendsAt.partner_lt
    {level bit rank : Nat}
    (sends : shape.SendsAt level bit rank)
    (lower : bit < level) :
    rank ^^^ 2 ^ bit < shape.commSize := by
  have inBlock := lt_blockStart_add (rank ^^^ 2 ^ bit) level
  rw [blockStart_xor_mask_of_lt lower] at inBlock
  have some := (Nat.zero_le _).trans_lt sends.2.2.1
  unfold Shape.completed at some
  omega

section

variable
    {bit level : Nat}
    (lower : bit < level)
    (rank : Nat)

include lower rank

theorem Shape.completed_xor_mask :
    shape.completed level (rank ^^^ 2 ^ bit) = shape.completed level rank := by
  unfold Shape.completed
  rw [blockStart_xor_mask_of_lt lower]

/-- What one rank forwards another one receives. -/
theorem Shape.receivesAt_xor_mask :
    shape.ReceivesAt level bit (rank ^^^ 2 ^ bit) ↔ shape.SendsAt level bit rank := by
  unfold Shape.ReceivesAt Shape.SendsAt Shape.Forwards
  rw [otherRoot_xor_mask lower, bitSet_xor_mask, xor_mask_mod, Shape.completed_xor_mask lower]

theorem Shape.sendsAt_xor_mask :
    shape.SendsAt level bit (rank ^^^ 2 ^ bit) ↔ shape.ReceivesAt level bit rank := by
  rw [← Shape.receivesAt_xor_mask lower, xor_mask_xor_mask]

end

end Mpich.Coll.ReduceScatter
