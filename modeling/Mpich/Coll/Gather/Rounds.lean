import Mpich.Coll.Gather.Defs

/-!
# The rounds of a gather

What each rank holds after a number of rounds, as its own code computes it from
the messages that the others' code computes. Every message has the size that its
receiver expects, and every access to a buffer stays within it, so all
interleavings of the processes complete. This holds whatever the size of the
blocks; what arrives is the concern of the next module.
-/

namespace Mpich.Coll.Gather

open MessagePassing Masks List Buffer

section

variable {Cell : Type} {shape : Shape} {contents : Contents Cell} {nbytes : Nat}

/-- The call of the rank at a position relative to the root. -/
def Shape.at
    (shape : Shape)
    (contents : Contents Cell)
    (position : Nat) : Call Cell :=
  shape.call contents (absolute shape.commSize shape.root position)

section

variable
    (matching : shape.Matches nbytes)

include matching

theorem Shape.Matches.call_nbytes
    {rank : Nat}
    (inComm : rank < shape.commSize) :
    (shape.call contents rank).nbytes = nbytes := by
  unfold Call.nbytes Shape.call
  by_cases isRoot : rank = shape.root
  · rw [if_pos isRoot, isRoot]
    exact matching.recv_eq
  · rw [if_neg isRoot]
    exact matching.send_eq rank inComm (Or.inl isRoot)

theorem Shape.Matches.at_nbytes (position : Nat) :
    (shape.at contents position).nbytes = nbytes :=
  matching.call_nbytes (absolute_lt matching.root_lt position)

section

variable
    {position : Nat}
    (inComm : position < shape.commSize)

include inComm

theorem Shape.Matches.at_relativeRank :
    (shape.at contents position).relativeRank = position :=
  relative_absolute matching.root_lt inComm

theorem Shape.Matches.absolute_ne_root (notRoot : position ≠ 0) :
    absolute shape.commSize shape.root position ≠ shape.root := by
  intro isRoot
  have back := relative_absolute matching.root_lt inComm
  rw [isRoot, relative_root] at back
  exact notRoot back.symm

/-- The call at a position other than 0 is not the root's. -/
theorem Shape.Matches.at_ne_root (notRoot : position ≠ 0) :
    (shape.at contents position).rank ≠ (shape.at contents position).root :=
  matching.absolute_ne_root inComm notRoot

end

theorem Shape.Matches.absolute_zero :
    absolute shape.commSize shape.root 0 = shape.root := by
  rw [absolute_of_lt (by have := matching.root_lt; omega), zero_add]

theorem Shape.Matches.at_zero_rank :
    (shape.at contents 0).rank = shape.root :=
  matching.absolute_zero

theorem Shape.Matches.at_zero_isRoot :
    (shape.at contents 0).rank = (shape.at contents 0).root :=
  matching.absolute_zero

variable {position : Nat}

theorem Shape.Matches.tmpBufSize_of_pos
    (contents : Contents Cell)
    (inComm : position < shape.commSize)
    (notRoot : position ≠ 0) :
    (shape.at contents position).tmpBufSize = (tmpBlocks shape.commSize position +
        if nbytes < gatherVsmallMsg then 1 else 0) * nbytes := by
  unfold Call.tmpBufSize
  simp only [matching.at_nbytes, matching.at_relativeRank inComm]
  rw [if_neg fun isRoot => matching.absolute_ne_root inComm notRoot isRoot.1]
  rfl

theorem Shape.Matches.tmpBufSize_zero
    (short : nbytes < gatherVsmallMsg)
    (elsewhere : shape.root ≠ 0) :
    (shape.at contents 0).tmpBufSize = (tmpBlocks shape.commSize 0 + 1) * nbytes := by
  have inComm : 0 < shape.commSize := by
    have := matching.root_lt
    omega
  unfold Call.tmpBufSize
  simp only [matching.at_nbytes, matching.at_relativeRank inComm, if_pos short]
  rw [if_neg]
  · rfl
  · rintro ⟨-, isZero | long⟩
    · exact elsewhere isZero
    · omega

variable {round : Nat}

/-- The child in a round is the rank a mask further from the root. -/
theorem Shape.Matches.at_child
    (inComm : position < shape.commSize)
    (clear : ¬ BitSet position round) :
    (shape.at contents position).child (2 ^ round) =
      absolute shape.commSize shape.root (position + 2 ^ round) := by
  unfold Call.child
  rw [matching.at_relativeRank inComm, or_mask clear]
  rfl

theorem Shape.Matches.at_intermediateRecvblks
    (clear : ¬ BitSet position round)
    (within : position + 2 ^ round < shape.commSize) :
    (shape.at contents position).intermediateRecvblks (2 ^ round) =
      held shape.commSize round (position + 2 ^ round) := by
  have inComm : position < shape.commSize := (Nat.le_add_right _ _).trans_lt within
  unfold Call.intermediateRecvblks
  rw [matching.at_child inComm clear]
  have back : (shape.at contents position).relativeTo
      (absolute shape.commSize shape.root (position + 2 ^ round)) = position + 2 ^ round :=
    relative_absolute matching.root_lt within
  change (if shape.commSize < _ then _ - (_ - shape.commSize) else _) = _
  unfold held
  split <;> omega

end

variable {round : Nat}

theorem Shape.at_rootRecvblks
    (within : 2 ^ round < shape.commSize) :
    (shape.at contents 0).rootRecvblks (2 ^ round) = held shape.commSize round (2 ^ round) := by
  change (if shape.commSize < 2 * 2 ^ round then shape.commSize - 2 ^ round
    else 2 ^ round) = _
  unfold held
  split <;> omega

/-- The data of the child in a round goes beyond the end of the root's receive
buffer, and goes on at its start. -/
def Shape.Wraps (shape : Shape) (round : Nat) : Prop :=
  shape.root + 2 ^ round < shape.commSize ∧ shape.commSize <
      shape.root + 2 ^ round + held shape.commSize round (2 ^ round)

section

variable (matching : shape.Matches nbytes)

include matching

theorem Shape.Matches.fitsDirectly_iff
    (within : 2 ^ round < shape.commSize) :
    (shape.at contents 0).FitsDirectly (2 ^ round) ↔ ¬ shape.Wraps round := by
  have rootLt := matching.root_lt
  have heldPos := @held_pos _ round _ within
  have heldLe := @add_held_le _ round _ within
  unfold Call.FitsDirectly Shape.Wraps
  rw [Shape.at_rootRecvblks within, matching.at_zero_rank]
  change (_ = shape.commSize ∨ _ % shape.commSize < _ % shape.commSize) ↔ _
  generalize held shape.commSize round (2 ^ round) = blocks at *
  generalize 2 ^ round = mask at *
  generalize shape.commSize = size at *
  rcases lt_or_ge (shape.root + mask) size with before | beyond
  · rw [Nat.mod_eq_of_lt before]
    rcases lt_trichotomy (shape.root + mask + blocks) size with
      inside | exactly | outside
    · rw [Nat.mod_eq_of_lt inside]
      omega
    · simp only [exactly, true_or, true_iff]
      omega
    · rw [Nat.mod_eq_sub_mod outside.le, Nat.mod_eq_of_lt (by omega)]
      omega
  · rw [Nat.mod_eq_sub_mod beyond, Nat.mod_eq_of_lt (by omega),
      Nat.mod_eq_sub_mod (by omega), Nat.mod_eq_of_lt (by omega)]
    omega

omit matching in
/-- At most one child's data wraps around. -/
theorem Shape.Wraps.unique
    {earlier later : Nat}
    (first : shape.Wraps earlier)
    (second : shape.Wraps later) :
    ¬ earlier < later := by
  intro order
  have := Nat.pow_le_pow_right two_pos order
  have := @held_le_pow shape.commSize earlier (2 ^ earlier)
  unfold Shape.Wraps at first second
  omega

/-- The root's own type arguments name the same number of bytes. -/
theorem Shape.Matches.root_cells
    (contents : Contents Cell)
    (blocks : Nat) :
    blocks * (shape.at contents 0).recvcnt * (shape.at contents 0).recvtypeSize =
      blocks * nbytes := by
  rw [← matching.recv_eq, mul_assoc, mul_comm (Call.recvcnt _)]
  change blocks * (shape.recvtypeSize (absolute _ _ 0) * shape.recvcnt (absolute _ _ 0)) = _
  rw [matching.absolute_zero]

variable {position : Nat}

/-- A rank has room for the message of its child. -/
theorem Shape.Matches.at_capacity
    (clear : ¬ BitSet position round)
    (within : position + 2 ^ round < shape.commSize) :
    (shape.at contents position).capacity (2 ^ round) =
      held shape.commSize round (position + 2 ^ round) * nbytes := by
  by_cases isRoot : position = 0
  · subst isRoot
    rw [zero_add] at within ⊢
    unfold Call.capacity
    rw [if_pos matching.at_zero_isRoot, Shape.at_rootRecvblks within,
      matching.at_nbytes, matching.root_cells contents,
      mul_comm (Call.recvcnt _), matching.root_cells contents, ite_self, ite_self]
  · have inComm := (Nat.le_add_right _ _).trans_lt within
    unfold Call.capacity
    rw [if_neg (matching.at_ne_root inComm isRoot),
      matching.at_intermediateRecvblks clear within, matching.at_nbytes]

/-- The variables of the rank at a position after some rounds, when every
message is what its sender's variables make it. -/
def Shape.nodeAt
    (shape : Shape)
    (contents : Contents Cell) : Nat → Nat → Node Cell
  | 0, position => (shape.at contents position).start.getD ⟨[], [], 0, 0, 0⟩
  | round + 1, position =>
    let node := nodeAt shape contents round position
    if position % 2 ^ (round + 1) = 0 ∧ position + 2 ^ round < shape.commSize then
      let sender := nodeAt shape contents round (position + 2 ^ round)
      let msg := ((shape.at contents (position + 2 ^ round)).outgoing sender).getD []
      ((shape.at contents position).absorb (2 ^ round) node msg).getD node
    else node

/-- The message that the rank at a position sends in a round. -/
def Shape.messageAt
    (shape : Shape)
    (contents : Contents Cell)
    (round position : Nat) : List Cell :=
  ((shape.at contents position).outgoing (shape.nodeAt contents round position)).getD []

variable {round position : Nat}

omit matching in
theorem Shape.nodeAt_succ_of_idle
    (idle : ¬ (position % 2 ^ (round + 1) = 0 ∧ position + 2 ^ round < shape.commSize)) :
    shape.nodeAt contents (round + 1) position = shape.nodeAt contents round position := by
  rw [Shape.nodeAt, if_neg idle]

variable {node : Node Cell}

omit matching in
theorem Shape.nodeAt_succ_of_absorb
    (multiple : position % 2 ^ (round + 1) = 0)
    (within : position + 2 ^ round < shape.commSize)
    (absorbed : (shape.at contents position).absorb (2 ^ round)
      (shape.nodeAt contents round position)
      (shape.messageAt contents round (position + 2 ^ round)) = some node) :
    shape.nodeAt contents (round + 1) position = node := by
  rw [Shape.nodeAt, if_pos ⟨multiple, within⟩]
  change ((shape.at contents position).absorb (2 ^ round)
    (shape.nodeAt contents round position)
    (shape.messageAt contents round (position + 2 ^ round))).getD _ = node
  rw [absorbed, Option.getD_some]

/-- Where a rank other than the root stores the message of a child. -/
def offsetAt (nbytes round : Nat) : Nat :=
  if nbytes < gatherVsmallMsg then 2 ^ round * nbytes else 0

/-- The buffer and the count of a rank other than the root before a round. -/
structure Shape.Sized
    (shape : Shape)
    (contents : Contents Cell)
    (nbytes round position : Nat)
    (node : Node Cell) : Prop where
  tmpBuf : node.tmpBuf.length = (shape.at contents position).tmpBufSize
  currCnt : node.currCnt = held shape.commSize round position * nbytes

/-- A rank that combines its messages in its temporary buffer sends the
beginning of that buffer. -/
theorem Shape.Matches.outgoing_of_short
    (holds : shape.Holds contents nbytes)
    (short : nbytes < gatherVsmallMsg)
    (inComm : position < shape.commSize)
    (notRoot : position ≠ 0)
    (multiple : position % 2 ^ round = 0)
    (sized : shape.Sized contents nbytes round position node) :
    ∃ msg, (shape.at contents position).outgoing node = some msg ∧
      msg.length = held shape.commSize round position * nbytes ∧
      ∀ index < held shape.commSize round position * nbytes, msg[index]? = node.tmpBuf[index]? := by
  have room := Nat.mul_le_mul_right nbytes (held_le_tmpBlocks inComm multiple)
  have bufSize :=
    matching.tmpBufSize_of_pos contents inComm notRoot
  rw [if_pos short] at bufSize
  unfold Call.outgoing
  by_cases empty : (shape.at contents position).tmpBufSize = 0
  · have noBytes : held shape.commSize round position * nbytes = 0 := by omega
    refine ⟨_, if_pos empty, ?_, ?_⟩
    · have sendLength : (shape.at contents position).sendbuf.length = nbytes :=
        holds.sendbuf _ (absolute_lt matching.root_lt position)
          (Or.inl (matching.absolute_ne_root inComm notRoot))
      have := @held_pos _ round _ inComm
      rcases Nat.mul_eq_zero.mp noBytes with none | none <;> omega
    · intro index within
      omega
  · have within : 0 + node.currCnt ≤ node.tmpBuf.length := by
      rw [sized.currCnt, sized.tmpBuf]
      omega
    rw [if_neg empty, matching.at_nbytes, if_pos short, load_of_le within]
    refine ⟨_, rfl, ?_, ?_⟩
    · rw [Buffer.length_range within, sized.currCnt]
    · intro index inside
      rw [Buffer.getElem?_range, sized.currCnt, if_pos inside, zero_add]

/-- A rank with a long block sends its own block, and then the beginning of its
temporary buffer. -/
theorem Shape.Matches.outgoing_of_long
    (holds : shape.Holds contents nbytes)
    (long : ¬ nbytes < gatherVsmallMsg)
    (inComm : position < shape.commSize)
    (notRoot : position ≠ 0)
    (multiple : position % 2 ^ round = 0)
    (sized : shape.Sized contents nbytes round position node) :
    ∃ msg, (shape.at contents position).outgoing node = some msg ∧
      msg.length = held shape.commSize round position * nbytes ∧
      msg = (shape.at contents position).sendbuf ++
        node.tmpBuf.take (held shape.commSize round position * nbytes - nbytes) := by
  have room := Nat.mul_le_mul_right nbytes (held_le_tmpBlocks inComm multiple)
  have own := Nat.mul_le_mul_right nbytes (@held_pos _ round _ inComm)
  have bufSize :=
    matching.tmpBufSize_of_pos contents inComm notRoot
  rw [if_neg long, add_zero] at bufSize
  rw [Nat.succ_mul] at room
  have sendLength : (shape.at contents position).sendbuf.length = nbytes :=
    holds.sendbuf _ (absolute_lt matching.root_lt position)
      (Or.inl (matching.absolute_ne_root inComm notRoot))
  unfold Call.outgoing
  by_cases empty : (shape.at contents position).tmpBufSize = 0
  · refine ⟨_, if_pos empty, ?_, ?_⟩
    · rw [sendLength]
      omega
    · have noBuf : node.tmpBuf = [] := by
        rw [← length_eq_zero_iff, sized.tmpBuf, empty]
      rw [noBuf, take_nil, append_nil]
  · have within : 0 + (node.currCnt - nbytes) ≤ node.tmpBuf.length := by
      rw [sized.currCnt, sized.tmpBuf]
      omega
    rw [if_neg empty, matching.at_nbytes, if_neg long]
    simp only [if_neg long]
    rw [load_of_le within, Option.map_some]
    refine ⟨_, rfl, ?_, ?_⟩
    · rw [length_append, Buffer.length_range within, sendLength, sized.currCnt]
      omega
    · rw [drop_zero, sized.currCnt]

/-- A rank that is not the root stores the message of a child at the offset of
the round. -/
theorem Shape.Matches.absorb_of_pos
    (notRoot : position ≠ 0)
    (multiple : position % 2 ^ (round + 1) = 0)
    (within : position + 2 ^ round < shape.commSize)
    (sized : shape.Sized contents nbytes round position node)
    {msg : List Cell}
    (msgLength : msg.length = held shape.commSize round (position + 2 ^ round) * nbytes) :
    offsetAt nbytes round + msg.length ≤ node.tmpBuf.length ∧
    ∃ next, (shape.at contents position).absorb (2 ^ round) node msg = some next ∧
      shape.Sized contents nbytes (round + 1) position next ∧ next.tmpBuf =
        overwrite node.tmpBuf (offsetAt nbytes round) msg := by
  have inComm := (Nat.le_add_right _ _).trans_lt within
  have clear := (bitSet_of_mod (mod_of_mod_succ multiple)).mp multiple
  have room := Nat.mul_le_mul_right nbytes (held_le_tmpBlocks inComm multiple)
  have bufSize :=
    matching.tmpBufSize_of_pos contents inComm notRoot
  rw [held_succ_of_lt within, add_mul, Nat.succ_mul] at room
  have fits : offsetAt nbytes round + msg.length ≤ node.tmpBuf.length := by
    rw [sized.tmpBuf, bufSize, msgLength, offsetAt, add_mul]
    have := Nat.mul_le_mul_right nbytes (Nat.two_pow_pos round)
    split <;> omega
  refine ⟨fits, ?_⟩
  unfold Call.absorb
  rw [if_neg (matching.at_ne_root inComm notRoot), matching.at_nbytes,
    matching.at_intermediateRecvblks clear within]
  simp only
  rw [← offsetAt, store_of_le fits]
  refine ⟨_, rfl, ⟨?_, ?_⟩, rfl⟩
  · exact (length_overwrite fits).trans sized.tmpBuf
  · rw [sized.currCnt, held_succ_of_lt within, held_eq_pow within.le, add_mul]

end

end

end Mpich.Coll.Gather
