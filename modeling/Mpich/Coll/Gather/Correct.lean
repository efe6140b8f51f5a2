import Mpich.Coll.Gather.EarlyReturn

/-!
# When a gather is correct

A rank that combines its messages in its temporary buffer sends the blocks of
its subtree in order. With long blocks every child's message is stored at the
start of that buffer, so that a rank with more than one child loses data. The
first such rank is the one at position 4, in communicators of seven ranks or
more: there the block at position 6 overwrites the one at position 5.
-/

namespace Mpich.Coll.Gather

open MessagePassing Masks List Option Buffer

section

variable {Cell : Type} {shape : Shape} {contents : Contents Cell} {nbytes : Nat}

/-- The cells that the root is to receive, counted from its own block. -/
def Shape.streamAt
    (shape : Shape)
    (contents : Contents Cell)
    (nbytes index : Nat) : Option Cell :=
  (shape.block contents nbytes
    (absolute shape.commSize shape.root (index / nbytes)))[index % nbytes]?

variable {position : Nat}

theorem Shape.streamAt_block
    {index : Nat}
    (inside : index < nbytes) :
    shape.streamAt contents nbytes (position * nbytes + index) =
      (shape.block contents nbytes (absolute shape.commSize shape.root position))[index]? := by
  have positive : 0 < nbytes := by omega
  unfold Shape.streamAt
  rw [mul_comm position, Nat.mul_add_div positive, Nat.mul_add_mod,
    Nat.div_eq_of_lt inside, Nat.mod_eq_of_lt inside, add_zero]

variable (matching : shape.Matches nbytes)

include matching in
theorem Shape.Matches.block_of_pos
    (contents : Contents Cell)
    (inComm : position < shape.commSize)
    (notRoot : position ≠ 0) :
    shape.block contents nbytes (absolute shape.commSize shape.root position) =
      (shape.at contents position).sendbuf := by
  rw [Shape.block, if_neg fun isRoot => matching.absolute_ne_root inComm notRoot isRoot.1]
  rfl

include matching in
theorem Shape.Matches.block_length
    (holds : shape.Holds contents nbytes)
    {rank : Nat}
    (inComm : rank < shape.commSize) :
    (shape.block contents nbytes rank).length = nbytes := by
  unfold Shape.block
  by_cases isPlace : rank = shape.root ∧ shape.inPlace = true
  · obtain ⟨rfl, inPlace⟩ := isPlace
    have room := Nat.mul_le_mul_right nbytes matching.root_lt
    rw [Nat.succ_mul, ← holds.recvbuf] at room
    rw [if_pos ⟨rfl, inPlace⟩, Buffer.length_range room]
  · rw [if_neg isPlace]
    apply holds.sendbuf rank inComm
    by_cases isRoot : rank = shape.root
    · right
      simpa using fun inPlace => isPlace ⟨isRoot, inPlace⟩
    · exact Or.inl isRoot

/-- A message has the blocks of the sender's subtree, in order. -/
def Shape.Delivers
    (shape : Shape)
    (contents : Contents Cell)
    (nbytes round position : Nat) : Prop :=
  ∀ index < held shape.commSize round position * nbytes,
    (shape.messageAt contents round position)[index]? =
      shape.streamAt contents nbytes (position * nbytes + index)

section

variable
    (matching : shape.Matches nbytes)
    (holds : shape.Holds contents nbytes)
    (short : nbytes < gatherVsmallMsg)
    {round position : Nat}
    (inComm : position < shape.commSize)
    (notRoot : position ≠ 0)
    (multiple : position % 2 ^ round = 0)

include matching holds short inComm notRoot multiple

/-- With short blocks the temporary buffer has the blocks of the subtree. -/
theorem Shape.Matches.tmpBuf_of_short :
    ∀ index < held shape.commSize round position * nbytes,
      (shape.nodeAt contents round position).tmpBuf[index]? =
        shape.streamAt contents nbytes (position * nbytes + index) := by
  induction round generalizing position with
  | zero =>
    intro index inside
    rw [held_eq_pow (by rw [pow_zero]; omega), pow_zero, one_mul]
      at inside
    obtain ⟨node, started, -, copied⟩ :=
      matching.start_of_pos holds inComm notRoot
    rw [Shape.nodeAt, started, getD_some, copied short index inside,
      Shape.streamAt_block inside, matching.block_of_pos contents inComm notRoot]
  | succ round ih =>
    have before := mod_of_mod_succ multiple
    have ownCells := ih inComm notRoot before
    by_cases within : position + 2 ^ round < shape.commSize
    · have clear := (bitSet_of_mod before).mp multiple
      have childMultiple := (child_spec before clear).1
      have childNotRoot : position + 2 ^ round ≠ 0 := by omega
      have sized := matching.sized_nodeAt holds inComm notRoot before
      have childSized :=
        matching.sized_nodeAt holds within childNotRoot childMultiple
      have childCells := ih within childNotRoot childMultiple
      obtain ⟨msg, sent, length, cells⟩ := matching.outgoing_of_short holds
        short within childNotRoot childMultiple childSized
      have message : shape.messageAt contents round (position + 2 ^ round) = msg := by
        rw [Shape.messageAt, sent, getD_some]
      obtain ⟨fits, next, absorbed, -, tmpBuf⟩ :=
        matching.absorb_of_pos notRoot multiple within sized length
      rw [offsetAt, if_pos short] at fits tmpBuf
      rw [← message] at absorbed
      rw [Shape.nodeAt_succ_of_absorb multiple within absorbed, tmpBuf,
        held_succ_of_lt within, add_mul]
      rw [held_eq_pow within.le] at ownCells
      intro index inside
      rw [getElem?_overwrite fits]
      by_cases old : index < 2 ^ round * nbytes
      · rw [if_neg (by omega), ownCells index old]
      · rw [if_pos (by omega), cells _ (by omega), childCells _ (by omega), add_mul]
        congr 1
        omega
    · rw [Shape.nodeAt_succ_of_idle fun receives => within receives.2, held_succ_of_le (by omega)]
      exact ownCells

theorem Shape.Matches.delivers_of_short :
    shape.Delivers contents nbytes round position := by
  intro index inside
  obtain ⟨msg, sent, -, cells⟩ := matching.outgoing_of_short holds short inComm
    notRoot multiple (matching.sized_nodeAt holds inComm notRoot multiple)
  rw [Shape.messageAt, sent, getD_some, cells index inside]
  exact matching.tmpBuf_of_short holds short inComm notRoot multiple index inside

end

include matching in
/-- A long message starts with the sender's own block, and goes on with its
temporary buffer. -/
theorem Shape.Matches.getElem?_messageAt_of_long
    (holds : shape.Holds contents nbytes)
    (long : ¬ nbytes < gatherVsmallMsg)
    {round : Nat}
    (inComm : position < shape.commSize)
    (notRoot : position ≠ 0)
    (multiple : position % 2 ^ round = 0)
    {index : Nat}
    (inside : index < held shape.commSize round position * nbytes) :
    (shape.messageAt contents round position)[index]? = if index < nbytes then
        (shape.block contents nbytes (absolute shape.commSize shape.root position))[index]?
      else (shape.nodeAt contents round position).tmpBuf[index - nbytes]? := by
  obtain ⟨msg, sent, -, cells⟩ := matching.outgoing_of_long holds long inComm
    notRoot multiple (matching.sized_nodeAt holds inComm notRoot multiple)
  have length := matching.block_length holds (absolute_lt matching.root_lt position)
  rw [Shape.messageAt, sent, getD_some, cells, ← matching.block_of_pos contents inComm notRoot]
  by_cases own : index < nbytes
  · rw [if_pos own, getElem?_append_left (by omega)]
  · rw [if_neg own, getElem?_append_right (by omega), length, getElem?_take, if_pos (by omega)]

/-- In a communicator of at most six ranks no rank but the root has two
children. -/
theorem only_child
    {commSize round : Nat}
    (small : commSize ≤ 6)
    (notRoot : position ≠ 0)
    (multiple : position % 2 ^ (round + 1) = 0)
    (within : position + 2 ^ round < commSize) :
    round = 0 := by
  have atLeast : 2 ^ (round + 1) ≤ position := by
    by_contra less
    rw [Nat.mod_eq_of_lt (by omega)] at multiple
    exact notRoot multiple
  by_contra later
  have := Nat.pow_le_pow_right two_pos (pos_of_ne_zero later)
  omega

section

variable
    (matching : shape.Matches nbytes)
    (holds : shape.Holds contents nbytes)
    (long : ¬ nbytes < gatherVsmallMsg)
    (few : shape.commSize ≤ 6)
    {round position : Nat}
    (inComm : position < shape.commSize)
    (notRoot : position ≠ 0)
    (multiple : position % 2 ^ round = 0)

include matching holds long few inComm notRoot multiple

/-- With few ranks the temporary buffer has the blocks behind the rank's own. -/
theorem Shape.Matches.tmpBuf_of_few :
    ∀ index, nbytes + index < held shape.commSize round position * nbytes →
      (shape.nodeAt contents round position).tmpBuf[index]? =
        shape.streamAt contents nbytes ((position + 1) * nbytes + index) := by
  induction round generalizing position with
  | zero =>
    intro index inside
    rw [held_eq_pow (by rw [pow_zero]; omega), pow_zero, one_mul]
      at inside
    omega
  | succ round ih =>
    have before := mod_of_mod_succ multiple
    by_cases within : position + 2 ^ round < shape.commSize
    · obtain rfl := only_child few notRoot multiple within
      have clear := (bitSet_of_mod before).mp multiple
      have childMultiple := (child_spec before clear).1
      have childNotRoot : position + 2 ^ 0 ≠ 0 := by omega
      have sized := matching.sized_nodeAt holds inComm notRoot before
      obtain ⟨-, length⟩ :=
        matching.messageAt_spec holds within childNotRoot childMultiple
      obtain ⟨fits, next, absorbed, -, tmpBuf⟩ :=
        matching.absorb_of_pos notRoot multiple within sized length
      rw [offsetAt, if_neg long] at fits tmpBuf
      rw [Shape.nodeAt_succ_of_absorb multiple within absorbed, tmpBuf, held_succ_of_lt within]
      have one : held shape.commSize 0 (position + 2 ^ 0) = 1 := by
        rw [held_eq_pow (by simp only [pow_zero] at within ⊢; omega), pow_zero]
      rw [one]
      intro index inside
      have own : index < nbytes := by omega
      rw [getElem?_overwrite fits, if_pos (by rw [length, one]; omega),
        Nat.sub_zero, matching.getElem?_messageAt_of_long holds long within childNotRoot
          childMultiple (by rw [one]; omega),
        if_pos own, Shape.streamAt_block own, pow_zero]
    · rw [Shape.nodeAt_succ_of_idle fun receives => within receives.2, held_succ_of_le (by omega)]
      exact ih inComm notRoot before

theorem Shape.Matches.delivers_of_few :
    shape.Delivers contents nbytes round position := by
  intro index inside
  rw [matching.getElem?_messageAt_of_long holds long inComm notRoot multiple inside]
  by_cases own : index < nbytes
  · rw [if_pos own, Shape.streamAt_block own]
  · rw [if_neg own, matching.tmpBuf_of_few holds long few inComm notRoot multiple _ (by omega),
      Nat.succ_mul]
    congr 1
    omega

end

/-- The cell of a rank's block in the receive buffer. -/
theorem absolute_cell
    {commSize root index : Nat}
    (rootInComm : root < commSize)
    (inComm : position < commSize)
    (inside : index < nbytes) :
    absolute (commSize * nbytes) (root * nbytes) (position * nbytes + index) =
      absolute commSize root position * nbytes + index := by
  have rootCell : root * nbytes < commSize * nbytes :=
    Nat.mul_lt_mul_of_pos_right rootInComm (by omega)
  have room := Nat.mul_le_mul_right nbytes inComm
  rw [Nat.succ_mul] at room
  rw [absolute_eq_ite rootCell (by omega), absolute_eq_ite rootInComm inComm]
  by_cases below : position + root < commSize
  · have roomBelow := Nat.mul_le_mul_right nbytes below
    rw [Nat.succ_mul, add_mul] at roomBelow
    rw [if_pos below, if_pos (by omega), add_mul]
    omega
  · have roomAbove := Nat.mul_le_mul_right nbytes (not_lt.mp below)
    rw [add_mul] at roomAbove
    rw [if_neg below, if_neg (by omega), Nat.sub_mul, add_mul]
    omega

section

variable
    (matching : shape.Matches nbytes)

include matching

/-- Where all messages are in order, the receive buffer of the root is. -/
theorem Shape.Matches.outAt_of_delivers
    (holds : shape.Holds contents nbytes)
    (delivers : ∀ round, 2 ^ round < shape.commSize →
      shape.Delivers contents nbytes round (2 ^ round))
    {index : Nat}
    (inComm : position < shape.commSize)
    (inside : index < nbytes) :
    (shape.outAt contents 0)[
        absolute shape.commSize shape.root position * nbytes + index]? =
      (shape.block contents nbytes (absolute shape.commSize shape.root position))[index]? := by
  obtain ⟨-, own, received⟩ := matching.outAt_root holds
  rw [← absolute_cell matching.root_lt inComm inside]
  by_cases isRoot : position = 0
  · subst isRoot
    rw [zero_mul, zero_add, matching.absolute_zero]
    exact own index inside
  · -- The highest bit of the position tells the round of its message.
    have low := Nat.pow_log_le_self 2 isRoot
    have high := Nat.lt_pow_succ_log_self Nat.one_lt_two position
    generalize Nat.log 2 position = round at low high
    have within := low.trans_lt inComm
    have cellsBefore := Nat.mul_le_mul_right nbytes low
    have chosen : position * nbytes + index - 2 ^ round * nbytes <
        held shape.commSize round (2 ^ round) * nbytes := by
      have beyond : position + 1 ≤ 2 ^ round + held shape.commSize round (2 ^ round) := by
        unfold held
        omega
      have cells := Nat.mul_le_mul_right nbytes beyond
      rw [Nat.succ_mul, add_mul] at cells
      omega
    have split : position * nbytes + index = 2 ^ round * nbytes +
        (position * nbytes + index - 2 ^ round * nbytes) := by
      omega
    rw [split, received round within _ chosen, delivers round within _ chosen,
      ← split, Shape.streamAt_block inside]

/-- Where all messages are in order, the gather is correct. -/
theorem Shape.Matches.gathers_of_delivers
    (holds : shape.Holds contents nbytes)
    (stays : ∀ rank < shape.commSize, ¬ shape.ReturnsEarly rank)
    (delivers : ∀ round, 2 ^ round < shape.commSize →
      shape.Delivers contents nbytes round (2 ^ round)) :
    shape.Gathers contents nbytes := by
  have rootLt := matching.root_lt
  refine ⟨_, matching.completes holds fun rank inComm early =>
    stays rank inComm ((Shape.returnsEarly_call rank).mp early), ?_, ?_⟩
  · simp only [if_pos rootLt, relative_root]
    exact (matching.outAt_root holds).1
  · intro rank inComm
    simp only [if_pos rootLt, relative_root]
    have room := Nat.mul_le_mul_right nbytes inComm
    rw [Nat.succ_mul, ← (matching.outAt_root holds).1] at room
    rw [load_of_le room]
    congr 1
    apply ext_getElem?
    intro index
    rw [Buffer.getElem?_range]
    by_cases inside : index < nbytes
    · have cell := matching.outAt_of_delivers holds delivers (relative_lt rootLt inComm) inside
      rw [absolute_relative rootLt inComm] at cell
      rw [if_pos inside, cell]
    · rw [if_neg inside, eq_comm, List.getElem?_eq_none_iff, matching.block_length holds inComm]
      omega

/-- Where blocks are not empty, no process returns early. -/
theorem Shape.Matches.stays_of_pos
    (positive : 0 < nbytes)
    {rank : Nat}
    (inComm : rank < shape.commSize) :
    ¬ shape.ReturnsEarly rank := by
  rintro (⟨-, noCount⟩ | ⟨notRoot, noCount⟩)
  · have size := matching.recv_eq
    rw [noCount, mul_zero] at size
    omega
  · have size := matching.send_eq rank inComm (Or.inl notRoot)
    rw [noCount, mul_zero] at size
    omega

/-- Where all processes return early, the blocks are empty and there is nothing
to gather. -/
theorem Shape.Matches.gathers_of_early
    (holds : shape.Holds contents nbytes)
    (early : ∀ rank < shape.commSize, shape.ReturnsEarly rank) :
    shape.Gathers contents nbytes := by
  have rootLt := matching.root_lt
  have empty : nbytes = 0 := by
    by_contra positive
    exact matching.stays_of_pos (by omega) rootLt (early _ rootLt)
  refine ⟨_, Shape.completes_of_early early, ?_, ?_⟩
  · rw [if_pos rootLt]
    exact holds.recvbuf
  · intro rank inComm
    have noBlock := matching.block_length holds inComm
    rw [empty, length_eq_zero_iff] at noBlock
    rw [empty, noBlock, load_of_le (by omega), take_zero]

end

/-- Memory in which only the block at position 6 is not all zeros. -/
def Shape.oneBlock (shape : Shape) (nbytes : Nat) : Contents UInt8 where
  sendbuf := fun rank =>
    replicate nbytes (if rank = absolute shape.commSize shape.root 6 then 1 else 0)
  recvbuf := fun _ => replicate (shape.commSize * nbytes) 0
  garbage := fun _ _ => 0

theorem Shape.oneBlock_holds : shape.Holds (shape.oneBlock nbytes) nbytes where
  sendbuf := fun _ _ _ => length_replicate
  recvbuf := length_replicate

include matching in
/-- The message of the rank at position 4 has, behind its own block, the block
at position 6. -/
theorem Shape.Matches.lost_block
    (holds : shape.Holds contents nbytes)
    (long : ¬ nbytes < gatherVsmallMsg)
    (many : 7 ≤ shape.commSize) :
    (shape.messageAt contents 2 4)[nbytes]? = (shape.block contents nbytes
        (absolute shape.commSize shape.root 6))[0]? := by
  have positive : 0 < nbytes := by
    rw [gatherVsmallMsg] at long
    omega
  have fromSix : 0 < held shape.commSize 1 6 * nbytes := mul_pos (held_pos (by omega)) positive
  have fromFour : nbytes < held shape.commSize 2 4 * nbytes := by
    have two : 2 ≤ held shape.commSize 2 4 := by
      unfold held
      omega
    have := Nat.mul_le_mul_right nbytes two
    omega
  have sized : shape.Sized contents nbytes 1 4 (shape.nodeAt contents 1 4) :=
    matching.sized_nodeAt holds (by omega) (by omega) (by decide)
  have length : (shape.messageAt contents 1 (4 + 2 ^ 1)).length =
      held shape.commSize 1 (4 + 2 ^ 1) * nbytes :=
    (matching.messageAt_spec holds (by omega) (by omega) (by decide)).2
  obtain ⟨fits, next, absorbed, -, tmpBuf⟩ := matching.absorb_of_pos
    (by omega) (by decide) (by omega) sized length
  have six : 4 + 2 ^ 1 = 6 := rfl
  rw [offsetAt, if_neg long, six] at fits tmpBuf
  rw [six] at length
  rw [matching.getElem?_messageAt_of_long holds long (by omega) (by omega)
      (by decide) fromFour, if_neg (lt_irrefl _), Nat.sub_self,
    Shape.nodeAt_succ_of_absorb (by decide) (by omega) absorbed, tmpBuf,
    getElem?_overwrite fits, if_pos (by omega), Nat.sub_zero,
    matching.getElem?_messageAt_of_long holds long (by omega) (by omega)
      (by decide) fromSix, if_pos positive]

include matching in
/-- With long blocks and seven ranks or more the root does not have the block at
position 5. -/
theorem Shape.Matches.not_gathers
    (long : ¬ nbytes < gatherVsmallMsg)
    (many : 7 ≤ shape.commSize) :
    ¬ shape.Gathers (shape.oneBlock nbytes) nbytes := by
  rintro ⟨out, completes, length, blocks⟩
  have rootLt := matching.root_lt
  have holds := @Shape.oneBlock_holds shape nbytes
  have positive : 0 < nbytes := by
    rw [gatherVsmallMsg] at long
    omega
  have computed := matching.completes holds fun rank inComm early =>
    matching.stays_of_pos positive inComm
      ((Shape.returnsEarly_call rank).mp early)
  have outEq : out shape.root = shape.outAt (shape.oneBlock nbytes) 0 := by
    rw [completes.unique computed]
    simp only [if_pos rootLt, relative_root]
  have blockAt : ∀ position, position ≠ 0 → position < shape.commSize →
      (shape.block (shape.oneBlock nbytes) nbytes
        (absolute shape.commSize shape.root position))[0]? =
          some (if position = 6 then 1 else 0) := by
    intro position notRoot inComm
    rw [matching.block_of_pos _ inComm notRoot]
    change (replicate nbytes _)[0]? = _
    rw [getElem?_replicate, if_pos positive]
    by_cases six : position = 6
    · rw [six, if_pos rfl, if_pos rfl]
    · rw [if_neg six, if_neg]
      intro same
      apply six
      rw [← relative_absolute rootLt inComm, same, relative_absolute rootLt (by omega)]
  have expected := blocks _ (absolute_lt rootLt 5)
  have room := Nat.mul_le_mul_right nbytes (absolute_lt rootLt 5)
  rw [Nat.succ_mul, ← length] at room
  rw [load_of_le room] at expected
  have zero : (out shape.root)[absolute shape.commSize shape.root 5 * nbytes]? = some 0 := by
    have first := blockAt 5 (by omega) (by omega)
    rwa [← Option.some.inj expected, Buffer.getElem?_range, if_pos positive, add_zero] at first
  have fromFour : nbytes < held shape.commSize 2 (2 ^ 2) * nbytes := by
    have two : 2 ≤ held shape.commSize 2 (2 ^ 2) := by
      unfold held
      omega
    have := Nat.mul_le_mul_right nbytes two
    omega
  have received := (matching.outAt_root holds).2.2 2 (by omega) nbytes fromFour
  have four : 2 ^ 2 = 4 := rfl
  have cell := absolute_cell rootLt (by omega : 5 < shape.commSize) positive
  have place : 4 * nbytes + nbytes = 5 * nbytes + 0 := by omega
  rw [four, place, cell, ← outEq, add_zero, zero,
    matching.lost_block holds long many, blockAt 6 (by omega) (by omega)] at received
  exact absurd received (by decide)

end

/-- Ranks that each contribute some bytes, with rank 0 as the root. -/
def bytesFrom (commSize nbytes : Nat) : Shape where
  commSize := commSize
  root := 0
  sendcnt := fun _ => nbytes
  sendtypeSize := fun _ => 1
  recvcnt := fun _ => nbytes
  recvtypeSize := fun _ => 1
  inPlace := false

theorem bytesFrom_matches
    {commSize : Nat}
    (inComm : 0 < commSize)
    (nbytes : Nat) :
    (bytesFrom commSize nbytes).Matches nbytes where
  root_lt := inComm
  recv_eq := one_mul nbytes
  send_eq := fun _ _ _ => one_mul nbytes

end Mpich.Coll.Gather
