import Mpich.Coll.Gather.Rounds

/-!
# The root of a gather

The receive buffer of the root starts, counted from its own block, with that
block, and goes on with the messages of its children. Most messages are stored
where they belong at once. At most one goes beyond the end of the buffer; a
short one waits in the temporary buffer until the end. `Shape.cellAt` is what the
receive buffer would hold if that message were copied now.
-/

namespace Mpich.Coll.Gather

open Masks List Option Buffer

section

variable {Cell : Type} {size root mask blocks nbytes : Nat}

/-- Blocks that do not go beyond the end of the buffer are written at the block
of their first rank. -/
theorem getElem?_overwrite_direct
    (rootInComm : root < size)
    (inComm : mask + blocks ≤ size)
    (positive : 0 < blocks)
    (direct : ¬ (root + mask < size ∧ size < root + mask + blocks))
    {buffer msg : List Cell}
    (bufferLength : buffer.length = size * nbytes)
    (msgLength : msg.length = blocks * nbytes) :
    absolute size root mask * nbytes + msg.length ≤ buffer.length ∧
    ∀ index < size * nbytes, (overwrite buffer (absolute size root mask * nbytes) msg)[
          absolute (size * nbytes) (root * nbytes) index]? =
        if mask * nbytes ≤ index ∧ index < (mask + blocks) * nbytes then
          msg[index - mask * nbytes]?
        else buffer[absolute (size * nbytes) (root * nbytes) index]? := by
  have first : (absolute size root mask = root + mask ∧ root + mask + blocks ≤ size) ∨
      (absolute size root mask + size = root + mask ∧ size ≤ root + mask) := by
    rw [absolute_eq_ite rootInComm (by omega)]
    split <;> omega
  generalize absolute size root mask = start at first ⊢
  have fits : start * nbytes + msg.length ≤ buffer.length := by
    rw [bufferLength, msgLength, ← add_mul]
    exact Nat.mul_le_mul_right nbytes (by omega)
  refine ⟨fits, ?_⟩
  intro index inside
  have rootCell : root * nbytes < size * nbytes :=
    Nat.mul_lt_mul_of_pos_right rootInComm (by
      rcases Nat.eq_zero_or_pos nbytes with zero | pos
      · simp [zero] at inside
      · exact pos)
  rw [getElem?_overwrite fits, msgLength, absolute_eq_ite rootCell inside]
  have placed : (start * nbytes = root * nbytes + mask * nbytes ∧
        root * nbytes + mask * nbytes + blocks * nbytes ≤ size * nbytes) ∨
      (start * nbytes + size * nbytes = root * nbytes + mask * nbytes ∧
        size * nbytes ≤ root * nbytes + mask * nbytes) := by
    simp only [← add_mul]
    rcases first with ⟨eq, le⟩ | ⟨eq, le⟩
    · exact Or.inl ⟨by rw [eq], Nat.mul_le_mul_right nbytes le⟩
    · exact Or.inr ⟨by rw [eq], Nat.mul_le_mul_right nbytes le⟩
  have room := Nat.mul_le_mul_right nbytes inComm
  rw [add_mul] at room ⊢
  generalize start * nbytes = start at *
  generalize root * nbytes = root at *
  generalize mask * nbytes = mask at *
  generalize blocks * nbytes = blocks at *
  generalize size * nbytes = size at *
  by_cases chosen : mask ≤ index ∧ index < mask + blocks
  · rw [if_pos chosen, if_pos (by split <;> omega)]
    congr 1
    split <;> omega
  · rw [if_neg chosen, if_neg (by split <;> omega)]

/-- Blocks that go beyond the end of the buffer are written in two pieces. -/
theorem getElem?_overwrite_wrapped
    (rootInComm : root < size)
    (inComm : mask + blocks ≤ size)
    (wraps : root + mask < size ∧ size < root + mask + blocks)
    {buffer msg : List Cell}
    (bufferLength : buffer.length = size * nbytes)
    (msgLength : msg.length = blocks * nbytes) :
    let front := (size - root - mask) * nbytes
    let partly := overwrite buffer ((root + mask) * nbytes) (msg.take front)
    (root + mask) * nbytes + (msg.take front).length ≤ buffer.length ∧
    0 + (msg.drop front).length ≤ partly.length ∧ ∀ index < size * nbytes,
      (overwrite partly 0 (msg.drop front))[
          absolute (size * nbytes) (root * nbytes) index]? =
        if mask * nbytes ≤ index ∧ index < (mask + blocks) * nbytes then
          msg[index - mask * nbytes]?
        else buffer[absolute (size * nbytes) (root * nbytes) index]? := by
  intro front partly
  have frontEq : (root + mask) * nbytes + front = size * nbytes := by
    rw [← add_mul]
    congr 1
    omega
  have frontLt : front ≤ msg.length := by
    rw [msgLength]
    exact Nat.mul_le_mul_right nbytes (by omega)
  have takeLength : (msg.take front).length = front := by
    rw [length_take]
    omega
  have fitsFront :
      (root + mask) * nbytes + (msg.take front).length ≤ buffer.length := by
    omega
  have room := Nat.mul_le_mul_right nbytes inComm
  rw [add_mul] at room
  have fitsBack : 0 + (msg.drop front).length ≤ partly.length := by
    rw [length_overwrite fitsFront, length_drop]
    omega
  refine ⟨fitsFront, fitsBack, ?_⟩
  intro index inside
  have rootCell : root * nbytes < size * nbytes :=
    Nat.mul_lt_mul_of_pos_right rootInComm (by
      rcases Nat.eq_zero_or_pos nbytes with zero | pos
      · simp [zero] at inside
      · exact pos)
  rw [getElem?_overwrite fitsBack, getElem?_overwrite fitsFront,
    takeLength, length_drop, msgLength, absolute_eq_ite rootCell inside,
    getElem?_drop, getElem?_take]
  rw [add_mul] at frontEq ⊢
  rw [add_mul mask blocks]
  clear_value front
  generalize root * nbytes = root at *
  generalize mask * nbytes = mask at *
  generalize blocks * nbytes = blocks at *
  generalize size * nbytes = size at *
  by_cases below : index + root < size
  · rw [if_pos below, if_neg (by omega)]
    by_cases chosen : mask ≤ index ∧ index < mask + blocks
    · rw [if_pos chosen, if_pos (by omega), if_pos (by omega)]
      congr 1
      omega
    · rw [if_neg chosen, if_neg (by omega)]
  · rw [if_neg below]
    by_cases chosen : mask ≤ index ∧ index < mask + blocks
    · rw [if_pos chosen, if_pos (by omega)]
      congr 1
      omega
    · rw [if_neg chosen, if_neg (by omega), if_neg (by omega)]

end

section

variable {Cell : Type} {shape : Shape} {contents : Contents Cell} {nbytes : Nat}

/-- The root's variables before a round. -/
structure Shape.RootSized
    (shape : Shape)
    (contents : Contents Cell)
    (nbytes round : Nat)
    (node : Node Cell) : Prop where
  recvbuf : node.recvbuf.length = shape.commSize * nbytes
  tmpBuf : node.tmpBuf.length = (shape.at contents 0).tmpBufSize
  waiting : node.copyBlks ≠ 0 → nbytes < gatherVsmallMsg ∧ ∃ earlier < round,
      shape.Wraps earlier ∧ node.copyOffset = shape.root + 2 ^ earlier ∧
      node.copyBlks = held shape.commSize earlier (2 ^ earlier)

/-- A cell of the receive buffer, counted from the root's own block: of the
message in the temporary buffer where that is to be copied. -/
def Shape.cellAt
    (shape : Shape)
    (nbytes : Nat)
    (node : Node Cell)
    (index : Nat) : Option Cell :=
  if node.copyBlks ≠ 0 ∧ (node.copyOffset - shape.root) * nbytes ≤ index ∧
      index < (node.copyOffset - shape.root + node.copyBlks) * nbytes then
    node.tmpBuf[index - (node.copyOffset - shape.root) * nbytes]?
  else
    node.recvbuf[
      absolute (shape.commSize * nbytes) (shape.root * nbytes) index]?

/-- A short message that goes beyond the end of the receive buffer fits into the
temporary one. -/
theorem Shape.Matches.held_le_tmpBufSize
    (matching : shape.Matches nbytes)
    (contents : Contents Cell)
    (short : nbytes < gatherVsmallMsg)
    {round : Nat}
    (wraps : shape.Wraps round) :
    held shape.commSize round (2 ^ round) * nbytes ≤ (shape.at contents 0).tmpBufSize := by
  have within : 2 ^ round < shape.commSize := (Nat.le_add_left _ _).trans_lt wraps.1
  have heldLe := @add_held_le _ round _ within
  have elsewhere : shape.root ≠ 0 := by
    unfold Shape.Wraps at wraps
    omega
  have room := Nat.mul_le_mul_right nbytes
    (held_le_tmpBlocks ((Nat.zero_le _).trans_lt within)
      (Nat.zero_mod (2 ^ (round + 1))))
  rw [held_succ_of_lt (by rwa [zero_add]), zero_add, add_mul]
    at room
  rw [matching.tmpBufSize_zero short elsewhere]
  omega

/-- The root stores the message of a child behind what it has. -/
theorem Shape.Matches.absorb_at_root
    (matching : shape.Matches nbytes)
    {round : Nat}
    (within : 2 ^ round < shape.commSize)
    {node : Node Cell}
    (sized : shape.RootSized contents nbytes round node)
    {msg : List Cell}
    (msgLength : msg.length = held shape.commSize round (2 ^ round) * nbytes) :
    ∃ next, (shape.at contents 0).absorb (2 ^ round) node msg = some next ∧
      shape.RootSized contents nbytes (round + 1) next ∧
      ∀ index < shape.commSize * nbytes, shape.cellAt nbytes next index =
          if 2 ^ round * nbytes ≤ index ∧
              index < (2 ^ round + held shape.commSize round (2 ^ round)) * nbytes then
            msg[index - 2 ^ round * nbytes]?
          else shape.cellAt nbytes node index := by
  have rootLt := matching.root_lt
  have heldPos := @held_pos _ round _ within
  have heldLe := @add_held_le _ round _ within
  have stillWaiting : node.copyBlks ≠ 0 → nbytes < gatherVsmallMsg ∧
      ∃ earlier < round + 1, shape.Wraps earlier ∧ node.copyOffset = shape.root + 2 ^ earlier ∧
        node.copyBlks = held shape.commSize earlier (2 ^ earlier) := by
    intro copies
    obtain ⟨short, earlier, before, rest⟩ := sized.waiting copies
    exact ⟨short, earlier, by omega, rest⟩
  -- What waits in the temporary buffer comes before this message.
  have waitsBefore : ∀ index, node.copyBlks ≠ 0 ∧ (node.copyOffset - shape.root) * nbytes ≤ index ∧
        index < (node.copyOffset - shape.root + node.copyBlks) * nbytes →
      index < 2 ^ round * nbytes := by
    rintro index ⟨copies, -, inside⟩
    obtain ⟨-, earlier, before, -, offsetEq, blksEq⟩ := sized.waiting copies
    have := @held_le_pow shape.commSize earlier (2 ^ earlier)
    have := Nat.pow_le_pow_right two_pos before
    exact inside.trans_le (Nat.mul_le_mul_right nbytes (by omega))
  have cellsOf := fun blocks =>
    matching.root_cells contents blocks
  unfold Call.absorb
  rw [if_pos matching.at_zero_isRoot, matching.at_zero_rank, matching.at_nbytes,
    Shape.at_rootRecvblks within]
  by_cases wraps : shape.Wraps round
  · rw [if_neg fun direct => (matching.fitsDirectly_iff within).mp direct wraps]
    have notWaiting : node.copyBlks = 0 := by
      by_contra copies
      obtain ⟨-, earlier, before, wrapsEarlier, -⟩ := sized.waiting copies
      exact wrapsEarlier.unique wraps before
    have cellAtNode : ∀ index, shape.cellAt nbytes node index = node.recvbuf[
          absolute (shape.commSize * nbytes) (shape.root * nbytes) index]? := by
      intro index
      rw [Shape.cellAt, if_neg fun copies => copies.1 notWaiting]
    by_cases short : nbytes < gatherVsmallMsg
    · have room := matching.held_le_tmpBufSize contents short wraps
      have fits : 0 + msg.length ≤ node.tmpBuf.length := by
        rw [sized.tmpBuf, msgLength]
        omega
      rw [if_pos short, store_of_le fits]
      refine ⟨_, rfl, ⟨sized.recvbuf, ?_, ?_⟩, ?_⟩
      · exact (length_overwrite fits).trans sized.tmpBuf
      · exact fun _ => ⟨short, round, Nat.lt_succ_self round, wraps, rfl, rfl⟩
      · intro index _
        rw [cellAtNode]
        simp only [Shape.cellAt, Nat.add_sub_cancel_left]
        by_cases chosen : 2 ^ round * nbytes ≤ index ∧
            index < (2 ^ round + held shape.commSize round (2 ^ round)) * nbytes
        · rw [if_pos ⟨by omega, chosen⟩, if_pos chosen,
            getElem?_overwrite fits, if_pos, Nat.sub_zero]
          rw [add_mul] at chosen
          omega
        · rw [if_neg fun copies => chosen copies.2, if_neg chosen]
    · rw [if_neg short]
      have frontEq : (shape.at contents 0).recvcnt *
          ((shape.at contents 0).commSize - (shape.at contents 0).root -
            2 ^ round) * (shape.at contents 0).recvtypeSize =
          (shape.commSize - shape.root - 2 ^ round) * nbytes := by
        rw [mul_comm (Call.recvcnt _), cellsOf]
        rfl
      have offsetEq : (shape.at contents 0).recvcnt *
          ((shape.at contents 0).root + 2 ^ round) * (shape.at contents 0).recvtypeSize =
          (shape.root + 2 ^ round) * nbytes := by
        rw [mul_comm (Call.recvcnt _), cellsOf]
        rfl
      obtain ⟨fitsFront, fitsBack, cells⟩ :=
        getElem?_overwrite_wrapped rootLt heldLe wraps sized.recvbuf msgLength
      simp only [frontEq, offsetEq]
      rw [store_of_le fitsFront, bind_some, store_of_le fitsBack]
      refine ⟨_, rfl, ⟨?_, sized.tmpBuf, ?_⟩, ?_⟩
      · exact (length_overwrite fitsBack).trans ((length_overwrite fitsFront).trans sized.recvbuf)
      · exact fun copies => absurd notWaiting copies
      · intro index inside
        rw [cellAtNode, Shape.cellAt, if_neg fun copies => copies.1 notWaiting]
        exact cells index inside
  · rw [if_pos ((matching.fitsDirectly_iff within).mpr wraps), cellsOf]
    have startEq : (shape.root + 2 ^ round) % (shape.at contents 0).commSize =
        absolute shape.commSize shape.root (2 ^ round) := by
      rw [add_comm]
      rfl
    obtain ⟨fits, cells⟩ :=
      getElem?_overwrite_direct rootLt heldLe heldPos wraps sized.recvbuf msgLength
    rw [startEq, store_of_le fits]
    refine ⟨_, rfl, ⟨?_, sized.tmpBuf, stillWaiting⟩, ?_⟩
    · exact (length_overwrite fits).trans sized.recvbuf
    · intro index inside
      unfold Shape.cellAt
      by_cases waits : node.copyBlks ≠ 0 ∧ (node.copyOffset - shape.root) * nbytes ≤ index ∧
          index < (node.copyOffset - shape.root + node.copyBlks) * nbytes
      · have before := waitsBefore index waits
        rw [if_pos waits, if_pos waits, if_neg (by omega)]
      · rw [if_neg waits, if_neg waits]
        exact cells index inside

/-- The copy at the end puts every cell where it belongs. -/
theorem Shape.Matches.reorder_at_root
    (matching : shape.Matches nbytes)
    {round : Nat} {node : Node Cell}
    (sized : shape.RootSized contents nbytes round node) :
    ∃ recvbuf, (shape.at contents 0).reorder node = some recvbuf ∧
      recvbuf.length = shape.commSize * nbytes ∧ ∀ index < shape.commSize * nbytes,
        recvbuf[absolute (shape.commSize * nbytes) (shape.root * nbytes) index]? =
          shape.cellAt nbytes node index := by
  have rootLt := matching.root_lt
  unfold Call.reorder
  by_cases copies : node.copyBlks = 0
  · rw [if_neg fun reorders => reorders.2.2.2 copies]
    refine ⟨_, rfl, sized.recvbuf, ?_⟩
    intro index _
    rw [Shape.cellAt, if_neg fun waits => waits.1 copies]
  · obtain ⟨short, earlier, before, wraps, offsetEq, blksEq⟩ := sized.waiting copies
    have inComm : 2 ^ earlier < shape.commSize := (Nat.le_add_left _ _).trans_lt wraps.1
    have heldLe := @add_held_le _ earlier _ inComm
    have elsewhere : shape.root ≠ 0 := by
      unfold Shape.Wraps at wraps
      omega
    have room := matching.held_le_tmpBufSize contents short wraps
    rw [← sized.tmpBuf, ← blksEq] at room
    rw [← blksEq] at heldLe
    unfold Shape.Wraps at wraps
    rw [← blksEq] at wraps
    -- The message that waits is the beginning of the temporary buffer.
    have msgLength : (node.tmpBuf.take (node.copyBlks * nbytes)).length =
        node.copyBlks * nbytes := by
      rw [length_take]
      omega
    have frontEq : nbytes * ((shape.at contents 0).commSize - node.copyOffset) =
        (shape.commSize - shape.root - 2 ^ earlier) * nbytes := by
      rw [mul_comm, offsetEq, Nat.sub_add_eq]
      rfl
    have total : (shape.commSize - shape.root - 2 ^ earlier) * nbytes +
        nbytes * (node.copyBlks + node.copyOffset -
          (shape.at contents 0).commSize) = node.copyBlks * nbytes := by
      rw [mul_comm nbytes, ← add_mul]
      congr 1
      change _ + (_ + _ - shape.commSize) = _
      omega
    have offsetCells : (shape.at contents 0).recvtypeSize *
        (shape.at contents 0).recvcnt * node.copyOffset = (shape.root + 2 ^ earlier) * nbytes := by
      rw [mul_comm, offsetEq, mul_comm (Call.recvtypeSize _),
        ← mul_assoc, matching.root_cells contents]
    obtain ⟨fitsFront, fitsBack, cells⟩ :=
      getElem?_overwrite_wrapped rootLt heldLe wraps sized.recvbuf msgLength
    rw [if_pos ⟨matching.at_zero_isRoot, elsewhere,
      by rwa [matching.at_nbytes], copies⟩, matching.at_nbytes]
    simp only [frontEq, offsetCells]
    generalize (shape.commSize - shape.root - 2 ^ earlier) * nbytes = front at *
    generalize nbytes * (node.copyBlks + node.copyOffset -
      (shape.at contents 0).commSize) = back at *
    have frontCells : (node.tmpBuf.drop 0).take front =
        (node.tmpBuf.take (node.copyBlks * nbytes)).take front := by
      rw [drop_zero, take_take, Nat.min_eq_left (by omega)]
    have backCells : (node.tmpBuf.drop front).take back =
        (node.tmpBuf.take (node.copyBlks * nbytes)).drop front := by
      rw [drop_take]
      congr 1
      omega
    rw [load_of_le (by omega), bind_some, frontCells, store_of_le fitsFront, bind_some,
      load_of_le (by omega), bind_some, backCells, store_of_le fitsBack]
    refine ⟨_, rfl, ?_, ?_⟩
    · exact (length_overwrite fitsBack).trans ((length_overwrite fitsFront).trans sized.recvbuf)
    · intro index inside
      rw [cells index inside, Shape.cellAt, offsetEq, Nat.add_sub_cancel_left]
      by_cases chosen : 2 ^ earlier * nbytes ≤ index ∧
          index < (2 ^ earlier + node.copyBlks) * nbytes
      · rw [if_pos chosen, if_pos ⟨copies, chosen⟩, getElem?_take, if_pos]
        rw [add_mul] at chosen
        omega
      · rw [if_neg chosen, if_neg fun waits => chosen waits.2]

end

end Mpich.Coll.Gather
