import Mpich.Coll.Gather.Root

/-!
# The runs of a gather

Round by round, the messages that the ranks send are those the others wait for,
so that every interleaving completes, unless some processes return early and
others do not. The root's receive buffer then holds its own block and the
messages of its children.
-/

namespace Mpich.Coll.Gather

open Buffer MessagePassing Masks List Option

section

variable {Cell : Type} {shape : Shape} {contents : Contents Cell} {nbytes : Nat}

section

variable
    (matching : shape.Matches nbytes)
    (holds : shape.Holds contents nbytes)

include matching holds

variable {position : Nat}

section

variable (inComm : position < shape.commSize)

include inComm

theorem Shape.Matches.start_of_pos
    (notRoot : position ≠ 0) :
    ∃ node, (shape.at contents position).start = some node ∧
      shape.Sized contents nbytes 0 position node ∧
      (nbytes < gatherVsmallMsg → ∀ index < nbytes, node.tmpBuf[index]? =
          (shape.at contents position).sendbuf[index]?) := by
  have currCnt : (shape.at contents position).nbytes = held shape.commSize 0 position * nbytes := by
    rw [matching.at_nbytes, held_eq_pow (by rw [pow_zero]; omega), pow_zero, one_mul]
  have sendLength : (shape.at contents position).sendbuf.length = nbytes :=
    holds.sendbuf _ (absolute_lt matching.root_lt position)
      (Or.inl (matching.absolute_ne_root inComm notRoot))
  have garbageLength :
      ((List.range (shape.at contents position).tmpBufSize).map
        (shape.at contents position).garbage).length = (shape.at contents position).tmpBufSize := by
    rw [length_map, length_range]
  unfold Call.start
  rw [if_neg (matching.at_ne_root inComm notRoot)]
  by_cases copies : (shape.at contents position).tmpBufSize ≠ 0 ∧
      (shape.at contents position).nbytes < gatherVsmallMsg
  · have bufSize := matching.tmpBufSize_of_pos contents inComm notRoot
    rw [matching.at_nbytes] at copies
    rw [if_pos copies.2, Nat.succ_mul] at bufSize
    have fits : 0 + (shape.at contents position).sendbuf.length ≤
        ((List.range (shape.at contents position).tmpBufSize).map
          (shape.at contents position).garbage).length := by
      omega
    rw [if_pos (by rwa [matching.at_nbytes]), store_of_le fits]
    refine ⟨_, rfl, ⟨?_, currCnt⟩, ?_⟩
    · exact (length_overwrite fits).trans garbageLength
    · intro _ index inside
      rw [getElem?_overwrite fits, if_pos (by omega), Nat.sub_zero]
  · rw [if_neg copies]
    refine ⟨_, rfl, ⟨garbageLength, currCnt⟩, ?_⟩
    intro short index inside
    have bufSize := matching.tmpBufSize_of_pos contents inComm notRoot
    rw [if_pos short, Nat.succ_mul] at bufSize
    rw [matching.at_nbytes] at copies
    exact absurd ⟨by omega, short⟩ copies

variable {round : Nat}

/-- Before every round a rank other than the root has the blocks of that
round. -/
theorem Shape.Matches.sized_nodeAt
    (notRoot : position ≠ 0)
    (multiple : position % 2 ^ round = 0) :
    shape.Sized contents nbytes round position (shape.nodeAt contents round position) := by
  induction round generalizing position with
  | zero =>
    obtain ⟨node, started, sized, -⟩ :=
      matching.start_of_pos holds inComm notRoot
    rw [Shape.nodeAt, started]
    exact sized
  | succ round ih =>
    have before := mod_of_mod_succ multiple
    have sized := ih inComm notRoot before
    by_cases within : position + 2 ^ round < shape.commSize
    · have clear := (bitSet_of_mod before).mp multiple
      have childMultiple := (child_spec before clear).1
      have childNotRoot : position + 2 ^ round ≠ 0 := by omega
      have childSized := ih within childNotRoot childMultiple
      have msgLength :
          (shape.messageAt contents round (position + 2 ^ round)).length =
            held shape.commSize round (position + 2 ^ round) * nbytes := by
        unfold Shape.messageAt
        by_cases short : nbytes < gatherVsmallMsg
        · obtain ⟨msg, sent, length, -⟩ := matching.outgoing_of_short holds
            short within childNotRoot childMultiple childSized
          rw [sent]
          exact length
        · obtain ⟨msg, sent, length, -⟩ := matching.outgoing_of_long holds
            short within childNotRoot childMultiple childSized
          rw [sent]
          exact length
      obtain ⟨-, next, absorbed, nextSized, -⟩ :=
        matching.absorb_of_pos notRoot multiple within sized msgLength
      rwa [Shape.nodeAt_succ_of_absorb multiple within absorbed]
    · rw [Shape.nodeAt_succ_of_idle fun receives => within receives.2]
      refine ⟨sized.tmpBuf, ?_⟩
      rw [sized.currCnt, held_succ_of_le (by omega)]

/-- The message that a rank sends, and its size. -/
theorem Shape.Matches.messageAt_spec
    (notRoot : position ≠ 0)
    (multiple : position % 2 ^ round = 0) :
    (shape.at contents position).outgoing
        (shape.nodeAt contents round position) =
      some (shape.messageAt contents round position) ∧
    (shape.messageAt contents round position).length =
      held shape.commSize round position * nbytes := by
  have sized := matching.sized_nodeAt holds inComm notRoot multiple
  unfold Shape.messageAt
  by_cases short : nbytes < gatherVsmallMsg
  · obtain ⟨msg, sent, length, -⟩ :=
      matching.outgoing_of_short holds short inComm notRoot multiple sized
    rw [sent]
    exact ⟨rfl, length⟩
  · obtain ⟨msg, sent, length, -⟩ :=
      matching.outgoing_of_long holds short inComm notRoot multiple sized
    rw [sent]
    exact ⟨rfl, length⟩

end

end

section

variable (matching : shape.Matches nbytes)

include matching

variable (holds : shape.Holds contents nbytes)

include holds in
/-- The root's own block comes first in its receive buffer. -/
theorem Shape.Matches.start_at_root :
    ∃ node, (shape.at contents 0).start = some node ∧
      shape.RootSized contents nbytes 0 node ∧ ∀ index < nbytes,
        shape.cellAt nbytes node index = (shape.block contents nbytes shape.root)[index]? := by
  have rootLt := matching.root_lt
  have room := Nat.mul_le_mul_right nbytes rootLt
  rw [Nat.succ_mul] at room
  have garbageLength :
      ((List.range (shape.at contents 0).tmpBufSize).map
        (shape.at contents 0).garbage).length = (shape.at contents 0).tmpBufSize := by
    rw [length_map, length_range]
  have recvEq : (shape.at contents 0).recvbuf = contents.recvbuf shape.root := by
    rw [← matching.absolute_zero]
    rfl
  have place : ∀ index < nbytes, absolute (shape.commSize * nbytes) (shape.root * nbytes) index =
        index + shape.root * nbytes := by
    intro index inside
    exact absolute_of_lt (by omega)
  unfold Call.start
  rw [if_pos matching.at_zero_isRoot]
  by_cases inPlace : (shape.at contents 0).inPlace = true
  · rw [if_pos inPlace]
    refine ⟨_, rfl, ⟨?_, garbageLength, ?_⟩, ?_⟩
    · change (shape.at contents 0).recvbuf.length = _
      rw [recvEq, holds.recvbuf]
    · exact fun copies => absurd rfl copies
    · intro index inside
      have isPlace : shape.root = shape.root ∧ shape.inPlace = true :=
        ⟨rfl, inPlace⟩
      rw [Shape.cellAt, if_neg fun copies => copies.1 rfl, place index inside,
        Shape.block, if_pos isPlace, Buffer.getElem?_range, if_pos inside, ← recvEq, add_comm]
  · rw [if_neg inPlace]
    have sends : shape.Sends shape.root := Or.inr (Bool.not_eq_true _ ▸ inPlace)
    have sendEq : (shape.at contents 0).sendbuf = contents.sendbuf shape.root := by
      rw [← matching.absolute_zero]
      rfl
    have sendLength : (shape.at contents 0).sendbuf.length = nbytes := by
      rw [sendEq, holds.sendbuf shape.root rootLt sends]
    have fits : shape.root * nbytes + (shape.at contents 0).sendbuf.length ≤
        (shape.at contents 0).recvbuf.length := by
      rw [recvEq, holds.recvbuf, sendLength]
      exact room
    have offsetEq : (shape.at contents 0).recvcnt * (shape.at contents 0).rank *
        (shape.at contents 0).recvtypeSize = shape.root * nbytes := by
      rw [mul_comm (Call.recvcnt _), matching.root_cells contents, matching.at_zero_rank]
    simp only [offsetEq]
    rw [store_of_le fits]
    refine ⟨_, rfl, ⟨?_, garbageLength, ?_⟩, ?_⟩
    · refine (length_overwrite fits).trans ?_
      rw [recvEq, holds.recvbuf]
    · exact fun copies => absurd rfl copies
    · intro index inside
      have notPlace : ¬ (shape.root = shape.root ∧ shape.inPlace = true) :=
        fun isPlace => inPlace isPlace.2
      rw [Shape.cellAt, if_neg fun copies => copies.1 rfl, place index inside,
        Shape.block, if_neg notPlace, ← sendEq]
      rw [getElem?_overwrite fits, if_pos (by omega), Nat.add_sub_cancel]

/-- What the root has before a round: its own block and then the messages of the
rounds before. -/
structure Shape.RootHas
    (shape : Shape)
    (contents : Contents Cell)
    (nbytes round : Nat)
    (node : Node Cell) : Prop where
  sized : shape.RootSized contents nbytes round node
  own : ∀ index < nbytes, shape.cellAt nbytes node index =
      (shape.block contents nbytes shape.root)[index]?
  received : ∀ earlier < round, 2 ^ earlier < shape.commSize →
    ∀ index < held shape.commSize earlier (2 ^ earlier) * nbytes,
      shape.cellAt nbytes node (2 ^ earlier * nbytes + index) =
        (shape.messageAt contents earlier (2 ^ earlier))[index]?

variable {round : Nat}

include holds in
theorem Shape.Matches.root_receives
    (within : 2 ^ round < shape.commSize)
    {node : Node Cell}
    (has : shape.RootHas contents nbytes round node) :
    ∃ next, (shape.at contents 0).absorb (2 ^ round) node
        (shape.messageAt contents round (2 ^ round)) = some next ∧
      shape.RootHas contents nbytes (round + 1) next := by
  have maskPos := Nat.two_pow_pos round
  have heldLe := @add_held_le _ round _ within
  have msgLength := (matching.messageAt_spec holds within maskPos.ne' (Nat.mod_self (2 ^ round))).2
  have total := Nat.mul_le_mul_right nbytes heldLe
  rw [add_mul] at total
  obtain ⟨next, absorbed, sized, cells⟩ :=
    matching.absorb_at_root within has.sized msgLength
  refine ⟨next, absorbed, sized, ?_, ?_⟩
  · intro index inside
    have before : index < 2 ^ round * nbytes :=
      inside.trans_le (Nat.le_mul_of_pos_left nbytes maskPos)
    rw [cells index (by omega), if_neg (by omega), has.own index inside]
  · intro earlier order inComm index inside
    rcases lt_or_ge earlier round with old | new
    · have heldPow := @held_le_pow shape.commSize earlier (2 ^ earlier)
      have powers := Nat.pow_le_pow_right two_pos old
      rw [pow_succ, mul_two] at powers
      have before : 2 ^ earlier * nbytes + index < 2 ^ round * nbytes := by
        calc
          2 ^ earlier * nbytes + index
            < 2 ^ earlier * nbytes + held shape.commSize earlier (2 ^ earlier) * nbytes :=
              Nat.add_lt_add_left inside _
          _ = (2 ^ earlier + held shape.commSize earlier (2 ^ earlier)) *
                nbytes := (add_mul _ _ _).symm
          _ ≤ 2 ^ round * nbytes :=
              Nat.mul_le_mul_right nbytes ((Nat.add_le_add_left heldPow _).trans powers)
      rw [cells _ (by omega), if_neg (by omega), has.received earlier old inComm index inside]
    · obtain rfl : earlier = round := by omega
      have chosen : 2 ^ earlier * nbytes ≤ 2 ^ earlier * nbytes + index ∧
          2 ^ earlier * nbytes + index <
            (2 ^ earlier + held shape.commSize earlier (2 ^ earlier)) * nbytes := by
        rw [add_mul]
        omega
      rw [cells _ (by omega), if_pos chosen, Nat.add_sub_cancel_left]

include holds in
theorem Shape.Matches.rootHas_nodeAt
    (round : Nat) :
    shape.RootHas contents nbytes round (shape.nodeAt contents round 0) := by
  induction round with
  | zero =>
    obtain ⟨node, started, sized, own⟩ := matching.start_at_root holds
    rw [Shape.nodeAt, started]
    exact ⟨sized, own, fun earlier order => by omega⟩
  | succ round ih =>
    by_cases within : 2 ^ round < shape.commSize
    · obtain ⟨next, absorbed, has⟩ :=
        matching.root_receives holds within ih
      rwa [Shape.nodeAt_succ_of_absorb (Nat.zero_mod _)
        (by rwa [zero_add]) (by rwa [zero_add])]
    · rw [Shape.nodeAt_succ_of_idle fun receives =>
        within (by simpa using receives.2)]
      obtain ⟨sized, own, received⟩ := ih
      refine ⟨⟨sized.recvbuf, sized.tmpBuf, ?_⟩, own, ?_⟩
      · intro copies
        obtain ⟨short, earlier, before, rest⟩ := sized.waiting copies
        exact ⟨short, earlier, by omega, rest⟩
      · intro earlier order inComm
        have old : earlier < round := by
          rcases lt_or_ge earlier round with old | new
          · exact old
          · obtain rfl : earlier = round := by omega
            exact absurd inComm within
        exact received earlier old inComm

/-- What a rank does in a round. -/
def Shape.roundOf
    (shape : Shape)
    (contents : Contents Cell)
    (rank round : Nat) : Round Nat (List Cell) :=
  let position := relative shape.commSize shape.root rank
  if rank < shape.commSize ∧ position % 2 ^ round = 0 then
    if BitSet position round then {
      sends := [(absolute shape.commSize shape.root (position - 2 ^ round),
        shape.messageAt contents round position)]
      recvs := [] }
    else if position + 2 ^ round < shape.commSize then {
      sends := []
      recvs := [(absolute shape.commSize shape.root (position + 2 ^ round),
        shape.messageAt contents round (position + 2 ^ round))] }
    else .idle
  else .idle

/-- A rank sends to another in a round. -/
def Shape.SendsTo (shape : Shape) (round src dst : Nat) : Prop :=
  src < shape.commSize ∧ dst < shape.commSize ∧
    relative shape.commSize shape.root dst % 2 ^ round = 0 ∧
      ¬ BitSet (relative shape.commSize shape.root dst) round ∧
        relative shape.commSize shape.root src = relative shape.commSize shape.root dst + 2 ^ round

instance (round src dst : Nat) : Decidable (shape.SendsTo round src dst) :=
  inferInstanceAs (Decidable (_ ∧ _))

theorem Shape.Matches.withRank_sends
    (round src dst : Nat) :
    Round.withRank dst (shape.roundOf contents src round).sends =
      if shape.SendsTo round src dst then
        [shape.messageAt contents round (relative shape.commSize shape.root src)]
      else [] := by
  have rootLt := matching.root_lt
  unfold Shape.roundOf
  by_cases active : src < shape.commSize ∧ relative shape.commSize shape.root src % 2 ^ round = 0
  · have inComm := relative_lt rootLt active.1
    by_cases set : BitSet (relative shape.commSize shape.root src) round
    · have small := mask_le_of_bitSet set
      have parent := parent_spec active.2 set
      have parentLt :
          relative shape.commSize shape.root src - 2 ^ round < shape.commSize :=
        (Nat.sub_le _ _).trans_lt inComm
      simp only [if_pos active, if_pos set, Round.withRank_singleton]
      refine if_congr ⟨?_, ?_⟩ rfl rfl
      · rintro rfl
        unfold Shape.SendsTo
        rw [relative_absolute rootLt parentLt]
        exact ⟨active.1, absolute_lt rootLt _, parent.1, parent.2, by omega⟩
      · rintro ⟨-, dstLt, -, -, positions⟩
        rw [positions, Nat.add_sub_cancel, absolute_relative rootLt dstLt]
    · have noSend : ¬ shape.SendsTo round src dst := by
        rintro ⟨-, -, multiple, clear, positions⟩
        rw [positions] at set
        exact set (child_spec multiple clear).2
      rw [if_pos active, if_neg set, if_neg noSend]
      split <;> rfl
  · have noSend : ¬ shape.SendsTo round src dst := by
      rintro ⟨srcLt, -, multiple, clear, positions⟩
      apply active
      rw [positions]
      exact ⟨srcLt, (child_spec multiple clear).1⟩
    rw [if_neg active, if_neg noSend]
    rfl

theorem Shape.Matches.withRank_recvs
    (round src dst : Nat) :
    Round.withRank src (shape.roundOf contents dst round).recvs =
      if shape.SendsTo round src dst then
        [shape.messageAt contents round (relative shape.commSize shape.root src)]
      else [] := by
  have rootLt := matching.root_lt
  unfold Shape.roundOf
  by_cases sends : shape.SendsTo round src dst
  · obtain ⟨srcLt, dstLt, multiple, clear, positions⟩ := id sends
    have childLt := relative_lt rootLt srcLt
    rw [positions] at childLt
    rw [if_pos sends, if_pos ⟨dstLt, multiple⟩, if_neg clear, if_pos childLt,
      ← positions, absolute_relative rootLt srcLt, Round.withRank_singleton, if_pos rfl]
  · rw [if_neg sends]
    by_cases active : dst < shape.commSize ∧ relative shape.commSize shape.root dst % 2 ^ round = 0
    · by_cases set : BitSet (relative shape.commSize shape.root dst) round
      · simp only [if_pos active, if_pos set]
        rfl
      · by_cases within : relative shape.commSize shape.root dst + 2 ^ round < shape.commSize
        · simp only [if_pos active, if_neg set, if_pos within, Round.withRank_singleton]
          rw [if_neg]
          rintro rfl
          apply sends
          exact ⟨absolute_lt rootLt _, active.1, active.2, set, relative_absolute rootLt within⟩
        · simp only [if_pos active, if_neg set, if_neg within]
          rfl
    · simp only [if_neg active]
      rfl

variable {position : Nat}

omit matching in
theorem Shape.nodeAt_of_idle
    (idle : ∀ later, round ≤ later → ¬ (position % 2 ^ (later + 1) = 0 ∧
        position + 2 ^ later < shape.commSize))
    (count : Nat) :
    shape.nodeAt contents (round + count) position = shape.nodeAt contents round position := by
  induction count with
  | zero => rfl
  | succ count ih =>
    rw [← add_assoc, Shape.nodeAt_succ_of_idle (idle _ (by omega)), ih]

omit matching in
theorem Shape.roundOf_of_idle
    {rank : Nat}
    (gone : relative shape.commSize shape.root rank % 2 ^ round ≠ 0) :
    shape.roundOf contents rank round = .idle := by
  unfold Shape.roundOf
  rw [if_neg fun active => gone active.2]

include holds in
/-- A rank stores the message that its child sends. -/
theorem Shape.Matches.absorbs
    (multiple : position % 2 ^ (round + 1) = 0)
    (within : position + 2 ^ round < shape.commSize) :
    (shape.at contents position).absorb (2 ^ round)
        (shape.nodeAt contents round position)
        (shape.messageAt contents round (position + 2 ^ round)) =
      some (shape.nodeAt contents (round + 1) position) := by
  have before := mod_of_mod_succ multiple
  have clear := (bitSet_of_mod before).mp multiple
  by_cases isRoot : position = 0
  · subst isRoot
    obtain ⟨next, absorbed, -⟩ := matching.root_receives holds
      (by rwa [zero_add] at within) (matching.rootHas_nodeAt holds round)
    rw [Shape.nodeAt_succ_of_absorb multiple within]
    · simpa using absorbed
    · simpa using absorbed
  · have inComm := (Nat.le_add_right _ _).trans_lt within
    have sized := matching.sized_nodeAt holds inComm isRoot before
    have length := (matching.messageAt_spec holds within (by omega) (child_spec before clear).1).2
    obtain ⟨-, next, absorbed, -⟩ :=
      matching.absorb_of_pos isRoot multiple within sized length
    rw [Shape.nodeAt_succ_of_absorb multiple within absorbed]
    exact absorbed

include holds in
/-- The loop of a rank goes through the rounds that are left. -/
theorem Shape.Matches.ends_gatherLoop
    (fuel : Nat)
    (inComm : position < shape.commSize)
    (multiple : position % 2 ^ round = 0)
    (enough : shape.commSize ≤ 2 ^ (round + fuel)) :
    ((shape.at contents position).gatherLoop fuel (2 ^ round)
        (shape.nodeAt contents round position)).Ends
      ((traceFrom (shape.roundOf contents
        (absolute shape.commSize shape.root position)) round fuel).map Prod.snd)
      (shape.nodeAt contents (round + fuel) position) := by
  have rootLt := matching.root_lt
  have back := relative_absolute rootLt inComm
  have rankLt := absolute_lt rootLt position
  induction fuel generalizing round with
  | zero =>
    have notBelow : ¬ 2 ^ round < (shape.at contents position).commSize := not_lt.mpr enough
    rw [Call.gatherLoop, if_neg notBelow]
    rfl
  | succ fuel ih =>
    have goOn := @ih (round + 1)
    rw [add_assoc, add_comm 1] at goOn
    have double : 2 ^ round <<< 1 = 2 ^ (round + 1) := by
      rw [Nat.shiftLeft_eq, Nat.pow_one, pow_succ]
    have roundEq : shape.roundOf contents
        (absolute shape.commSize shape.root position) round =
        if BitSet position round then {
          sends := [(absolute shape.commSize shape.root (position - 2 ^ round),
            shape.messageAt contents round position)]
          recvs := [] }
        else if position + 2 ^ round < shape.commSize then {
          sends := []
          recvs := [(absolute shape.commSize shape.root (position + 2 ^ round),
            shape.messageAt contents round (position + 2 ^ round))] }
        else .idle := by
      unfold Shape.roundOf
      rw [back, if_pos ⟨rankLt, multiple⟩]
    rw [Call.gatherLoop, traceFrom, roundEq]
    simp only [Nat.and_comm (2 ^ round), matching.at_relativeRank inComm,
      and_mask_eq_zero_iff, double]
    by_cases below : 2 ^ round < shape.commSize
    · rw [if_pos (by exact below)]
      by_cases set : BitSet position round
      · have notRoot : position ≠ 0 := by
          have := mask_le_of_bitSet set
          omega
        -- Once it has sent, the rank is done.
        have gone : ∀ later, round + 1 ≤ later → position % 2 ^ later ≠ 0 := by
          intro later order divides
          have divides := Nat.dvd_of_mod_eq_zero divides
          have multipleNext : position % 2 ^ (round + 1) = 0 :=
            Nat.mod_eq_zero_of_dvd ((Nat.pow_dvd_pow 2 order).trans divides)
          exact (bitSet_of_mod multiple).mp multipleNext set
        have sent := (matching.messageAt_spec holds inComm notRoot multiple).1
        rw [if_neg (not_not.mpr set), if_pos set, traceFrom_of_idle,
          append_nil, Shape.nodeAt_of_idle, xor_mask_of_set set]
        · exact (ends_ofOption sent).bind ((ends_mpicSend _ _).bind (Prog.ends_done _))
        · exact fun later order receives =>
            gone (later + 1) (by omega) receives.1
        · intro later order
          apply Shape.roundOf_of_idle
          rw [back]
          exact gone later order
      · have next := (bitSet_of_mod multiple).mpr set
        rw [if_pos set, if_neg set, or_mask set]
        by_cases within : position + 2 ^ round < shape.commSize
        · rw [if_pos (by exact within), if_pos within,
            matching.at_child inComm set, matching.at_capacity set within]
          have length := (matching.messageAt_spec holds within (by omega)
            (child_spec multiple set).1).2
          exact (ends_mpicRecv length.le).bind
            ((ends_ofOption (matching.absorbs holds next within)).bind (goOn next enough))
        · rw [if_neg (by exact within), if_neg within]
          have unchanged :
              shape.nodeAt contents (round + 1) position = shape.nodeAt contents round position :=
            Shape.nodeAt_succ_of_idle fun receives => within receives.2
          rw [← unchanged]
          exact goOn next enough
    · -- Only the root is left when the mask has passed every rank.
      have isRoot : position = 0 := by
        rwa [Nat.mod_eq_of_lt (by omega)] at multiple
      subst isRoot
      have idle : ∀ later, round ≤ later →
          ¬ (0 % 2 ^ (later + 1) = 0 ∧ 0 + 2 ^ later < shape.commSize) := by
        rintro later order ⟨-, within⟩
        have := Nat.pow_le_pow_right two_pos order
        omega
      have silent : ∀ later, round ≤ later → shape.roundOf contents
            (absolute shape.commSize shape.root 0) later = .idle := by
        intro later order
        have clear : ¬ BitSet 0 later := by simp [BitSet]
        have far : ¬ 0 + 2 ^ later < shape.commSize :=
          fun within => idle later order ⟨Nat.zero_mod _, within⟩
        unfold Shape.roundOf
        rw [back, if_pos ⟨rankLt, Nat.zero_mod _⟩, if_neg clear, if_neg far]
      rw [if_neg (by exact below), ← roundEq, ← traceFrom,
        traceFrom_of_idle silent, Shape.nodeAt_of_idle idle]
      exact Prog.ends_done _

end

/-- What the root or another rank has in its receive buffer at the end. -/
def Shape.outAt
    (shape : Shape)
    (contents : Contents Cell)
    (position : Nat) : List Cell :=
  ((shape.at contents position).reorder (shape.nodeAt contents shape.commSize position)).getD []

section

variable
    (matching : shape.Matches nbytes)
    (holds : shape.Holds contents nbytes)

include matching holds

variable {position : Nat}

theorem Shape.Matches.start_eq
    (inComm : position < shape.commSize) :
    (shape.at contents position).start = some (shape.nodeAt contents 0 position) := by
  rw [Shape.nodeAt]
  by_cases isRoot : position = 0
  · subst isRoot
    obtain ⟨node, started, -⟩ := matching.start_at_root holds
    rw [started, getD_some]
  · obtain ⟨node, started, -⟩ := matching.start_of_pos holds inComm isRoot
    rw [started, getD_some]

theorem Shape.Matches.reorder_eq
    (inComm : position < shape.commSize) :
    (shape.at contents position).reorder
        (shape.nodeAt contents shape.commSize position) =
      some (shape.outAt contents position) := by
  unfold Shape.outAt
  by_cases isRoot : position = 0
  · subst isRoot
    obtain ⟨recvbuf, reordered, -⟩ := matching.reorder_at_root
      (matching.rootHas_nodeAt holds shape.commSize).sized
    rw [reordered, getD_some]
  · unfold Call.reorder
    rw [if_neg fun reorders => matching.at_ne_root inComm isRoot reorders.1, getD_some]

/-- Where no process returns early, all of them complete. -/
theorem Shape.Matches.completes
    (stays : ∀ rank < shape.commSize, ¬ (shape.call contents rank).ReturnsEarly) :
    Completes (shape.program contents) fun rank =>
      if rank < shape.commSize then
        shape.outAt contents (relative shape.commSize shape.root rank)
      else [] := by
  have rootLt := matching.root_lt
  refine completes_of_rounds (shape.roundOf contents) shape.commSize ?_ ?_
    (Finset.range shape.commSize) ?_
  · intro round _ src dst
    rw [matching.withRank_sends, matching.withRank_recvs]
  · intro rank
    unfold Shape.program
    by_cases inComm : rank < shape.commSize
    · have positionLt := relative_lt rootLt inComm
      have callEq : shape.at contents
          (relative shape.commSize shape.root rank) = shape.call contents rank := by
        rw [Shape.at, absolute_relative rootLt inComm]
      have enough : shape.commSize ≤ 2 ^ (0 + shape.commSize) := by
        rw [zero_add]
        exact Nat.lt_two_pow_self.le
      have loop := matching.ends_gatherLoop holds shape.commSize positionLt (Nat.mod_one _) enough
      have started := matching.start_eq holds positionLt
      have reordered := matching.reorder_eq holds positionLt
      rw [absolute_relative rootLt inComm, callEq, zero_add] at loop
      rw [callEq] at started reordered
      rw [if_pos inComm, if_pos inComm]
      unfold Call.gather
      rw [if_neg (stays rank inComm)]
      rw [← append_nil (List.map _ _), ← nil_append (List.map _ _ ++ [])]
      exact (ends_ofOption started).bind (loop.bind (ends_ofOption reordered))
    · have idle : ∀ later, 0 ≤ later → shape.roundOf contents rank later = .idle := by
        intro later _
        unfold Shape.roundOf
        rw [if_neg fun active => inComm active.1]
      rw [if_neg inComm, if_neg inComm, traceFrom_of_idle idle]
      exact Prog.ends_done _
  · intro rank outside round
    unfold Shape.roundOf
    rw [if_neg fun active => outside (Finset.mem_range.mpr active.1)]

/-- The receive buffer of the root at the end: its own block, and behind it the
messages of its children. -/
theorem Shape.Matches.outAt_root :
    (shape.outAt contents 0).length = shape.commSize * nbytes ∧
    (∀ index < nbytes, (shape.outAt contents 0)[
          absolute (shape.commSize * nbytes) (shape.root * nbytes) index]? =
        (shape.block contents nbytes shape.root)[index]?) ∧
    ∀ round, 2 ^ round < shape.commSize →
      ∀ index < held shape.commSize round (2 ^ round) * nbytes, (shape.outAt contents 0)[
            absolute (shape.commSize * nbytes) (shape.root * nbytes)
              (2 ^ round * nbytes + index)]? =
          (shape.messageAt contents round (2 ^ round))[index]? := by
  have has := matching.rootHas_nodeAt holds shape.commSize
  obtain ⟨recvbuf, reordered, length, cells⟩ :=
    matching.reorder_at_root has.sized
  have outEq : shape.outAt contents 0 = recvbuf := by
    rw [Shape.outAt, reordered, getD_some]
  have room := Nat.mul_le_mul_right nbytes matching.root_lt
  rw [Nat.succ_mul] at room
  rw [outEq]
  refine ⟨length, ?_, ?_⟩
  · intro index inside
    rw [cells index (by omega), has.own index inside]
  · intro round within index inside
    have total := Nat.mul_le_mul_right nbytes (@add_held_le _ round _ within)
    rw [add_mul] at total
    have early : round < shape.commSize := Nat.lt_two_pow_self.trans within
    rw [cells _ (by omega), has.received round early within index inside]

end

end

end Mpich.Coll.Gather
