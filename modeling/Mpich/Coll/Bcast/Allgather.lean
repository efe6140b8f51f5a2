import Mpich.Coll.Bcast.Scatter

/-!
# Gathering the pieces

After the scatter each process has the piece of its relative rank. In the
recursive doubling, processes exchange all they have with partners at growing
distances; in the ring, each passes on to the right the piece that it has just
received from the left.
-/

namespace Mpich.Coll.Bcast

open MessagePassing Masks List Cyclic

variable {Cell : Type}

namespace Shape

variable {shape : Shape} {reading : Reading} {contents : Contents Cell}

theorem commSize_pos : 0 < shape.commSize :=
  (Nat.zero_le _).trans_lt shape.root_lt

variable (shape) in
/-- The number of processes is a power of two. -/
def IsPof2 : Prop :=
  CommSizeIsPof2 shape.commSize

instance : Decidable shape.IsPof2 :=
  inferInstanceAs (Decidable (CommSizeIsPof2 _))

theorem commSize_eq (pof2 : shape.IsPof2) :
    shape.commSize = 2 ^ shape.levels :=
  pof2.eq_two_pow

variable (shape) in
/-- The rank that a rank exchanges data with at a level. -/
def partner (level rank : Nat) : Nat :=
  ahead shape.commSize (shape.relative rank ^^^ 2 ^ level) shape.root

variable (shape contents) in
/-- The pieces of the relative ranks of an aligned block. -/
def blockData (level position : Nat) : List Cell :=
  shape.subtreeData contents level (blockStart position level)

variable (shape contents) in
/-- The communications of a rank at a level. -/
def doublingRound (rank level : Nat) : Round Nat (List Cell) :=
  exchangeRound (· < shape.commSize) (shape.partner level) (shape.partner level)
    (fun rank => shape.blockData contents level (shape.relative rank)) rank

section

variable
    (pof2 : shape.IsPof2)
    {rank level : Nat}
    (inComm : rank < shape.commSize)
    (within : level < shape.levels)

include pof2 inComm within

theorem relative_xor_lt :
    shape.relative rank ^^^ 2 ^ level < shape.commSize := by
  have inside := relative_lt inComm
  have size := commSize_eq pof2
  rw [size] at inside ⊢
  exact xor_mask_lt inside within

theorem relative_partner :
    shape.relative (shape.partner level rank) = shape.relative rank ^^^ 2 ^ level :=
  behind_ahead (relative_xor_lt pof2 inComm within) shape.root_lt.le

theorem partner_lt :
    shape.partner level rank < shape.commSize :=
  ahead_lt (relative_xor_lt pof2 inComm within)

/-- Partners are partners of each other. -/
theorem partner_partner :
    shape.partner level (shape.partner level rank) = rank := by
  have back := relative_partner pof2 inComm within
  unfold partner at back ⊢
  rw [back, xor_mask_xor_mask]
  exact ahead_behind inComm shape.root_lt.le

end

theorem doublingRound_agrees (pof2 : shape.IsPof2) :
    ScheduleAgrees (shape.doublingRound contents) (List.range shape.levels) := by
  intro level member src dst
  have within := mem_range.mp member
  apply exchangeRound_agrees
  · intro rank inComm
    exact partner_lt pof2 inComm within
  · intro rank inComm
    exact partner_lt pof2 inComm within
  · intro src dst srcIn dstIn
    constructor
    · rintro rfl
      exact partner_partner pof2 srcIn within
    · rintro rfl
      exact partner_partner pof2 dstIn within

variable (shape contents) in
/-- What a process has before the exchange of a level. -/
structure Doubled (rank level : Nat) (node : Node Cell) : Prop where
  currSize : node.currSize = min (shape.nbytes -
        blockStart (shape.relative rank) level * shape.scatterSize)
      (2 ^ level * shape.scatterSize)
  knows : shape.Knows contents
    (Within (blockStart (shape.relative rank) level * shape.scatterSize)
      (2 ^ level * shape.scatterSize)) node.tmpBuf

theorem Scattered.doubled
    {rank : Nat} {node : Node Cell}
    (scattered : shape.Scattered contents rank 0 node) :
    shape.Doubled contents rank 0 node := by
  constructor
  · rw [blockStart_zero]
    exact scattered.currSize
  · rw [blockStart_zero]
    exact scattered.knows

variable (shape) in
/-- All pieces begin within the data. -/
def PiecesWithin : Prop :=
  (shape.commSize - 1) * shape.scatterSize ≤ shape.nbytes

instance : Decidable shape.PiecesWithin :=
  inferInstanceAs (Decidable (_ ≤ _))

/-- Bytes from the beginning of a piece on can be accessed. -/
theorem accessible
    (fits : reading = .lenient ∨ shape.PiecesWithin)
    {position : Nat}
    (inComm : position < shape.commSize)
    (size : Nat) :
    reading.Overlooks (min (shape.nbytes - position * shape.scatterSize) size) ∨
      position * shape.scatterSize ≤ shape.nbytes := by
  rcases fits with lenient | within
  · by_cases inside : position * shape.scatterSize ≤ shape.nbytes
    · exact Or.inr inside
    · exact Or.inl ⟨lenient, by omega⟩
  · have := Nat.mul_le_mul_right shape.scatterSize (show position ≤ shape.commSize - 1 by omega)
    exact Or.inr (this.trans within)

theorem Doubled.exchange
    (pof2 : shape.IsPof2)
    (fits : reading = .lenient ∨ shape.PiecesWithin)
    {rank level : Nat} {node : Node Cell}
    (inComm : rank < shape.commSize)
    (within : level < shape.levels)
    (here : shape.Doubled contents rank level node) :
    ((shape.call contents rank).exchangePieces reading
        (shape.relative rank ^^^ 2 ^ level)
        (blockStart (shape.relative rank ^^^ 2 ^ level) level)
        (blockStart (shape.relative rank) level) node).Yields
      (shape.doublingRound contents rank level).ops
      (shape.Doubled contents rank (level + 1)) := by
  have size : (shape.call contents rank).commSize = shape.commSize := rfl
  have partnerEq : (shape.call contents rank).absolute
      (shape.relative rank ^^^ 2 ^ level) = shape.partner level rank := rfl
  have dstIn := relative_xor_lt pof2 inComm within
  have curr := here.currSize
  have twice : 2 ^ (level + 1) * shape.scatterSize =
      2 ^ level * shape.scatterSize + 2 ^ level * shape.scatterSize := by
    rw [pow_succ, mul_two, add_mul]
  have mine := @accessible shape reading fits
    (blockStart (shape.relative rank) level)
    ((blockStart_le _ _).trans_lt (relative_lt inComm))
    (2 ^ level * shape.scatterSize)
  have other := @accessible shape reading fits
    (blockStart (shape.relative rank ^^^ 2 ^ level) level)
    ((blockStart_le _ _).trans_lt dstIn) (2 ^ level * shape.scatterSize)
  have loaded := @Knows.load _ shape reading contents _ _ here.knows
    (blockStart (shape.relative rank) level * shape.scatterSize) node.currSize
    (by
      rw [curr]
      exact mine.imp_right fun _ => by omega) (by
      rintro index - ⟨lower, upper⟩
      exact ⟨lower, by omega⟩)
  obtain ⟨written, storedEq, knows⟩ := @Knows.store _ shape reading contents _ _
    here.knows
    (blockStart (shape.relative rank ^^^ 2 ^ level) level * shape.scatterSize)
    (min (shape.nbytes - blockStart (shape.relative rank ^^^ 2 ^ level) level *
        shape.scatterSize) (2 ^ level * shape.scatterSize))
    (other.imp_right fun _ => by omega)
  have received : shape.relative (shape.partner level rank) = _ :=
    relative_partner pof2 inComm within
  have accepted : reading.Overlooks (shape.blockData contents level
        (shape.relative rank ^^^ 2 ^ level)).length ∨
      ((shape.blockData contents level
        (shape.relative rank ^^^ 2 ^ level)).length : Int) ≤ (shape.nbytes : Int) -
            (blockStart (shape.relative rank ^^^ 2 ^ level) level * shape.scatterSize : Nat) := by
    rw [blockData, subtreeData, length_piece]
    exact other.imp_right fun _ => by omega
  have ops : (shape.doublingRound contents rank level).ops = _ := ops_exchangeRound inComm
  unfold Call.exchangePieces Call.receiveAt
  rw [scatterSize_call, nbytes_call, partnerEq, size, if_pos dstIn, ops, received, loaded, curr]
  have sent := ends_mpicSend (shape.partner level rank)
    (shape.blockData contents level (shape.relative rank))
  refine sent.bind_yields ((reading.ends_recv accepted).bind_yields ?_)
  unfold blockData subtreeData
  rw [storedEq]
  apply Prog.yields_pure
  -- The two blocks are the halves of the block of the next level.
  have split := add_mul (blockStart (shape.relative rank) (level + 1))
    (2 ^ level) shape.scatterSize
  rcases blockStart_halves (shape.relative rank) level with
    ⟨first, second⟩ | ⟨first, second⟩
  all_goals
    constructor
    · simp only [length_piece, first, second]
      omega
    · apply knows.mono
      rintro index inside ⟨lower, upper⟩
      unfold Within
      rw [first, second]
      omega

theorem yields_doublingLoop
    (pof2 : shape.IsPof2)
    (fits : reading = .lenient ∨ shape.PiecesWithin)
    {rank : Nat}
    (inComm : rank < shape.commSize)
    (fuel : Nat)
    {level : Nat}
    (within : level ≤ shape.levels)
    (enough : shape.levels ≤ level + fuel)
    {node : Node Cell}
    (here : shape.Doubled contents rank level node) :
    ((shape.call contents rank).doublingLoop reading fuel (2 ^ level) level
        node).Yields
      (opsOf (shape.doublingRound contents rank) (range' level (shape.levels - level)))
      (shape.Doubled contents rank shape.levels) := by
  have size : (shape.call contents rank).commSize = shape.commSize := rfl
  induction fuel generalizing level node with
  | zero =>
    obtain rfl : level = shape.levels := by omega
    have last : ¬ 2 ^ shape.levels < shape.commSize := by
      rw [← lt_levels_iff]
      exact lt_irrefl _
    rw [Call.doublingLoop, size, if_neg last, Nat.sub_self]
    exact Prog.yields_pure here
  | succ fuel ih =>
    rw [Call.doublingLoop, size]
    by_cases more : level < shape.levels
    · have dstIn := relative_xor_lt pof2 inComm more
      have complete : ¬ shape.commSize <
          blockStart (shape.relative rank ^^^ 2 ^ level) level + 2 ^ level := by
        have inside := dstIn
        rw [commSize_eq pof2] at inside
        have := blockStart_add_le inside more.le
        rw [← commSize_eq pof2] at this
        omega
      rw [if_pos (lt_levels_iff.mp more),
        show shape.levels - level = shape.levels - (level + 1) + 1 by omega,
        range'_succ, opsOf_cons, relativeRank_call inComm, two_pow_shiftLeft]
      simp only [treeRoot_eq]
      apply (here.exchange pof2 fits inComm more).bind
      intro node exchanged
      rw [Call.completeTree, size, if_neg complete]
      exact ih more (by omega) exchanged
    · obtain rfl : level = shape.levels := by omega
      rw [if_neg fun less => more (lt_levels_iff.mpr less), Nat.sub_self]
      exact Prog.yields_pure here

theorem recvcnts_call (rank i : Nat) :
    (shape.call contents rank).recvcnts i =
      min (shape.nbytes - i * shape.scatterSize) shape.scatterSize := by
  unfold Call.recvcnts
  rw [nbytes_call, scatterSize_call]

theorem displs_call (rank i : Nat) :
    (shape.call contents rank).displs i = min (i * shape.scatterSize) shape.nbytes := by
  induction i with
  | zero =>
    rw [Call.displs, zero_mul]
    exact (Nat.min_eq_left (Nat.zero_le _)).symm
  | succ i ih =>
    rw [Call.displs, ih, recvcnts_call, add_mul, one_mul]
    omega

variable (shape contents) in
/-- One piece. -/
def pieceData (position : Nat) : List Cell :=
  shape.piece contents (min (position * shape.scatterSize) shape.nbytes)
    (min (shape.nbytes - position * shape.scatterSize) shape.scatterSize)

variable (shape contents) in
/-- The communications of a rank in a step of the ring. -/
def ringRound (rank i : Nat) : Round Nat (List Cell) :=
  exchangeRound (· < shape.commSize) (ahead shape.commSize · 1)
    (behind shape.commSize · 1)
    (fun rank => shape.pieceData contents
      (behind shape.commSize (shape.relative rank) i)) rank

theorem ringRound_agrees :
    ScheduleAgrees (shape.ringRound contents) (List.range (shape.commSize - 1)) := by
  intro i _ src dst
  apply ring_agrees
  exact commSize_pos

variable (shape) in
/-- The positions of the pieces that a process has after some steps. -/
def Passed (rank i index : Nat) : Prop :=
  ∃ steps ≤ i, Within
    (behind shape.commSize (shape.relative rank) steps * shape.scatterSize)
    shape.scatterSize index

theorem yields_ringLoop
    {rank : Nat}
    (inComm : rank < shape.commSize)
    {more i : Nat}
    (within : i + more + 1 ≤ shape.commSize)
    {buffer : List Cell}
    (here : shape.Knows contents (shape.Passed rank i) buffer) :
    ((shape.call contents rank).ringLoop reading more
        (behind shape.commSize rank i)
        (behind shape.commSize rank (i + 1)) buffer).Yields
      (opsOf (shape.ringRound contents rank) (range' i more))
      (shape.Knows contents (shape.Passed rank (i + more))) := by
  induction more generalizing i buffer with
  | zero => exact Prog.yields_pure here
  | succ more ih =>
    have relativeIn := relative_lt inComm
    have left : ((shape.call contents rank).commSize +
        (shape.call contents rank).rank - 1) % (shape.call contents rank).commSize =
        behind shape.commSize rank 1 := by
      rw [add_comm]
      rfl
    have right : ((shape.call contents rank).rank + 1) %
        (shape.call contents rank).commSize = ahead shape.commSize rank 1 := rfl
    have piece : ∀ steps ≤ shape.commSize, (shape.call contents rank).pieceOf
            (behind shape.commSize rank steps) =
          behind shape.commSize (shape.relative rank) steps := by
      intro steps inside
      exact behind_comm inComm inside shape.root_lt.le
    have next : ((shape.call contents rank).commSize +
        behind shape.commSize rank (i + 1) - 1) % (shape.call contents rank).commSize =
        behind shape.commSize rank (i + 1 + 1) := by
      change (shape.commSize + behind shape.commSize rank (i + 1) - 1) % shape.commSize = _
      rw [add_comm shape.commSize, ← @behind_behind _ _ (i + 1) 1 inComm (by omega)]
      rfl
    have ops : (shape.ringRound contents rank i).ops = [.send (ahead shape.commSize rank 1)
          (shape.pieceData contents (behind shape.commSize (shape.relative rank) i)),
         .recv (behind shape.commSize rank 1)
          (shape.pieceData contents (behind shape.commSize (shape.relative rank) (i + 1)))] := by
      have source : behind shape.commSize
          (shape.relative (behind shape.commSize rank 1)) i =
            behind shape.commSize (shape.relative rank) (i + 1) := by
        unfold relative
        rw [behind_comm inComm (by omega) shape.root_lt.le,
          behind_behind (behind_lt inComm) (by omega), add_comm]
      have step : (shape.ringRound contents rank i).ops = _ := ops_exchangeRound inComm
      rw [step, source]
    have sentIn := @behind_lt _ _ i relativeIn
    generalize sentEq :
      behind shape.commSize (shape.relative rank) i = sent at ops sentIn
    generalize receivedEq :
      behind shape.commSize (shape.relative rank) (i + 1) = received
      at ops
    have loaded := @Knows.load _ shape reading contents _ _ here
      (min (sent * shape.scatterSize) shape.nbytes)
      (min (shape.nbytes - sent * shape.scatterSize) shape.scatterSize)
      (Or.inr (by omega)) (by
        rintro index inside ⟨lower, upper⟩
        exact ⟨i, le_rfl, by rw [sentEq]; exact ⟨by omega, by omega⟩⟩)
    obtain ⟨written, storedEq, knows⟩ :=
      @Knows.store _ shape reading contents _ _ here
      (min (received * shape.scatterSize) shape.nbytes)
      (min (shape.nbytes - received * shape.scatterSize) shape.scatterSize)
      (Or.inr (by omega))
    have accepted : reading.Overlooks (shape.pieceData contents received).length ∨
        ((shape.pieceData contents received).length : Int) ≤
          (min (shape.nbytes - received * shape.scatterSize) shape.scatterSize : Nat) := by
      rw [pieceData, length_piece]
      exact Or.inr le_rfl
    rw [Call.ringLoop, left, right, piece i (by omega),
      piece (i + 1) (by omega), next, range'_succ, opsOf_cons, ops,
      displs_call, displs_call, recvcnts_call, recvcnts_call, sentEq, receivedEq, loaded]
    have sentOut := ends_mpicSend (ahead shape.commSize rank 1) (shape.pieceData contents sent)
    refine sentOut.bind_yields ((reading.ends_recv accepted).bind_yields ?_)
    unfold pieceData
    rw [storedEq]
    have rest := @ih (i + 1) (by omega) written (by
      apply knows.mono
      rintro index inside ⟨steps, bound, lower, upper⟩
      rcases lt_or_ge i steps with last | earlier
      · obtain rfl : steps = i + 1 := by omega
        rw [receivedEq] at lower upper
        exact Or.inr ⟨by omega, by omega⟩
      · exact Or.inl ⟨steps, earlier, lower, upper⟩)
    rw [show i + 1 + more = i + (more + 1) by omega] at rest
    exact rest

/-- All pieces have passed after all steps. -/
theorem passed_all
    {rank index : Nat}
    (inComm : rank < shape.commSize)
    (inside : index < shape.nbytes) :
    shape.Passed rank (shape.commSize - 1) index := by
  have all := @nbytes_le shape
  have positive : 0 < shape.scatterSize := by
    by_contra none
    rw [Nat.eq_zero_of_not_pos none, mul_zero] at all
    omega
  have owner : index / shape.scatterSize < shape.commSize := by
    rw [Nat.div_lt_iff_lt_mul positive]
    omega
  obtain ⟨steps, bound, reached⟩ := exists_ahead_eq owner (relative_lt inComm)
  refine ⟨steps, by omega, ?_⟩
  rw [(ahead_eq_iff owner (relative_lt inComm) bound.le).mp reached]
  have position := Nat.div_add_mod' index shape.scatterSize
  have rest := Nat.mod_lt index positive
  exact ⟨by omega, by omega⟩

variable (shape) in
/-- The processes use the recursive doubling after a scatter. -/
def Doubles : Prop :=
  shape.nbytes < bcastLongMsg ∧ shape.IsPof2

instance : Decidable shape.Doubles :=
  inferInstanceAs (Decidable (_ ∧ _))

variable (shape contents) in
/-- The communications of a rank when the pieces are gathered. -/
def gatherRound (rank step : Nat) : Round Nat (List Cell) :=
  if shape.Doubles then shape.doublingRound contents rank step
  else shape.ringRound contents rank step

variable (shape) in
/-- The steps in which the pieces are gathered. -/
def gatherSteps : List Nat :=
  if shape.Doubles then List.range shape.levels
  else List.range (shape.commSize - 1)

theorem gatherRound_agrees :
    ScheduleAgrees (shape.gatherRound contents) shape.gatherSteps := by
  unfold gatherRound gatherSteps
  by_cases doubles : shape.Doubles
  · simp only [if_pos doubles]
    exact doublingRound_agrees doubles.2
  · simp only [if_neg doubles]
    exact ringRound_agrees

theorem gatherRound_outside
    {rank : Nat}
    (outside : ¬ rank < shape.commSize)
    (step : Nat) :
    shape.gatherRound contents rank step = .idle := by
  unfold gatherRound
  split
  · exact exchangeRound_of_not outside
  · exact exchangeRound_of_not outside

theorem ends_allgather
    (fits : shape.Doubles → reading = .lenient ∨ shape.PiecesWithin)
    {rank : Nat}
    (inComm : rank < shape.commSize)
    {node : Node Cell}
    (scattered : shape.Scattered contents rank 0 node) :
    ((shape.call contents rank).allgather reading node).Ends
      (opsOf (shape.gatherRound contents rank) shape.gatherSteps)
      (shape.rootData contents) := by
  have choice : ((shape.call contents rank).nbytes < bcastLongMsg ∧
      (shape.call contents rank).commSizeIsPof2) = shape.Doubles := by
    rw [nbytes_call]
    rfl
  unfold Call.allgather gatherRound gatherSteps
  simp only [choice]
  by_cases doubles : shape.Doubles
  · simp only [if_pos doubles]
    have loop := @yields_doublingLoop _ shape reading contents doubles.2
      (fits doubles) _ inComm shape.commSize 0 (Nat.zero_le _) (by
        rw [zero_add]
        exact levels_le) _ scattered.doubled
    rw [Nat.sub_zero, ← range_eq_range'] at loop
    rw [← append_nil (opsOf _ _)]
    apply Prog.Yields.ends
    apply loop.bind
    intro node doubled
    apply Prog.yields_pure
    apply doubled.knows.eq_rootData
    intro index inside
    have size := commSize_eq doubles.2
    have all := @nbytes_le shape
    have relativeIn := relative_lt inComm
    rw [size] at all relativeIn
    rw [blockStart_of_lt relativeIn, zero_mul]
    exact ⟨Nat.zero_le _, by omega⟩
  · simp only [if_neg doubles]
    have left : ((shape.call contents rank).commSize +
        (shape.call contents rank).rank - 1) % (shape.call contents rank).commSize =
        behind shape.commSize rank (0 + 1) := by
      rw [add_comm]
      rfl
    have own : (shape.call contents rank).rank =
        behind shape.commSize rank 0 := (behind_zero inComm).symm
    have loop := @yields_ringLoop _ shape reading contents _ inComm
      (shape.commSize - 1) 0 (by omega) node.tmpBuf (by
        apply scattered.knows.mono
        rintro index - ⟨steps, bound, lower, upper⟩
        rw [Nat.le_zero.mp bound, behind_zero (relative_lt inComm)]
          at lower upper
        rw [pow_zero, one_mul]
        exact ⟨lower, upper⟩)
    rw [left, own, range_eq_range']
    apply Prog.Yields.ends
    apply loop.mono
    intro buffer knows
    apply knows.eq_rootData
    intro index inside
    rw [zero_add]
    exact passed_all inComm inside

end Shape

end Mpich.Coll.Bcast
