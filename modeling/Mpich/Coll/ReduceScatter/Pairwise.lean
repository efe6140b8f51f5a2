import Mpich.Coll.ReduceScatter.Defs

/-!
# Pairwise exchange

In round `i` each rank sends the elements for the rank `i` above it, and
combines those that come from the rank `i` below it with its own. The order in
which the elements of the ranks are combined follows from that.
-/

namespace Mpich.Coll.ReduceScatter

open Buffer MessagePassing List Option

/-- The rank that a rank receives from in a round. -/
def source (commSize rank i : Nat) : Nat :=
  (rank + commSize - i) % commSize

/-- The rank that a rank sends to in a round. -/
def target (commSize rank i : Nat) : Nat :=
  (rank + i) % commSize

section

variable
    {commSize rank i : Nat}
    (inComm : rank < commSize)

include inComm

theorem source_eq_ite
    (positive : 0 < i)
    (within : i < commSize) :
    source commSize rank i = if i ≤ rank then rank - i else rank + commSize - i := by
  unfold source
  by_cases noWrap : i ≤ rank
  · rw [if_pos noWrap, show rank + commSize - i = rank - i + commSize by omega,
      Nat.add_mod_right, Nat.mod_eq_of_lt (by omega)]
  · rw [if_neg noWrap, Nat.mod_eq_of_lt (by omega)]

theorem target_eq_ite (within : i < commSize) :
    target commSize rank i = if rank + i < commSize then rank + i else rank + i - commSize := by
  unfold target
  by_cases noWrap : rank + i < commSize
  · rw [if_pos noWrap, Nat.mod_eq_of_lt noWrap]
  · rw [if_neg noWrap, Nat.mod_eq_sub_mod (by omega), Nat.mod_eq_of_lt (by omega)]

theorem source_lt :
    source commSize rank i < commSize :=
  Nat.mod_lt _ (by omega)

theorem target_lt :
    target commSize rank i < commSize :=
  Nat.mod_lt _ (by omega)

theorem target_ne
    (positive : 0 < i)
    (within : i < commSize) :
    target commSize rank i ≠ rank := by
  rw [target_eq_ite inComm within]
  split <;> omega

end

/-- Sending and receiving in a round fit together. -/
theorem target_eq_iff
    {commSize src dst i : Nat}
    (srcIn : src < commSize)
    (dstIn : dst < commSize)
    (positive : 0 < i)
    (within : i < commSize) :
    target commSize src i = dst ↔ source commSize dst i = src := by
  rw [target_eq_ite srcIn within, source_eq_ite dstIn positive within]
  constructor
  · intro sends
    split at sends <;> split <;> omega
  · intro receives
    split at receives <;> split <;> omega

variable {Cell : Type}

namespace Shape

variable (shape : Shape) (uop : Cell → Cell → Cell) (contents : Contents Cell)

/-- The elements for a rank as its buffer has them after some rounds. -/
def combined (rank : Nat) : Nat → Nat → Cell
  | 0, index => contents.input rank (shape.disps rank + index)
  | i + 1, index =>
    let src := source shape.commSize rank (i + 1)
    let received := contents.input src (shape.disps rank + index)
    if shape.isCommutative ∨ src < rank then
      uop received (combined rank i index)
    else
      uop (combined rank i index) received

/-- The order in which the ranks have been combined after some rounds. -/
def arrivals (rank : Nat) : Nat → List Nat
  | 0 => [rank]
  | i + 1 =>
    let src := source shape.commSize rank (i + 1)
    if shape.isCommutative ∨ src < rank then src :: arrivals rank i
    else arrivals rank i ++ [src]

/-- The place of the result in the receive buffer. -/
def resultAt (rank : Nat) : Nat :=
  if shape.inPlace rank then shape.disps rank else 0

/-- The elements that a rank has received in the last round, or combined with
the result before. -/
def tmpcell (rank : Nat) : Nat → Nat → Cell
  | 0, index => contents.garbage rank index
  | i + 1, index =>
    let src := source shape.commSize rank (i + 1)
    if shape.isCommutative ∨ src < rank then
      contents.input src (shape.disps rank + index)
    else shape.combined uop contents rank (i + 1) index

/-- The receive buffer after some rounds. -/
def recvbufAfter (rank i : Nat) : List Cell :=
  tabulate (shape.recvLength rank)
    (patch (shape.recvcell contents rank) (shape.resultAt rank)
      (shape.recvcnts rank) (shape.combined uop contents rank i))

/-- The variables of a rank after some rounds. -/
def exchangeAfter (rank i : Nat) : Call.Exchange Cell where
  recvbuf := shape.recvbufAfter uop contents rank i
  tmpRecvbuf := tabulate (shape.recvcnts rank) (shape.tmpcell uop contents rank i)

/-- The elements of one rank for another. -/
def slice (src dst : Nat) : List Cell :=
  tabulate (shape.recvcnts dst) fun index =>
    contents.input src (shape.disps dst + index)

/-- The communications of a rank in a round of the pairwise exchange. -/
def pairwiseRound (rank i : Nat) : Round Nat (List Cell) :=
  if rank < shape.commSize then
    { sends :=
        [(target shape.commSize rank i, shape.slice contents rank (target shape.commSize rank i))]
      recvs :=
        [(source shape.commSize rank i,
          shape.slice contents (source shape.commSize rank i) rank)] }
  else .idle

end Shape

variable {shape : Shape} {uop : Cell → Cell → Cell} {contents : Contents Cell}

theorem Shape.pairwiseRound_agrees :
    ScheduleAgrees (shape.pairwiseRound contents) (range' 1 (shape.commSize - 1)) := by
  intro i member src dst
  obtain ⟨positive, within⟩ : 0 < i ∧ i < shape.commSize := by
    rw [mem_range'_1] at member
    omega
  unfold Shape.pairwiseRound
  by_cases srcIn : src < shape.commSize
  · rw [if_pos srcIn]
    by_cases dstIn : dst < shape.commSize
    · rw [if_pos dstIn]
      simp only [Round.withRank_singleton]
      by_cases paired : target shape.commSize src i = dst
      · rw [if_pos paired, if_pos ((target_eq_iff srcIn dstIn positive within).mp paired), paired,
          (target_eq_iff srcIn dstIn positive within).mp paired]
      · rw [if_neg paired, if_neg]
        exact fun receives =>
          paired ((target_eq_iff srcIn dstIn positive within).mpr receives)
    · rw [if_neg dstIn]
      simp only [Round.withRank_singleton, Round.idle, Round.withRank_nil]
      rw [if_neg]
      rintro rfl
      exact dstIn (target_lt srcIn)
  · rw [if_neg srcIn]
    by_cases dstIn : dst < shape.commSize
    · rw [if_pos dstIn]
      simp only [Round.withRank_singleton, Round.idle, Round.withRank_nil]
      rw [if_neg]
      rintro rfl
      exact srcIn (source_lt dstIn)
    · rw [if_neg dstIn]
      rfl

variable {rank : Nat}

section

variable (inComm : rank < shape.commSize)

include inComm

theorem Shape.result_within :
    shape.resultAt rank + shape.recvcnts rank ≤ shape.recvLength rank := by
  unfold Shape.resultAt Shape.recvLength
  split
  · exact slot_within inComm
  · exact (zero_add _).le

omit inComm in
theorem Shape.combined_succ_of_left
    {rank i : Nat}
    (left : shape.isCommutative ∨ source shape.commSize rank (i + 1) < rank)
    (index : Nat) :
    shape.combined uop contents rank (i + 1) index =
      uop (contents.input (source shape.commSize rank (i + 1))
        (shape.disps rank + index)) (shape.combined uop contents rank i index) := by
  exact if_pos left

omit inComm in
theorem Shape.combined_succ_of_right
    {rank i : Nat}
    (right : ¬ (shape.isCommutative ∨ source shape.commSize rank (i + 1) < rank))
    (index : Nat) :
    shape.combined uop contents rank (i + 1) index = uop (shape.combined uop contents rank i index)
        (contents.input (source shape.commSize rank (i + 1)) (shape.disps rank + index)) := by
  exact if_neg right

/-- What a rank does with the elements that it receives. -/
theorem Shape.absorb_exchangeAfter
    (i : Nat) :
    (shape.call uop contents rank).absorb (source shape.commSize rank (i + 1))
        (shape.exchangeAfter uop contents rank i)
        (shape.slice contents (source shape.commSize rank (i + 1)) rank) =
      some (shape.exchangeAfter uop contents rank (i + 1)) := by
  have within := Shape.result_within inComm
  have offset : (shape.call uop contents rank).resultOffset = shape.resultAt rank := rfl
  have count : (shape.call uop contents rank).recvcnts = shape.recvcnts := rfl
  have order : (shape.call uop contents rank).isCommutative = shape.isCommutative := rfl
  have self : (shape.call uop contents rank).rank = rank := rfl
  have operation : (shape.call uop contents rank).uop = uop := rfl
  unfold Call.absorb
  simp only [Shape.slice, Shape.exchangeAfter, Shape.recvbufAfter, offset, count,
    order, self, operation, store_tabulate_all, bind_some]
  by_cases left :
      shape.isCommutative ∨ source shape.commSize rank (i + 1) < rank
  · rw [if_pos left, applyOp_tabulate (by omega) within, map_some, patch_patch]
    refine congrArg some (congrArg₂ Call.Exchange.mk (congrArg _ ?_)
      (congrArg _ ?_))
    · apply patch_congr
      intro index inside
      rw [patch_add inside, Shape.combined_succ_of_left left, zero_add]
    · funext index
      exact (if_pos left).symm
  · have accumulated :
        (fun index => shape.tmpcell uop contents rank (i + 1) index) =
          shape.combined uop contents rank (i + 1) := by
      funext index
      exact if_neg left
    rw [if_neg left, applyOp_tabulate within (by omega), bind_some,
      localcopy_tabulate (by omega) within, map_some, patch_patch]
    have results : ∀ index < shape.recvcnts rank, patch
          (fun index => contents.input (source shape.commSize rank (i + 1))
            (shape.disps rank + index)) 0 (shape.recvcnts rank)
          (fun index => uop
            (patch (shape.recvcell contents rank) (shape.resultAt rank)
              (shape.recvcnts rank) (shape.combined uop contents rank i)
              (shape.resultAt rank + index))
            (contents.input (source shape.commSize rank (i + 1))
              (shape.disps rank + (0 + index)))) index =
          shape.combined uop contents rank (i + 1) index := by
      intro index inside
      rw [patch_of_mem (by omega), Nat.sub_zero,
        patch_add inside, Shape.combined_succ_of_right left, zero_add]
    refine congrArg some (congrArg₂ Call.Exchange.mk (congrArg _ ?_)
      (tabulate_congr ?_))
    · apply patch_congr
      intro index inside
      rw [zero_add]
      exact results index inside
    · intro index inside
      rw [results index inside]
      exact (congrFun accumulated index).symm

omit inComm in
/-- The elements that a rank sends are those that it started with. -/
theorem Shape.load_exchangeAfter
    {rank dst : Nat}
    (dstIn : dst < shape.commSize)
    (different : dst ≠ rank)
    (i : Nat) :
    load
        (if shape.inPlace rank then
          (shape.exchangeAfter uop contents rank i).recvbuf
        else (shape.call uop contents rank).sendbuf)
        (shape.disps dst) (shape.recvcnts dst) =
      some (shape.slice contents rank dst) := by
  have within := Shape.slot_within dstIn
  unfold Shape.exchangeAfter Shape.recvbufAfter Shape.recvLength Shape.resultAt
    Shape.recvcell Shape.call Shape.slice
  by_cases place : shape.inPlace rank
  · simp only [if_pos place]
    rw [load_tabulate within]
    apply congrArg some
    apply tabulate_congr
    intro index inside
    rw [patch_of_not_mem (Shape.slots_disjoint different inside)]
  · simp only [if_neg place]
    rw [load_tabulate within]

theorem Shape.ends_pairwiseLoop
    (fuel : Nat)
    {i : Nat}
    (within : i + 1 ≤ shape.commSize)
    (enough : shape.commSize ≤ i + 1 + fuel) :
    ((shape.call uop contents rank).pairwiseLoop fuel (i + 1)
        (shape.exchangeAfter uop contents rank i)).Ends
      (opsOf (shape.pairwiseRound contents rank) (range' (i + 1) (shape.commSize - (i + 1))))
      (shape.exchangeAfter uop contents rank (shape.commSize - 1)) := by
  have size : (shape.call uop contents rank).commSize = shape.commSize := rfl
  induction fuel generalizing i with
  | zero =>
    have last : shape.commSize - (i + 1) = 0 := by omega
    rw [Call.pairwiseLoop, if_neg (by rw [size]; omega), last, show shape.commSize - 1 = i by omega]
    exact Prog.ends_done _
  | succ fuel ih =>
    rw [Call.pairwiseLoop, size]
    by_cases more : i + 1 < shape.commSize
    · have first : shape.pairwiseRound contents rank (i + 1) = _ :=
        if_pos inComm
      rw [if_pos more, show shape.commSize - (i + 1) = shape.commSize - (i + 1 + 1) + 1 by
          omega,
        range'_succ, opsOf_cons, first]
      have sent := @Shape.load_exchangeAfter _ shape uop contents _ _
        (target_lt inComm) (target_ne inComm (Nat.succ_pos i) more) i
      have received := @ends_mpicRecv _ _ (source shape.commSize rank (i + 1)) _
        (length_tabulate (shape.recvcnts rank) fun index =>
          contents.input (source shape.commSize rank (i + 1)) (shape.disps rank + index)).le
      exact (ends_ofOption sent).bind
        ((ends_mpicSend _ _).bind
          (received.bind
            ((ends_ofOption (Shape.absorb_exchangeAfter inComm i)).bind (ih more (by omega)))))
    · have last : shape.commSize - (i + 1) = 0 := by omega
      rw [if_neg more, last, show shape.commSize - 1 = i by omega]
      exact Prog.ends_done _

/-- The receive buffer of a rank after the pairwise exchange. -/
def Shape.pairwiseOut
    (shape : Shape)
    (uop : Cell → Cell → Cell)
    (contents : Contents Cell)
    (rank : Nat) : List Cell :=
  let result := shape.combined uop contents rank (shape.commSize - 1)
  let moved :=
    if shape.typeIsContig ∧ shape.disps rank < shape.recvcnts rank then
      contents.overlap rank
    else result
  let recvbuf := patch (shape.recvcell contents rank)
    (shape.resultAt rank) (shape.recvcnts rank) result
  tabulate (shape.recvLength rank)
    (if shape.inPlace rank ∧ rank ≠ 0 then
      patch recvbuf 0 (shape.recvcnts rank) moved
    else recvbuf)

theorem Shape.moveResult_exchangeAfter :
    (shape.call uop contents rank).moveResult
        (shape.recvbufAfter uop contents rank (shape.commSize - 1)) =
      some (shape.pairwiseOut uop contents rank) := by
  have within := Shape.result_within inComm
  have atFront : 0 + shape.recvcnts rank ≤ shape.recvLength rank := by omega
  unfold Call.moveResult Shape.pairwiseOut
  change (if shape.inPlace rank = true ∧ rank ≠ 0 then
    (if shape.typeIsContig = true ∧ shape.disps rank < shape.recvcnts rank then
      store _ 0 (tabulate (shape.recvcnts rank) (contents.overlap rank))
    else localcopy _ (shape.disps rank) _ 0 (shape.recvcnts rank))
    else some _) = _
  simp only
  by_cases moves : shape.inPlace rank = true ∧ rank ≠ 0
  · have start : shape.resultAt rank = shape.disps rank := if_pos moves.1
    rw [if_pos moves, if_pos moves, Shape.recvbufAfter]
    by_cases overlaps :
        shape.typeIsContig = true ∧ shape.disps rank < shape.recvcnts rank
    · rw [if_pos overlaps, if_pos overlaps, store_tabulate atFront]
    · rw [if_neg overlaps, if_neg overlaps, ← start, localcopy_tabulate within atFront]
      refine congrArg some (congrArg _ (patch_congr ?_ _ _))
      intro index inside
      rw [patch_add inside]
  · rw [if_neg moves, if_neg moves]
    rfl

/-- The receive buffer before the first round, with the rank's own elements at
the place of the result. -/
theorem Shape.start_pairwise :
    (if shape.inPlace rank then some (shape.call uop contents rank).recvbuf
      else localcopy (shape.call uop contents rank).sendbuf (shape.disps rank)
        (shape.call uop contents rank).recvbuf 0 (shape.recvcnts rank)) =
      some (shape.recvbufAfter uop contents rank 0) := by
  have within := Shape.slot_within inComm
  have initial : shape.combined uop contents rank 0 = fun index =>
      contents.input rank (shape.disps rank + index) := rfl
  unfold Shape.recvbufAfter Shape.recvLength Shape.resultAt Shape.recvcell Shape.call
  by_cases place : shape.inPlace rank
  · simp only [if_pos place]
    rw [initial, patch_self]
  · simp only [if_neg place]
    rw [localcopy_tabulate within (by omega), initial]

/-- The pairwise exchange completes. -/
theorem Shape.ends_pairwiseExchange :
    (shape.call uop contents rank).pairwiseExchange.Ends
      (opsOf (shape.pairwiseRound contents rank) (range' 1 (shape.commSize - 1)))
      (shape.pairwiseOut uop contents rank) := by
  have loop := @Shape.ends_pairwiseLoop _ shape uop contents _ inComm
    shape.commSize 0 (by omega) (by omega)
  rw [← append_nil (opsOf _ _)]
  exact (ends_ofOption (Shape.start_pairwise inComm)).bind
    (loop.bind (ends_ofOption (Shape.moveResult_exchangeAfter inComm)))

omit inComm in
/-- The elements of a rank are combined in the order of the arrivals. -/
theorem Shape.product_arrivals
    (associative : ∀ a b c, uop (uop a b) c = uop a (uop b c))
    (rank i index : Nat) :
    OrderedProduct.product uop
        (fun src => contents.input src (shape.disps rank + index))
        (shape.arrivals rank i) =
      some (shape.combined uop contents rank i index) := by
  induction i with
  | zero => rfl
  | succ i ih =>
    rw [Shape.arrivals]
    by_cases left :
        shape.isCommutative ∨ source shape.commSize rank (i + 1) < rank
    · rw [Shape.combined_succ_of_left left]
      simp only [if_pos left]
      exact OrderedProduct.product_cons _ ih
    · rw [Shape.combined_succ_of_right left]
      simp only [if_neg left]
      exact OrderedProduct.product_append associative ih rfl

omit inComm in
/-- The ranks below a rank, and around the end of the communicator, have been
combined after some rounds. -/
theorem Shape.arrivals_perm (rank i : Nat) :
    (shape.arrivals rank i).Perm
      (rank :: (range' 1 i).map (source shape.commSize rank)) := by
  induction i with
  | zero => exact .refl _
  | succ i ih =>
    have last : (rank :: (range' 1 i).map (source shape.commSize rank)) ++
        [source shape.commSize rank (i + 1)] =
      rank :: (range' 1 (i + 1)).map (source shape.commSize rank) := by
      rw [range'_concat, map_append, one_mul, add_comm 1 i]
      rfl
    rw [← last, Shape.arrivals]
    split
    · exact (perm_append_singleton _ _).symm.trans (ih.append_right _)
    · exact ih.append_right _

/-- In the end every rank has been combined once. -/
theorem Shape.arrivals_perm_range :
    (shape.arrivals rank (shape.commSize - 1)).Perm
      (List.range shape.commSize) := by
  refine (Shape.arrivals_perm rank _).trans ?_
  apply List.Subperm.perm_of_length_le
  · apply List.Nodup.subperm
    · apply nodup_cons.mpr
      constructor
      · intro member
        obtain ⟨i, inRounds, same⟩ := mem_map.mp member
        rw [mem_range'_1] at inRounds
        rw [source_eq_ite inComm (by omega) (by omega)] at same
        split at same <;> omega
      · apply List.Nodup.map_on _ nodup_range'
        intro first firstIn second secondIn same
        rw [mem_range'_1] at firstIn secondIn
        rw [source_eq_ite inComm (by omega) (by omega),
          source_eq_ite inComm (by omega) (by omega)] at same
        split at same <;> split at same <;> omega
    · intro src member
      rw [mem_range]
      rcases mem_cons.mp member with rfl | later
      · exact inComm
      · obtain ⟨i, -, rfl⟩ := mem_map.mp later
        exact source_lt inComm
  · rw [length_range, length_cons, length_map, length_range']
    omega

end

/-- Without commutativity, the ranks above a rank come in decreasing order
behind the ranks up to it. -/
theorem Shape.arrivals_of_ordered
    {rank i : Nat}
    (ordered : shape.isCommutative = false)
    (within : rank + i < shape.commSize) :
    shape.arrivals rank (rank + i) = List.range (rank + 1) ++
        (List.range i).map fun later => shape.commSize - 1 - later := by
  induction i with
  | zero =>
    rw [range_zero, map_nil, append_nil, add_zero]
    have below : ∀ steps ≤ rank, shape.arrivals rank steps = range' (rank - steps) (steps + 1) := by
      intro steps order
      induction steps with
      | zero => rfl
      | succ steps ih =>
        have src : source shape.commSize rank (steps + 1) = rank - (steps + 1) := by
          rw [source_eq_ite (by omega) (by omega) (by omega), if_pos order]
        rw [Shape.arrivals]
        simp only [src]
        have start : rank - (steps + 1) + 1 = rank - steps := by omega
        rw [if_pos (Or.inr (by omega)), ih (by omega), ← start]
        exact range'_succ.symm
    rw [below rank le_rfl, Nat.sub_self, range_eq_range']
  | succ i ih =>
    have src : source shape.commSize rank (rank + i + 1) = shape.commSize - 1 - i := by
      rw [source_eq_ite (by omega) (by omega) (by omega), if_neg (by omega)]
      omega
    rw [← add_assoc, Shape.arrivals]
    simp only [src]
    have step : ((List.range (i + 1)).map
        fun later => shape.commSize - 1 - later) =
          ((List.range i).map fun later => shape.commSize - 1 - later) ++
            [shape.commSize - 1 - i] := by
      rw [range_succ, map_append]
      rfl
    rw [if_neg (by rw [ordered]; simp; omega), ih (by omega), step, append_assoc]

/-- Without commutativity, the arrivals are in order at the last two ranks
only. -/
theorem Shape.arrivals_eq_range_iff
    (ordered : shape.isCommutative = false)
    (inComm : rank < shape.commSize) :
    shape.arrivals rank (shape.commSize - 1) = List.range shape.commSize ↔
      shape.commSize ≤ rank + 2 := by
  have arrived := @Shape.arrivals_of_ordered shape rank
    (shape.commSize - 1 - rank) ordered (by omega)
  rw [Nat.add_sub_cancel' (by omega)] at arrived
  rw [arrived]
  constructor
  · intro same
    by_contra early
    have next : (_ : List Nat)[rank + 1]? = _ := congrArg (fun order => order[rank + 1]?) same
    rw [getElem?_append_right (by rw [length_range]), length_range,
      Nat.sub_self, getElem?_map, getElem?_range (by omega),
      getElem?_range (by omega), map_some] at next
    have := Option.some.inj next
    omega
  · intro late
    rcases lt_or_ge (rank + 1) shape.commSize with second | last
    · obtain size : shape.commSize = rank + 1 + 1 := by omega
      rw [size, show rank + 1 + 1 - 1 - rank = 1 by omega]
      exact range_succ.symm
    · rw [show shape.commSize - 1 - rank = 0 by omega, show shape.commSize = rank + 1 by omega]
      exact append_nil _

end Mpich.Coll.ReduceScatter
