import Mpich.Coll.Allgather.Placement

/-!
# All algorithms of allgather agree

Whichever algorithm the amount of data and the number of processes select, and
also if one of them is used regardless, the processes complete, each message
fits in the room of the receive that it reaches, and every receive buffer has
the data of all ranks at its places and is otherwise unchanged.
-/

namespace Mpich.Coll.Allgather

open MessagePassing List Buffer Cyclic

variable {Cell : Type}

/-! ## The algorithms of allgatherv -/

namespace Shape

variable {shape : Shape} {contents : Contents Cell}

variable (shape) in
/-- The amount of data of all ranks. -/
def total : Nat :=
  prefixSum shape.bytes shape.commSize

theorem position_mul
    (rank : Nat)
    {root : Nat}
    (within : root ≤ shape.commSize) :
    (shape.callV contents rank).position root * shape.recvtypeSize rank =
      prefixSum shape.bytes root := by
  refine (prefixSum_mul _ _).trans ?_
  apply prefixSum_congr
  intro number less
  exact shape.recv_eq rank number (by omega)

theorem totalCount_mul (rank : Nat) :
    (shape.callV contents rank).totalCount * shape.recvtypeSize rank = shape.total :=
  position_mul rank le_rfl

theorem tmpBuf_eq (rank : Nat) :
    (shape.callV contents rank).tmpBuf = tabulate shape.total (contents.garbage rank) :=
  congrArg (tabulate · (contents.garbage rank)) (totalCount_mul rank)

/-- Offsets in elements for the recursive doubling. -/
theorem measures (rank : Nat) :
    Measures (shape.callV contents rank).process shape.bytes
      (shape.callV contents rank).position
      (fun root => (shape.callV contents rank).totalCount -
        (shape.callV contents rank).position root) := by
  constructor
  · intro root within
    exact position_mul rank within
  · intro root less
    change _ ≤ _ * shape.recvtypeSize rank
    rw [Nat.sub_mul, totalCount_mul, position_mul rank less.le, span, Nat.add_sub_cancel' less.le]
    rfl

variable {rank : Nat}

theorem yields_recursiveDoubling
    (pof2 : CommSizeIsPof2 shape.commSize)
    (inComm : rank < shape.commSize) :
    (shape.callV contents rank).recursiveDoubling.Yields
      (opsOf (doublingRound shape.commSize shape.bytes (shape.block contents) rank)
        (List.range (levels shape.commSize)))
      (· = shape.gathered contents rank) := by
  have empty := @knows_tabulate Cell shape.total
    ((Layout.consecutive shape.commSize shape.bytes).fill (shape.block contents)
      (contents.garbage rank)) (shape.total ≤ ·) (contents.garbage rank)
    fun index inside beyond => absurd inside beyond.not_gt
  have bound := @prefixSum_mono shape.bytes _ _ (show rank + 1 ≤ shape.commSize from inComm)
  rw [prefixSum_succ] at bound
  obtain ⟨buf, copied, own⟩ := @knows_copyOwn Cell shape contents rank shape.total _
    ((shape.callV contents rank).position rank) _ _ _ inComm empty
    (position_mul rank inComm.le) (fun _ => bound)
    (@Layout.slice_fill Cell (Layout.consecutive shape.commSize shape.bytes) _
      inComm (shape.block contents) (contents.garbage rank))
  have loop := @ends_doubling Cell (shape.callV contents rank).process shape.bytes
    _ _ (shape.block contents) (contents.garbage rank) shape.total pof2 inComm
    (measures rank) le_rfl buf _ (shape.recv_eq rank rank inComm) own
  have copies := @copyBlocks_all Cell shape contents rank shape.total
    (fun number => number) (contents.garbage rank) (fun _ within => within)
    le_rfl (shape.inPlace rank) inComm (fun number within => ⟨number, within, rfl⟩)
    fun skips => skips
  rw [map_id'] at copies
  unfold CallV.recursiveDoubling
  rw [tmpBuf_eq, ← nil_append (opsOf _ _)]
  refine (ends_ofOption copied).bind_yields ?_
  rw [← append_nil (opsOf _ _)]
  apply loop.bind
  intro node done
  rw [done]
  exact Prog.yields_ofOption copies rfl

section

variable
    {rank : Nat}
    (inComm : rank < shape.commSize)

include inComm

/-- Counts in elements for Bruck's algorithm. -/
theorem turnedMeasures :
    TurnedMeasures (shape.callV contents rank).process shape.bytes
      (fun currCnt => (shape.callV contents rank).totalCount - currCnt)
      (fun currCnt recvCnt => currCnt + recvCnt)
      (shape.callV contents rank).firstCnt
      (fun _ currCnt => (shape.callV contents rank).totalCount - currCnt) := by
  have total := prefixSum_turnedSize inComm shape.bytes
  have room : ∀ count number currCnt, count + number ≤ shape.commSize →
      currCnt * shape.recvtypeSize rank =
        prefixSum (turnedSize shape.commSize shape.bytes rank) count →
      span (turnedSize shape.commSize shape.bytes rank) count number ≤
        ((shape.callV contents rank).totalCount - currCnt) * shape.recvtypeSize rank := by
    intro count number currCnt within amount
    rw [Nat.sub_mul, totalCount_mul, amount, Shape.total, ← total]
    exact Nat.sub_le_sub_right (prefixSum_mono within) _
  constructor
  · intro count within
    refine (prefixSum_mul _ _).trans ?_
    apply prefixSum_congr
    intro steps less
    exact shape.recv_eq rank _ (ahead_lt inComm)
  · intro count currCnt within amount
    exact room count count currCnt within amount
  · intro count currCnt recvCnt within amount received
    rw [add_mul, amount, received, prefixSum_add_span]
  · intro count currCnt within amount
    exact room count _ currCnt (Nat.add_sub_cancel' within).le amount

/-- The order of the blocks is that around the communicator. -/
theorem rotated_eq :
    (shape.callV contents rank).rotated =
      (List.range shape.commSize).map (ahead shape.commSize rank) := by
  have split := @range_add (shape.commSize - rank) rank
  rw [Nat.sub_add_cancel inComm.le] at split
  have lower : List.range rank = (List.range rank).map
      (ahead shape.commSize rank ∘ (shape.commSize - rank + ·)) := by
    nth_rewrite 1 [← map_id (List.range rank)]
    apply map_congr_left
    intro steps member
    have less := mem_range.mp member
    rw [Function.comp_apply, ahead_eq_ite inComm (by omega), if_neg (by omega), id_eq]
    omega
  rw [split, map_append, map_map]
  exact congrArg (_ ++ ·) lower

/-- The first block of the temporary buffer of Bruck's algorithm. -/
theorem knows_turned :
    ∃ buf, (shape.callV contents rank).copyOwn
          (tabulate shape.total (contents.garbage rank)) 0 = some buf ∧
      Turned (shape.callV contents rank).process shape.bytes shape.total
        (turned shape.commSize shape.bytes (shape.block contents)
          (contents.garbage rank) rank) (2 ^ 0)
        { buf, currCnt := shape.recvcounts rank rank, lastRecvCnt := 0 } := by
  have nonempty : 0 < shape.commSize := Nat.zero_lt_of_lt inComm
  have own : ahead shape.commSize rank 0 = rank := ahead_zero inComm
  have first : turnedSize shape.commSize shape.bytes rank 0 = shape.bytes rank :=
    congrArg shape.bytes own
  have one : prefixSum (turnedSize shape.commSize shape.bytes rank) (2 ^ 0) = shape.bytes rank := by
    rw [pow_zero, ← zero_add 1, prefixSum_succ, prefixSum_zero, zero_add, first]
  have bound : shape.bytes rank ≤ shape.total := by
    rw [← one, Shape.total, ← prefixSum_turnedSize inComm shape.bytes]
    exact prefixSum_mono nonempty
  have empty := @knows_tabulate Cell shape.total
    (turned shape.commSize shape.bytes (shape.block contents)
      (contents.garbage rank) rank) (fun _ => False) (contents.garbage rank)
    fun _ _ none => none.elim
  have slice := @Layout.slice_fill Cell
    (Layout.consecutive shape.commSize (turnedSize shape.commSize shape.bytes rank))
    0 nonempty
    (fun steps => shape.block contents (ahead shape.commSize rank steps))
    (contents.garbage rank)
  have size : (Layout.consecutive shape.commSize
      (turnedSize shape.commSize shape.bytes rank)).size 0 = shape.bytes rank := first
  rw [size, own] at slice
  obtain ⟨buf, copied, knows⟩ := @knows_copyOwn Cell shape contents rank shape.total _
    0 _ _ _ inComm empty (zero_mul _) (fun _ => (zero_add _).le.trans bound)
    slice
  refine ⟨buf, copied, ?_⟩
  constructor
  · exact (shape.recv_eq rank rank inComm).trans one.symm
  · apply knows.mono
    intro index _ less
    refine Or.inr ⟨Nat.zero_le _, ?_⟩
    rw [zero_add, ← one]
    exact less

theorem yields_bruck :
    (shape.callV contents rank).bruck.Yields
      (opsOf (bruckRound shape.commSize shape.bytes (shape.block contents) rank)
        (List.range (levels shape.commSize)))
      (· = shape.gathered contents rank) := by
  have nonempty : 0 < shape.commSize := Nat.zero_lt_of_lt inComm
  have total := prefixSum_turnedSize inComm shape.bytes
  obtain ⟨buf, copied, start⟩ := @knows_turned Cell shape contents rank inComm
  have loop := yields_bruckLoop inComm (turnedMeasures inComm) le_rfl
    shape.commSize nonempty ((Nat.log_le_self _ _).trans (Nat.le_add_left _ _)) start
  have copies := @copyBlocks_all Cell shape contents rank shape.total
    (ahead shape.commSize rank) (contents.garbage rank)
    (fun _ _ => ahead_lt inComm) total.le false inComm
    (fun number within => exists_ahead_eq inComm within) (by
      intro none
      cases none)
  unfold CallV.bruck
  rw [tmpBuf_eq, opsOf_bruckRound, ← nil_append (_ ++ _)]
  refine (ends_ofOption copied).bind_yields ?_
  apply loop.bind
  rintro ⟨pof2, node⟩ ⟨rfl, here⟩
  have rest := yields_bruckRest inComm (turnedMeasures inComm) le_rfl here
  rw [← append_nil (opsOf _ _)]
  apply rest.bind
  intro buf knows
  rw [knows.eq_tabulate fun index inside => inside, rotated_eq inComm]
  exact Prog.yields_ofOption copies rfl

end

/-! ### The ring -/

theorem ringMeasures (rank : Nat) :
    RingMeasures (shape.callV contents rank).process (shape.layout rank)
      (shape.callV contents rank).displs (shape.callV contents rank).recvcounts
      (shape.recvLength rank) :=
  ⟨rfl, fun _ _ => rfl, shape.recv_eq rank, shape.fits rank⟩

/-- The receive buffer with the process's own data in it. -/
theorem knows_withOwn
    (inComm : rank < shape.commSize) :
    ∃ buffer, (if shape.inPlace rank then some (shape.before contents rank)
      else (shape.callV contents rank).copyOwn (shape.before contents rank)
        (shape.displs rank rank)) = some buffer ∧
      Knows (shape.recvLength rank)
        ((shape.layout rank).fill (shape.block contents) (contents.output rank))
        (fun index =>
          (∀ number < shape.commSize, ¬ (shape.layout rank).Covers number index) ∨
            (shape.layout rank).Covers rank index) buffer := by
  by_cases inPlace : shape.inPlace rank = true
  · rw [if_pos inPlace]
    refine ⟨_, rfl, (knows_before rank).mono ?_⟩
    rintro index - (outside | covers)
    · exact Or.inl outside
    · exact Or.inr ⟨inPlace, inComm, covers⟩
  · rw [if_neg inPlace]
    obtain ⟨buffer, copied, knows⟩ := knows_copyOwn inComm (knows_before rank) rfl
      (shape.fits rank rank inComm)
      (@Layout.slice_fill Cell (shape.layout rank) _ inComm (shape.block contents)
        (contents.output rank))
    refine ⟨buffer, copied, knows.mono ?_⟩
    rintro index - (outside | covers)
    · exact Or.inl (Or.inl outside)
    · exact Or.inr covers

theorem yields_ring
    (inComm : rank < shape.commSize) :
    (shape.callV contents rank).ring.Yields
      (opsOf (ringRound (shape.layout rank) (shape.block contents) rank)
        (List.range (shape.commSize - 1)))
      (· = shape.gathered contents rank) := by
  obtain ⟨buffer, copied, knows⟩ := @knows_withOwn Cell shape contents rank inComm
  have measures := @ringMeasures Cell shape contents rank
  have loop := @Allgather.yields_ring Cell _ _ _ _ _ (shape.block contents)
    (contents.output rank) measures inComm buffer knows
  exact (ends_ofOption copied).bind_yields loop

end Shape

/-! ## All processes -/

/-- The algorithm that the sizes select, or one of the algorithms regardless of
the sizes. -/
inductive Algorithm
  | selected
  | recursiveDoubling
  | bruck
  | ring

/-- The recursive doubling is for powers of two. -/
def Algorithm.Applies (algorithm : Algorithm) (commSize : Nat) : Prop :=
  algorithm = .recursiveDoubling → CommSizeIsPof2 commSize

/-- `MPIR_Allgatherv`, or only one of its algorithms. -/
def CallV.run (call : CallV Cell) : Algorithm → Prog Nat (List Cell) (List Cell)
  | .selected => call.allgatherv
  | .recursiveDoubling => call.recursiveDoubling
  | .bruck => call.bruck
  | .ring => call.ring

/-- `MPIR_Allgather`, or only one of its algorithms. -/
def Call.run (call : Call Cell) : Algorithm → Prog Nat (List Cell) (List Cell)
  | .selected => call.allgather
  | .recursiveDoubling => call.recursiveDoubling
  | .bruck => call.bruck
  | .ring => call.ring

/-- Calls of `MPIR_Allgatherv` of which all or none return at once. -/
structure ShapeV extends Shape where
  early_iff : ∀ rank other, prefixSum (recvcounts rank) commSize = 0 ↔
      prefixSum (recvcounts other) commSize = 0

namespace Shape

variable (shape : Shape) (contents : Contents Cell)

/-- Processes with such receive buffers: every run of them ends without an error,
every message is received once, and the receive buffer of each rank then has the
data of all ranks at its places and is otherwise unchanged. -/
def Gathers (program : Nat → Prog Nat (List Cell) (List Cell)) : Prop :=
  ∃ out, Completes (fun rank =>
      if rank < shape.commSize then program rank else .done []) out ∧
    ∀ rank < shape.commSize, shape.Gathered contents rank (out rank)

variable {shape contents}

theorem gathers_of
    {Label : Type} {rounds : Nat → Label → Round Nat (List Cell)}
    {schedule : List Label} {program : Nat → Prog Nat (List Cell) (List Cell)}
    (agree : ScheduleAgrees rounds schedule)
    (idle : ∀ rank, ¬ rank < shape.commSize → ∀ label, rounds rank label = .idle)
    (yields : ∀ rank < shape.commSize,
      (program rank).Yields (opsOf (rounds rank) schedule) (· = shape.gathered contents rank)) :
    shape.Gathers contents program := by
  refine ⟨fun rank => if rank < shape.commSize then shape.gathered contents rank
    else [], completes_of_members rounds schedule agree idle ?_ ?_, ?_⟩
  · intro rank outside
    rw [if_neg outside, if_neg outside]
  · intro rank inComm
    rw [if_pos inComm, if_pos inComm]
    exact (yields rank inComm).ends
  · intro rank inComm
    simp only [if_pos inComm]
    exact gathered_spec rank

section

variable {program : Nat → Prog Nat (List Cell) (List Cell)}

theorem gathers_doubling
    (pof2 : CommSizeIsPof2 shape.commSize)
    (yields : ∀ rank < shape.commSize, (program rank).Yields
        (opsOf
          (doublingRound shape.commSize shape.bytes (shape.block contents) rank)
          (List.range (levels shape.commSize)))
        (· = shape.gathered contents rank)) :
    shape.Gathers contents program :=
  gathers_of (doublingRound_agrees pof2 _ _)
    (fun _ outside _ => exchangeRound_of_not outside) yields

theorem gathers_bruck
    (yields : ∀ rank < shape.commSize, (program rank).Yields
        (opsOf (bruckRound shape.commSize shape.bytes (shape.block contents) rank)
          (List.range (levels shape.commSize)))
        (· = shape.gathered contents rank)) :
    shape.Gathers contents program :=
  gathers_of (bruckRound_agrees _ _ _) (fun _ outside _ => exchangeRound_of_not outside) yields

theorem gathers_ring
    (yields : ∀ rank < shape.commSize, (program rank).Yields
        (opsOf (ringRound (shape.layout rank) (shape.block contents) rank)
          (List.range (shape.commSize - 1)))
        (· = shape.gathered contents rank)) :
    shape.Gathers contents program :=
  -- The rounds depend only on the amounts of data, not on the places.
  gathers_of (ringRound_agrees (shape.layout 0) (shape.block contents))
    (fun _ outside _ => exchangeRound_of_not outside) yields

/-- Without data there is nothing to do. -/
theorem gathers_of_empty
    (empty : ∀ number < shape.commSize, shape.bytes number = 0)
    (early : ∀ rank < shape.commSize, program rank = pure (shape.before contents rank)) :
    shape.Gathers contents program := by
  have agree : ScheduleAgrees (fun _ (_ : Unit) => (.idle : Round Nat (List Cell))) [] := by
    intro label member
    cases member
  refine gathers_of agree (fun _ _ _ => rfl) fun rank inComm => ?_
  rw [early rank inComm]
  apply Prog.yields_pure
  apply tabulate_congr
  intro index _
  apply (Layout.fill_of_not_covers _ _ _).symm
  rintro number bound ⟨lower, upper⟩
  change index < _ + shape.bytes number at upper
  rw [empty number bound] at upper
  exact absurd lower upper.not_ge

end

variable (shape) in
/-- The amount of all data, an `int`. -/
def intTotal : Int :=
  Int.bmod shape.total (2 ^ 32)

variable (shape) in
/-- The processes use the recursive doubling. -/
def Doubles : Prop :=
  shape.intTotal < allgatherLongMsg ∧ CommSizeIsPof2 shape.commSize

instance : Decidable shape.Doubles :=
  inferInstanceAs (Decidable (_ ∧ _))

theorem totalBytes_callV (rank : Nat) :
    (shape.callV contents rank).totalBytes = shape.intTotal := by
  unfold intTotal
  rw [← @totalCount_mul _ shape contents rank, Nat.cast_mul]
  rfl

theorem allgatherv_eq (rank : Nat) :
    (shape.callV contents rank).allgatherv = if (shape.callV contents rank).totalCount = 0 then
        pure (shape.before contents rank)
      else if shape.Doubles then (shape.callV contents rank).recursiveDoubling
      else if shape.intTotal < allgatherShortMsg then
        (shape.callV contents rank).bruck
      else (shape.callV contents rank).ring := by
  unfold CallV.allgatherv
  rw [totalBytes_callV]
  rfl

end Shape

/-- The processes that call `MPIR_Allgatherv` gather all data. -/
theorem ShapeV.gathers
    (shape : ShapeV)
    (contents : Contents Cell)
    {algorithm : Algorithm}
    (applies : algorithm.Applies shape.commSize) :
    shape.Gathers contents fun rank =>
      (shape.callV contents rank).run algorithm := by
  cases algorithm with
  | recursiveDoubling =>
    exact Shape.gathers_doubling (applies rfl) fun rank inComm =>
      Shape.yields_recursiveDoubling (applies rfl) inComm
  | bruck => exact Shape.gathers_bruck fun rank inComm => Shape.yields_bruck inComm
  | ring => exact Shape.gathers_ring fun rank inComm => Shape.yields_ring inComm
  | selected =>
    change shape.Gathers contents fun rank =>
      (shape.callV contents rank).allgatherv
    simp only [Shape.allgatherv_eq]
    by_cases empty : (shape.callV contents 0).totalCount = 0
    · have none : shape.total = 0 := by
        rw [← @Shape.totalCount_mul _ _ contents 0, empty, zero_mul]
      apply Shape.gathers_of_empty
      · intro number bound
        exact eq_zero_of_prefixSum none bound
      · intro rank _
        exact if_pos ((shape.early_iff 0 rank).mp empty)
    have goesOn : ∀ rank, (shape.callV contents rank).totalCount ≠ 0 :=
      fun rank early => empty ((shape.early_iff rank 0).mp early)
    by_cases doubles : shape.Doubles
    · refine Shape.gathers_doubling doubles.2 fun rank inComm => ?_
      rw [if_neg (goesOn rank), if_pos doubles]
      exact Shape.yields_recursiveDoubling doubles.2 inComm
    by_cases short : shape.intTotal < allgatherShortMsg
    · refine Shape.gathers_bruck fun rank inComm => ?_
      rw [if_neg (goesOn rank), if_neg doubles, if_pos short]
      exact Shape.yields_bruck inComm
    · refine Shape.gathers_ring fun rank inComm => ?_
      rw [if_neg (goesOn rank), if_neg doubles, if_neg short]
      exact Shape.yields_ring inComm

/-! ## Allgather -/

/-- What the calls of `MPIR_Allgather` of all ranks have in common: the same
amount of data of each rank, and all or none of the calls return at once. -/
structure EqualShape where
  commSize : Nat
  nbytes : Nat
  inPlace : Nat → Bool
  sendcount : Nat → Nat
  sendtypeSize : Nat → Nat
  recvcount : Nat → Nat
  recvtypeSize : Nat → Nat
  recvLength : Nat → Nat
  send_eq : ∀ rank, inPlace rank = false → sendcount rank * sendtypeSize rank = nbytes
  recv_eq : ∀ rank, recvcount rank * recvtypeSize rank = nbytes
  fits : ∀ rank, commSize * nbytes ≤ recvLength rank
  early_iff : ∀ rank other, ((sendcount rank = 0 ∧ inPlace rank = false) ∨ recvcount rank = 0) ↔
      ((sendcount other = 0 ∧ inPlace other = false) ∨ recvcount other = 0)

namespace EqualShape

variable (shape : EqualShape) (contents : Contents Cell)

/-- Equal blocks, one behind the other. -/
def toShape : Shape where
  commSize := shape.commSize
  bytes := fun _ => shape.nbytes
  inPlace := shape.inPlace
  sendcount := shape.sendcount
  sendtypeSize := shape.sendtypeSize
  recvcounts := fun rank _ => shape.recvcount rank
  displs := fun rank number => number * shape.recvcount rank
  recvtypeSize := shape.recvtypeSize
  recvLength := shape.recvLength
  send_eq := shape.send_eq
  recv_eq := fun rank _ _ => shape.recv_eq rank
  disjoint := by
    intro rank first second index firstIn secondIn
    rw [mul_assoc, mul_assoc, shape.recv_eq, ← prefixSum_const, ← prefixSum_const]
    exact (Layout.consecutive shape.commSize fun _ => shape.nbytes).disjoint
      first second index firstIn secondIn
  fits := by
    intro rank number inComm _
    rw [mul_assoc, shape.recv_eq, ← Nat.succ_mul]
    exact (Nat.mul_le_mul_right _ inComm).trans (shape.fits rank)

/-- The call of `MPIR_Allgather` of a rank. -/
def call (rank : Nat) : Call Cell where
  commSize := shape.commSize
  rank := rank
  inPlace := shape.inPlace rank
  sendbuf := tabulate shape.nbytes (contents.input rank)
  sendcount := shape.sendcount rank
  sendtypeSize := shape.sendtypeSize rank
  recvbuf := shape.toShape.before contents rank
  recvcount := shape.recvcount rank
  recvtypeSize := shape.recvtypeSize rank
  garbage := contents.garbage rank

variable {shape contents}

theorem layout_toShape (rank : Nat) :
    shape.toShape.layout rank = Layout.consecutive shape.commSize fun _ => shape.nbytes := by
  have displ : (shape.toShape.layout rank).displ = prefixSum fun _ => shape.nbytes := by
    funext number
    rw [prefixSum_const]
    exact (mul_assoc _ _ _).trans (congrArg _ (shape.recv_eq rank))
  unfold Shape.layout Layout.consecutive at *
  congr

/-! ### The process's own data -/

variable {rank : Nat}

theorem copySendbuf_eq
    (notInPlace : shape.inPlace rank = false)
    (dst : List Cell)
    (element : Nat) :
    (shape.call contents rank).copySendbuf dst element =
      (shape.toShape.callV contents rank).copyOwn dst element := by
  unfold CallV.copyOwn
  rw [if_neg (by
    rw [Bool.not_eq_true]
    exact notInPlace)]
  rfl

theorem withOwn_eq (rank : Nat) :
    (shape.call contents rank).withOwn =
      if shape.inPlace rank then some (shape.toShape.before contents rank)
      else (shape.toShape.callV contents rank).copyOwn
        (shape.toShape.before contents rank) (rank * shape.recvcount rank) := by
  by_cases inPlace : shape.inPlace rank = true
  · rw [if_pos inPlace]
    exact if_pos inPlace
  · rw [if_neg inPlace, ← copySendbuf_eq (Bool.eq_false_of_not_eq_true inPlace)]
    exact if_neg inPlace

/-- The ring is that of `MPIR_Allgatherv`. -/
theorem ring_eq (rank : Nat) :
    (shape.call contents rank).ring = (shape.toShape.callV contents rank).ring := by
  unfold Call.ring CallV.ring
  rw [withOwn_eq]
  rfl

/-! ### Recursive doubling -/

theorem measures (rank : Nat) :
    Measures (shape.call contents rank).process (fun _ => shape.nbytes)
      (fun root => root * shape.recvcount rank)
      (fun root => (shape.commSize - root) * shape.recvcount rank) := by
  have scale : ∀ count, count * shape.recvcount rank * shape.recvtypeSize rank =
        prefixSum (fun _ => shape.nbytes) count := by
    intro count
    rw [mul_assoc, shape.recv_eq, prefixSum_const]
  constructor
  · intro root _
    exact scale root
  · intro root _
    rw [span, prefixSum_add, Nat.add_sub_cancel_left]
    exact (scale _).ge

theorem yields_recursiveDoubling
    (pof2 : CommSizeIsPof2 shape.commSize)
    (inComm : rank < shape.commSize) :
    (shape.call contents rank).recursiveDoubling.Yields
      (opsOf (doublingRound shape.commSize (fun _ => shape.nbytes)
          (shape.toShape.block contents) rank)
        (List.range (levels shape.commSize)))
      (· = shape.toShape.gathered contents rank) := by
  obtain ⟨buf, copied, knows⟩ := @Shape.knows_withOwn Cell shape.toShape contents rank inComm
  have fits : prefixSum (fun _ => shape.nbytes) shape.commSize ≤ shape.recvLength rank := by
    rw [prefixSum_const]
    exact shape.fits rank
  rw [layout_toShape] at knows
  have loop := @ends_doubling Cell (shape.call contents rank).process _ _ _
    (shape.toShape.block contents) (contents.output rank) (shape.recvLength rank)
    pof2 inComm (measures rank) fits buf (shape.recvcount rank) (shape.recv_eq rank)
    (knows.mono (by
      rintro index - (beyond | own)
      · exact Or.inl fun number bound => Layout.not_covers_consecutive beyond bound
      · exact Or.inr own))
  unfold Call.recursiveDoubling
  rw [withOwn_eq, ← nil_append (opsOf _ _)]
  refine (ends_ofOption copied).bind_yields ?_
  rw [← append_nil (opsOf _ _)]
  apply loop.bind
  intro node done
  rw [done, Shape.gathered, layout_toShape]
  exact Prog.yields_pure rfl

/-! ### Bruck's algorithm -/

theorem turnedMeasures (rank : Nat) :
    TurnedMeasures (shape.call contents rank).process (fun _ => shape.nbytes)
      (fun currCnt => currCnt) (fun currCnt _ => currCnt * 2)
      (fun rem => rem * shape.recvcount rank)
      (fun rem _ => rem * shape.recvcount rank) := by
  have scale : ∀ count, count * shape.recvcount rank * shape.recvtypeSize rank =
        prefixSum (fun _ => shape.nbytes) count := by
    intro count
    rw [mul_assoc, shape.recv_eq, prefixSum_const]
  have amount : ∀ first count, span (fun _ => shape.nbytes) first count =
      prefixSum (fun _ => shape.nbytes) count := by
    intro first count
    rw [span, prefixSum_add, Nat.add_sub_cancel_left]
  constructor
  · intro count _
    exact scale count
  · intro count currCnt _ here
    exact (amount count count).trans here.symm |>.le
  · intro count currCnt recvCnt _ here _
    rw [prefixSum_add, mul_right_comm, mul_two]
    exact congrArg₂ _ here here
  · intro count currCnt _ _
    exact ((amount _ _).trans (scale _).symm).le

theorem copyAny_eq
    {buf dst : List Cell}
    {srcElement dstElement count srcStart dstStart amount : Nat}
    (srcStart_eq : srcElement * shape.recvtypeSize rank = srcStart)
    (dstStart_eq : dstElement * shape.recvtypeSize rank = dstStart)
    (amount_eq : count * shape.recvtypeSize rank = amount) :
    copyAny buf srcElement count (shape.recvtypeSize rank)
        dst dstElement count (shape.recvtypeSize rank) =
      (loadAny buf srcStart amount).bind (storeAny dst dstStart) := by
  rw [copyAny, if_pos le_rfl, srcStart_eq, dstStart_eq, amount_eq]

theorem rotateOut_eq
    (inComm : rank < shape.commSize)
    (rest : Nat → Cell) :
    (shape.call contents rank).rotateOut (tabulate shape.toShape.total
        (turned shape.commSize (fun _ => shape.nbytes) (shape.toShape.block contents) rest rank)) =
      some (shape.toShape.gathered contents rank) := by
  have scale : ∀ count, count * shape.recvcount rank * shape.recvtypeSize rank =
        prefixSum (fun _ => shape.nbytes) count := by
    intro count
    rw [mul_assoc, shape.recv_eq, prefixSum_const]
  have upper : span (fun _ => shape.nbytes) rank (shape.commSize - rank) =
      prefixSum (fun _ => shape.nbytes) (shape.commSize - rank) := by
    rw [span, prefixSum_add, Nat.add_sub_cancel_left]
  have parts := @prefixSum_add (fun _ => shape.nbytes) rank (shape.commSize - rank)
  rw [Nat.add_sub_cancel' inComm.le] at parts
  have room : prefixSum (fun _ => shape.nbytes) shape.commSize ≤ shape.recvLength rank := by
    rw [prefixSum_const]
    exact shape.fits rank
  have whole := @knows_tabulate Cell shape.toShape.total
    (turned shape.commSize (fun _ => shape.nbytes) (shape.toShape.block contents)
      rest rank) (fun _ => True) _ fun _ _ _ => rfl
  have before := @Shape.knows_before Cell shape.toShape contents rank
  rw [layout_toShape] at before
  have upperLoaded := @Knows.loadAny Cell _ _ _ _ whole 0
    (prefixSum (fun _ => shape.nbytes) (shape.commSize - rank))
    (fun _ => by
      change _ ≤ prefixSum (fun _ => shape.nbytes) shape.commSize
      omega) fun _ _ => trivial
  have lowerLoaded := @Knows.loadAny Cell _ _ _ _ whole
    (prefixSum (fun _ => shape.nbytes) (shape.commSize - rank))
    (prefixSum (fun _ => shape.nbytes) rank)
    (fun _ => by
      change _ ≤ prefixSum (fun _ => shape.nbytes) shape.commSize
      omega) fun _ _ => trivial
  have upperSlice := slice_turned_upper inComm (fun _ => shape.nbytes)
    (shape.toShape.block contents) rest (contents.output rank)
  have lowerSlice := slice_turned_lower inComm (fun _ => shape.nbytes)
    (shape.toShape.block contents) rest (contents.output rank)
  rw [upper] at upperSlice lowerSlice
  obtain ⟨middle, upperStored, middleKnows⟩ := @Knows.storeAny Cell _ _ _ _
    before (prefixSum (fun _ => shape.nbytes) rank)
    (prefixSum (fun _ => shape.nbytes) (shape.commSize - rank)) fun _ => by
      change _ ≤ shape.recvLength rank
      omega
  obtain ⟨final, lowerStored, finalKnows⟩ := @Knows.storeAny Cell _ _ _ _
    middleKnows 0 (prefixSum (fun _ => shape.nbytes) rank) fun _ => by
      change _ ≤ shape.recvLength rank
      omega
  have first : copyAny (tabulate shape.toShape.total
        (turned shape.commSize (fun _ => shape.nbytes) (shape.toShape.block contents) rest rank)) 0
      ((shape.commSize - rank) * shape.recvcount rank) (shape.recvtypeSize rank)
      (shape.toShape.before contents rank) (rank * shape.recvcount rank)
      ((shape.commSize - rank) * shape.recvcount rank)
      (shape.recvtypeSize rank) = some middle := by
    rw [copyAny_eq (zero_mul _) (scale rank) (scale _), upperLoaded, upperSlice]
    exact upperStored
  have second : copyAny (tabulate shape.toShape.total
        (turned shape.commSize (fun _ => shape.nbytes) (shape.toShape.block contents) rest rank))
      ((shape.commSize - rank) * shape.recvcount rank)
      (rank * shape.recvcount rank) (shape.recvtypeSize rank)
      middle 0 (rank * shape.recvcount rank) (shape.recvtypeSize rank) = some final := by
    rw [copyAny_eq (scale _) (zero_mul _) (scale rank), lowerLoaded, lowerSlice]
    exact lowerStored
  have both : final = shape.toShape.gathered contents rank := by
    rw [Shape.gathered, layout_toShape]
    apply finalKnows.eq_tabulate
    intro index _
    rcases lt_or_ge index (prefixSum (fun _ => shape.nbytes) shape.commSize) with
      inside | beyond
    · unfold InRange
      omega
    · exact Or.inl (Or.inl (Or.inl fun number bound =>
        Layout.not_covers_consecutive beyond bound))
  refine (congrArg (Option.bind · _) first).trans ?_
  by_cases zero : rank = 0
  · refine (if_neg (not_not.mpr zero)).trans ?_
    subst zero
    rw [← both]
    exact lowerStored
  · refine (if_pos zero).trans ?_
    rw [← both]
    exact second

theorem yields_bruck
    (inComm : rank < shape.commSize) :
    (shape.call contents rank).bruck.Yields
      (opsOf (bruckRound shape.commSize (fun _ => shape.nbytes) (shape.toShape.block contents) rank)
        (List.range (levels shape.commSize)))
      (· = shape.toShape.gathered contents rank) := by
  have nonempty : 0 < shape.commSize := Nat.zero_lt_of_lt inComm
  have room : shape.recvcount rank * shape.commSize * shape.recvtypeSize rank =
      shape.toShape.total := by
    rw [mul_right_comm, shape.recv_eq, mul_comm, ← prefixSum_const]
    rfl
  obtain ⟨buf, copied, start⟩ := @Shape.knows_turned Cell shape.toShape contents rank inComm
  have own : (if shape.inPlace rank then
        copyAny (shape.toShape.before contents rank)
          (rank * shape.recvcount rank) (shape.recvcount rank)
          (shape.recvtypeSize rank)
          (tabulate shape.toShape.total (contents.garbage rank)) 0
          (shape.recvcount rank) (shape.recvtypeSize rank)
      else (shape.call contents rank).copySendbuf
        (tabulate shape.toShape.total (contents.garbage rank)) 0) =
      some buf := by
    by_cases inPlace : shape.inPlace rank = true
    · rw [if_pos inPlace, ← copied]
      exact (if_pos inPlace).symm
    · rw [if_neg inPlace, copySendbuf_eq (Bool.eq_false_of_not_eq_true inPlace)]
      exact copied
  have measures := @turnedMeasures Cell shape contents rank
  have fits : prefixSum (fun _ => shape.nbytes) shape.commSize ≤ shape.toShape.total := le_rfl
  have loop := @yields_bruckLoop Cell (shape.call contents rank).process
    (fun _ => shape.nbytes) _ _ _ _ (shape.toShape.block contents)
    (contents.garbage rank) _ inComm measures fits _
    shape.commSize 0 nonempty ((Nat.log_le_self _ _).trans (Nat.le_add_left _ _)) start
  unfold Call.bruck
  rw [opsOf_bruckRound, ← nil_append (_ ++ _)]
  simp only [show (shape.call contents rank).recvcount *
    (shape.call contents rank).commSize * (shape.call contents rank).recvtypeSize =
      shape.toShape.total from room]
  refine (ends_ofOption own).bind_yields ?_
  apply loop.bind
  rintro ⟨pof2, node⟩ ⟨rfl, here⟩
  have rest := yields_bruckRest inComm measures fits here
  rw [← append_nil (opsOf _ _)]
  apply rest.bind
  intro buf knows
  rw [knows.eq_tabulate fun index inside => inside]
  exact Prog.yields_ofOption (rotateOut_eq inComm _) rfl

/-! ### All processes -/

theorem totalBytes_call (rank : Nat) :
    (shape.call contents rank).totalBytes = shape.toShape.intTotal := by
  have total : shape.recvcount rank * shape.commSize * shape.recvtypeSize rank =
      shape.toShape.total := by
    rw [mul_right_comm, shape.recv_eq, mul_comm, ← prefixSum_const]
    rfl
  unfold Shape.intTotal
  rw [← total, Nat.cast_mul, Nat.cast_mul]
  rfl

theorem allgather_eq (rank : Nat) :
    (shape.call contents rank).allgather = if (shape.call contents rank).ReturnsEarly then
        pure (shape.toShape.before contents rank)
      else if shape.toShape.Doubles then
        (shape.call contents rank).recursiveDoubling
      else if shape.toShape.intTotal < allgatherShortMsg then
        (shape.call contents rank).bruck
      else (shape.call contents rank).ring := by
  unfold Call.allgather
  rw [totalBytes_call]
  rfl

/-- Calls return at once only if there is no data. -/
theorem nbytes_of_returnsEarly
    (early : (shape.call contents rank).ReturnsEarly) :
    shape.nbytes = 0 := by
  rcases early with ⟨noneSent, notInPlace⟩ | noneReceived
  · rw [← shape.send_eq rank notInPlace, show shape.sendcount rank = 0 from noneSent, zero_mul]
  · rw [← shape.recv_eq rank, show shape.recvcount rank = 0 from noneReceived, zero_mul]

variable (shape) in
/-- The processes that call `MPIR_Allgather` gather all data. -/
theorem gathers
    (contents : Contents Cell)
    {algorithm : Algorithm}
    (applies : algorithm.Applies shape.commSize) :
    shape.toShape.Gathers contents fun rank =>
      (shape.call contents rank).run algorithm := by
  cases algorithm with
  | recursiveDoubling =>
    exact Shape.gathers_doubling (applies rfl) fun rank inComm =>
      yields_recursiveDoubling (applies rfl) inComm
  | bruck => exact Shape.gathers_bruck fun rank inComm => yields_bruck inComm
  | ring =>
    change shape.toShape.Gathers contents fun rank =>
      (shape.call contents rank).ring
    simp only [ring_eq]
    exact Shape.gathers_ring fun rank inComm => Shape.yields_ring inComm
  | selected =>
    change shape.toShape.Gathers contents fun rank =>
      (shape.call contents rank).allgather
    simp only [allgather_eq]
    by_cases empty : (shape.call contents 0).ReturnsEarly
    · apply Shape.gathers_of_empty
      · intro number _
        exact nbytes_of_returnsEarly empty
      · intro rank _
        exact if_pos ((shape.early_iff 0 rank).mp empty)
    have goesOn : ∀ rank, ¬ (shape.call contents rank).ReturnsEarly :=
      fun rank early => empty ((shape.early_iff rank 0).mp early)
    by_cases doubles : shape.toShape.Doubles
    · refine Shape.gathers_doubling doubles.2 fun rank inComm => ?_
      rw [if_neg (goesOn rank), if_pos doubles]
      exact yields_recursiveDoubling doubles.2 inComm
    by_cases short : shape.toShape.intTotal < allgatherShortMsg
    · refine Shape.gathers_bruck fun rank inComm => ?_
      rw [if_neg (goesOn rank), if_neg doubles, if_pos short]
      exact yields_bruck inComm
    · refine Shape.gathers_ring fun rank inComm => ?_
      rw [if_neg (goesOn rank), if_neg doubles, if_neg short, ring_eq]
      exact Shape.yields_ring inComm

end EqualShape

/-- Two processes, the second of which gathers in place. The block of the first
one has its place behind that of the second one, with a gap. -/
def inPlacePair : ShapeV where
  commSize := 2
  bytes := fun rank => if rank = 0 then 2 else 1
  inPlace := fun rank => rank != 0
  sendcount := fun _ => 2
  sendtypeSize := fun _ => 1
  recvcounts := fun _ number => if number = 0 then 2 else 1
  displs := fun _ number => if number = 0 then 2 else 0
  recvtypeSize := fun _ => 1
  recvLength := fun _ => 5
  send_eq := by
    intro rank notInPlace
    rw [bne_eq_false_iff_eq] at notInPlace
    rw [if_pos notInPlace]
  recv_eq := fun _ _ _ => mul_one _
  disjoint := by
    rintro rank first second index firstIn secondIn ⟨lower, upper⟩ ⟨low, up⟩
    split_ifs at lower upper low up <;> omega
  fits := by
    intro rank number inComm _
    split <;> decide
  early_iff := fun _ _ => Iff.rfl

/-- Cells that tell where they come from. -/
def pairContents : Contents (Bool × Nat × Nat) where
  input := fun rank index => (false, rank, index)
  output := fun rank index => (true, rank, index)
  garbage := fun _ _ => (false, 0, 0)

end Mpich.Coll.Allgather
