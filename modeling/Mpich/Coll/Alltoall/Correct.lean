import Mpich.Coll.Alltoall.Bruck

/-!
# Direct exchanges

For longer messages each rank sends every other rank its block directly, either
all at once or in one step for each distance.
-/

namespace Mpich.Coll.Alltoall

open MessagePassing List Function Buffer Cyclic

variable {Cell : Type} {shape : Shape} {check : LengthCheck}
variable {contents : Contents Cell}

namespace Shape

variable (shape contents) in
/-- The block that one rank has for another. -/
def block (src dst : Nat) : List Cell :=
  tabulate shape.nbytes (contents.input src dst)

theorem outgoing_eq
    {dst : Nat}
    (inComm : dst < shape.commSize)
    (rank : Nat) :
    (shape.call contents rank).outgoing dst = some (shape.block contents rank dst) := by
  have start : dst * (shape.call contents rank).sendcount *
      (shape.call contents rank).sendtypeSize = dst * shape.nbytes :=
    mul_send rank dst
  have size : (shape.call contents rank).sendcount *
      (shape.call contents rank).sendtypeSize = shape.nbytes :=
    shape.send_eq rank
  rw [Call.outgoing, start, size]
  exact load_block inComm _ _

theorem ends_receiveBlock
    {src : Nat}
    (inComm : src < shape.commSize)
    (rank : Nat)
    (cell : Nat → Nat → Cell) :
    ((shape.call contents rank).receiveBlock check src
        (blocked shape.commSize shape.nbytes cell)).Ends
      [.recv src (shape.block contents src rank)]
      (blocked shape.commSize shape.nbytes (update cell src (contents.input src rank))) := by
  have start : src * (shape.call contents rank).recvcount *
      (shape.call contents rank).recvtypeSize = src * shape.nbytes :=
    mul_recv rank src
  have length : (shape.block contents src rank).length =
      (shape.call contents rank).recvcount * (shape.call contents rank).recvtypeSize :=
    (length_tabulate _ _).trans (shape.recv_eq rank).symm
  have stored := store_block inComm shape.nbytes cell (contents.input src rank)
  rw [← start] at stored
  exact (check.ends_recv length).bind (ends_ofOption stored)

/-- Blocks that have been received from some ranks. -/
def received
    (contents : Contents Cell)
    (rank : Nat)
    (sources : List Nat)
    (cell : Nat → Nat → Cell) : Nat → Nat → Cell :=
  fun src => if src ∈ sources then contents.input src rank else cell src

theorem received_update
    (rank src : Nat)
    (sources : List Nat)
    (cell : Nat → Nat → Cell) :
    received contents rank sources (update cell src (contents.input src rank)) =
      received contents rank (src :: sources) cell := by
  funext other
  unfold received
  by_cases later : other ∈ sources
  · rw [if_pos later, if_pos (mem_cons_of_mem _ later)]
  · rw [if_neg later]
    by_cases here : other = src
    · rw [here, update_self, if_pos mem_cons_self]
    · rw [update_of_ne here, if_neg fun member =>
        (mem_cons.mp member).elim here later]

variable (shape contents) in
/-- The communications of a rank that sends and receives all blocks at once. -/
def scatteredRound (rank : Nat) (_ : Unit) : Round Nat (List Cell) :=
  if rank < shape.commSize then
    { sends := (List.range shape.commSize).map fun i =>
        (ahead shape.commSize rank i, shape.block contents rank (ahead shape.commSize rank i))
      recvs := (List.range shape.commSize).map fun i =>
        (ahead shape.commSize rank i,
          shape.block contents (ahead shape.commSize rank i) rank) }
  else .idle

variable {rank : Nat} (inComm : rank < shape.commSize)

include inComm

/-- One of the messages of a rank is for each rank. -/
theorem withRank_scattered
    {other : Nat}
    (otherIn : other < shape.commSize)
    (msgOf : Nat → List Cell) :
    Round.withRank other ((List.range shape.commSize).map fun i =>
        (ahead shape.commSize rank i, msgOf (ahead shape.commSize rank i))) =
      [msgOf other] := by
  obtain ⟨steps, within, rfl⟩ := exists_ahead_eq inComm otherIn
  apply withRank_map_of_unique nodup_range (mem_range.mpr within)
  intro another member same
  exact ahead_injective inComm (mem_range.mp member) within same

theorem withRank_scattered_outside
    {other : Nat}
    (outside : ¬ other < shape.commSize)
    (msgOf : Nat → List Cell) :
    Round.withRank other ((List.range shape.commSize).map fun i =>
        (ahead shape.commSize rank i, msgOf (ahead shape.commSize rank i))) =
      [] := by
  apply withRank_map_of_not_mem
  rintro i - rfl
  exact outside (ahead_lt inComm)

omit inComm in
theorem scatteredRound_agrees :
    ScheduleAgrees (shape.scatteredRound contents) [()] := by
  intro label _ src dst
  unfold scatteredRound
  by_cases srcIn : src < shape.commSize
  · by_cases dstIn : dst < shape.commSize
    · rw [if_pos srcIn, if_pos dstIn, withRank_scattered srcIn dstIn (shape.block contents src),
        withRank_scattered dstIn srcIn fun other =>
          shape.block contents other dst]
    · rw [if_pos srcIn, if_neg dstIn,
        withRank_scattered_outside srcIn dstIn (shape.block contents src)]
      rfl
  · by_cases dstIn : dst < shape.commSize
    · rw [if_neg srcIn, if_pos dstIn, withRank_scattered_outside dstIn srcIn fun other =>
          shape.block contents other dst]
      rfl
    · rw [if_neg srcIn, if_neg dstIn]
      rfl

theorem ends_isendLoop
    (more i : Nat) :
    ((shape.call contents rank).isendLoop more i).Ends
      ((range' i more).map fun i =>
        .send (ahead shape.commSize rank i)
          (shape.block contents rank (ahead shape.commSize rank i)))
      () := by
  induction more generalizing i with
  | zero => exact Prog.ends_done _
  | succ more ih =>
    have sent := @outgoing_eq _ shape contents _ (@ahead_lt _ _ i inComm) rank
    exact (ends_ofOption sent).bind ((ends_mpicSend _ _).bind (ih (i + 1)))

theorem ends_waitLoop
    (more i : Nat)
    (cell : Nat → Nat → Cell) :
    ((shape.call contents rank).waitLoop check more i
        (blocked shape.commSize shape.nbytes cell)).Ends
      ((range' i more).map fun i =>
        .recv (ahead shape.commSize rank i)
          (shape.block contents (ahead shape.commSize rank i) rank))
      (blocked shape.commSize shape.nbytes
        (received contents rank ((range' i more).map (ahead shape.commSize rank)) cell)) := by
  induction more generalizing i cell with
  | zero => exact Prog.ends_done _
  | succ more ih =>
    have here := @ends_receiveBlock _ shape check contents _ (@ahead_lt _ _ i inComm) rank cell
    have later := ih (i + 1)
      (update cell (ahead shape.commSize rank i)
        (contents.input (ahead shape.commSize rank i) rank))
    rw [received_update] at later
    exact here.bind later

theorem ends_isendIrecv :
    ((shape.call contents rank).isendIrecv check).Ends
      (opsOf (shape.scatteredRound contents rank) [()])
      (blocked shape.commSize shape.nbytes fun src =>
        contents.input src rank) := by
  have ops : opsOf (shape.scatteredRound contents rank) [()] =
      ((range' 0 shape.commSize).map fun i =>
        .send (ahead shape.commSize rank i)
          (shape.block contents rank (ahead shape.commSize rank i))) ++
      (range' 0 shape.commSize).map fun i =>
        .recv (ahead shape.commSize rank i)
          (shape.block contents (ahead shape.commSize rank i) rank) := by
    rw [opsOf_cons, opsOf_nil, append_nil, scatteredRound, if_pos inComm,
      Round.ops, map_map, map_map, range_eq_range']
    rfl
  have everything : blocked shape.commSize shape.nbytes
      (received contents rank
        ((range' 0 shape.commSize).map (ahead shape.commSize rank))
        (contents.output rank)) =
      blocked shape.commSize shape.nbytes fun src =>
        contents.input src rank := by
    apply blocked_congr
    intro src srcIn
    obtain ⟨steps, within, reached⟩ := exists_ahead_eq inComm srcIn
    refine if_pos (mem_map.mpr ⟨steps, ?_, reached⟩)
    rw [mem_range'_1]
    omega
  rw [ops, ← everything]
  exact (ends_isendLoop inComm shape.commSize 0).bind
    (ends_waitLoop inComm shape.commSize 0 (contents.output rank))

variable (shape) in
/-- The number of processes is a power of two. -/
def isPof2 : Prop :=
  CommSizeIsPof2 shape.commSize

instance : Decidable shape.isPof2 :=
  inferInstanceAs (Decidable (CommSizeIsPof2 _))

variable (shape) in
/-- The rank that a rank sends to in a step. -/
def exchangeDst (i rank : Nat) : Nat :=
  if shape.isPof2 then rank ^^^ i else ahead shape.commSize rank i

variable (shape) in
/-- The rank that a rank receives from in a step. -/
def exchangeSrc (i rank : Nat) : Nat :=
  if shape.isPof2 then rank ^^^ i else behind shape.commSize rank i

theorem xor_lt
    (pof2 : shape.isPof2)
    {i : Nat}
    (within : i < shape.commSize) :
    rank ^^^ i < shape.commSize := by
  have size : shape.commSize = 2 ^ Nat.clog 2 shape.commSize := pof2.eq_two_pow
  rw [size] at inComm within ⊢
  exact Nat.xor_lt_two_pow inComm within

theorem exchangeDst_lt
    {i : Nat}
    (within : i < shape.commSize) :
    shape.exchangeDst i rank < shape.commSize := by
  unfold exchangeDst
  by_cases pof2 : shape.isPof2
  · rw [if_pos pof2]
    exact xor_lt inComm pof2 within
  · rw [if_neg pof2]
    exact ahead_lt inComm

theorem exchangeSrc_lt
    {i : Nat}
    (within : i < shape.commSize) :
    shape.exchangeSrc i rank < shape.commSize := by
  unfold exchangeSrc
  by_cases pof2 : shape.isPof2
  · rw [if_pos pof2]
    exact xor_lt inComm pof2 within
  · rw [if_neg pof2]
    exact behind_lt inComm

omit inComm in
theorem exchangeDst_eq_iff
    {src dst i : Nat}
    (srcIn : src < shape.commSize)
    (dstIn : dst < shape.commSize)
    (within : i < shape.commSize) :
    shape.exchangeDst i src = dst ↔ shape.exchangeSrc i dst = src := by
  unfold exchangeDst exchangeSrc
  by_cases pof2 : shape.isPof2
  · rw [if_pos pof2, if_pos pof2]
    constructor
    · rintro rfl
      exact Nat.xor_xor_cancel_right _ _
    · rintro rfl
      exact Nat.xor_xor_cancel_right _ _
  · rw [if_neg pof2, if_neg pof2]
    exact ahead_eq_iff srcIn dstIn within.le

/-- Every other rank is the source of a step. -/
theorem exists_exchangeSrc_eq
    {src : Nat}
    (srcIn : src < shape.commSize)
    (different : src ≠ rank) :
    ∃ i, 0 < i ∧ i < shape.commSize ∧ shape.exchangeSrc i rank = src := by
  unfold exchangeSrc
  by_cases pof2 : shape.isPof2
  · refine ⟨rank ^^^ src, ?_, xor_lt inComm pof2 srcIn, ?_⟩
    · rw [Nat.pos_iff_ne_zero, ne_eq, Nat.xor_eq_zero_iff]
      exact Ne.symm different
    · rw [if_pos pof2]
      exact Nat.xor_xor_cancel_left _ _
  · obtain ⟨steps, within, reached⟩ := exists_ahead_eq srcIn inComm
    refine ⟨steps, ?_, within, ?_⟩
    · rw [Nat.pos_iff_ne_zero]
      rintro rfl
      exact different ((ahead_zero srcIn).symm.trans reached)
    · rw [if_neg pof2]
      exact (ahead_eq_iff srcIn inComm within.le).mp reached

variable (shape contents) in
/-- The communications of a rank in a step of the exchange. -/
def exchangeStep (rank i : Nat) : Round Nat (List Cell) :=
  exchangeRound (· < shape.commSize) (shape.exchangeDst i)
    (shape.exchangeSrc i)
    (fun rank => shape.block contents rank (shape.exchangeDst i rank)) rank

omit inComm in
theorem exchangeStep_agrees :
    ScheduleAgrees (shape.exchangeStep contents) (range' 1 (shape.commSize - 1)) := by
  intro i member src dst
  obtain ⟨positive, within⟩ : 0 < i ∧ i < shape.commSize := by
    rw [mem_range'_1] at member
    omega
  apply exchangeRound_agrees
  · intro rank inComm
    exact exchangeDst_lt inComm within
  · intro rank inComm
    exact exchangeSrc_lt inComm within
  · intro src dst srcIn dstIn
    exact exchangeDst_eq_iff srcIn dstIn within

theorem ends_exchangeLoop
    {more i : Nat}
    (within : i + more ≤ shape.commSize)
    (cell : Nat → Nat → Cell) :
    ((shape.call contents rank).exchangeLoop check more i
        (blocked shape.commSize shape.nbytes cell)).Ends
      (opsOf (shape.exchangeStep contents rank) (range' i more))
      (blocked shape.commSize shape.nbytes
        (received contents rank
          ((range' i more).map fun i => shape.exchangeSrc i rank)
          cell)) := by
  induction more generalizing i cell with
  | zero => exact Prog.ends_done _
  | succ more ih =>
    have srcIn := @exchangeSrc_lt shape _ inComm i (by omega)
    have back : shape.exchangeDst i (shape.exchangeSrc i rank) = rank :=
      (exchangeDst_eq_iff srcIn inComm (by omega)).mpr rfl
    have step : (shape.exchangeStep contents rank i).ops = _ := ops_exchangeRound inComm
    have sent := @outgoing_eq _ shape contents _ (@exchangeDst_lt shape _ inComm i (by omega)) rank
    have here := @ends_receiveBlock _ shape check contents _ srcIn rank cell
    have later := @ih (i + 1) (by omega)
      (update cell (shape.exchangeSrc i rank) (contents.input (shape.exchangeSrc i rank) rank))
    rw [received_update] at later
    rw [Call.exchangeLoop, range'_succ, map_cons, opsOf_cons, step, back]
    exact (ends_ofOption sent).bind ((ends_mpicSend _ _).bind (here.bind later))

theorem ends_pairwiseExchange :
    ((shape.call contents rank).pairwiseExchange check).Ends
      (opsOf (shape.exchangeStep contents rank) (range' 1 (shape.commSize - 1)))
      (blocked shape.commSize shape.nbytes fun src =>
        contents.input src rank) := by
  have sendOne : shape.sendcount rank * shape.sendtypeSize rank = 1 * shape.nbytes := by
    rw [shape.send_eq, one_mul]
  have recvOne : shape.recvcount rank * shape.recvtypeSize rank = 1 * shape.nbytes := by
    rw [shape.recv_eq, one_mul]
  have copied := @copyElements_blocked Cell shape.nbytes shape.commSize
    shape.commSize rank rank 1 _ _ _ _ _ _ (by omega) (by omega)
    (mul_send rank rank) sendOne (mul_recv rank rank) recvOne
    (contents.input rank) (contents.output rank)
  have loop := @ends_exchangeLoop _ shape check contents _ inComm
    (shape.commSize - 1) 1 (by omega)
    (patch (contents.output rank) rank 1 fun block =>
      contents.input rank (rank + block))
  have everything : blocked shape.commSize shape.nbytes
      (received contents rank
        ((range' 1 (shape.commSize - 1)).map fun i =>
          shape.exchangeSrc i rank)
        (patch (contents.output rank) rank 1 fun block =>
          contents.input rank (rank + block))) =
      blocked shape.commSize shape.nbytes fun src =>
        contents.input src rank := by
    apply blocked_congr
    intro src srcIn
    unfold received
    by_cases own : src = rank
    · rw [own, patch_of_mem (by omega), Nat.add_sub_cancel' le_rfl, ite_self]
    · obtain ⟨i, positive, within, reached⟩ := exists_exchangeSrc_eq inComm srcIn own
      refine if_pos (mem_map.mpr ⟨i, ?_, reached⟩)
      rw [mem_range'_1]
      omega
  rw [← everything]
  exact (ends_ofOption copied).bind loop

end Shape

end Mpich.Coll.Alltoall

/-!
## All algorithms of alltoall agree

Whichever algorithm the size of the blocks and the number of processes select,
the processes complete, each message fills the room of the receive that it
reaches, and every receive buffer holds the blocks for its rank.
-/

namespace Mpich.Coll.Alltoall

open MessagePassing Buffer

variable {Cell : Type} {shape : Shape} {check : LengthCheck}
variable {contents : Contents Cell}

namespace Shape

variable (shape) in
/-- `nbytes`, as each rank computes it. -/
def intBytes : Int :=
  Int.bmod shape.nbytes (2 ^ 32)

variable (shape) in
/-- The processes use Bruck's algorithm. -/
def UsesBruck : Prop :=
  shape.intBytes ≤ alltoallShortMsg ∧ 8 ≤ shape.commSize

variable (shape) in
/-- The processes that do not use Bruck's algorithm send all blocks at once. -/
def UsesIsend : Prop :=
  shape.intBytes ≤ alltoallMediumMsg

instance : Decidable shape.UsesBruck :=
  inferInstanceAs (Decidable (_ ∧ _))

instance : Decidable shape.UsesIsend :=
  inferInstanceAs (Decidable (_ ≤ _))

theorem nbytes_call (rank : Nat) :
    (shape.call contents rank).nbytes = shape.intBytes := by
  have size : shape.sendtypeSize rank * shape.sendcount rank = shape.nbytes := by
    rw [mul_comm, shape.send_eq]
  unfold intBytes
  rw [← size, Nat.cast_mul]
  rfl

theorem alltoall_eq (rank : Nat) :
    (shape.call contents rank).alltoall check =
      if shape.sendcount rank = 0 then pure (shape.call contents rank).recvbuf
      else if shape.UsesBruck then (shape.call contents rank).bruck check
      else if shape.UsesIsend then (shape.call contents rank).isendIrecv check
      else (shape.call contents rank).pairwiseExchange check := by
  unfold Call.alltoall
  rw [nbytes_call]
  rfl

/-- Processes that all follow one schedule complete. -/
theorem completes_of
    {Label : Type} {rounds : Nat → Label → Round Nat (List Cell)}
    {schedule : List Label}
    (agree : ScheduleAgrees rounds schedule)
    (outside : ∀ rank, ¬ rank < shape.commSize → ∀ label, rounds rank label = .idle)
    (ends : ∀ rank < shape.commSize, ((shape.call contents rank).alltoall check).Ends
        (opsOf (rounds rank) schedule)
        (blocked shape.commSize shape.nbytes fun src =>
          contents.input src rank)) :
    Completes (shape.program check contents) (shape.out contents) := by
  apply completes_of_schedule rounds schedule agree _
    (Finset.range shape.commSize)
  · intro rank notMember
    exact outside rank fun within => notMember (Finset.mem_range.mpr within)
  · intro rank
    unfold program out
    by_cases inComm : rank < shape.commSize
    · rw [if_pos inComm, if_pos inComm]
      exact ends rank inComm
    · rw [if_neg inComm, if_neg inComm,
        opsOf_of_idle fun label _ => by rw [outside rank inComm label, Round.ops_idle]]
      exact Prog.ends_done _

/-- Empty blocks need not be sent. -/
theorem recvbuf_of_empty
    {rank : Nat}
    (empty : shape.sendcount rank = 0) :
    (shape.call contents rank).recvbuf = blocked shape.commSize shape.nbytes fun src =>
        contents.input src rank := by
  have none : shape.nbytes = 0 := by
    rw [← shape.send_eq rank, empty, zero_mul]
  unfold call blocked
  rw [none, mul_zero]
  rfl

/-- The processes complete with the blocks for them. -/
theorem completes :
    Completes (shape.program check contents) (shape.out contents) := by
  by_cases empty : shape.sendcount 0 = 0
  · have agree : ScheduleAgrees (fun _ (_ : Unit) => (.idle : Round Nat (List Cell))) [] := by
      intro label member
      cases member
    refine completes_of agree (fun _ _ _ => rfl) fun rank inComm => ?_
    have early := (shape.early_iff 0 rank).mp empty
    rw [alltoall_eq, if_pos early, recvbuf_of_empty early]
    exact Prog.ends_done _
  have goesOn : ∀ rank, shape.sendcount rank ≠ 0 := fun rank early =>
    empty ((shape.early_iff rank 0).mp early)
  by_cases bruck : shape.UsesBruck
  · have agree := @bruckRound_agrees _ shape contents
    refine completes_of agree
      (fun _ outside _ => exchangeRound_of_not outside) fun rank inComm => ?_
    rw [alltoall_eq, if_neg (goesOn rank), if_pos bruck]
    exact ends_bruck inComm
  by_cases isend : shape.UsesIsend
  · have agree := @scatteredRound_agrees _ shape contents
    refine completes_of agree (fun _ outside _ => if_neg outside) fun rank inComm => ?_
    rw [alltoall_eq, if_neg (goesOn rank), if_neg bruck, if_pos isend]
    exact ends_isendIrecv inComm
  · have agree := @exchangeStep_agrees _ shape contents
    refine completes_of agree
      (fun _ outside _ => exchangeRound_of_not outside) fun rank inComm => ?_
    rw [alltoall_eq, if_neg (goesOn rank), if_neg bruck, if_neg isend]
    exact ends_pairwiseExchange inComm

variable (shape check contents) in
/-- Every run of the processes ends without an error, every message is received
once, and the receive buffer of each rank then has, for each rank, the block
that its send buffer has for this one. -/
def Exchanges : Prop :=
  ∃ out, Completes (shape.program check contents) out ∧ ∀ rank < shape.commSize,
      (out rank).length = shape.commSize * shape.nbytes ∧ ∀ src < shape.commSize,
        load (out rank) (src * shape.nbytes) shape.nbytes =
          load (shape.call contents src).sendbuf (rank * shape.nbytes) shape.nbytes

end Shape

end Mpich.Coll.Alltoall
