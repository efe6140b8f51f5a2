import Mpich.Coll.Common
import Mpich.Foundation.MessagePassing.Schedule

/-!
# Alltoall

`MPIR_Alltoall` for intracommunicators: Bruck's algorithm for short messages,
nonblocking sends and receives for messages of medium size, and a pairwise
exchange for long ones. A typed buffer is represented by its packed data, so
that `count` elements of a type of `size` bytes are `count * size` cells, and
element `e` starts at cell `e * size`.

In Bruck's algorithm slot `j` of a rank's receive buffer starts with the block for the
rank `j` ahead of it. In the step of a bit, the slots whose numbers have that bit are
handed to the rank that many ahead, so that in the end a block has travelled by its
slot's number.
-/

namespace Mpich.Coll.Alltoall

open MessagePassing Buffer Cyclic

/-- `MPIR_ALLTOALL_SHORT_MSG`. -/
def alltoallShortMsg : Int := 256

/-- `MPIR_ALLTOALL_MEDIUM_MSG`. -/
def alltoallMediumMsg : Int := 32768

/-- One process's call of `MPIR_Alltoall`. -/
structure Call (Cell : Type) where
  commSize : Nat
  rank : Nat
  /-- The data of the send buffer. -/
  sendbuf : List Cell
  sendcount : Nat
  sendtypeSize : Nat
  /-- The data of the receive buffer. -/
  recvbuf : List Cell
  recvcount : Nat
  recvtypeSize : Nat
  /-- What allocated memory holds before it is written. -/
  garbage : Nat → Cell

namespace Call

variable {Cell : Type} (call : Call Cell) (check : LengthCheck)

/-- `nbytes`, an `int`. -/
def nbytes : Int :=
  Int.bmod (call.sendtypeSize * call.sendcount) (2 ^ 32)

/-- Shift the blocks of the send buffer down by the rank into the receive
buffer. -/
def rotateIn : Option (List Cell) :=
  (copyElements call.sendbuf (call.rank * call.sendcount)
    ((call.commSize - call.rank) * call.sendcount) call.sendtypeSize
    call.recvbuf 0
    ((call.commSize - call.rank) * call.recvcount) call.recvtypeSize).bind
      fun recvbuf =>
  copyElements call.sendbuf 0 (call.rank * call.sendcount) call.sendtypeSize
    recvbuf ((call.commSize - call.rank) * call.recvcount)
    (call.rank * call.recvcount) call.recvtypeSize

/-- The blocks that are exchanged in a step. -/
def blocksWith (pof2 : Nat) : List Nat :=
  (List.range' 1 (call.commSize - 1)).filter fun block => block &&& pof2 ≠ 0

/-- The displacements of `newtype`, in bytes. -/
def displs (pof2 : Nat) : List Nat :=
  (call.blocksWith pof2).map fun block =>
    block * call.recvcount * call.recvtypeSize

/-- `NMPI_Pack` of one element of `newtype` into `tmp_buf`, which has room for
the data of all blocks. -/
def packBlocks (pof2 : Nat) (recvbuf : List Cell) : Option (List Cell) :=
  (pack recvbuf (call.recvcount * call.recvtypeSize) (call.displs pof2)).bind fun msg =>
  if msg.length ≤ call.recvcount * call.commSize * call.recvtypeSize then
    some msg
  else none

/-- The loop over the bits of the numbers of the blocks. -/
def bruckLoop : Nat → Nat → List Cell → Prog Nat (List Cell) (List Cell)
  | 0, pof2, recvbuf =>
    if pof2 < call.commSize then .fail else pure recvbuf
  | fuel + 1, pof2, recvbuf =>
    if pof2 < call.commSize then do
      let dst := (call.rank + pof2) % call.commSize
      let src := (call.rank + call.commSize - pof2) % call.commSize
      let msg ← Prog.ofOption (call.packBlocks pof2 recvbuf)
      mpicSend dst msg
      let msg ← check.recv src
        ((call.displs pof2).length * (call.recvcount * call.recvtypeSize))
      let recvbuf ← Prog.ofOption
        (unpack (call.recvcount * call.recvtypeSize) recvbuf (call.displs pof2) msg)
      bruckLoop fuel (pof2 * 2) recvbuf
    else pure recvbuf

/-- Rotate the blocks of the receive buffer into a temporary buffer. -/
def rotateOut (recvbuf : List Cell) : Option (List Cell) :=
  let tmpBuf := tabulate
    (call.recvcount * call.commSize * call.recvtypeSize) call.garbage
  (copyElements recvbuf ((call.rank + 1) * call.recvcount)
    ((call.commSize - call.rank - 1) * call.recvcount) call.recvtypeSize
    tmpBuf 0
    ((call.commSize - call.rank - 1) * call.recvcount) call.recvtypeSize).bind
      fun tmpBuf =>
  copyElements recvbuf 0 ((call.rank + 1) * call.recvcount) call.recvtypeSize
    tmpBuf ((call.commSize - call.rank - 1) * call.recvcount)
    ((call.rank + 1) * call.recvcount) call.recvtypeSize

/-- `for (i = 0; i < comm_size; i++)` copy block `i` of the temporary buffer to
the place of block `comm_size - i - 1`. -/
def reverseLoop (tmpBuf : List Cell) : Nat → Nat → List Cell → Option (List Cell)
  | 0, _, recvbuf => some recvbuf
  | more + 1, i, recvbuf =>
    (copyElements tmpBuf (i * call.recvcount) call.recvcount
      call.recvtypeSize recvbuf ((call.commSize - i - 1) * call.recvcount)
      call.recvcount call.recvtypeSize).bind fun recvbuf =>
    reverseLoop tmpBuf more (i + 1) recvbuf

/-- Bruck's algorithm. -/
def bruck : Prog Nat (List Cell) (List Cell) := do
  let recvbuf ← Prog.ofOption call.rotateIn
  let recvbuf ← call.bruckLoop check call.commSize 1 recvbuf
  Prog.ofOption ((call.rotateOut recvbuf).bind fun tmpBuf =>
    call.reverseLoop tmpBuf call.commSize 0 recvbuf)

/-- The data for a rank. -/
def outgoing (dst : Nat) : Option (List Cell) :=
  load call.sendbuf (dst * call.sendcount * call.sendtypeSize) (call.sendcount * call.sendtypeSize)

/-- Receive the data of a rank at its place. -/
def receiveBlock (src : Nat) (recvbuf : List Cell) :
    Prog Nat (List Cell) (List Cell) := do
  let msg ← check.recv src (call.recvcount * call.recvtypeSize)
  Prog.ofOption (store recvbuf (src * call.recvcount * call.recvtypeSize) msg)

/-- `MPIC_Isend` to this many ranks, from the one `i` above. -/
def isendLoop : Nat → Nat → Prog Nat (List Cell) Unit
  | 0, _ => pure ()
  | more + 1, i => do
      let dst := (call.rank + i) % call.commSize
      let msg ← Prog.ofOption (call.outgoing dst)
      mpicSend dst msg
      isendLoop more (i + 1)

/-- Complete the receives from this many ranks. -/
def waitLoop : Nat → Nat → List Cell → Prog Nat (List Cell) (List Cell)
  | 0, _, recvbuf => pure recvbuf
  | more + 1, i, recvbuf => do
      let recvbuf ← call.receiveBlock check
        ((call.rank + i) % call.commSize) recvbuf
      waitLoop more (i + 1) recvbuf

/-- All sends and receives at once. The receives are for different sources, so
that the order of their completion does not matter. -/
def isendIrecv : Prog Nat (List Cell) (List Cell) := do
  call.isendLoop call.commSize 0
  call.waitLoop check call.commSize 0 call.recvbuf

/-- `comm_size` is a power of two. -/
def isPof2 : Prop :=
  CommSizeIsPof2 call.commSize

instance : Decidable call.isPof2 :=
  inferInstanceAs (Decidable (CommSizeIsPof2 _))

/-- The rank to send to in a step. -/
def exchangeDst (i : Nat) : Nat :=
  if call.isPof2 then call.rank ^^^ i else (call.rank + i) % call.commSize

/-- The rank to receive from in a step. -/
def exchangeSrc (i : Nat) : Nat :=
  if call.isPof2 then call.rank ^^^ i
  else (call.rank + call.commSize - i) % call.commSize

/-- `for (i = 1; i < comm_size; i++)` exchange blocks. -/
def exchangeLoop : Nat → Nat → List Cell → Prog Nat (List Cell) (List Cell)
  | 0, _, recvbuf => pure recvbuf
  | more + 1, i, recvbuf => do
      let msg ← Prog.ofOption (call.outgoing (call.exchangeDst i))
      mpicSend (call.exchangeDst i) msg
      let recvbuf ← call.receiveBlock check (call.exchangeSrc i) recvbuf
      exchangeLoop more (i + 1) recvbuf

/-- Pairwise exchange. -/
def pairwiseExchange : Prog Nat (List Cell) (List Cell) := do
  let recvbuf ← Prog.ofOption
    (copyElements call.sendbuf (call.rank * call.sendcount) call.sendcount
      call.sendtypeSize call.recvbuf (call.rank * call.recvcount)
      call.recvcount call.recvtypeSize)
  call.exchangeLoop check (call.commSize - 1) 1 recvbuf

/-- `MPIR_Alltoall`, with the receive buffer at its end. -/
def alltoall : Prog Nat (List Cell) (List Cell) :=
  if call.sendcount = 0 then pure call.recvbuf
  else if call.nbytes ≤ alltoallShortMsg ∧ 8 ≤ call.commSize then
    call.bruck check
  else if call.nbytes ≤ alltoallMediumMsg then call.isendIrecv check
  else call.pairwiseExchange check

end Call

/-- The arguments of all processes, apart from what their buffers hold. Counts
and types may differ, as long as all of them describe blocks of one size. -/
structure Shape where
  commSize : Nat
  /-- The size of a block. -/
  nbytes : Nat
  sendcount : Nat → Nat
  sendtypeSize : Nat → Nat
  recvcount : Nat → Nat
  recvtypeSize : Nat → Nat
  send_eq : ∀ rank, sendcount rank * sendtypeSize rank = nbytes
  recv_eq : ∀ rank, recvcount rank * recvtypeSize rank = nbytes
  /-- Blocks that are empty are so for the same reason everywhere. -/
  early_iff : ∀ rank other, sendcount rank = 0 ↔ sendcount other = 0

/-- What the memory of all processes holds: for each rank, the cells of the
blocks of its two buffers, and those that come from nowhere. -/
structure Contents (Cell : Type) where
  input : Nat → Nat → Nat → Cell
  output : Nat → Nat → Nat → Cell
  garbage : Nat → Nat → Cell

namespace Shape

variable {Cell : Type}
variable (shape : Shape) (check : LengthCheck) (contents : Contents Cell)

/-- The call of one rank. -/
def call (rank : Nat) : Call Cell where
  commSize := shape.commSize
  rank := rank
  sendbuf := blocked shape.commSize shape.nbytes (contents.input rank)
  sendcount := shape.sendcount rank
  sendtypeSize := shape.sendtypeSize rank
  recvbuf := blocked shape.commSize shape.nbytes (contents.output rank)
  recvcount := shape.recvcount rank
  recvtypeSize := shape.recvtypeSize rank
  garbage := contents.garbage rank

/-- The programs of all ranks; there is nothing to run outside the
communicator. -/
def program (rank : Nat) : Prog Nat (List Cell) (List Cell) :=
  if rank < shape.commSize then (shape.call contents rank).alltoall check
  else .done []

/-- The receive buffer of a rank with the blocks that all ranks have for it. -/
def out (rank : Nat) : List Cell :=
  if rank < shape.commSize then
    blocked shape.commSize shape.nbytes fun src => contents.input src rank
  else []

end Shape

open Masks List Option

variable {Cell : Type} {shape : Shape} {check : LengthCheck}
variable {contents : Contents Cell}

/-- A copy of elements that make up blocks. -/
theorem copyElements_blocked
    {size srcBlocks dstBlocks first target number : Nat}
    {srcElement srcCount srcSize dstElement dstCount dstSize : Nat}
    (srcWithin : first + number ≤ srcBlocks)
    (dstWithin : target + number ≤ dstBlocks)
    (srcStart : srcElement * srcSize = first * size)
    (srcLength : srcCount * srcSize = number * size)
    (dstStart : dstElement * dstSize = target * size)
    (dstLength : dstCount * dstSize = number * size)
    (cell other : Nat → Nat → Cell) :
    copyElements (blocked srcBlocks size cell) srcElement srcCount
        srcSize (blocked dstBlocks size other) dstElement dstCount
        dstSize =
      some (blocked dstBlocks size
        (patch other target number fun block => cell (first + block))) := by
  rw [copyElements, if_pos (by rw [srcLength, dstLength]), localcopy,
    srcStart, srcLength, dstStart, load_blocked srcWithin, bind_some, store_blocked dstWithin]

namespace Shape

theorem mul_send (rank number : Nat) :
    number * shape.sendcount rank * shape.sendtypeSize rank = number * shape.nbytes := by
  rw [mul_assoc, shape.send_eq]

theorem mul_recv (rank number : Nat) :
    number * shape.recvcount rank * shape.recvtypeSize rank = number * shape.nbytes := by
  rw [mul_assoc, shape.recv_eq]

variable (shape) in
/-- The rank that the block in a slot comes from when it is the turn of a
bit. -/
def origin (bit rank number : Nat) : Nat :=
  behind shape.commSize rank (number % 2 ^ bit)

variable (shape contents) in
/-- What a slot holds when it is the turn of a bit. -/
def slot (bit rank number : Nat) : Nat → Cell :=
  contents.input (shape.origin bit rank number)
    (ahead shape.commSize (shape.origin bit rank number) number)

variable (shape contents) in
/-- The receive buffer when it is the turn of a bit. -/
def slots (bit rank : Nat) : List Cell :=
  blocked shape.commSize shape.nbytes (shape.slot contents bit rank)

/-- A slot without the bit stays. -/
theorem slot_succ_of_clear
    {bit number : Nat}
    (clear : ¬ BitSet number bit)
    (rank : Nat) :
    shape.slot contents (bit + 1) rank number = shape.slot contents bit rank number := by
  unfold slot origin
  rw [mod_two_pow_succ, if_neg clear, add_zero]

/-- A slot with the bit is taken from the rank behind. -/
theorem slot_succ_of_set
    {bit number rank : Nat}
    (set : BitSet number bit)
    (inComm : rank < shape.commSize)
    (inBuffer : number < shape.commSize) :
    shape.slot contents (bit + 1) rank number = shape.slot contents bit
        (behind shape.commSize rank (2 ^ bit)) number := by
  have low := Nat.mod_le number (2 ^ (bit + 1))
  unfold slot origin
  rw [mod_two_pow_succ, if_pos set] at low ⊢
  rw [behind_behind inComm (by omega), add_comm (2 ^ bit)]

/-- In the end a slot holds a block for the rank itself. -/
theorem slot_of_all
    {bit number rank : Nat}
    (all : shape.commSize ≤ 2 ^ bit)
    (inComm : rank < shape.commSize)
    (inBuffer : number < shape.commSize) :
    shape.slot contents bit rank number =
      contents.input (behind shape.commSize rank number) rank := by
  unfold slot origin
  rw [Nat.mod_eq_of_lt (by omega), ahead_behind inComm (by omega)]

variable {rank : Nat}

theorem rotateIn_eq (inComm : rank < shape.commSize) :
    (shape.call contents rank).rotateIn = some (shape.slots contents 0 rank) := by
  have upper := @copyElements_blocked Cell shape.nbytes shape.commSize
    shape.commSize rank 0 (shape.commSize - rank) _ _ _ 0 _ _ (by omega)
    (by omega) (mul_send rank rank) (mul_send rank _)
    ((zero_mul (shape.recvtypeSize rank)).trans (zero_mul _).symm)
    (mul_recv rank _) (contents.input rank) (contents.output rank)
  have lower := @copyElements_blocked Cell shape.nbytes shape.commSize
    shape.commSize 0 (shape.commSize - rank) rank 0 _ _ _ _ _ (by omega)
    (by omega) ((zero_mul _).trans (zero_mul _).symm) (mul_send rank _)
    (mul_recv rank _) (mul_recv rank _) (contents.input rank)
    (patch (contents.output rank) 0 (shape.commSize - rank)
      fun block => contents.input rank (rank + block))
  refine (congrArg (Option.bind · _) upper).trans ?_
  refine lower.trans ?_
  apply congrArg some
  apply blocked_congr
  intro number inBuffer
  unfold slot origin
  rw [pow_zero, Nat.mod_one, behind_zero inComm, ahead_eq_ite inComm (by omega)]
  by_cases noWrap : rank + number < shape.commSize
  · rw [if_pos noWrap, patch_of_not_mem (by omega), patch_of_mem (by omega), Nat.sub_zero]
  · rw [if_neg noWrap, patch_of_mem (by omega), zero_add,
      show number - (shape.commSize - rank) = rank + number - shape.commSize by
        omega]

variable (shape) in
/-- The blocks that are exchanged in the step of a bit. -/
def blocksWith (bit : Nat) : List Nat :=
  (range' 1 (shape.commSize - 1)).filter fun block => block &&& 2 ^ bit ≠ 0

theorem mem_blocksWith {bit block : Nat} :
    block ∈ shape.blocksWith bit ↔ block < shape.commSize ∧ BitSet block bit := by
  unfold blocksWith
  rw [mem_filter, decide_eq_true_iff, ne_eq, and_mask_eq_zero_iff, not_not, mem_range'_1]
  constructor
  · rintro ⟨inRange, set⟩
    exact ⟨by omega, set⟩
  · rintro ⟨inBuffer, set⟩
    have := mask_le_of_bitSet set
    have := Nat.two_pow_pos bit
    exact ⟨by omega, set⟩

theorem displs_eq (rank bit : Nat) :
    (shape.call contents rank).displs (2 ^ bit) =
      (shape.blocksWith bit).map (· * shape.nbytes) := by
  apply map_congr_left
  intro block _
  exact mul_recv rank block

variable (shape contents) in
/-- What a rank sends in the step of a bit. -/
def travelling (bit rank : Nat) : List Cell :=
  packed shape.nbytes (shape.blocksWith bit) (shape.slot contents bit rank)

theorem length_blocksWith_le (bit : Nat) :
    (shape.blocksWith bit).length ≤ shape.commSize := by
  have filtered := length_filter_le
    (fun block => decide (block &&& 2 ^ bit ≠ 0))
    (range' 1 (shape.commSize - 1))
  rw [length_range'] at filtered
  unfold blocksWith
  omega

theorem packBlocks_slots (rank bit : Nat) :
    (shape.call contents rank).packBlocks (2 ^ bit)
        (shape.slots contents bit rank) =
      some (shape.travelling contents bit rank) := by
  have size : (shape.call contents rank).recvcount *
      (shape.call contents rank).recvtypeSize = shape.nbytes :=
    shape.recv_eq rank
  have room : (shape.call contents rank).recvcount *
      (shape.call contents rank).commSize *
        (shape.call contents rank).recvtypeSize = shape.commSize * shape.nbytes := by
    rw [mul_right_comm, size]
    exact mul_comm _ _
  rw [Call.packBlocks, size, displs_eq, slots,
    pack_blocked fun block member => (mem_blocksWith.mp member).1, bind_some, length_packed, room,
    if_pos (Nat.mul_le_mul_right _ (length_blocksWith_le bit))]
  rfl

theorem unpack_travelling
    (inComm : rank < shape.commSize)
    (bit : Nat) :
    unpack shape.nbytes (shape.slots contents bit rank)
        ((shape.blocksWith bit).map (· * shape.nbytes))
        (shape.travelling contents bit (behind shape.commSize rank (2 ^ bit))) =
      some (shape.slots contents (bit + 1) rank) := by
  rw [slots, travelling, unpack_blocked fun block member => (mem_blocksWith.mp member).1]
  apply congrArg some
  apply blocked_congr
  intro number inBuffer
  by_cases set : BitSet number bit
  · rw [if_pos (mem_blocksWith.mpr ⟨inBuffer, set⟩), slot_succ_of_set set inComm inBuffer]
  · rw [if_neg fun member => set (mem_blocksWith.mp member).2, slot_succ_of_clear set]

variable (shape contents) in
/-- The communications of a rank in the step of a bit. -/
def bruckRound (rank bit : Nat) : Round Nat (List Cell) :=
  exchangeRound (· < shape.commSize)
    (ahead shape.commSize · (2 ^ bit))
    (behind shape.commSize · (2 ^ bit))
    (shape.travelling contents bit) rank

variable (shape) in
/-- The number of steps. -/
def bits : Nat :=
  Nat.clog 2 shape.commSize

theorem lt_bits_iff {bit : Nat} :
    bit < shape.bits ↔ 2 ^ bit < shape.commSize :=
  Nat.lt_clog_iff_pow_lt one_lt_two

theorem bruckRound_agrees :
    ScheduleAgrees (shape.bruckRound contents) (List.range shape.bits) := by
  intro bit member src dst
  apply ring_agrees
  exact (lt_bits_iff.mp (mem_range.mp member)).le

theorem ends_bruckLoop
    (inComm : rank < shape.commSize)
    (fuel : Nat)
    {bit : Nat}
    (within : bit ≤ shape.bits)
    (enough : shape.bits ≤ bit + fuel) :
    ((shape.call contents rank).bruckLoop check fuel (2 ^ bit)
        (shape.slots contents bit rank)).Ends
      (opsOf (shape.bruckRound contents rank) (range' bit (shape.bits - bit)))
      (shape.slots contents shape.bits rank) := by
  have size : (shape.call contents rank).commSize = shape.commSize := rfl
  induction fuel generalizing bit with
  | zero =>
    obtain rfl : bit = shape.bits := by omega
    have last : ¬ 2 ^ shape.bits < shape.commSize := by
      rw [← lt_bits_iff]
      exact lt_irrefl _
    rw [Call.bruckLoop, size, if_neg last, Nat.sub_self]
    exact Prog.ends_done _
  | succ fuel ih =>
    rw [Call.bruckLoop, size]
    by_cases more : bit < shape.bits
    · have here : (shape.bruckRound contents rank bit).ops = _ := ops_exchangeRound inComm
      have block : (shape.call contents rank).recvcount *
          (shape.call contents rank).recvtypeSize = shape.nbytes :=
        shape.recv_eq rank
      have length : (shape.travelling contents bit
          (behind shape.commSize rank (2 ^ bit))).length =
            ((shape.blocksWith bit).map (· * shape.nbytes)).length * shape.nbytes := by
        rw [travelling, length_packed, length_map]
      rw [if_pos (lt_bits_iff.mp more), show shape.bits - bit = shape.bits - (bit + 1) + 1 by omega,
        range'_succ, opsOf_cons, here, block, displs_eq, ← pow_succ]
      exact (ends_ofOption (packBlocks_slots rank bit)).bind
        ((ends_mpicSend _ _).bind
          ((check.ends_recv length).bind
            ((ends_ofOption (unpack_travelling inComm bit)).bind (ih more (by omega)))))
    · obtain rfl : bit = shape.bits := by omega
      rw [if_neg fun less => more (lt_bits_iff.mpr less), Nat.sub_self]
      exact Prog.ends_done _

variable (shape contents) in
/-- The blocks of the temporary buffer, the last rank's first. -/
def rotated (rank : Nat) : List Cell :=
  blocked shape.commSize shape.nbytes fun block =>
    contents.input (shape.commSize - 1 - block) rank

theorem behind_of_rotated
    {rank block : Nat}
    (inComm : rank < shape.commSize)
    (inBuffer : block < shape.commSize) :
    behind shape.commSize rank
        (if block < shape.commSize - rank - 1 then rank + 1 + block
          else block - (shape.commSize - rank - 1)) =
      shape.commSize - 1 - block := by
  rw [behind_eq_ite inComm (by split <;> omega)]
  split <;> split <;> omega

theorem rotateOut_eq (inComm : rank < shape.commSize) :
    (shape.call contents rank).rotateOut
        (shape.slots contents shape.bits rank) =
      some (shape.rotated contents rank) := by
  have all : shape.commSize ≤ 2 ^ shape.bits := Nat.le_pow_clog one_lt_two _
  have size : shape.recvcount rank * shape.commSize * shape.recvtypeSize rank =
      shape.commSize * shape.nbytes := by
    rw [mul_comm (shape.recvcount rank), mul_recv]
  have garbage : tabulate
      (shape.recvcount rank * shape.commSize * shape.recvtypeSize rank) (contents.garbage rank) =
      blocked shape.commSize shape.nbytes fun block index =>
        contents.garbage rank (block * shape.nbytes + index) := by
    rw [size, blocked]
    apply tabulate_congr
    intro index _
    rw [Nat.div_add_mod']
  have upper := @copyElements_blocked Cell shape.nbytes shape.commSize
    shape.commSize (rank + 1) 0 (shape.commSize - rank - 1) _ _ _ 0 _ _ (by omega)
    (by omega) (mul_recv rank _) (mul_recv rank _)
    ((zero_mul (shape.recvtypeSize rank)).trans (zero_mul _).symm)
    (mul_recv rank _) (shape.slot contents shape.bits rank)
    (fun block index => contents.garbage rank (block * shape.nbytes + index))
  have lower := @copyElements_blocked Cell shape.nbytes shape.commSize
    shape.commSize 0 (shape.commSize - rank - 1) (rank + 1) 0 _ _ _ _ _ (by omega)
    (by omega) ((zero_mul _).trans (zero_mul _).symm) (mul_recv rank _)
    (mul_recv rank _) (mul_recv rank _) (shape.slot contents shape.bits rank)
    (patch
      (fun block index => contents.garbage rank (block * shape.nbytes + index)) 0
      (shape.commSize - rank - 1)
      fun block => shape.slot contents shape.bits rank (rank + 1 + block))
  rw [← garbage] at upper
  refine (congrArg (Option.bind · _) upper).trans ?_
  refine lower.trans ?_
  apply congrArg some
  apply blocked_congr
  intro block inBuffer
  have origin := behind_of_rotated inComm inBuffer
  by_cases above : block < shape.commSize - rank - 1
  · rw [if_pos above] at origin
    rw [patch_of_not_mem (by omega), patch_of_mem (by omega),
      Nat.sub_zero, slot_of_all all inComm (by omega), origin]
  · rw [if_neg above] at origin
    rw [patch_of_mem (by omega), zero_add, slot_of_all all inComm (by omega), origin]

/-- The loop that reverses the blocks has stored those from the end on. -/
theorem reverseLoop_eq
    {i more : Nat}
    (total : i + more = shape.commSize)
    (cell : Nat → Nat → Cell) :
    (shape.call contents rank).reverseLoop (shape.rotated contents rank) more i
        (blocked shape.commSize shape.nbytes cell) =
      some (blocked shape.commSize shape.nbytes fun block =>
        if block < more then contents.input block rank else cell block) := by
  induction more generalizing i cell with
  | zero =>
    rw [Call.reverseLoop]
    simp only [not_lt_zero, if_false]
  | succ more ih =>
    have block : shape.recvcount rank * shape.recvtypeSize rank = 1 * shape.nbytes := by
      rw [shape.recv_eq, one_mul]
    have copied := @copyElements_blocked Cell shape.nbytes shape.commSize
      shape.commSize i (shape.commSize - i - 1) 1 _ _ _ _ _ _ (by omega)
      (by omega) (mul_recv rank _) block (mul_recv rank _) block
      (fun block => contents.input (shape.commSize - 1 - block) rank) cell
    refine (congrArg (Option.bind · _) copied).trans ?_
    rw [bind_some, ih (by omega)]
    apply congrArg some
    apply blocked_congr
    intro another inBuffer
    rcases lt_trichotomy another more with below | rfl | above
    · rw [if_pos below, if_pos (by omega)]
    · rw [if_neg (lt_irrefl _), if_pos (by omega), patch_of_mem (by omega)]
      congr 1
      omega
    · rw [if_neg (by omega), if_neg (by omega), patch_of_not_mem (by omega)]

/-- Bruck's algorithm of one rank. -/
theorem ends_bruck (inComm : rank < shape.commSize) :
    ((shape.call contents rank).bruck check).Ends
      (opsOf (shape.bruckRound contents rank) (List.range shape.bits))
      (blocked shape.commSize shape.nbytes fun src =>
        contents.input src rank) := by
  have loop := @ends_bruckLoop _ shape check contents _ inComm shape.commSize 0
    (Nat.zero_le _) (by
      rw [zero_add]
      exact Nat.clog_le_of_le_pow Nat.lt_two_pow_self.le)
  have last : ((shape.call contents rank).rotateOut
      (shape.slots contents shape.bits rank)).bind (fun tmpBuf =>
        (shape.call contents rank).reverseLoop tmpBuf shape.commSize 0
          (shape.slots contents shape.bits rank)) =
      some (blocked shape.commSize shape.nbytes fun src =>
        contents.input src rank) := by
    rw [rotateOut_eq inComm, bind_some, slots, reverseLoop_eq (zero_add _)]
    apply congrArg some
    apply blocked_congr
    intro src inBuffer
    rw [if_pos inBuffer]
  rw [← append_nil (opsOf _ _), range_eq_range']
  exact (ends_ofOption (rotateIn_eq inComm)).bind (loop.bind (ends_ofOption last))

end Shape

end Mpich.Coll.Alltoall
