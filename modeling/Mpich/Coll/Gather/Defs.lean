import Mpich.Coll.Common

/-!
# Gather

`MPIR_Gather` for a homogeneous intracommunicator: a binomial tree for short and
for long messages. A typed buffer is represented by its packed data, so that
`count` elements of a type of `size` bytes are `count * size` cells, and
element `e` starts at cell `e * size`.

Ranks are counted from the root. Before the round of mask `2 ^ round` a multiple of
the mask holds the blocks of `2 ^ round` ranks from its own on, as far as there are so
many; with the bit of the mask it sends them to the rank without it, and is done.
-/

namespace Mpich.Coll.Gather

open MessagePassing Buffer

/-- `MPIR_GATHER_VSMALL_MSG`. -/
def gatherVsmallMsg : Nat := 1024

/-- One process's call of `MPIR_Gather`. -/
structure Call (Cell : Type) where
  commSize : Nat
  rank : Nat
  root : Nat
  /-- The data of the send buffer. -/
  sendbuf : List Cell
  sendcnt : Nat
  sendtypeSize : Nat
  /-- The send buffer is `MPI_IN_PLACE`. -/
  inPlace : Bool
  /-- The data of the receive buffer. -/
  recvbuf : List Cell
  recvcnt : Nat
  recvtypeSize : Nat
  /-- What allocated memory holds before it is written. -/
  garbage : Nat → Cell

/-- The variables that change while messages come in. -/
structure Node (Cell : Type) where
  recvbuf : List Cell
  tmpBuf : List Cell
  currCnt : Nat
  copyOffset : Nat
  copyBlks : Nat

/-- `for (mask = 1; mask < comm_size; mask <<= 1);` from a given mask. -/
def coverMask (commSize : Nat) : Nat → Nat → Nat
  | 0, mask => mask
  | fuel + 1, mask =>
    if mask < commSize then coverMask commSize fuel (mask <<< 1) else mask

/-- `while (relative_rank & mask) mask >>= 1;` from a given mask. -/
def shrinkMask (relativeRank : Nat) : Nat → Nat → Nat
  | 0, mask => mask
  | fuel + 1, mask =>
    if relativeRank &&& mask ≠ 0 then shrinkMask relativeRank fuel (mask >>> 1)
    else mask

namespace Call

variable {Cell : Type} (call : Call Cell)

/-- The call returns at once. -/
def ReturnsEarly : Prop :=
  (call.rank = call.root ∧ call.recvcnt = 0) ∨ (call.rank ≠ call.root ∧ call.sendcnt = 0)

instance : Decidable call.ReturnsEarly :=
  inferInstanceAs (Decidable (_ ∨ _))

/-- The position of a rank relative to the root. -/
def relativeTo (rank : Nat) : Nat :=
  if call.root ≤ rank then rank - call.root
  else rank + call.commSize - call.root

def relativeRank : Nat :=
  call.relativeTo call.rank

def nbytes : Nat :=
  if call.rank = call.root then call.recvtypeSize * call.recvcnt
  else call.sendtypeSize * call.sendcnt

def tmpBufSize : Nat :=
  let mask := shrinkMask call.relativeRank call.commSize
    (coverMask call.commSize call.commSize 1 - 1)
  -- The difference is zero where the source sets a negative one to zero.
  let missing := (call.relativeRank ||| mask) + 1 - call.commSize
  let blocks := mask - missing + if call.nbytes < gatherVsmallMsg then 1 else 0
  if call.rank = call.root ∧ (call.root = 0 ∨ gatherVsmallMsg ≤ call.nbytes) then 0
  else blocks * call.nbytes

/-- How many blocks the root expects from the child at this distance. -/
def rootRecvblks (mask : Nat) : Nat :=
  if call.commSize < 2 * mask then call.commSize - mask else mask

/-- The data of that child fits into the receive buffer without a gap. -/
def FitsDirectly (mask : Nat) : Prop :=
  call.rank + mask + call.rootRecvblks mask = call.commSize ∨ (call.rank + mask) % call.commSize <
      (call.rank + mask + call.rootRecvblks mask) % call.commSize

instance (mask : Nat) : Decidable (call.FitsDirectly mask) :=
  inferInstanceAs (Decidable (_ ∨ _))

/-- The child at this distance. -/
def child (mask : Nat) : Nat :=
  ((call.relativeRank ||| mask) + call.root) % call.commSize

/-- How many blocks an intermediate node expects from that child. -/
def intermediateRecvblks (mask : Nat) : Nat :=
  let relativeSrc := call.relativeTo (call.child mask)
  if call.commSize < relativeSrc + mask then
    mask - (relativeSrc + mask - call.commSize)
  else mask

/-- The room there is for the message of the child at this distance. -/
def capacity (mask : Nat) : Nat :=
  if call.rank = call.root then
    if call.FitsDirectly mask then
      call.rootRecvblks mask * call.recvcnt * call.recvtypeSize
    else if call.nbytes < gatherVsmallMsg then
      call.rootRecvblks mask * call.nbytes
    else
      -- The type made for a message that wraps around has two blocks.
      call.recvcnt * call.rootRecvblks mask * call.recvtypeSize
  else
    call.intermediateRecvblks mask * call.nbytes

/-- Store the message of the child at this distance. -/
def absorb
    (mask : Nat)
    (node : Node Cell)
    (msg : List Cell) : Option (Node Cell) :=
  if call.rank = call.root then
    if call.FitsDirectly mask then
      (store node.recvbuf
        ((call.rank + mask) % call.commSize * call.recvcnt * call.recvtypeSize)
        msg).map fun recvbuf => { node with recvbuf }
    else if call.nbytes < gatherVsmallMsg then
      (store node.tmpBuf 0 msg).map fun tmpBuf =>
        { node with
          tmpBuf
          copyOffset := call.rank + mask
          copyBlks := call.rootRecvblks mask }
    else
      let block := call.recvcnt * (call.commSize - call.root - mask) *
        call.recvtypeSize
      (store node.recvbuf
        (call.recvcnt * (call.root + mask) * call.recvtypeSize)
        (msg.take block)).bind fun recvbuf =>
      (store recvbuf 0 (msg.drop block)).map fun recvbuf =>
        { node with recvbuf }
  else
    let offset :=
      if call.nbytes < gatherVsmallMsg then mask * call.nbytes else 0
    (store node.tmpBuf offset msg).map fun tmpBuf =>
      { node with
        tmpBuf
        currCnt := node.currCnt + call.intermediateRecvblks mask * call.nbytes }

/-- The message to the parent. -/
def outgoing (node : Node Cell) : Option (List Cell) :=
  if call.tmpBufSize = 0 then
    some call.sendbuf
  else if call.nbytes < gatherVsmallMsg then
    load node.tmpBuf 0 node.currCnt
  else
    let offset := if call.nbytes < gatherVsmallMsg then call.nbytes else 0
    (load node.tmpBuf offset (node.currCnt - call.nbytes)).map
      fun received => call.sendbuf ++ received

/-- The loop over the distances, up to the message to the parent. -/
def gatherLoop :
    Nat → Nat → Node Cell → Prog Nat (List Cell) (Node Cell)
  | 0, mask, node => if mask < call.commSize then .fail else pure node
  | fuel + 1, mask, node =>
    if mask < call.commSize then
      if mask &&& call.relativeRank = 0 then
        if call.relativeRank ||| mask < call.commSize then do
          let msg ← mpicRecv (call.child mask) (call.capacity mask)
          let node ← Prog.ofOption (call.absorb mask node msg)
          gatherLoop fuel (mask <<< 1) node
        else
          gatherLoop fuel (mask <<< 1) node
      else do
        let msg ← Prog.ofOption (call.outgoing node)
        mpicSend (((call.relativeRank ^^^ mask) + call.root) % call.commSize) msg
        pure node
    else
      pure node

/-- The variables before the loop: the root has copied its own block to the
receive buffer, another process may have copied its block to the temporary
one. -/
def start : Option (Node Cell) :=
  let tmpBuf := (List.range call.tmpBufSize).map call.garbage
  let node : Node Cell := {
    recvbuf := call.recvbuf
    tmpBuf := tmpBuf
    currCnt := call.nbytes
    copyOffset := 0
    copyBlks := 0 }
  if call.rank = call.root then
    if call.inPlace then some node
    else
      (store node.recvbuf
        (call.recvcnt * call.rank * call.recvtypeSize) call.sendbuf).map
          fun recvbuf => { node with recvbuf }
  else if call.tmpBufSize ≠ 0 ∧ call.nbytes < gatherVsmallMsg then
    (store node.tmpBuf 0 call.sendbuf).map fun tmpBuf =>
      { node with tmpBuf }
  else some node

/-- The copy from the temporary buffer after the loop, at the root. -/
def reorder (node : Node Cell) : Option (List Cell) :=
  if call.rank = call.root ∧ call.root ≠ 0 ∧ call.nbytes < gatherVsmallMsg ∧ node.copyBlks ≠ 0 then
    let front := call.nbytes * (call.commSize - node.copyOffset)
    let back := call.nbytes * (node.copyBlks + node.copyOffset - call.commSize)
    (load node.tmpBuf 0 front).bind fun cells =>
    (store node.recvbuf
      (call.recvtypeSize * call.recvcnt * node.copyOffset) cells).bind
        fun recvbuf =>
    (load node.tmpBuf front back).bind fun cells =>
    store recvbuf 0 cells
  else some node.recvbuf

/-- `MPIR_Gather`, with the receive buffer at its end. -/
def gather : Prog Nat (List Cell) (List Cell) :=
  if call.ReturnsEarly then pure call.recvbuf
  else do
    let node ← Prog.ofOption call.start
    let node ← call.gatherLoop call.commSize 1 node
    Prog.ofOption (call.reorder node)

end Call

/-- The arguments of all processes, apart from what their buffers hold. -/
structure Shape where
  commSize : Nat
  root : Nat
  sendcnt : Nat → Nat
  sendtypeSize : Nat → Nat
  recvcnt : Nat → Nat
  recvtypeSize : Nat → Nat
  /-- The root passes `MPI_IN_PLACE` as its send buffer. -/
  inPlace : Bool

/-- What the buffers of all processes hold. -/
structure Contents (Cell : Type) where
  sendbuf : Nat → List Cell
  recvbuf : Nat → List Cell
  garbage : Nat → Nat → Cell

namespace Shape

variable {Cell : Type} (shape : Shape) (contents : Contents Cell)

/-- The call of one rank. -/
def call (rank : Nat) : Call Cell where
  commSize := shape.commSize
  rank := rank
  root := shape.root
  sendbuf := contents.sendbuf rank
  sendcnt := shape.sendcnt rank
  sendtypeSize := shape.sendtypeSize rank
  inPlace := shape.inPlace
  recvbuf := contents.recvbuf rank
  recvcnt := shape.recvcnt rank
  recvtypeSize := shape.recvtypeSize rank
  garbage := contents.garbage rank

/-- The programs of all ranks; there is nothing to run outside the
communicator. -/
def program (rank : Nat) : Prog Nat (List Cell) (List Cell) :=
  if rank < shape.commSize then (shape.call contents rank).gather else .done []

/-- A rank passes a send buffer of its own. -/
def Sends (rank : Nat) : Prop :=
  rank ≠ shape.root ∨ shape.inPlace = false

/-- The root is a rank, and all processes name the same number of bytes. -/
structure Matches (nbytes : Nat) : Prop where
  root_lt : shape.root < shape.commSize
  recv_eq :
    shape.recvtypeSize shape.root * shape.recvcnt shape.root = nbytes
  send_eq : ∀ rank < shape.commSize, shape.Sends rank →
    shape.sendtypeSize rank * shape.sendcnt rank = nbytes

/-- The buffers have the sizes that the calls name. -/
structure Holds (nbytes : Nat) : Prop where
  sendbuf : ∀ rank < shape.commSize, shape.Sends rank → (contents.sendbuf rank).length = nbytes
  recvbuf :
    (contents.recvbuf shape.root).length = shape.commSize * nbytes

/-- The block that a rank contributes. -/
def block (nbytes rank : Nat) : List Cell :=
  if rank = shape.root ∧ shape.inPlace then
    ((contents.recvbuf rank).drop (rank * nbytes)).take nbytes
  else contents.sendbuf rank

/-- Every run of the processes ends, and the receive buffer of the root then has
the block of each rank at its position. -/
def Gathers (nbytes : Nat) : Prop :=
  ∃ out, Completes (shape.program contents) out ∧
    (out shape.root).length = shape.commSize * nbytes ∧ ∀ rank < shape.commSize,
      load (out shape.root) (rank * nbytes) nbytes = some (shape.block contents nbytes rank)

end Shape

open Masks

/-- The rank at a position relative to the root. -/
def absolute (commSize root position : Nat) : Nat :=
  (position + root) % commSize

/-- The position of a rank relative to the root. -/
def relative (commSize root rank : Nat) : Nat :=
  if root ≤ rank then rank - root else rank + commSize - root

section

variable {commSize root : Nat}

variable {position : Nat}

theorem absolute_of_lt
    (inComm : position + root < commSize) :
    absolute commSize root position = position + root :=
  Nat.mod_eq_of_lt inComm

section

variable (rootInComm : root < commSize)

include rootInComm

theorem absolute_of_le
    (inComm : position < commSize)
    (wraps : commSize ≤ position + root) :
    absolute commSize root position = position + root - commSize := by
  rw [absolute, Nat.mod_eq_sub_mod wraps, Nat.mod_eq_of_lt (by omega)]

theorem absolute_eq_ite
    (inComm : position < commSize) :
    absolute commSize root position = if position + root < commSize then position + root
      else position + root - commSize := by
  split
  · exact absolute_of_lt ‹_›
  · exact absolute_of_le rootInComm inComm (by omega)

theorem absolute_lt
    (position : Nat) :
    absolute commSize root position < commSize :=
  Nat.mod_lt _ (by omega)

theorem relative_lt
    {rank : Nat}
    (inComm : rank < commSize) :
    relative commSize root rank < commSize := by
  unfold relative
  split <;> omega

theorem relative_absolute
    (inComm : position < commSize) :
    relative commSize root (absolute commSize root position) = position := by
  unfold relative
  by_cases wraps : commSize ≤ position + root
  · rw [absolute_of_le rootInComm inComm wraps, if_neg (by omega)]
    omega
  · rw [absolute_of_lt (by omega), if_pos (by omega)]
    omega

theorem absolute_relative
    {rank : Nat}
    (inComm : rank < commSize) :
    absolute commSize root (relative commSize root rank) = rank := by
  unfold relative
  by_cases above : root ≤ rank
  · rw [if_pos above, absolute_of_lt (by omega)]
    omega
  · rw [if_neg above, absolute_of_le rootInComm (by omega) (by omega)]
    omega

end

@[simp] theorem relative_root : relative commSize root root = 0 := by
  simp [relative]

end

/-- How many blocks the rank at a position holds before a round. -/
def held (commSize round position : Nat) : Nat :=
  min (2 ^ round) (commSize - position)

section

variable {commSize round position : Nat}

theorem held_le_pow : held commSize round position ≤ 2 ^ round :=
  min_le_left _ _

theorem add_held_le (inComm : position < commSize) :
    position + held commSize round position ≤ commSize := by
  unfold held
  omega

theorem held_pos (inComm : position < commSize) :
    0 < held commSize round position := by
  have := Nat.two_pow_pos round
  unfold held
  omega

theorem held_eq_pow (within : position + 2 ^ round ≤ commSize) :
    held commSize round position = 2 ^ round := by
  unfold held
  omega

/-- With the blocks of a child a rank holds those of the next round. -/
theorem held_succ_of_lt (within : position + 2 ^ round < commSize) :
    held commSize (round + 1) position =
      2 ^ round + held commSize round (position + 2 ^ round) := by
  unfold held
  omega

theorem held_succ_of_le (beyond : commSize ≤ position + 2 ^ round) :
    held commSize (round + 1) position = held commSize round position := by
  unfold held
  rw [pow_succ]
  omega

theorem held_mono
    {earlier later : Nat}
    (order : earlier ≤ later) :
    held commSize earlier position ≤ held commSize later position := by
  have := Nat.pow_le_pow_right two_pos order
  unfold held
  omega

/-- A rank that is a multiple of the next power of two, too, has the bit of the
round clear. -/
theorem bitSet_of_mod (multiple : position % 2 ^ round = 0) :
    position % 2 ^ (round + 1) = 0 ↔ ¬ BitSet position round := by
  rw [mod_two_pow_succ, multiple]
  split <;> simp_all

theorem mod_of_mod_succ (multiple : position % 2 ^ (round + 1) = 0) :
    position % 2 ^ round = 0 := by
  rw [mod_two_pow_succ] at multiple
  omega

/-- The child of a rank in a round is a multiple of the mask, with the bit
set. -/
theorem child_spec
    (multiple : position % 2 ^ round = 0)
    (clear : ¬ BitSet position round) :
    (position + 2 ^ round) % 2 ^ round = 0 ∧ BitSet (position + 2 ^ round) round := by
  have divided : (position + 2 ^ round) / 2 ^ round = position / 2 ^ round + 1 :=
    Nat.add_div_right position (Nat.two_pow_pos round)
  refine ⟨by rwa [Nat.add_mod_right], ?_⟩
  unfold BitSet at *
  omega

/-- The parent of a rank in a round is a multiple of the mask, with the bit
clear. -/
theorem parent_spec
    (multiple : position % 2 ^ round = 0)
    (set : BitSet position round) :
    (position - 2 ^ round) % 2 ^ round = 0 ∧ ¬ BitSet (position - 2 ^ round) round := by
  refine ⟨?_, not_bitSet_sub set⟩
  rw [← Nat.mod_eq_sub_mod (mask_le_of_bitSet set), multiple]

end

/-- The first loop of the sizing ends with a power of two that covers the
communicator. -/
theorem coverMask_eq
    (commSize fuel exponent : Nat)
    (enough : commSize ≤ 2 ^ (exponent + fuel)) :
    ∃ covering, coverMask commSize fuel (2 ^ exponent) = 2 ^ covering ∧
      covering ≤ exponent + fuel ∧ commSize ≤ 2 ^ covering := by
  induction fuel generalizing exponent with
  | zero => exact ⟨exponent, rfl, le_rfl, enough⟩
  | succ fuel ih =>
    rw [coverMask]
    by_cases small : 2 ^ exponent < commSize
    · rw [if_pos small, Nat.shiftLeft_eq, ← Nat.pow_add]
      obtain ⟨covering, eq, bound, covers⟩ :=
        ih (exponent + 1) (by rwa [add_assoc, add_comm 1])
      exact ⟨covering, eq, by omega, covers⟩
    · rw [if_neg small]
      exact ⟨exponent, rfl, by omega, by omega⟩

theorem two_pow_succ_sub_one_shiftRight (exponent : Nat) :
    (2 ^ (exponent + 1) - 1) >>> 1 = 2 ^ exponent - 1 := by
  omega

/-- The second loop ends with the greatest power of two, less one, that divides
the position. -/
theorem shrinkMask_eq
    (position fuel exponent : Nat)
    (enough : exponent ≤ fuel) :
    ∃ dividing, shrinkMask position fuel (2 ^ exponent - 1) = 2 ^ dividing - 1 ∧
      dividing ≤ exponent ∧ position % 2 ^ dividing = 0 ∧
      ∀ other ≤ exponent, position % 2 ^ other = 0 → other ≤ dividing := by
  induction fuel generalizing exponent with
  | zero =>
    obtain rfl : exponent = 0 := by omega
    exact ⟨0, rfl, le_rfl, Nat.mod_one _, fun _ small _ => small⟩
  | succ fuel ih =>
    rw [shrinkMask, Nat.and_two_pow_sub_one_eq_mod]
    by_cases multiple : position % 2 ^ exponent = 0
    · rw [if_neg (by simpa using multiple)]
      exact ⟨exponent, rfl, le_rfl, multiple, fun _ small _ => small⟩
    · rw [if_pos multiple]
      cases exponent with
      | zero => exact absurd (Nat.mod_one position) multiple
      | succ exponent =>
        rw [two_pow_succ_sub_one_shiftRight]
        obtain ⟨dividing, eq, small, divides, greatest⟩ := ih exponent (by omega)
        refine ⟨dividing, eq, by omega, divides, ?_⟩
        intro other bound divided
        rcases lt_or_ge exponent other with last | earlier
        · obtain rfl : other = exponent + 1 := by omega
          exact absurd divided multiple
        · exact greatest other earlier divided

/-- The blocks that the temporary buffer of a rank has room for, apart from its
own. -/
def tmpBlocks (commSize position : Nat) : Nat :=
  let mask := shrinkMask position commSize (coverMask commSize commSize 1 - 1)
  mask - ((position ||| mask) + 1 - commSize)

variable {position : Nat}

/-- The temporary buffer has room for what a rank receives in any round. -/
theorem held_le_tmpBlocks
    {commSize round : Nat}
    (inComm : position < commSize)
    (multiple : position % 2 ^ round = 0) :
    held commSize round position ≤ tmpBlocks commSize position + 1 := by
  obtain ⟨covering, coverEq, coverSmall, covers⟩ :=
    coverMask_eq commSize commSize 0 (by rw [zero_add]; exact Nat.lt_two_pow_self.le)
  rw [pow_zero] at coverEq
  obtain ⟨dividing, shrinkEq, dividingSmall, divides, greatest⟩ :=
    shrinkMask_eq position commSize covering (by omega)
  have setLow : position ||| (2 ^ dividing - 1) = position + (2 ^ dividing - 1) := by
    have split := Nat.div_add_mod position (2 ^ dividing)
    rw [divides, add_zero] at split
    rw [← split, Nat.two_pow_add_eq_or_of_lt (by omega)]
  have room : held commSize dividing position ≤ tmpBlocks commSize position + 1 := by
    unfold tmpBlocks held
    simp only [coverEq, shrinkEq, setLow]
    omega
  by_cases early : round ≤ covering
  · exact (held_mono (greatest round early multiple)).trans room
  · -- Beyond the covering power only the root is a multiple.
    have larger : 2 ^ covering < 2 ^ round := Nat.pow_lt_pow_right (by omega) (by omega)
    have isRoot : position = 0 := by
      rwa [Nat.mod_eq_of_lt (by omega)] at multiple
    have last : covering ≤ dividing := greatest covering le_rfl (by rw [isRoot, Nat.zero_mod])
    have whole : held commSize round position ≤ held commSize dividing position := by
      have := Nat.pow_le_pow_right two_pos last
      unfold held
      omega
    exact whole.trans room

end Mpich.Coll.Gather
