import Mathlib.Algebra.BigOperators.Intervals
import Mpich.Coll.Common
import Mpich.Foundation.MessagePassing.Schedule

/-!
# Reduce-scatter

`MPIR_Reduce_scatter` for intracommunicators: recursive halving and pairwise
exchange for operations that are declared commutative, recursive doubling and
pairwise exchange for the others.
-/

namespace Mpich.Coll.ReduceScatter

open MessagePassing Buffer

/-- `MPIR_REDSCAT_COMMUTATIVE_LONG_MSG`. -/
def redscatCommutativeLongMsg : Int := 524288

/-- `MPIR_REDSCAT_NONCOMMUTATIVE_SHORT_MSG`. -/
def redscatNoncommutativeShortMsg : Int := 512

/-- One process's call of `MPIR_Reduce_scatter`. -/
structure Call (Cell : Type) where
  commSize : Nat
  rank : Nat
  /-- The send buffer is `MPI_IN_PLACE`. -/
  inPlace : Bool
  sendbuf : List Cell
  recvbuf : List Cell
  recvcnts : Nat → Nat
  /-- The size of the datatype. -/
  typeSize : Nat
  /-- `MPIR_Datatype_iscontig` of the datatype. -/
  typeIsContig : Bool
  /-- The operation is predefined, or it was not created as one that does not
  commute. -/
  isCommutative : Bool
  uop : Cell → Cell → Cell
  /-- What allocated memory holds before it is written. -/
  garbage : Nat → Cell
  /-- What `memcpy` leaves when the two areas overlap, which is undefined. -/
  overlap : Nat → Cell

/-- The temporary buffers of an algorithm. -/
structure Temps (Cell : Type) where
  tmpRecvbuf : List Cell
  tmpResults : List Cell

/-- `while (pof2 <= comm_size) pof2 <<= 1;` from a given value. -/
def exceedingPof2 (commSize : Nat) : Nat → Nat → Nat
  | 0, pof2 => pof2
  | fuel + 1, pof2 =>
    if pof2 ≤ commSize then exceedingPof2 commSize fuel (pof2 <<< 1) else pof2

/-- `while (j) { j >>= 1; k++; }` from given values. -/
def countShifts : Nat → Nat → Nat → Nat
  | 0, _, k => k
  | fuel + 1, j, k => if j ≠ 0 then countShifts fuel (j >>> 1) (k + 1) else k

/-- An indexed type of two blocks, the first at displacement zero. -/
structure TwoBlocks where
  first : Nat
  second : Nat
  /-- The displacement of the second block. -/
  disp : Nat

namespace TwoBlocks

variable {Cell : Type} (blocks : TwoBlocks)

/-- The elements of the blocks in a buffer. -/
def pack (buffer : List Cell) : Option (List Cell) :=
  (load buffer 0 blocks.first).bind fun first =>
  (load buffer blocks.disp blocks.second).map fun second =>
  first ++ second

/-- Replace the elements of the blocks in a buffer. -/
def unpack (buffer msg : List Cell) : Option (List Cell) :=
  (store buffer 0 (msg.take blocks.first)).bind fun buffer =>
  store buffer blocks.disp (msg.drop blocks.first)

/-- Apply an operation to the elements of the blocks in two buffers. -/
def applyOp
    (uop : Cell → Cell → Cell)
    (invec inoutvec : List Cell) : Option (List Cell) :=
  (Coll.applyOp uop invec 0 inoutvec 0 blocks.first).bind fun inoutvec =>
  Coll.applyOp uop invec blocks.disp inoutvec blocks.disp blocks.second

end TwoBlocks

namespace Call

variable {Cell : Type} (call : Call Cell)

/-- `disps[rank]`; `total_count` for the size of the communicator. -/
def disps (rank : Nat) : Nat :=
  ∑ i ∈ Finset.range rank, call.recvcnts i

def totalCount : Nat :=
  call.disps call.commSize

/-- `nbytes`, an `int`. -/
def nbytes : Int :=
  Int.bmod (call.totalCount * call.typeSize) (2 ^ 32)

/-- The temporary buffers with the process's own elements copied to
`tmp_results`. -/
def startTemps : Option (Temps Cell) :=
  let input := if call.inPlace then call.recvbuf else call.sendbuf
  let garbage := tabulate call.totalCount call.garbage
  (localcopy input 0 garbage 0 call.totalCount).map fun tmpResults =>
    { tmpRecvbuf := garbage, tmpResults }

def pof2 : Nat :=
  exceedingPof2 call.commSize call.commSize 1 >>> 1

def rem : Nat :=
  call.commSize - call.pof2

/-- What a rank of the smaller communicator maps to in the old ranking. -/
def oldRank (newrank : Nat) : Nat :=
  if newrank < call.rem then newrank * 2 + 1 else newrank + call.rem

def newcnts (newrank : Nat) : Nat :=
  if call.oldRank newrank < 2 * call.rem then
    call.recvcnts (call.oldRank newrank) + call.recvcnts (call.oldRank newrank - 1)
  else call.recvcnts (call.oldRank newrank)

def newdisps (newrank : Nat) : Nat :=
  ∑ i ∈ Finset.range newrank, call.newcnts i

/-- Receive elements into `tmp_recvbuf` and combine them with the elements at
the same place of `tmp_results`. -/
def receiveAndReduce
    (src offset count : Nat)
    (temps : Temps Cell) : Prog Nat (List Cell) (Temps Cell) := do
  let msg ← mpicRecv src count
  let tmpRecvbuf ← Prog.ofOption (store temps.tmpRecvbuf offset msg)
  let tmpResults ← Prog.ofOption
    (applyOp call.uop tmpRecvbuf offset temps.tmpResults offset count)
  pure { tmpRecvbuf, tmpResults }

/-- The same, if there are elements to receive. -/
def receiveResults
    (src offset count : Nat)
    (temps : Temps Cell) : Prog Nat (List Cell) (Temps Cell) :=
  if count ≠ 0 then call.receiveAndReduce src offset count temps
  else pure temps

/-- Send elements of `tmp_results`, if there are any. -/
def sendResults
    (dst offset count : Nat)
    (temps : Temps Cell) : Prog Nat (List Cell) Unit :=
  if count ≠ 0 then do
    let msg ← Prog.ofOption (load temps.tmpResults offset count)
    mpicSend dst msg
  else pure ()

/-- The even ranks below `2 * rem` send their data to the next rank. The new
rank of a process that takes part in the halving, with its buffers. -/
def foldPairs (temps : Temps Cell) :
    Prog Nat (List Cell) (Option Nat × Temps Cell) :=
  if call.rank < 2 * call.rem then
    if call.rank % 2 = 0 then do
      let msg ← Prog.ofOption
        (load temps.tmpResults 0 call.totalCount)
      mpicSend (call.rank + 1) msg
      pure (none, temps)
    else do
      let temps ← call.receiveAndReduce (call.rank - 1) 0 call.totalCount temps
      pure (some (call.rank / 2), temps)
  else pure (some (call.rank - call.rem), temps)

/-- The loop of the recursive halving. -/
def halvingLoop (newrank : Nat) :
    Nat → Nat → Nat → Nat → Nat → Temps Cell → Prog Nat (List Cell) (Temps Cell)
  | 0, mask, _, _, _, temps => if 0 < mask then .fail else pure temps
  | fuel + 1, mask, sendIdx, recvIdx, lastIdx, temps =>
    if 0 < mask then do
      let newdst := newrank ^^^ mask
      let dst := call.oldRank newdst
      let lower := newrank < newdst
      let newSendIdx := if lower then recvIdx + mask else sendIdx
      let newRecvIdx := if lower then recvIdx else sendIdx + mask
      let sendCnt :=
        if lower then ∑ i ∈ Finset.Ico newSendIdx lastIdx, call.newcnts i
        else ∑ i ∈ Finset.Ico newSendIdx newRecvIdx, call.newcnts i
      let recvCnt :=
        if lower then ∑ i ∈ Finset.Ico newRecvIdx newSendIdx, call.newcnts i
        else ∑ i ∈ Finset.Ico newRecvIdx lastIdx, call.newcnts i
      -- `MPIC_Sendrecv`, `MPIC_Send`, `MPIC_Recv` or nothing.
      sendResults dst (call.newdisps newSendIdx) sendCnt temps
      let temps ←
        call.receiveResults dst (call.newdisps newRecvIdx) recvCnt temps
      halvingLoop newrank fuel (mask >>> 1) newRecvIdx newRecvIdx (newRecvIdx + mask) temps
    else pure temps

/-- The recursive halving of a process, if it takes part. -/
def halve (newrank : Option Nat) (temps : Temps Cell) :
    Prog Nat (List Cell) (Temps Cell) :=
  match newrank with
  | none => pure temps
  | some newrank =>
    call.halvingLoop newrank call.commSize (call.pof2 >>> 1) 0 0 call.pof2 temps

/-- Copy the process's own result to the receive buffer, and send to the left
neighbour, or receive from the right one, the result of an even rank below
`2 * rem`. -/
def unfoldPairs (newrank : Option Nat) (temps : Temps Cell) :
    Prog Nat (List Cell) (List Cell) := do
  let recvbuf ← Prog.ofOption
    (if newrank ≠ none ∧ call.recvcnts call.rank ≠ 0 then
      localcopy temps.tmpResults (call.disps call.rank) call.recvbuf 0 (call.recvcnts call.rank)
    else some call.recvbuf)
  if call.rank < 2 * call.rem then
    if call.rank % 2 ≠ 0 then do
      sendResults (call.rank - 1) (call.disps (call.rank - 1)) (call.recvcnts (call.rank - 1)) temps
      pure recvbuf
    else if call.recvcnts call.rank ≠ 0 then do
      let msg ← mpicRecv (call.rank + 1) (call.recvcnts call.rank)
      Prog.ofOption (store recvbuf 0 msg)
    else pure recvbuf
  else pure recvbuf

/-- Recursive halving. -/
def recursiveHalving : Prog Nat (List Cell) (List Cell) := do
  let temps ← Prog.ofOption call.startTemps
  let (newrank, temps) ← call.foldPairs temps
  let temps ← call.halve newrank temps
  call.unfoldPairs newrank temps

/-- The variables of the pairwise exchange. -/
structure Exchange (Cell : Type) where
  recvbuf : List Cell
  tmpRecvbuf : List Cell

/-- Where a process combines its result in its receive buffer. -/
def resultOffset : Nat :=
  if call.inPlace then call.disps call.rank else 0

/-- Combine the elements that came from a rank with the result so far. -/
def absorb
    (src : Nat)
    (node : Exchange Cell)
    (msg : List Cell) : Option (Exchange Cell) :=
  let count := call.recvcnts call.rank
  (store node.tmpRecvbuf 0 msg).bind fun tmpRecvbuf =>
  if call.isCommutative ∨ src < call.rank then
    (applyOp call.uop tmpRecvbuf 0 node.recvbuf call.resultOffset count).map
      fun recvbuf => { recvbuf, tmpRecvbuf }
  else
    (applyOp call.uop node.recvbuf call.resultOffset tmpRecvbuf 0 count).bind
      fun tmpRecvbuf =>
    (localcopy tmpRecvbuf 0 node.recvbuf call.resultOffset count).map
      fun recvbuf => { recvbuf, tmpRecvbuf }

/-- The loop of the pairwise exchange. -/
def pairwiseLoop : Nat → Nat → Exchange Cell → Prog Nat (List Cell) (Exchange Cell)
  | 0, i, node => if i < call.commSize then .fail else pure node
  | fuel + 1, i, node =>
    if i < call.commSize then do
      let src := (call.rank + call.commSize - i) % call.commSize
      let dst := (call.rank + i) % call.commSize
      let msg ← Prog.ofOption (load
        (if call.inPlace then node.recvbuf else call.sendbuf)
        (call.disps dst) (call.recvcnts dst))
      mpicSend dst msg
      let msg ← mpicRecv src (call.recvcnts call.rank)
      let node ← Prog.ofOption (call.absorb src node msg)
      pairwiseLoop fuel (i + 1) node
    else pure node

/-- Move the result of a process that works in place to the beginning of its
receive buffer: `MPIR_Localcopy` calls `memcpy` for a contiguous datatype. -/
def moveResult (recvbuf : List Cell) : Option (List Cell) :=
  let count := call.recvcnts call.rank
  if call.inPlace ∧ call.rank ≠ 0 then
    if call.typeIsContig ∧ call.disps call.rank < count then
      store recvbuf 0 (tabulate count call.overlap)
    else localcopy recvbuf (call.disps call.rank) recvbuf 0 count
  else some recvbuf

/-- Pairwise exchange. -/
def pairwiseExchange : Prog Nat (List Cell) (List Cell) := do
  let count := call.recvcnts call.rank
  let recvbuf ← Prog.ofOption
    (if call.inPlace then some call.recvbuf
      else localcopy call.sendbuf (call.disps call.rank) call.recvbuf 0 count)
  let node ← call.pairwiseLoop call.commSize 1
    { recvbuf, tmpRecvbuf := tabulate count call.garbage }
  Prog.ofOption (call.moveResult node.recvbuf)

/-- The first rank of the subtree of a rank at a level. -/
def treeRoot (rank i : Nat) : Nat :=
  (rank >>> i) <<< i

/-- The type of the elements that are not for the ranks from a given one on,
up to this many. -/
def outside (root mask : Nat) : TwoBlocks where
  first := ∑ j ∈ Finset.range (min root call.commSize), call.recvcnts j
  second := ∑ j ∈ Finset.Ico (root + mask) call.commSize, call.recvcnts j
  disp :=
    ∑ j ∈ Finset.range (min root call.commSize), call.recvcnts j +
      ∑ j ∈ Finset.Ico root (min (root + mask) call.commSize), call.recvcnts j

/-- Processes of a subtree that have received data send it to those that had
nobody to receive it from. Whether a process has received data, and its
buffer. -/
def forwardLoop (recvtype : TwoBlocks) (nprocsCompleted : Int) :
    Nat → Nat → Nat → Bool → List Cell → Prog Nat (List Cell) (Bool × List Cell)
  | 0, tmpMask, _, received, tmpRecvbuf =>
    if tmpMask ≠ 0 then .fail else pure (received, tmpRecvbuf)
  | fuel + 1, tmpMask, k, received, tmpRecvbuf =>
    if tmpMask ≠ 0 then
      let dst := call.rank ^^^ tmpMask
      let completed := treeRoot call.rank k + nprocsCompleted
      if call.rank < dst ∧ call.rank < completed ∧ completed ≤ dst then do
        let msg ← Prog.ofOption (recvtype.pack tmpRecvbuf)
        mpicSend dst msg
        forwardLoop recvtype nprocsCompleted fuel (tmpMask >>> 1) (k - 1) received tmpRecvbuf
      else if dst < call.rank ∧ dst < completed ∧ completed ≤ call.rank then do
        let msg ← mpicRecv dst (recvtype.first + recvtype.second)
        let tmpRecvbuf ← Prog.ofOption (recvtype.unpack tmpRecvbuf msg)
        forwardLoop recvtype nprocsCompleted fuel (tmpMask >>> 1) (k - 1) true tmpRecvbuf
      else
        forwardLoop recvtype nprocsCompleted fuel (tmpMask >>> 1) (k - 1) received tmpRecvbuf
    else pure (received, tmpRecvbuf)

/-- Combine the data received at one level with the results so far. -/
def combine
    (recvtype : TwoBlocks)
    (dstTreeRoot myTreeRoot : Nat)
    (temps : Temps Cell) : Option (Temps Cell) :=
  if call.isCommutative ∨ dstTreeRoot < myTreeRoot then
    (recvtype.applyOp call.uop temps.tmpRecvbuf temps.tmpResults).map
      fun tmpResults => { temps with tmpResults }
  else
    (recvtype.applyOp call.uop temps.tmpResults temps.tmpRecvbuf).bind
      fun tmpRecvbuf =>
    (recvtype.pack tmpRecvbuf).bind fun msg =>
    (recvtype.unpack temps.tmpResults msg).map fun tmpResults =>
      { tmpRecvbuf, tmpResults }

/-- The exchange with the partner at one level, if there is one. -/
def exchangeTrees
    (dst : Nat)
    (sendtype recvtype : TwoBlocks)
    (temps : Temps Cell) : Prog Nat (List Cell) (Bool × List Cell) :=
  if dst < call.commSize then do
    let msg ← Prog.ofOption (sendtype.pack temps.tmpResults)
    mpicSend dst msg
    let msg ← mpicRecv dst (recvtype.first + recvtype.second)
    let tmpRecvbuf ← Prog.ofOption (recvtype.unpack temps.tmpRecvbuf msg)
    pure (true, tmpRecvbuf)
  else pure (false, temps.tmpRecvbuf)

/-- The forwarding within the subtree of a process, where the other subtree is
not complete. -/
def completeTree
    (mask dstTreeRoot myTreeRoot : Nat)
    (recvtype : TwoBlocks)
    (received : Bool)
    (tmpRecvbuf : List Cell) : Prog Nat (List Cell) (Bool × List Cell) :=
  if call.commSize < dstTreeRoot + mask then
    call.forwardLoop recvtype ((call.commSize : Int) - myTreeRoot - mask)
      mask (mask >>> 1) (countShifts (mask + 1) mask 0 - 1) received tmpRecvbuf
  else pure (received, tmpRecvbuf)

/-- The loop of the recursive doubling. -/
def doublingLoop : Nat → Nat → Nat → Temps Cell → Prog Nat (List Cell) (Temps Cell)
  | 0, mask, _, temps => if mask < call.commSize then .fail else pure temps
  | fuel + 1, mask, i, temps =>
    if mask < call.commSize then do
      let dst := call.rank ^^^ mask
      let dstTreeRoot := treeRoot dst i
      let myTreeRoot := treeRoot call.rank i
      let recvtype := call.outside dstTreeRoot mask
      let (received, tmpRecvbuf) ←
        call.exchangeTrees dst (call.outside myTreeRoot mask) recvtype temps
      let (received, tmpRecvbuf) ←
        call.completeTree mask dstTreeRoot myTreeRoot recvtype received tmpRecvbuf
      let temps ← Prog.ofOption
        (if received then
          call.combine recvtype dstTreeRoot myTreeRoot
            { temps with tmpRecvbuf }
        else some { temps with tmpRecvbuf })
      doublingLoop fuel (mask <<< 1) (i + 1) temps
    else pure temps

/-- Recursive doubling. -/
def recursiveDoubling : Prog Nat (List Cell) (List Cell) := do
  let temps ← Prog.ofOption call.startTemps
  let temps ← call.doublingLoop call.commSize 1 0 temps
  Prog.ofOption (localcopy temps.tmpResults (call.disps call.rank)
    call.recvbuf 0 (call.recvcnts call.rank))

/-- `MPIR_Reduce_scatter`, with the receive buffer at its end. -/
def reduceScatter : Prog Nat (List Cell) (List Cell) :=
  if call.totalCount = 0 then pure call.recvbuf
  else if call.isCommutative ∧ call.nbytes < redscatCommutativeLongMsg then
    call.recursiveHalving
  else if (call.isCommutative ∧ redscatCommutativeLongMsg ≤ call.nbytes) ∨
      (¬ call.isCommutative ∧ redscatNoncommutativeShortMsg ≤ call.nbytes) then
    call.pairwiseExchange
  else call.recursiveDoubling

end Call

/-- The arguments of all processes, apart from the operation and from what
their buffers hold. -/
structure Shape where
  commSize : Nat
  recvcnts : Nat → Nat
  typeSize : Nat
  typeIsContig : Bool
  isCommutative : Bool
  /-- A rank passes `MPI_IN_PLACE` as its send buffer. -/
  inPlace : Nat → Bool

/-- What the memory of all processes holds: for each rank, its elements to be
reduced, those of a receive buffer that is used for the result only, and the
elements that come from nowhere. -/
structure Contents (Cell : Type) where
  input : Nat → Nat → Cell
  output : Nat → Nat → Cell
  garbage : Nat → Nat → Cell
  overlap : Nat → Nat → Cell

namespace Shape

variable {Cell : Type}
variable (shape : Shape) (uop : Cell → Cell → Cell) (contents : Contents Cell)

/-- The number of elements for the ranks below a given one. -/
def disps (rank : Nat) : Nat :=
  ∑ i ∈ Finset.range rank, shape.recvcnts i

def totalCount : Nat :=
  shape.disps shape.commSize

/-- The call of one rank. -/
def call (rank : Nat) : Call Cell where
  commSize := shape.commSize
  rank := rank
  inPlace := shape.inPlace rank
  sendbuf :=
    if shape.inPlace rank then []
    else tabulate shape.totalCount (contents.input rank)
  recvbuf :=
    if shape.inPlace rank then
      tabulate shape.totalCount (contents.input rank)
    else tabulate (shape.recvcnts rank) (contents.output rank)
  recvcnts := shape.recvcnts
  typeSize := shape.typeSize
  typeIsContig := shape.typeIsContig
  isCommutative := shape.isCommutative
  uop := uop
  garbage := contents.garbage rank
  overlap := contents.overlap rank

/-- The programs of all ranks; there is nothing to run outside the
communicator. -/
def program (rank : Nat) : Prog Nat (List Cell) (List Cell) :=
  if rank < shape.commSize then (shape.call uop contents rank).reduceScatter
  else .done []

/-- An order of the ranks in which their elements may be combined. -/
def Allows (order : List Nat) : Prop :=
  if shape.isCommutative then order.Perm (List.range shape.commSize)
  else order = List.range shape.commSize

/-- A value is the reduction of the elements at a position. -/
def IsReduction (column : Nat) (value : Cell) : Prop :=
  ∃ order, shape.Allows order ∧
    OrderedProduct.product uop (fun rank => contents.input rank column) order = some value

/-- Every run of the processes ends, and the receive buffer of each rank then
begins with the reductions of the elements for that rank. -/
def Computes : Prop :=
  ∃ out, Completes (shape.program uop contents) out ∧
    ∀ rank < shape.commSize, ∀ index < shape.recvcnts rank,
      ∃ value, (out rank)[index]? = some value ∧
        shape.IsReduction uop contents (shape.disps rank + index) value

/-- The calls compute the reductions for every associative operation and all
elements. -/
def ComputesAlways : Prop :=
  ∀ (Cell : Type) (uop : Cell → Cell → Cell), (∀ a b c, uop (uop a b) c = uop a (uop b c)) →
      ∀ contents : Contents Cell, shape.Computes uop contents

/-- What the receive buffer of a rank holds at first. -/
def recvcell (rank : Nat) : Nat → Cell :=
  if shape.inPlace rank then contents.input rank else contents.output rank

/-- The number of elements in the receive buffer of a rank. -/
def recvLength (rank : Nat) : Nat :=
  if shape.inPlace rank then shape.totalCount else shape.recvcnts rank

variable {shape uop contents}

theorem disps_succ (rank : Nat) :
    shape.disps (rank + 1) = shape.disps rank + shape.recvcnts rank :=
  Finset.sum_range_succ _ _

theorem disps_mono : Monotone shape.disps :=
  monotone_nat_of_le_succ fun rank => by
    rw [disps_succ]
    exact Nat.le_add_right _ _

theorem sum_Ico_recvcnts
    {first last : Nat}
    (order : first ≤ last) :
    ∑ rank ∈ Finset.Ico first last, shape.recvcnts rank = shape.disps last - shape.disps first := by
  have total := Finset.sum_range_add_sum_Ico shape.recvcnts order
  unfold disps
  omega

/-- The elements for a rank are among all elements. -/
theorem slot_within
    {rank : Nat}
    (inComm : rank < shape.commSize) :
    shape.disps rank + shape.recvcnts rank ≤ shape.totalCount := by
  rw [← disps_succ]
  exact disps_mono inComm

/-- The elements for two ranks do not overlap. -/
theorem slots_disjoint
    {rank other index : Nat}
    (different : rank ≠ other)
    (inside : index < shape.recvcnts rank) :
    ¬ (shape.disps other ≤ shape.disps rank + index ∧
      shape.disps rank + index < shape.disps other + shape.recvcnts other) := by
  rcases Nat.lt_or_gt_of_ne different with below | above
  · have := @disps_mono shape _ _ below
    rw [Nat.succ_eq_add_one, disps_succ] at this
    omega
  · have := @disps_mono shape _ _ above
    rw [Nat.succ_eq_add_one, disps_succ] at this
    omega

theorem recvcnts_le_recvLength
    {rank : Nat}
    (inComm : rank < shape.commSize) :
    shape.recvcnts rank ≤ shape.recvLength rank := by
  have within := slot_within inComm
  unfold recvLength
  split <;> omega

theorem call_recvbuf (rank : Nat) :
    (shape.call uop contents rank).recvbuf =
      tabulate (shape.recvLength rank) (shape.recvcell contents rank) := by
  unfold call recvLength recvcell
  by_cases place : shape.inPlace rank
  · simp only [if_pos place]
  · simp only [if_neg place]

/-- Each process starts with its own elements. -/
theorem startTemps_eq (rank : Nat) :
    (shape.call uop contents rank).startTemps = some
        { tmpRecvbuf := tabulate shape.totalCount (contents.garbage rank)
          tmpResults :=
            tabulate shape.totalCount (contents.input rank) } := by
  have own : (if shape.inPlace rank then (shape.call uop contents rank).recvbuf
      else (shape.call uop contents rank).sendbuf) =
        tabulate shape.totalCount (contents.input rank) := by
    unfold call
    by_cases place : shape.inPlace rank
    · simp only [if_pos place]
    · simp only [if_neg place]
  change (localcopy (if shape.inPlace rank = true then _ else _) 0
    (tabulate shape.totalCount (contents.garbage rank)) 0
    shape.totalCount).map _ = _
  rw [own, localcopy, load_tabulate (by omega), Option.bind_some,
    store_tabulate_all, Option.map_some]
  simp only [Nat.zero_add]
  rfl

end Shape

end Mpich.Coll.ReduceScatter
