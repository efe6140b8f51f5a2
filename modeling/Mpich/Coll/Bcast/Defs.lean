import Mpich.Coll.Common
import Mpich.Foundation.Cyclic

/-!
# Broadcast

`MPIR_Bcast` for a homogeneous intracommunicator: a binomial tree for short
messages and few processes; otherwise a scatter along the same tree, followed by
a recursive doubling or by a ring in which all processes gather the pieces. A
typed buffer is represented by its packed data.
-/

namespace Mpich.Coll.Bcast

open MessagePassing Buffer

/-- `MPIR_BCAST_SHORT_MSG`. -/
def bcastShortMsg : Nat := 12288

/-- `MPIR_BCAST_LONG_MSG`. -/
def bcastLongMsg : Nat := 524288

/-- `MPIR_BCAST_MIN_PROCS`. -/
def bcastMinProcs : Nat := 8

/-- How a process is watched. MPICH completes an empty message whatever the
room that its receive names, and does not look at where it would begin. A
strict reader demands that every receive has room for its message, and that
also empty messages begin within the data. -/
inductive Reading
  | lenient
  | strict

namespace Reading

/-- Something empty is passed over without a look. -/
def Overlooks (reading : Reading) (length : Nat) : Prop :=
  reading = .lenient ∧ length = 0

instance (reading : Reading) (length : Nat) :
    Decidable (reading.Overlooks length) :=
  match reading with
  | .lenient => decidable_of_iff (length = 0) (by simp [Overlooks])
  | .strict => isFalse (by simp [Overlooks])

variable {Cell : Type} (reading : Reading)

/-- The bytes from a position on. -/
def load (buffer : List Cell) (offset count : Nat) : Option (List Cell) :=
  if reading.Overlooks count then some []
  else Buffer.load buffer offset count

/-- Write bytes from a position on. -/
def store
    (buffer : List Cell)
    (offset : Nat)
    (msg : List Cell) : Option (List Cell) :=
  if reading.Overlooks msg.length then some buffer
  else Buffer.store buffer offset msg

/-- `MPIC_Recv` with a count that may be negative. -/
def recv (src : Nat) (capacity : Int) : Prog Nat (List Cell) (List Cell) :=
  .recv src fun msg =>
    if reading.Overlooks msg.length ∨ (msg.length : Int) ≤ capacity then
      .done msg
    else .fail

end Reading

/-- One process's call of `MPIR_Bcast`. -/
structure Call (Cell : Type) where
  commSize : Nat
  rank : Nat
  root : Nat
  /-- The data of the buffer. -/
  buffer : List Cell
  count : Nat
  typeSize : Nat
  isContig : Bool
  /-- What allocated memory holds before it is written. -/
  garbage : Nat → Cell

/-- The variables of the long algorithms. -/
structure Node (Cell : Type) where
  tmpBuf : List Cell
  currSize : Nat
  recvSize : Int

namespace Call

variable {Cell State : Type} (call : Call Cell) (reading : Reading)

def nbytes : Nat :=
  call.typeSize * call.count

def relativeRank : Nat :=
  if call.root ≤ call.rank then call.rank - call.root
  else call.rank + call.commSize - call.root

/-- The data as the algorithms see it: a buffer that is not contiguous is packed
into a temporary one at the root. -/
def start : List Cell :=
  if call.isContig ∨ call.rank = call.root then call.buffer
  else tabulate call.nbytes call.garbage

/-- The data of the buffer in the end: a buffer that is not contiguous is
unpacked from the temporary one at the other processes. -/
def finish (tmpBuf : List Cell) : List Cell :=
  if call.isContig ∨ call.rank ≠ call.root then tmpBuf else call.buffer

/-- `src = rank - mask; if (src < 0) src += comm_size;`. -/
def treeSrc (mask : Nat) : Nat :=
  if call.rank < mask then call.rank + call.commSize - mask
  else call.rank - mask

/-- `dst = rank + mask; if (dst >= comm_size) dst -= comm_size;`. -/
def treeDst (mask : Nat) : Nat :=
  if call.commSize ≤ call.rank + mask then call.rank + mask - call.commSize
  else call.rank + mask

/-- The loop up to the mask at which a process receives. The mask in the end,
with the variables. -/
def recvLoop (receive : Nat → State → Prog Nat (List Cell) State) :
    Nat → Nat → State → Prog Nat (List Cell) (Nat × State)
  | 0, mask, state =>
    if mask < call.commSize then .fail else pure (mask, state)
  | fuel + 1, mask, state =>
    if mask < call.commSize then
      if call.relativeRank &&& mask ≠ 0 then do
        let state ← receive mask state
        pure (mask, state)
      else recvLoop receive fuel (mask <<< 1) state
    else pure (mask, state)

/-- The loop down from a mask, in which a process sends to its subtree. -/
def sendLoop (send : Nat → State → Prog Nat (List Cell) State) :
    Nat → Nat → State → Prog Nat (List Cell) State
  | 0, mask, state => if 0 < mask then .fail else pure state
  | fuel + 1, mask, state =>
    if 0 < mask then
      if call.relativeRank + mask < call.commSize then do
        let state ← send mask state
        sendLoop send fuel (mask >>> 1) state
      else sendLoop send fuel (mask >>> 1) state
    else pure state

/-- Both loops. -/
def tree
    (receive send : Nat → State → Prog Nat (List Cell) State)
    (state : State) : Prog Nat (List Cell) State := do
  let (mask, state) ← call.recvLoop receive call.commSize 1 state
  call.sendLoop send call.commSize (mask >>> 1) state

/-- Receive all data. -/
def receiveAll (mask : Nat) (buffer : List Cell) :
    Prog Nat (List Cell) (List Cell) := do
  let msg ← reading.recv (call.treeSrc mask) call.nbytes
  Prog.ofOption (reading.store buffer 0 msg)

/-- Send all data. -/
def sendAll (mask : Nat) (buffer : List Cell) :
    Prog Nat (List Cell) (List Cell) := do
  let msg ← Prog.ofOption (reading.load buffer 0 call.nbytes)
  mpicSend (call.treeDst mask) msg
  pure buffer

/-- The algorithm for short messages. -/
def binomial : Prog Nat (List Cell) (List Cell) :=
  call.tree (call.receiveAll reading) (call.sendAll reading) call.start

/-- The size of a piece, by ceiling division. -/
def scatterSize : Nat :=
  (call.nbytes + call.commSize - 1) / call.commSize

/-- Receive the pieces of a subtree, if there is data for it. -/
def receivePieces (mask : Nat) (node : Node Cell) :
    Prog Nat (List Cell) (Node Cell) :=
  let recvSize : Int := call.nbytes - call.relativeRank * call.scatterSize
  if recvSize ≤ 0 then pure { node with currSize := 0, recvSize }
  else do
    let msg ← reading.recv (call.treeSrc mask) recvSize
    let tmpBuf ← Prog.ofOption (reading.store node.tmpBuf
      (call.relativeRank * call.scatterSize) msg)
    pure { tmpBuf, currSize := msg.length, recvSize }

/-- Send the pieces of a subtree, if there is data for it. -/
def sendPieces (mask : Nat) (node : Node Cell) :
    Prog Nat (List Cell) (Node Cell) :=
  let sendSize := node.currSize - call.scatterSize * mask
  if 0 < sendSize then do
    let msg ← Prog.ofOption (reading.load node.tmpBuf
      (call.scatterSize * (call.relativeRank + mask)) sendSize)
    mpicSend (call.treeDst mask) msg
    pure { node with currSize := node.currSize - sendSize }
  else pure node

/-- The scatter. -/
def scatter : Prog Nat (List Cell) (Node Cell) :=
  call.tree (call.receivePieces reading) (call.sendPieces reading)
    { tmpBuf := call.start
      currSize := if call.rank = call.root then call.nbytes else 0
      recvSize := 0 }

/-- The rank with this relative rank. -/
def absolute (relative : Nat) : Nat :=
  (relative + call.root) % call.commSize

/-- Receive bytes from a rank at an offset. -/
def receiveAt
    (relativeSrc offset : Nat)
    (node : Node Cell) : Prog Nat (List Cell) (Node Cell) := do
  let msg ← reading.recv (call.absolute relativeSrc)
    ((call.nbytes : Int) - offset)
  let tmpBuf ← Prog.ofOption (reading.store node.tmpBuf offset msg)
  pure { tmpBuf, currSize := node.currSize + msg.length, recvSize := msg.length }

/-- The exchange with the partner at one level, if there is one. -/
def exchangePieces
    (relativeDst dstTreeRoot myTreeRoot : Nat)
    (node : Node Cell) : Prog Nat (List Cell) (Node Cell) :=
  if relativeDst < call.commSize then do
    let msg ← Prog.ofOption (reading.load node.tmpBuf
      (myTreeRoot * call.scatterSize) node.currSize)
    mpicSend (call.absolute relativeDst) msg
    call.receiveAt reading relativeDst (dstTreeRoot * call.scatterSize) node
  else pure node

/-- Processes of a subtree that have received data send it to those that had
nobody to receive it from. -/
def forwardLoop (offset : Nat) (nprocsCompleted : Int) :
    Nat → Nat → Nat → Node Cell → Prog Nat (List Cell) (Node Cell)
  | 0, tmpMask, _, node => if tmpMask ≠ 0 then .fail else pure node
  | fuel + 1, tmpMask, k, node =>
    if tmpMask ≠ 0 then
      let relativeDst := call.relativeRank ^^^ tmpMask
      let completed := treeRoot call.relativeRank k + nprocsCompleted
      if call.relativeRank < relativeDst ∧ call.relativeRank < completed ∧
          completed ≤ relativeDst then do
        let msg ← Prog.ofOption
          (reading.load node.tmpBuf offset node.recvSize.toNat)
        mpicSend (call.absolute relativeDst) msg
        forwardLoop offset nprocsCompleted fuel (tmpMask >>> 1) (k - 1) node
      else if relativeDst < call.relativeRank ∧ relativeDst < completed ∧
          completed ≤ call.relativeRank then do
        let node ← call.receiveAt reading relativeDst offset node
        forwardLoop offset nprocsCompleted fuel (tmpMask >>> 1) (k - 1) node
      else
        forwardLoop offset nprocsCompleted fuel (tmpMask >>> 1) (k - 1) node
    else pure node

/-- The forwarding within the subtree of a process, where the other subtree is
not complete. -/
def completeTree
    (mask dstTreeRoot myTreeRoot : Nat)
    (node : Node Cell) : Prog Nat (List Cell) (Node Cell) :=
  if call.commSize < dstTreeRoot + mask then
    call.forwardLoop reading (call.scatterSize * (myTreeRoot + mask))
      ((call.commSize : Int) - myTreeRoot - mask)
      mask (mask >>> 1) (countShifts (mask + 1) mask 0 - 1) node
  else pure node

/-- The loop of the recursive doubling. -/
def doublingLoop : Nat → Nat → Nat → Node Cell → Prog Nat (List Cell) (Node Cell)
  | 0, mask, _, node => if mask < call.commSize then .fail else pure node
  | fuel + 1, mask, i, node =>
    if mask < call.commSize then do
      let relativeDst := call.relativeRank ^^^ mask
      let dstTreeRoot := treeRoot relativeDst i
      let myTreeRoot := treeRoot call.relativeRank i
      let node ←
        call.exchangePieces reading relativeDst dstTreeRoot myTreeRoot node
      let node ← call.completeTree reading mask dstTreeRoot myTreeRoot node
      doublingLoop fuel (mask <<< 1) (i + 1) node
    else pure node

/-- `recvcnts[i]`. -/
def recvcnts (i : Nat) : Nat :=
  min (call.nbytes - i * call.scatterSize) call.scatterSize

/-- `displs[i]`. -/
def displs : Nat → Nat
  | 0 => 0
  | i + 1 => displs i + call.recvcnts i

/-- `(j - root + comm_size) % comm_size`. -/
def pieceOf (j : Nat) : Nat :=
  (j + call.commSize - call.root) % call.commSize

/-- `for (i = 1; i < comm_size; i++)` send one piece to the right and receive
the next from the left. -/
def ringLoop : Nat → Nat → Nat → List Cell → Prog Nat (List Cell) (List Cell)
  | 0, _, _, tmpBuf => pure tmpBuf
  | more + 1, j, jnext, tmpBuf => do
      let left := (call.commSize + call.rank - 1) % call.commSize
      let right := (call.rank + 1) % call.commSize
      let msg ← Prog.ofOption (reading.load tmpBuf
        (call.displs (call.pieceOf j)) (call.recvcnts (call.pieceOf j)))
      mpicSend right msg
      let msg ← reading.recv left (call.recvcnts (call.pieceOf jnext))
      let tmpBuf ← Prog.ofOption
        (reading.store tmpBuf (call.displs (call.pieceOf jnext)) msg)
      ringLoop more jnext ((call.commSize + jnext - 1) % call.commSize) tmpBuf

def commSizeIsPof2 : Prop :=
  CommSizeIsPof2 call.commSize

instance : Decidable call.commSizeIsPof2 :=
  inferInstanceAs (Decidable (CommSizeIsPof2 _))

/-- The processes gather the pieces. -/
def allgather (node : Node Cell) : Prog Nat (List Cell) (List Cell) :=
  if call.nbytes < bcastLongMsg ∧ call.commSizeIsPof2 then do
    let node ← call.doublingLoop reading call.commSize 1 0 node
    pure node.tmpBuf
  else
    call.ringLoop reading (call.commSize - 1) call.rank
      ((call.commSize + call.rank - 1) % call.commSize) node.tmpBuf

/-- The algorithm for long messages. -/
def scatterAllgather : Prog Nat (List Cell) (List Cell) := do
  let node ← call.scatter reading
  call.allgather reading node

/-- The algorithm that the size of the message and the number of processes
select. -/
def algorithm : Prog Nat (List Cell) (List Cell) :=
  if call.nbytes < bcastShortMsg ∨ call.commSize < bcastMinProcs then
    call.binomial reading
  else call.scatterAllgather reading

/-- `MPIR_Bcast`, with the data of the buffer at its end. -/
def bcast : Prog Nat (List Cell) (List Cell) :=
  if call.count = 0 ∨ call.commSize = 1 then pure call.buffer
  else do
    let tmpBuf ← call.algorithm reading
    pure (call.finish tmpBuf)

end Call

/-- The arguments of all processes, apart from what their buffers hold. Counts
and types may differ, as long as all of them describe as much data. -/
structure Shape where
  commSize : Nat
  root : Nat
  root_lt : root < commSize
  nbytes : Nat
  count : Nat → Nat
  typeSize : Nat → Nat
  isContig : Nat → Bool
  bytes_eq : ∀ rank, typeSize rank * count rank = nbytes
  /-- All processes return at once for a zero count, or none does. -/
  early_iff : ∀ rank other, count rank = 0 ↔ count other = 0

/-- What the memory of all processes holds: the data of their buffers, and what
comes from nowhere. -/
structure Contents (Cell : Type) where
  data : Nat → Nat → Cell
  garbage : Nat → Nat → Cell

namespace Shape

variable {Cell : Type}
variable (shape : Shape) (reading : Reading) (contents : Contents Cell)

/-- The call of one rank. -/
def call (rank : Nat) : Call Cell where
  commSize := shape.commSize
  rank := rank
  root := shape.root
  buffer := tabulate shape.nbytes (contents.data rank)
  count := shape.count rank
  typeSize := shape.typeSize rank
  isContig := shape.isContig rank
  garbage := contents.garbage rank

/-- The programs of all ranks; there is nothing to run outside the
communicator. -/
def program (rank : Nat) : Prog Nat (List Cell) (List Cell) :=
  if rank < shape.commSize then (shape.call contents rank).bcast reading
  else .done []

/-- The data of the root. -/
def rootData : List Cell :=
  tabulate shape.nbytes (contents.data shape.root)

/-- Every run of the processes ends without an error, every message is received
once, and all buffers then hold the data of the root. -/
def Broadcasts : Prop :=
  ∃ out, Completes (shape.program reading contents) out ∧
    ∀ rank < shape.commSize, out rank = shape.rootData contents

end Shape

end Mpich.Coll.Bcast
