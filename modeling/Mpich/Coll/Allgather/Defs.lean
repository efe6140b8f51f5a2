import Mpich.Coll.Common
import Mpich.Foundation.Layout

/-!
# Allgather and allgatherv

`MPIR_Allgather` and `MPIR_Allgatherv` for homogeneous intracommunicators: a
recursive doubling for short and medium messages and powers of two, Bruck's
algorithm for other short messages, and a ring. Both functions have the same
loops, with other offsets and counts. A typed buffer is represented by its
packed data, so that `count` elements of a type of `size` bytes are
`count * size` cells, and element `e` starts at cell `e * size`. Nothing can be
read, written, sent or received anywhere.
-/

namespace Mpich.Coll.Allgather

open MessagePassing Buffer

/-- `MPIR_ALLGATHER_LONG_MSG`. -/
def allgatherLongMsg : Int := 524288

/-- `MPIR_ALLGATHER_SHORT_MSG`. -/
def allgatherShortMsg : Int := 81920

/-- `MPIR_Localcopy` between two different buffers. -/
def copyAny
    {Cell : Type}
    (src : List Cell)
    (srcElement srcCount srcSize : Nat)
    (dst : List Cell)
    (dstElement dstCount dstSize : Nat) : Option (List Cell) :=
  if srcCount * srcSize ≤ dstCount * dstSize then
    (loadAny src (srcElement * srcSize) (srcCount * srcSize)).bind
      (storeAny dst (dstElement * dstSize))
  else none

/-- One process, and the size of its receive type. -/
structure Process where
  commSize : Nat
  rank : Nat
  typeSize : Nat

/-- The variables of the loops. -/
structure Node (Cell : Type) where
  buf : List Cell
  currCnt : Nat
  lastRecvCnt : Nat

namespace Process

variable {Cell : Type} (process : Process)

/-- `NMPI_Get_count` for a message. -/
def getCount (msg : List Cell) : Nat :=
  msg.length / process.typeSize

/-- Send elements of a buffer. -/
def sendElements
    (dst : Nat)
    (buf : List Cell)
    (first count : Nat) : Prog Nat (List Cell) Unit := do
  let msg ← Prog.ofOption (loadAny buf (first * process.typeSize)
    (count * process.typeSize))
  mpicSend dst msg

/-- Receive elements into a buffer. The buffer and the number of elements. -/
def recvElements
    (src : Nat)
    (buf : List Cell)
    (first room : Nat) : Prog Nat (List Cell) (List Cell × Nat) := do
  let msg ← mpicRecv src (room * process.typeSize)
  let buf ← Prog.ofOption (storeAny buf (first * process.typeSize) msg)
  pure (buf, process.getCount msg)

section

variable {process}

theorem ends_sendElements
    {dst first count : Nat} {buf msg : List Cell}
    (loaded : loadAny buf (first * process.typeSize)
      (count * process.typeSize) = some msg) :
    (process.sendElements dst buf first count).Ends [.send dst msg] () := by
  unfold sendElements
  rw [loaded]
  exact ⟨rfl, rfl, rfl⟩

theorem ends_recvElements
    {src first room : Nat} {buf msg written : List Cell}
    (fits : msg.length ≤ room * process.typeSize)
    (stored : storeAny buf (first * process.typeSize) msg = some written) :
    (process.recvElements src buf first room).Ends [.recv src msg]
      (written, process.getCount msg) :=
  (ends_mpicRecv fits).bind ((ends_ofOption stored).bind (Prog.ends_done _))

end

section

/- Where the data of a rank starts, and how much room there is from there on. -/
variable (offset room : Nat → Nat)

/-- Receive data that starts with that of a rank. -/
def recvTree
    (src root : Nat)
    (node : Node Cell) : Prog Nat (List Cell) (Node Cell) := do
  let (buf, lastRecvCnt) ←
    process.recvElements src node.buf (offset root) (room root)
  pure { buf, currCnt := node.currCnt + lastRecvCnt, lastRecvCnt }

/-- The exchange with the partner at one level, if there is one. -/
def exchangeTrees
    (dst dstTreeRoot myTreeRoot : Nat)
    (node : Node Cell) : Prog Nat (List Cell) (Node Cell) :=
  if dst < process.commSize then do
    process.sendElements dst node.buf (offset myTreeRoot) node.currCnt
    process.recvTree offset room dst dstTreeRoot node
  else pure node

/-- Processes of a subtree that have received data send it to those that had
nobody to receive it from. -/
def forwardLoop (first : Nat) (nprocsCompleted : Int) :
    Nat → Nat → Nat → Node Cell → Prog Nat (List Cell) (Node Cell)
  | 0, tmpMask, _, node => if tmpMask ≠ 0 then .fail else pure node
  | fuel + 1, tmpMask, k, node =>
    if tmpMask ≠ 0 then
      let dst := process.rank ^^^ tmpMask
      let completed := treeRoot process.rank k + nprocsCompleted
      if process.rank < dst ∧ process.rank < completed ∧ completed ≤ dst then do
        process.sendElements dst node.buf (offset first) node.lastRecvCnt
        forwardLoop first nprocsCompleted fuel (tmpMask >>> 1) (k - 1) node
      else if dst < process.rank ∧ dst < completed ∧ completed ≤ process.rank then do
        let node ← process.recvTree offset room dst first node
        forwardLoop first nprocsCompleted fuel (tmpMask >>> 1) (k - 1) node
      else forwardLoop first nprocsCompleted fuel (tmpMask >>> 1) (k - 1) node
    else pure node

/-- The forwarding within the subtree of a process, where the other subtree is
not complete. -/
def completeTree
    (mask dstTreeRoot myTreeRoot : Nat)
    (node : Node Cell) : Prog Nat (List Cell) (Node Cell) :=
  if process.commSize < dstTreeRoot + mask then
    process.forwardLoop offset room (myTreeRoot + mask)
      ((process.commSize : Int) - myTreeRoot - mask)
      mask (mask >>> 1) (countShifts (mask + 1) mask 0 - 1) node
  else pure node

/-- The loop of the recursive doubling. -/
def doublingLoop : Nat → Nat → Nat → Node Cell → Prog Nat (List Cell) (Node Cell)
  | 0, mask, _, node => if mask < process.commSize then .fail else pure node
  | fuel + 1, mask, i, node =>
    if mask < process.commSize then do
      let dst := process.rank ^^^ mask
      let dstTreeRoot := treeRoot dst i
      let myTreeRoot := treeRoot process.rank i
      let node ←
        process.exchangeTrees offset room dst dstTreeRoot myTreeRoot node
      let node ← process.completeTree offset room mask dstTreeRoot myTreeRoot node
      doublingLoop fuel (mask <<< 1) (i + 1) node
    else pure node

end

section

/- The room for a message behind the elements so far, the number of elements
afterwards, and the number of elements of the first blocks. -/
variable (room : Nat → Nat) (next : Nat → Nat → Nat) (firstCnt : Nat → Nat)

/-- The steps of Bruck's algorithm up to half of the processes. -/
def bruckLoop : Nat → Nat → Node Cell → Prog Nat (List Cell) (Nat × Node Cell)
  | 0, pof2, node =>
    if pof2 ≤ process.commSize / 2 then .fail else pure (pof2, node)
  | fuel + 1, pof2, node =>
    if pof2 ≤ process.commSize / 2 then do
      let src := (process.rank + pof2) % process.commSize
      let dst := (process.rank + process.commSize - pof2) % process.commSize
      process.sendElements dst node.buf 0 node.currCnt
      let (buf, recvCnt) ←
        process.recvElements src node.buf node.currCnt (room node.currCnt)
      bruckLoop fuel (pof2 * 2)
        { node with buf, currCnt := next node.currCnt recvCnt }
    else pure (pof2, node)

/-- The last step, if the number of processes is not a power of two. -/
def bruckRest
    (restRoom : Nat → Nat → Nat)
    (pof2 : Nat)
    (node : Node Cell) : Prog Nat (List Cell) (List Cell) :=
  let rem := process.commSize - pof2
  if rem ≠ 0 then do
    let src := (process.rank + pof2) % process.commSize
    let dst := (process.rank + process.commSize - pof2) % process.commSize
    process.sendElements dst node.buf 0 (firstCnt rem)
    let (buf, _) ← process.recvElements src node.buf node.currCnt
      (restRoom rem node.currCnt)
    pure buf
  else pure node.buf

end

section

/- Where the data of a rank is, and how much it is. -/
variable (displ cnt : Nat → Nat)

/-- `for (i = 1; i < comm_size; i++)` send one block to the right and receive
the next from the left. -/
def ringLoop : Nat → Nat → Nat → List Cell → Prog Nat (List Cell) (List Cell)
  | 0, _, _, recvbuf => pure recvbuf
  | more + 1, j, jnext, recvbuf => do
      let left := (process.commSize + process.rank - 1) % process.commSize
      let right := (process.rank + 1) % process.commSize
      process.sendElements right recvbuf (displ j) (cnt j)
      let (recvbuf, _) ←
        process.recvElements left recvbuf (displ jnext) (cnt jnext)
      ringLoop more jnext ((process.commSize + jnext - 1) % process.commSize) recvbuf

end

end Process

/-- One process's call of `MPIR_Allgatherv`. -/
structure CallV (Cell : Type) where
  commSize : Nat
  rank : Nat
  /-- The send buffer is `MPI_IN_PLACE`. -/
  inPlace : Bool
  /-- The data of the send buffer. -/
  sendbuf : List Cell
  sendcount : Nat
  sendtypeSize : Nat
  /-- The data of the receive buffer. -/
  recvbuf : List Cell
  recvcounts : Nat → Nat
  displs : Nat → Nat
  recvtypeSize : Nat
  /-- What allocated memory holds before it is written. -/
  garbage : Nat → Cell

namespace CallV

variable {Cell : Type} (call : CallV Cell)

def process : Process where
  commSize := call.commSize
  rank := call.rank
  typeSize := call.recvtypeSize

/-- The number of elements for the ranks below a given one. -/
def position (rank : Nat) : Nat :=
  prefixSum call.recvcounts rank

def totalCount : Nat :=
  call.position call.commSize

/-- `total_count * recvtype_size`, an `int`. -/
def totalBytes : Int :=
  Int.bmod (call.totalCount * call.recvtypeSize) (2 ^ 32)

/-- Copy the process's own data to an element of a buffer. -/
def copyOwn (dst : List Cell) (element : Nat) : Option (List Cell) :=
  let count := call.recvcounts call.rank
  if call.inPlace then
    copyAny call.recvbuf (call.displs call.rank) count call.recvtypeSize
      dst element count call.recvtypeSize
  else
    copyAny call.sendbuf 0 call.sendcount call.sendtypeSize dst element count call.recvtypeSize

/-- Copy blocks that lie one behind the other in a temporary buffer to their
places. -/
def copyBlocks (skipsOwn : Bool) (tmpBuf : List Cell) :
    List Nat → Nat → List Cell → Option (List Cell)
  | [], _, recvbuf => some recvbuf
  | j :: later, position, recvbuf =>
    (if skipsOwn ∧ j = call.rank then some recvbuf
    else
      copyAny tmpBuf position (call.recvcounts j) call.recvtypeSize
        recvbuf (call.displs j) (call.recvcounts j) call.recvtypeSize).bind
          fun recvbuf =>
    copyBlocks skipsOwn tmpBuf later (position + call.recvcounts j) recvbuf

/-- A temporary buffer of the size of all data. -/
def tmpBuf : List Cell :=
  tabulate (call.totalCount * call.recvtypeSize) call.garbage

/-- Recursive doubling. -/
def recursiveDoubling : Prog Nat (List Cell) (List Cell) := do
  let buf ← Prog.ofOption
    (call.copyOwn call.tmpBuf (call.position call.rank))
  let node ← call.process.doublingLoop call.position
    (fun root => call.totalCount - call.position root) call.commSize 1 0
    { buf, currCnt := call.recvcounts call.rank, lastRecvCnt := 0 }
  Prog.ofOption (call.copyBlocks call.inPlace node.buf (List.range call.commSize) 0 call.recvbuf)

/-- The ranks in the order in which Bruck's algorithm has their data. -/
def rotated : List Nat :=
  (List.range (call.commSize - call.rank)).map
    (fun i => (call.rank + i) % call.commSize) ++ List.range call.rank

/-- The number of elements of the first ranks in that order. -/
def firstCnt (rem : Nat) : Nat :=
  prefixSum (fun i => call.recvcounts ((call.rank + i) % call.commSize)) rem

/-- Bruck's algorithm. -/
def bruck : Prog Nat (List Cell) (List Cell) := do
  let buf ← Prog.ofOption (call.copyOwn call.tmpBuf 0)
  let (pof2, node) ← call.process.bruckLoop
    (fun currCnt => call.totalCount - currCnt)
    (fun currCnt recvCnt => currCnt + recvCnt) call.commSize 1
    { buf, currCnt := call.recvcounts call.rank, lastRecvCnt := 0 }
  let buf ← call.process.bruckRest call.firstCnt
    (fun _ currCnt => call.totalCount - currCnt) pof2 node
  Prog.ofOption (call.copyBlocks false buf call.rotated 0 call.recvbuf)

/-- The ring. -/
def ring : Prog Nat (List Cell) (List Cell) := do
  let recvbuf ← Prog.ofOption
    (if call.inPlace then some call.recvbuf
    else call.copyOwn call.recvbuf (call.displs call.rank))
  call.process.ringLoop call.displs call.recvcounts (call.commSize - 1)
    call.rank ((call.commSize + call.rank - 1) % call.commSize) recvbuf

/-- `MPIR_Allgatherv`, with the receive buffer at its end. -/
def allgatherv : Prog Nat (List Cell) (List Cell) :=
  if call.totalCount = 0 then pure call.recvbuf
  else if call.totalBytes < allgatherLongMsg ∧ CommSizeIsPof2 call.commSize then
    call.recursiveDoubling
  else if call.totalBytes < allgatherShortMsg then call.bruck
  else call.ring

end CallV

/-- One process's call of `MPIR_Allgather`. -/
structure Call (Cell : Type) where
  commSize : Nat
  rank : Nat
  /-- The send buffer is `MPI_IN_PLACE`. -/
  inPlace : Bool
  /-- The data of the send buffer. -/
  sendbuf : List Cell
  sendcount : Nat
  sendtypeSize : Nat
  /-- The data of the receive buffer. -/
  recvbuf : List Cell
  recvcount : Nat
  recvtypeSize : Nat
  /-- What allocated memory holds before it is written. -/
  garbage : Nat → Cell

namespace Call

variable {Cell : Type} (call : Call Cell)

def process : Process where
  commSize := call.commSize
  rank := call.rank
  typeSize := call.recvtypeSize

/-- The call returns at once. -/
def ReturnsEarly : Prop :=
  (call.sendcount = 0 ∧ call.inPlace = false) ∨ call.recvcount = 0

instance : Decidable call.ReturnsEarly :=
  inferInstanceAs (Decidable (_ ∨ _))

/-- `recvcount * comm_size * type_size`, an `int`. -/
def totalBytes : Int :=
  Int.bmod (call.recvcount * call.commSize * call.recvtypeSize) (2 ^ 32)

/-- Copy the data of the send buffer to an element of a buffer. -/
def copySendbuf (dst : List Cell) (element : Nat) : Option (List Cell) :=
  copyAny call.sendbuf 0 call.sendcount call.sendtypeSize
    dst element call.recvcount call.recvtypeSize

/-- The receive buffer with the process's own data in it. -/
def withOwn : Option (List Cell) :=
  if call.inPlace then some call.recvbuf
  else call.copySendbuf call.recvbuf (call.rank * call.recvcount)

/-- Recursive doubling. -/
def recursiveDoubling : Prog Nat (List Cell) (List Cell) := do
  let buf ← Prog.ofOption call.withOwn
  let node ← call.process.doublingLoop (fun root => root * call.recvcount)
    (fun root => (call.commSize - root) * call.recvcount) call.commSize 1 0
    { buf, currCnt := call.recvcount, lastRecvCnt := 0 }
  pure node.buf

/-- Copy the blocks of a temporary buffer to their places. -/
def rotateOut (tmpBuf : List Cell) : Option (List Cell) :=
  (copyAny tmpBuf 0 ((call.commSize - call.rank) * call.recvcount)
    call.recvtypeSize call.recvbuf (call.rank * call.recvcount)
    ((call.commSize - call.rank) * call.recvcount) call.recvtypeSize).bind
      fun recvbuf =>
  if call.rank ≠ 0 then
    copyAny tmpBuf ((call.commSize - call.rank) * call.recvcount)
      (call.rank * call.recvcount) call.recvtypeSize
      recvbuf 0 (call.rank * call.recvcount) call.recvtypeSize
  else some recvbuf

/-- Bruck's algorithm. -/
def bruck : Prog Nat (List Cell) (List Cell) := do
  let tmpBuf := tabulate
    (call.recvcount * call.commSize * call.recvtypeSize) call.garbage
  let buf ← Prog.ofOption
    (if call.inPlace then
      copyAny call.recvbuf (call.rank * call.recvcount) call.recvcount
        call.recvtypeSize tmpBuf 0 call.recvcount call.recvtypeSize
    else call.copySendbuf tmpBuf 0)
  let (pof2, node) ← call.process.bruckLoop (fun currCnt => currCnt)
    (fun currCnt _ => currCnt * 2) call.commSize 1
    { buf, currCnt := call.recvcount, lastRecvCnt := 0 }
  let buf ← call.process.bruckRest (fun rem => rem * call.recvcount)
    (fun rem _ => rem * call.recvcount) pof2 node
  Prog.ofOption (call.rotateOut buf)

/-- The ring. -/
def ring : Prog Nat (List Cell) (List Cell) := do
  let recvbuf ← Prog.ofOption call.withOwn
  call.process.ringLoop (fun j => j * call.recvcount)
    (fun _ => call.recvcount) (call.commSize - 1)
    call.rank ((call.commSize + call.rank - 1) % call.commSize) recvbuf

/-- `MPIR_Allgather`, with the receive buffer at its end. -/
def allgather : Prog Nat (List Cell) (List Cell) :=
  if call.ReturnsEarly then pure call.recvbuf
  else if call.totalBytes < allgatherLongMsg ∧ CommSizeIsPof2 call.commSize then
    call.recursiveDoubling
  else if call.totalBytes < allgatherShortMsg then call.bruck
  else call.ring

end Call

end Mpich.Coll.Allgather
