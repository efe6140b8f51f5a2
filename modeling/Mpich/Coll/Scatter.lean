import Mpich.Coll.Bcast.Tree
import Mpich.Foundation.Layout

/-!
# Scatter

`MPIR_Scatter` for a homogeneous intracommunicator: the blocks go down a binomial
tree, from a root that has turned its send buffer so that the blocks come in the
order of the relative ranks. A typed buffer is represented by its packed data.
-/

namespace Mpich.Coll.Scatter

open MessagePassing List Option Buffer Cyclic

/-- The value of an expression of type `int`. -/
@[irreducible] def cInt (value : Int) : Int :=
  value.bmod (2 ^ 32)

theorem cInt_natCast
    {number : Nat}
    (fits : number < 2 ^ 31) :
    cInt number = number := by
  unfold cInt
  exact Int.bmod_eq_of_le (by omega) (by omega)

/-- One process's call of `MPIR_Scatter`. -/
structure Call (Cell : Type) where
  commSize : Nat
  rank : Nat
  root : Nat
  /-- The data of the send buffer. -/
  sendbuf : List Cell
  sendcnt : Nat
  sendtypeSize : Nat
  /-- The data of the receive buffer. -/
  recvbuf : List Cell
  recvcnt : Nat
  recvtypeSize : Nat
  /-- The receive buffer is `MPI_IN_PLACE`. -/
  inPlace : Bool
  /-- What allocated memory holds before it is written. -/
  garbage : Nat → Cell

/-- The variables of a process. -/
structure Node (Cell : Type) where
  tmpBuf : List Cell
  recvbuf : List Cell
  currCnt : Int

namespace Call

variable {Cell : Type} (call : Call Cell)

/-- The call returns at once. -/
def ReturnsEarly : Prop :=
  (call.rank = call.root ∧ call.sendcnt = 0) ∨ (call.rank ≠ call.root ∧ call.recvcnt = 0)

instance : Decidable call.ReturnsEarly :=
  inferInstanceAs (Decidable (_ ∨ _))

/-- The process in the loops over the binomial tree, which are those of
`MPIR_Bcast`. -/
def inTree : Bcast.Call Cell where
  commSize := call.commSize
  rank := call.rank
  root := call.root
  buffer := []
  count := 0
  typeSize := 0
  isContig := true
  garbage := call.garbage

def relativeRank : Nat :=
  call.inTree.relativeRank

def nbytes : Int :=
  if call.rank = call.root then cInt ↑(call.sendtypeSize * call.sendcnt)
  else cInt ↑(call.recvtypeSize * call.recvcnt)

def tmpBufSize : Int :=
  if call.rank = call.root then
    if call.root ≠ 0 then cInt (call.nbytes * call.commSize) else 0
  else if call.relativeRank % 2 = 0 then
    (cInt (call.nbytes * call.commSize)).tdiv 2
  else 0

/-- `MPIU_Malloc`, which has nothing of a negative size. -/
def malloc (size : Int) : Option (List Cell) :=
  if 0 ≤ size then some (tabulate size.toNat call.garbage) else none

/-- `MPIR_Localcopy` of elements of the send buffer into bytes of `tmp_buf`. -/
def pack
    (element : Nat)
    (count : Int)
    (tmpBuf : List Cell)
    (offset room : Int) : Option (List Cell) :=
  if 0 ≤ count ∧ 0 ≤ offset ∧ count * call.sendtypeSize ≤ room then
    localcopy call.sendbuf (element * call.sendtypeSize) tmpBuf offset.toNat
      (count.toNat * call.sendtypeSize)
  else none

/-- The root turns its send buffer; its own block is not needed in place. -/
def turn (tmpBuf : List Cell) : Option (List Cell) :=
  (if call.inPlace then
    call.pack (call.sendcnt * (call.rank + 1))
      (cInt ↑(call.sendcnt * (call.commSize - call.rank - 1))) tmpBuf call.nbytes
      (cInt (call.nbytes * ↑(call.commSize - call.rank - 1)))
  else
    call.pack (call.sendcnt * call.rank)
      (cInt ↑(call.sendcnt * (call.commSize - call.rank))) tmpBuf 0
      (cInt (call.nbytes * ↑(call.commSize - call.rank)))).bind fun tmpBuf =>
  call.pack 0 (cInt ↑(call.sendcnt * call.rank)) tmpBuf
    (cInt (call.nbytes * ↑(call.commSize - call.rank)))
    (cInt (call.nbytes * call.rank))

/-- The variables before the loops: the root has all the data. -/
def start : Option (Node Cell) :=
  (call.malloc call.tmpBufSize).bind fun tmpBuf =>
  if call.rank = call.root then
    if call.root ≠ 0 then
      (call.turn tmpBuf).map fun tmpBuf =>
        { tmpBuf, recvbuf := call.recvbuf
          currCnt := cInt (call.nbytes * call.commSize) }
    else
      some { tmpBuf, recvbuf := call.recvbuf
             currCnt := cInt ↑(call.sendcnt * call.commSize) }
  else some { tmpBuf, recvbuf := call.recvbuf, currCnt := 0 }

/-- Receive the blocks of the subtree; a leaf receives its own into the receive
buffer. -/
def receive (mask : Nat) (node : Node Cell) :
    Prog Nat (List Cell) (Node Cell) :=
  if call.relativeRank % 2 ≠ 0 then do
    let msg ← mpicRecv (call.inTree.treeSrc mask) (call.recvcnt * call.recvtypeSize)
    let recvbuf ← Prog.ofOption (store node.recvbuf 0 msg)
    pure { node with recvbuf }
  else do
    let msg ← mpicRecv (call.inTree.treeSrc mask) call.tmpBufSize.toNat
    let tmpBuf ← Prog.ofOption (store node.tmpBuf 0 msg)
    pure { node with tmpBuf, currCnt := cInt msg.length }

/-- `send_subtree_cnt`, in elements at a root that is rank 0, and in bytes
elsewhere. -/
def sendSubtreeCnt (mask : Nat) (node : Node Cell) : Int :=
  if call.rank = call.root ∧ call.root = 0 then
    cInt (node.currCnt - cInt ↑(call.sendcnt * mask))
  else cInt (node.currCnt - cInt (call.nbytes * mask))

/-- The message to the child at this distance. -/
def outgoing (mask : Nat) (node : Node Cell) : Option (List Cell) :=
  if 0 ≤ call.sendSubtreeCnt mask node then
    if call.rank = call.root ∧ call.root = 0 then
      load call.sendbuf (call.sendcnt * mask * call.sendtypeSize)
        ((call.sendSubtreeCnt mask node).toNat * call.sendtypeSize)
    else if 0 ≤ cInt (call.nbytes * mask) then
      load node.tmpBuf (cInt (call.nbytes * mask)).toNat (call.sendSubtreeCnt mask node).toNat
    else none
  else none

/-- Send the blocks of a child's subtree. -/
def send (mask : Nat) (node : Node Cell) :
    Prog Nat (List Cell) (Node Cell) := do
  let msg ← Prog.ofOption (call.outgoing mask node)
  mpicSend (call.inTree.treeDst mask) msg
  pure { node with
    currCnt := cInt (node.currCnt - call.sendSubtreeCnt mask node) }

/-- The receive buffer in the end. -/
def finish (node : Node Cell) : Option (List Cell) :=
  if (call.rank = call.root ∧ call.root = 0) ∧ call.inPlace = false then
    copyElements call.sendbuf 0 call.sendcnt call.sendtypeSize node.recvbuf 0
      call.recvcnt call.recvtypeSize
  else if call.relativeRank % 2 = 0 ∧ call.inPlace = false then
    copyElements node.tmpBuf 0 call.nbytes.toNat 1 node.recvbuf 0 call.recvcnt call.recvtypeSize
  else some node.recvbuf

/-- `MPIR_Scatter`, with the data of the receive buffer at its end. -/
def scatter : Prog Nat (List Cell) (List Cell) :=
  if call.ReturnsEarly then pure call.recvbuf
  else do
    let node ← Prog.ofOption call.start
    let node ← call.inTree.tree call.receive call.send node
    Prog.ofOption (call.finish node)

end Call

/-! ## The calls of all processes -/

/-- The arguments of all processes, apart from what their buffers hold. Counts
and types may differ, as long as all of them describe as much data. -/
structure Shape where
  commSize : Nat
  root : Nat
  root_lt : root < commSize
  /-- The size of a block. -/
  nbytes : Nat
  sendcnt : Nat
  sendtypeSize : Nat
  recvcnt : Nat → Nat
  recvtypeSize : Nat → Nat
  /-- The root passes `MPI_IN_PLACE` as its receive buffer. -/
  inPlace : Bool
  sent_eq : sendtypeSize * sendcnt = nbytes
  received_eq : ∀ rank, (rank = root → inPlace = false) → recvtypeSize rank * recvcnt rank = nbytes

/-- What the memory of all processes holds: the data of the root's send buffer,
the data of the receive buffers, and what comes from nowhere. -/
structure Contents (Cell : Type) where
  input : Nat → Cell
  output : Nat → Nat → Cell
  garbage : Nat → Nat → Cell

namespace Shape

variable {Cell : Type} (shape : Shape) (contents : Contents Cell)

/-- The call of one rank. -/
def call (rank : Nat) : Call Cell where
  commSize := shape.commSize
  rank := rank
  root := shape.root
  sendbuf :=
    if rank = shape.root then
      tabulate (shape.commSize * shape.nbytes) contents.input
    else []
  sendcnt := shape.sendcnt
  sendtypeSize := shape.sendtypeSize
  recvbuf := tabulate shape.nbytes (contents.output rank)
  recvcnt := shape.recvcnt rank
  recvtypeSize := shape.recvtypeSize rank
  inPlace := shape.inPlace && decide (rank = shape.root)
  garbage := contents.garbage rank

/-- The programs of all ranks; there is nothing to run outside the
communicator. -/
def program (rank : Nat) : Prog Nat (List Cell) (List Cell) :=
  if rank < shape.commSize then (shape.call contents rank).scatter
  else .done []

/-- The block at a position of the root's send buffer. -/
def block (position : Nat) : List Cell :=
  slice contents.input (position * shape.nbytes) shape.nbytes

/-- The position of a rank relative to the root. -/
def relative (rank : Nat) : Nat :=
  behind shape.commSize rank shape.root

/-- The blocks that the subtree of a rank needs: its own and those of the ranks
that follow, as many as there are. -/
def needed (dst : Nat) (msg : List Cell) : Prop :=
  ∃ level, shape.relative dst % 2 ^ (level + 1) = 2 ^ level ∧
    msg = (List.range (min (2 ^ level) (shape.commSize - shape.relative dst))).flatMap
      fun next => shape.block contents (ahead shape.commSize dst next)

/-- All processes return at once for a zero count, or none does. -/
def Agrees : Prop :=
  ∀ rank < shape.commSize, rank ≠ shape.root → (shape.recvcnt rank = 0 ↔ shape.sendcnt = 0)

/-- The numbers of all bytes and of all elements of the send buffer fit into an
`int`. -/
def Fits : Prop :=
  shape.nbytes * shape.commSize < 2 ^ 31 ∧ shape.sendcnt * shape.commSize < 2 ^ 31

/-- Every run of the processes ends without an error: every message is received
once and fits into the room for it, and no access leaves its buffer. Each rank
then has its block of the root's send buffer, which is where it was at a root
in place; and each message has the blocks that the subtree of its destination
needs. -/
def Scatters : Prop :=
  ∃ out, Completes (shape.program contents) out ∧
    (∀ rank < shape.commSize, ¬ (rank = shape.root ∧ shape.inPlace = true) →
      out rank = shape.block contents rank) ∧
    ∀ rank < shape.commSize, ∃ ops, (shape.program contents rank).Ends ops (out rank) ∧
      ∀ dst msg, Op.send dst msg ∈ ops → shape.needed contents dst msg

variable {shape contents} {rank : Nat}
variable (fits : shape.Fits) (inComm : rank < shape.commSize)

/-! ## What the variables are -/

variable (shape) in
/-- `tmp_buf_size`. -/
def tmpSize (rank : Nat) : Nat :=
  if rank = shape.root then
    if shape.root ≠ 0 then shape.nbytes * shape.commSize else 0
  else if shape.relative rank % 2 = 0 then shape.nbytes * shape.commSize / 2
  else 0

section

include fits

theorem lt_of_fits
    {ranks : Nat}
    (within : ranks ≤ shape.commSize) :
    shape.nbytes * ranks < 2 ^ 31 ∧ shape.sendcnt * ranks < 2 ^ 31 :=
  ⟨(Nat.mul_le_mul_left _ within).trans_lt fits.1, (Nat.mul_le_mul_left _ within).trans_lt fits.2⟩

theorem nbytes_lt : shape.nbytes < 2 ^ 31 := by
  have one := (lt_of_fits fits (Nat.zero_lt_of_lt shape.root_lt)).1
  omega

theorem nbytes_call (rank : Nat) :
    (shape.call contents rank).nbytes = shape.nbytes := by
  change (if rank = shape.root then cInt ↑(shape.sendtypeSize * shape.sendcnt)
    else cInt ↑(shape.recvtypeSize rank * shape.recvcnt rank)) = _
  by_cases isRoot : rank = shape.root
  · rw [if_pos isRoot, shape.sent_eq, cInt_natCast (nbytes_lt fits)]
  · rw [if_neg isRoot, shape.received_eq rank fun same => absurd same isRoot,
      cInt_natCast (nbytes_lt fits)]

theorem cInt_nbytes_mul
    {ranks : Nat}
    (within : ranks ≤ shape.commSize)
    (rank : Nat) :
    cInt ((shape.call contents rank).nbytes * ranks) = ((shape.nbytes * ranks : Nat) : Int) := by
  rw [nbytes_call fits, ← Nat.cast_mul, cInt_natCast (lt_of_fits fits within).1]

theorem cInt_sendcnt_mul
    {ranks : Nat}
    (within : ranks ≤ shape.commSize) :
    cInt ((shape.sendcnt * ranks : Nat) : Int) = ((shape.sendcnt * ranks : Nat) : Int) :=
  cInt_natCast (lt_of_fits fits within).2

end

include inComm in
theorem relativeRank_call :
    (shape.call contents rank).relativeRank = shape.relative rank :=
  (behind_eq_ite inComm shape.root_lt.le).symm

include fits inComm in
theorem tmpBufSize_call :
    (shape.call contents rank).tmpBufSize = shape.tmpSize rank := by
  have all := @cInt_nbytes_mul Cell shape contents fits shape.commSize le_rfl rank
  unfold Call.tmpBufSize tmpSize
  rw [relativeRank_call inComm]
  change (if rank = shape.root then
      if shape.root ≠ 0 then
        cInt ((shape.call contents rank).nbytes * shape.commSize)
      else 0
    else if shape.relative rank % 2 = 0 then
      (cInt ((shape.call contents rank).nbytes * shape.commSize)).tdiv 2
    else 0) = _
  rw [all]
  split
  · split <;> rfl
  · split
    · exact Int.ofNat_tdiv _ 2
    · rfl

theorem malloc_call (size : Nat) :
    (shape.call contents rank).malloc size = some (tabulate size (contents.garbage rank)) :=
  if_pos (Int.natCast_nonneg size)

theorem relative_root : shape.relative shape.root = 0 := by
  unfold relative
  rw [behind_eq_ite shape.root_lt shape.root_lt.le, if_pos le_rfl, Nat.sub_self]

include inComm in
theorem relative_eq_zero_iff :
    shape.relative rank = 0 ↔ rank = shape.root := by
  constructor
  · intro zero
    exact behind_injective inComm shape.root_lt shape.root_lt (zero.trans relative_root.symm)
  · rintro rfl
    exact relative_root

/-! ## The blocks in the order of the relative ranks -/

variable (shape contents) in
/-- The data of the root's send buffer from the block of a rank on, around its
end. -/
def fromBlock (rank index : Nat) : Cell :=
  contents.input ((rank * shape.nbytes + index) % (shape.commSize * shape.nbytes))

/-- The data from a later block on. -/
theorem fromBlock_ahead (rank steps index : Nat) :
    shape.fromBlock contents (ahead shape.commSize rank steps) index =
      shape.fromBlock contents rank (shape.nbytes * steps + index) := by
  unfold fromBlock ahead
  rw [← Nat.mul_mod_mul_right, Nat.mod_add_mod]
  congr 2
  rw [add_mul, mul_comm steps, add_assoc]

theorem fromBlock_of_lt
    {index : Nat}
    (within : rank * shape.nbytes + index < shape.commSize * shape.nbytes) :
    shape.fromBlock contents rank index = contents.input (rank * shape.nbytes + index) := by
  unfold fromBlock
  rw [Nat.mod_eq_of_lt within]

section

include inComm

theorem block_end_le :
    rank * shape.nbytes + shape.nbytes ≤ shape.commSize * shape.nbytes := by
  rw [← Nat.succ_mul]
  exact Nat.mul_le_mul_right _ inComm

/-- The first block from a rank on is its own. -/
theorem slice_fromBlock :
    slice (shape.fromBlock contents rank) 0 shape.nbytes = shape.block contents rank := by
  have inside := block_end_le inComm
  apply slice_congr
  intro index within
  rw [zero_add, fromBlock_of_lt (by omega)]

/-- Data from a rank on is the blocks of the ranks that follow. -/
theorem slice_fromBlock_eq_flatMap (count : Nat) :
    slice (shape.fromBlock contents rank) 0 (shape.nbytes * count) =
      (List.range count).flatMap fun next =>
        shape.block contents (ahead shape.commSize rank next) := by
  induction count with
  | zero => rfl
  | succ count ih =>
    have last : shape.block contents (ahead shape.commSize rank count) =
        tabulate shape.nbytes fun index =>
          shape.fromBlock contents rank (shape.nbytes * count + index) := by
      rw [← slice_fromBlock (ahead_lt inComm)]
      apply tabulate_congr
      intro index _
      rw [zero_add, fromBlock_ahead]
    rw [range_succ, flatMap_append, ← ih, flatMap_singleton, last]
    unfold slice
    rw [tabulate_append, ← Nat.mul_succ]
    apply tabulate_congr
    intro index _
    split
    · rfl
    · rename_i beyond
      rw [zero_add, Nat.add_sub_cancel' (Nat.le_of_not_lt beyond)]

end

/-! ## The rounds of the tree -/

variable (shape) in
/-- The tree that the blocks go down. -/
def tree : Bcast.Shape where
  commSize := shape.commSize
  root := shape.root
  root_lt := shape.root_lt
  nbytes := 0
  count := fun _ => 0
  typeSize := fun _ => 0
  isContig := fun _ => true
  bytes_eq := fun _ => rfl
  early_iff := fun _ _ => Iff.rfl

variable (shape) in
/-- How many ranks a subtree has that begins at a relative rank. -/
def subtree (level position : Nat) : Nat :=
  min (2 ^ level) (shape.commSize - position)

variable (shape contents) in
/-- The message to a relative rank. -/
def subtreeData (level position : Nat) : List Cell :=
  slice
    (shape.fromBlock contents (ahead shape.commSize shape.root position)) 0
    (shape.nbytes * shape.subtree level position)

include inComm in
/-- What a rank holds, as a message to it. -/
theorem subtreeData_relative
    (level : Nat) :
    shape.subtreeData contents level (shape.relative rank) = slice (shape.fromBlock contents rank) 0
        (shape.nbytes * shape.subtree level (shape.relative rank)) := by
  have absolute : ahead shape.commSize shape.root (shape.relative rank) = rank := by
    have back := ahead_behind inComm shape.root_lt.le
    unfold ahead at back ⊢
    rwa [add_comm]
  unfold subtreeData
  rw [absolute]

include inComm in
/-- The message to a child is a part of what a rank holds. -/
theorem subtreeData_child
    {level : Nat} :
    shape.subtreeData contents level (shape.relative rank + 2 ^ level) =
      slice (shape.fromBlock contents rank) (shape.nbytes * 2 ^ level)
        (shape.nbytes * shape.subtree level (shape.relative rank + 2 ^ level)) := by
  have absolute : ahead shape.commSize shape.root
      (shape.relative rank + 2 ^ level) = ahead shape.commSize rank (2 ^ level) := by
    have back := ahead_behind inComm shape.root_lt.le
    unfold ahead at back ⊢
    nth_rewrite 2 [← back]
    rw [Nat.mod_add_mod, ← add_assoc]
    congr 2
    exact add_comm _ _
  unfold subtreeData
  rw [absolute]
  apply slice_congr
  intro index _
  rw [zero_add, fromBlock_ahead]

variable (shape) in
/-- The root sends elements of its send buffer. -/
abbrev SendsElements (rank : Nat) : Prop :=
  rank = shape.root ∧ shape.root = 0

variable (shape contents) in
/-- The variables of a process after the rounds from a level on. -/
structure After (rank level : Nat) (node : Node Cell) : Prop where
  recvbuf : node.recvbuf = if shape.relative rank % 2 = 0 then
      tabulate shape.nbytes (contents.output rank)
    else shape.block contents rank
  tmpBuf : shape.relative rank % 2 = 0 → ¬ shape.SendsElements rank →
    Knows (shape.tmpSize rank) (shape.fromBlock contents rank)
      (fun index => index < shape.nbytes * shape.subtree level (shape.relative rank) ∧
        (rank = shape.root → shape.inPlace = true → shape.nbytes ≤ index))
      node.tmpBuf
  currCnt : shape.relative rank % 2 = 0 → node.currCnt =
      (((if shape.SendsElements rank then shape.sendcnt else shape.nbytes) *
        shape.subtree level (shape.relative rank) : Nat) : Int)

theorem subtree_le (level position : Nat) :
    shape.subtree level position ≤ shape.commSize :=
  (min_le_right _ _).trans (Nat.sub_le _ _)

include inComm in
/-- The subtree of an even rank other than the root is at most half of all. -/
theorem subtree_fits
    {level : Nat}
    (even : shape.relative rank % 2 = 0)
    (notElements : ¬ shape.SendsElements rank)
    (multiple : shape.relative rank % 2 ^ level = 0) :
    shape.nbytes * shape.subtree level (shape.relative rank) ≤ shape.tmpSize rank := by
  unfold tmpSize
  by_cases isRoot : rank = shape.root
  · rw [if_pos isRoot, if_pos fun zero => notElements ⟨isRoot, zero⟩]
    exact Nat.mul_le_mul_left _ (subtree_le _ _)
  · have positive : 0 < shape.relative rank :=
      pos_of_ne_zero fun zero => isRoot ((relative_eq_zero_iff inComm).mp zero)
    have least : 2 ^ level ≤ shape.relative rank :=
      Nat.le_of_dvd positive (Nat.dvd_of_mod_eq_zero multiple)
    have half : shape.subtree level (shape.relative rank) * 2 ≤ shape.commSize := by
      unfold subtree
      omega
    rw [if_neg isRoot, if_pos even, Nat.le_div_iff_mul_le two_pos, mul_assoc]
    exact Nat.mul_le_mul_left _ half

theorem even_of_multiple
    {level : Nat}
    (multiple : shape.relative rank % 2 ^ (level + 1) = 0) :
    shape.relative rank % 2 = 0 := by
  apply Nat.mod_eq_zero_of_dvd
  exact (Dvd.intro_left (2 ^ level) rfl).trans (Nat.dvd_of_mod_eq_zero multiple)

/-- What is sent to a child, and what is left. -/
theorem subtree_succ
    {level position : Nat}
    (more : position + 2 ^ level < shape.commSize) :
    shape.subtree (level + 1) position = 2 ^ level + shape.subtree level (position + 2 ^ level) ∧
    shape.subtree level position = 2 ^ level := by
  unfold subtree
  omega

theorem subtree_of_beyond
    {level position : Nat}
    (beyond : shape.commSize ≤ position + 2 ^ level) :
    shape.subtree (level + 1) position = shape.subtree level position := by
  have positive := Nat.two_pow_pos level
  unfold subtree
  omega

variable {node : Node Cell}

include fits in
/-- The number of elements or bytes that is sent to a child. -/
theorem sendSubtreeCnt_call
    {level : Nat}
    (even : shape.relative rank % 2 = 0)
    (more : shape.relative rank + 2 ^ level < shape.commSize)
    (here : shape.After contents rank (level + 1) node) :
    (shape.call contents rank).sendSubtreeCnt (2 ^ level) node =
      (((if shape.SendsElements rank then shape.sendcnt else shape.nbytes) *
        shape.subtree level (shape.relative rank + 2 ^ level) : Nat) : Int) := by
  have within : 2 ^ level ≤ shape.commSize := by omega
  have curr := here.currCnt even
  have all := @subtree_le shape level (shape.relative rank + 2 ^ level)
  rw [(subtree_succ more).1] at curr
  change (if shape.SendsElements rank then
      cInt (node.currCnt - cInt ↑(shape.sendcnt * 2 ^ level))
    else cInt (node.currCnt - cInt ((shape.call contents rank).nbytes * (2 ^ level : Nat))))
      = _
  by_cases elements : shape.SendsElements rank
  · rw [if_pos elements] at curr
    rw [if_pos elements, if_pos elements, curr, cInt_sendcnt_mul fits within, mul_add,
      Nat.cast_add, add_sub_cancel_left, cInt_sendcnt_mul fits all]
  · rw [if_neg elements] at curr
    rw [if_neg elements, if_neg elements, curr, cInt_nbytes_mul fits within, mul_add,
      Nat.cast_add, add_sub_cancel_left, cInt_natCast (lt_of_fits fits all).1]

include fits inComm in
/-- The message to a child has the blocks of the child's subtree. -/
theorem outgoing_call
    {level : Nat}
    (multiple : shape.relative rank % 2 ^ (level + 1) = 0)
    (more : shape.relative rank + 2 ^ level < shape.commSize)
    (here : shape.After contents rank (level + 1) node) :
    (shape.call contents rank).outgoing (2 ^ level) node =
      some (shape.subtreeData contents level (shape.relative rank + 2 ^ level)) := by
  have even := even_of_multiple multiple
  have within : 2 ^ level ≤ shape.commSize := by omega
  have count := sendSubtreeCnt_call fits even more here
  have split := (subtree_succ more).1
  unfold Call.outgoing
  rw [count, if_pos (Int.natCast_nonneg _), Int.toNat_natCast, subtreeData_child inComm]
  change (if shape.SendsElements rank then _ else _) = _
  by_cases elements : shape.SendsElements rank
  · have data : (shape.call contents rank).sendbuf =
        tabulate (shape.commSize * shape.nbytes) contents.input :=
      if_pos elements.1
    have zero : rank = 0 := elements.1.trans elements.2
    have size : (shape.call contents rank).sendtypeSize = shape.sendtypeSize := rfl
    have number : (shape.call contents rank).sendcnt = shape.sendcnt := rfl
    have first : shape.sendcnt * 2 ^ level * shape.sendtypeSize = shape.nbytes * 2 ^ level := by
      rw [← shape.sent_eq, mul_right_comm, mul_comm shape.sendcnt]
    have amount : shape.sendcnt *
        shape.subtree level (shape.relative rank + 2 ^ level) * shape.sendtypeSize =
          shape.nbytes * shape.subtree level (shape.relative rank + 2 ^ level) := by
      rw [← shape.sent_eq, mul_right_comm, mul_comm shape.sendcnt]
    have inside : shape.nbytes * 2 ^ level +
        shape.nbytes * shape.subtree level (shape.relative rank + 2 ^ level) ≤
          shape.commSize * shape.nbytes := by
      rw [← mul_add, ← split, mul_comm shape.commSize]
      exact Nat.mul_le_mul_left _ (subtree_le _ _)
    rw [if_pos elements, if_pos elements, data, size, number, first, amount, load_tabulate inside]
    apply congrArg some
    apply slice_congr
    intro index below
    rw [fromBlock_of_lt (by rw [zero]; omega), zero, zero_mul, zero_add]
  · have offset := @cInt_nbytes_mul Cell shape contents fits (2 ^ level) within rank
    have positive := Nat.two_pow_pos level
    have room := subtree_fits inComm even elements multiple
    rw [split, mul_add] at room
    rw [if_neg elements, if_neg elements, offset, if_pos (Int.natCast_nonneg _), Int.toNat_natCast]
    apply (here.tmpBuf even elements).load room
    rintro index ⟨lower, upper⟩
    refine ⟨?_, fun _ _ => ?_⟩
    · rw [split, mul_add]
      exact upper
    · exact (Nat.le_mul_of_pos_right _ positive).trans lower

/-! ## One step of the tree -/

include fits inComm in
theorem After.send
    {level : Nat}
    (multiple : shape.relative rank % 2 ^ (level + 1) = 0)
    (more : shape.relative rank + 2 ^ level < shape.commSize)
    (here : shape.After contents rank (level + 1) node) :
    ((shape.call contents rank).send (2 ^ level) node).Yields
      [.send (ahead shape.commSize rank (2 ^ level))
        (shape.subtreeData contents level (shape.relative rank + 2 ^ level))]
      (shape.After contents rank level) := by
  have even := even_of_multiple multiple
  have count := sendSubtreeCnt_call fits even more here
  have within : 2 ^ level ≤ shape.commSize := by omega
  have curr := here.currCnt even
  obtain ⟨split, rest⟩ := subtree_succ more
  have dst : (shape.call contents rank).inTree.treeDst (2 ^ level) =
      ahead shape.commSize rank (2 ^ level) :=
    @Bcast.Shape.treeDst_call Cell shape.tree rank
      ⟨fun _ => contents.input, contents.garbage⟩ _ inComm within
  unfold Call.send
  rw [outgoing_call fits inComm multiple more here, dst, count]
  refine ⟨_, ⟨rfl, rfl, rfl⟩, ?_, ?_, ?_⟩
  · exact here.recvbuf
  · intro even notElements
    apply (here.tmpBuf even notElements).mono
    rintro index - ⟨below, notOwn⟩
    refine ⟨below.trans_le ?_, notOwn⟩
    rw [split, rest]
    exact Nat.mul_le_mul_left _ (Nat.le_add_right _ _)
  · intro _
    rw [curr, split, rest, mul_add, Nat.cast_add, add_sub_cancel_right]
    split
    · exact cInt_sendcnt_mul fits within
    · exact cInt_natCast (lt_of_fits fits within).1

theorem After.skip
    {level : Nat}
    (beyond : shape.commSize ≤ shape.relative rank + 2 ^ level)
    (here : shape.After contents rank (level + 1) node) :
    shape.After contents rank level node := by
  have same := subtree_of_beyond beyond
  obtain ⟨recvbuf, tmpBuf, currCnt⟩ := here
  rw [same] at tmpBuf currCnt
  exact ⟨recvbuf, tmpBuf, currCnt⟩

include fits inComm in
/-- A process receives the blocks of its subtree. -/
theorem yields_receive
    {level : Nat}
    (within : 2 ^ level < shape.commSize)
    (lowest : shape.relative rank % 2 ^ (level + 1) = 2 ^ level)
    (recvbuf : node.recvbuf = tabulate shape.nbytes (contents.output rank))
    (tmpBuf : ∃ cell, node.tmpBuf = tabulate (shape.tmpSize rank) cell) :
    ((shape.call contents rank).receive (2 ^ level) node).Yields
      [.recv (behind shape.commSize rank (2 ^ level))
        (shape.subtreeData contents level (shape.relative rank))]
      (shape.After contents rank level) := by
  have positive := Nat.two_pow_pos level
  have notRoot : rank ≠ shape.root := by
    intro isRoot
    rw [(relative_eq_zero_iff inComm).mpr isRoot, Nat.zero_mod] at lowest
    omega
  have notElements : ¬ shape.SendsElements rank := fun elements => notRoot elements.1
  have src : (shape.call contents rank).inTree.treeSrc (2 ^ level) =
      behind shape.commSize rank (2 ^ level) :=
    @Bcast.Shape.treeSrc_call Cell shape.tree rank
      ⟨fun _ => contents.input, contents.garbage⟩ _ inComm within.le
  have amount : (shape.subtreeData contents level (shape.relative rank)).length =
      shape.nbytes * shape.subtree level (shape.relative rank) :=
    length_slice _ _ _
  unfold Call.receive
  rw [relativeRank_call inComm, src, ← append_nil [_]]
  by_cases even : shape.relative rank % 2 = 0
  · have multiple : shape.relative rank % 2 ^ level = 0 := by
      rw [← Nat.mod_mod_of_dvd _ (Nat.pow_dvd_pow 2 (Nat.le_succ level)), lowest, Nat.mod_self]
    have room := subtree_fits inComm even notElements multiple
    have size := @tmpBufSize_call Cell shape contents rank fits inComm
    obtain ⟨cell, tmpBuf⟩ := tmpBuf
    have unknown : Knows (shape.tmpSize rank) (shape.fromBlock contents rank)
        (fun _ => False) node.tmpBuf := ⟨cell, tmpBuf, fun _ _ => False.elim⟩
    obtain ⟨written, stored, knows⟩ := @Knows.store _ _ _ _ _ unknown 0
      (shape.nbytes * shape.subtree level (shape.relative rank))
      (by rw [zero_add]; exact room)
    rw [← subtreeData_relative inComm] at stored
    rw [if_neg (not_not.mpr even), size, Int.toNat_natCast]
    refine (ends_mpicRecv (amount.trans_le room)).bind_yields ?_
    rw [stored, amount]
    refine Prog.yields_pure ⟨?_, ?_, ?_⟩
    · rw [if_pos even]
      exact recvbuf
    · intro _ _
      apply knows.mono
      rintro index - ⟨below, -⟩
      exact Or.inr ⟨Nat.zero_le _, by rw [zero_add]; exact below⟩
    · intro _
      rw [if_neg notElements, cInt_natCast (lt_of_fits fits (subtree_le _ _)).1]
  · have leaf : level = 0 := by
      cases level with
      | zero => rfl
      | succ level =>
        refine absurd (Nat.mod_eq_zero_of_dvd ?_) even
        have divides : 2 ∣ 2 ^ (level + 1) := Dvd.intro_left (2 ^ level) rfl
        rw [← Nat.div_add_mod (shape.relative rank) (2 ^ (level + 1 + 1)), lowest]
        exact Nat.dvd_add ((divides.trans (Nat.pow_dvd_pow 2 (Nat.le_succ _))).mul_right _) divides
    subst leaf
    have below := @behind_lt _ _ shape.root inComm
    have one : shape.subtree 0 (shape.relative rank) = 1 := by
      unfold subtree relative
      omega
    have own : shape.subtreeData contents 0 (shape.relative rank) = shape.block contents rank := by
      rw [subtreeData_relative inComm, one, mul_one, slice_fromBlock inComm]
    have room : (shape.block contents rank).length ≤
        shape.recvcnt rank * shape.recvtypeSize rank := by
      rw [block, length_slice, mul_comm (shape.recvcnt rank),
        shape.received_eq rank fun same => absurd same notRoot]
    rw [if_pos even, own]
    refine (ends_mpicRecv room).bind_yields ?_
    rw [recvbuf, block, slice, store_tabulate_all]
    refine Prog.yields_pure ⟨?_, ?_, ?_⟩
    · rw [if_neg even]
      rfl
    · intro isEven
      exact absurd isEven even
    · intro isEven
      exact absurd isEven even

/-! ## Before and after the tree -/

/-- Blocks of the send buffer are packed where they belong. -/
theorem pack_call
    (isRoot : rank = shape.root)
    {first count offset : Nat}
    (inside : first + count ≤ shape.commSize)
    (room : offset + count ≤ shape.commSize)
    (turned : ∀ index < shape.nbytes * count,
      shape.fromBlock contents rank (shape.nbytes * offset + index) =
        contents.input (shape.nbytes * first + index))
    {known : Nat → Prop} {tmpBuf : List Cell}
    (knows : Knows (shape.nbytes * shape.commSize) (shape.fromBlock contents rank)
      known tmpBuf) :
    ∃ written, (shape.call contents rank).pack (shape.sendcnt * first)
        ((shape.sendcnt * count : Nat) : Int) tmpBuf
        ((shape.nbytes * offset : Nat) : Int) ((shape.nbytes * count : Nat) : Int) = some written ∧
      Knows (shape.nbytes * shape.commSize) (shape.fromBlock contents rank)
        (fun index => known index ∨
          InRange (shape.nbytes * offset) (shape.nbytes * count) index) written := by
  have data : (shape.call contents rank).sendbuf =
      tabulate (shape.commSize * shape.nbytes) contents.input := if_pos isRoot
  have size : (shape.call contents rank).sendtypeSize = shape.sendtypeSize := rfl
  have bytes : ∀ ranks, shape.sendcnt * ranks * shape.sendtypeSize = shape.nbytes * ranks := by
    intro ranks
    rw [← shape.sent_eq, mul_right_comm, mul_comm shape.sendcnt]
  have source : shape.nbytes * first + shape.nbytes * count ≤ shape.commSize * shape.nbytes := by
    rw [← mul_add, mul_comm shape.commSize]
    exact Nat.mul_le_mul_left _ inside
  have target : shape.nbytes * offset + shape.nbytes * count ≤ shape.nbytes * shape.commSize := by
    rw [← mul_add]
    exact Nat.mul_le_mul_left _ room
  have enough : ((shape.sendcnt * count : Nat) : Int) *
      (shape.call contents rank).sendtypeSize ≤ ((shape.nbytes * count : Nat) : Int) := by
    rw [size, ← Nat.cast_mul, bytes]
  obtain ⟨written, stored, knows⟩ := knows.store target
  refine ⟨written, ?_, knows⟩
  unfold Call.pack localcopy
  rw [if_pos ⟨Int.natCast_nonneg _, Int.natCast_nonneg _, enough⟩, data, size,
    Int.toNat_natCast, Int.toNat_natCast, bytes, bytes, load_tabulate source, bind_some, ← stored]
  congr 1
  apply tabulate_congr
  intro index below
  exact (turned index below).symm

include inComm in
/-- The blocks after the end of the send buffer are those at its start. -/
theorem fromBlock_wrap
    {index : Nat}
    (below : index < shape.nbytes * rank) :
    shape.fromBlock contents rank (shape.nbytes * (shape.commSize - rank) + index) =
      contents.input (shape.nbytes * 0 + index) := by
  have around : rank * shape.nbytes + (shape.nbytes * (shape.commSize - rank) + index) =
      index + shape.commSize * shape.nbytes := by
    rw [← add_assoc, mul_comm rank, ← mul_add,
      Nat.add_sub_cancel' inComm.le, add_comm, mul_comm shape.nbytes]
  have small : index < shape.commSize * shape.nbytes := by
    rw [mul_comm shape.commSize]
    exact below.trans_le (Nat.mul_le_mul_left _ inComm.le)
  unfold fromBlock
  rw [around, Nat.add_mod_right, Nat.mod_eq_of_lt small, mul_zero, zero_add]

include fits in
/-- A root that is not rank 0 turns its send buffer. -/
theorem turn_call
    (isRoot : rank = shape.root)
    (garbage : Nat → Cell) :
    ∃ tmpBuf, (shape.call contents rank).turn
        (tabulate (shape.nbytes * shape.commSize) garbage) = some tmpBuf ∧
      Knows (shape.nbytes * shape.commSize) (shape.fromBlock contents rank)
        (fun index => shape.inPlace = true → shape.nbytes ≤ index) tmpBuf := by
  have inComm : rank < shape.commSize := isRoot ▸ shape.root_lt
  have bytes := @cInt_nbytes_mul Cell shape contents fits
  have place : (shape.call contents rank).inPlace = shape.inPlace := by
    change (shape.inPlace && decide (rank = shape.root)) = _
    rw [decide_eq_true isRoot, Bool.and_true]
  have unknown : Knows (shape.nbytes * shape.commSize)
      (shape.fromBlock contents rank) (fun _ => False)
      (tabulate (shape.nbytes * shape.commSize) garbage) :=
    ⟨garbage, rfl, fun _ _ => False.elim⟩
  have straight : ∀ first : Nat, rank ≤ first → first ≤ shape.commSize →
      ∀ index < shape.nbytes * (shape.commSize - first),
        shape.fromBlock contents rank (shape.nbytes * (first - rank) + index) =
          contents.input (shape.nbytes * first + index) := by
    intro first after within index below
    have position : rank * shape.nbytes + (shape.nbytes * (first - rank) + index) =
        shape.nbytes * first + index := by
      rw [← add_assoc, mul_comm rank, ← mul_add, Nat.add_sub_cancel' after]
    have inside : shape.nbytes * first + index < shape.commSize * shape.nbytes := by
      have split : shape.nbytes * first + shape.nbytes * (shape.commSize - first) =
          shape.nbytes * shape.commSize := by
        rw [← mul_add, Nat.add_sub_cancel' within]
      rw [mul_comm shape.commSize]
      omega
    rw [fromBlock_of_lt (by rw [position]; exact inside), position]
  -- What comes after the root's block, with its block or without it.
  have front : ∃ tmpBuf, (if (shape.call contents rank).inPlace = true then
        (shape.call contents rank).pack (shape.sendcnt * (rank + 1))
          (cInt ↑(shape.sendcnt * (shape.commSize - rank - 1)))
          (tabulate (shape.nbytes * shape.commSize) garbage)
          (shape.call contents rank).nbytes
          (cInt ((shape.call contents rank).nbytes * ↑(shape.commSize - rank - 1)))
      else
        (shape.call contents rank).pack (shape.sendcnt * rank)
          (cInt ↑(shape.sendcnt * (shape.commSize - rank)))
          (tabulate (shape.nbytes * shape.commSize) garbage) 0
          (cInt ((shape.call contents rank).nbytes * ↑(shape.commSize - rank)))) =
        some tmpBuf ∧
      Knows (shape.nbytes * shape.commSize) (shape.fromBlock contents rank)
        (fun index => index < shape.nbytes * (shape.commSize - rank) ∧
          (shape.inPlace = true → shape.nbytes ≤ index)) tmpBuf := by
    rw [place]
    by_cases inPlace : shape.inPlace = true
    · have values := straight (rank + 1) (Nat.le_succ rank) inComm
      rw [Nat.add_sub_cancel_left, ← Nat.sub_sub] at values
      obtain ⟨written, packed, knows⟩ := pack_call isRoot (by omega) (by omega) values unknown
      rw [mul_one] at packed
      rw [if_pos inPlace, cInt_sendcnt_mul fits (by omega), bytes (by omega), nbytes_call fits]
      refine ⟨written, packed, knows.mono ?_⟩
      rintro index - ⟨below, notOwn⟩
      refine Or.inr ⟨by rw [mul_one]; exact notOwn inPlace, ?_⟩
      rw [← mul_add, show 1 + (shape.commSize - rank - 1) = shape.commSize - rank by omega]
      exact below
    · have values := straight rank le_rfl inComm.le
      rw [Nat.sub_self] at values
      obtain ⟨written, packed, knows⟩ := pack_call isRoot (by omega) (by omega) values unknown
      rw [if_neg inPlace, cInt_sendcnt_mul fits (by omega), bytes (by omega)]
      refine ⟨written, packed, knows.mono ?_⟩
      rintro index - ⟨below, -⟩
      exact Or.inr ⟨by omega, by omega⟩
  obtain ⟨before, packed, knows⟩ := front
  obtain ⟨written, packedAgain, known⟩ := @pack_call Cell shape contents rank isRoot 0 rank
    (shape.commSize - rank) (by omega) (by omega)
    (fun index below => fromBlock_wrap inComm below) _ _ knows
  refine ⟨written, ?_, known.mono ?_⟩
  · unfold Call.turn
    refine (congrArg (Option.bind · _) packed).trans ?_
    rw [bind_some]
    change (shape.call contents rank).pack 0 (cInt ↑(shape.sendcnt * rank)) before
      (cInt ((shape.call contents rank).nbytes * ↑(shape.commSize - rank)))
      (cInt ((shape.call contents rank).nbytes * ↑rank)) = _
    rw [cInt_sendcnt_mul fits inComm.le, bytes (Nat.sub_le _ _), bytes inComm.le]
    exact packedAgain
  · intro index inside notOwn
    have split : shape.nbytes * (shape.commSize - rank) + shape.nbytes * rank =
        shape.nbytes * shape.commSize := by
      rw [← mul_add, Nat.sub_add_cancel inComm.le]
    rcases lt_or_ge index (shape.nbytes * (shape.commSize - rank)) with below | beyond
    · exact Or.inl ⟨below, notOwn⟩
    · exact Or.inr ⟨beyond, by omega⟩

include fits inComm in
/-- The variables before the tree. -/
theorem start_call :
    ∃ node, (shape.call contents rank).start = some node ∧
      node.recvbuf = tabulate shape.nbytes (contents.output rank) ∧
      (∃ cell, node.tmpBuf = tabulate (shape.tmpSize rank) cell) ∧
      (rank = shape.root → shape.After contents rank shape.tree.levels node) := by
  have allocated : (shape.call contents rank).malloc
      (shape.call contents rank).tmpBufSize =
        some (tabulate (shape.tmpSize rank) (contents.garbage rank)) := by
    rw [tmpBufSize_call fits inComm, malloc_call]
  have all : rank = shape.root →
      shape.subtree shape.tree.levels (shape.relative rank) = shape.commSize := by
    intro isRoot
    rw [(relative_eq_zero_iff inComm).mpr isRoot]
    exact Nat.min_eq_right (Nat.le_pow_clog one_lt_two _)
  have even : rank = shape.root → shape.relative rank % 2 = 0 := by
    intro isRoot
    rw [(relative_eq_zero_iff inComm).mpr isRoot]
  unfold Call.start
  rw [allocated, bind_some]
  change ∃ node, (if rank = shape.root then
      if shape.root ≠ 0 then
        Option.map _ ((shape.call contents rank).turn
          (tabulate (shape.tmpSize rank) (contents.garbage rank)))
      else some _
    else some _) = some node ∧ _
  by_cases isRoot : rank = shape.root
  · rw [if_pos isRoot]
    by_cases first : shape.root = 0
    · have elements : shape.SendsElements rank := ⟨isRoot, first⟩
      rw [if_neg (not_not.mpr first)]
      refine ⟨_, rfl, rfl, ⟨_, rfl⟩, fun _ => ⟨?_, ?_, ?_⟩⟩
      · rw [if_pos (even isRoot)]
        rfl
      · intro _ notElements
        exact absurd elements notElements
      · intro _
        rw [if_pos elements, all isRoot]
        exact cInt_sendcnt_mul fits le_rfl
    · have notElements : ¬ shape.SendsElements rank := fun elements => first elements.2
      have size : shape.tmpSize rank = shape.nbytes * shape.commSize := by
        rw [tmpSize, if_pos isRoot, if_pos first]
      obtain ⟨tmpBuf, turned, knows⟩ := @turn_call Cell shape contents rank fits isRoot
        (contents.garbage rank)
      rw [if_pos first, size, turned]
      refine ⟨_, rfl, rfl, ?_, fun _ => ⟨?_, ?_, ?_⟩⟩
      · obtain ⟨cell, bufferEq, -⟩ := knows
        exact ⟨cell, bufferEq⟩
      · rw [if_pos (even isRoot)]
        rfl
      · intro _ _
        rw [size]
        apply knows.mono
        rintro index - ⟨-, notOwn⟩
        exact notOwn isRoot
      · intro _
        rw [if_neg notElements, all isRoot]
        exact cInt_nbytes_mul fits le_rfl rank
  · rw [if_neg isRoot]
    exact ⟨_, rfl, rfl, ⟨_, rfl⟩, fun same => absurd same isRoot⟩

/-- A copy of a block into the receive buffer. -/
theorem copyElements_block
    {src : List Cell} {count size : Nat}
    (bytes : count * size = shape.nbytes)
    (room : shape.recvtypeSize rank * shape.recvcnt rank = shape.nbytes)
    (loaded : load src 0 shape.nbytes = some (shape.block contents rank)) :
    copyElements src 0 count size
        (tabulate shape.nbytes (contents.output rank)) 0 (shape.recvcnt rank)
        (shape.recvtypeSize rank) = some (shape.block contents rank) := by
  rw [mul_comm] at room
  unfold copyElements localcopy
  rw [bytes, room, if_pos le_rfl, zero_mul, zero_mul, loaded, bind_some,
    block, slice, store_tabulate_all]

include fits inComm in
/-- Each process ends with its block. -/
theorem finish_call
    {node : Node Cell}
    (here : shape.After contents rank 0 node) :
    ∃ out, (shape.call contents rank).finish node = some out ∧
      (¬ (rank = shape.root ∧ shape.inPlace = true) → out = shape.block contents rank) := by
  have place : (shape.call contents rank).inPlace = false ↔
      ¬ (rank = shape.root ∧ shape.inPlace = true) := by
    change (shape.inPlace && decide (rank = shape.root)) = false ↔ _
    rw [Bool.and_eq_false_iff, decide_eq_false_iff_not, not_and_or, Bool.not_eq_true, or_comm]
  have recvbuf := here.recvbuf
  unfold Call.finish
  rw [relativeRank_call inComm]
  by_cases receives : ¬ (rank = shape.root ∧ shape.inPlace = true)
  · have room : shape.recvtypeSize rank * shape.recvcnt rank = shape.nbytes := by
      apply shape.received_eq
      intro isRoot
      exact Bool.not_eq_true _ ▸ fun inPlace => receives ⟨isRoot, inPlace⟩
    have below := @behind_lt _ _ shape.root inComm
    have notPlace := place.mpr receives
    by_cases even : shape.relative rank % 2 = 0
    · rw [if_pos even] at recvbuf
      rw [recvbuf]
      by_cases elements : shape.SendsElements rank
      · have data : (shape.call contents rank).sendbuf =
            tabulate (shape.commSize * shape.nbytes) contents.input :=
          if_pos elements.1
        have zero : rank = 0 := elements.1.trans elements.2
        have inside := block_end_le inComm
        rw [if_pos ⟨elements, notPlace⟩, data]
        refine ⟨_, copyElements_block ?_ room ?_, fun _ => rfl⟩
        · rw [mul_comm]
          exact shape.sent_eq
        · rw [load_tabulate (by omega), block, zero, zero_mul]
          rfl
      · have one : shape.subtree 0 (shape.relative rank) = 1 := by
          unfold subtree relative
          omega
        have fit := @subtree_fits shape rank inComm 0 even elements (Nat.mod_one _)
        rw [one, mul_one] at fit
        rw [if_neg fun both => elements both.1, if_pos ⟨even, notPlace⟩, nbytes_call fits,
          Int.toNat_natCast]
        refine ⟨_, copyElements_block (mul_one _) room ?_, fun _ => rfl⟩
        rw [← slice_fromBlock inComm]
        apply (here.tmpBuf even elements).load (by rw [zero_add]; exact fit)
        rintro index ⟨-, upper⟩
        rw [one, mul_one]
        refine ⟨by omega, fun isRoot inPlace => ?_⟩
        exact absurd ⟨isRoot, inPlace⟩ receives
    · have notElements : ¬ shape.SendsElements rank := by
        intro elements
        rw [(relative_eq_zero_iff inComm).mpr elements.1] at even
        exact even rfl
      rw [if_neg even] at recvbuf
      rw [if_neg fun both => notElements both.1, if_neg fun both => even both.1]
      exact ⟨_, rfl, fun _ => recvbuf⟩
  · rw [if_neg fun both => receives (place.mp both.2),
      if_neg fun both => receives (place.mp both.2)]
    exact ⟨_, rfl, fun other => absurd other receives⟩

include fits in
/-- What one process does. -/
theorem yields_program
    (stays : ¬ (shape.call contents rank).ReturnsEarly)
    (inComm : rank < shape.commSize) :
    (shape.program contents rank).Yields
      (opsOf (shape.tree.treeRound (fun _ => True) (shape.subtreeData contents) rank)
        (List.range shape.tree.levels).reverse)
      (fun out => ¬ (rank = shape.root ∧ shape.inPlace = true) →
        out = shape.block contents rank) := by
  obtain ⟨node, started, recvbuf, tmpBuf, atRoot⟩ :=
    @start_call Cell shape contents rank fits inComm
  have steps : Bcast.Shape.TreeSteps shape.tree rank (fun _ => True)
      (shape.subtreeData contents) (shape.call contents rank).receive
      (shape.call contents rank).send node (shape.After contents rank) := by
    constructor
    · intro isRoot
      exact atRoot ((relative_eq_zero_iff inComm).mp isRoot)
    · intro level within lowest
      exact yields_receive fits inComm within lowest recvbuf tmpBuf
    · intro level state within multiple more here
      exact here.send fits inComm multiple more
    · intro level state multiple beyond here
      exact here.skip beyond
  have went := @Bcast.Shape.TreeSteps.yields_tree Cell _ shape.tree
    ⟨fun _ => contents.input, contents.garbage⟩ _ _ _ _ _ _ _ _ steps inComm
  rw [program, if_pos inComm, Call.scatter, if_neg stays, started, ← append_nil (opsOf _ _)]
  apply went.bind
  intro node here
  obtain ⟨out, finished, result⟩ := finish_call fits inComm here
  exact Prog.yields_ofOption finished result

/-- Each message has the blocks that the subtree of its destination needs. -/
theorem needed_of_mem
    {dst level : Nat} {msg : List Cell}
    (member : Op.send dst msg ∈ (shape.tree.treeRound (fun _ => True)
      (shape.subtreeData contents) rank level).ops) :
    shape.needed contents dst msg := by
  rw [Round.ops, Bcast.Shape.treeRound, List.mem_append, List.mem_map, List.mem_map] at member
  rcases member with ⟨message, member, same⟩ | ⟨_, _, other⟩
  · unfold messageIf at member
    split at member
    · rename_i condition
      obtain ⟨inComm, multiple, more, -⟩ := condition
      obtain rfl := mem_singleton.mp member
      obtain ⟨rfl, rfl⟩ := Op.send.inj same
      change rank < shape.commSize at inComm
      change shape.relative rank % 2 ^ (level + 1) = 0 at multiple
      have moved : shape.relative (ahead shape.commSize rank (2 ^ level)) =
          shape.relative rank + 2 ^ level :=
        behind_ahead_of_lt inComm shape.root_lt more
      have dstIn := @ahead_lt _ _ (2 ^ level) inComm
      refine ⟨level, ?_, ?_⟩
      · change shape.relative (ahead shape.commSize rank (2 ^ level)) % _ = _
        rw [moved, Nat.add_mod, multiple, zero_add, Nat.mod_mod, Nat.mod_eq_of_lt]
        exact Nat.pow_lt_pow_right one_lt_two (Nat.lt_succ_self level)
      · have data := @subtreeData_relative Cell shape contents _ dstIn level
        rw [slice_fromBlock_eq_flatMap dstIn, moved] at data
        change shape.subtreeData contents level (shape.relative rank + 2 ^ level) = _
        rw [data]
        change _ = (List.range (min (2 ^ level) (shape.commSize -
          shape.relative (ahead shape.commSize rank (2 ^ level))))).flatMap _
        rw [moved]
        rfl
    · cases member
  · cases other

end Shape

/-- If all numbers of bytes and elements fit into an `int`, and all processes
return at once for a zero count or none does, then the blocks are scattered. -/
theorem scatter_correct
    {Cell : Type}
    (shape : Shape)
    (contents : Contents Cell)
    (fits : shape.Fits)
    (agrees : shape.Agrees) :
    shape.Scatters contents := by
  by_cases early : shape.sendcnt = 0
  · have empty : shape.nbytes = 0 := by
      rw [← shape.sent_eq, early, mul_zero]
    have returns : ∀ rank < shape.commSize, (shape.program contents rank).Ends [] [] := by
      intro rank inComm
      have returnsEarly : (shape.call contents rank).ReturnsEarly := by
        by_cases isRoot : rank = shape.root
        · exact Or.inl ⟨isRoot, early⟩
        · exact Or.inr ⟨isRoot, (agrees rank inComm isRoot).mpr early⟩
      have nothing : (shape.call contents rank).recvbuf = [] := by
        change Buffer.tabulate shape.nbytes _ = []
        rw [empty]
        rfl
      rw [Shape.program, if_pos inComm, Call.scatter, if_pos returnsEarly, nothing]
      exact Prog.ends_done _
    refine ⟨fun _ => [], ?_, ?_, ?_⟩
    · apply completes_of_members (fun _ (_ : Nat) => .idle) []
      · intro level member
        cases member
      · intro rank _ level
        rfl
      · intro rank beyond
        exact if_neg beyond
      · exact returns
    · intro rank _ _
      rw [Shape.block, empty]
      rfl
    · intro rank inComm
      refine ⟨[], returns rank inComm, ?_⟩
      intro dst msg member
      cases member
  · have stays : ∀ rank < shape.commSize, ¬ (shape.call contents rank).ReturnsEarly := by
      rintro rank inComm (⟨-, zero⟩ | ⟨notRoot, zero⟩)
      · exact early zero
      · exact early ((agrees rank inComm notRoot).mp zero)
    obtain ⟨out, completes, results⟩ := exists_completes_of_members
      (shape.tree.treeRound (fun _ => True) (shape.subtreeData contents)) _
      Bcast.Shape.treeRound_agrees
      (fun _ beyond => Bcast.Shape.treeRound_outside beyond)
      (fun _ beyond => if_neg beyond)
      (fun rank inComm =>
        (Shape.yields_program fits (stays rank inComm) inComm).with_ends)
    refine ⟨out, completes, ?_, ?_⟩
    · intro rank inComm receives
      exact (results rank inComm).1 receives
    · intro rank inComm
      refine ⟨_, (results rank inComm).2, ?_⟩
      intro dst msg member
      obtain ⟨ops, inRounds, member⟩ := mem_flatten.mp member
      obtain ⟨level, -, rfl⟩ := List.mem_map.mp inRounds
      exact Shape.needed_of_mem member

/-- Three ranks, of which the second is the root, in place. -/
def threeRanks : Shape where
  commSize := 3
  root := 1
  root_lt := by decide
  nbytes := 4
  sendcnt := 2
  sendtypeSize := 2
  recvcnt := fun _ => 1
  recvtypeSize := fun _ => 4
  inPlace := true
  sent_eq := rfl
  received_eq := fun _ _ => rfl

/-- The numbers of the positions, in a send buffer. -/
def numbered : Contents Nat where
  input := id
  output := fun _ _ => 0
  garbage := fun _ _ => 0

theorem scatters_threeRanks :
    threeRanks.Scatters numbered := by
  apply scatter_correct
  · constructor <;> decide
  · intro rank _ _
    constructor <;> intro zero <;> cases zero

/-- A root that sends no elements, while the other rank receives one of size
zero. -/
def differentCounts : Shape where
  commSize := 2
  root := 0
  root_lt := by decide
  nbytes := 0
  sendcnt := 0
  sendtypeSize := 1
  recvcnt := fun _ => 1
  recvtypeSize := fun _ => 0
  inPlace := false
  sent_eq := rfl
  received_eq := fun _ _ => rfl

/-- The other rank then waits for a message that is never sent. -/
theorem differentCounts_waits : ¬ differentCounts.Scatters numbered := by
  rintro ⟨out, completes, -⟩
  have start : (system (differentCounts.program numbered)).Reachable
      ⟨differentCounts.program numbered, fun _ _ => []⟩ :=
    .initial ⟨rfl, fun _ _ => rfl⟩
  obtain ⟨finished, -⟩ := completes.settled _ start (by
    intro rank ready
    match rank with
    | 0 => exact ready
    | 1 => exact ready rfl
    | more + 2 => exact ready)
  have ended := finished 1
  cases ended

/-- Two blocks of a gibibyte each, and a root that is not rank 0. -/
def hugeBlocks : Shape where
  commSize := 2
  root := 1
  root_lt := by decide
  nbytes := 2 ^ 30
  sendcnt := 2 ^ 30
  sendtypeSize := 1
  recvcnt := fun _ => 2 ^ 30
  recvtypeSize := fun _ => 1
  inPlace := false
  sent_eq := rfl
  received_eq := fun _ _ => rfl

/-- The size of the root's `tmp_buf` is then negative. -/
theorem hugeBlocks_fails : ¬ hugeBlocks.Scatters numbered := by
  rintro ⟨out, completes, -⟩
  have nbytes : (hugeBlocks.call numbered 1).nbytes = 2 ^ 30 := by
    refine (if_pos rfl).trans ?_
    decide +kernel
  have size : (hugeBlocks.call numbered 1).tmpBufSize = -2 ^ 31 := by
    refine (if_pos rfl).trans ((if_pos (by decide)).trans ?_)
    decide +kernel
  have nothing : (hugeBlocks.call numbered 1).start = none := by
    unfold Call.start Call.malloc
    rw [size]
    rfl
  have stays : ¬ (hugeBlocks.call numbered 1).ReturnsEarly := by
    rintro (⟨-, zero⟩ | ⟨other, -⟩)
    · exact absurd zero (by decide)
    · exact other rfl
  have fails : hugeBlocks.program numbered 1 = .fail := by
    rw [Shape.program, if_pos (by decide), Call.scatter, if_neg stays, nothing]
    rfl
  have start : (system (hugeBlocks.program numbered)).Reachable
      ⟨hugeBlocks.program numbered, fun _ _ => []⟩ :=
    .initial ⟨rfl, fun _ _ => rfl⟩
  have ready : Network.Ready ⟨hugeBlocks.program numbered, fun _ _ => []⟩ 1 := by
    unfold Network.Ready
    simp only [fails]
  have responds := completes.responsive _ start 1 ready
  change (Network.step _ 1).isSome = true at responds
  unfold Network.step at responds
  simp only [fails] at responds
  cases responds

/-- Both calls are well formed, and neither scatters its blocks. -/
theorem scatter_not_always_correct :
    ¬ differentCounts.Scatters numbered ∧ ¬ hugeBlocks.Scatters numbered :=
  ⟨differentCounts_waits, hugeBlocks_fails⟩

end Mpich.Coll.Scatter
