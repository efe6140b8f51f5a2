import Mpich.Coll.Bcast.Tree

/-!
# The binomial tree and the scatter

Short messages go down the tree as a whole. In the scatter the message to a
child has the pieces of the ranks of its subtree, as far as the data goes.
Parent and child find out on their own, and in the same way, whether it has
any.
-/

namespace Mpich.Coll.Bcast

open MessagePassing Buffer Cyclic

variable {Cell : Type}

theorem Reading.ends_recv
    (reading : Reading)
    {src : Nat} {capacity : Int} {msg : List Cell}
    (accepted : reading.Overlooks msg.length ∨ (msg.length : Int) ≤ capacity) :
    (reading.recv src capacity).Ends [.recv src msg] msg := by
  refine ⟨rfl, ?_⟩
  simp only [if_pos accepted, Prog.path_nil]

namespace Shape

variable {shape : Shape} {reading : Reading} {contents : Contents Cell}

variable (shape contents) in
/-- Bytes of the root's data. -/
def piece (offset count : Nat) : List Cell :=
  tabulate count fun index => contents.data shape.root (offset + index)

@[simp] theorem length_piece (offset count : Nat) :
    (shape.piece contents offset count).length = count :=
  length_tabulate _ _

variable (shape contents) in
/-- A buffer of the size of the data holds the root's at these positions. -/
def Knows (known : Nat → Prop) (buffer : List Cell) : Prop :=
  ∃ cell, buffer = tabulate shape.nbytes cell ∧
    ∀ index < shape.nbytes, known index → cell index = contents.data shape.root index

/-- The positions of some bytes. -/
def Within (offset count index : Nat) : Prop :=
  offset ≤ index ∧ index < offset + count

theorem Knows.mono
    {known fewer : Nat → Prop} {buffer : List Cell}
    (knows : shape.Knows contents known buffer)
    (weakens : ∀ index < shape.nbytes, fewer index → known index) :
    shape.Knows contents fewer buffer := by
  obtain ⟨cell, bufferEq, holds⟩ := knows
  exact ⟨cell, bufferEq, fun index inside less =>
    holds index inside (weakens index inside less)⟩

/-- A buffer that holds everything is the root's. -/
theorem Knows.eq_rootData
    {known : Nat → Prop} {buffer : List Cell}
    (knows : shape.Knows contents known buffer)
    (all : ∀ index < shape.nbytes, known index) :
    buffer = shape.rootData contents := by
  obtain ⟨cell, rfl, holds⟩ := knows
  apply tabulate_congr
  intro index inside
  exact holds index inside (all index inside)

theorem knows_rootData (known : Nat → Prop) :
    shape.Knows contents known (shape.rootData contents) :=
  ⟨_, rfl, fun _ _ _ => rfl⟩

section

variable
    {known : Nat → Prop} {buffer : List Cell}
    (knows : shape.Knows contents known buffer)
    {offset count : Nat}
    (accessible : reading.Overlooks count ∨ offset + count ≤ shape.nbytes)

include knows accessible

/-- Reading what a buffer holds of the root's data. -/
theorem Knows.load
    (covered : ∀ index < shape.nbytes, Within offset count index → known index) :
    reading.load buffer offset count = some (shape.piece contents offset count) := by
  unfold Reading.load
  by_cases overlooked : reading.Overlooks count
  · rw [if_pos overlooked, piece, overlooked.2]
    rfl
  · obtain ⟨cell, rfl, holds⟩ := knows
    have within := accessible.resolve_left overlooked
    rw [if_neg overlooked, load_tabulate within]
    apply congrArg some
    apply tabulate_congr
    intro index inside
    exact holds _ (by omega) (covered _ (by omega) ⟨by omega, by omega⟩)

/-- Writing some of the root's data. -/
theorem Knows.store :
    ∃ written, reading.store buffer offset (shape.piece contents offset count) = some written ∧
      shape.Knows contents (fun index => known index ∨ Within offset count index) written := by
  unfold Reading.store
  rw [length_piece]
  by_cases overlooked : reading.Overlooks count
  · refine ⟨buffer, if_pos overlooked, knows.mono ?_⟩
    rintro index inside (already | ⟨lower, upper⟩)
    · exact already
    · have := overlooked.2
      omega
  · obtain ⟨cell, rfl, holds⟩ := knows
    have within := accessible.resolve_left overlooked
    rw [if_neg overlooked, piece, store_tabulate within]
    refine ⟨_, rfl, _, rfl, ?_⟩
    intro index inside already
    by_cases here : Within offset count index
    · rw [patch_of_mem here, Nat.add_sub_cancel' here.1]
    · rw [patch_of_not_mem here]
      exact holds index inside (already.resolve_right here)

end

theorem nbytes_call (rank : Nat) :
    (shape.call contents rank).nbytes = shape.nbytes :=
  shape.bytes_eq rank

variable (shape) in
def scatterSize : Nat :=
  (shape.nbytes + shape.commSize - 1) / shape.commSize

theorem scatterSize_call (rank : Nat) :
    (shape.call contents rank).scatterSize = shape.scatterSize := by
  unfold Call.scatterSize
  rw [nbytes_call]
  rfl

/-- The pieces of all ranks make up the data. -/
theorem nbytes_le : shape.nbytes ≤ shape.commSize * shape.scatterSize := by
  have positive : 0 < shape.commSize := (Nat.zero_le _).trans_lt shape.root_lt
  have rounded := Nat.lt_mul_div_succ (shape.nbytes + shape.commSize - 1) positive
  rw [mul_add, mul_one] at rounded
  unfold scatterSize
  omega

variable {rank : Nat} (inComm : rank < shape.commSize)

include inComm in
theorem relative_eq_zero_iff :
    shape.relative rank = 0 ↔ rank = shape.root := by
  have rootLt := shape.root_lt
  unfold relative
  rw [behind_eq_ite inComm rootLt.le]
  split <;> omega

theorem knows_start :
    shape.Knows contents (fun _ => rank = shape.root) (shape.call contents rank).start := by
  have size : (shape.call contents rank).nbytes = shape.nbytes := nbytes_call rank
  unfold Call.start
  rw [size]
  split
  · refine ⟨_, rfl, ?_⟩
    rintro index - rfl
    rfl
  next other =>
    refine ⟨_, rfl, ?_⟩
    rintro index - isRoot
    exact absurd (Or.inr isRoot) other

theorem finish_rootData (rank : Nat) :
    (shape.call contents rank).finish (shape.rootData contents) = shape.rootData contents := by
  unfold Call.finish
  split
  · rfl
  next other =>
    rw [not_or, not_not] at other
    have isRoot : rank = shape.root := other.2
    rw [isRoot]
    rfl

variable (shape contents) in
/-- The communications of the binomial tree: each rank but the root gets all
data. -/
def binomialRound (rank level : Nat) : Round Nat (List Cell) :=
  shape.treeRound (fun _ => True) (fun _ _ => shape.rootData contents) rank level

theorem rootData_eq_piece :
    shape.rootData contents = shape.piece contents 0 shape.nbytes := by
  apply tabulate_congr
  intro index _
  rw [zero_add]

include inComm in
theorem binomialSteps :
    TreeSteps shape rank (fun _ => True) (fun _ _ => shape.rootData contents)
      ((shape.call contents rank).receiveAll reading)
      ((shape.call contents rank).sendAll reading)
      (shape.call contents rank).start
      (fun _ buffer => buffer = shape.rootData contents) where
  root := by
    intro isRoot
    apply knows_start.eq_rootData
    exact fun _ _ => (relative_eq_zero_iff inComm).mp isRoot
  receive := by
    intro level within _
    have fits : reading.Overlooks (shape.rootData contents).length ∨
        ((shape.rootData contents).length : Int) ≤ ((shape.call contents rank).nbytes : Int) := by
      rw [nbytes_call, rootData, length_tabulate]
      exact Or.inr le_rfl
    have stored := @Knows.store _ shape reading contents _ _
      (@knows_start _ shape contents rank) 0 shape.nbytes
      (Or.inr (zero_add _).le)
    rw [← rootData_eq_piece] at stored
    obtain ⟨written, storedEq, knows⟩ := stored
    rw [if_pos trivial, ← List.append_nil [_], ← treeSrc_call inComm within.le]
    apply (reading.ends_recv fits).bind_yields
    rw [storedEq]
    apply Prog.yields_pure
    exact knows.eq_rootData fun index inside =>
      Or.inr ⟨Nat.zero_le _, by omega⟩
  send := by
    rintro level buffer within - - rfl
    have loaded := (@knows_rootData _ shape contents fun _ => True).load
      (@Or.inr (reading.Overlooks shape.nbytes) _ (zero_add _).le)
      fun _ _ _ => trivial
    rw [← rootData_eq_piece] at loaded
    have size : (shape.call contents rank).nbytes = shape.nbytes := nbytes_call rank
    rw [if_pos trivial, ← treeDst_call inComm within.le, Call.sendAll, size, loaded]
    exact ⟨_, ⟨rfl, rfl, rfl⟩, rfl⟩
  skip := fun _ _ _ _ same => same

include inComm in
/-- The binomial tree of one rank. -/
theorem ends_binomial :
    ((shape.call contents rank).binomial reading).Ends
      (opsOf (shape.binomialRound contents rank) (List.range shape.levels).reverse)
      (shape.rootData contents) :=
  ((binomialSteps inComm).yields_tree inComm).ends

variable (shape contents) in
/-- The message with the pieces of a subtree. -/
def subtreeData (level position : Nat) : List Cell :=
  shape.piece contents (position * shape.scatterSize)
    (min (shape.nbytes - position * shape.scatterSize)
      (2 ^ level * shape.scatterSize))

variable (shape) in
/-- There is data for the subtree of a rank. -/
def HasData (position : Nat) : Prop :=
  position * shape.scatterSize < shape.nbytes

instance : DecidablePred shape.HasData :=
  fun _ => inferInstanceAs (Decidable (_ < _))

variable (shape contents) in
/-- The communications of the scatter. -/
def scatterRound (rank level : Nat) : Round Nat (List Cell) :=
  shape.treeRound shape.HasData (shape.subtreeData contents) rank level

variable (shape contents) in
/-- What a process has after the rounds of the scatter from a level on. -/
structure Scattered (rank level : Nat) (node : Node Cell) : Prop where
  currSize : node.currSize =
    min (shape.nbytes - shape.relative rank * shape.scatterSize) (2 ^ level * shape.scatterSize)
  knows : shape.Knows contents
    (Within (shape.relative rank * shape.scatterSize)
      (2 ^ level * shape.scatterSize)) node.tmpBuf

theorem scatterSize_pos
    {position : Nat}
    (hasData : shape.HasData position) :
    0 < shape.scatterSize := by
  have all := @nbytes_le shape
  unfold HasData at hasData
  by_contra none
  rw [Nat.eq_zero_of_not_pos none, mul_zero] at all
  omega

section

include inComm

theorem Scattered.send
    {level : Nat} {node : Node Cell}
    (within : 2 ^ level < shape.commSize)
    (here : shape.Scattered contents rank (level + 1) node) :
    ((shape.call contents rank).sendPieces reading (2 ^ level) node).Yields
      (if shape.HasData (shape.relative rank + 2 ^ level) then
        [.send (ahead shape.commSize rank (2 ^ level))
          (shape.subtreeData contents level (shape.relative rank + 2 ^ level))]
      else []) (shape.Scattered contents rank level) := by
  have own : shape.Knows contents
      (Within (shape.relative rank * shape.scatterSize)
        (2 ^ level * shape.scatterSize)) node.tmpBuf := by
    apply here.knows.mono
    rintro index - ⟨lower, upper⟩
    have : 2 ^ level * shape.scatterSize ≤ 2 ^ (level + 1) * shape.scatterSize :=
      Nat.mul_le_mul_right _ (Nat.pow_le_pow_right two_pos (Nat.le_succ level))
    exact ⟨lower, by omega⟩
  have curr := here.currSize
  have twice : 2 ^ (level + 1) * shape.scatterSize =
      2 ^ level * shape.scatterSize + 2 ^ level * shape.scatterSize := by
    rw [pow_succ, mul_two, add_mul]
  have start : (shape.relative rank + 2 ^ level) * shape.scatterSize =
      shape.relative rank * shape.scatterSize + 2 ^ level * shape.scatterSize := add_mul _ _ _
  unfold Call.sendPieces
  rw [scatterSize_call, relativeRank_call inComm, mul_comm _ (2 ^ level)]
  by_cases hasData : shape.HasData (shape.relative rank + 2 ^ level)
  · have pieceSize := scatterSize_pos hasData
    have block : 0 < 2 ^ level * shape.scatterSize := mul_pos (Nat.two_pow_pos level) pieceSize
    have bound := hasData
    unfold HasData at bound
    have amount : node.currSize - 2 ^ level * shape.scatterSize = min (shape.nbytes -
            (shape.relative rank + 2 ^ level) * shape.scatterSize)
          (2 ^ level * shape.scatterSize) := by
      omega
    have loaded := @Knows.load _ shape reading contents _ _ here.knows
      ((shape.relative rank + 2 ^ level) * shape.scatterSize)
      (node.currSize - 2 ^ level * shape.scatterSize)
      (Or.inr (by omega)) (by
        rintro index - ⟨lower, upper⟩
        exact ⟨by omega, by omega⟩)
    rw [if_pos (by omega), if_pos hasData, ← treeDst_call inComm within.le,
      mul_comm shape.scatterSize, loaded, subtreeData, ← amount]
    refine ⟨_, ⟨rfl, rfl, rfl⟩, ?_, own⟩
    change node.currSize - (node.currSize - 2 ^ level * shape.scatterSize) = _
    omega
  · have bound := hasData
    unfold HasData at bound
    rw [if_neg (by omega), if_neg hasData]
    refine Prog.yields_pure ⟨?_, own⟩
    omega

theorem Scattered.receive
    {level : Nat}
    (within : 2 ^ level < shape.commSize)
    (node : Node Cell)
    (start : node.tmpBuf = (shape.call contents rank).start) :
    ((shape.call contents rank).receivePieces reading (2 ^ level) node).Yields
      (if shape.HasData (shape.relative rank) then
        [.recv (behind shape.commSize rank (2 ^ level))
          (shape.subtreeData contents level (shape.relative rank))]
      else []) (shape.Scattered contents rank level) := by
  have initial := @knows_start _ shape contents rank
  rw [← start] at initial
  unfold Call.receivePieces
  rw [scatterSize_call, relativeRank_call inComm, nbytes_call]
  by_cases hasData : shape.HasData (shape.relative rank)
  · have bound := hasData
    unfold HasData at bound
    have fits : reading.Overlooks (shape.subtreeData contents level (shape.relative rank)).length ∨
        ((shape.subtreeData contents level (shape.relative rank)).length : Int) ≤
          (shape.nbytes : Int) - (shape.relative rank * shape.scatterSize : Nat) := by
      rw [subtreeData, length_piece]
      omega
    obtain ⟨written, storedEq, knows⟩ := @Knows.store _ shape reading contents _ _
      initial (shape.relative rank * shape.scatterSize)
      (min (shape.nbytes - shape.relative rank * shape.scatterSize)
        (2 ^ level * shape.scatterSize)) (Or.inr (by omega))
    rw [← Nat.cast_mul, if_neg (by omega), if_pos hasData,
      ← treeSrc_call inComm within.le, ← List.append_nil [_]]
    apply (reading.ends_recv fits).bind_yields
    rw [subtreeData, storedEq]
    apply Prog.yields_pure
    refine ⟨length_piece _ _, knows.mono ?_⟩
    rintro index inside ⟨lower, upper⟩
    exact Or.inr ⟨lower, by omega⟩
  · have bound := hasData
    unfold HasData at bound
    rw [← Nat.cast_mul, if_pos (by omega), if_neg hasData]
    refine Prog.yields_pure ⟨?_, initial.mono ?_⟩
    · change 0 = _
      omega
    · rintro index inside ⟨lower, upper⟩
      omega

/-- The scatter in single rounds. -/
theorem scatterSteps :
    TreeSteps shape rank shape.HasData (shape.subtreeData contents)
      ((shape.call contents rank).receivePieces reading)
      ((shape.call contents rank).sendPieces reading)
      { tmpBuf := (shape.call contents rank).start
        currSize := if (shape.call contents rank).rank = (shape.call contents rank).root then
          (shape.call contents rank).nbytes else 0
        recvSize := 0 }
      (shape.Scattered contents rank) where
  root := by
    intro isRoot
    have rankEq := (relative_eq_zero_iff inComm).mp isRoot
    have all := @nbytes_le shape
    have covered : shape.commSize * shape.scatterSize ≤ 2 ^ shape.levels * shape.scatterSize :=
      Nat.mul_le_mul_right _ (Nat.le_pow_clog one_lt_two _)
    constructor
    · rw [nbytes_call, isRoot, zero_mul]
      exact (if_pos rankEq).trans (by omega)
    · exact knows_start.mono fun _ _ _ => rankEq
  receive := fun _ within _ => Scattered.receive inComm within _ rfl
  send := fun _ _ within _ _ here => here.send inComm within
  skip := by
    intro level node _ beyond here
    have all := @nbytes_le shape
    have curr := here.currSize
    have covered : shape.commSize * shape.scatterSize ≤
        (shape.relative rank + 2 ^ level) * shape.scatterSize :=
      Nat.mul_le_mul_right _ beyond
    have twice : 2 ^ (level + 1) * shape.scatterSize =
        2 ^ level * shape.scatterSize + 2 ^ level * shape.scatterSize := by
      rw [pow_succ, mul_two, add_mul]
    rw [add_mul] at covered
    refine ⟨by omega, here.knows.mono ?_⟩
    rintro index - ⟨lower, upper⟩
    exact ⟨lower, by omega⟩

/-- The scatter of one rank. -/
theorem yields_scatter :
    ((shape.call contents rank).scatter reading).Yields
      (opsOf (shape.scatterRound contents rank) (List.range shape.levels).reverse)
      (shape.Scattered contents rank 0) :=
  (scatterSteps inComm).yields_tree inComm

end

end Shape

end Mpich.Coll.Bcast
