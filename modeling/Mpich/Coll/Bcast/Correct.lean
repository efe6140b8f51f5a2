import Mpich.Coll.Bcast.Allgather

/-!
# When broadcasts are clean

All algorithms complete with the root's data everywhere. Read strictly, the
recursive doubling does so only if all pieces begin within the data: it posts
receives of negative size, at offsets beyond the data, for the pieces of ranks
that the data does not reach. The scatter skips these pieces, and the ring counts
them as empty.
-/

namespace Mpich.Coll.Bcast

open MessagePassing Masks Cyclic

variable {Cell : Type} {shape : Shape} {reading : Reading}
variable {contents : Contents Cell}

namespace Shape

variable (shape) in
/-- All data goes down the tree. -/
def IsShort : Prop :=
  shape.nbytes < bcastShortMsg ∨ shape.commSize < bcastMinProcs

instance : Decidable shape.IsShort :=
  inferInstanceAs (Decidable (_ ∨ _))

variable (shape) in
/-- The processes use a scatter and a recursive doubling. -/
def UsesDoubling : Prop :=
  ¬ shape.IsShort ∧ shape.Doubles

instance : Decidable shape.UsesDoubling :=
  inferInstanceAs (Decidable (_ ∧ _))

theorem bcast_eq (rank : Nat) :
    (shape.call contents rank).bcast reading = if shape.count rank = 0 ∨ shape.commSize = 1 then
        pure (shape.call contents rank).buffer
      else
        (if shape.IsShort then (shape.call contents rank).binomial reading
        else (shape.call contents rank).scatterAllgather reading) >>= fun tmpBuf =>
          pure ((shape.call contents rank).finish tmpBuf) := by
  unfold Call.bcast Call.algorithm
  rw [nbytes_call]
  rfl

variable (shape contents) in
/-- The data of all ranks in the end. -/
def out (rank : Nat) : List Cell :=
  if rank < shape.commSize then shape.rootData contents else []

theorem buffer_of_early
    {rank : Nat}
    (inComm : rank < shape.commSize)
    (early : shape.count rank = 0 ∨ shape.commSize = 1) :
    (shape.call contents rank).buffer = shape.rootData contents := by
  rcases early with noCount | single
  · have empty : shape.nbytes = 0 := by
      rw [← shape.bytes_eq rank, noCount, Nat.mul_zero]
    unfold call rootData
    rw [empty]
    rfl
  · have rootLt := shape.root_lt
    have isRoot : rank = shape.root := by omega
    rw [isRoot]
    rfl

theorem ends_scatterAllgather
    (fits : shape.Doubles → reading = .lenient ∨ shape.PiecesWithin)
    {rank : Nat}
    (inComm : rank < shape.commSize) :
    ((shape.call contents rank).scatterAllgather reading).Ends
      (opsOf (phases (shape.scatterRound contents) (shape.gatherRound contents) rank)
        (phaseLabels (List.range shape.levels).reverse shape.gatherSteps))
      (shape.rootData contents) := by
  rw [opsOf_phases]
  apply Prog.Yields.ends
  apply (yields_scatter inComm).bind
  intro node scattered
  exact (ends_allgather fits inComm scattered).yields rfl

variable (fits : shape.UsesDoubling → reading = .lenient ∨ shape.PiecesWithin)

include fits in
/-- The processes complete with the root's data. -/
theorem completes :
    Completes (shape.program reading contents) (shape.out contents) := by
  have outside : ∀ rank, ¬ rank < shape.commSize →
      shape.program reading contents rank = .done (shape.out contents rank) := by
    intro rank beyond
    rw [program, out, if_neg beyond, if_neg beyond]
  by_cases early : shape.count 0 = 0 ∨ shape.commSize = 1
  · have agree : ScheduleAgrees (fun _ (_ : Unit) => (.idle : Round Nat (List Cell))) [] := by
      intro label member
      cases member
    apply completes_of_members _ _ agree (fun _ _ _ => rfl) outside
    intro rank inComm
    have alsoEarly : shape.count rank = 0 ∨ shape.commSize = 1 :=
      early.imp_left (shape.early_iff 0 rank).mp
    rw [program, out, if_pos inComm, if_pos inComm, bcast_eq, if_pos alsoEarly,
      buffer_of_early inComm alsoEarly]
    exact Prog.ends_done _
  have late : ∀ rank, ¬ (shape.count rank = 0 ∨ shape.commSize = 1) :=
    fun rank alsoEarly =>
      early (alsoEarly.imp_left (shape.early_iff rank 0).mp)
  by_cases short : shape.IsShort
  · have agree : ScheduleAgrees (shape.binomialRound contents)
        (List.range shape.levels).reverse := treeRound_agrees
    apply completes_of_members _ _ agree (fun _ beyond => treeRound_outside beyond) outside
    intro rank inComm
    rw [program, out, if_pos inComm, if_pos inComm, bcast_eq,
      if_neg (late rank), if_pos short, ← List.append_nil (opsOf _ _), ← finish_rootData rank]
    exact (ends_binomial inComm).bind (Prog.ends_done _)
  · have scatterAgrees : ScheduleAgrees (shape.scatterRound contents)
        (List.range shape.levels).reverse := treeRound_agrees
    have agree := scatterAgrees.phases (@gatherRound_agrees _ shape contents)
    apply completes_of_members _ _ agree _ outside
    · intro rank inComm
      rw [program, out, if_pos inComm, if_pos inComm, bcast_eq,
        if_neg (late rank), if_neg short, ← List.append_nil (opsOf _ _), ← finish_rootData rank]
      exact (ends_scatterAllgather (fun doubles => fits ⟨short, doubles⟩)
        inComm).bind (Prog.ends_done _)
    · intro rank beyond
      exact phases_idle (fun level => treeRound_outside beyond level) (gatherRound_outside beyond)

include fits in
theorem broadcasts :
    shape.Broadcasts reading contents :=
  ⟨_, completes fits, fun _ inComm => if_pos inComm⟩

end Shape

/-- A strict reader never gets past a receive of negative size. -/
theorem Reading.nonneg_of_ends_recv
    {src : Nat} {capacity : Int} {ops : List (Op Nat (List Cell))}
    {msg : List Cell}
    (ends : (Reading.strict.recv src capacity).Ends ops msg) :
    0 ≤ capacity := by
  cases ops with
  | nil => cases ends
  | cons op ops =>
    rcases Prog.Path.cons_cases ends with
      ⟨_, _, _, -, progEq, -⟩ | ⟨_, received, _, -, progEq, rest⟩
    · cases progEq
    · obtain ⟨-, rfl⟩ := Prog.recv.inj progEq
      by_cases accepted : Reading.strict.Overlooks received.length ∨
          (received.length : Int) ≤ capacity
      · rcases accepted with overlooked | fits
        · cases overlooked.1
        · omega
      · simp only [if_neg accepted] at rest
        cases ops with
        | nil => cases rest
        | cons next ops =>
          rcases Prog.Path.cons_cases rest with
            ⟨_, _, _, -, failEq, -⟩ | ⟨_, _, _, -, failEq, -⟩ <;> cases failEq

namespace Shape

/-- The exchange of the first level, at the last rank but one. -/
theorem piecesWithin_of_ends
    (doubles : shape.Doubles)
    (many : bcastMinProcs ≤ shape.commSize)
    {rank : Nat}
    (inComm : rank < shape.commSize)
    (lastButOne : shape.relative rank = shape.commSize - 2)
    {node final : Node Cell} {ops : List (Op Nat (List Cell))}
    (ends : ((shape.call contents rank).doublingLoop .strict shape.commSize 1 0
      node).Ends ops final) :
    shape.PiecesWithin := by
  obtain ⟨less, size⟩ : ∃ less, shape.commSize = less + 1 :=
    ⟨shape.commSize - 1, by unfold bcastMinProcs at many; omega⟩
  have even : shape.commSize % 2 = 0 := by
    rw [commSize_eq doubles.2] at many ⊢
    obtain ⟨levels, positive⟩ : ∃ levels, shape.levels = levels + 1 := by
      refine ⟨shape.levels - 1, ?_⟩
      have : shape.levels ≠ 0 := by
        intro none
        rw [none] at many
        exact absurd many (by decide)
      omega
    rw [positive, pow_succ]
    exact Nat.mul_mod_left _ _
  have clear : ¬ BitSet (shape.commSize - 2) 0 := by
    unfold BitSet
    omega
  have partner : shape.relative rank ^^^ 1 = shape.commSize - 1 := by
    have flipped := xor_mask_of_clear clear
    rw [pow_zero] at flipped
    rw [lastButOne, flipped]
    omega
  have own : (shape.call contents rank).commSize = shape.commSize := rfl
  rw [size, Call.doublingLoop, own, if_pos (by unfold bcastMinProcs at many; omega),
    relativeRank_call inComm] at ends
  simp only [partner, treeRoot_eq, blockStart_zero] at ends
  obtain ⟨_, _, _, -, exchanged, -⟩ := Prog.Ends.of_bind ends
  rw [Call.exchangePieces, own, if_pos (by omega)] at exchanged
  obtain ⟨_, _, _, -, -, exchanged⟩ := Prog.Ends.of_bind exchanged
  obtain ⟨_, _, _, -, -, exchanged⟩ := Prog.Ends.of_bind exchanged
  obtain ⟨_, _, _, -, received, -⟩ := Prog.Ends.of_bind exchanged
  have room := Reading.nonneg_of_ends_recv received
  rw [scatterSize_call, nbytes_call] at room
  unfold PiecesWithin
  omega

theorem piecesWithin_of_broadcasts
    (doubling : shape.UsesDoubling)
    (broadcasts : shape.Broadcasts .strict contents) :
    shape.PiecesWithin := by
  obtain ⟨notShort, doubles⟩ := doubling
  have long : bcastShortMsg ≤ shape.nbytes ∧ bcastMinProcs ≤ shape.commSize := by
    unfold IsShort at notShort
    omega
  obtain ⟨out, completed, -⟩ := broadcasts
  obtain ⟨past, ends, -⟩ := completed.exists_history
  have small : shape.commSize - 2 < shape.commSize := by
    have := @commSize_pos shape
    omega
  have inComm := @ahead_lt shape.commSize _ shape.root small
  have lastButOne : shape.relative
      (ahead shape.commSize (shape.commSize - 2) shape.root) = shape.commSize - 2 :=
    behind_ahead small shape.root_lt.le
  have late : ∀ rank, ¬ (shape.count rank = 0 ∨ shape.commSize = 1) := by
    rintro rank (none | single)
    · have := shape.bytes_eq rank
      rw [none, Nat.mul_zero] at this
      unfold bcastShortMsg at long
      omega
    · unfold bcastMinProcs at long
      omega
  have choice : ((shape.call contents
        (ahead shape.commSize (shape.commSize - 2) shape.root)).nbytes <
      bcastLongMsg ∧ (shape.call contents
        (ahead shape.commSize (shape.commSize - 2)
          shape.root)).commSizeIsPof2) = shape.Doubles := by
    rw [nbytes_call]
    rfl
  have ended := ends (ahead shape.commSize (shape.commSize - 2) shape.root)
  rw [program, if_pos inComm, bcast_eq, if_neg (late _), if_neg notShort] at ended
  obtain ⟨_, _, _, -, ended, -⟩ := Prog.Ends.of_bind ended
  obtain ⟨_, _, node, -, -, ended⟩ := Prog.Ends.of_bind ended
  rw [Call.allgather] at ended
  simp only [choice, if_pos doubles] at ended
  obtain ⟨_, _, _, -, ended, -⟩ := Prog.Ends.of_bind ended
  exact piecesWithin_of_ends doubles long.2 inComm lastButOne ended

end Shape

/-- 128 processes that broadcast 12289 bytes. -/
def manyRanks : Shape where
  commSize := 128
  root := 0
  root_lt := by decide
  nbytes := 12289
  count := fun _ => 12289
  typeSize := fun _ => 1
  isContig := fun _ => true
  bytes_eq := fun _ => rfl
  early_iff := fun _ _ => Iff.rfl

/-- All buffers hold zeros. -/
def zeros : Contents UInt8 where
  data := fun _ _ => 0
  garbage := fun _ _ => 0

end Mpich.Coll.Bcast
