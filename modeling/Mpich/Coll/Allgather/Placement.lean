import Mpich.Coll.Allgather.Bruck

/-!
# The ring

Each process passes the block it has received last on to its right neighbour, and
so has after each step the block of one more rank behind it, at its place in the
receive buffer.
-/

namespace Mpich.Coll.Allgather

open MessagePassing List Buffer Cyclic

variable {Cell : Type}

/-- The block of a rank. -/
def ownData
    (layout : Layout)
    (block : Nat → Nat → Cell)
    (number : Nat) : List Cell :=
  tabulate (layout.size number) (block number)

/-- The communications of a rank in a step of the ring. -/
def ringRound
    (layout : Layout)
    (block : Nat → Nat → Cell)
    (rank step : Nat) : Round Nat (List Cell) :=
  exchangeRound (· < layout.count) (ahead layout.count · 1)
    (behind layout.count · 1)
    (fun rank => ownData layout block (behind layout.count rank step)) rank

theorem ringRound_agrees
    (layout : Layout)
    (block : Nat → Nat → Cell) :
    ScheduleAgrees (ringRound layout block) (List.range (layout.count - 1)) := by
  intro step member src dst
  have := mem_range.mp member
  exact ring_agrees (by omega) _ src dst

/-- What a process has after some steps: what is outside all blocks, and the
blocks that have passed. -/
def Passed (layout : Layout) (rank steps index : Nat) : Prop :=
  (∀ number < layout.count, ¬ layout.Covers number index) ∨ ∃ earlier ≤ steps,
      layout.Covers (behind layout.count rank earlier) index

theorem passed_all
    {layout : Layout} {rank : Nat}
    (inComm : rank < layout.count)
    (index : Nat) :
    Passed layout rank (layout.count - 1) index := by
  by_cases outside : ∀ number < layout.count, ¬ layout.Covers number index
  · exact Or.inl outside
  · push Not at outside
    obtain ⟨number, bound, covers⟩ := outside
    obtain ⟨steps, within, reached⟩ := exists_ahead_eq bound inComm
    refine Or.inr ⟨steps, by omega, ?_⟩
    rw [(ahead_eq_iff bound inComm within.le).mp reached]
    exact covers

/-- Displacements and counts in elements describe the layout in bytes. -/
structure RingMeasures
    (process : Process)
    (layout : Layout)
    (displ cnt : Nat → Nat)
    (length : Nat) : Prop where
  commSize_eq : process.commSize = layout.count
  displ_eq : ∀ number < layout.count, displ number * process.typeSize = layout.displ number
  cnt_eq : ∀ number < layout.count, cnt number * process.typeSize = layout.size number
  fits : ∀ number < layout.count, layout.size number ≠ 0 →
    layout.displ number + layout.size number ≤ length

section

variable {process : Process} {layout : Layout} {displ cnt : Nat → Nat}
variable {length : Nat} {block : Nat → Nat → Cell} {rest : Nat → Cell}
variable (measures : RingMeasures process layout displ cnt length)
variable (inComm : process.rank < layout.count)

include measures inComm

theorem yields_ringLoop
    {more steps : Nat}
    (within : steps + more + 1 ≤ layout.count)
    {buffer : List Cell}
    (here : Knows length (layout.fill block rest)
      (Passed layout process.rank steps) buffer) :
    (process.ringLoop displ cnt more
        (behind layout.count process.rank steps)
        (behind layout.count process.rank (steps + 1)) buffer).Yields
      (opsOf (ringRound layout block process.rank) (range' steps more))
      (Knows length (layout.fill block rest) (Passed layout process.rank (steps + more))) := by
  induction more generalizing steps buffer with
  | zero => exact Prog.yields_pure here
  | succ more ih =>
    have size := measures.commSize_eq
    have mine := @behind_lt layout.count process.rank steps inComm
    have other := @behind_lt layout.count process.rank (steps + 1) inComm
    have left : (process.commSize + process.rank - 1) % process.commSize =
        behind layout.count process.rank 1 := by
      rw [size, add_comm]
      rfl
    have right : (process.rank + 1) % process.commSize = ahead layout.count process.rank 1 := by
      rw [size]
      rfl
    have next : (process.commSize +
        behind layout.count process.rank (steps + 1) - 1) % process.commSize =
        behind layout.count process.rank (steps + 1 + 1) := by
      rw [size, add_comm layout.count, ← @behind_behind _ _ (steps + 1) 1 inComm (by omega)]
      rfl
    have source : behind layout.count
        (behind layout.count process.rank 1) steps =
          behind layout.count process.rank (steps + 1) := by
      rw [behind_behind inComm (by omega), add_comm]
    have ops : (ringRound layout block process.rank steps).ops = _ := ops_exchangeRound inComm
    have loaded : loadAny buffer
        (displ (behind layout.count process.rank steps) * process.typeSize)
        (cnt (behind layout.count process.rank steps) * process.typeSize) =
        some (ownData layout block (behind layout.count process.rank steps)) := by
      rw [measures.displ_eq _ mine, measures.cnt_eq _ mine, ownData,
        ← Layout.slice_fill mine block rest]
      apply here.loadAny (measures.fits _ mine)
      intro index covers
      exact Or.inr ⟨steps, le_rfl, covers⟩
    obtain ⟨written, stored, knows⟩ := @Knows.storeAny _ _ _ _ _ here
      _ _ (measures.fits _ other)
    rw [Layout.slice_fill other block rest, ← measures.displ_eq _ other] at stored
    have accepted : (ownData layout block
        (behind layout.count process.rank (steps + 1))).length ≤
          cnt (behind layout.count process.rank (steps + 1)) * process.typeSize := by
      rw [ownData, length_tabulate, measures.cnt_eq _ other]
    rw [Process.ringLoop, left, right, next, range'_succ, opsOf_cons, ops,
      source, show steps + (more + 1) = steps + 1 + more by omega]
    refine (Process.ends_sendElements loaded).bind_yields
      ((Process.ends_recvElements accepted stored).bind_yields ?_)
    apply ih (by omega)
    apply knows.mono
    rintro index - (outside | ⟨earlier, bound, covers⟩)
    · exact Or.inl (Or.inl outside)
    · rcases lt_or_ge steps earlier with last | before
      · obtain rfl : earlier = steps + 1 := by omega
        exact Or.inr covers
      · exact Or.inl (Or.inr ⟨earlier, before, covers⟩)

/-- The whole ring, from the process's own block on. -/
theorem yields_ring
    {buffer : List Cell}
    (here : Knows length (layout.fill block rest)
      (fun index => (∀ number < layout.count, ¬ layout.Covers number index) ∨
        layout.Covers process.rank index) buffer) :
    (process.ringLoop displ cnt (process.commSize - 1) process.rank
        ((process.commSize + process.rank - 1) % process.commSize) buffer).Yields
      (opsOf (ringRound layout block process.rank) (List.range (layout.count - 1)))
      (· = tabulate length (layout.fill block rest)) := by
  have size := measures.commSize_eq
  have left : (process.commSize + process.rank - 1) % process.commSize =
      behind layout.count process.rank (0 + 1) := by
    rw [size, add_comm]
    rfl
  have loop := yields_ringLoop measures inComm
    (show 0 + (layout.count - 1) + 1 ≤ layout.count by omega) (here.mono (by
      rintro index - (outside | ⟨earlier, bound, covers⟩)
      · exact Or.inl outside
      · rw [Nat.le_zero.mp bound, behind_zero inComm] at covers
        exact Or.inr covers))
  rw [behind_zero inComm] at loop
  rw [left, size, range_eq_range']
  apply loop.mono
  intro buffer knows
  apply knows.eq_tabulate
  intro index _
  rw [zero_add]
  exact passed_all inComm index

end

end Mpich.Coll.Allgather

/-!
## Blocks at their places

What the processes of one allgather agree on, what their memory holds, and the
copies of blocks from and to the receive buffers.
-/

namespace Mpich.Coll.Allgather

open MessagePassing List Option Buffer

/-- What the calls of all ranks have in common. The counts, displacements and
types may differ from rank to rank, but they describe the same amounts of data,
and places for these in the receive buffer that do not overlap. Data is
sent from the receive buffer if a rank gathers in place. -/
structure Shape where
  commSize : Nat
  /-- The amount of data of each rank. -/
  bytes : Nat → Nat
  inPlace : Nat → Bool
  sendcount : Nat → Nat
  sendtypeSize : Nat → Nat
  recvcounts : Nat → Nat → Nat
  displs : Nat → Nat → Nat
  recvtypeSize : Nat → Nat
  /-- The length of each receive buffer. -/
  recvLength : Nat → Nat
  send_eq : ∀ rank, inPlace rank = false → sendcount rank * sendtypeSize rank = bytes rank
  recv_eq : ∀ rank, ∀ number < commSize, recvcounts rank number * recvtypeSize rank = bytes number
  disjoint : ∀ rank first second index, first < commSize → second < commSize →
    InRange (displs rank first * recvtypeSize rank) (bytes first) index →
    InRange (displs rank second * recvtypeSize rank) (bytes second) index → first = second
  fits : ∀ rank, ∀ number < commSize, bytes number ≠ 0 →
    displs rank number * recvtypeSize rank + bytes number ≤ recvLength rank

/-- The cells of the send and receive buffers of all ranks, and those that come
from nowhere. -/
structure Contents (Cell : Type) where
  input : Nat → Nat → Cell
  output : Nat → Nat → Cell
  garbage : Nat → Nat → Cell

namespace Shape

variable {Cell : Type} (shape : Shape) (contents : Contents Cell)

/-- The places of the blocks in the receive buffer of a rank. -/
def layout (rank : Nat) : Layout where
  count := shape.commSize
  displ := fun number => shape.displs rank number * shape.recvtypeSize rank
  size := shape.bytes
  disjoint := shape.disjoint rank

/-- The data of a rank. -/
def block (rank offset : Nat) : Cell :=
  if shape.inPlace rank then
    contents.output rank (shape.displs rank rank * shape.recvtypeSize rank + offset)
  else contents.input rank offset

/-- The receive buffer of a rank before the call. -/
def before (rank : Nat) : List Cell :=
  tabulate (shape.recvLength rank) (contents.output rank)

/-- The receive buffer of a rank with all data in it. -/
def gathered (rank : Nat) : List Cell :=
  tabulate (shape.recvLength rank)
    ((shape.layout rank).fill (shape.block contents) (contents.output rank))

/-- The call of `MPIR_Allgatherv` of a rank. -/
def callV (rank : Nat) : CallV Cell where
  commSize := shape.commSize
  rank := rank
  inPlace := shape.inPlace rank
  sendbuf := tabulate (shape.bytes rank) (contents.input rank)
  sendcount := shape.sendcount rank
  sendtypeSize := shape.sendtypeSize rank
  recvbuf := shape.before contents rank
  recvcounts := shape.recvcounts rank
  displs := shape.displs rank
  recvtypeSize := shape.recvtypeSize rank
  garbage := contents.garbage rank

/-- A receive buffer has the data of all ranks at its places, and is otherwise
as it was before. -/
def Gathered (rank : Nat) (after : List Cell) : Prop :=
  after.length = shape.recvLength rank ∧
  (∀ number < shape.commSize, ∀ offset < shape.bytes number,
    after[shape.displs rank number * shape.recvtypeSize rank + offset]? =
      some (shape.block contents number offset)) ∧
  ∀ index, (∀ number < shape.commSize, ¬ (shape.layout rank).Covers number index) →
    after[index]? = (shape.before contents rank)[index]?

variable {shape contents}

theorem gathered_spec (rank : Nat) :
    shape.Gathered contents rank (shape.gathered contents rank) := by
  refine ⟨length_tabulate _ _, ?_, ?_⟩
  · intro number inComm offset inside
    have within := shape.fits rank number inComm (by omega)
    rw [gathered, getElem?_tabulate, if_pos (by omega)]
    exact congrArg some (@Layout.fill_add Cell (shape.layout rank) number offset
      inComm inside (shape.block contents) (contents.output rank))
  · intro index outside
    rw [gathered, before, getElem?_tabulate, getElem?_tabulate, Layout.fill_of_not_covers outside]

/-- Before the call, a receive buffer is as it should be outside the blocks, and
has a process's own data if this gathers in place. -/
theorem knows_before (rank : Nat) :
    Knows (shape.recvLength rank)
      ((shape.layout rank).fill (shape.block contents) (contents.output rank))
      (fun index =>
        (∀ number < shape.commSize, ¬ (shape.layout rank).Covers number index) ∨
          shape.inPlace rank = true ∧ rank < shape.commSize ∧ (shape.layout rank).Covers rank index)
      (shape.before contents rank) := by
  apply knows_tabulate
  rintro index - (outside | ⟨inPlace, inComm, covers⟩)
  · exact (Layout.fill_of_not_covers outside _ _).symm
  · rw [@Layout.fill_of_covers Cell (shape.layout rank) rank index inComm covers,
      block, if_pos inPlace]
    exact congrArg _ (Nat.add_sub_cancel' covers.1).symm

/-- The copy of a process's own data. -/
theorem copyOwn_eq
    {rank : Nat}
    (inComm : rank < shape.commSize)
    (dst : List Cell)
    (element : Nat) :
    (shape.callV contents rank).copyOwn dst element =
      storeAny dst (element * shape.recvtypeSize rank)
        (ownData (shape.layout rank) (shape.block contents) rank) := by
  have size := shape.recv_eq rank rank inComm
  unfold CallV.copyOwn copyAny callV
  by_cases inPlace : shape.inPlace rank = true
  · have knows := @knows_tabulate Cell (shape.recvLength rank)
      (contents.output rank) (fun _ => True) _ fun _ _ _ => rfl
    simp only [inPlace, if_true, le_refl]
    rw [size, before, knows.loadAny (shape.fits rank rank inComm) fun _ _ => trivial, bind_some]
    apply congrArg
    apply tabulate_congr
    intro offset _
    rw [block, if_pos inPlace]
  · have knows := @knows_tabulate Cell (shape.bytes rank)
      (contents.input rank) (fun _ => True) _ fun _ _ _ => rfl
    have sent := shape.send_eq rank (Bool.eq_false_of_not_eq_true inPlace)
    simp only [inPlace, sent, size, le_refl, if_true, if_false, zero_mul, Bool.false_eq_true]
    rw [knows.loadAny (fun _ => (zero_add _).le) fun _ _ => trivial, bind_some]
    apply congrArg
    apply tabulate_congr
    intro offset _
    rw [block, if_neg inPlace, zero_add]

/-- A process's own data, where it should be. -/
theorem knows_copyOwn
    {rank length offset element : Nat} {goal : Nat → Cell} {known : Nat → Prop}
    {buffer : List Cell}
    (inComm : rank < shape.commSize)
    (here : Knows length goal known buffer)
    (start : element * shape.recvtypeSize rank = offset)
    (within : shape.bytes rank ≠ 0 → offset + shape.bytes rank ≤ length)
    (intended : slice goal offset (shape.bytes rank) =
      ownData (shape.layout rank) (shape.block contents) rank) :
    ∃ written, (shape.callV contents rank).copyOwn buffer element = some written ∧ Knows length goal
        (fun index => known index ∨ InRange offset (shape.bytes rank) index) written := by
  rw [copyOwn_eq inComm, ← intended, start]
  exact here.storeAny within

variable (shape) in
/-- What is as it should be in the receive buffer of a rank when the first blocks
have been copied: what is outside all blocks, these blocks, and the rank's own
if it is skipped. -/
def Placed
    (rank : Nat)
    (skipsOwn : Bool)
    (order : Nat → Nat)
    (copied index : Nat) : Prop :=
  (∀ number < shape.commSize, ¬ (shape.layout rank).Covers number index) ∨
    (skipsOwn = true ∧ (shape.layout rank).Covers rank index) ∨
    ∃ earlier < copied, (shape.layout rank).Covers (order earlier) index

variable (shape contents) in
/-- A buffer with the data of the ranks in some order, one behind the other. -/
def inOrder (order : Nat → Nat) (total : Nat) (rest : Nat → Cell) : List Cell :=
  tabulate total
    ((Layout.consecutive shape.commSize fun number => shape.bytes (order number)).fill
      (fun number => shape.block contents (order number)) rest)

section

variable {rank total : Nat} {order : Nat → Nat} {rest : Nat → Cell}
variable (ordered : ∀ number < shape.commSize, order number < shape.commSize)
variable (room :
  prefixSum (fun number => shape.bytes (order number)) shape.commSize ≤ total)
variable (skipsOwn : Bool)

include ordered room

theorem copyBlock_spec
    {copied : Nat}
    (bound : copied < shape.commSize)
    {buffer : List Cell}
    (here : Knows (shape.recvLength rank)
      ((shape.layout rank).fill (shape.block contents) (contents.output rank))
      (shape.Placed rank skipsOwn order copied) buffer) :
    ∃ written, (if skipsOwn = true ∧ order copied = rank then some buffer
      else
        copyAny (shape.inOrder contents order total rest)
          (prefixSum (fun number => shape.recvcounts rank (order number)) copied)
          (shape.recvcounts rank (order copied)) (shape.recvtypeSize rank)
          buffer (shape.displs rank (order copied))
          (shape.recvcounts rank (order copied)) (shape.recvtypeSize rank)) =
        some written ∧
      Knows (shape.recvLength rank)
        ((shape.layout rank).fill (shape.block contents) (contents.output rank))
        (shape.Placed rank skipsOwn order (copied + 1)) written := by
  have inComm := ordered copied bound
  by_cases skips : skipsOwn = true ∧ order copied = rank
  · rw [if_pos skips]
    refine ⟨buffer, rfl, here.mono ?_⟩
    rintro index - (outside | own | ⟨earlier, less, covers⟩)
    · exact Or.inl outside
    · exact Or.inr (Or.inl own)
    · rcases Nat.lt_succ_iff_lt_or_eq.mp less with before | rfl
      · exact Or.inr (Or.inr ⟨earlier, before, covers⟩)
      · rw [skips.2] at covers
        exact Or.inr (Or.inl ⟨skips.1, covers⟩)
  · have position : prefixSum
        (fun number => shape.recvcounts rank (order number)) copied * shape.recvtypeSize rank =
        prefixSum (fun number => shape.bytes (order number)) copied := by
      rw [prefixSum_mul]
      apply prefixSum_congr
      intro number less
      exact shape.recv_eq rank _ (ordered number (by omega))
    have inside : prefixSum (fun number => shape.bytes (order number)) copied +
        shape.bytes (order copied) ≤ total := by
      rw [← @prefixSum_succ (fun number => shape.bytes (order number)) copied]
      exact (prefixSum_mono bound).trans room
    have knows := @knows_tabulate Cell total
      ((Layout.consecutive shape.commSize
        fun number => shape.bytes (order number)).fill
          (fun number => shape.block contents (order number)) rest)
      (fun _ => True) _ fun _ _ _ => rfl
    have loaded := knows.loadAny (fun _ => inside) fun _ _ => trivial
    have slice := @Layout.slice_fill Cell (Layout.consecutive shape.commSize
      fun number => shape.bytes (order number)) copied bound
      (fun number => shape.block contents (order number)) rest
    obtain ⟨written, stored, after⟩ := here.storeAny (shape.fits rank (order copied) inComm)
    have target := @Layout.slice_fill Cell (shape.layout rank) (order copied)
      inComm (shape.block contents) (contents.output rank)
    refine ⟨written, ?_, after.mono ?_⟩
    · rw [if_neg skips, copyAny, if_pos le_rfl, position, shape.recv_eq rank _ inComm]
      refine (congrArg (Option.bind · _) (loaded.trans (congrArg some slice))).trans ?_
      exact (congrArg _ target.symm).trans stored
    · rintro index - (outside | own | ⟨earlier, less, covers⟩)
      · exact Or.inl (Or.inl outside)
      · exact Or.inl (Or.inr (Or.inl own))
      · rcases Nat.lt_succ_iff_lt_or_eq.mp less with before | rfl
        · exact Or.inl (Or.inr (Or.inr ⟨earlier, before, covers⟩))
        · exact Or.inr covers

theorem copyBlocks_spec
    {more copied : Nat}
    (within : copied + more ≤ shape.commSize)
    {buffer : List Cell}
    (here : Knows (shape.recvLength rank)
      ((shape.layout rank).fill (shape.block contents) (contents.output rank))
      (shape.Placed rank skipsOwn order copied) buffer) :
    ∃ written, (shape.callV contents rank).copyBlocks skipsOwn
          (shape.inOrder contents order total rest)
          ((range' copied more).map order)
          (prefixSum (fun number => shape.recvcounts rank (order number)) copied)
          buffer = some written ∧
      Knows (shape.recvLength rank)
        ((shape.layout rank).fill (shape.block contents) (contents.output rank))
        (shape.Placed rank skipsOwn order (copied + more)) written := by
  induction more generalizing copied buffer with
  | zero => exact ⟨buffer, rfl, here⟩
  | succ more ih =>
    obtain ⟨next, copy, placed⟩ := @copyBlock_spec Cell shape contents rank total
      order rest ordered room skipsOwn copied (by omega) buffer here
    obtain ⟨written, copies, after⟩ := ih (by omega) placed
    refine ⟨written, ?_, ?_⟩
    · rw [prefixSum_succ] at copies
      exact (congrArg (Option.bind · _) copy).trans copies
    · rw [show copied + (more + 1) = copied + 1 + more by omega]
      exact after

/-- Copies of all blocks complete a receive buffer. -/
theorem copyBlocks_all
    (inComm : rank < shape.commSize)
    (onto : ∀ number < shape.commSize, ∃ earlier < shape.commSize, order earlier = number)
    (skips : skipsOwn = true → shape.inPlace rank = true) :
    (shape.callV contents rank).copyBlocks skipsOwn
        (shape.inOrder contents order total rest)
        ((List.range shape.commSize).map order) 0 (shape.before contents rank) =
      some (shape.gathered contents rank) := by
  have start : Knows (shape.recvLength rank)
      ((shape.layout rank).fill (shape.block contents) (contents.output rank))
      (shape.Placed rank skipsOwn order 0) (shape.before contents rank) := by
    apply (knows_before rank).mono
    rintro index - (outside | ⟨skipped, covers⟩ | ⟨_, none, -⟩)
    · exact Or.inl outside
    · exact Or.inr ⟨skips skipped, inComm, covers⟩
    · exact absurd none (Nat.not_lt_zero _)
  obtain ⟨written, copies, knows⟩ := @copyBlocks_spec Cell shape contents rank total
    order rest ordered room skipsOwn shape.commSize 0 (zero_add _).le _ start
  rw [range_eq_range']
  refine copies.trans (congrArg some ?_)
  apply knows.eq_tabulate
  intro index _
  by_cases outside : ∀ number < shape.commSize, ¬ (shape.layout rank).Covers number index
  · exact Or.inl outside
  · push Not at outside
    obtain ⟨number, bound, covers⟩ := outside
    obtain ⟨earlier, before, rfl⟩ := onto number bound
    exact Or.inr (Or.inr ⟨earlier, by omega, covers⟩)

end

end Shape

end Mpich.Coll.Allgather
