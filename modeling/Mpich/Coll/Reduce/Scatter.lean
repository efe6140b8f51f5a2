import Mpich.Coll.Reduce.Tree

/-!
# The runs of the reduce-scatter and of the gather

What a process has after the pairs have been folded, after the reduce-scatter,
when the root has got its role, and after each round of the gather.
-/

namespace Mpich.Coll.Reduce

open MessagePassing Masks Halving List Buffer

variable {Cell : Type}

namespace Shape

variable {shape : Shape} {check : LengthCheck} {uop : Cell → Cell → Cell}
variable {contents : Contents Cell}

section

variable (rank : Nat)

theorem call_pof2 :
    (shape.call check uop contents rank).pof2 = 2 ^ shape.folding.levels :=
  @Folding.nearestPof2_eq shape.folding nonempty

theorem call_rem :
    (shape.call check uop contents rank).rem = shape.folding.extra := by
  rw [Call.rem, call_pof2]
  rfl

theorem call_dst :
    (shape.call check uop contents rank).dst = shape.folding.oldRank := by
  funext newdst
  rw [Call.dst, call_rem]
  rfl

theorem call_core {newrank other : Nat} (same : shape.folding.newRank other = newrank) :
    (shape.call check uop contents rank).core newrank =
      Core.ofFolding shape.folding check shape.count uop other := by
  unfold Call.core Core.ofFolding
  rw [call_pof2, call_dst, same]
  rfl

theorem call_rootExcluded :
    (shape.call check uop contents rank).RootExcluded ↔ shape.Excluded := by
  unfold Call.RootExcluded
  rw [call_rem]
  exact Iff.rfl

theorem call_newroot :
    (shape.call check uop contents rank).newroot = shape.newroot := by
  unfold Call.newroot newroot role Excluded Folding.newRank
  rw [call_rem]
  change (if shape.root < 2 * shape.folding.extra then
    if shape.root % 2 ≠ 0 then 0 else shape.root / 2
    else shape.root - shape.folding.extra) = _
  by_cases folded : shape.root < 2 * shape.folding.extra
  · by_cases odd : shape.root % 2 ≠ 0
    · rw [if_pos folded, if_pos odd, if_pos ⟨rfl, folded, odd⟩]
    · rw [if_pos folded, if_neg odd, if_neg fun all => odd all.2.2, if_pos folded]
  · rw [if_neg folded, if_neg fun all => folded all.2.1, if_neg folded]

theorem call_gatherDst (newdst : Nat) :
    (shape.call check uop contents rank).gatherDst newdst = shape.player newdst := by
  unfold Call.gatherDst player
  simp only [call_rootExcluded, call_dst]
  rfl

end

section

variable {rank : Nat}

/-- The elements of an active rank when the pairs have been folded. -/
theorem yields_foldPairs (active : shape.folding.Active rank) :
    ((shape.call check uop contents rank).foldPairs
        { recvbuf := tabulate shape.count (contents.input rank)
          tmpBuf := tabulate shape.count (contents.garbage rank) }).Yields
      (shape.folding.pairRound true
        (fun rank => tabulate shape.count (contents.input rank)) rank).ops
      (fun out => out.1 = some (shape.folding.newRank rank) ∧ ∃ cell, out.2 =
          { recvbuf := tabulate shape.count (shape.folding.foldedAt uop
              contents.input (shape.folding.newRank rank))
            tmpBuf := tabulate shape.count cell }) := by
  have size : (shape.call check uop contents rank).rank = rank := rfl
  unfold Call.foldPairs
  rw [call_rem, size]
  by_cases folded : rank < 2 * shape.folding.extra
  · have even : rank % 2 = 0 := active.2 folded
    have receives : rank % 2 ≠ true.toNat := by
      rw [even]
      decide
    have pair : Folding.pairRank rank = rank + 1 := if_pos even
    have newRank : shape.folding.newRank rank = rank / 2 := if_pos folded
    obtain ⟨cell, combined⟩ := @combine_eq Cell shape check uop contents rank
      (contents.input rank) (contents.input (rank + 1)) True _
    have values : shape.folding.foldedAt uop contents.input (rank / 2) =
        fun index => uop (contents.input (rank + 1) index) (contents.input rank index) := by
      funext index
      rw [← newRank, ← pair]
      exact Folding.foldedAt_newRank_of_lt active folded index
    rw [if_pos folded, if_neg (not_not.mpr even),
      Folding.ops_pairRound_receiver folded receives, pair, newRank, values]
    refine (ends_recvTmp _ _).bind_yields ?_
    rw [combined]
    exact Prog.yields_pure ⟨rfl, cell, rfl⟩
  · have newRank : shape.folding.newRank rank = rank - shape.folding.extra :=
      if_neg folded
    have values : shape.folding.foldedAt uop contents.input
        (rank - shape.folding.extra) = contents.input rank := by
      funext index
      rw [← newRank]
      exact Folding.foldedAt_newRank_of_not active folded index
    rw [if_neg folded, Folding.ops_pairRound_of_not folded, newRank, values]
    exact Prog.yields_pure ⟨rfl, _, rfl⟩

/-- A rank that does not take part hands its elements over. -/
theorem ends_foldPairs
    (inComm : rank < shape.commSize)
    (passive : ¬ shape.folding.Active rank) :
    ((shape.call check uop contents rank).foldPairs
        { recvbuf := tabulate shape.count (contents.input rank)
          tmpBuf := tabulate shape.count (contents.garbage rank) }).Ends
      (shape.folding.pairRound true
        (fun rank => tabulate shape.count (contents.input rank)) rank).ops
      (none,
        { recvbuf := tabulate shape.count (contents.input rank)
          tmpBuf := tabulate shape.count (contents.garbage rank) }) := by
  obtain ⟨folded, odd⟩ := (passive_iff inComm).mp passive
  have size : (shape.call check uop contents rank).rank = rank := rfl
  have pair : Folding.pairRank rank = rank - 1 := if_neg odd
  have sends : rank % 2 = true.toNat := Nat.mod_two_ne_zero.mp odd
  unfold Call.foldPairs
  rw [call_rem, size, if_pos folded, if_pos odd, Folding.ops_pairRound_sender folded sends, pair]
  exact (ends_sendAll _).bind (Prog.ends_done _)

end

variable (shape uop contents) in
/-- The results that are gathered. -/
def scattered : Nat → Cell :=
  result shape.folding.levels shape.count uop (shape.folding.foldedAt uop contents.input)

variable (shape) in
/-- A process has the last block of a role. -/
structure Ready (goal : Nat → Cell) (newrank : Nat) (progress : Progress Cell) :
    Prop where
  newrank_eq : progress.newrank = some newrank
  sendIdx : progress.sendIdx = Butterfly.slot shape.folding.levels shape.folding.levels newrank
  lastIdx : progress.lastIdx = gatherEnd shape.folding.levels shape.folding.levels newrank
  recvbuf : Knows shape.count goal
    (InRange
      (windowStart shape.folding.levels shape.count shape.folding.levels newrank)
      (windowSize shape.folding.levels shape.count shape.folding.levels newrank))
    progress.temps.recvbuf

theorem levels_le : shape.folding.levels ≤ shape.commSize :=
  Nat.log_le_self 2 shape.commSize

theorem yields_reduceScatter
    {rank : Nat}
    (active : shape.folding.Active rank)
    (cell : Nat → Cell) :
    ((shape.call check uop contents rank).reduceScatter
        (some (shape.folding.newRank rank))
        { recvbuf := tabulate shape.count (shape.folding.foldedAt uop
            contents.input (shape.folding.newRank rank))
          tmpBuf := tabulate shape.count cell }).Yields
      (opsOf (shape.folding.partnerRound (halvingMsg shape.folding.levels
          shape.count uop (shape.folding.foldedAt uop contents.input)) rank)
        (List.range shape.folding.levels))
      (shape.Ready (shape.scattered uop contents) (shape.folding.newRank rank)) := by
  simp only [Call.reduceScatter]
  rw [call_core rank rfl, call_pof2, ← append_nil (opsOf _ _)]
  apply (yields_halving check active levels_le cell).bind
  rintro ⟨mask, sendIdx, lastIdx, temps⟩ ⟨rfl, rfl, rfl, knows⟩
  exact Prog.yields_pure ⟨rfl, rfl, rfl, knows⟩

theorem slot_zero (levels round : Nat) :
    Butterfly.slot levels round 0 = 0 := by
  induction round with
  | zero => rfl
  | succ round ih =>
    have clear : ¬ BitSet 0 round := by
      unfold BitSet
      rw [Nat.zero_div]
      decide
    rw [Butterfly.slot, ih, if_neg clear]

variable (shape) in
/-- What new rank 0 sends to a root that takes on its role. -/
def handMsg (goal : Nat → Cell) : List Cell :=
  slice goal
    (windowStart shape.folding.levels shape.count shape.folding.levels 0)
    (windowSize shape.folding.levels shape.count shape.folding.levels 0)

section

variable {rank : Nat} {goal : Nat → Cell} {progress : Progress Cell}

theorem windowStart_zero :
    windowStart shape.folding.levels shape.count shape.folding.levels 0 = 0 := by
  rw [windowStart, slot_zero, prefixSum_zero]

theorem call_cnts_zero :
    ((shape.call check uop contents rank).core 0).cnts 0 =
      windowSize shape.folding.levels shape.count shape.folding.levels 0 := by
  rw [@call_core Cell shape check uop contents rank 0 0 newRank_zero, windowSize,
    slot_zero, Nat.sub_self, pow_zero, span_one]
  rfl

/-- Where the root is excluded, there are several new ranks. -/
theorem Excluded.levels_pos (excluded : shape.Excluded) :
    0 < shape.folding.levels := by
  by_contra none
  have few := @Folding.extra_lt shape.folding
  have folded := excluded.1
  rw [show shape.folding.levels = 0 by omega, pow_zero] at few
  omega

/-- The excluded root receives the block of new rank 0. -/
theorem yields_handOver_root
    (excluded : shape.Excluded)
    {cell : Nat → Cell}
    (own : progress.temps.recvbuf = tabulate shape.count cell) :
    ((shape.call check uop contents shape.root).handOver progress).Yields
      [.recv 0 (shape.handMsg goal)] (shape.Ready goal 0) := by
  have isRoot : (shape.call check uop contents shape.root).rank =
    (shape.call check uop contents shape.root).root := rfl
  have demands : (shape.call check uop contents shape.root).check = check := rfl
  have inside := @window_le shape.folding.levels shape.count shape.folding.levels 0 le_rfl
  have empty := @knows_tabulate Cell shape.count goal (fun _ => False) cell
    fun _ _ none => none.elim
  obtain ⟨written, stored, knows⟩ := @Knows.store Cell _ _ _ _ empty _ _ inside
  have received := @LengthCheck.ends_recv Cell (shape.handMsg goal) check 0 _ (length_slice _ _ _)
  have last : 2 = gatherEnd shape.folding.levels shape.folding.levels 0 := by
    rw [gatherEnd, if_pos ⟨rfl, excluded.levels_pos⟩, slot_zero]
  unfold Call.handOver
  rw [if_pos ((call_rootExcluded _).mpr excluded), if_pos isRoot, demands,
    call_cnts_zero, own, ← append_nil [Op.recv _ _]]
  refine received.bind_yields ?_
  rw [windowStart_zero] at stored
  rw [handMsg, windowStart_zero, stored]
  exact Prog.yields_pure ⟨rfl, (slot_zero _ _).symm, last,
    knows.mono fun _ _ covered => .inr covered⟩

/-- The rank 0 hands its block to an excluded root. -/
theorem yields_handOver_zero
    (excluded : shape.Excluded)
    (ready : shape.Ready goal 0 progress) :
    ((shape.call check uop contents 0).handOver progress).Yields
      [.send shape.root (shape.handMsg goal)] (·.newrank = none) := by
  have notRoot : ¬ (shape.call check uop contents 0).rank =
      (shape.call check uop contents 0).root := by
    intro same
    have isRoot : 0 = shape.root := same
    exact excluded.2 (by rw [← isRoot])
  have loaded := ready.recvbuf.load (window_le le_rfl) fun _ covers => covers
  have message : load progress.temps.recvbuf 0
      (windowSize shape.folding.levels shape.count shape.folding.levels 0) =
        some (shape.handMsg goal) := by
    rw [windowStart_zero] at loaded
    rw [handMsg, windowStart_zero, loaded]
  unfold Call.handOver
  rw [if_pos ((call_rootExcluded _).mpr excluded), if_neg notRoot,
    if_pos ready.newrank_eq, call_cnts_zero, message, root]
  exact (ends_mpicSend _ _).bind_yields (Prog.yields_pure rfl)

/-- All others go on as they are. -/
theorem yields_handOver_other
    (notRoot : shape.Excluded → rank ≠ shape.root)
    (notFirst : shape.Excluded → progress.newrank ≠ some 0) :
    ((shape.call check uop contents rank).handOver progress).Yields [] (· = progress) := by
  unfold Call.handOver
  by_cases excluded : shape.Excluded
  · have different : ¬ (shape.call check uop contents rank).rank =
        (shape.call check uop contents rank).root := notRoot excluded
    rw [if_pos ((call_rootExcluded _).mpr excluded), if_neg different, if_neg (notFirst excluded)]
    exact Prog.yields_pure rfl
  · rw [if_neg (mt (call_rootExcluded _).mp excluded)]
    exact Prog.yields_pure rfl

end

theorem raiseMask_eq
    {levels round : Nat}
    (within : round ≤ levels)
    {fuel : Nat}
    (enough : levels ≤ round + fuel) :
    raiseMask (2 ^ levels) fuel (2 ^ round) round = (2 ^ levels, levels) := by
  induction fuel generalizing round with
  | zero =>
    obtain rfl : round = levels := by omega
    rfl
  | succ fuel ih =>
    rw [raiseMask]
    by_cases more : round < levels
    · rw [if_pos (Nat.pow_lt_pow_right one_lt_two more), two_pow_shiftLeft]
      exact ih more (by omega)
    · obtain rfl : round = levels := by omega
      rw [if_neg (lt_irrefl _)]

section

variable {rank other : Nat} {goal : Nat → Cell}
variable (gathers : shape.Gathers rank)
variable (same : shape.role rank = shape.folding.newRank other)

include gathers same

/-- The loop of the gather. -/
theorem yields_gatherLoop
    {round : Nat}
    (within : round ≤ shape.folding.levels)
    (near : shape.Near round (shape.role rank))
    {fuel : Nat}
    (enough : round ≤ fuel)
    {recvbuf : List Cell}
    (here : Knows shape.count goal
      (InRange
        (windowStart shape.folding.levels shape.count round (shape.folding.newRank other))
        (windowSize shape.folding.levels shape.count round
          (shape.folding.newRank other))) recvbuf) :
    ((shape.call check uop contents rank).gatherLoop
        (shape.folding.newRank other) fuel (2 ^ round >>> 1) (round - 1)
        (Butterfly.slot shape.folding.levels round (shape.folding.newRank other))
        (gatherEnd shape.folding.levels round (shape.folding.newRank other))
        recvbuf).Yields
      (opsOf (shape.gatherRound (gatherMsg shape.folding.levels shape.count goal) rank)
        (List.range round).reverse)
      (fun recvbuf => rank = shape.root → recvbuf = tabulate shape.count goal) := by
  induction round generalizing fuel recvbuf with
  | zero =>
    have all := eq_tabulate_of_window here
    cases fuel with
    | zero => exact Prog.yields_pure fun _ => all
    | succ fuel => exact Prog.yields_pure fun _ => all
  | succ round ih =>
    obtain ⟨fuel, rfl⟩ : ∃ less, fuel = less + 1 := ⟨fuel - 1, by omega⟩
    have test : ((shape.folding.newRank other ^^^ 2 ^ round) >>> round) <<< round =
        ((shape.call check uop contents rank).newroot >>> round) <<< round ↔
          ¬ shape.Near round (shape.role rank) := by
      rw [← near_partner_iff near, same, call_newroot]
      change treeRoot _ round = treeRoot _ round ↔ _
      rw [treeRoot_eq, treeRoot_eq]
      exact Iff.rfl
    have core := @call_core Cell shape check uop contents rank _ other rfl
    rw [Call.gatherLoop, two_pow_shiftRight, if_pos (Nat.two_pow_pos round),
      Nat.add_sub_cancel, range_succ, reverse_append,
      reverse_singleton, singleton_append, opsOf_cons]
    simp only [call_gatherDst, core, gatherTransfer_eq within]
    by_cases stays : shape.Near round (shape.role rank)
    · rw [if_neg fun sends => test.mp sends stays, ops_gatherRound_receiver gathers stays, same]
      refine (yields_recvGathered check within here _).bind ?_
      intro recvbuf knows
      rw [nextSendIdx_eq]
      exact ih (by omega) stays (by omega) knows
    · have notRoot : rank ≠ shape.root := by
        rintro rfl
        exact stays (near_newroot round)
      have later : opsOf (shape.gatherRound
          (gatherMsg shape.folding.levels shape.count goal) rank)
          (List.range round).reverse = [] := by
        apply opsOf_of_idle
        intro next member
        exact ops_gatherRound_of_away stays (mem_range.mp (mem_reverse.mp member))
      rw [if_pos (test.mpr stays), ops_gatherRound_sender gathers near stays, same, later]
      exact (ends_sendGathered check within here _).bind_yields
        (Prog.yields_pure fun isRoot => absurd isRoot notRoot)

end

/-- The gather of a process with a role. -/
theorem yields_gather
    {rank : Nat}
    (gathers : shape.Gathers rank)
    {goal : Nat → Cell} {progress : Progress Cell}
    (ready : shape.Ready goal (shape.role rank) progress) :
    ((shape.call check uop contents rank).gather progress).Yields
      (opsOf (shape.gatherRound (gatherMsg shape.folding.levels shape.count goal) rank)
        (List.range shape.folding.levels).reverse)
      (fun recvbuf => rank = shape.root → recvbuf = tabulate shape.count goal) := by
  obtain ⟨newrank, sendIdx, lastIdx, temps⟩ := progress
  obtain ⟨rfl, rfl, rfl, here⟩ := ready
  have other := @Folding.newRank_oldRank shape.folding (shape.role rank)
  have raised := @raiseMask_eq shape.folding.levels 0 (Nat.zero_le _) shape.commSize
    (levels_le.trans (zero_add _).ge)
  have size : (shape.call check uop contents rank).commSize = shape.commSize := rfl
  rw [← other] at here
  have loop := @yields_gatherLoop Cell shape check uop contents rank _ goal gathers
    other.symm _ le_rfl (near_levels (role_lt gathers.lt)) shape.commSize levels_le _
    here
  rw [other] at loop
  simp only [Call.gather]
  rw [call_pof2, size, ← pow_zero 2, raised]
  exact loop

/-- A process without a role is done. -/
theorem yields_gather_none
    {rank : Nat}
    (notGathers : ¬ shape.Gathers rank)
    {goal : Nat → Cell} {progress : Progress Cell}
    (none : progress.newrank = none) :
    ((shape.call check uop contents rank).gather progress).Yields
      (opsOf (shape.gatherRound (gatherMsg shape.folding.levels shape.count goal) rank)
        (List.range shape.folding.levels).reverse)
      (fun recvbuf => rank = shape.root → recvbuf = tabulate shape.count goal) := by
  have notRoot : rank ≠ shape.root := by
    rintro rfl
    exact notGathers gathers_root
  unfold Call.gather
  rw [none, opsOf_of_idle fun round _ => by
    rw [gatherRound_of_not notGathers, Round.ops_idle]]
  exact Prog.yields_pure fun isRoot => absurd isRoot notRoot

end Shape

end Mpich.Coll.Reduce
