import Mpich.Coll.Folding

/-!
# The reduce-scatter and the steps of the gather

In each step of the reduce-scatter a process keeps the slots of a butterfly that
halves. The elements of these slots hold the values of the butterfly.
-/

namespace Mpich.Coll.Halving

open MessagePassing Masks Butterfly Buffer

variable {Cell : Type}

namespace Core

/-- The loops of a rank that takes part. -/
def ofFolding
    (folding : Folding)
    (check : LengthCheck)
    (count : Nat)
    (uop : Cell → Cell → Cell)
    (rank : Nat) : Core Cell where
  check := check
  pof2 := 2 ^ folding.levels
  newrank := folding.newRank rank
  dst := folding.oldRank
  count := count
  uop := uop

end Core

/-- The sizes of the blocks. -/
def cnts (levels count i : Nat) : Nat :=
  if i < 2 ^ levels - 1 then count / 2 ^ levels
  else count - count / 2 ^ levels * (2 ^ levels - 1)

/-- All blocks make up all elements. -/
theorem prefixSum_cnts (levels count : Nat) :
    prefixSum (cnts levels count) (2 ^ levels) = count := by
  have positive := Nat.two_pow_pos levels
  have fewer : prefixSum (cnts levels count) (2 ^ levels - 1) =
      (2 ^ levels - 1) * (count / 2 ^ levels) := by
    rw [← prefixSum_const]
    apply prefixSum_congr
    intro i less
    exact if_pos less
  have within : count / 2 ^ levels * (2 ^ levels - 1) ≤ count :=
    (Nat.mul_le_mul_left _ (Nat.sub_le _ _)).trans (Nat.div_mul_le_self _ _)
  have last := @prefixSum_succ (cnts levels count) (2 ^ levels - 1)
  rw [Nat.sub_add_cancel positive, fewer, cnts, if_neg (lt_irrefl _), mul_comm] at last
  omega

/-- The position of the elements that a new rank has after some rounds. -/
def windowStart (levels count round newrank : Nat) : Nat :=
  prefixSum (cnts levels count) (slot levels round newrank)

/-- The number of these elements. -/
def windowSize (levels count round newrank : Nat) : Nat :=
  span (cnts levels count) (slot levels round newrank) (2 ^ (levels - round))

section

variable {levels count round newrank : Nat}

theorem window_le (within : round ≤ levels) :
    windowStart levels count round newrank + windowSize levels count round newrank ≤ count := by
  have inside := slot_add_le within newrank
  rw [windowStart, windowSize, prefixSum_add_span]
  exact (prefixSum_mono inside).trans (prefixSum_cnts levels count).le

/-- The windows of partners are the halves of a larger one. -/
theorem window_halves (within : round < levels) :
    (windowStart levels count (round + 1) newrank = windowStart levels count round newrank ∧
      windowStart levels count (round + 1) (newrank ^^^ 2 ^ round) =
        windowStart levels count round newrank + windowSize levels count (round + 1) newrank ∧
      windowSize levels count (round + 1) newrank +
          windowSize levels count (round + 1) (newrank ^^^ 2 ^ round) =
        windowSize levels count round newrank) ∨
    (windowStart levels count (round + 1) (newrank ^^^ 2 ^ round) =
        windowStart levels count round newrank ∧
      windowStart levels count (round + 1) newrank = windowStart levels count round newrank +
          windowSize levels count (round + 1) (newrank ^^^ 2 ^ round) ∧
      windowSize levels count (round + 1) (newrank ^^^ 2 ^ round) +
          windowSize levels count (round + 1) newrank =
        windowSize levels count round newrank) := by
  have double := two_pow_levels_sub within
  unfold windowStart windowSize
  rw [double, span_add]
  rcases @slot_halves levels round newrank with
    ⟨-, own, other⟩ | ⟨-, own, other⟩
  · rw [own, other, prefixSum_add_span]
    exact Or.inl ⟨rfl, rfl, rfl⟩
  · rw [own, other, prefixSum_add_span]
    exact Or.inr ⟨rfl, rfl, rfl⟩

end

section

variable {folding : Folding} {check : LengthCheck} {count rank : Nat}
variable {uop : Cell → Cell → Cell}

/-- Elements of some blocks. -/
theorem sumCnts_eq (first number : Nat) :
    (Core.ofFolding folding check count uop rank).sumCnts first (first + number) =
      span (cnts folding.levels count) first number := by
  have total := Finset.sum_range_add_sum_Ico (cnts folding.levels count)
    (Nat.le_add_right first number)
  unfold span prefixSum
  change ∑ i ∈ Finset.Ico first (first + number), cnts folding.levels count i = _
  omega

variable {round : Nat}

/-- Half of the slots of a round. -/
theorem half_eq
    (within : round < folding.levels) :
    2 ^ folding.levels / (2 ^ round * 2) = 2 ^ (folding.levels - (round + 1)) := by
  exact Nat.pow_div within two_pos

/-- The transfer of a round of the reduce-scatter. -/
def scatterTransfer (levels count round newrank : Nat) : Transfer where
  sendIdx := slot levels (round + 1) (newrank ^^^ 2 ^ round)
  sendCnt := windowSize levels count (round + 1) (newrank ^^^ 2 ^ round)
  recvIdx := slot levels (round + 1) newrank
  recvCnt := windowSize levels count (round + 1) newrank
  lastIdx := slot levels round newrank + 2 ^ (levels - round)

theorem halvingTransfer_eq
    (within : round < folding.levels) :
    (Core.ofFolding folding check count uop rank).halvingTransfer (2 ^ round)
        (slot folding.levels round (folding.newRank rank))
        (slot folding.levels round (folding.newRank rank))
        (slot folding.levels round (folding.newRank rank) + 2 ^ (folding.levels - round)) =
      scatterTransfer folding.levels count round (folding.newRank rank) := by
  have double := two_pow_levels_sub within
  have lower := lt_xor_mask_iff (folding.newRank rank) round
  have pof2 : (Core.ofFolding folding check count uop rank).pof2 = 2 ^ folding.levels := rfl
  have newrank : (Core.ofFolding folding check count uop rank).newrank = folding.newRank rank := rfl
  unfold Core.halvingTransfer scatterTransfer windowSize
  rw [double, ← add_assoc]
  simp only [newrank, pof2, half_eq within]
  rcases @slot_halves folding.levels round (folding.newRank rank) with
    ⟨clear, own, other⟩ | ⟨set, own, other⟩
  · rw [if_pos (lower.mpr clear), own, other]
    simp only [sumCnts_eq]
  · rw [if_neg (fun below => lower.mp below set), own, other]
    simp only [sumCnts_eq]

/-- The end of the blocks of a process before a step of the gather, which is not
adapted after the last step of the reduce-scatter. -/
def gatherEnd (levels round newrank : Nat) : Nat :=
  if round = levels ∧ 0 < levels then slot levels (round - 1) newrank + 2
  else slot levels round newrank + 2 ^ (levels - round)

/-- The transfer of a step of the gather. -/
def gatheringTransfer (levels count round newrank : Nat) : Transfer where
  sendIdx := slot levels (round + 1) newrank
  sendCnt := windowSize levels count (round + 1) newrank
  recvIdx := slot levels (round + 1) (newrank ^^^ 2 ^ round)
  recvCnt := windowSize levels count (round + 1) (newrank ^^^ 2 ^ round)
  lastIdx := gatherEnd levels round newrank

theorem gatherTransfer_eq
    (within : round < folding.levels) :
    (Core.ofFolding folding check count uop rank).gatherTransfer (2 ^ round)
        (slot folding.levels (round + 1) (folding.newRank rank))
        (gatherEnd folding.levels (round + 1) (folding.newRank rank)) =
      gatheringTransfer folding.levels count round (folding.newRank rank) := by
  have double := two_pow_levels_sub within
  have lower := lt_xor_mask_iff (folding.newRank rank) round
  have pof2 : (Core.ofFolding folding check count uop rank).pof2 = 2 ^ folding.levels := rfl
  have newrank : (Core.ofFolding folding check count uop rank).newrank = folding.newRank rank := rfl
  have last : 2 ^ round ≠ 2 ^ folding.levels / 2 ↔ round + 1 ≠ folding.levels := by
    have half := @Nat.pow_div 2 folding.levels 1 (by omega) two_pos
    rw [half, not_iff_not, Nat.pow_right_inj one_lt_two]
    omega
  have some : 0 < folding.levels := by omega
  unfold Core.gatherTransfer gatheringTransfer windowSize gatherEnd
  simp only [some, and_true]
  rw [if_neg (show round ≠ folding.levels by omega), Nat.add_sub_cancel, double, ← add_assoc]
  simp only [newrank, pof2, half_eq within, last]
  -- The end of the blocks, from which the others are told.
  have upper : (if round + 1 = folding.levels then
        slot folding.levels round (folding.newRank rank) + 2
      else slot folding.levels (round + 1) (folding.newRank rank) +
        2 ^ (folding.levels - (round + 1))) =
      if round + 1 = folding.levels then
        slot folding.levels round (folding.newRank rank) +
          2 ^ (folding.levels - (round + 1)) + 2 ^ (folding.levels - (round + 1))
      else slot folding.levels (round + 1) (folding.newRank rank) +
        2 ^ (folding.levels - (round + 1)) := by
    apply if_ctx_congr Iff.rfl _ fun _ => rfl
    rintro first
    rw [first, Nat.sub_self]
    rfl
  rw [upper]
  rcases @slot_halves folding.levels round (folding.newRank rank) with
    ⟨clear, own, other⟩ | ⟨set, own, other⟩
  · rw [if_pos (lower.mpr clear), own, other]
    by_cases first : round + 1 = folding.levels
    · simp only [if_pos first, if_neg (not_not.mpr first), sumCnts_eq]
    · simp only [if_neg first, if_pos first, sumCnts_eq]
  · rw [if_neg (fun below => lower.mp below set), own, other]
    simp only [ite_self, Nat.add_sub_cancel, sumCnts_eq]

end

/-- Known elements of two buffers, combined. -/
theorem knows_applyOp
    {count offset number : Nat} {goal other : Nat → Cell}
    {inoutvec invec : List Cell}
    (within : offset + number ≤ count)
    (mine : Knows count goal (InRange offset number) inoutvec)
    (theirs : Knows count other (InRange offset number) invec)
    (uop : Cell → Cell → Cell) :
    ∃ written, applyOp uop invec offset inoutvec offset number = some written ∧
      Knows count (fun index => uop (other index) (goal index))
        (InRange offset number) written := by
  obtain ⟨inout, rfl, agree⟩ := mine
  obtain ⟨incoming, rfl, otherAgree⟩ := theirs
  refine ⟨_, applyOp_tabulate within within uop incoming inout, ?_⟩
  apply knows_tabulate
  intro index inside covered
  rw [patch_of_mem covered, Nat.add_sub_cancel' covered.1,
    agree index inside covered, otherAgree index inside covered]

/-- The value of a new rank at a position after some rounds, where the partner's
value comes first. -/
def halvedAt
    (uop : Cell → Cell → Cell)
    (start : Nat → Nat → Cell)
    (round newrank column : Nat) : Cell :=
  valueAt uop (fun _ _ => True) (fun newrank => start newrank column) round newrank

/-- What a new rank sends in a round of the reduce-scatter. -/
def halvingMsg
    (levels count : Nat)
    (uop : Cell → Cell → Cell)
    (start : Nat → Nat → Cell)
    (round newrank : Nat) : List Cell :=
  slice (halvedAt uop start round newrank)
    (windowStart levels count (round + 1) (newrank ^^^ 2 ^ round))
    (windowSize levels count (round + 1) (newrank ^^^ 2 ^ round))

/-- What a process has before a round of the reduce-scatter. -/
structure Halved
    (levels count : Nat)
    (goal : Nat → Cell)
    (round newrank : Nat)
    (temps : Temps Cell) : Prop where
  recvbuf : Knows count goal
    (InRange (windowStart levels count round newrank)
      (windowSize levels count round newrank)) temps.recvbuf
  tmpBuf : ∃ cell, temps.tmpBuf = tabulate count cell

section

variable {folding : Folding} {count rank : Nat}
variable {uop : Cell → Cell → Cell} {start : Nat → Nat → Cell}
variable (check : LengthCheck)

variable {temps : Temps Cell} {round : Nat}

section

variable
    (within : round < folding.levels)
    (here : Halved folding.levels count
      (halvedAt uop start round (folding.newRank rank)) round
      (folding.newRank rank) temps)

include within here

theorem Halved.send :
    ((Core.ofFolding folding check count uop rank).sendBlocks
        (folding.partner round rank)
        (scatterTransfer folding.levels count round (folding.newRank rank))
        temps.recvbuf).Ends
      [.send (folding.partner round rank)
        (halvingMsg folding.levels count uop start round (folding.newRank rank))] () := by
  have inside := @window_le folding.levels count round (folding.newRank rank)
    within.le
  have halves := @window_halves folding.levels count round (folding.newRank rank)
    within
  have loaded := @Knows.load Cell _ _ _ _ here.recvbuf
    (windowStart folding.levels count (round + 1)
      (folding.newRank rank ^^^ 2 ^ round))
    (windowSize folding.levels count (round + 1)
      (folding.newRank rank ^^^ 2 ^ round)) (by omega) (by
      rintro index ⟨lower, upper⟩
      exact ⟨by omega, by omega⟩)
  exact (ends_ofOption loaded).bind (ends_mpicSend _ _)

theorem Halved.reduce :
    ((Core.ofFolding folding check count uop rank).reduceBlocks
        (folding.partner round rank)
        (scatterTransfer folding.levels count round (folding.newRank rank))
        temps).Yields
      [.recv (folding.partner round rank)
        (halvingMsg folding.levels count uop start round (folding.newRank rank ^^^ 2 ^ round))]
      (Halved folding.levels count
        (halvedAt uop start (round + 1) (folding.newRank rank)) (round + 1)
        (folding.newRank rank)) := by
  have inside := @window_le folding.levels count (round + 1) (folding.newRank rank)
    within
  have halves := @window_halves folding.levels count round (folding.newRank rank)
    within
  obtain ⟨cell, tmpBuf⟩ := here.tmpBuf
  have empty := @knows_tabulate Cell count
    (halvedAt uop start round (folding.newRank rank ^^^ 2 ^ round))
    (fun _ => False) cell fun _ _ none => none.elim
  obtain ⟨incoming, stored, theirs⟩ := @Knows.store Cell _ _ _ _ empty
    _ _ inside
  have mine := @Knows.mono Cell _ _ _ _ here.recvbuf (InRange
      (windowStart folding.levels count (round + 1) (folding.newRank rank))
      (windowSize folding.levels count (round + 1) (folding.newRank rank)))
    (by
      rintro index - ⟨lower, upper⟩
      exact ⟨by omega, by omega⟩)
  obtain ⟨reduced, applied, known⟩ := knows_applyOp inside mine
    (theirs.mono fun _ _ covered => Or.inr covered) uop
  have msg : halvingMsg folding.levels count uop start round
      (folding.newRank rank ^^^ 2 ^ round) =
        slice (halvedAt uop start round (folding.newRank rank ^^^ 2 ^ round))
          (windowStart folding.levels count (round + 1) (folding.newRank rank))
          (windowSize folding.levels count (round + 1) (folding.newRank rank)) := by
    rw [halvingMsg, xor_mask_xor_mask]
  have received := @LengthCheck.ends_recv Cell _ check (folding.partner round rank)
    _ (length_slice (halvedAt uop start round
      (folding.newRank rank ^^^ 2 ^ round))
      (windowStart folding.levels count (round + 1) (folding.newRank rank))
      (windowSize folding.levels count (round + 1) (folding.newRank rank)))
  obtain ⟨cells, incomingEq, -⟩ := id theirs
  have disps : (Core.ofFolding folding check count uop rank).disps
      (scatterTransfer folding.levels count round (folding.newRank rank)).recvIdx =
    windowStart folding.levels count (round + 1) (folding.newRank rank) := rfl
  have recvCnt : (scatterTransfer folding.levels count round (folding.newRank rank)).recvCnt =
    windowSize folding.levels count (round + 1) (folding.newRank rank) := rfl
  have operation : (Core.ofFolding folding check count uop rank).uop = uop := rfl
  have demands : (Core.ofFolding folding check count uop rank).check = check := rfl
  unfold Core.reduceBlocks Core.recvBlocks
  rw [msg, tmpBuf, disps, recvCnt, operation, demands, ← List.append_nil [Op.recv _ _]]
  refine (received.bind (ends_ofOption stored)).bind_yields ?_
  rw [applied]
  exact Prog.yields_pure ⟨known, cells, incomingEq⟩

end

/-- The loop of the reduce-scatter. -/
theorem yields_halvingLoop
    (active : folding.Active rank)
    (fuel : Nat)
    (within : round ≤ folding.levels)
    (enough : folding.levels ≤ round + fuel)
    {lastIdx : Nat}
    (lastIdx_eq : lastIdx = gatherEnd folding.levels round (folding.newRank rank))
    (here : Halved folding.levels count
      (halvedAt uop start round (folding.newRank rank)) round
      (folding.newRank rank) temps) :
    ((Core.ofFolding folding check count uop rank).halvingLoop fuel (2 ^ round)
        (slot folding.levels round (folding.newRank rank))
        (slot folding.levels round (folding.newRank rank)) lastIdx temps).Yields
      (opsOf (folding.partnerRound (halvingMsg folding.levels count uop start) rank)
        (List.range' round (folding.levels - round)))
      (fun out =>
        out.mask = 2 ^ folding.levels ∧
        out.sendIdx = slot folding.levels folding.levels (folding.newRank rank) ∧
        out.lastIdx = gatherEnd folding.levels folding.levels (folding.newRank rank) ∧
        Halved folding.levels count
          (halvedAt uop start folding.levels (folding.newRank rank)) folding.levels
          (folding.newRank rank) out.temps) := by
  have pof2 : (Core.ofFolding folding check count uop rank).pof2 = 2 ^ folding.levels := rfl
  induction fuel generalizing round lastIdx temps with
  | zero =>
    obtain rfl : round = folding.levels := by omega
    rw [Core.halvingLoop, pof2, if_neg (lt_irrefl _), Nat.sub_self]
    exact Prog.yields_pure ⟨rfl, rfl, lastIdx_eq, here⟩
  | succ fuel ih =>
    rw [Core.halvingLoop, pof2]
    by_cases more : round < folding.levels
    · rw [if_pos (Nat.pow_lt_pow_right one_lt_two more)]
      have ops := @Folding.ops_partnerRound folding rank active (List Cell)
        (halvingMsg folding.levels count uop start) round
      rw [gatherEnd, if_neg fun last => more.ne last.1] at lastIdx_eq
      rw [lastIdx_eq, halvingTransfer_eq more, two_pow_shiftLeft,
        show folding.levels - round = folding.levels - (round + 1) + 1 by omega,
        List.range'_succ, opsOf_cons, ops]
      refine (here.send check more).bind_yields ((here.reduce check more).bind ?_)
      intro temps reduced
      refine ih more (by omega) ?_ reduced
      by_cases last : round + 1 = folding.levels
      · rw [if_neg (by rw [last]; exact lt_irrefl _), gatherEnd,
          if_pos ⟨last, by omega⟩, last, Nat.sub_self]
        rfl
      · have next : round + 1 < folding.levels := by omega
        rw [if_pos (Nat.pow_lt_pow_right one_lt_two next), gatherEnd,
          if_neg fun both => last both.1, Nat.pow_div next.le two_pos]
        rfl
    · obtain rfl : round = folding.levels := by omega
      rw [if_neg (lt_irrefl _), Nat.sub_self]
      exact Prog.yields_pure ⟨rfl, rfl, lastIdx_eq, here⟩

end

/-- The windows after the last round. -/
def lastWindows (levels count : Nat) : Layout where
  count := 2 ^ levels
  displ := windowStart levels count levels
  size := windowSize levels count levels
  disjoint := by
    intro first second index firstIn secondIn covers otherCovers
    unfold windowSize at covers otherCovers
    rw [Nat.sub_self, pow_zero, span_one] at covers otherCovers
    have firstSlot := @slot_add_le levels levels le_rfl first
    have secondSlot := @slot_add_le levels levels le_rfl second
    rw [Nat.sub_self, pow_zero] at firstSlot secondSlot
    exact eq_of_slot firstIn secondIn
      ((Layout.consecutive (2 ^ levels) (cnts levels count)).disjoint _ _ index
        firstSlot secondSlot covers otherCovers)

/-- The results: each element as the new rank has it that has its window. -/
def result
    (levels count : Nat)
    (uop : Cell → Cell → Cell)
    (start : Nat → Nat → Cell) : Nat → Cell :=
  (lastWindows levels count).fill
    (fun newrank offset => halvedAt uop start levels newrank
      (windowStart levels count levels newrank + offset)) (start 0)

section

variable {levels count newrank : Nat} {uop : Cell → Cell → Cell}
variable {start : Nat → Nat → Cell}

theorem result_eq
    (within : newrank < 2 ^ levels)
    {column : Nat}
    (covers : InRange (windowStart levels count levels newrank)
      (windowSize levels count levels newrank) column) :
    result levels count uop start column = halvedAt uop start levels newrank column := by
  have filled := @Layout.fill_of_covers Cell (lastWindows levels count) newrank
    column within covers (fun newrank offset => halvedAt uop start levels newrank
      (windowStart levels count levels newrank + offset)) (start 0)
  refine filled.trans ?_
  apply congrArg
  exact Nat.add_sub_cancel' covers.1

variable {round : Nat}

/-- Every element is in a window. -/
theorem exists_window
    {column : Nat}
    (within : round ≤ levels)
    (inside : column < count) :
    ∃ newrank < 2 ^ levels, InRange (windowStart levels count round newrank)
        (windowSize levels count round newrank) column := by
  induction round with
  | zero =>
    refine ⟨0, Nat.two_pow_pos levels, Nat.zero_le _, ?_⟩
    unfold windowStart windowSize
    rw [slot, prefixSum_zero, span_zero, Nat.sub_zero, prefixSum_cnts]
    omega
  | succ round ih =>
    obtain ⟨newrank, bound, lower, upper⟩ := ih (by omega)
    by_cases own : InRange (windowStart levels count (round + 1) newrank)
        (windowSize levels count (round + 1) newrank) column
    · exact ⟨newrank, bound, own⟩
    · refine ⟨newrank ^^^ 2 ^ round, xor_mask_lt bound within, ?_⟩
      have halves := @window_halves levels count round newrank within
      unfold InRange at own ⊢
      omega

theorem exists_result_eq
    {column : Nat}
    (inside : column < count) :
    ∃ newrank < 2 ^ levels, result levels count uop start column =
        halvedAt uop start levels newrank column := by
  obtain ⟨newrank, bound, covers⟩ := @exists_window levels count levels column le_rfl inside
  exact ⟨newrank, bound, result_eq bound covers⟩

variable {temps : Temps Cell}

/-- What a process has after the reduce-scatter. -/
theorem Halved.result
    (within : newrank < 2 ^ levels)
    (here : Halved levels count (halvedAt uop start levels newrank) levels newrank
      temps) :
    Halved levels count (result levels count uop start) levels newrank temps :=
  ⟨here.recvbuf.congr fun _ _ covers => (result_eq within covers).symm, here.tmpBuf⟩

/-- The reduce-scatter from its beginning. -/
theorem yields_halving
    {folding : Folding} {rank : Nat}
    (check : LengthCheck)
    (active : folding.Active rank)
    {fuel : Nat}
    (enough : folding.levels ≤ fuel)
    (cell : Nat → Cell) :
    ((Core.ofFolding folding check count uop rank).halvingLoop fuel 1 0 0 (2 ^ folding.levels)
        { recvbuf := tabulate count (start (folding.newRank rank))
          tmpBuf := tabulate count cell }).Yields
      (opsOf (folding.partnerRound (halvingMsg folding.levels count uop start) rank)
        (List.range folding.levels))
      (fun out =>
        out.mask = 2 ^ folding.levels ∧
        out.sendIdx = slot folding.levels folding.levels (folding.newRank rank) ∧
        out.lastIdx = gatherEnd folding.levels folding.levels (folding.newRank rank) ∧
        Knows count (result folding.levels count uop start)
          (InRange (windowStart folding.levels count folding.levels (folding.newRank rank))
            (windowSize folding.levels count folding.levels (folding.newRank rank)))
          out.temps.recvbuf) := by
  have first : 2 ^ folding.levels = gatherEnd folding.levels 0 (folding.newRank rank) := by
    rw [gatherEnd, if_neg (by omega), slot, zero_add, Nat.sub_zero]
  have begins : Halved folding.levels count (halvedAt uop start 0 (folding.newRank rank)) 0
      (folding.newRank rank)
      { recvbuf := tabulate count (start (folding.newRank rank))
        tmpBuf := tabulate count cell } :=
    ⟨knows_tabulate fun _ _ _ => rfl, cell, rfl⟩
  have loop := yields_halvingLoop check active fuel (Nat.zero_le _)
    (enough.trans (zero_add _).ge) first begins
  rw [Nat.sub_zero, ← List.range_eq_range'] at loop
  apply loop.mono
  rintro out ⟨mask, sendIdx, lastIdx, halved⟩
  exact ⟨mask, sendIdx, lastIdx, (halved.result (Folding.newRank_lt active.1)).recvbuf⟩

/-- What a process has when the gather is over. -/
theorem eq_tabulate_of_window
    {goal : Nat → Cell} {recvbuf : List Cell}
    (here : Knows count goal
      (InRange (windowStart levels count 0 newrank) (windowSize levels count 0 newrank))
      recvbuf) :
    recvbuf = tabulate count goal := by
  apply here.eq_tabulate
  intro index inside
  unfold windowStart windowSize
  rw [slot, prefixSum_zero, span_zero, Nat.sub_zero, prefixSum_cnts]
  exact ⟨Nat.zero_le _, by omega⟩

end

section

variable {folding : Folding} {count rank : Nat}
variable {uop : Cell → Cell → Cell} {goal : Nat → Cell}
variable (check : LengthCheck)

/-- The elements of a new rank before a step of the gather. -/
def gatherMsg
    (levels count : Nat)
    (goal : Nat → Cell)
    (round newrank : Nat) : List Cell :=
  slice goal (windowStart levels count (round + 1) newrank)
    (windowSize levels count (round + 1) newrank)

theorem nextSendIdx_eq (round : Nat) :
    (Core.ofFolding folding check count uop rank).nextSendIdx (2 ^ round)
        (gatheringTransfer folding.levels count round (folding.newRank rank)) =
      slot folding.levels round (folding.newRank rank) := by
  have lower := lt_xor_mask_iff (folding.newRank rank) round
  have differs : folding.newRank rank ^^^ 2 ^ round ≠ folding.newRank rank := by
    intro same
    have flips := bitSet_xor_mask (folding.newRank rank) round
    rw [same] at flips
    exact iff_not_self flips
  have newrank : (Core.ofFolding folding check count uop rank).newrank = folding.newRank rank := rfl
  unfold Core.nextSendIdx gatheringTransfer
  rw [newrank]
  rcases @slot_halves folding.levels round (folding.newRank rank) with
    ⟨clear, own, other⟩ | ⟨set, own, other⟩
  · rw [if_neg (lower.mpr clear).not_gt, own]
  · have above : folding.newRank rank ^^^ 2 ^ round < folding.newRank rank := by
      have := mt lower.mp (not_not.mpr set)
      omega
    rw [if_pos above, other]

variable
    {round : Nat}
    (within : round < folding.levels)
    {recvbuf : List Cell}
    (here : Knows count goal
      (InRange
        (windowStart folding.levels count (round + 1) (folding.newRank rank))
        (windowSize folding.levels count (round + 1) (folding.newRank rank)))
      recvbuf)

include within here

theorem ends_sendGathered (dst : Nat) :
    ((Core.ofFolding folding check count uop rank).sendBlocks dst
        (gatheringTransfer folding.levels count round (folding.newRank rank))
        recvbuf).Ends
      [.send dst (gatherMsg folding.levels count goal round (folding.newRank rank))] () :=
  (ends_ofOption (here.load (window_le within) fun _ covers => covers)).bind (ends_mpicSend _ _)

theorem yields_recvGathered (src : Nat) :
    ((Core.ofFolding folding check count uop rank).recvBlocks src
        (gatheringTransfer folding.levels count round (folding.newRank rank))
        recvbuf).Yields
      [.recv src (gatherMsg folding.levels count goal round (folding.newRank rank ^^^ 2 ^ round))]
      (Knows count goal
        (InRange
          (windowStart folding.levels count round (folding.newRank rank))
          (windowSize folding.levels count round (folding.newRank rank)))) := by
  have inside := @window_le folding.levels count (round + 1)
    (folding.newRank rank ^^^ 2 ^ round) within
  have halves := @window_halves folding.levels count round (folding.newRank rank)
    within
  obtain ⟨written, stored, knows⟩ := @Knows.store Cell _ _ _ _ here _ _ inside
  have received := @LengthCheck.ends_recv Cell _ check src _
    (length_slice goal
      (windowStart folding.levels count (round + 1) (folding.newRank rank ^^^ 2 ^ round))
      (windowSize folding.levels count (round + 1) (folding.newRank rank ^^^ 2 ^ round)))
  refine received.bind_yields (Prog.yields_ofOption stored (knows.mono ?_))
  rintro index - ⟨lower, upper⟩
  unfold InRange
  omega

end

end Mpich.Coll.Halving
