import Mpich.Coll.ReduceScatter.Halving

/-!
# The runs of the recursive halving

The rounds of any two processes fit together, and each process goes through the
rounds given for it.
-/

namespace Mpich.Coll.ReduceScatter

open MessagePassing Masks List Buffer

variable {Cell : Type} {shape : Shape} {uop : Cell → Cell → Cell}
variable {contents : Contents Cell}
variable {rank : Nat} (inComm : rank < shape.commSize)

variable (nonempty : 0 < shape.commSize)

include nonempty in
/-- The partners in a round are each other's partners. -/
theorem Shape.oldRank_partner_iff
    {round src dst newSrc newDst : Nat}
    (more : round < shape.levels)
    (srcNew : shape.newRank src = some newSrc)
    (dstNew : shape.newRank dst = some newDst) :
    shape.oldRank (shape.partner round newSrc) = dst ↔ shape.partner round newDst = newSrc := by
  obtain ⟨srcWithin, rfl⟩ := (Shape.newRank_eq_some_iff nonempty).mp srcNew
  have partnerNew := (Shape.newRank_eq_some_iff nonempty).mpr ⟨Shape.partner_lt srcWithin more, rfl⟩
  constructor
  · rintro rfl
    rw [partnerNew] at dstNew
    rw [← Option.some.inj dstNew, Shape.partner_partner]
  · rintro rfl
    rw [Shape.partner_partner] at *
    exact ((Shape.newRank_eq_some_iff nonempty).mp dstNew).2

include nonempty in
theorem Shape.halvingRound_agrees :
    ScheduleAgrees (shape.halvingRound uop contents) shape.halvingSchedule := by
  intro label member src dst
  cases label with
  | fold =>
    apply withRank_messageIf_eq
    · constructor <;> rintro ⟨folded, rfl⟩ <;> omega
    · rintro folded rfl
      rw [Nat.add_sub_cancel]
  | exchange round =>
    have more : round < shape.levels := by
      simpa [Shape.halvingSchedule] using member
    have unknown : ∀ {newrank rank : Nat}, newrank < 2 ^ shape.levels →
        shape.newRank rank = none → shape.oldRank newrank ≠ rank := by
      rintro newrank rank within none rfl
      rw [(Shape.newRank_eq_some_iff nonempty).mpr ⟨within, rfl⟩] at none
      cases none
    unfold Shape.halvingRound
    cases srcNew : shape.newRank src with
    | none =>
      cases dstNew : shape.newRank dst with
      | none => rfl
      | some newDst =>
        have within := ((Shape.newRank_eq_some_iff nonempty).mp dstNew).1
        simp only [withRank_messageIf]
        rw [if_neg]
        · rfl
        · exact fun both =>
            unknown (Shape.partner_lt within more) srcNew both.2
    | some newSrc =>
      cases dstNew : shape.newRank dst with
      | none =>
        have within := ((Shape.newRank_eq_some_iff nonempty).mp srcNew).1
        simp only [withRank_messageIf]
        rw [if_neg]
        · rfl
        · exact fun both =>
            unknown (Shape.partner_lt within more) dstNew both.2
      | some newDst =>
        have paired := Shape.oldRank_partner_iff nonempty more srcNew dstNew
        have back := Shape.oldRank_partner_iff nonempty more dstNew srcNew
        apply withRank_messageIf_eq
        · rw [paired, back]
          constructor
          · rintro ⟨sends, rfl⟩
            rw [Shape.partner_partner] at *
            exact ⟨sends, rfl⟩
          · rintro ⟨receives, rfl⟩
            rw [Shape.partner_partner]
            exact ⟨receives, rfl⟩
        · intro sends toDst
          rw [paired.mp toDst]
  | unfold =>
    apply withRank_messageIf_eq
    · constructor <;> rintro ⟨⟨folded, some⟩, rfl⟩
      · exact ⟨⟨by omega, some⟩, by omega⟩
      · exact ⟨⟨by omega, by rwa [Nat.add_sub_cancel]⟩, by omega⟩
    · rintro folded rfl
      rfl

theorem ends_sendResults
    {dst offset count length : Nat}
    (within : offset + count ≤ length)
    (tmpRecvbuf : List Cell)
    (results : Nat → Cell) :
    (Call.sendResults dst offset count
        { tmpRecvbuf, tmpResults := tabulate length results }).Ends
      ((messageIf (count ≠ 0) dst
        (tabulate count fun index => results (offset + index))).map
          fun entry => .send entry.1 entry.2) () := by
  unfold Call.sendResults
  by_cases some : count ≠ 0
  · rw [if_pos some, messageIf_of some]
    exact (ends_ofOption (load_tabulate within results)).bind (ends_mpicSend _ _)
  · rw [if_neg some, messageIf_of_not some]
    exact Prog.ends_done _

section

variable
    (call : Call Cell)
    {src offset count length : Nat}
    (within : offset + count ≤ length)
    (incoming results received : Nat → Cell)

include call within incoming results received

theorem Call.ends_receiveAndReduce :
    (call.receiveAndReduce src offset count
        { tmpRecvbuf := tabulate length incoming
          tmpResults := tabulate length results }).Ends
      [.recv src (tabulate count received)]
      { tmpRecvbuf := tabulate length (patch incoming offset count received)
        tmpResults := tabulate length
          (patch results offset count fun index =>
            call.uop (received index) (results (offset + index))) } := by
  have fits := @ends_mpicRecv _ _ src _ (length_tabulate count received).le
  have reduced := applyOp_tabulate within within call.uop
    (patch incoming offset count received) results
  have same : patch results offset count (fun index => call.uop
      (patch incoming offset count received (offset + index))
      (results (offset + index))) = patch results offset count fun index =>
          call.uop (received index) (results (offset + index)) := by
    apply patch_congr
    intro index inside
    rw [patch_add inside]
  rw [same] at reduced
  exact fits.bind
    ((ends_ofOption (store_tabulate within incoming received)).bind
      ((ends_ofOption reduced).bind (Prog.ends_done _)))

theorem Call.ends_receiveResults :
    (call.receiveResults src offset count
        { tmpRecvbuf := tabulate length incoming
          tmpResults := tabulate length results }).Ends
      ((messageIf (count ≠ 0) src (tabulate count received)).map
        fun entry => .recv entry.1 entry.2)
      { tmpRecvbuf := tabulate length (patch incoming offset count received)
        tmpResults := tabulate length
          (patch results offset count fun index =>
            call.uop (received index) (results (offset + index))) } := by
  unfold Call.receiveResults
  by_cases some : count ≠ 0
  · rw [if_pos some, messageIf_of some]
    exact call.ends_receiveAndReduce within incoming results received
  · rw [if_neg some, messageIf_of_not some, not_not.mp some, patch_zero, patch_zero]
    exact Prog.ends_done _

end

include nonempty in
/-- One round of the loop, in terms of the blocks of new ranks. -/
theorem Shape.halvingLoop_succ
    {rank newrank round : Nat}
    (more : round < shape.levels)
    (fuel : Nat)
    (temps : Temps Cell) :
    (shape.call uop contents rank).halvingLoop newrank (fuel + 1)
        (2 ^ shape.levels >>> (round + 1))
        (blockStart newrank (shape.levels - round))
        (blockStart newrank (shape.levels - round))
        (blockStart newrank (shape.levels - round) + 2 ^ (shape.levels - round))
        temps =
      (do
        Call.sendResults (shape.oldRank (shape.partner round newrank))
          (shape.windowStart (round + 1) (shape.partner round newrank))
          (shape.windowSize (round + 1) (shape.partner round newrank)) temps
        let temps ← (shape.call uop contents rank).receiveResults
          (shape.oldRank (shape.partner round newrank))
          (shape.windowStart (round + 1) newrank)
          (shape.windowSize (round + 1) newrank) temps
        (shape.call uop contents rank).halvingLoop newrank fuel
          (2 ^ shape.levels >>> (round + 2))
          (blockStart newrank (shape.levels - (round + 1)))
          (blockStart newrank (shape.levels - (round + 1)))
          (blockStart newrank (shape.levels - (round + 1)) +
            2 ^ (shape.levels - (round + 1))) temps) := by
  obtain ⟨exponent, levels⟩ : ∃ exponent, shape.levels = round + exponent + 1 :=
    ⟨shape.levels - round - 1, by omega⟩
  have now : shape.levels - round = exponent + 1 := by omega
  have next : shape.levels - (round + 1) = exponent := by omega
  have mask : 2 ^ shape.levels >>> (round + 1) = 2 ^ exponent := by
    rw [Nat.shiftRight_eq_div_pow, Nat.pow_div (by omega) two_pos, next]
  have partnerEq : shape.partner round newrank = newrank ^^^ 2 ^ exponent := by
    rw [Shape.partner, now, Nat.add_sub_cancel]
  have double : 2 ^ (exponent + 1) = 2 ^ exponent + 2 ^ exponent := by
    rw [pow_succ, mul_two]
  have ownBlock := blockStart_succ newrank exponent
  have otherBlock := blockStart_xor_mask_self newrank exponent
  have shifted : 2 ^ exponent >>> 1 = 2 ^ shape.levels >>> (round + 2) := by
    rw [← mask, ← Nat.shiftRight_add]
  rw [Call.halvingLoop, mask, if_pos (Nat.two_pow_pos exponent)]
  simp only [Shape.call_newdisps nonempty, Shape.call_oldRank nonempty,
    Shape.windowSize, Shape.windowStart, now, next, partnerEq, shifted, lt_xor_mask_iff]
  by_cases set : BitSet newrank exponent
  · rw [if_pos set] at ownBlock otherBlock
    rw [add_zero] at otherBlock
    have below : blockStart newrank (exponent + 1) ≤ blockStart newrank exponent :=
      (Nat.le_add_right _ _).trans ownBlock.ge
    simp only [set, not_true_eq_false, if_false, ← ownBlock, otherBlock, double,
      ← add_assoc, Shape.call_sum_newcnts nonempty _ (Nat.le_add_right _ (2 ^ exponent))]
    rw [Shape.call_sum_newcnts nonempty _ below]
  · rw [if_neg set] at ownBlock otherBlock
    rw [add_zero] at ownBlock
    simp only [set, not_false_eq_true, if_true, ← ownBlock, otherBlock, double, ← add_assoc,
      Shape.call_sum_newcnts nonempty _ (Nat.le_add_right _ (2 ^ exponent))]

include nonempty in
theorem Shape.ends_halvingLoop
    {rank newrank : Nat}
    (new : shape.newRank rank = some newrank)
    (fuel : Nat)
    {round : Nat}
    (within : round ≤ shape.levels)
    (enough : shape.levels ≤ round + fuel) :
    ((shape.call uop contents rank).halvingLoop newrank fuel
        (2 ^ shape.levels >>> (round + 1))
        (blockStart newrank (shape.levels - round))
        (blockStart newrank (shape.levels - round))
        (blockStart newrank (shape.levels - round) + 2 ^ (shape.levels - round))
        (shape.tempsAt uop contents round newrank)).Ends
      (opsOf (shape.halvingRound uop contents rank)
        ((range' round (shape.levels - round)).map .exchange))
      (shape.tempsAt uop contents shape.levels newrank) := by
  have inside := ((Shape.newRank_eq_some_iff nonempty).mp new).1
  have exhausted : ¬ 0 < 2 ^ shape.levels >>> (shape.levels + 1) := by
    rw [Nat.shiftRight_eq_div_pow,
      Nat.div_eq_of_lt (Nat.pow_lt_pow_right one_lt_two (Nat.lt_succ_self _))]
    exact lt_irrefl 0
  induction fuel generalizing round with
  | zero =>
    obtain rfl : round = shape.levels := by omega
    rw [Call.halvingLoop, if_neg exhausted, Nat.sub_self]
    exact Prog.ends_done _
  | succ fuel ih =>
    by_cases more : round < shape.levels
    · have dstInside := Shape.partner_lt inside more
      have sent := @ends_sendResults _
        (shape.oldRank (shape.partner round newrank)) _ _ _
        (Shape.window_within nonempty dstInside (round + 1))
        (tabulate shape.totalCount (shape.incomingAt uop contents round newrank))
        (shape.resultsAt uop contents round newrank)
      have received := @Call.ends_receiveResults _ (shape.call uop contents rank)
        (shape.oldRank (shape.partner round newrank)) _ _ _
        (Shape.window_within nonempty inside (round + 1))
        (shape.incomingAt uop contents round newrank)
        (shape.resultsAt uop contents round newrank)
        (fun index =>
          shape.resultsAt uop contents round (shape.partner round newrank)
            (shape.windowStart (round + 1) newrank + index))
      have roundEq : shape.halvingRound uop contents rank (.exchange round) =
          { sends := messageIf
              (shape.windowSize (round + 1) (shape.partner round newrank) ≠ 0)
              (shape.oldRank (shape.partner round newrank))
              (shape.halvingMsg uop contents round newrank)
            recvs := messageIf (shape.windowSize (round + 1) newrank ≠ 0)
              (shape.oldRank (shape.partner round newrank))
              (shape.halvingMsg uop contents round
                (shape.partner round newrank)) } := by
        unfold Shape.halvingRound
        simp only [new]
      have back : shape.halvingMsg uop contents round
          (shape.partner round newrank) =
            tabulate (shape.windowSize (round + 1) newrank) fun index =>
              shape.resultsAt uop contents round (shape.partner round newrank)
                (shape.windowStart (round + 1) newrank + index) := by
        unfold Shape.halvingMsg
        rw [Shape.partner_partner]
      rw [Shape.halvingLoop_succ nonempty more,
        show shape.levels - round = shape.levels - (round + 1) + 1 by omega,
        range'_succ, map_cons, opsOf_cons, roundEq, back, Round.ops, append_assoc]
      exact sent.bind (received.bind (ih more (by omega)))
    · obtain rfl : round = shape.levels := by omega
      rw [Call.halvingLoop, if_neg exhausted, Nat.sub_self]
      exact Prog.ends_done _

/-- The buffers of a process before and after the pairs have been folded. -/
def Shape.foldedTemps
    (shape : Shape)
    (uop : Cell → Cell → Cell)
    (contents : Contents Cell)
    (rank : Nat) : Temps Cell :=
  match shape.newRank rank with
  | none =>
    { tmpRecvbuf := tabulate shape.totalCount (contents.garbage rank)
      tmpResults := tabulate shape.totalCount (contents.input rank) }
  | some newrank => shape.tempsAt uop contents 0 newrank

include inComm in
theorem Shape.ends_foldPairs :
    ((shape.call uop contents rank).foldPairs
        { tmpRecvbuf := tabulate shape.totalCount (contents.garbage rank)
          tmpResults :=
            tabulate shape.totalCount (contents.input rank) }).Ends
      (shape.halvingRound uop contents rank .fold).ops
      (shape.newRank rank, shape.foldedTemps uop contents rank) := by
  have nonempty : 0 < shape.commSize := by omega
  have size := Shape.commSize_eq nonempty
  have total : 0 + shape.totalCount ≤ shape.totalCount := by omega
  have count : (shape.call uop contents rank).totalCount = shape.totalCount := rfl
  have self : (shape.call uop contents rank).rank = rank := rfl
  unfold Call.foldPairs Shape.halvingRound Shape.foldedTemps
  rw [Shape.call_rem nonempty, self, count]
  by_cases folded : rank < 2 * shape.extra
  · rw [if_pos folded]
    by_cases even : rank % 2 = 0
    · have none : shape.newRank rank = none :=
        if_neg fun takesPart => takesPart.2 ⟨folded, even⟩
      have sent := load_tabulate total (contents.input rank)
      simp only [zero_add] at sent
      rw [if_pos even, none, messageIf_of ⟨folded, even⟩, messageIf_of_not fun odd => odd.2 even]
      exact (ends_ofOption sent).bind ((ends_mpicSend _ _).bind (Prog.ends_done _))
    · have new : shape.newRank rank = some (rank / 2) := by
        rw [Shape.newRank_eq_some_iff nonempty, Shape.oldRank]
        have := @Shape.extra_lt shape
        split <;> omega
      have small : rank / 2 < shape.extra := by omega
      have received := @Call.ends_receiveAndReduce _
        (shape.call uop contents rank) (rank - 1) _ _ _ total (contents.garbage rank)
        (contents.input rank) (contents.input (rank - 1))
      have left : rank / 2 * 2 = rank - 1 := by omega
      have right : rank / 2 * 2 + 1 = rank := by omega
      have temps : shape.tempsAt uop contents 0 (rank / 2) =
          { tmpRecvbuf := tabulate shape.totalCount
              (patch (contents.garbage rank) 0 shape.totalCount (contents.input (rank - 1)))
            tmpResults := tabulate shape.totalCount
              (patch (contents.input rank) 0 shape.totalCount
                fun index => uop (contents.input (rank - 1) index)
                  (contents.input rank (0 + index))) } := by
        unfold Shape.tempsAt Shape.incomingAt Shape.resultsAt
        rw [if_pos small, if_pos small, right, left]
        congr 1 <;>
        · apply tabulate_congr
          intro index inside
          rw [patch_of_mem (by omega)]
          simp only [Nat.sub_zero, zero_add]
      rw [if_neg even, new, messageIf_of_not fun both => even both.2, messageIf_of ⟨folded, even⟩]
      simp only [temps]
      exact received.bind (Prog.ends_done _)
  · have new : shape.newRank rank = some (rank - shape.extra) := by
      rw [Shape.newRank_eq_some_iff nonempty, Shape.oldRank]
      split <;> omega
    have large : ¬ rank - shape.extra < shape.extra := by omega
    have temps : shape.tempsAt uop contents 0 (rank - shape.extra) =
        { tmpRecvbuf := tabulate shape.totalCount (contents.garbage rank)
          tmpResults :=
            tabulate shape.totalCount (contents.input rank) } := by
      unfold Shape.tempsAt Shape.incomingAt Shape.resultsAt
      rw [if_neg large, if_neg large, Nat.sub_add_cancel (by omega)]
    rw [if_neg folded, new, messageIf_of_not fun both => folded both.1,
      messageIf_of_not fun both => folded both.1]
    simp only [temps]
    exact Prog.ends_done _

/-- The buffers of a process after the halving. -/
def Shape.halvedTemps
    (shape : Shape)
    (uop : Cell → Cell → Cell)
    (contents : Contents Cell)
    (rank : Nat) : Temps Cell :=
  match shape.newRank rank with
  | none => shape.foldedTemps uop contents rank
  | some newrank => shape.tempsAt uop contents shape.levels newrank

include inComm in
theorem Shape.ends_halve :
    ((shape.call uop contents rank).halve (shape.newRank rank)
        (shape.foldedTemps uop contents rank)).Ends
      (opsOf (shape.halvingRound uop contents rank) ((List.range shape.levels).map .exchange))
      (shape.halvedTemps uop contents rank) := by
  have nonempty : 0 < shape.commSize := by omega
  unfold Call.halve Shape.halvedTemps Shape.foldedTemps
  cases new : shape.newRank rank with
  | none =>
    rw [opsOf_of_idle]
    · exact Prog.ends_done _
    · intro label member
      obtain ⟨round, -, rfl⟩ := mem_map.mp member
      unfold Shape.halvingRound
      simp only [new]
      rfl
  | some newrank =>
    have inside := ((Shape.newRank_eq_some_iff nonempty).mp new).1
    have enough : shape.levels ≤ 0 + shape.commSize := by
      have small := Nat.lt_two_pow_self (n := shape.levels)
      have := Shape.pow_levels_le nonempty
      omega
    have loop := @Shape.ends_halvingLoop _ shape uop contents nonempty rank
      newrank new shape.commSize 0 (Nat.zero_le _) enough
    rw [Nat.sub_zero, blockStart_of_lt inside, ← range_eq_range'] at loop
    simp only [zero_add] at loop
    rw [Shape.call_pof2 nonempty]
    exact loop

/-- The receive buffer of a rank after the recursive halving. -/
def Shape.halvingOut
    (shape : Shape)
    (uop : Cell → Cell → Cell)
    (contents : Contents Cell)
    (rank : Nat) : List Cell :=
  tabulate (shape.recvLength rank)
    (patch (shape.recvcell contents rank) 0 (shape.recvcnts rank)
      (shape.halvingResults uop contents rank))

theorem Shape.holder_of_newRank
    {rank newrank : Nat}
    (new : shape.newRank rank = some newrank) :
    shape.holder rank = newrank := by
  unfold Shape.newRank at new
  rw [Option.ite_none_right_eq_some] at new
  exact Option.some.inj new.2

section

include inComm

/-- The own result of a process that takes part in the halving. -/
theorem Shape.copy_halvedTemps
    {newrank : Nat}
    (new : shape.newRank rank = some newrank) :
    (if shape.newRank rank ≠ none ∧ shape.recvcnts rank ≠ 0 then
        localcopy (shape.halvedTemps uop contents rank).tmpResults
          (shape.disps rank) (shape.call uop contents rank).recvbuf 0
          (shape.recvcnts rank)
      else some (shape.call uop contents rank).recvbuf) =
      some (shape.halvingOut uop contents rank) := by
  have room := Shape.recvcnts_le_recvLength inComm
  have holder := Shape.holder_of_newRank new
  unfold Shape.halvingOut Shape.halvingResults
  rw [Shape.call_recvbuf, holder]
  by_cases some : shape.recvcnts rank ≠ 0
  · rw [if_pos ⟨by simp [new], some⟩]
    unfold Shape.halvedTemps Shape.tempsAt
    simp only [new]
    exact localcopy_tabulate (Shape.slot_within inComm) (by omega) _ _
  · rw [if_neg fun both => some both.2, not_not.mp some, patch_zero]

theorem Shape.ends_unfoldPairs :
    ((shape.call uop contents rank).unfoldPairs (shape.newRank rank)
        (shape.halvedTemps uop contents rank)).Ends
      (shape.halvingRound uop contents rank .unfold).ops
      (shape.halvingOut uop contents rank) := by
  have nonempty : 0 < shape.commSize := by omega
  have self : (shape.call uop contents rank).rank = rank := rfl
  have counts : (shape.call uop contents rank).recvcnts = shape.recvcnts := rfl
  have starts : (shape.call uop contents rank).disps = shape.disps := rfl
  have room := Shape.recvcnts_le_recvLength inComm
  unfold Call.unfoldPairs
  rw [self, counts, starts, Shape.call_rem nonempty, Round.ops]
  by_cases folded : rank < 2 * shape.extra
  · by_cases even : rank % 2 = 0
    · have none : shape.newRank rank = none :=
        if_neg fun takesPart => takesPart.2 ⟨folded, even⟩
      have kept : (if shape.newRank rank ≠ Option.none ∧ shape.recvcnts rank ≠ 0
          then localcopy (shape.halvedTemps uop contents rank).tmpResults
            (shape.disps rank) (shape.call uop contents rank).recvbuf 0
            (shape.recvcnts rank)
          else some (shape.call uop contents rank).recvbuf) =
            some (tabulate (shape.recvLength rank) (shape.recvcell contents rank)) := by
        rw [if_neg fun both => both.1 none, Shape.call_recvbuf]
      have idle : (shape.halvingRound uop contents rank .unfold).sends = [] :=
        messageIf_of_not (fun both => both.1.2 even) _ _
      simp only [if_pos folded, if_neg (not_not.mpr even), idle]
      by_cases some : shape.recvcnts rank ≠ 0
      · have stored := store_tabulate
          (show 0 + shape.recvcnts rank ≤ shape.recvLength rank by omega)
          (shape.recvcell contents rank) (shape.halvingResults uop contents rank)
        have received := @ends_mpicRecv _ _ (rank + 1) (shape.recvcnts rank)
          (length_tabulate _ (shape.halvingResults uop contents rank)).le
        have one : (shape.halvingRound uop contents rank .unfold).recvs =
            [(rank + 1, tabulate (shape.recvcnts rank) (shape.halvingResults uop contents rank))] :=
          messageIf_of ⟨⟨folded, even⟩, some⟩ _ _
        simp only [if_pos some, one]
        exact (ends_ofOption kept).bind (received.bind (ends_ofOption stored))
      · have none : (shape.halvingRound uop contents rank .unfold).recvs = [] :=
          messageIf_of_not (fun both => some both.2) _ _
        simp only [if_neg some, none]
        rw [Shape.halvingOut, not_not.mp some, patch_zero]
        rw [not_not.mp some] at kept
        exact (ends_ofOption kept).bind (Prog.ends_done _)
    · have odd : (rank - 1) + 1 = rank := by omega
      have new : shape.newRank rank = some (shape.holder rank) :=
        if_pos ⟨inComm, fun both => even both.2⟩
      have same : shape.holder (rank - 1) = shape.holder rank := by
        unfold Shape.holder
        rw [if_pos folded, if_pos (by omega)]
        omega
      have sent := @ends_sendResults _ (rank - 1) _ _ _
        (@Shape.slot_within shape (rank - 1) (by omega))
        (shape.halvedTemps uop contents rank).tmpRecvbuf
        (shape.resultsAt uop contents shape.levels (shape.holder rank))
      have temps : shape.halvedTemps uop contents rank =
          { tmpRecvbuf := (shape.halvedTemps uop contents rank).tmpRecvbuf
            tmpResults := tabulate shape.totalCount
              (shape.resultsAt uop contents shape.levels (shape.holder rank)) } := by
        unfold Shape.halvedTemps
        simp only [new]
        rfl
      rw [← temps] at sent
      have message : (shape.halvingRound uop contents rank .unfold).sends =
          messageIf (shape.recvcnts (rank - 1) ≠ 0) (rank - 1)
            (tabulate (shape.recvcnts (rank - 1)) fun index =>
              shape.resultsAt uop contents shape.levels (shape.holder rank)
                (shape.disps (rank - 1) + index)) := by
        unfold Shape.halvingRound Shape.halvingResults messageIf
        rw [same]
        simp only [folded, ne_eq, even, not_false_eq_true, true_and]
      have idle : (shape.halvingRound uop contents rank .unfold).recvs = [] :=
        messageIf_of_not (fun both => even both.1.2) _ _
      simp only [if_pos folded, if_pos even, message, idle]
      exact (ends_ofOption (Shape.copy_halvedTemps inComm new)).bind (sent.bind (Prog.ends_done _))
  · have new : shape.newRank rank = some (shape.holder rank) :=
      if_pos ⟨inComm, fun both => folded both.1⟩
    have noSends : (shape.halvingRound uop contents rank .unfold).sends = [] :=
      messageIf_of_not (fun both => folded both.1.1) _ _
    have noRecvs : (shape.halvingRound uop contents rank .unfold).recvs = [] :=
      messageIf_of_not (fun both => folded both.1.1) _ _
    simp only [if_neg folded, noSends, noRecvs]
    exact (ends_ofOption (Shape.copy_halvedTemps inComm new)).bind (Prog.ends_done _)

theorem Shape.ends_recursiveHalving :
    (shape.call uop contents rank).recursiveHalving.Ends
      (opsOf (shape.halvingRound uop contents rank) shape.halvingSchedule)
      (shape.halvingOut uop contents rank) := by
  rw [Shape.halvingSchedule, opsOf_cons, opsOf_append, opsOf_cons, opsOf_nil, append_nil]
  exact (ends_ofOption (Shape.startTemps_eq rank)).bind
    ((Shape.ends_foldPairs inComm).bind
      ((Shape.ends_halve inComm).bind (Shape.ends_unfoldPairs inComm)))

end

end Mpich.Coll.ReduceScatter
