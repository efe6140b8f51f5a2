import Mpich.Coll.ReduceScatter.Doubling

/-!
# The runs of the recursive doubling

The rounds of any two processes fit together, and each process goes through the
rounds given for it.
-/

namespace Mpich.Coll.ReduceScatter

open MessagePassing Masks List Option Buffer

variable {Cell : Type} {shape : Shape} {uop : Cell → Cell → Cell}
variable {contents : Contents Cell}
variable {rank : Nat} (inComm : rank < shape.commSize)

theorem Shape.mem_doublingSchedule
    {label : DoublingLabel}
    (member : label ∈ shape.doublingSchedule) :
    (∃ level, label = .exchange level) ∨
      ∃ level step, step < level ∧ label = .forward level step := by
  obtain ⟨level, -, inLevel⟩ := mem_flatMap.mp member
  rcases mem_cons.mp inLevel with exchanged | forwarded
  · exact Or.inl ⟨level, exchanged⟩
  · obtain ⟨step, within, rfl⟩ := mem_map.mp forwarded
    exact Or.inr ⟨level, step, mem_range.mp within, rfl⟩

theorem Shape.doublingRound_agrees :
    ScheduleAgrees (shape.doublingRound uop contents) shape.doublingSchedule := by
  intro label member src dst
  rcases Shape.mem_doublingSchedule member with
    ⟨level, rfl⟩ | ⟨level, step, within, rfl⟩
  · apply withRank_messageIf_eq
    · constructor <;>
      · rintro ⟨⟨first, second⟩, rfl⟩
        rw [xor_mask_xor_mask]
        exact ⟨⟨second, first⟩, rfl⟩
    · rintro - rfl
      rw [otherRoot_partner, xor_mask_xor_mask]
  · have lower : level - (step + 1) < level := by omega
    apply withRank_messageIf_eq
    · constructor
      · rintro ⟨⟨inComm, sends⟩, rfl⟩
        rw [Shape.receivesAt_xor_mask lower, xor_mask_xor_mask]
        exact ⟨⟨sends.partner_lt lower, sends⟩, rfl⟩
      · rintro ⟨⟨inComm, receives⟩, rfl⟩
        rw [Shape.sendsAt_xor_mask lower, xor_mask_xor_mask]
        refine ⟨⟨?_, receives⟩, rfl⟩
        rw [xor_mask_of_set receives.2.1]
        exact (Nat.sub_le _ _).trans_lt inComm
    · rintro - rfl
      rw [otherRoot_xor_mask lower, xor_mask_xor_mask]

theorem Shape.call_outside (level root rank : Nat) :
    (shape.call uop contents rank).outside root (2 ^ level) = shape.outside level root := by
  have positive := Nat.two_pow_pos level
  have disp : shape.disps (min root shape.commSize) +
      ∑ j ∈ Finset.Ico root (min (root + 2 ^ level) shape.commSize), shape.recvcnts j =
          shape.disps (min (root + 2 ^ level) shape.commSize) := by
    rcases lt_or_ge shape.commSize root with beyond | within
    · rw [Finset.Ico_eq_empty (by omega), Finset.sum_empty, add_zero]
      congr 1
      omega
    · rw [min_eq_left within, Shape.sum_Ico_recvcnts (by omega)]
      exact Nat.add_sub_cancel' (Shape.disps_mono (by omega))
  have second :
      ∑ j ∈ Finset.Ico (root + 2 ^ level) shape.commSize, shape.recvcnts j =
        shape.totalCount - shape.disps (min (root + 2 ^ level) shape.commSize) := by
    rcases lt_or_ge shape.commSize (root + 2 ^ level) with beyond | within
    · rw [Finset.Ico_eq_empty (by omega), Finset.sum_empty,
        min_eq_right beyond.le, Shape.totalCount, Nat.sub_self]
    · rw [min_eq_left within, Shape.sum_Ico_recvcnts within]
      rfl
  exact congrArg₂ (TwoBlocks.mk _) second disp

theorem Shape.outside_surrounds (level root : Nat) :
    (shape.outside level root).Surrounds shape.totalCount where
  ordered := Shape.disps_mono
    (min_le_min_right _ (Nat.le_add_right root (2 ^ level)))
  ending := Nat.add_sub_cancel' (Shape.disps_mono (min_le_right _ _))

/-- The number of shifts that empty a mask. -/
theorem countShifts_pow
    (fuel k : Nat)
    {level : Nat}
    (enough : level < fuel) :
    countShifts fuel (2 ^ level) k = k + level + 1 := by
  induction fuel generalizing level k with
  | zero => omega
  | succ fuel ih =>
    rw [countShifts, if_pos (Nat.two_pow_pos level).ne']
    cases level with
    | zero => cases fuel <;> rfl
    | succ level =>
      have half : 2 ^ (level + 1) >>> 1 = 2 ^ level := by
        rw [Nat.shiftRight_eq_div_pow, Nat.pow_one, pow_succ, Nat.mul_div_cancel _ two_pos]
      rw [half, ih (k + 1) (by omega)]
      omega

theorem shiftRight_pow
    {level step : Nat}
    (more : step < level) :
    2 ^ level >>> (step + 1) = 2 ^ (level - (step + 1)) := by
  rw [Nat.shiftRight_eq_div_pow, Nat.pow_div (by omega) two_pos]

theorem shiftRight_pow_self (level : Nat) :
    2 ^ level >>> (level + 1) = 0 := by
  rw [Nat.shiftRight_eq_div_pow,
    Nat.div_eq_of_lt (Nat.pow_lt_pow_right one_lt_two (Nat.lt_succ_self _))]

/-- When the source sends in a step of the forwarding. -/
theorem Shape.sendsAt_iff
    {level bit rank : Nat}
    (forwards : shape.Forwards level rank) :
    (rank < rank ^^^ 2 ^ bit ∧ (rank : Int) < blockStart rank (bit + 1) +
        ((shape.commSize : Int) - blockStart rank level - (2 ^ level : Nat)) ∧
      (blockStart rank (bit + 1) : Int) +
        ((shape.commSize : Int) - blockStart rank level - (2 ^ level : Nat)) ≤
          (rank ^^^ 2 ^ bit : Nat)) ↔
      shape.SendsAt level bit rank := by
  have block := blockStart_eq_sub rank (bit + 1)
  have low := mod_two_pow_succ rank bit
  have small := Nat.mod_le rank (2 ^ (bit + 1))
  rw [lt_xor_mask_iff]
  unfold Shape.SendsAt Shape.completed
  simp only [forwards, true_and]
  refine and_congr_right fun clear => ?_
  rw [if_neg clear] at low
  rw [xor_mask_of_clear clear]
  generalize 2 ^ level = mask
  omega

/-- When the source receives in a step of the forwarding. -/
theorem Shape.receivesAt_iff
    {level bit rank : Nat}
    (forwards : shape.Forwards level rank) :
    (rank ^^^ 2 ^ bit < rank ∧ ((rank ^^^ 2 ^ bit : Nat) : Int) < blockStart rank (bit + 1) +
        ((shape.commSize : Int) - blockStart rank level - (2 ^ level : Nat)) ∧
      (blockStart rank (bit + 1) : Int) +
        ((shape.commSize : Int) - blockStart rank level - (2 ^ level : Nat)) ≤ rank) ↔
      shape.ReceivesAt level bit rank := by
  have block := blockStart_eq_sub rank (bit + 1)
  have low := mod_two_pow_succ rank bit
  have small := Nat.mod_le rank (2 ^ (bit + 1))
  have order := lt_xor_mask_iff rank bit
  unfold Shape.ReceivesAt Shape.completed
  simp only [forwards, true_and]
  by_cases set : BitSet rank bit
  · have atLeast := mask_le_of_bitSet set
    rw [if_pos set] at low
    rw [xor_mask_of_set set]
    simp only [set, true_and]
    generalize 2 ^ level = mask
    omega
  · have above := order.mpr set
    simp only [set, false_and, iff_false]
    omega

/-- The elements of the blocks that one rank sends to another in a step of the
forwarding. -/
def Shape.forwardMsg
    (shape : Shape)
    (uop : Cell → Cell → Cell)
    (contents : Contents Cell)
    (level step src : Nat) : List Cell :=
  (shape.outside level (otherRoot level src)).packed (shape.forwardedAt uop contents level step src)

include inComm in
/-- The communications of a rank in a step of the forwarding. -/
theorem Shape.ops_forward
    {level step : Nat}
    (more : step < level) :
    (shape.doublingRound uop contents rank (.forward level step)).ops =
      if shape.SendsAt level (level - (step + 1)) rank then
        [.send (rank ^^^ 2 ^ (level - (step + 1))) (shape.forwardMsg uop contents level step rank)]
      else if shape.ReceivesAt level (level - (step + 1)) rank then
        [.recv (rank ^^^ 2 ^ (level - (step + 1)))
          (shape.forwardMsg uop contents level step (rank ^^^ 2 ^ (level - (step + 1))))]
      else [] := by
  unfold Shape.doublingRound Shape.forwardMsg messageIf Round.ops
  rw [otherRoot_xor_mask (by omega)]
  by_cases sends : shape.SendsAt level (level - (step + 1)) rank
  · have keeps : ¬ shape.ReceivesAt level (level - (step + 1)) rank :=
      fun receives => sends.2.1 receives.2.1
    simp [inComm, sends, keeps]
  · by_cases receives : shape.ReceivesAt level (level - (step + 1)) rank <;>
      simp [inComm, sends, receives]

include inComm in
theorem Shape.ends_forwardLoop
    {level : Nat}
    (forwards : shape.Forwards level rank)
    (fuel : Nat)
    {step : Nat}
    (within : step ≤ level)
    (enough : level ≤ step + fuel) :
    ((shape.call uop contents rank).forwardLoop
        (shape.outside level (otherRoot level rank))
        ((shape.commSize : Int) - blockStart rank level - (2 ^ level : Nat))
        fuel (2 ^ level >>> (step + 1)) (level - step)
        (shape.receivedAfter level rank step)
        (tabulate shape.totalCount (shape.forwardedAt uop contents level step rank))).Ends
      (opsOf (shape.doublingRound uop contents rank)
        ((range' step (level - step)).map (.forward level)))
      (shape.receivedAfter level rank level, tabulate shape.totalCount
          (shape.forwardedAt uop contents level level rank)) := by
  have self : (shape.call uop contents rank).rank = rank := rfl
  have surrounds := @Shape.outside_surrounds shape level (otherRoot level rank)
  induction fuel generalizing step with
  | zero =>
    obtain rfl : step = level := by omega
    rw [Call.forwardLoop, shiftRight_pow_self, if_neg (not_not.mpr rfl), Nat.sub_self]
    exact Prog.ends_done _
  | succ fuel ih =>
    by_cases more : step < level
    · have next := @ih (step + 1) more (by omega)
      have bitEq : level - step = level - (step + 1) + 1 := by omega
      have shifted : 2 ^ (level - (step + 1)) >>> 1 = 2 ^ level >>> (step + 1 + 1) := by
        rw [← shiftRight_pow more, ← Nat.shiftRight_add]
      have sendsIff := @Shape.sendsAt_iff shape level (level - (step + 1)) rank forwards
      have receivesIff := @Shape.receivesAt_iff shape level (level - (step + 1)) rank forwards
      have same := @otherRoot_xor_mask (level - (step + 1)) level (by omega) rank
      rw [bitEq, range'_succ, map_cons, opsOf_cons, Shape.ops_forward inComm more]
      rw [Call.forwardLoop, shiftRight_pow more,
        if_pos (Nat.two_pow_pos (level - (step + 1))).ne', self, Call.treeRoot_eq]
      simp only [sendsIff, receivesIff, shifted, Nat.add_sub_cancel]
      by_cases sends : shape.SendsAt level (level - (step + 1)) rank
      · have keeps : ¬ shape.ReceivesAt level (level - (step + 1)) rank :=
          fun receives => sends.2.1 receives.2.1
        have sent := surrounds.pack (shape.forwardedAt uop contents level step rank)
        have kept : shape.forwardedAt uop contents level (step + 1) rank =
            shape.forwardedAt uop contents level step rank := if_neg keeps
        have flag : shape.receivedAfter level rank (step + 1) =
            shape.receivedAfter level rank step := if_neg keeps
        rw [if_pos sends, if_pos sends]
        rw [flag, kept] at next
        exact (ends_ofOption sent).bind ((ends_mpicSend _ _).bind next)
      · rw [if_neg sends, if_neg sends]
        by_cases receives : shape.ReceivesAt level (level - (step + 1)) rank
        · have stored := surrounds.unpack
            (shape.forwardedAt uop contents level step rank)
            (shape.forwardedAt uop contents level step (rank ^^^ 2 ^ (level - (step + 1))))
          have received := @ends_mpicRecv _ _
            (rank ^^^ 2 ^ (level - (step + 1))) _
            ((shape.outside level (otherRoot level rank)).length_packed
              (shape.forwardedAt uop contents level step (rank ^^^ 2 ^ (level - (step + 1))))).le
          have merged : shape.forwardedAt uop contents level (step + 1) rank =
              (shape.outside level (otherRoot level rank)).merge
                (shape.forwardedAt uop contents level step rank)
                (shape.forwardedAt uop contents level step
                  (rank ^^^ 2 ^ (level - (step + 1)))) := if_pos receives
          have flag : shape.receivedAfter level rank (step + 1) = true :=
            if_pos receives
          rw [if_pos receives, if_pos receives, Shape.forwardMsg, same]
          rw [flag, merged] at next
          exact received.bind ((ends_ofOption stored).bind next)
        · have kept : shape.forwardedAt uop contents level (step + 1) rank =
              shape.forwardedAt uop contents level step rank := if_neg receives
          have flag : shape.receivedAfter level rank (step + 1) =
              shape.receivedAfter level rank step := if_neg receives
          rw [if_neg receives, if_neg receives]
          rw [flag, kept] at next
          exact next
    · obtain rfl : step = level := by omega
      rw [Call.forwardLoop, shiftRight_pow_self, if_neg (not_not.mpr rfl), Nat.sub_self]
      exact Prog.ends_done _

/-- Where the other subtree is complete, nothing is forwarded. -/
theorem Shape.forwardedAt_of_complete
    {rank level : Nat}
    (complete : ¬ shape.Forwards level rank)
    (step : Nat) :
    shape.forwardedAt uop contents level step rank =
      shape.forwardedAt uop contents level 0 rank := by
  induction step with
  | zero => rfl
  | succ step ih =>
    rw [← ih]
    exact if_neg fun receives => complete receives.1

theorem Shape.receivedAfter_of_complete
    {rank level : Nat}
    (complete : ¬ shape.Forwards level rank)
    (step : Nat) :
    shape.receivedAfter level rank step = shape.receivedAfter level rank 0 := by
  induction step with
  | zero => rfl
  | succ step ih =>
    rw [← ih]
    exact if_neg fun receives => complete receives.1

section

include inComm

theorem Shape.ends_completeTree
    (level : Nat) :
    ((shape.call uop contents rank).completeTree (2 ^ level)
        (otherRoot level rank) (blockStart rank level)
        (shape.outside level (otherRoot level rank))
        (shape.receivedAfter level rank 0)
        (tabulate shape.totalCount (shape.forwardedAt uop contents level 0 rank))).Ends
      (opsOf (shape.doublingRound uop contents rank) ((List.range level).map (.forward level)))
      (shape.receivedAfter level rank level, tabulate shape.totalCount
          (shape.forwardedAt uop contents level level rank)) := by
  unfold Call.completeTree
  by_cases forwards : shape.Forwards level rank
  · have loop := @Shape.ends_forwardLoop _ shape uop contents rank inComm level
      forwards (2 ^ level) 0 (Nat.zero_le _)
      (by rw [zero_add]; exact Nat.lt_two_pow_self.le)
    have shifts : countShifts (2 ^ level + 1) (2 ^ level) 0 - 1 = level := by
      rw [countShifts_pow _ 0 (Nat.lt_succ_of_lt Nat.lt_two_pow_self)]
      omega
    rw [Nat.sub_zero, ← range_eq_range'] at loop
    rw [if_pos (by exact forwards), shifts]
    exact loop
  · rw [if_neg (by exact forwards), opsOf_of_idle, Shape.forwardedAt_of_complete forwards level,
      Shape.receivedAfter_of_complete forwards level]
    · exact Prog.ends_done _
    · intro label member
      obtain ⟨step, inSteps, rfl⟩ := mem_map.mp member
      rw [Shape.ops_forward inComm (mem_range.mp inSteps), if_neg fun sends => forwards sends.1,
        if_neg fun receives => forwards receives.1]

/-- The communications of a rank in the exchange at a level. -/
theorem Shape.ops_exchange
    (level : Nat) :
    (shape.doublingRound uop contents rank (.exchange level)).ops =
      if rank ^^^ 2 ^ level < shape.commSize then
        [.send (rank ^^^ 2 ^ level)
          ((shape.outside level (blockStart rank level)).packed
            (shape.doubledAt uop contents level rank)),
        .recv (rank ^^^ 2 ^ level)
          ((shape.outside level (otherRoot level rank)).packed
            (shape.doubledAt uop contents level (rank ^^^ 2 ^ level)))]
      else [] := by
  unfold Shape.doublingRound messageIf Round.ops
  by_cases partnered : rank ^^^ 2 ^ level < shape.commSize <;> simp [inComm, partnered]

theorem Shape.ends_exchangeTrees
    (level : Nat) :
    ((shape.call uop contents rank).exchangeTrees (rank ^^^ 2 ^ level)
        (shape.outside level (blockStart rank level))
        (shape.outside level (otherRoot level rank))
        { tmpRecvbuf := tabulate shape.totalCount
            (shape.stateAt uop contents level rank).2
          tmpResults := tabulate shape.totalCount
            (shape.doubledAt uop contents level rank) }).Ends
      (shape.doublingRound uop contents rank (.exchange level)).ops
      (shape.receivedAfter level rank 0, tabulate shape.totalCount
          (shape.forwardedAt uop contents level 0 rank)) := by
  have size : (shape.call uop contents rank).commSize = shape.commSize := rfl
  unfold Call.exchangeTrees
  rw [size, Shape.ops_exchange inComm]
  by_cases partnered : rank ^^^ 2 ^ level < shape.commSize
  · have sent := (@Shape.outside_surrounds shape level
      (blockStart rank level)).pack (shape.doubledAt uop contents level rank)
    have received := @ends_mpicRecv _ _ (rank ^^^ 2 ^ level) _
      ((shape.outside level (otherRoot level rank)).length_packed
        (shape.doubledAt uop contents level (rank ^^^ 2 ^ level))).le
    have stored := (@Shape.outside_surrounds shape level
      (otherRoot level rank)).unpack (shape.stateAt uop contents level rank).2
        (shape.doubledAt uop contents level (rank ^^^ 2 ^ level))
    have flag : shape.receivedAfter level rank 0 = true := decide_eq_true partnered
    have merged : shape.forwardedAt uop contents level 0 rank =
        (shape.outside level (otherRoot level rank)).merge
          (shape.stateAt uop contents level rank).2
          (shape.doubledAt uop contents level (rank ^^^ 2 ^ level)) :=
      if_pos partnered
    rw [if_pos partnered, if_pos partnered, flag, merged]
    exact (ends_ofOption sent).bind
      ((ends_mpicSend _ _).bind (received.bind ((ends_ofOption stored).bind (Prog.ends_done _))))
  · have flag : shape.receivedAfter level rank 0 = false := decide_eq_false partnered
    have kept : shape.forwardedAt uop contents level 0 rank =
        (shape.stateAt uop contents level rank).2 := if_neg partnered
    rw [if_neg partnered, if_neg partnered, flag, kept]
    exact Prog.ends_done _

end

/-- The buffers of a rank at a level. -/
def Shape.doublingTemps
    (shape : Shape)
    (uop : Cell → Cell → Cell)
    (contents : Contents Cell)
    (level rank : Nat) : Temps Cell where
  tmpRecvbuf := tabulate shape.totalCount (shape.stateAt uop contents level rank).2
  tmpResults := tabulate shape.totalCount (shape.doubledAt uop contents level rank)

section

variable (ordered : shape.isCommutative = false)

include ordered

theorem Shape.combine_eq
    (level rank : Nat) :
    (if shape.receivedAfter level rank level then
        (shape.call uop contents rank).combine
          (shape.outside level (otherRoot level rank)) (otherRoot level rank)
          (blockStart rank level)
          { shape.doublingTemps uop contents level rank with
            tmpRecvbuf := tabulate shape.totalCount
              (shape.forwardedAt uop contents level level rank) }
      else some
        { shape.doublingTemps uop contents level rank with
          tmpRecvbuf := tabulate shape.totalCount
            (shape.forwardedAt uop contents level level rank) }) =
      some (shape.doublingTemps uop contents (level + 1) rank) := by
  have surrounds := @Shape.outside_surrounds shape level (otherRoot level rank)
  have order : (shape.call uop contents rank).isCommutative = false := ordered
  have operation : (shape.call uop contents rank).uop = uop := rfl
  have state : shape.stateAt uop contents (level + 1) rank =
      shape.combinedAfter uop (shape.doubledAt uop contents level)
        (fun other => (shape.stateAt uop contents level other).2) level rank := rfl
  unfold Call.combine Shape.doublingTemps
  rw [Shape.doubledAt, Shape.doubledAt, state, Shape.combinedAfter]
  by_cases received : shape.receivedAfter level rank level = true
  · rw [if_pos received, if_pos received]
    by_cases below : otherRoot level rank < blockStart rank level
    · rw [if_pos (Or.inr below), if_pos below, operation, surrounds.applyOp, map_some]
      rfl
    · rw [if_neg (by rw [order]; simp only [Bool.false_eq_true, false_or, below,
          not_false_eq_true]), if_neg below, operation, surrounds.applyOp,
        bind_some, surrounds.pack, bind_some, surrounds.unpack, map_some]
      rfl
  · rw [if_neg received, if_neg received]
    rfl

include inComm in
theorem Shape.ends_doublingLoop
    (fuel : Nat)
    {level : Nat}
    (within : level ≤ shape.depth)
    (enough : shape.depth ≤ level + fuel) :
    ((shape.call uop contents rank).doublingLoop fuel (2 ^ level) level
        (shape.doublingTemps uop contents level rank)).Ends
      (opsOf (shape.doublingRound uop contents rank)
        ((range' level (shape.depth - level)).flatMap levelSchedule))
      (shape.doublingTemps uop contents shape.depth rank) := by
  have size : (shape.call uop contents rank).commSize = shape.commSize := rfl
  have self : (shape.call uop contents rank).rank = rank := rfl
  have exhausted : ¬ 2 ^ shape.depth < shape.commSize := not_lt.mpr (Nat.le_pow_clog one_lt_two _)
  induction fuel generalizing level with
  | zero =>
    obtain rfl : level = shape.depth := by omega
    rw [Call.doublingLoop, size, if_neg exhausted, Nat.sub_self]
    exact Prog.ends_done _
  | succ fuel ih =>
    by_cases more : level < shape.depth
    · have small : 2 ^ level < shape.commSize := (Nat.lt_clog_iff_pow_lt one_lt_two).mp more
      have doubled : 2 ^ level <<< 1 = 2 ^ (level + 1) := by
        rw [Nat.shiftLeft_eq, Nat.pow_one, pow_succ]
      rw [Call.doublingLoop, size, if_pos small, self,
        show shape.depth - level = shape.depth - (level + 1) + 1 by omega,
        range'_succ, flatMap_cons, opsOf_append, levelSchedule, opsOf_cons, append_assoc]
      simp only [Call.treeRoot_eq, Shape.call_outside, doubled]
      exact (Shape.ends_exchangeTrees inComm level).bind
        ((Shape.ends_completeTree inComm level).bind
          ((ends_ofOption (Shape.combine_eq ordered level rank)).bind (ih more (by omega))))
    · obtain rfl : level = shape.depth := by omega
      rw [Call.doublingLoop, size, if_neg exhausted, Nat.sub_self]
      exact Prog.ends_done _

/-- The receive buffer of a rank after the recursive doubling. -/
def Shape.doublingOut
    (shape : Shape)
    (uop : Cell → Cell → Cell)
    (contents : Contents Cell)
    (rank : Nat) : List Cell :=
  tabulate (shape.recvLength rank)
    (patch (shape.recvcell contents rank) 0 (shape.recvcnts rank)
      fun index => shape.doubledAt uop contents shape.depth rank (shape.disps rank + index))

include inComm in
theorem Shape.ends_recursiveDoubling :
    (shape.call uop contents rank).recursiveDoubling.Ends
      (opsOf (shape.doublingRound uop contents rank) shape.doublingSchedule)
      (shape.doublingOut uop contents rank) := by
  have enough : shape.depth ≤ 0 + shape.commSize := by
    rw [zero_add]
    exact Nat.clog_le_of_le_pow Nat.lt_two_pow_self.le
  have loop := @Shape.ends_doublingLoop _ shape uop contents rank inComm ordered
    shape.commSize 0 (Nat.zero_le _) enough
  have copied := localcopy_tabulate (Shape.slot_within inComm)
    (show 0 + shape.recvcnts rank ≤ shape.recvLength rank by
      have := Shape.recvcnts_le_recvLength inComm
      omega)
    (shape.doubledAt uop contents shape.depth rank)
    (shape.recvcell contents rank)
  rw [← Shape.call_recvbuf] at copied
  rw [Nat.sub_zero, ← range_eq_range'] at loop
  rw [Shape.doublingSchedule, ← append_nil (opsOf _ _)]
  exact (ends_ofOption (Shape.startTemps_eq rank)).bind (loop.bind (ends_ofOption copied))

end

end Mpich.Coll.ReduceScatter
