import Mpich.Coll.Allgather.Doubling

/-!
# Bruck's algorithm

Each process has the data of the ranks from its own on, around the communicator,
in a buffer in which they lie one behind the other. In each step it hands all it
has to a process behind it, and gets as much from a process ahead.
-/

namespace Mpich.Coll.Allgather

open MessagePassing List Buffer Cyclic

variable {Cell : Type}

/-- The amount of data of the rank some steps ahead. -/
def turnedSize
    (commSize : Nat)
    (size : Nat → Nat)
    (rank steps : Nat) : Nat :=
  size (ahead commSize rank steps)

/-- The data of all ranks from one on, around the communicator. -/
def turned
    (commSize : Nat)
    (size : Nat → Nat)
    (block : Nat → Nat → Cell)
    (rest : Nat → Cell)
    (rank : Nat) : Nat → Cell :=
  (Layout.consecutive commSize (turnedSize commSize size rank)).fill
    (fun steps => block (ahead commSize rank steps)) rest

/-- The first data is the same whatever the buffer holds besides. -/
theorem slice_turned_rest
    {commSize count : Nat}
    (within : count ≤ commSize)
    (size : Nat → Nat)
    (block : Nat → Nat → Cell)
    (rest other : Nat → Cell)
    (rank : Nat) :
    slice (turned commSize size block rest rank) 0
        (prefixSum (turnedSize commSize size rank) count) =
      slice (turned commSize size block other rank) 0
        (prefixSum (turnedSize commSize size rank) count) := by
  rw [← span_zero]
  exact (slice_eq_joined (by omega) _ _ rest).trans (slice_eq_joined (by omega) _ _ other).symm

/-- All data is as much from one rank as from another. -/
theorem prefixSum_turnedSize
    {commSize rank : Nat}
    (inComm : rank < commSize)
    (size : Nat → Nat) :
    prefixSum (turnedSize commSize size rank) commSize = prefixSum size commSize := by
  have upper : prefixSum (turnedSize commSize size rank) (commSize - rank) =
      prefixSum (fun steps => size (rank + steps)) (commSize - rank) := by
    apply prefixSum_congr
    intro steps within
    rw [turnedSize, ahead_eq_ite inComm (by omega), if_pos (by omega)]
  have lower : prefixSum (fun steps =>
      turnedSize commSize size rank (commSize - rank + steps)) rank = prefixSum size rank := by
    apply prefixSum_congr
    intro steps within
    rw [turnedSize, ahead_eq_ite inComm (by omega), if_neg (by omega)]
    apply congrArg
    omega
  calc
    prefixSum (turnedSize commSize size rank) commSize =
        prefixSum (turnedSize commSize size rank) (commSize - rank + rank) := by
      rw [Nat.sub_add_cancel inComm.le]
    _ = prefixSum size rank + prefixSum (fun steps => size (rank + steps)) (commSize - rank) := by
      rw [prefixSum_add, upper, lower, add_comm]
    _ = prefixSum size commSize := by
      rw [← prefixSum_add, Nat.add_sub_cancel' inComm.le]

section

variable {commSize rank count number : Nat}
variable (inComm : rank < commSize) (within : count + number ≤ commSize)

include inComm within

theorem turnedSize_ahead
    {steps : Nat}
    (bound : steps < number)
    (size : Nat → Nat) :
    turnedSize commSize size (ahead commSize rank count) steps =
      turnedSize commSize size rank (count + steps) := by
  unfold turnedSize
  rw [ahead_ahead inComm (by omega)]

/-- The first data of a rank ahead lies behind one's own. -/
theorem prefixSum_turnedSize_ahead (size : Nat → Nat) :
    prefixSum (turnedSize commSize size (ahead commSize rank count)) number =
      span (turnedSize commSize size rank) count number := by
  rw [span, prefixSum_add, Nat.add_sub_cancel_left]
  apply prefixSum_congr
  intro steps bound
  exact turnedSize_ahead inComm within bound size

theorem slice_turned_ahead
    (size : Nat → Nat)
    (block : Nat → Nat → Cell)
    (rest other : Nat → Cell) :
    slice
        (turned commSize size block other (ahead commSize rank count)) 0
        (span (turnedSize commSize size rank) count number) =
      slice (turned commSize size block rest rank)
        (prefixSum (turnedSize commSize size rank) count)
        (span (turnedSize commSize size rank) count number) := by
  apply slice_congr
  intro index inside
  rw [zero_add]
  apply @Layout.fill_consecutive_shift _ number _ _ _ _ _ _ _ _ (by omega) within
  · intro steps bound
    exact turnedSize_ahead inComm within bound size
  · intro steps bound
    rw [ahead_ahead inComm (by omega)]
  · rw [prefixSum_turnedSize_ahead inComm within]
    exact inside

end

section

variable {commSize rank : Nat} (inComm : rank < commSize)
variable (size : Nat → Nat) (block : Nat → Nat → Cell) (rest other : Nat → Cell)

include inComm

/-- The data of the ranks from one on to the last. -/
theorem slice_turned_upper :
    slice (turned commSize size block rest rank) 0 (span size rank (commSize - rank)) =
      slice ((Layout.consecutive commSize size).fill block other)
        (prefixSum size rank) (span size rank (commSize - rank)) := by
  have ahead : ∀ steps < commSize - rank, ahead commSize rank steps = rank + steps := by
    intro steps less
    rw [ahead_eq_ite inComm (by omega), if_pos (by omega)]
  apply slice_congr
  intro index inside
  rw [zero_add]
  apply @Layout.fill_consecutive_shift _ (commSize - rank) _ _ _ _ _ _ _ _ (by omega)
    (by omega)
  · intro steps less
    rw [turnedSize, ahead steps less]
  · intro steps less
    rw [ahead steps less]
  · rw [span, prefixSum_add, Nat.add_sub_cancel_left] at inside
    rw [prefixSum_congr fun steps less => by rw [turnedSize, ahead steps less]]
    exact inside

/-- The data of the ranks before one. -/
theorem slice_turned_lower :
    slice (turned commSize size block rest rank)
        (span size rank (commSize - rank)) (prefixSum size rank) =
      slice ((Layout.consecutive commSize size).fill block other) 0 (prefixSum size rank) := by
  have ahead : ∀ steps < rank, ahead commSize rank (commSize - rank + steps) = steps := by
    intro steps less
    rw [ahead_eq_ite inComm (by omega), if_neg (by omega)]
    omega
  have upper : span size rank (commSize - rank) =
      prefixSum (turnedSize commSize size rank) (commSize - rank) := by
    rw [span, prefixSum_add, Nat.add_sub_cancel_left]
    apply prefixSum_congr
    intro steps less
    rw [turnedSize, ahead_eq_ite inComm (by omega), if_pos (by omega)]
  rw [upper]
  symm
  apply slice_congr
  intro index inside
  rw [zero_add]
  apply @Layout.fill_consecutive_shift _ rank _ _ _ _ _ _ _ _ inComm.le (by omega)
  · intro steps less
    rw [turnedSize, ahead steps less]
  · intro steps less
    rw [ahead steps less]
  · exact inside

end

/-- The number of blocks that are handed on in a step. -/
def bruckCount (commSize level : Nat) : Nat :=
  min (2 ^ level) (commSize - 2 ^ level)

/-- The data that is handed on in a step. -/
def bruckData
    (commSize : Nat)
    (size : Nat → Nat)
    (block : Nat → Nat → Cell)
    (level rank : Nat) : List Cell :=
  slice (turned commSize size block (fun _ => block 0 0) rank) 0
    (prefixSum (turnedSize commSize size rank) (bruckCount commSize level))

/-- The communications of a rank in a step. -/
def bruckRound
    (commSize : Nat)
    (size : Nat → Nat)
    (block : Nat → Nat → Cell)
    (rank level : Nat) : Round Nat (List Cell) :=
  exchangeRound (· < commSize) (behind commSize · (2 ^ level))
    (ahead commSize · (2 ^ level)) (bruckData commSize size block level)
    rank

theorem bruckRound_agrees
    (commSize : Nat)
    (size : Nat → Nat)
    (block : Nat → Nat → Cell) :
    ScheduleAgrees (bruckRound commSize size block) (List.range (levels commSize)) := by
  intro level member src dst
  apply reverseRing_agrees
  exact (lt_levels_iff.mp (mem_range.mp member)).le

/-- What a process has after some steps. -/
structure Turned
    (process : Process)
    (size : Nat → Nat)
    (length : Nat)
    (goal : Nat → Cell)
    (count : Nat)
    (node : Node Cell) : Prop where
  currCnt : node.currCnt * process.typeSize =
    prefixSum (turnedSize process.commSize size process.rank) count
  knows : Knows length goal
    (· < prefixSum (turnedSize process.commSize size process.rank) count)
    node.buf

/-- Counts in elements describe the data around the communicator in bytes. -/
structure TurnedMeasures
    (process : Process)
    (size : Nat → Nat)
    (room : Nat → Nat)
    (next : Nat → Nat → Nat)
    (firstCnt : Nat → Nat)
    (restRoom : Nat → Nat → Nat) : Prop where
  firstCnt_eq : ∀ count ≤ process.commSize, firstCnt count * process.typeSize =
    prefixSum (turnedSize process.commSize size process.rank) count
  room_le : ∀ count currCnt, count + count ≤ process.commSize → currCnt * process.typeSize =
      prefixSum (turnedSize process.commSize size process.rank) count →
    span (turnedSize process.commSize size process.rank) count count ≤
      room currCnt * process.typeSize
  next_eq : ∀ count currCnt recvCnt, count + count ≤ process.commSize →
    currCnt * process.typeSize = prefixSum (turnedSize process.commSize size process.rank) count →
    recvCnt * process.typeSize = span (turnedSize process.commSize size process.rank) count count →
    next currCnt recvCnt * process.typeSize =
      prefixSum (turnedSize process.commSize size process.rank) (count + count)
  restRoom_le : ∀ count currCnt, count ≤ process.commSize → currCnt * process.typeSize =
      prefixSum (turnedSize process.commSize size process.rank) count →
    span (turnedSize process.commSize size process.rank) count (process.commSize - count) ≤
      restRoom (process.commSize - count) currCnt * process.typeSize

section

variable {process : Process} {size : Nat → Nat} {room : Nat → Nat}
variable {next restRoom : Nat → Nat → Nat} {firstCnt : Nat → Nat}
variable {block : Nat → Nat → Cell} {rest : Nat → Cell} {length : Nat}
variable (inComm : process.rank < process.commSize)
variable (measures : TurnedMeasures process size room next firstCnt restRoom)
variable (fits : prefixSum size process.commSize ≤ length)

include measures in
/-- The number of elements of a message makes up its length. -/
theorem TurnedMeasures.getCount
    {count number : Nat}
    (within : count + number ≤ process.commSize)
    {msg : List Cell}
    (received : msg.length = span (turnedSize process.commSize size process.rank) count number) :
    process.getCount msg * process.typeSize =
      span (turnedSize process.commSize size process.rank) count number := by
  have elements : span (turnedSize process.commSize size process.rank) count
      number = (firstCnt (count + number) - firstCnt count) * process.typeSize := by
    rw [Nat.sub_mul, measures.firstCnt_eq _ within, measures.firstCnt_eq count (by omega)]
    rfl
  unfold Process.getCount
  rw [received]
  apply Nat.div_mul_cancel
  rw [elements]
  exact Nat.dvd_mul_left _ _

include inComm measures fits

variable {node : Node Cell}

/-- The send and the receive of a step. -/
theorem Turned.exchange
    {level sentCnt roomCnt : Nat}
    (within : level < levels process.commSize)
    (here : Turned process size length
      (turned process.commSize size block rest process.rank) (2 ^ level) node)
    (sent : sentCnt * process.typeSize = prefixSum (turnedSize process.commSize size process.rank)
        (bruckCount process.commSize level))
    (accepted : span (turnedSize process.commSize size process.rank) (2 ^ level)
        (bruckCount process.commSize level) ≤ roomCnt * process.typeSize) :
    ∃ written recvCnt, (process.sendElements (behind process.commSize process.rank (2 ^ level))
          node.buf 0 sentCnt).Ends
        [.send (behind process.commSize process.rank (2 ^ level))
          (bruckData process.commSize size block level process.rank)] () ∧
      (process.recvElements
          (ahead process.commSize process.rank (2 ^ level))
          node.buf node.currCnt roomCnt).Ends
        [.recv (ahead process.commSize process.rank (2 ^ level))
          (bruckData process.commSize size block level
            (ahead process.commSize process.rank (2 ^ level)))]
        (written, recvCnt) ∧
      recvCnt * process.typeSize = span (turnedSize process.commSize size process.rank) (2 ^ level)
          (bruckCount process.commSize level) ∧
      Knows length
        (turned process.commSize size block rest process.rank)
        (· < prefixSum (turnedSize process.commSize size process.rank)
          (2 ^ level + bruckCount process.commSize level)) written := by
  have smaller := lt_levels_iff.mp within
  have inside : 2 ^ level + bruckCount process.commSize level ≤ process.commSize := by
    unfold bruckCount
    omega
  have fewer : bruckCount process.commSize level ≤ 2 ^ level := min_le_left _ _
  have total := prefixSum_turnedSize inComm size
  have joint := prefixSum_add_span
    (turnedSize process.commSize size process.rank) (2 ^ level)
    (bruckCount process.commSize level)
  have bound := @prefixSum_mono (turnedSize process.commSize size process.rank)
    _ _ inside
  have first := @prefixSum_mono (turnedSize process.commSize size process.rank)
    _ _ fewer
  have loaded : loadAny node.buf (0 * process.typeSize)
      (sentCnt * process.typeSize) =
        some (bruckData process.commSize size block level process.rank) := by
    rw [zero_mul, sent, bruckData, slice_turned_rest (by omega) size block _ rest]
    apply here.knows.loadAny (fun _ => by omega)
    rintro index ⟨-, upper⟩
    omega
  have shifted := @slice_turned_ahead Cell process.commSize process.rank (2 ^ level)
    (bruckCount process.commSize level) inComm inside size block rest
    (fun _ => block 0 0)
  have msg : bruckData process.commSize size block level
      (ahead process.commSize process.rank (2 ^ level)) = _ :=
    (congrArg _ (prefixSum_turnedSize_ahead inComm inside size)).trans shifted
  obtain ⟨written, stored, knows⟩ := @Knows.storeAny _ _ _ _ _ here.knows
    (prefixSum (turnedSize process.commSize size process.rank) (2 ^ level))
    (span (turnedSize process.commSize size process.rank) (2 ^ level)
      (bruckCount process.commSize level)) (fun _ => by omega)
  have received : (bruckData process.commSize size block level
      (ahead process.commSize process.rank (2 ^ level))).length = _ :=
    (congrArg List.length msg).trans (length_slice _ _ _)
  refine ⟨written, _, Process.ends_sendElements loaded,
    Process.ends_recvElements (received.le.trans accepted) ?_,
    measures.getCount inside received, knows.mono fun index _ less => ?_⟩
  · rw [msg, here.currCnt]
    exact stored
  · change _ ∨ _ ≤ _ ∧ _ < _
    omega

/-- The steps in which as many blocks come as there are already. -/
theorem yields_bruckLoop
    (fuel : Nat)
    {level : Nat}
    (within : 2 ^ level ≤ process.commSize)
    (enough : Nat.log 2 process.commSize ≤ level + fuel)
    (here : Turned process size length
      (turned process.commSize size block rest process.rank) (2 ^ level) node) :
    (process.bruckLoop room next fuel (2 ^ level) node).Yields
      (opsOf (bruckRound process.commSize size block process.rank)
        (range' level (Nat.log 2 process.commSize - level)))
      (fun out => out.1 = 2 ^ Nat.log 2 process.commSize ∧ Turned process size length
          (turned process.commSize size block rest process.rank)
          (2 ^ Nat.log 2 process.commSize) out.2) := by
  have nonempty : process.commSize ≠ 0 := (Nat.zero_lt_of_lt inComm).ne'
  have bound : level ≤ Nat.log 2 process.commSize := Nat.le_log_of_pow_le one_lt_two within
  have step : ∀ level, 2 ^ level ≤ process.commSize / 2 ↔ level < Nat.log 2 process.commSize := by
    intro level
    rw [← Nat.succ_le_iff, Nat.le_log_iff_pow_le one_lt_two nonempty,
      Nat.succ_eq_add_one, pow_succ, Nat.le_div_iff_mul_le two_pos]
  induction fuel generalizing level node with
  | zero =>
    obtain rfl : level = Nat.log 2 process.commSize := by omega
    rw [Process.bruckLoop, if_neg fun more => lt_irrefl _ ((step _).mp more), Nat.sub_self]
    exact Prog.yields_pure ⟨rfl, here⟩
  | succ fuel ih =>
    rw [Process.bruckLoop]
    by_cases more : level < Nat.log 2 process.commSize
    · have half := (step level).mpr more
      have count : bruckCount process.commSize level = 2 ^ level := Nat.min_eq_left (by omega)
      have twice : 2 ^ level + 2 ^ level = 2 ^ (level + 1) := by
        rw [pow_succ, mul_two]
      obtain ⟨written, recvCnt, sends, receives, received, knows⟩ :=
        here.exchange inComm measures fits (lt_levels_iff.mpr (by omega))
          (by rw [count, here.currCnt])
          (by
            rw [count]
            exact measures.room_le _ _ (by omega) here.currCnt)
      rw [count] at received knows
      have after := measures.next_eq _ _ _ (by omega) here.currCnt received
      have ops : (bruckRound process.commSize size block process.rank level).ops =
        _ := ops_exchangeRound inComm
      rw [if_pos half, show Nat.log 2 process.commSize - level =
          Nat.log 2 process.commSize - (level + 1) + 1 by omega,
        range'_succ, opsOf_cons, ops]
      refine sends.bind_yields (receives.bind_yields ?_)
      rw [twice] at after knows
      exact ih (by omega) (by omega) ⟨after, knows⟩ more
    · obtain rfl : level = Nat.log 2 process.commSize := by omega
      rw [if_neg fun less => more ((step _).mp less), Nat.sub_self]
      exact Prog.yields_pure ⟨rfl, here⟩

/-- The last step, in which the blocks come that are still missing. -/
theorem yields_bruckRest
    (here : Turned process size length
      (turned process.commSize size block rest process.rank)
      (2 ^ Nat.log 2 process.commSize) node) :
    (process.bruckRest firstCnt restRoom (2 ^ Nat.log 2 process.commSize)
        node).Yields
      (opsOf (bruckRound process.commSize size block process.rank)
        (range' (Nat.log 2 process.commSize)
          (levels process.commSize - Nat.log 2 process.commSize)))
      (Knows length
        (turned process.commSize size block rest process.rank)
        (· < prefixSum size process.commSize)) := by
  have nonempty : process.commSize ≠ 0 := (Nat.zero_lt_of_lt inComm).ne'
  have lower := Nat.pow_log_le_self 2 nonempty
  have upper := Nat.lt_pow_succ_log_self one_lt_two process.commSize
  have total := prefixSum_turnedSize inComm size
  unfold Process.bruckRest
  by_cases complete : process.commSize = 2 ^ Nat.log 2 process.commSize
  · have last : levels process.commSize = Nat.log 2 process.commSize := by
      apply le_antisymm
      · exact Nat.clog_le_of_le_pow complete.le
      · exact Nat.log_le_clog _ _
    rw [last, Nat.sub_self, if_neg (by omega)]
    apply Prog.yields_pure
    apply here.knows.mono
    intro index _ inside
    rw [← complete, total]
    exact inside
  · have last : levels process.commSize = Nat.log 2 process.commSize + 1 := by
      apply le_antisymm
      · apply Nat.clog_le_of_le_pow
        exact upper.le
      · exact lt_levels_iff.mpr (by omega)
    have count : bruckCount process.commSize (Nat.log 2 process.commSize) =
        process.commSize - 2 ^ Nat.log 2 process.commSize :=
      Nat.min_eq_right (by omega)
    obtain ⟨written, recvCnt, sends, receives, -, knows⟩ :=
      here.exchange inComm measures fits (lt_levels_iff.mpr (by omega))
        (by
          rw [count]
          exact measures.firstCnt_eq _ (Nat.sub_le _ _))
        (by
          rw [count]
          exact measures.restRoom_le _ _ lower here.currCnt)
    rw [count, Nat.add_sub_cancel' lower, total] at knows
    have ops : (bruckRound process.commSize size block process.rank
      (Nat.log 2 process.commSize)).ops = _ := ops_exchangeRound inComm
    rw [last, Nat.add_sub_cancel_left, range'_one, opsOf_cons, opsOf_nil, ops, if_pos (by omega)]
    exact sends.bind_yields (receives.bind_yields (Prog.yields_pure knows))

end

/-- The steps of both parts are all steps. -/
theorem opsOf_bruckRound
    (commSize rank : Nat)
    (size : Nat → Nat)
    (block : Nat → Nat → Cell) :
    opsOf (bruckRound commSize size block rank) (List.range (levels commSize)) =
      opsOf (bruckRound commSize size block rank) (range' 0 (Nat.log 2 commSize - 0)) ++
        opsOf (bruckRound commSize size block rank)
          (range' (Nat.log 2 commSize) (levels commSize - Nat.log 2 commSize)) := by
  have order : Nat.log 2 commSize ≤ levels commSize := Nat.log_le_clog _ _
  have append := @range'_append_1 0 (Nat.log 2 commSize) (levels commSize - Nat.log 2 commSize)
  rw [zero_add, Nat.add_sub_cancel' order] at append
  rw [← opsOf_append, Nat.sub_zero, append, range_eq_range']

end Mpich.Coll.Allgather
