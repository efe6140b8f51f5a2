import Mpich.Coll.Bcast.Defs
import Mpich.Foundation.MessagePassing.Schedule

/-!
# Running down a binomial tree

In relative ranks, the parent of a rank has its lowest bit cleared. The rounds
go from the highest bit to the lowest: in the round of a bit, the ranks that are
multiples of twice its mask send to the ranks one mask above them. What a
process does in these rounds follows from what it does in one of them.
-/

namespace Mpich.Coll.Bcast

open MessagePassing Masks List Cyclic

variable {Cell State : Type}

namespace Shape

variable (shape : Shape)

/-- The relative rank of a rank. -/
def relative (rank : Nat) : Nat :=
  behind shape.commSize rank shape.root

/-- The number of rounds. -/
def levels : Nat :=
  Nat.clog 2 shape.commSize

/-- The communications of a rank in the round of a level, where the relative ranks
that data is sent to have messages of their own. -/
def treeRound
    (sends : Nat → Prop)
    [DecidablePred sends]
    (msg : Nat → Nat → List Cell)
    (rank level : Nat) : Round Nat (List Cell) where
  sends := messageIf
    (rank < shape.commSize ∧ shape.relative rank % 2 ^ (level + 1) = 0 ∧
      shape.relative rank + 2 ^ level < shape.commSize ∧ sends (shape.relative rank + 2 ^ level))
    (ahead shape.commSize rank (2 ^ level))
    (msg level (shape.relative rank + 2 ^ level))
  recvs := messageIf
    (rank < shape.commSize ∧ shape.relative rank % 2 ^ (level + 1) = 2 ^ level ∧
      sends (shape.relative rank))
    (behind shape.commSize rank (2 ^ level))
    (msg level (shape.relative rank))

variable {shape}

variable {rank : Nat}

theorem relative_lt (inComm : rank < shape.commSize) :
    shape.relative rank < shape.commSize :=
  behind_lt inComm

theorem lt_levels_iff {level : Nat} :
    level < shape.levels ↔ 2 ^ level < shape.commSize :=
  Nat.lt_clog_iff_pow_lt one_lt_two

theorem levels_le : shape.levels ≤ shape.commSize :=
  Nat.clog_le_of_le_pow Nat.lt_two_pow_self.le

section

variable {sends : Nat → Prop} [DecidablePred sends] {msg : Nat → Nat → List Cell}

/-- What parents send in a round is what children receive. -/
theorem treeRound_agrees :
    ScheduleAgrees (shape.treeRound sends msg) (List.range shape.levels).reverse := by
  intro level member src dst
  have within : 2 ^ level < shape.commSize :=
    lt_levels_iff.mp (mem_range.mp (mem_reverse.mp member))
  apply withRank_messageIf_eq
  · constructor
    · rintro ⟨⟨srcIn, multiple, noWrap, sent⟩, rfl⟩
      have moved : shape.relative
          (ahead shape.commSize src (2 ^ level)) = shape.relative src + 2 ^ level :=
        behind_ahead_of_lt srcIn shape.root_lt noWrap
      have dstIn := @ahead_lt _ _ (2 ^ level) srcIn
      refine ⟨⟨dstIn, ?_, ?_⟩, behind_ahead srcIn within.le⟩
      · rw [moved, Nat.add_mod, multiple, zero_add, Nat.mod_mod, Nat.mod_eq_of_lt]
        omega
      · rwa [moved]
    · rintro ⟨⟨dstIn, lowest, sent⟩, rfl⟩
      have above : 2 ^ level ≤ shape.relative dst := by
        have := Nat.mod_le (shape.relative dst) (2 ^ (level + 1))
        omega
      have moved : shape.relative
          (behind shape.commSize dst (2 ^ level)) = shape.relative dst - 2 ^ level :=
        behind_behind_of_le dstIn shape.root_lt above
      have srcIn := @behind_lt _ _ (2 ^ level) dstIn
      have position := Nat.div_add_mod (shape.relative dst) (2 ^ (level + 1))
      refine ⟨⟨srcIn, ?_, ?_, ?_⟩, ahead_behind dstIn within.le⟩
      · rw [moved, ← position, lowest, Nat.add_sub_cancel, Nat.mul_mod_right]
      · rw [moved, Nat.sub_add_cancel above]
        exact relative_lt dstIn
      · rwa [moved, Nat.sub_add_cancel above]
  · rintro ⟨srcIn, multiple, noWrap, sent⟩ rfl
    have moved : shape.relative
        (ahead shape.commSize src (2 ^ level)) = shape.relative src + 2 ^ level :=
      behind_ahead_of_lt srcIn shape.root_lt noWrap
    rw [moved]

theorem treeRound_outside
    (outside : ¬ rank < shape.commSize)
    (level : Nat) :
    shape.treeRound sends msg rank level = .idle :=
  congrArg₂ Round.mk
    (messageIf_of_not (fun all => outside all.1) _ _)
    (messageIf_of_not (fun all => outside all.1) _ _)

/-- The communications of a rank that may send in a round. -/
theorem ops_treeRound_of_multiple
    {level : Nat}
    (inComm : rank < shape.commSize)
    (multiple : shape.relative rank % 2 ^ (level + 1) = 0) :
    (shape.treeRound sends msg rank level).ops =
      if shape.relative rank + 2 ^ level < shape.commSize ∧
          sends (shape.relative rank + 2 ^ level) then
        [.send (ahead shape.commSize rank (2 ^ level))
          (msg level (shape.relative rank + 2 ^ level))]
      else [] := by
  have noRecv := messageIf_of_not
    (fun all : rank < shape.commSize ∧ shape.relative rank % 2 ^ (level + 1) = 2 ^ level ∧
        sends (shape.relative rank) => by omega)
    (behind shape.commSize rank (2 ^ level)) (msg level (shape.relative rank))
  rw [Round.ops, treeRound]
  simp only [noRecv, map_nil, append_nil]
  by_cases sent : shape.relative rank + 2 ^ level < shape.commSize ∧
      sends (shape.relative rank + 2 ^ level)
  · rw [if_pos sent, messageIf_of ⟨inComm, multiple, sent⟩]
    rfl
  · rw [if_neg sent, messageIf_of_not fun all => sent all.2.2]
    rfl

/-- The communications of a rank that may receive in a round. -/
theorem ops_treeRound_of_lowest
    {level : Nat}
    (inComm : rank < shape.commSize)
    (lowest : shape.relative rank % 2 ^ (level + 1) = 2 ^ level) :
    (shape.treeRound sends msg rank level).ops = if sends (shape.relative rank) then
        [.recv (behind shape.commSize rank (2 ^ level)) (msg level (shape.relative rank))]
      else [] := by
  have noSend := messageIf_of_not
    (fun all : rank < shape.commSize ∧ shape.relative rank % 2 ^ (level + 1) = 0 ∧
        shape.relative rank + 2 ^ level < shape.commSize ∧
          sends (shape.relative rank + 2 ^ level) => by omega)
    (ahead shape.commSize rank (2 ^ level))
    (msg level (shape.relative rank + 2 ^ level))
  rw [Round.ops, treeRound]
  simp only [noSend, map_nil, nil_append]
  by_cases sent : sends (shape.relative rank)
  · rw [if_pos sent, messageIf_of ⟨inComm, lowest, sent⟩]
    rfl
  · rw [if_neg sent, messageIf_of_not fun all => sent all.2.2]
    rfl

/-- The communications of a rank in a round above its lowest bit. -/
theorem ops_treeRound_of_above
    {level low : Nat}
    (lowest : shape.relative rank % 2 ^ (low + 1) = 2 ^ low)
    (above : low < level) :
    (shape.treeRound sends msg rank level).ops = [] := by
  -- Both conditions of the round would make the rank a multiple of the mask.
  have divides : 2 ^ (low + 1) ∣ 2 ^ level := Nat.pow_dvd_pow 2 above
  have multiple : 2 ^ level ∣ 2 ^ (level + 1) := Nat.pow_dvd_pow 2 (by omega)
  have notMultiple : ¬ 2 ^ level ∣ shape.relative rank := by
    intro divided
    have := Nat.mod_eq_zero_of_dvd (divides.trans divided)
    omega
  have noSend : ¬ shape.relative rank % 2 ^ (level + 1) = 0 := fun zero =>
    notMultiple (multiple.trans (Nat.dvd_of_mod_eq_zero zero))
  have noRecv : ¬ shape.relative rank % 2 ^ (level + 1) = 2 ^ level := by
    intro mask
    apply notMultiple
    rw [← Nat.div_add_mod (shape.relative rank) (2 ^ (level + 1)), mask]
    exact Nat.dvd_add (multiple.mul_right _) (dvd_refl _)
  rw [Round.ops, treeRound]
  rw [messageIf_of_not fun all => noSend all.2.1, messageIf_of_not fun all => noRecv all.2.1]
  rfl

end

variable {contents : Contents Cell}

theorem relativeRank_call
    (inComm : rank < shape.commSize) :
    (shape.call contents rank).relativeRank = shape.relative rank :=
  (behind_eq_ite inComm shape.root_lt.le).symm

theorem treeSrc_call
    {mask : Nat}
    (inComm : rank < shape.commSize)
    (within : mask ≤ shape.commSize) :
    (shape.call contents rank).treeSrc mask = behind shape.commSize rank mask := by
  change (if rank < mask then rank + shape.commSize - mask else rank - mask) = _
  rw [behind_eq_ite inComm within]
  split <;> split <;> omega

theorem treeDst_call
    {mask : Nat}
    (inComm : rank < shape.commSize)
    (within : mask ≤ shape.commSize) :
    (shape.call contents rank).treeDst mask = ahead shape.commSize rank mask := by
  change (if shape.commSize ≤ rank + mask then rank + mask - shape.commSize
    else rank + mask) = _
  rw [ahead_eq_ite inComm within]
  split <;> split <;> omega

/-- What a process does in single rounds: after the rounds from a level on, its
variables satisfy the condition of that level. -/
structure TreeSteps
    (shape : Shape)
    (rank : Nat)
    (sends : Nat → Prop)
    [DecidablePred sends]
    (msg : Nat → Nat → List Cell)
    (receive send : Nat → State → Prog Nat (List Cell) State)
    (start : State)
    (holds : Nat → State → Prop) : Prop where
  root : shape.relative rank = 0 → holds shape.levels start
  receive : ∀ level, 2 ^ level < shape.commSize →
    shape.relative rank % 2 ^ (level + 1) = 2 ^ level → (receive (2 ^ level) start).Yields
        (if sends (shape.relative rank) then
          [.recv (behind shape.commSize rank (2 ^ level)) (msg level (shape.relative rank))]
        else []) (holds level)
  send : ∀ level state, 2 ^ level < shape.commSize → shape.relative rank % 2 ^ (level + 1) = 0 →
    shape.relative rank + 2 ^ level < shape.commSize → holds (level + 1) state →
      (send (2 ^ level) state).Yields
        (if sends (shape.relative rank + 2 ^ level) then
          [.send (ahead shape.commSize rank (2 ^ level))
            (msg level (shape.relative rank + 2 ^ level))]
        else []) (holds level)
  skip : ∀ level state, shape.relative rank % 2 ^ (level + 1) = 0 →
    shape.commSize ≤ shape.relative rank + 2 ^ level → holds (level + 1) state → holds level state

section

variable {sends : Nat → Prop} [DecidablePred sends] {msg : Nat → Nat → List Cell}
variable {receive send : Nat → State → Prog Nat (List Cell) State}
variable {start : State} {holds : Nat → State → Prop} {rank : Nat}

section

variable
    (steps : TreeSteps shape rank sends msg receive send start holds)
    (inComm : rank < shape.commSize)

include steps inComm

theorem TreeSteps.yields_sendLoop
    {level : Nat}
    (multiple : shape.relative rank % 2 ^ level = 0)
    (within : level ≤ shape.levels)
    {fuel : Nat}
    (enough : level ≤ fuel)
    {state : State}
    (here : holds level state) :
    ((shape.call contents rank).sendLoop send fuel (2 ^ level >>> 1) state).Yields
      (opsOf (shape.treeRound sends msg rank) (List.range level).reverse)
      (holds 0) := by
  induction level generalizing fuel state with
  | zero =>
    have done : ((shape.call contents rank).sendLoop send fuel (2 ^ 0 >>> 1)
        state) = pure state := by
      cases fuel <;> rfl
    rw [done]
    exact Prog.yields_pure here
  | succ level ih =>
    obtain ⟨fuel, rfl⟩ : ∃ less, fuel = less + 1 := ⟨fuel - 1, by omega⟩
    have half : 2 ^ (level + 1) >>> 1 = 2 ^ level := by
      rw [Nat.shiftRight_one, pow_succ, Nat.mul_div_cancel _ two_pos]
    have size : (shape.call contents rank).commSize = shape.commSize := rfl
    have multipleHalf : shape.relative rank % 2 ^ level = 0 :=
      Nat.mod_eq_zero_of_dvd ((Nat.pow_dvd_pow 2 (Nat.le_succ level)).trans
        (Nat.dvd_of_mod_eq_zero multiple))
    rw [half, Call.sendLoop, if_pos (Nat.two_pow_pos level),
      relativeRank_call inComm, size, range_succ, reverse_append,
      reverse_singleton, singleton_append, opsOf_cons, ops_treeRound_of_multiple inComm multiple]
    by_cases more : shape.relative rank + 2 ^ level < shape.commSize
    · rw [if_pos more]
      have sent := steps.send level state (lt_levels_iff.mp within) multiple more here
      simp only [more, true_and]
      exact sent.bind fun state later =>
        ih multipleHalf (by omega) (by omega) later
    · rw [if_neg more, if_neg fun both => more both.1, nil_append]
      exact ih multipleHalf (by omega) (by omega) (steps.skip level state multiple (by omega) here)

/-- A process receives in the round of its lowest bit. -/
theorem TreeSteps.yields_recvLoop
    (fuel : Nat)
    {level : Nat}
    (multiple : shape.relative rank % 2 ^ level = 0)
    (within : level ≤ shape.levels)
    (enough : shape.levels ≤ level + fuel) :
    ∃ low, level ≤ low ∧ low ≤ shape.levels ∧ shape.relative rank % 2 ^ low = 0 ∧
      ((shape.call contents rank).recvLoop receive fuel (2 ^ level) start).Yields
        (opsOf (shape.treeRound sends msg rank) (range' low (shape.levels - low)).reverse)
        fun result => result.1 = 2 ^ low ∧ holds low result.2 := by
  have size : (shape.call contents rank).commSize = shape.commSize := rfl
  induction fuel generalizing level with
  | zero =>
    obtain rfl : level = shape.levels := by omega
    have last : ¬ 2 ^ shape.levels < shape.commSize := by
      rw [← lt_levels_iff]
      exact lt_irrefl _
    have isRoot : shape.relative rank = 0 := by
      have := relative_lt inComm
      rwa [Nat.mod_eq_of_lt (by omega)] at multiple
    refine ⟨shape.levels, le_rfl, le_rfl, multiple, ?_⟩
    rw [Call.recvLoop, size, if_neg last, Nat.sub_self]
    exact Prog.yields_pure ⟨rfl, steps.root isRoot⟩
  | succ fuel ih =>
    rw [Call.recvLoop, size]
    by_cases more : level < shape.levels
    · have maskWithin := lt_levels_iff.mp more
      rw [if_pos maskWithin, relativeRank_call inComm]
      by_cases set : BitSet (shape.relative rank) level
      · have lowest : shape.relative rank % 2 ^ (level + 1) = 2 ^ level := by
          rw [mod_two_pow_succ, if_pos set, multiple, zero_add]
        have idle : opsOf (shape.treeRound sends msg rank)
            (range' (level + 1) (shape.levels - (level + 1))).reverse = [] := by
          apply opsOf_of_idle
          intro later member
          rw [mem_reverse, mem_range'_1] at member
          exact ops_treeRound_of_above lowest (by omega)
        refine ⟨level, le_rfl, within, multiple, ?_⟩
        rw [if_pos fun clear => (and_mask_eq_zero_iff _ _).mp clear set,
          show shape.levels - level = shape.levels - (level + 1) + 1 by omega,
          range'_succ, reverse_cons, opsOf_append, idle, opsOf_cons,
          opsOf_nil, nil_append, ops_treeRound_of_lowest inComm lowest]
        exact (steps.receive level maskWithin lowest).bind fun state received =>
          Prog.yields_pure ⟨rfl, received⟩
      · have multipleTwice : shape.relative rank % 2 ^ (level + 1) = 0 := by
          rw [mod_two_pow_succ, if_neg set, multiple]
        obtain ⟨low, above, lowWithin, lowMultiple, yields⟩ := ih multipleTwice more (by omega)
        refine ⟨low, by omega, lowWithin, lowMultiple, ?_⟩
        rw [if_neg fun isSet => isSet ((and_mask_eq_zero_iff _ _).mpr set), two_pow_shiftLeft]
        exact yields
    · obtain rfl : level = shape.levels := by omega
      have isRoot : shape.relative rank = 0 := by
        have := relative_lt inComm
        have last : ¬ 2 ^ shape.levels < shape.commSize := fun less =>
          more (lt_levels_iff.mpr less)
        rwa [Nat.mod_eq_of_lt (by omega)] at multiple
      refine ⟨shape.levels, le_rfl, le_rfl, multiple, ?_⟩
      rw [if_neg fun less => more (lt_levels_iff.mpr less), Nat.sub_self]
      exact Prog.yields_pure ⟨rfl, steps.root isRoot⟩

/-- A process that goes through the tree. -/
theorem TreeSteps.yields_tree :
    ((shape.call contents rank).tree receive send start).Yields
      (opsOf (shape.treeRound sends msg rank) (List.range shape.levels).reverse)
      (holds 0) := by
  obtain ⟨low, -, within, multiple, received⟩ :=
    @TreeSteps.yields_recvLoop _ _ _ contents _ _ _ _ _ _ _ _ steps inComm
      shape.commSize 0 (Nat.mod_one _) (Nat.zero_le _) (by
        rw [zero_add]
        exact levels_le)
  have split : List.range shape.levels = List.range low ++ range' low (shape.levels - low) := by
    rw [range_eq_range', range_eq_range']
    have joined := @range'_append_1 0 low (shape.levels - low)
    rw [zero_add, Nat.add_sub_cancel' within] at joined
    exact joined.symm
  rw [split, reverse_append, opsOf_append]
  refine received.bind ?_
  rintro ⟨mask, state⟩ ⟨rfl, here⟩
  exact steps.yields_sendLoop inComm multiple within (within.trans levels_le) here

end

end

end Shape

end Mpich.Coll.Bcast
