import Mpich.Coll.Allreduce.Run

/-!
# All processes get the same ordered result

Whatever the operation, the processes complete. For an associative operation
each of them ends with the reductions of all elements, and for a commutative one
all of them end with the same.
-/

namespace Mpich.Coll.Allreduce

open MessagePassing Masks Halving List Buffer

variable {Cell : Type}

namespace Shape

variable {shape : Shape} {check : LengthCheck} {uop : Cell → Cell → Cell}
variable {contents : Contents Cell}

variable (shape contents) in
/-- The communications of a rank: those in which pairs are folded, those of the
ranks that take part, and those in which the others get the results. -/
def rounds
    {Label : Type}
    (middle : Nat → Label → Round Nat (List Cell))
    (final : Nat → Nat → Cell) :
    Nat → Unit ⊕ (Label ⊕ Unit) → Round Nat (List Cell) :=
  phases
    (fun rank _ => shape.folding.pairRound false
      (fun rank => tabulate shape.count (contents.input rank)) rank)
    (phases middle fun rank _ => shape.folding.pairRound true
      (fun rank => tabulate shape.count (final (shape.folding.newRank rank))) rank)

theorem completes_of_middle
    {Label : Type} {middle : Nat → Label → Round Nat (List Cell)}
    {schedule : List Label} {final : Nat → Nat → Cell}
    (nonzero : shape.count ≠ 0)
    (agree : ScheduleAgrees middle schedule)
    (idle : ∀ rank, ¬ shape.folding.Active rank → ∀ label, middle rank label = .idle)
    (yields : ∀ rank, shape.folding.Active rank → ∀ cell,
      ((shape.call check uop contents rank).reduceAll
          (some (shape.folding.newRank rank))
          { recvbuf := tabulate shape.count (shape.folding.foldedAt uop
              contents.input (shape.folding.newRank rank))
            tmpBuf := tabulate shape.count cell }).Yields
        (opsOf (middle rank) schedule)
        (· = tabulate shape.count (final (shape.folding.newRank rank)))) :
    Completes (shape.program check uop contents) fun rank =>
      if rank < shape.commSize then
        tabulate shape.count (final (shape.folding.newRank rank))
      else [] := by
  have outside : ∀ rank, ¬ rank < shape.commSize → ∀ label,
      shape.rounds contents middle final rank label = .idle := by
    intro rank beyond
    apply phases_idle
    · intro label
      exact Folding.pairRound_of_not beyond _ _
    · apply phases_idle
      · exact idle rank fun active => beyond active.1
      · intro label
        exact Folding.pairRound_of_not beyond _ _
  have agrees : ScheduleAgrees (shape.rounds contents middle final)
      (phaseLabels [()] (phaseLabels schedule [()])) := by
    apply ScheduleAgrees.phases
    · intro label _ src dst
      exact Folding.pairRound_agrees _ _ src dst
    · apply agree.phases
      intro label _ src dst
      exact Folding.pairRound_agrees _ _ src dst
  apply completes_of_members _ _ agrees outside
  · intro rank beyond
    rw [program, if_neg beyond, if_neg beyond]
  · intro rank inComm
    rw [program, if_pos inComm, if_pos inComm, Call.allreduce]
    unfold rounds
    rw [opsOf_phases, opsOf_phases, opsOf_cons, opsOf_cons, opsOf_nil, opsOf_nil,
      append_nil, append_nil]
    refine Eq.mpr (congrArg (Prog.Ends · _ _) (if_neg nonzero)) ?_
    rw [startTemps_eq, ← nil_append (_ ++ _)]
    refine (ends_ofOption rfl).bind ?_
    by_cases active : shape.folding.Active rank
    · apply Prog.Yields.ends
      apply (yields_foldPairs active).bind
      rintro ⟨newrank, temps⟩ ⟨rfl, cell, rfl⟩
      apply (yields rank active cell).bind
      rintro recvbuf rfl
      exact (ends_unfoldPairs inComm fun _ => rfl).yields rfl
    · refine (ends_foldPairs inComm active).bind ?_
      rw [opsOf_of_idle fun label _ => by rw [idle rank active label, Round.ops_idle]]
      exact (Prog.ends_done _).bind
        (ends_unfoldPairs inComm fun takesPart => absurd takesPart active)

variable (shape) in
/-- The processes use the recursive doubling. -/
def Doubles : Prop :=
  Int.bmod (shape.count * shape.typeSize) (2 ^ 32) ≤ allreduceShortMsg ∨
    shape.kind ≠ .builtin ∨ shape.count < Folding.nearestPof2 shape.commSize

instance : Decidable shape.Doubles :=
  inferInstanceAs (Decidable (_ ∨ _ ∨ _))

variable (shape uop contents) in
/-- The results that the new ranks have. -/
def final (newrank : Nat) : Nat → Cell :=
  if shape.Doubles then shape.doubledAt uop contents shape.folding.levels newrank
  else result shape.folding.levels shape.count uop
    (shape.folding.foldedAt uop contents.input)

variable (shape check uop contents) in
/-- What the receive buffer of a rank holds in the end. -/
def out (rank : Nat) : List Cell :=
  if rank < shape.commSize then
    tabulate shape.count (shape.final uop contents (shape.folding.newRank rank))
  else []

theorem usesDoubling_iff (rank : Nat) :
    (shape.call check uop contents rank).UsesDoubling ↔ shape.Doubles := by
  exact Iff.rfl

theorem levels_le : shape.folding.levels ≤ shape.commSize :=
  Nat.log_le_self 2 shape.commSize

theorem partnerRounds_agree (msg : Nat → Nat → List Cell) :
    ScheduleAgrees (shape.folding.partnerRound msg) (List.range shape.folding.levels) := by
  intro round member src dst
  exact Folding.partnerRound_agrees (mem_range.mp member) msg src dst

theorem gatherRounds_agree (msg : Nat → Nat → List Cell) :
    ScheduleAgrees (shape.folding.partnerRound msg) (List.range shape.folding.levels).reverse := by
  intro round member src dst
  exact partnerRounds_agree msg round (mem_reverse.mp member) src dst

theorem yields_doubling
    (doubles : shape.Doubles)
    {rank : Nat}
    (active : shape.folding.Active rank)
    (cell : Nat → Cell) :
    ((shape.call check uop contents rank).reduceAll
        (some (shape.folding.newRank rank))
        { recvbuf := tabulate shape.count (shape.folding.foldedAt uop
            contents.input (shape.folding.newRank rank))
          tmpBuf := tabulate shape.count cell }).Yields
      (opsOf (shape.folding.partnerRound (shape.doublingMsg uop contents) rank)
        (List.range shape.folding.levels))
      (· = tabulate shape.count
        (shape.doubledAt uop contents shape.folding.levels (shape.folding.newRank rank))) := by
  have nonempty : 0 < shape.commSize := Nat.zero_lt_of_lt active.1
  have loop := @yields_doublingLoop Cell shape check uop contents rank active
    shape.commSize 0 (Nat.zero_le _) (levels_le.trans (zero_add _).ge) cell
  rw [Nat.sub_zero, ← range_eq_range'] at loop
  unfold Call.reduceAll
  simp only [usesDoubling_iff]
  rw [if_pos doubles, ← append_nil (opsOf _ _)]
  apply loop.bind
  rintro temps done
  exact Prog.yields_pure done

theorem yields_halving
    (halves : ¬ shape.Doubles)
    {rank : Nat}
    (active : shape.folding.Active rank)
    (cell : Nat → Cell) :
    ((shape.call check uop contents rank).reduceAll
        (some (shape.folding.newRank rank))
        { recvbuf := tabulate shape.count (shape.folding.foldedAt uop
            contents.input (shape.folding.newRank rank))
          tmpBuf := tabulate shape.count cell }).Yields
      (opsOf (phases
          (shape.folding.partnerRound (halvingMsg shape.folding.levels shape.count
            uop (shape.folding.foldedAt uop contents.input)))
          (shape.folding.partnerRound (gatherMsg shape.folding.levels shape.count
            (result shape.folding.levels shape.count uop
              (shape.folding.foldedAt uop contents.input)))) rank)
        (phaseLabels (List.range shape.folding.levels) (List.range shape.folding.levels).reverse))
      (· = tabulate shape.count
        (result shape.folding.levels shape.count uop
          (shape.folding.foldedAt uop contents.input))) := by
  have nonempty : 0 < shape.commSize := Nat.zero_lt_of_lt active.1
  unfold Call.reduceAll Call.reduceScatterAllgather
  simp only [usesDoubling_iff]
  rw [if_neg halves, opsOf_phases, call_core nonempty, call_pof2 nonempty]
  apply (Halving.yields_halving check active levels_le cell).bind
  rintro ⟨mask, sendIdx, lastIdx, temps⟩ ⟨rfl, rfl, rfl, knows⟩
  exact yields_allgatherLoop active le_rfl levels_le knows

variable (shape check uop contents) in
/-- Whatever the operation, all processes complete. -/
theorem completes :
    Completes (shape.program check uop contents) (shape.out uop contents) := by
  by_cases empty : shape.count = 0
  · have nothing : ∀ elements : Nat → Cell, tabulate shape.count elements = [] := by
      intro elements
      rw [empty]
      rfl
    apply @completes_of_members _ _ Empty 0 _ nofun [] nofun nofun _
    · intro rank _
      unfold program out
      rw [nothing]
      split
      · refine (if_pos empty).trans ?_
        change Prog.done (tabulate shape.count _) = _
        rw [nothing]
      · rfl
    · nofun
  by_cases doubles : shape.Doubles
  · have final : ∀ newrank, shape.final uop contents newrank =
        shape.doubledAt uop contents shape.folding.levels newrank := by
      intro newrank
      exact if_pos doubles
    apply completes_of_middle empty (partnerRounds_agree (shape.doublingMsg uop contents))
    · intro rank notActive label
      exact exchangeRound_of_not notActive
    · intro rank active cell
      rw [final]
      exact yields_doubling doubles active cell
  · have final : ∀ newrank, shape.final uop contents newrank =
        result shape.folding.levels shape.count uop
          (shape.folding.foldedAt uop contents.input) := by
      intro newrank
      exact if_neg doubles
    apply completes_of_middle empty
      ((partnerRounds_agree (halvingMsg shape.folding.levels shape.count uop
        (shape.folding.foldedAt uop contents.input))).phases
        (gatherRounds_agree (gatherMsg shape.folding.levels shape.count
          (result shape.folding.levels shape.count uop
            (shape.folding.foldedAt uop contents.input)))))
    · intro rank notActive
      apply phases_idle
      · intro label
        exact exchangeRound_of_not notActive
      · intro label
        exact exchangeRound_of_not notActive
    · intro rank active cell
      rw [final]
      exact yields_halving doubles active cell

/-- For an associative operation, the results are reductions of all elements. -/
theorem isReduction_final
    (associative : ∀ a b c, uop (uop a b) c = uop a (uop b c))
    (nonempty : 0 < shape.commSize)
    {newrank column : Nat}
    (within : newrank < 2 ^ shape.folding.levels)
    (inside : column < shape.count) :
    shape.IsReduction uop contents column (shape.final uop contents newrank column) := by
  by_cases doubles : shape.Doubles
  · have final : shape.final uop contents newrank =
        shape.doubledAt uop contents shape.folding.levels newrank := if_pos doubles
    rw [final]
    by_cases commutes : shape.kind.isCommutative
    · obtain ⟨order, perm, product⟩ := @Folding.exists_order shape.folding _ Cell uop
        contents.input (fun round newrank =>
          shape.kind.isCommutative ∨ Masks.BitSet newrank round) _ associative
        nonempty within column
      exact ⟨order, (if_pos commutes).mpr perm, product⟩
    · refine ⟨List.range shape.commSize, (if_neg commutes).mpr rfl, ?_⟩
      apply shape.folding.product_range associative _ rfl nonempty within column
      intro round number
      exact or_iff_right commutes
  · have final : shape.final uop contents newrank = result shape.folding.levels shape.count uop
          (shape.folding.foldedAt uop contents.input) := if_neg doubles
    have builtin : shape.kind = .builtin := by
      by_contra other
      exact doubles (.inr (.inl other))
    have commutes : shape.kind.isCommutative := by
      rw [builtin]
      exact OpKind.noConfusion
    obtain ⟨owner, bound, value⟩ := @exists_result_eq Cell shape.folding.levels
      shape.count uop (shape.folding.foldedAt uop contents.input) _ inside
    rw [final, value]
    obtain ⟨order, perm, product⟩ := @Folding.exists_order shape.folding _ Cell uop
      contents.input (fun _ _ => True) _ associative nonempty bound column
    exact ⟨order, (if_pos commutes).mpr perm, product⟩

/-- For a commutative operation, all new ranks have the same results. -/
theorem final_eq_of_comm
    (commutative : ∀ a b, uop a b = uop b a)
    {newrank other : Nat}
    (within : newrank < 2 ^ shape.folding.levels)
    (otherWithin : other < 2 ^ shape.folding.levels) :
    shape.final uop contents newrank = shape.final uop contents other := by
  unfold final
  split
  · funext column
    apply Butterfly.valueAt_eq_of_comm commutative
    rw [Masks.blockStart_of_lt within, Masks.blockStart_of_lt otherWithin]
  · rfl

end Shape

/-- All processes complete. For an associative operation, each receive buffer
holds the reductions of all elements, in the order of the ranks unless the
operation was declared commutative; and for a commutative operation, associative
or not, all receive buffers are equal. -/
theorem allreduce_correct
    (shape : Shape)
    (check : LengthCheck)
    (uop : Cell → Cell → Cell)
    (contents : Contents Cell) :
    ∃ out, Completes (shape.program check uop contents) out ∧
      ((∀ a b c, uop (uop a b) c = uop a (uop b c)) →
        ∀ rank < shape.commSize, shape.Reduced uop contents (out rank)) ∧
      ((∀ a b, uop a b = uop b a) → ∀ rank < shape.commSize, ∀ other < shape.commSize,
          out rank = out other) := by
  refine ⟨shape.out uop contents, shape.completes check uop contents, ?_, ?_⟩
  · intro associative rank inComm
    have within := shape.folding.newRank_lt inComm
    unfold Shape.out
    rw [if_pos inComm]
    refine ⟨length_tabulate _ _, ?_⟩
    intro column inside
    refine ⟨_, ?_, Shape.isReduction_final associative (Nat.zero_lt_of_lt inComm) within inside⟩
    rw [getElem?_tabulate, if_pos inside]
  · intro commutative rank inComm other otherInComm
    unfold Shape.out
    rw [if_pos inComm, if_pos otherInComm, Shape.final_eq_of_comm commutative
      (shape.folding.newRank_lt inComm) (shape.folding.newRank_lt otherInComm)]

end Mpich.Coll.Allreduce
