import Mpich.Coll.Reduce.Scatter

/-!
# The root gets the ordered result

Whatever the operation, the processes complete, and only the receive buffer of
the root has changed. For an associative operation it holds the reductions of all
elements.
-/

namespace Mpich.Coll.Reduce

open MessagePassing Masks Halving BinomialTree List Buffer Cyclic

variable {Cell : Type}

namespace Shape

variable {shape : Shape} {check : LengthCheck} {uop : Cell → Cell → Cell}
variable {contents : Contents Cell}

variable (shape contents) in
/-- The buffers with the elements of a rank. -/
def startTemps (rank : Nat) : Temps Cell where
  recvbuf := tabulate shape.count (contents.input rank)
  tmpBuf := tabulate shape.count (contents.garbage rank)

variable (shape uop contents) in
/-- The communications of a rank: those in which pairs are folded, those of the
reduce-scatter, that in which an excluded root gets its role, and those of the
gather. -/
def scatterRounds :
    Nat → Unit ⊕ (Nat ⊕ (Unit ⊕ Nat)) → Round Nat (List Cell) :=
  phases
    (fun rank _ => shape.folding.pairRound true
      (fun rank => tabulate shape.count (contents.input rank)) rank)
    (phases
      (shape.folding.partnerRound (halvingMsg shape.folding.levels shape.count uop
        (shape.folding.foldedAt uop contents.input)))
      (phases
        (fun rank _ => handRound shape.Excluded 0 shape.root
          (shape.handMsg (shape.scattered uop contents)) rank)
        (shape.gatherRound (gatherMsg shape.folding.levels shape.count
          (shape.scattered uop contents)))))

variable (shape) in
/-- The order of these communications. -/
def scatterSchedule : List (Unit ⊕ (Nat ⊕ (Unit ⊕ Nat))) :=
  phaseLabels [()] (phaseLabels (List.range shape.folding.levels)
    (phaseLabels [()] (List.range shape.folding.levels).reverse))

theorem scatterRounds_agree :
    ScheduleAgrees (shape.scatterRounds uop contents) shape.scatterSchedule := by
  apply ScheduleAgrees.phases
  · intro label _ src dst
    exact Folding.pairRound_agrees _ _ src dst
  · apply ScheduleAgrees.phases
    · intro round member src dst
      exact Folding.partnerRound_agrees (mem_range.mp member) _ src dst
    · apply ScheduleAgrees.phases
      · intro label _ src dst
        exact handRound_agrees src dst
      · intro round member src dst
        exact gatherRound_agrees (mem_range.mp (mem_reverse.mp member)) _ src dst

variable {rank : Nat}

theorem scatterRounds_idle
    (outside : ¬ rank < shape.commSize)
    (label : Unit ⊕ (Nat ⊕ (Unit ⊕ Nat))) :
    shape.scatterRounds uop contents rank label = .idle := by
  apply phases_idle
  · intro label
    exact Folding.pairRound_of_not outside _ _
  · apply phases_idle
    · intro round
      exact exchangeRound_of_not fun active => outside active.1
    · apply phases_idle
      · intro label
        apply handRound_of_other
        · rintro - rfl
          exact outside nonempty
        · rintro - rfl
          exact outside shape.root_lt
      · intro round
        exact gatherRound_of_not (fun gathers => outside gathers.lt) _ _

theorem yields_handOver
    {progress : Progress Cell}
    (active : shape.folding.Active rank →
      shape.Ready (shape.scattered uop contents) (shape.folding.newRank rank) progress)
    (passive : ¬ shape.folding.Active rank → progress.newrank = none ∧
      ∃ cell, progress.temps.recvbuf = tabulate shape.count cell) :
    ((shape.call check uop contents rank).handOver progress).Yields
      (handRound shape.Excluded 0 shape.root
        (shape.handMsg (shape.scattered uop contents)) rank).ops
      fun progress =>
        (shape.Gathers rank →
          shape.Ready (shape.scattered uop contents) (shape.role rank) progress) ∧
        (¬ shape.Gathers rank → progress.newrank = none) := by
  have zeroNotRoot : shape.Excluded → 0 ≠ shape.root := by
    rintro excluded same
    exact excluded.2 (by rw [← same])
  by_cases isRoot : rank = shape.root ∧ shape.Excluded
  · obtain ⟨rfl, excluded⟩ := isRoot
    obtain ⟨-, cell, own⟩ := passive (excluded_iff.mp excluded)
    have role : shape.role shape.root = 0 := if_pos ⟨rfl, excluded⟩
    rw [ops_handRound_target excluded (zeroNotRoot excluded), role]
    apply (yields_handOver_root excluded own).mono
    intro progress ready
    exact ⟨fun _ => ready, fun notGathers => absurd gathers_root notGathers⟩
  have role : shape.role rank = shape.folding.newRank rank := if_neg isRoot
  by_cases first : rank = 0 ∧ shape.Excluded
  · obtain ⟨rfl, excluded⟩ := first
    have ready := active active_zero
    rw [newRank_zero] at ready
    have notGathers : ¬ shape.Gathers 0 := by
      unfold Gathers
      rw [if_pos excluded]
      rintro (same | ⟨-, notZero⟩)
      · exact zeroNotRoot excluded same
      · exact notZero rfl
    rw [ops_handRound_source excluded (zeroNotRoot excluded)]
    apply (yields_handOver_zero excluded ready).mono
    intro progress none
    exact ⟨fun gathers => absurd gathers notGathers, fun _ => none⟩
  · have gathers_iff : shape.Gathers rank ↔ shape.folding.Active rank := by
      unfold Gathers
      split
      · rename_i excluded
        rw [or_iff_right fun same => isRoot ⟨same, excluded⟩,
          and_iff_left fun zero => first ⟨zero, excluded⟩]
      · exact Iff.rfl
    have other : shape.Excluded → progress.newrank ≠ some 0 := by
      intro excluded
      by_cases takesPart : shape.folding.Active rank
      · rw [(active takesPart).newrank_eq, Ne, Option.some_inj, newRank_eq_zero_iff takesPart]
        exact fun zero => first ⟨zero, excluded⟩
      · rw [(passive takesPart).1]
        exact (Option.some_ne_none 0).symm
    rw [handRound_of_other (fun excluded zero => first ⟨zero, excluded⟩)
      (fun excluded same => isRoot ⟨same, excluded⟩), Round.ops_idle, gathers_iff,
      role]
    apply (yields_handOver_other (fun excluded same => isRoot ⟨same, excluded⟩) other).mono
    rintro _ rfl
    exact ⟨active, fun notActive => (passive notActive).1⟩

/-- The reduce-scatter and the gather of a process. -/
theorem yields_reduceScatterGather
    (inComm : rank < shape.commSize) :
    ((shape.call check uop contents rank).reduceScatterGather
        (shape.startTemps contents rank)).Yields
      (opsOf (shape.scatterRounds uop contents rank) shape.scatterSchedule)
      (fun recvbuf => rank = shape.root →
        recvbuf = tabulate shape.count (shape.scattered uop contents)) := by
  have gathered : ∀ progress : Progress Cell, ((shape.Gathers rank →
          shape.Ready (shape.scattered uop contents) (shape.role rank) progress) ∧
        (¬ shape.Gathers rank → progress.newrank = none)) →
      ((shape.call check uop contents rank).gather progress).Yields
        (opsOf (shape.gatherRound (gatherMsg shape.folding.levels shape.count
          (shape.scattered uop contents)) rank)
          (List.range shape.folding.levels).reverse)
        (fun recvbuf => rank = shape.root →
          recvbuf = tabulate shape.count (shape.scattered uop contents)) := by
    rintro progress ⟨ready, done⟩
    by_cases gathers : shape.Gathers rank
    · exact yields_gather gathers (ready gathers)
    · exact yields_gather_none gathers (done gathers)
  unfold Call.reduceScatterGather scatterRounds scatterSchedule
  rw [opsOf_phases, opsOf_phases, opsOf_phases, opsOf_cons, opsOf_cons, opsOf_nil,
    opsOf_nil, append_nil, append_nil]
  by_cases active : shape.folding.Active rank
  · apply (yields_foldPairs active).bind
    rintro ⟨newrank, temps⟩ ⟨rfl, cell, rfl⟩
    apply (yields_reduceScatter active cell).bind
    intro progress ready
    apply (yields_handOver (fun _ => ready) fun passive => absurd active passive).bind
    exact gathered
  · have idle : opsOf (shape.folding.partnerRound (halvingMsg shape.folding.levels
        shape.count uop (shape.folding.foldedAt uop contents.input)) rank)
        (List.range shape.folding.levels) = [] := by
      apply opsOf_of_idle
      intro round _
      rw [Folding.partnerRound, exchangeRound_of_not active, Round.ops_idle]
    refine (ends_foldPairs inComm active).bind_yields ?_
    rw [idle]
    refine (Prog.ends_done _).bind_yields ?_
    apply (yields_handOver (fun takesPart => absurd takesPart active) fun _ =>
      ⟨rfl, contents.input rank, rfl⟩).bind
    exact gathered

variable (shape) in
/-- Rank 0 sends the result to the root. -/
def SendsBack : Prop :=
  ¬ shape.kind.isCommutative ∧ shape.root ≠ 0

instance : Decidable shape.SendsBack :=
  inferInstanceAs (Decidable (_ ∧ _))

variable (shape uop contents) in
/-- The combined elements. -/
def combined : Nat → Cell :=
  shape.treeAt uop contents shape.height 0

variable (shape uop contents) in
/-- The communications of a rank: those of the tree, and the message with the
result. -/
def treeRounds : Nat → Nat ⊕ Unit → Round Nat (List Cell) :=
  phases
    (climbRound shape.commSize shape.lroot (shape.treeMsg uop contents))
    (fun rank _ => handRound shape.SendsBack 0 shape.root
      (tabulate shape.count (shape.combined uop contents)) rank)

theorem treeRounds_agree :
    ScheduleAgrees (shape.treeRounds uop contents)
      (phaseLabels (List.range shape.height) [()]) := by
  apply ScheduleAgrees.phases
  · intro round _ src dst
    exact climbRound_agrees lroot_lt _ round src dst
  · intro label _ src dst
    exact handRound_agrees src dst

theorem treeRounds_idle
    (outside : ¬ rank < shape.commSize)
    (label : Nat ⊕ Unit) :
    shape.treeRounds uop contents rank label = .idle := by
  apply phases_idle
  · intro round
    exact climbRound_outside outside _ _
  · intro label
    apply handRound_of_other
    · rintro - rfl
      exact outside nonempty
    · rintro - rfl
      exact outside shape.root_lt

/-- The binomial tree algorithm of a process. -/
theorem yields_binomial
    (inComm : rank < shape.commSize) :
    ((shape.call check uop contents rank).binomial
        (shape.startTemps contents rank)).Yields
      (opsOf (shape.treeRounds uop contents rank) (phaseLabels (List.range shape.height) [()]))
      (fun recvbuf => rank = shape.root →
        recvbuf = tabulate shape.count (shape.combined uop contents)) := by
  have own : contents.input rank = shape.treeAt uop contents 0 (shape.position rank) := by
    funext column
    unfold treeAt
    rw [valueAt, rankAt_position inComm]
  have loop := @yields_treeLoop Cell shape check uop contents 0 rank inComm
    shape.commSize (Nat.mod_one _) (Nat.zero_le _)
    (height_le.trans (Nat.zero_add _).ge) (contents.garbage rank)
  rw [← own, Nat.sub_zero, ← range_eq_range'] at loop
  unfold Call.binomial treeRounds
  rw [opsOf_phases, opsOf_cons, opsOf_nil, append_nil]
  apply loop.bind
  rintro _ ⟨cells, cell, rfl, isResult⟩
  have mine : (shape.call check uop contents rank).rank = rank := rfl
  have root : (shape.call check uop contents rank).root = shape.root := rfl
  have condition : (¬ (shape.call check uop contents rank).kind.isCommutative ∧
      (shape.call check uop contents rank).root ≠ 0) ↔ shape.SendsBack := Iff.rfl
  unfold Call.sendToRoot
  simp only [condition]
  by_cases back : shape.SendsBack
  · have position : shape.position 0 = 0 := by
      have lroot : shape.lroot = 0 := if_neg back.1
      unfold Shape.position
      rw [lroot, behind_zero nonempty]
    rw [if_pos back, mine, root]
    by_cases first : rank = 0
    · subst first
      rw [if_pos rfl, ops_handRound_source back back.2.symm, isResult position]
      exact (ends_sendAll _).bind_yields (Prog.yields_pure fun _ => rfl)
    · rw [if_neg first]
      by_cases isRoot : rank = shape.root
      · subst isRoot
        rw [if_pos rfl, ops_handRound_target back back.2.symm]
        exact ((check.ends_recv (length_tabulate _ _)).bind
          (ends_ofOption (store_tabulate_all _ _ _))).yields fun _ => rfl
      · rw [if_neg isRoot, handRound_of_other (fun _ => first) fun _ => isRoot]
        exact Prog.yields_pure fun same => absurd same isRoot
  · have other := @handRound_of_other Nat (List Cell) _ shape.SendsBack _ 0
      shape.root rank (tabulate shape.count (shape.combined uop contents))
      (fun holds => absurd holds back) (fun holds => absurd holds back)
    rw [if_neg back, other]
    apply Prog.yields_pure
    rintro rfl
    have position : shape.position shape.root = 0 := by
      unfold Shape.position
      have lroot : shape.lroot = shape.root := by
        unfold Shape.lroot
        split
        · rfl
        · rename_i declared
          exact (not_not.mp fun notZero => back ⟨declared, notZero⟩).symm
      rw [lroot, behind, Nat.add_sub_cancel_left, Nat.mod_self]
    exact congrArg _ (isResult position)

variable (shape) in
/-- The processes use the reduce-scatter. -/
def Scatters : Prop :=
  reduceShortMsg < Int.bmod (shape.count * shape.typeSize) (2 ^ 32) ∧
    shape.kind = .builtin ∧ Folding.nearestPof2 shape.commSize ≤ shape.count

instance : Decidable shape.Scatters :=
  inferInstanceAs (Decidable (_ ∧ _ ∧ _))

variable (shape uop contents) in
/-- The results. -/
def final : Nat → Cell :=
  if shape.Scatters then shape.scattered uop contents
  else shape.combined uop contents

variable (shape uop contents) in
/-- What the receive buffer of a rank holds in the end. -/
def out (rank : Nat) : List Cell :=
  if rank < shape.commSize then
    if rank = shape.root then
      tabulate shape.count (shape.final uop contents)
    else contents.unused rank
  else []

theorem usesScatter_iff (rank : Nat) :
    (shape.call check uop contents rank).UsesScatter ↔ shape.Scatters := by
  exact Iff.rfl

/-- Processes complete if the algorithm they use completes, and leaves the
results in the buffer of the root. -/
theorem completes_of_algorithm
    {Label : Type} {rounds : Nat → Label → Round Nat (List Cell)}
    {schedule : List Label}
    (nonzero : shape.count ≠ 0)
    (agree : ScheduleAgrees rounds schedule)
    (idle : ∀ rank, ¬ rank < shape.commSize → ∀ label, rounds rank label = .idle)
    (yields : ∀ rank < shape.commSize, ((shape.call check uop contents rank).algorithm
          (shape.startTemps contents rank)).Yields
        (opsOf (rounds rank) schedule)
        (fun recvbuf => rank = shape.root →
          recvbuf = tabulate shape.count (shape.final uop contents))) :
    Completes (shape.program check uop contents) (shape.out uop contents) := by
  apply completes_of_members rounds schedule agree idle
  · intro rank outside
    rw [program, out, if_neg outside, if_neg outside]
  · intro rank inComm
    rw [program, out, if_pos inComm, if_pos inComm, Call.reduce]
    refine Eq.mpr (congrArg (Prog.Ends · _ _) (if_neg nonzero)) ?_
    rw [startTemps_eq, ← nil_append (opsOf _ _)]
    refine (ends_ofOption rfl).bind ?_
    rw [← append_nil (opsOf _ _)]
    have mine : (shape.call check uop contents rank).rank = rank := rfl
    have root : (shape.call check uop contents rank).root = shape.root := rfl
    have recvbuf : rank ≠ shape.root →
        (shape.call check uop contents rank).recvbuf = contents.unused rank :=
      fun notRoot => if_neg notRoot
    apply Prog.Yields.ends
    refine (yields rank inComm).bind fun result holds => Prog.yields_pure ?_
    rw [mine, root]
    split
    · rename_i isRoot
      exact holds isRoot
    · rename_i notRoot
      exact recvbuf notRoot

variable (shape check uop contents) in
/-- Whatever the operation, all processes complete. -/
theorem completes :
    Completes (shape.program check uop contents) (shape.out uop contents) := by
  by_cases empty : shape.count = 0
  · have nothing : ∀ elements : Nat → Cell, tabulate shape.count elements = [] := by
      intro elements
      rw [empty]
      rfl
    apply @completes_of_members _ _ Empty 0 _ nofun [] nofun nofun _
    · intro rank _
      unfold program out
      split
      · refine (if_pos empty).trans ?_
        change Prog.done (if rank = shape.root then tabulate shape.count _
          else contents.unused rank) = _
        rw [nothing, nothing]
      · rfl
    · nofun
  by_cases scatters : shape.Scatters
  · apply completes_of_algorithm empty (@scatterRounds_agree Cell shape uop contents)
    · intro rank outside
      exact scatterRounds_idle outside
    · intro rank inComm
      have final : shape.final uop contents = shape.scattered uop contents :=
        if_pos scatters
      rw [Call.algorithm, if_pos ((usesScatter_iff rank).mpr scatters), final]
      exact yields_reduceScatterGather inComm
  · apply completes_of_algorithm empty (@treeRounds_agree Cell shape uop contents)
    · intro rank outside
      exact treeRounds_idle outside
    · intro rank inComm
      have final : shape.final uop contents = shape.combined uop contents :=
        if_neg scatters
      rw [Call.algorithm, if_neg (mt (usesScatter_iff rank).mp scatters), final]
      exact yields_binomial inComm

/-- The ranks in the order of their positions. -/
theorem flatMap_rankAt_perm :
    ((List.range shape.commSize).flatMap fun position =>
      [shape.rankAt position]).Perm (List.range shape.commSize) := by
  rw [← map_eq_flatMap]
  exact map_ahead_perm lroot_lt.le

theorem flatMap_rankAt_eq (declared : ¬ shape.kind.isCommutative) :
    ((List.range shape.commSize).flatMap fun position =>
      [shape.rankAt position]) = List.range shape.commSize := by
  have lroot : shape.lroot = 0 := if_neg declared
  have same : (List.range shape.commSize).map shape.rankAt =
      (List.range shape.commSize).map id := by
    apply map_congr_left
    intro position inside
    unfold rankAt
    rw [lroot, ahead_zero (mem_range.mp inside), id]
  rw [← map_eq_flatMap, same, map_id]

section

variable
    (associative : ∀ a b c, uop (uop a b) c = uop a (uop b c))

include associative

/-- For an associative operation, the tree combines all elements, in the order of
the ranks unless the operation was declared commutative. -/
theorem isReduction_combined (column : Nat) :
    shape.IsReduction uop contents column (shape.combined uop contents column) := by
  have enough : shape.commSize ≤ 2 ^ shape.height := Nat.le_pow_clog one_lt_two _
  have product := @product_valueAt Cell Nat uop shape.kind.isCommutative _
    shape.commSize _ associative (fun rank => contents.input rank column)
    (fun position => [shape.rankAt position]) (fun _ => rfl) shape.height 0
  refine ⟨_, ?_, product⟩
  by_cases declared : shape.kind.isCommutative
  · refine (if_pos declared).mpr ?_
    exact ((groupAt_zero_perm nonempty enough).flatMap_right _).trans flatMap_rankAt_perm
  · refine (if_neg declared).mpr ?_
    rw [groupAt_zero_eq declared nonempty enough, flatMap_rankAt_eq declared]

theorem isReduction_scattered
    (builtin : shape.kind = .builtin)
    {column : Nat}
    (inside : column < shape.count) :
    shape.IsReduction uop contents column (shape.scattered uop contents column) := by
  have declared : shape.kind.isCommutative := by
    rw [builtin]
    exact OpKind.noConfusion
  obtain ⟨owner, bound, value⟩ := @exists_result_eq Cell shape.folding.levels
    shape.count uop (shape.folding.foldedAt uop contents.input) _ inside
  unfold scattered
  rw [value]
  obtain ⟨order, perm, product⟩ := @Folding.exists_order shape.folding _ Cell uop
    contents.input (fun _ _ => True) _ associative nonempty bound column
  exact ⟨order, (if_pos declared).mpr perm, product⟩

theorem isReduction_final
    {column : Nat}
    (inside : column < shape.count) :
    shape.IsReduction uop contents column (shape.final uop contents column) := by
  unfold final
  split
  · rename_i scatters
    exact isReduction_scattered associative scatters.2.1 inside
  · exact isReduction_combined associative column

end

end Shape

/-- All processes complete, and only the receive buffer of the root has changed.
For an associative operation it holds the reductions of all elements, in the
order of the ranks unless the operation was declared commutative. -/
theorem reduce_correct
    (shape : Shape)
    (check : LengthCheck)
    (uop : Cell → Cell → Cell)
    (contents : Contents Cell) :
    ∃ out, Completes (shape.program check uop contents) out ∧
      (∀ rank < shape.commSize, rank ≠ shape.root → out rank = contents.unused rank) ∧
      ((∀ a b c, uop (uop a b) c = uop a (uop b c)) →
        shape.Reduced uop contents (out shape.root)) := by
  refine ⟨shape.out uop contents, shape.completes check uop contents, ?_, ?_⟩
  · intro rank inComm notRoot
    unfold Shape.out
    rw [if_pos inComm, if_neg notRoot]
  · intro associative
    unfold Shape.out
    rw [if_pos shape.root_lt, if_pos rfl]
    refine ⟨length_tabulate _ _, ?_⟩
    intro column inside
    refine ⟨_, ?_, Shape.isReduction_final associative inside⟩
    rw [getElem?_tabulate, if_pos inside]

end Mpich.Coll.Reduce
