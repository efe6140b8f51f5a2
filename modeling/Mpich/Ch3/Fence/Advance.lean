import Mpich.Ch3.Fence.Invariant

/-!
# The steps of a process in a fence

Whatever a process does by itself leaves the operations that remain to be performed as
they are: it calls a fence, leaves the collective, issues an operation or returns.
-/

namespace Mpich.Ch3.Fence

open Finset
open Rma

section

variable {program : Program} {state next : State} {rank : Nat}

/-- A step of a process that leaves what remains to be performed as it is. -/
structure Advances (program : Program) (state next : State) (rank : Nat) : Prop where
  procs : ∀ other, other ≠ rank → next.procs other = state.procs other
  pipes : ∀ origin, origin ≠ rank → next.pipes origin = state.pipes origin
  contributions : ∀ round other, other ≠ rank →
    next.rmaTargetProc round other = state.rmaTargetProc round other
  follows : (next.procs rank).Follows program rank
  entered : ∀ round, (state.procs rank).Entered round → (next.procs rank).Entered round
  left : ∀ round, program.Collective round → (next.procs rank).Left round →
    (state.procs rank).Left round ∨ ∀ target < program.size, (state.procs target).Entered round
  contributed : ∀ round, program.Collective round → (next.procs rank).Entered round →
    ∀ target, next.rmaTargetProc round rank target =
      if program.opsTo round rank target = [] then 0 else 1
  sound : ∀ target < program.size, (next.pipes rank target).Sound
  flows : ∀ target < program.size, ∀ round,
    (next.pipes rank target).Flows round (program.total round rank target)
      (program.unsent (next.procs rank) round rank target)
  remaining : ∀ target round,
    next.remaining program rank target round = state.remaining program rank target round
  finished : ∀ target, (next.pipes rank target).finished = (state.pipes rank target).finished
  drained : ∀ round < (next.procs rank).round, ∀ origin < program.size,
    state.remaining program origin rank round = []
  counts : (next.procs rank).Counts program rank
    (∑ origin ∈ range program.size,
      lasts (state.remaining program origin rank (next.procs rank).round))
  decrements : (next.procs rank).decrements = (state.procs rank).decrements

/-- What remains is the same for all pairs of processes. -/
theorem Advances.remaining_eq
    (advances : Advances program state next rank)
    (origin target round : Nat) :
    next.remaining program origin target round = state.remaining program origin target round := by
  by_cases own : origin = rank
  · rw [own]
    exact advances.remaining target round
  · unfold State.remaining
    rw [advances.procs origin own, advances.pipes origin own]

theorem Advances.inv
    (advances : Advances program state next rank)
    (inv : Inv program state) :
    Inv program next := by
  have entered : ∀ other round, (state.procs other).Entered round →
      (next.procs other).Entered round := by
    intro other round
    by_cases own : other = rank
    · rw [own]
      exact advances.entered round
    · rw [advances.procs other own]
      exact id
  have decrements : ∀ other, (next.procs other).decrements = (state.procs other).decrements := by
    intro other
    by_cases own : other = rank
    · rw [own]
      exact advances.decrements
    · rw [advances.procs other own]
  have finished : ∀ origin target, (next.pipes origin target).finished =
      (state.pipes origin target).finished := by
    intro origin target
    by_cases own : origin = rank
    · rw [own]
      exact advances.finished target
    · rw [advances.pipes origin own]
  constructor
  case follows =>
    intro other inSize
    by_cases own : other = rank
    · rw [own]
      exact advances.follows
    · rw [advances.procs other own]
      exact inv.follows other inSize
  case barrier =>
    intro origin originInSize target targetInSize round collective left
    apply entered
    by_cases own : origin = rank
    · rw [own] at left
      rcases advances.left round collective left with before | all
      · exact inv.barrier rank (own ▸ originInSize) target targetInSize round collective before
      · exact all target targetInSize
    · rw [advances.procs origin own] at left
      exact inv.barrier origin originInSize target targetInSize round collective left
  case contributed =>
    intro origin inSize round collective hasEntered target
    by_cases own : origin = rank
    · rw [own] at hasEntered ⊢
      exact advances.contributed round collective hasEntered target
    · rw [advances.procs origin own] at hasEntered
      rw [advances.contributions round origin own]
      exact inv.contributed origin inSize round collective hasEntered target
  case sound =>
    intro origin originInSize target targetInSize
    by_cases own : origin = rank
    · rw [own]
      exact advances.sound target targetInSize
    · rw [advances.pipes origin own]
      exact inv.sound origin originInSize target targetInSize
  case flows =>
    intro origin originInSize target targetInSize round
    by_cases own : origin = rank
    · rw [own]
      exact advances.flows target targetInSize round
    · rw [advances.pipes origin own, advances.procs origin own]
      exact inv.flows origin originInSize target targetInSize round
  case drained =>
    intro origin originInSize target targetInSize round returned
    rw [advances.remaining_eq]
    by_cases own : target = rank
    · rw [own] at returned ⊢
      exact advances.drained round returned origin originInSize
    · rw [advances.procs target own] at returned
      exact inv.drained origin originInSize target targetInSize round returned
  case counts =>
    intro other inSize
    unfold State.awaited
    simp only [advances.remaining_eq]
    by_cases own : other = rank
    · rw [own]
      exact advances.counts
    · rw [advances.procs other own]
      exact inv.counts other inSize
  case decrements =>
    intro origin originInSize target targetInSize round
    rw [decrements, finished]
    exact inv.decrements origin originInSize target targetInSize round
  case origins =>
    intro target inSize
    rw [decrements]
    exact inv.origins target inSize

variable (inv : Inv program state)

include inv in
/-- A step that changes neither the packets nor what is still to be issued. -/
theorem Advances.of_pipes
    {process : Process}
    (inSize : rank < program.size)
    (here : next.procs rank = process)
    (procs : ∀ other, other ≠ rank → next.procs other = state.procs other)
    (pipes : next.pipes = state.pipes)
    (contributions : ∀ round other, other ≠ rank →
      next.rmaTargetProc round other = state.rmaTargetProc round other)
    (follows : process.Follows program rank)
    (entered : ∀ round, (state.procs rank).Entered round → process.Entered round)
    (left : ∀ round, program.Collective round → process.Left round →
      (state.procs rank).Left round ∨ ∀ target < program.size, (state.procs target).Entered round)
    (contributed : ∀ round, program.Collective round → process.Entered round →
      ∀ target, next.rmaTargetProc round rank target =
        if program.opsTo round rank target = [] then 0 else 1)
    (unsent : ∀ target round, program.unsent process round rank target =
      program.unsent (state.procs rank) round rank target)
    (drained : ∀ round < process.round, ∀ origin < program.size,
      state.remaining program origin rank round = [])
    (counts : process.Counts program rank
      (∑ origin ∈ range program.size, lasts (state.remaining program origin rank process.round)))
    (decrements : process.decrements = (state.procs rank).decrements) :
    Advances program state next rank := by
  subst here
  exact {
    procs := procs
    pipes := fun origin _ => congrFun pipes origin
    contributions := contributions
    follows := follows
    entered := entered
    left := left
    contributed := contributed
    sound := by
      rw [pipes]
      exact inv.sound rank inSize
    flows := by
      intro target targetInSize round
      rw [pipes, unsent]
      exact inv.flows rank inSize target targetInSize round
    remaining := by
      intro target round
      unfold State.remaining
      rw [pipes, unsent]
    finished := by
      intro target
      rw [pipes]
    drained := drained
    counts := counts
    decrements := decrements }

theorem State.procs_setProc (process : Process) :
    (state.setProc rank process).procs rank = process :=
  Function.update_self ..

theorem State.procs_setProc_of_ne
    (process : Process)
    {other : Nat}
    (differ : other ≠ rank) :
    (state.setProc rank process).procs other = state.procs other :=
  Function.update_of_ne differ ..

section

variable (inv : Inv program state) (inSize : rank < program.size)
variable (outside : (state.procs rank).phase = .outside)
include inv inSize outside

theorem rmaOpsList_queued :
    (state.procs rank).rmaOpsList ++ program.accesses (state.procs rank).round rank =
      program.queued rank (state.procs rank).round := by
  have queued := (inv.follows rank inSize).queued
  rw [outside] at queued
  exact queued

/-- A fence that does not perform the collective. -/
theorem advances_skip
    (notCollective : ¬ program.Collective (state.procs rank).round) :
    Advances program state (state.setProc rank ((state.procs rank).skip program rank)) rank := by
  have follows := inv.follows rank inSize
  have queued := rmaOpsList_queued inv inSize outside
  have outsideNext : ((state.procs rank).skip program rank).phase = .outside := outside
  have here := @State.procs_setProc state rank ((state.procs rank).skip program rank)
  apply Advances.of_pipes inv inSize here
  case procs => exact fun other => State.procs_setProc_of_ne _
  case pipes => rfl
  case contributions => exact fun _ _ _ => rfl
  case decrements => rfl
  case follows =>
    constructor
    · change fenceCntAfter (state.procs rank).fenceCnt _ = fenceCntAfter _ _
      rw [follows.fenceCnt]
    · rw [outsideNext]
      change (state.procs rank).rmaOpsList ++ _ ++ _ = _ ++ _
      rw [queued, if_neg notCollective]
      rfl
  case entered =>
    intro round entered
    rw [Process.Entered, outside] at entered
    rw [Process.Entered, outsideNext]
    exact Nat.lt_succ_of_lt entered
  case left =>
    intro round collective left
    rw [Process.Left, outsideNext] at left
    rw [Process.Left, outside]
    rcases Nat.lt_succ_iff_lt_or_eq.mp left with before | same
    · exact .inl before
    · exact absurd (same ▸ collective) notCollective
  case contributed =>
    intro round collective entered
    rw [Process.Entered, outsideNext] at entered
    rcases Nat.lt_succ_iff_lt_or_eq.mp entered with before | same
    · apply inv.contributed rank inSize round collective
      rw [Process.Entered, outside]
      exact before
    · exact absurd (same ▸ collective) notCollective
  case unsent =>
    intro target round
    rw [unsent_of_not_issuing, unsent_of_not_issuing]
    · change (if (state.procs rank).round + 1 ≤ round then _ else _) = _
      rcases lt_trichotomy (state.procs rank).round round with
        earlier | same | later
      · rw [if_pos (Nat.succ_le_of_lt earlier), if_pos (le_of_lt earlier)]
      · rw [← same, total_of_not_collective notCollective, ite_self, ite_self]
      · rw [if_neg (Nat.not_le_of_lt (Nat.lt_succ_of_lt later)), if_neg (Nat.not_le_of_lt later)]
    · rw [outside]
      exact fun _ _ => Phase.noConfusion
    · rw [outsideNext]
      exact fun _ _ => Phase.noConfusion
  case drained =>
    intro round returned origin originInSize
    rcases Nat.lt_succ_iff_lt_or_eq.mp returned with before | same
    · exact inv.drained origin originInSize rank inSize round before
    · exact inv.remaining_of_not_collective originInSize inSize (same ▸ notCollective)
  case counts =>
    have counts := inv.counts rank inSize
    rw [Process.Counts, outside] at counts
    rw [Process.Counts, outsideNext]
    exact counts

/-- A fence that performs the collective. -/
theorem advances_enter (collective : program.Collective (state.procs rank).round) :
    Advances program state
      ((state.setProc rank ((state.procs rank).enter program rank)).contribute
        rank (state.procs rank).round
        ((state.procs rank).enter program rank).rmaOpsList) rank := by
  have follows := inv.follows rank inSize
  have queued := rmaOpsList_queued inv inSize outside
  have notEntered : ¬ (state.procs rank).Entered (state.procs rank).round := by
    rw [Process.Entered, outside]
    exact lt_irrefl _
  have here : (State.contribute (state.setProc rank
      ((state.procs rank).enter program rank)) rank (state.procs rank).round
      ((state.procs rank).enter program rank).rmaOpsList).procs rank =
      (state.procs rank).enter program rank := State.procs_setProc _
  apply Advances.of_pipes inv inSize here
  case procs => exact fun other => State.procs_setProc_of_ne _
  case pipes => rfl
  case contributions =>
    intro round other differ
    by_cases same : round = (state.procs rank).round
    · rw [same]
      simp [State.contribute, State.setProc, differ]
    · simp [State.contribute, State.setProc, same]
  case decrements => rfl
  case follows => exact ⟨follows.fenceCnt, collective, queued⟩
  case entered =>
    intro round entered
    rw [Process.Entered, outside] at entered
    exact le_of_lt entered
  case left =>
    intro round _ left
    rw [Process.Left, outside]
    exact .inl left
  case contributed =>
    intro round isCollective entered target
    rcases Nat.lt_or_eq_of_le entered with before | same
    · have differ : round ≠ (state.procs rank).round := ne_of_lt before
      have unchanged := inv.contributed rank inSize round isCollective
      rw [Process.Entered, outside] at unchanged
      rw [← unchanged before target]
      simp [State.contribute, State.setProc, differ]
    · have same : round = (state.procs rank).round := same
      have length := @length_opsTo program round rank target
      subst same
      simp only [State.contribute, Function.update_self, Process.enter, queued, ← length,
        List.length_eq_zero_iff]
  case unsent =>
    intro target round
    rw [unsent_of_not_issuing, unsent_of_not_issuing]
    · rfl
    · rw [outside]
      exact fun _ _ => Phase.noConfusion
    · exact fun _ _ => Phase.noConfusion
  case drained =>
    intro round returned origin originInSize
    exact inv.drained origin originInSize rank inSize round returned
  case counts =>
    have awaited : ∑ origin ∈ range program.size,
        lasts (state.remaining program origin rank (state.procs rank).round) =
        program.targeters (state.procs rank).round rank := by
      apply sum_congr rfl
      intro origin member
      rw [inv.remaining_of_not_entered (mem_range.mp member) inSize collective
        notEntered, lasts_total collective]
    change (program.size : Int) = program.size - program.targeters (state.procs rank).round rank + _
    rw [← awaited]
    exact (sub_add_cancel _ _).symm

end

include inv in
/-- The Reduce_scatter returns. -/
theorem advances_leave
    (inSize : rank < program.size)
    (inCollective : (state.procs rank).phase = .collective)
    (all : ∀ other < program.size, (state.procs other).Entered (state.procs rank).round) :
    Advances program state
      (state.setProc rank ((state.procs rank).leave program
        (∑ other ∈ range program.size,
          state.rmaTargetProc (state.procs rank).round other rank))) rank := by
  have follows := inv.follows rank inSize
  have queued := follows.queued
  rw [inCollective] at queued
  obtain ⟨collective, queued⟩ := queued
  have here := @State.procs_setProc state rank ((state.procs rank).leave program
    (∑ other ∈ range program.size, state.rmaTargetProc (state.procs rank).round other rank))
  apply Advances.of_pipes inv inSize here
  case procs => exact fun other => State.procs_setProc_of_ne _
  case pipes => rfl
  case contributions => exact fun _ _ _ => rfl
  case decrements => rfl
  case follows =>
    exact ⟨follows.fenceCnt, collective, queued, [], rfl, fun _ => rfl⟩
  case entered =>
    intro round entered
    rw [Process.Entered, inCollective] at entered
    exact entered
  case left =>
    intro round _ left
    rw [Process.Left, inCollective]
    rcases Nat.lt_or_eq_of_le left with before | same
    · exact .inl before
    · have same : round = (state.procs rank).round := same
      rw [same]
      exact .inr all
  case contributed =>
    intro round isCollective entered
    apply inv.contributed rank inSize round isCollective
    rw [Process.Entered, inCollective]
    exact entered
  case unsent =>
    intro target round
    rw [@unsent_of_not_issuing _ (state.procs rank)]
    · rcases lt_trichotomy (state.procs rank).round round with
        earlier | same | later
      · rw [if_pos (le_of_lt earlier)]
        exact unsent_of_gt earlier
      · have opsTo : program.opsTo (state.procs rank).round rank target =
            (state.procs rank).rmaOpsList.filter (·.target = target) := by
          rw [Program.opsTo, queued]
        rw [if_pos (le_of_eq same), ← same, total_of_collective collective, opsTo]
        exact @unsent_of_issuing program ((state.procs rank).leave program _) rank target _ _ rfl
      · rw [if_neg (Nat.not_le_of_lt later)]
        exact unsent_of_lt later
    · rw [inCollective]
      exact fun _ _ => Phase.noConfusion
  case drained =>
    intro round returned origin originInSize
    exact inv.drained origin originInSize rank inSize round returned
  case counts =>
    have counts := inv.counts rank inSize
    rw [Process.Counts, inCollective] at counts
    have result : ∑ other ∈ range program.size,
        state.rmaTargetProc (state.procs rank).round other rank =
        program.targeters (state.procs rank).round rank := by
      apply sum_congr rfl
      intro other member
      have otherInSize := mem_range.mp member
      exact inv.contributed other otherInSize _ collective (all other otherInSize) rank
    change (state.procs rank).myCounter - program.size + _ = (state.awaited program rank : Int)
    omega

variable {currOpsCnt : Nat → Nat}

/-- The packet is the first one that was still to be issued to its target. -/
theorem unsent_issued
    {process : Process} {rmaOp : Op}
    {currPtr : List Op}
    (queued : process.rmaOpsList = program.queued rank process.round)
    (issuing : process.phase = .issuing currOpsCnt (rmaOp :: currPtr))
    (target round : Nat) :
    program.unsent process round rank target = if target = rmaOp.target ∧ round = process.round then
        process.packet currOpsCnt rmaOp ::
          program.unsent (process.issued currOpsCnt rmaOp currPtr) round rank target
      else
        program.unsent (process.issued currOpsCnt rmaOp currPtr) round rank target := by
  rcases lt_trichotomy process.round round with
    earlier | same | later
  · have next := @unsent_of_gt program
      (process.issued currOpsCnt rmaOp currPtr) round rank target earlier
    rw [unsent_of_gt earlier, next, if_neg fun both => ne_of_gt earlier both.2]
  · subst same
    have next := @unsent_of_issuing program
      (process.issued currOpsCnt rmaOp currPtr) rank target _ _ rfl
    change program.unsent _ process.round rank target = packets process.round
        (nopsToProc (program.queued rank process.round) target) _ _ at next
    rw [unsent_of_issuing issuing, next]
    by_cases own : target = rmaOp.target
    · subst own
      rw [if_pos ⟨rfl, rfl⟩, List.filter_cons_of_pos (by simp), packets,
        Function.update_self, Process.packet, queued]
    · have other : ¬ rmaOp.target = target := fun same => own same.symm
      rw [if_neg fun both => own both.1,
        List.filter_cons_of_neg (by simpa using other), Function.update_of_ne own]
  · have next := @unsent_of_lt program
      (process.issued currOpsCnt rmaOp currPtr) round rank target later
    rw [unsent_of_lt later, next, if_neg fun both => ne_of_lt later both.2]

include inv in
/-- The next operation is issued. -/
theorem advances_issue
    (inSize : rank < program.size)
    {rmaOp : Op} {currPtr : List Op}
    (issuing : (state.procs rank).phase = .issuing currOpsCnt (rmaOp :: currPtr))
    (delivered : rmaOp.type = .get ∨ Delivered rmaOp.pieces) :
    Advances program state
      ((state.setProc rank ((state.procs rank).issued currOpsCnt rmaOp currPtr)).setPipe rank
        rmaOp.target ((state.pipes rank rmaOp.target).issue
          ((state.procs rank).packet currOpsCnt rmaOp))) rank := by
  have follows := inv.follows rank inSize
  have queued := follows.queued
  rw [issuing] at queued
  obtain ⟨collective, queued, issued, split, counted⟩ := queued
  have here : (State.setPipe (state.setProc rank
      ((state.procs rank).issued currOpsCnt rmaOp currPtr)) rank rmaOp.target
      ((state.pipes rank rmaOp.target).issue
        ((state.procs rank).packet currOpsCnt rmaOp))).procs rank =
      (state.procs rank).issued currOpsCnt rmaOp currPtr := State.procs_setProc _
  have pipe : ∀ target, (State.setPipe (state.setProc rank
      ((state.procs rank).issued currOpsCnt rmaOp currPtr)) rank rmaOp.target
      ((state.pipes rank rmaOp.target).issue
        ((state.procs rank).packet currOpsCnt rmaOp))).pipes rank target =
      if target = rmaOp.target then
        (state.pipes rank rmaOp.target).issue ((state.procs rank).packet currOpsCnt rmaOp)
      else state.pipes rank target := by
    simp [State.setPipe, State.setProc, Function.update_apply]
  have unsent := unsent_issued queued issuing
  constructor
  case procs => exact fun other => State.procs_setProc_of_ne _
  case pipes =>
    intro origin differ
    exact Function.update_of_ne differ ..
  case contributions => exact fun _ _ _ => rfl
  case decrements =>
    rw [here]
    rfl
  case follows =>
    rw [here]
    refine ⟨follows.fenceCnt, collective, queued, issued ++ [rmaOp], ?_, ?_⟩
    · change (state.procs rank).rmaOpsList = _
      rw [split, List.append_assoc]
      rfl
    · intro target
      have before := counted target
      unfold nopsToProc at before ⊢
      by_cases own : target = rmaOp.target
      · subst own
        rw [Function.update_self, before]
        simp
      · have other : ¬ rmaOp.target = target := fun same => own same.symm
        rw [Function.update_of_ne own, before]
        simp [other]
  case entered =>
    intro round entered
    rw [Process.Entered, issuing] at entered
    rw [here]
    exact entered
  case left =>
    intro round _ left
    rw [here] at left
    rw [Process.Left, issuing]
    exact .inl left
  case contributed =>
    intro round isCollective entered
    rw [here] at entered
    apply inv.contributed rank inSize round isCollective
    rw [Process.Entered, issuing]
    exact entered
  case sound =>
    intro target targetInSize
    rw [pipe]
    split
    · next own =>
        exact Pipe.sound_issue (own ▸ inv.sound rank inSize target targetInSize) delivered
    · exact inv.sound rank inSize target targetInSize
  case flows =>
    intro target targetInSize round
    have flows := inv.flows rank inSize target targetInSize round
    rw [unsent] at flows
    rw [pipe, here]
    by_cases own : target = rmaOp.target
    · rw [if_pos own]
      subst own
      by_cases same : round = (state.procs rank).round
      · rw [if_pos ⟨rfl, same⟩] at flows
        exact Pipe.flows_issue same.symm flows
      · rw [if_neg fun both => same both.2] at flows
        exact Pipe.flows_issue_of_ne (fun other => same other.symm) flows
    · rw [if_neg fun both => own both.1] at flows
      rw [if_neg own]
      exact flows
  case remaining =>
    intro target round
    unfold State.remaining
    rw [pipe, here, unsent]
    by_cases own : target = rmaOp.target
    · rw [if_pos own]
      subst own
      by_cases same : round = (state.procs rank).round
      · rw [if_pos ⟨rfl, same⟩]
        exact Pipe.outstanding_issue same.symm
      · rw [if_neg fun both => same both.2]
        exact Pipe.outstanding_issue_of_ne fun other => same other.symm
    · rw [if_neg own, if_neg fun both => own both.1]
  case finished =>
    intro target
    rw [pipe]
    split
    · next own => rw [Pipe.finished_issue, own]
    · rfl
  case drained =>
    intro round returned origin originInSize
    rw [here] at returned
    exact inv.drained origin originInSize rank inSize round returned
  case counts =>
    have counts := inv.counts rank inSize
    rw [Process.Counts, issuing] at counts
    rw [here]
    exact counts

include inv in
/-- A fence that has performed the collective returns. -/
theorem advances_finish
    (safe : program.Safe)
    (inSize : rank < program.size)
    (issuing : (state.procs rank).phase = .issuing currOpsCnt [])
    (zero : (state.procs rank).myCounter = 0) :
    Advances program state (state.setProc rank ((state.procs rank).finish program)) rank := by
  have follows := inv.follows rank inSize
  have queued := follows.queued
  rw [issuing] at queued
  obtain ⟨collective, -⟩ := queued
  have here := @State.procs_setProc state rank ((state.procs rank).finish program)
  apply Advances.of_pipes inv inSize here
  case procs => exact fun other => State.procs_setProc_of_ne _
  case pipes => rfl
  case contributions => exact fun _ _ _ => rfl
  case decrements => rfl
  case follows =>
    constructor
    · change fenceCntAfter (state.procs rank).fenceCnt _ = fenceCntAfter _ _
      rw [follows.fenceCnt]
    · change [] ++ _ = (if program.Collective (state.procs rank).round then _ else _) ++ _
      rw [if_pos collective]
      rfl
  case entered =>
    intro round entered
    rw [Process.Entered, issuing] at entered
    exact Nat.lt_succ_of_le entered
  case left =>
    intro round _ left
    rw [Process.Left, issuing]
    exact .inl (Nat.le_of_lt_succ left)
  case contributed =>
    intro round isCollective entered
    apply inv.contributed rank inSize round isCollective
    rw [Process.Entered, issuing]
    exact Nat.le_of_lt_succ entered
  case unsent =>
    intro target round
    rw [unsent_of_not_issuing]
    · change (if (state.procs rank).round + 1 ≤ round then _ else _) = _
      rcases lt_trichotomy (state.procs rank).round round with
        earlier | same | later
      · rw [if_pos (Nat.succ_le_of_lt earlier), unsent_of_gt earlier]
      · rw [← same, if_neg (Nat.not_succ_le_self _), unsent_of_issuing issuing]
        rfl
      · rw [if_neg (Nat.not_le_of_lt (Nat.lt_succ_of_lt later)), unsent_of_lt later]
    · exact fun _ _ => Phase.noConfusion
  case drained =>
    intro round returned origin originInSize
    have counts := inv.counts rank inSize
    rw [Process.Counts, issuing] at counts
    have awaited : state.awaited program rank = 0 := by omega
    rcases Nat.lt_succ_iff_lt_or_eq.mp returned with before | same
    · exact inv.drained origin originInSize rank inSize round before
    · rw [same]
      exact inv.remaining_eq_nil safe inSize awaited originInSize
  case counts => exact zero

end

end Mpich.Ch3.Fence
