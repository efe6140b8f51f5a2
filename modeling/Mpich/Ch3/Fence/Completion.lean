import Mpich.Ch3.Fence.Progress

/-!
# A fence completes its own epoch

When the counter has come down to zero, nothing of the epoch is left. This needs that
the data of every operation reach their handler and that the response to a get is not
overtaken by a last operation of another kind.
-/

namespace Mpich.Ch3.Fence

open Finset
open Rma

section

variable {program : Program} {state next : State}

theorem inv_init (program : Program) : Inv program .init := by
  have notLeft : ∀ rank round, ¬ (State.init.procs rank).Left round :=
    fun _ _ => Nat.not_lt_zero _
  have notEntered : ∀ rank round, ¬ (State.init.procs rank).Entered round :=
    fun _ _ => Nat.not_lt_zero _
  constructor
  case follows => exact fun _ _ => ⟨rfl, rfl⟩
  case barrier =>
    intro origin _ target _ round _ left
    exact absurd left (notLeft origin round)
  case contributed =>
    intro origin _ round _ entered
    exact absurd entered (notEntered origin round)
  case sound => exact fun _ _ _ _ => Pipe.sound_create
  case flows =>
    intro origin _ target _ round
    rw [unsent_of_not_left (notLeft origin round)]
    exact Pipe.flows_create
  case drained =>
    intro _ _ target _ round returned
    exact absurd returned (Nat.not_lt_zero _)
  case counts => exact fun _ _ => rfl
  case decrements => exact fun _ _ _ _ _ => rfl
  case origins => exact fun _ _ _ member => absurd member List.not_mem_nil

/-- The operations that a process has queued are delivered. -/
theorem Program.Safe.delivered_queued
    (safe : program.Safe)
    {rank round : Nat}
    (inSize : rank < program.size)
    {rmaOp : Op}
    (member : rmaOp ∈ program.queued rank round) :
    rmaOp.type = .get ∨ Delivered rmaOp.pieces := by
  induction round with
  | zero => exact safe.delivered 0 rank inSize rmaOp member
  | succ round ih =>
    rw [Program.queued, List.mem_append] at member
    rcases member with before | now
    · split at before
      · cases before
      · exact ih before
    · exact safe.delivered (round + 1) rank inSize rmaOp now

theorem inv_step
    (safe : program.Safe)
    (inv : Inv program state)
    {action : Action}
    (stepped : step program state action = some next) :
    Inv program next := by
  cases action with
  | fence rank =>
    simp only [step, Option.ite_none_right_eq_some] at stepped
    obtain ⟨inSize, stepped⟩ := stepped
    unfold State.fence at stepped
    split at stepped
    · next outside =>
        have sameCnt := (inv.follows rank inSize).fenceCnt
        split at stepped
        · next performs =>
            rw [sameCnt] at performs
            cases stepped
            exact (advances_enter inv inSize outside performs).inv inv
        · next performs =>
            rw [sameCnt] at performs
            cases stepped
            exact (advances_skip inv inSize outside performs).inv inv
    · cases stepped
  | leave rank =>
    simp only [step, Option.ite_none_right_eq_some] at stepped
    obtain ⟨inSize, stepped⟩ := stepped
    unfold State.leave at stepped
    split at stepped
    · next inCollective =>
        simp only [Option.ite_none_right_eq_some] at stepped
        obtain ⟨all, stepped⟩ := stepped
        cases stepped
        exact (advances_leave inv inSize inCollective all).inv inv
    · cases stepped
  | issue rank =>
    simp only [step, Option.ite_none_right_eq_some] at stepped
    obtain ⟨inSize, stepped⟩ := stepped
    unfold State.issue at stepped
    split at stepped
    · next currOpsCnt rmaOp currPtr issuing =>
        have queued := (inv.follows rank inSize).queued
        rw [issuing] at queued
        obtain ⟨-, queued, issued, split, -⟩ := queued
        have member : rmaOp ∈ program.queued rank (state.procs rank).round := by
          rw [← queued, split]
          simp
        cases stepped
        exact (advances_issue inv inSize issuing (safe.delivered_queued inSize member)).inv inv
    · cases stepped
  | finish rank =>
    simp only [step, Option.ite_none_right_eq_some] at stepped
    obtain ⟨inSize, stepped⟩ := stepped
    unfold State.finish at stepped
    split at stepped
    · next issuing =>
        simp only [Option.ite_none_right_eq_some] at stepped
        obtain ⟨⟨-, zero⟩, stepped⟩ := stepped
        cases stepped
        exact (advances_finish inv safe inSize issuing zero).inv inv
    · cases stepped
  | progress origin target event =>
    simp only [step, Option.ite_none_right_eq_some] at stepped
    obtain ⟨⟨originInSize, targetInSize⟩, stepped⟩ := stepped
    rw [State.progress, Option.map_eq_some_iff] at stepped
    obtain ⟨⟨pipe, out⟩, stepped, rfl⟩ := stepped
    obtain ⟨sound, moves⟩ := Pipe.step_spec
      (inv.sound origin originInSize target targetInSize) stepped
    exact inv.progress originInSize targetInSize moves sound

theorem inv_run
    (safe : program.Safe)
    {actions : List Action}
    (inv : Inv program state)
    (ran : run program state actions = some next) :
    Inv program next := by
  induction actions generalizing state with
  | nil =>
    cases ran
    exact inv
  | cons action actions ih =>
    rw [run, Option.bind_eq_some_iff] at ran
    obtain ⟨between, first, later⟩ := ran
    exact ih (inv_step safe inv first) later

/-- The invariant says that fences are exact. -/
theorem Inv.exact (inv : Inv program state) : Exact program state := by
  have lastsOfTotal : ∀ round origin target, lasts (program.total round origin target) =
        if program.Collective round ∧ program.opsTo round origin target ≠ [] then 1
        else 0 := by
    intro round origin target
    by_cases collective : program.Collective round
    · rw [lasts_total collective]
      by_cases none : program.opsTo round origin target = []
      · rw [if_pos none, if_neg fun both => both.2 none]
      · rw [if_neg none, if_pos ⟨collective, none⟩]
    · rw [total_of_not_collective collective, if_neg fun both => collective both.1]
      rfl
  -- After the return everything that belongs to the epoch has been performed.
  have performed : ∀ origin < program.size, ∀ target < program.size, ∀ round,
      round < (state.procs target).round → (program.total round origin target).Perm
        (slice round (state.pipes origin target).finished) := by
    intro origin originInSize target targetInSize round returned
    have perm := Pipe.perm_outstanding (inv.flows origin originInSize target targetInSize round)
    have drained := inv.drained origin originInSize target targetInSize round returned
    rw [State.remaining] at drained
    rw [drained, List.append_nil] at perm
    exact perm
  constructor
  case nonnegative =>
    intro target inSize
    have counts := inv.counts target inSize
    unfold Process.Counts at counts
    split at counts
    · omega
    · have atMost : program.targeters (state.procs target).round target ≤ program.size := by
        calc ∑ origin ∈ range program.size,
              (if program.opsTo (state.procs target).round origin target = [] then 0
                else 1)
            ≤ ∑ _origin ∈ range program.size, 1 := by
              apply sum_le_sum
              intro origin _
              split <;> omega
          _ = program.size := by simp
      omega
    · omega
  case origins => exact inv.origins
  case before =>
    intro origin originInSize target targetInSize round notEntered
    rw [inv.decrements origin originInSize target targetInSize]
    have flows := inv.flows origin originInSize target targetInSize round
    by_cases collective : program.Collective round
    · have notLeft : ¬ (state.procs origin).Left round := fun left => notEntered
        (inv.barrier origin originInSize target targetInSize round collective left)
      rw [unsent_of_not_left notLeft] at flows
      rw [(Pipe.finished_eq_nil_of_unissued flows).1]
      rfl
    · have perm := Pipe.perm_outstanding flows
      rw [total_of_not_collective collective] at perm
      rw [(List.append_eq_nil_iff.mp perm.nil_eq.symm).1]
      rfl
  case during =>
    intro origin originInSize target targetInSize round
    rw [inv.decrements origin originInSize target targetInSize, ← lastsOfTotal]
    have perm := Pipe.perm_outstanding (inv.flows origin originInSize target targetInSize round)
    rw [lasts, lasts, perm.countP_eq, List.countP_append]
    exact Nat.le_add_right _ _
  case after =>
    intro origin originInSize target targetInSize round returned collective
    rw [inv.decrements origin originInSize target targetInSize, lasts,
      ← (performed origin originInSize target targetInSize round returned).countP_eq]
    have total := lastsOfTotal round origin target
    rw [lasts] at total
    rw [total]
    simp only [collective, true_and]
  case performed =>
    intro origin originInSize target targetInSize round returned collective
    have perm := (performed origin originInSize target targetInSize round returned).map (·.body)
    rw [total_of_collective collective, map_body_packets] at perm
    exact perm.symm

/-- If the data of all operations are delivered and no get precedes a last operation
that is a put or an accumulate, then every fence of every run completes exactly its
own epoch. -/
theorem fence_exact
    (program : Program)
    (safe : program.Safe) :
    ∀ state, Reachable program state → Exact program state := by
  rintro state ⟨actions, ran⟩
  exact (inv_run safe (inv_init program) ran).exact

end

section

/-- An operation on one predefined element. -/
def word (type : RmaType) (target : Nat) : Op where
  type := type
  target := target
  predefined := true
  pieces := [4]

/-- Two processes that put an element into each other's window before every fence. -/
def puts : Program where
  size := 2
  accesses := fun _ rank => [word .put (1 - rank)]
  assert := fun _ => 0
  remote := by
    intro round rank inSize op member
    rw [List.mem_singleton.mp member]
    simp only [word]
    omega

theorem type_of_mem_puts
    {rank round : Nat} {op : Op}
    (member : op ∈ puts.queued rank round) :
    op.type = .put := by
  induction round with
  | zero => rw [List.mem_singleton.mp member]; rfl
  | succ round ih =>
    rw [Program.queued, List.mem_append] at member
    rcases member with before | now
    · split at before
      · cases before
      · exact ih before
    · rw [List.mem_singleton.mp now]
      rfl

theorem safe_puts : puts.Safe where
  delivered := by
    intro round origin _ op member
    rw [List.mem_singleton.mp member]
    exact .inr (.inl (show 1 ≤ 16 by decide))
  notOvertaken := by
    intro round origin _ target _ _ _ _ _ other member
    rw [type_of_mem_puts (List.mem_filter.mp member).1]
    exact RmaType.noConfusion

/-- Two fences of both processes. -/
def twoFences : List Action :=
  [.fence 0, .fence 1, .fence 0, .fence 1, .leave 0, .leave 1,
    .issue 0, .issue 0, .issue 1, .issue 1,
    .progress 0 1 .handle, .progress 0 1 .arrive, .progress 0 1 .handle,
    .progress 0 1 .arrive, .progress 1 0 .handle, .progress 1 0 .arrive,
    .progress 1 0 .handle, .progress 1 0 .arrive, .progress 0 1 .completeSend,
    .progress 0 1 .completeSend, .progress 1 0 .completeSend,
    .progress 1 0 .completeSend, .finish 0, .finish 1]

theorem fence_exact_puts :
    ∃ state, Reachable puts state ∧ (state.procs 0).round = 2 ∧ Exact puts state := by
  have rounds : (run puts .init twoFences).map (fun state => (state.procs 0).round) =
      some 2 := by decide
  obtain ⟨state, reached, round⟩ := Option.map_eq_some_iff.mp rounds
  exact ⟨state, ⟨twoFences, reached⟩, round, fence_exact puts safe_puts state ⟨twoFences, reached⟩⟩

/-- Process 0 gets an element from process 1 and then puts one. -/
def getThenPut : Program where
  size := 2
  accesses := fun round rank =>
    if round = 1 ∧ rank = 0 then [word .get 1, word .put 1] else []
  assert := fun _ => 0
  remote := by
    intro round rank inSize op member
    split at member
    · next isFirst =>
        rw [List.mem_cons, List.mem_singleton] at member
        rcases member with rfl | rfl
        · exact ⟨by decide, by simp [word, isFirst.2]⟩
        · exact ⟨by decide, by simp [word, isFirst.2]⟩
    · cases member

/-- Process 1 starts to send the response to the get, applies the put and returns from
the fence. -/
def overtakingPut : List Action :=
  [.fence 0, .fence 1, .fence 0, .fence 1, .leave 0, .leave 1, .issue 0, .issue 0,
    .progress 0 1 .handle, .progress 0 1 .handle, .progress 0 1 .arrive, .finish 1]

/-- The fence returns while the response is still being sent. -/
theorem not_fence_exact :
    ∃ state, Reachable getThenPut state ∧ ¬ Exact getThenPut state := by
  have observed : (run getThenPut .init overtakingPut).map
      (fun state => ((state.procs 1).round, (state.pipes 0 1).finished)) =
      some (2, [{ epoch := 1, body := .op (word .put 1), last := true }]) := by decide
  obtain ⟨state, reached, seen⟩ := Option.map_eq_some_iff.mp observed
  obtain ⟨round, finished⟩ := Prod.mk.inj seen
  refine ⟨state, ⟨overtakingPut, reached⟩, fun exact => ?_⟩
  have performed := exact.performed 0 (by decide) 1 (by decide) 1 (by omega) (by decide)
  rw [finished] at performed
  exact absurd performed.length_eq (by decide)

end

end Mpich.Ch3.Fence
