import Mpich.Ch3.Fence.Calls

/-!
# When fences are entered together

The counters of all processes are equal after a fence that all have entered in the
same way, and a process changes its own before the next fence only by setting it
to zero. What is queued for an epoch of fences is completed by the fence that ends
it, whatever the other processes do.
-/

namespace Mpich.Ch3.Fence

open Option

/-- The test of the source never fails, because the bit it looks for is not the
lowest one. -/
theorem and_modeNosucceed_ne_one (assert : BitVec 32) :
    assert &&& modeNosucceed ≠ 1 := by
  intro same
  have lowest := congrArg (BitVec.getLsbD · 0) same
  simp [modeNosucceed] at lowest

theorem leavesOne_of_noprecede
    {assert : BitVec 32} {one : Bool}
    (noprecede : assert &&& modeNoprecede ≠ 0) :
    leavesOne assert one = decide (assert &&& modeNosucceed = 0) :=
  if_pos (.inl noprecede)

theorem leavesOne_true {assert : BitVec 32} :
    leavesOne assert true = decide (assert &&& modeNosucceed = 0) :=
  if_pos (.inr rfl)

theorem leavesOne_of_precede
    {assert : BitVec 32}
    (precede : assert &&& modeNoprecede = 0) :
    leavesOne assert false = true := by
  rw [leavesOne, if_neg]
  rintro (noprecede | impossible)
  · exact noprecede precede
  · cases impossible

namespace Win

variable {rank : Nat} {win : Win} {assert : BitVec 32}

theorem fence_of_noprecede (noprecede : assert &&& modeNoprecede ≠ 0) :
    win.fence assert = (false, { win with
      fenceCnt := if assert &&& modeNosucceed ≠ 0 then 0 else 1 }) :=
  if_pos noprecede

theorem fence_of_zero
    (precede : assert &&& modeNoprecede = 0)
    (zero : win.fenceCnt = 0) :
    win.fence assert = (false, { win with fenceCnt := 1 }) := by
  rw [fence, if_neg (not_not.mpr precede), if_pos ⟨zero, and_modeNosucceed_ne_one assert⟩]

theorem fence_of_ne_zero
    (precede : assert &&& modeNoprecede = 0)
    (nonzero : win.fenceCnt ≠ 0) :
    win.fence assert = (true,
      { fenceCnt := if assert &&& modeNosucceed ≠ 0 then 0 else win.fenceCnt
        rmaOpsList := [] }) := by
  rw [fence, if_neg (not_not.mpr precede), if_neg fun both => nonzero both.1]

/-- A call leaves the counter as it is or sets it to zero. -/
theorem call_fenceCnt (win : Win) (call : Call) :
    (win.call rank call).fenceCnt = if call.Resets then 0 else win.fenceCnt := by
  cases call with
  | access type target dataSz =>
    cases target with
    | none => rfl
    | some target =>
      simp only [Win.call, access]
      split <;> rfl
  | post => rfl
  | start => rfl
  | complete => rfl
  | wait => rfl
  | lock lockType dest =>
    cases dest with
    | none => rfl
    | some dest =>
      simp only [Win.call, lock]
      split <;> rfl
  | unlock dest =>
    have unchanged : (win.unlock rank dest).fenceCnt = win.fenceCnt := by
      unfold unlock
      split
      · rfl
      · split
        · rfl
        · split
          · split <;> rfl
          · rfl
    exact unchanged

theorem calls_fenceCnt (win : Win) (calls : List Call) :
    (win.calls rank calls).fenceCnt = if ∃ call ∈ calls, call.Resets then 0 else win.fenceCnt := by
  induction calls generalizing win with
  | nil =>
    rw [if_neg]
    · rfl
    · rintro ⟨call, member, -⟩
      exact absurd member List.not_mem_nil
  | cons call calls ih =>
    have step : win.calls rank (call :: calls) = (win.call rank call).calls rank calls := rfl
    rw [step, ih, call_fenceCnt]
    simp only [List.mem_cons, exists_eq_or_imp]
    by_cases later : ∃ call ∈ calls, call.Resets
    · rw [if_pos later, if_pos (.inr later)]
    · rw [if_neg later]
      by_cases now : call.Resets
      · rw [if_pos now, if_pos (.inl now)]
      · rw [if_neg now, if_neg (not_or.mpr ⟨now, later⟩)]

end Win

section

variable {size : Nat}

/-- The counter that a process has before a fence. -/
theorem fenceCnt_before
    {round : Round} {rank : Nat} {one : Bool} {win : Win}
    (counter : win.fenceCnt = one.toNat) :
    (win.calls rank (round.calls rank)).fenceCnt = (one && decide (¬ round.Resets rank)).toNat := by
  have before := @Win.calls_fenceCnt rank win (round.calls rank)
  change _ = if round.Resets rank then 0 else win.fenceCnt at before
  rw [before, counter]
  by_cases resets : round.Resets rank
  · simp [resets]
  · simp [resets]

/-- The branch that a process takes, and its counter afterwards. -/
theorem fence_spec
    (assert : BitVec 32)
    {one : Bool} {win : Win}
    (counter : win.fenceCnt = one.toNat) :
    (win.fence assert).1 = (decide (assert &&& modeNoprecede = 0) && one) ∧
      (win.fence assert).2.fenceCnt = (leavesOne assert one).toNat := by
  have signal : (if assert &&& modeNosucceed ≠ 0 then 0 else 1) =
      (decide (assert &&& modeNosucceed = 0)).toNat := by
    by_cases succeed : assert &&& modeNosucceed = 0
    · rw [if_neg (not_not.mpr succeed), decide_eq_true succeed]
      rfl
    · rw [if_pos succeed, decide_eq_false succeed]
      rfl
  by_cases precede : assert &&& modeNoprecede = 0
  · rw [decide_eq_true precede, Bool.true_and]
    cases one with
    | false =>
      rw [Win.fence_of_zero precede counter, leavesOne_of_precede precede]
      exact ⟨rfl, rfl⟩
    | true =>
      have nonzero : win.fenceCnt ≠ 0 := by
        rw [counter]
        decide
      rw [Win.fence_of_ne_zero precede nonzero, counter, leavesOne_true]
      exact ⟨rfl, signal⟩
  · rw [Win.fence_of_noprecede precede, decide_eq_false precede, leavesOne_of_noprecede precede]
    exact ⟨rfl, signal⟩

theorem branches_cons
    (rank : Nat)
    (win : Win)
    (round : Round)
    (rounds : List Round) :
    branches rank win (round :: rounds) =
      ((win.calls rank (round.calls rank)).fence round.assert).1 ::
        branches rank ((win.calls rank (round.calls rank)).fence round.assert).2 rounds :=
  rfl

/-- Processes whose counters are equal enter all fences together exactly if they
reset their counters together. -/
theorem branches_eq_iff
    (rounds : List Round)
    {one : Bool} {wins : Nat → Win}
    (counters : ∀ rank < size, (wins rank).fenceCnt = one.toNat) :
    (∀ rank < size, ∀ other < size,
        branches rank (wins rank) rounds = branches other (wins other) rounds) ↔
      ResetTogether size one rounds := by
  induction rounds generalizing one wins with
  | nil =>
    constructor
    · intro _
      trivial
    · intro _ rank _ other _
      rfl
  | cons round rounds ih =>
    have specs : ∀ rank < size, _ := fun rank inSize =>
      fence_spec round.assert (@fenceCnt_before round rank one _ (counters rank inSize))
    rw [ResetTogether]
    simp only [branches_cons, List.cons.injEq]
    by_cases together : one → round.assert &&& modeNoprecede = 0 →
        (∀ rank < size, round.Resets rank) ∨ ∀ rank < size, ¬ round.Resets rank
    · -- All processes have the same counter after the fence.
      have same : ∀ rank < size, (round.assert &&& modeNoprecede = 0 →
            (one && decide (¬ round.Resets rank)) =
              (one && decide (∀ rank < size, ¬ round.Resets rank))) := by
        intro rank inSize precede
        cases one with
        | false => rfl
        | true =>
          rcases together rfl precede with all | nobody
          · have some : ¬ ∀ rank < size, ¬ round.Resets rank :=
              fun nobody => nobody rank inSize (all rank inSize)
            rw [decide_eq_false some, decide_eq_false (not_not.mpr (all rank inSize))]
          · rw [decide_eq_true nobody, decide_eq_true (nobody rank inSize)]
      have after : ∀ rank < size, (((wins rank).calls rank (round.calls rank)).fence
            round.assert).2.fenceCnt =
            (leavesOne round.assert
              (one && decide (∀ rank < size, ¬ round.Resets rank))).toNat := by
        intro rank inSize
        rw [(specs rank inSize).2]
        by_cases precede : round.assert &&& modeNoprecede = 0
        · rw [same rank inSize precede]
        · rw [leavesOne_of_noprecede precede, leavesOne_of_noprecede precede]
      have heads : ∀ rank < size,
          (((wins rank).calls rank (round.calls rank)).fence round.assert).1 =
            (decide (round.assert &&& modeNoprecede = 0) &&
              (one && decide (∀ rank < size, ¬ round.Resets rank))) := by
        intro rank inSize
        rw [(specs rank inSize).1]
        by_cases precede : round.assert &&& modeNoprecede = 0
        · rw [same rank inSize precede]
        · rw [decide_eq_false precede, Bool.false_and, Bool.false_and]
      rw [and_iff_right together, ← ih after]
      constructor
      · intro equal rank inSize other otherInSize
        exact (equal rank inSize other otherInSize).2
      · intro equal rank inSize other otherInSize
        refine ⟨?_, equal rank inSize other otherInSize⟩
        rw [heads rank inSize, heads other otherInSize]
    · constructor
      · intro equal
        refine absurd ?_ together
        intro isOne precede
        by_contra mixed
        obtain ⟨notAll, notNobody⟩ := not_or.mp mixed
        push Not at notAll notNobody
        obtain ⟨rank, inSize, keeps⟩ := notAll
        obtain ⟨other, otherInSize, resets⟩ := notNobody
        have branch := (equal rank inSize other otherInSize).1
        rw [(specs rank inSize).1, (specs other otherInSize).1] at branch
        simp [isOne, precede, keeps, resets] at branch
      · intro both
        exact absurd both.1 together

theorem enteredTogether_iff (size : Nat) (rounds : List Round) :
    EnteredTogether size rounds ↔ ResetTogether size false rounds :=
  @branches_eq_iff size rounds false (fun _ => .create) fun _ _ => rfl

end

section

variable {rank : Nat} {win : Win}

/-- What an epoch says about the window of its process. -/
def Epoch.Holds (rank : Nat) (win : Win) : Epoch → Prop
  | .none => win.rmaOpsList = []
  | .opened => win.fenceCnt ≠ 0 ∧ win.rmaOpsList = []
  | .fence => win.fenceCnt ≠ 0
  | .started => True
  | .locked Option.none => win.rmaOpsList = []
  | .locked (some dest) =>
    if dest = rank then win.rmaOpsList = []
    else ∃ lockType rest, win.rmaOpsList = .lock lockType dest :: rest

theorem Epoch.holds_access_fence
    (nonzero : win.fenceCnt ≠ 0)
    (type : RmaType)
    (target : Option Nat)
    (dataSz : Nat) :
    Epoch.Holds rank (win.access rank type target dataSz) .fence := by
  have counter := @Win.call_fenceCnt rank win (.access type target dataSz)
  change (win.access rank type target dataSz).fenceCnt = win.fenceCnt at counter
  change _ ≠ 0
  rw [counter]
  exact nonzero

/-- A lock is the first entry of the list unless nothing is sent for it. -/
theorem Epoch.holds_lock
    (empty : win.rmaOpsList = [])
    (lockType : LockType)
    (dest : Option Nat) :
    Epoch.Holds rank (win.lock rank lockType dest) (.locked dest) := by
  cases dest with
  | none => exact empty
  | some dest =>
    by_cases own : dest = rank
    · simp only [Epoch.Holds, Win.lock, if_pos own]
      exact empty
    · simp only [Epoch.Holds, Win.lock, if_neg own]
      exact ⟨lockType, [], rfl⟩

theorem Epoch.holds_access_locked
    {dest : Option Nat}
    (holds : Epoch.Holds rank win (.locked dest))
    (type : RmaType)
    (dataSz : Nat) :
    Epoch.Holds rank (win.access rank type dest dataSz) (.locked dest) := by
  cases dest with
  | none => exact holds
  | some dest =>
    simp only [Win.access]
    by_cases done : dataSz = 0 ∨ dest = rank
    · rw [if_pos done]
      exact holds
    · obtain ⟨-, remote⟩ := not_or.mp done
      rw [if_neg done]
      simp only [Epoch.Holds, if_neg remote] at holds ⊢
      obtain ⟨lockType, rest, list⟩ := holds
      refine ⟨lockType, rest ++ [.op type dest], ?_⟩
      rw [list, List.cons_append]

theorem Epoch.holds_unlock
    {dest : Option Nat}
    (holds : Epoch.Holds rank win (.locked dest)) :
    Epoch.Holds rank (win.unlock rank dest) .none := by
  cases dest with
  | none => exact holds
  | some dest =>
    simp only [Win.unlock]
    by_cases own : dest = rank
    · simp only [Epoch.Holds, if_pos own] at holds ⊢
      exact holds
    · simp only [Epoch.Holds, if_neg own] at holds ⊢
      obtain ⟨lockType, rest, list⟩ := holds
      rw [list]
      simp only [if_pos]

/-- A call that is allowed keeps what the epoch says. -/
theorem Epoch.holds_call
    {epoch next : Epoch} {call : Call}
    (allowed : epoch.after call = some next)
    (holds : epoch.Holds rank win) :
    next.Holds rank (win.call rank call) := by
  cases call with
  | access type target dataSz =>
    cases epoch with
    | none => cases allowed
    | opened =>
      cases allowed
      exact Epoch.holds_access_fence holds.1 type target dataSz
    | fence =>
      cases allowed
      exact Epoch.holds_access_fence holds type target dataSz
    | started =>
      cases allowed
      trivial
    | locked dest =>
      simp only [Epoch.after, ite_none_right_eq_some] at allowed
      obtain ⟨rfl, same⟩ := allowed
      cases same
      exact Epoch.holds_access_locked holds type dataSz
  | post =>
    cases epoch with
    | none =>
      cases allowed
      exact holds
    | opened =>
      cases allowed
      exact holds.2
    | fence => cases allowed
    | started =>
      cases allowed
      trivial
    | locked dest =>
      cases allowed
      cases dest with
      | none => exact holds
      | some dest => exact holds
  | start =>
    cases epoch with
    | none =>
      cases allowed
      trivial
    | opened =>
      cases allowed
      trivial
    | fence => cases allowed
    | started => cases allowed
    | locked dest => cases allowed
  | complete =>
    cases epoch with
    | none => cases allowed
    | opened => cases allowed
    | fence => cases allowed
    | started =>
      cases allowed
      rfl
    | locked dest => cases allowed
  | wait =>
    have unchanged : next = epoch := by
      cases epoch <;> exact (Option.some.inj allowed).symm
    rw [unchanged]
    exact holds
  | lock lockType dest =>
    cases epoch with
    | none =>
      cases allowed
      exact Epoch.holds_lock holds lockType dest
    | opened =>
      cases allowed
      exact Epoch.holds_lock holds.2 lockType dest
    | fence => cases allowed
    | started => cases allowed
    | locked held => cases allowed
  | unlock dest =>
    cases epoch with
    | none => cases allowed
    | opened => cases allowed
    | fence => cases allowed
    | started => cases allowed
    | locked held =>
      simp only [Epoch.after, ite_none_right_eq_some] at allowed
      obtain ⟨rfl, same⟩ := allowed
      cases same
      exact Epoch.holds_unlock holds

theorem Epoch.holds_calls
    {epoch next : Epoch} {calls : List Call}
    (allowed : epoch.afterAll calls = some next)
    (holds : epoch.Holds rank win) :
    next.Holds rank (win.calls rank calls) := by
  induction calls generalizing epoch win with
  | nil =>
    cases allowed
    exact holds
  | cons call calls ih =>
    rw [Epoch.afterAll, bind_eq_some_iff] at allowed
    obtain ⟨between, first, later⟩ := allowed
    exact ih later (Epoch.holds_call first holds)

/-- What a fence leaves open where nothing was queued when it returned. -/
theorem Epoch.holds_fenced
    {assert : BitVec 32}
    (counter : assert &&& modeNosucceed = 0 → win.fenceCnt ≠ 0)
    (empty : win.rmaOpsList = []) :
    Epoch.Holds rank win (if assert &&& modeNosucceed ≠ 0 then .none else .opened) := by
  by_cases succeed : assert &&& modeNosucceed = 0
  · rw [if_neg (not_not.mpr succeed)]
    exact ⟨counter succeed, empty⟩
  · rw [if_pos succeed]
    exact empty

/-- A fence leaves a positive counter unless no epoch of fences follows it. -/
theorem Win.fence_fenceCnt_ne_zero
    {assert : BitVec 32}
    (succeed : assert &&& modeNosucceed = 0) :
    (win.fence assert).2.fenceCnt ≠ 0 := by
  by_cases precede : assert &&& modeNoprecede = 0
  · by_cases zero : win.fenceCnt = 0
    · rw [Win.fence_of_zero precede zero]
      exact Nat.one_ne_zero
    · rw [Win.fence_of_ne_zero precede zero, if_neg (not_not.mpr succeed)]
      exact zero
  · rw [Win.fence_of_noprecede precede, if_neg (not_not.mpr succeed)]
    exact Nat.one_ne_zero

/-- A fence with nothing to complete leaves nothing queued in any branch. -/
theorem Win.fence_rmaOpsList_of_empty
    (assert : BitVec 32)
    (empty : win.rmaOpsList = []) :
    (win.fence assert).2.rmaOpsList = [] := by
  unfold Win.fence
  split
  · exact empty
  · split
    · exact empty
    · rfl

/-- A fence that is allowed leaves nothing queued. -/
theorem Epoch.holds_fence
    {assert : BitVec 32} {epoch next : Epoch}
    (allowed : epoch.afterFence assert = some next)
    (holds : epoch.Holds rank win) :
    (win.fence assert).2.rmaOpsList = [] ∧ next.Holds rank (win.fence assert).2 := by
  have positive := @Win.fence_fenceCnt_ne_zero win assert
  cases epoch with
  | none =>
    cases allowed
    have empty := Win.fence_rmaOpsList_of_empty assert holds
    exact ⟨empty, Epoch.holds_fenced positive empty⟩
  | opened =>
    cases allowed
    have empty := Win.fence_rmaOpsList_of_empty assert holds.2
    exact ⟨empty, Epoch.holds_fenced positive empty⟩
  | fence =>
    -- Only a fence that performs the collective ends an epoch with accesses.
    simp only [Epoch.afterFence, ite_none_left_eq_some, not_not] at allowed
    obtain ⟨precede, same⟩ := allowed
    cases same
    have empty : (win.fence assert).2.rmaOpsList = [] := by
      rw [Win.fence_of_ne_zero precede holds]
    exact ⟨empty, Epoch.holds_fenced positive empty⟩
  | started => cases allowed
  | locked dest => cases allowed

/-- No queued operation survives a fence of a process whose calls are allowed. -/
theorem flushed_of_legal
    {rounds : List Round} {epoch : Epoch}
    (legal : epoch.Legal rank rounds)
    (holds : epoch.Holds rank win) :
    ∀ fenced ∈ fences rank win rounds, fenced.2.rmaOpsList = [] := by
  induction rounds generalizing epoch win with
  | nil =>
    intro fenced member
    cases member
  | cons round rounds ih =>
    obtain ⟨before, after, called, fence, later⟩ := legal
    obtain ⟨empty, holdsAfter⟩ := Epoch.holds_fence fence (Epoch.holds_calls called holds)
    intro fenced member
    rcases List.mem_cons.mp member with rfl | member
    · exact empty
    · exact ih later holdsAfter fenced member

end

/-- In every run whose calls are allowed, all fences are entered together and leave
nothing queued exactly if the counters that a fence has left at one are reset by all
processes or by none before a fence that looks at them. -/
theorem entered_and_flushed_iff
    (size : Nat)
    (rounds : List Round)
    (legal : ∀ rank < size, Epoch.Legal rank .none rounds) :
    (EnteredTogether size rounds ∧ Flushed size rounds) ↔ ResetTogether size false rounds := by
  rw [enteredTogether_iff]
  apply and_iff_left
  intro rank inSize
  exact flushed_of_legal (legal rank inSize) rfl

/-- Two processes open an epoch with a fence, exchange data in it and end it. -/
def exchange : List Round :=
  [{ calls := fun _ => [], assert := modeNoprecede },
    { calls := fun rank => [.access .put (some (1 - rank)) 4]
      assert := modeNosucceed },
    { calls := fun rank => [.lock .shared (some (1 - rank)), .unlock (some (1 - rank))]
      assert := 0 }]

theorem entered_and_flushed_iff_exchange :
    (EnteredTogether 2 exchange ∧ Flushed 2 exchange) ↔ ResetTogether 2 false exchange := by
  apply entered_and_flushed_iff
  intro rank inSize
  refine ⟨.none, .opened, rfl, rfl, .fence, .none, ?_, rfl, .none, .opened, ?_, rfl, trivial⟩
  · rfl
  · simp [Epoch.afterAll, Epoch.after]

/-- A fence after which no epoch of fences follows, and another one before which
process 0 locks the window of process 1 on its own. -/
def lockBetween : List Round :=
  [{ calls := fun _ => [], assert := modeNosucceed },
    { calls := fun rank =>
        if rank = 0 then [.lock .exclusive (some 1), .unlock (some 1)] else []
      assert := 0 }]

/-- The second fence of process 0 returns at once, while process 1 performs the
collective. -/
theorem not_entered_together :
    (∀ rank < 2, Epoch.Legal rank .none lockBetween) ∧ ¬ EnteredTogether 2 lockBetween := by
  constructor
  · intro rank inSize
    refine ⟨.none, .none, rfl, rfl, .none, .opened, ?_, rfl, trivial⟩
    by_cases first : rank = 0
    · simp [first, Epoch.afterAll, Epoch.after]
    · simp [first, Epoch.afterAll]
  · intro together
    have differ := together 0 (by decide) 1 (by decide)
    revert differ
    decide

end Mpich.Ch3.Fence
