import Mpich.Ch3.WinLock.Invariant

/-!
# Releases from within the release loop

Sending a get response from the release loop can complete responses of any
window. Each completion takes the early return of `MPIDI_CH3I_Release_lock`: it
removes a holder, and only counts the release when that was the last holder of
its window. A target stays consistent through any number of them, and as long as
the other windows keep a holder, the count rises exactly when the window being
released has lost its last one.
-/

namespace Mpich.Ch3.WinLock

open List

attribute [local simp] Target.setWindow Target.setPhase Target.decrCounter Phase.Holds

variable {Win Req : Type*} [DecidableEq Win]

section

variable
    (target : Target Win Req)
    (window : Win)

include target window

@[simp] theorem releaseLockEntered_windows :
    (releaseLockEntered target window).windows = Function.update target.windows window
        (target.windows window).decrRefCnt := by
  unfold releaseLockEntered
  simp only
  split <;> rfl

@[simp] theorem releaseLockEntered_phase :
    (releaseLockEntered target window).phase = target.phase := by
  unfold releaseLockEntered
  simp only
  split <;> rfl

@[simp] theorem releaseLockEntered_history :
    (releaseLockEntered target window).history = target.history := by
  unfold releaseLockEntered
  simp only
  split <;> rfl

@[simp] theorem releaseLockEntered_enteredFlag :
    (releaseLockEntered target window).enteredFlag = target.enteredFlag := by
  unfold releaseLockEntered
  simp only
  split <;> rfl

theorem releaseLockEntered_enteredCount :
    (releaseLockEntered target window).enteredCount = target.enteredCount +
        if (target.windows window).decrRefCnt.sharedLockRefCnt = 0 then 1
        else 0 := by
  unfold releaseLockEntered
  simp only
  split <;> simp

end

variable [DecidableEq Req] {pkt : Req → LockPkt Win}

/-- What completions inside the loop leave alone, and the requests they
finish. -/
structure CompletedInside
    (completed : List Req)
    (target next : Target Win Req) : Prop where
  phase_eq : ∀ request, next.phase request =
    if request ∈ completed ∧ target.phase request = .responding then
      .finished
    else
      target.phase request
  history_eq : next.history = target.history
  enteredFlag_eq : next.enteredFlag = target.enteredFlag
  type_eq : ∀ window, (next.windows window).currentLockType =
    (target.windows window).currentLockType
  queue_eq : ∀ window, (next.windows window).lockQueue = (target.windows window).lockQueue

theorem getSendRespCompleteEntered_completed
    (pkt : Req → LockPkt Win)
    (target : Target Win Req)
    (request : Req)
    (responding : target.phase request = .responding) :
    CompletedInside [request] target (getSendRespCompleteEntered pkt target request) := by
  have phase_eq : ∀ other, (target.setPhase request .finished).phase other =
        if other ∈ [request] ∧ target.phase other = .responding then
          .finished
        else
          target.phase other := by
    intro other
    by_cases same : other = request
    · subst same
      simp [responding]
    · simp [same]
  unfold getSendRespCompleteEntered
  simp only
  split
  · refine ⟨phase_eq, rfl, rfl, ?_, ?_⟩
    all_goals
      intro window
      by_cases same : window = (pkt request).targetWin
      · subst same
        simp
      · simp [same]
  · refine ⟨by simpa using phase_eq, by simp, by simp, ?_, ?_⟩
    all_goals
      intro window
      by_cases same : window = (pkt request).targetWin
      · subst same
        simp
      · simp [same]

theorem completeEntered_nil (target : Target Win Req) :
    completeEntered pkt target [] = target :=
  rfl

theorem completeEntered_cons
    (target : Target Win Req)
    (request : Req)
    (completed : List Req) :
    completeEntered pkt target (request :: completed) = completeEntered pkt
        (if target.phase request = .responding then
          getSendRespCompleteEntered pkt target request
        else
          target)
        completed :=
  rfl

theorem completeEntered_completed
    (pkt : Req → LockPkt Win)
    (target : Target Win Req)
    (completed : List Req) :
    CompletedInside completed target (completeEntered pkt target completed) := by
  induction completed generalizing target with
  | nil =>
    rw [completeEntered_nil]
    exact ⟨by simp, rfl, rfl, fun _ => rfl, fun _ => rfl⟩
  | cons request completed ih =>
    rw [completeEntered_cons]
    by_cases responding : target.phase request = .responding
    · rw [if_pos responding]
      have first := getSendRespCompleteEntered_completed pkt target request responding
      have others := ih (getSendRespCompleteEntered pkt target request)
      refine ⟨?_, others.history_eq.trans first.history_eq,
        others.enteredFlag_eq.trans first.enteredFlag_eq,
        fun window => (others.type_eq window).trans (first.type_eq window),
        fun window => (others.queue_eq window).trans (first.queue_eq window)⟩
      intro other
      rw [others.phase_eq, first.phase_eq]
      by_cases same : other = request
      · subst same
        simp [responding]
      · simp [same]
    · rw [if_neg responding]
      have others := ih target
      refine ⟨?_, others.history_eq, others.enteredFlag_eq, others.type_eq, others.queue_eq⟩
      intro other
      rw [others.phase_eq]
      by_cases same : other = request
      · subst same
        simp [responding]
      · simp [same]

variable {target : Target Win Req}

/-- One completion inside the loop removes a holder and counts the release if
that was the last one. -/
theorem Consistent.getSendRespCompleteEntered
    (consistent : Consistent pkt target)
    {request : Req}
    (responding : target.phase request = .responding)
    {held : Finset Req}
    (agrees : Agrees pkt target (pkt request).targetWin held) :
    Consistent pkt (getSendRespCompleteEntered pkt target request) ∧
      Agrees pkt (getSendRespCompleteEntered pkt target request)
        (pkt request).targetWin (held.erase request) ∧
      (getSendRespCompleteEntered pkt target request).enteredCount =
        target.enteredCount + if held.erase request = ∅ then 1 else 0 := by
  have holds : request ∈ held :=
    (agrees.mem_iff request).mpr ⟨rfl, by simp [responding]⟩
  have locked : (target.windows (pkt request).targetWin).currentLockType ≠ none := by
    simp [agrees.lock.currentLockType_eq holds]
  have completed := getSendRespCompleteEntered_completed pkt target request responding
  have finished : (WinLock.getSendRespCompleteEntered pkt target request).phase
      request = .finished := by
    simp [completed.phase_eq, responding]
  have unfolded : WinLock.getSendRespCompleteEntered pkt target request =
      releaseLockEntered (target.setPhase request .finished) (pkt request).targetWin :=
    if_neg locked
  have window_eq : (WinLock.getSendRespCompleteEntered pkt target
      request).windows (pkt request).targetWin =
        (target.windows (pkt request).targetWin).decrRefCnt := by
    simp [unfolded]
  have differs : DiffersAt pkt target
      (WinLock.getSendRespCompleteEntered pkt target request) request := by
    refine ⟨?_, ?_, ?_⟩
    · intro window different
      simp [unfolded, different]
    · intro other different
      simp [completed.phase_eq, different]
    · intro other different
      rw [completed.history_eq]
  have remaining : Agrees pkt
      (WinLock.getSendRespCompleteEntered pkt target request)
      (pkt request).targetWin (held.erase request) := by
    refine ⟨?_, ?_, ?_⟩
    · exact agrees.erase_mem_iff differs (by simp [finished])
    · rw [window_eq]
      exact agrees.lock.decrRefCnt holds
    · rw [window_eq, decrRefCnt_myCounter, agrees.myCounter_eq]
  refine ⟨consistent.of_differsAt differs ⟨_, remaining⟩ ?_ ?_, remaining, ?_⟩
  · rw [completed.queue_eq]
    exact (consistent.queues _).congr differs (by simp [responding]) (by simp [finished])
  · have recorded := consistent.recorded request
    rw [responding] at recorded
    rw [finished, completed.history_eq]
    exact recorded.responding_finished
  · rw [unfolded, releaseLockEntered_enteredCount]
    simp only [Target.setPhase, agrees.lock.decrRefCnt_eq_zero_iff holds]

/-- A completion leaves the holders of every other window alone. -/
theorem Agrees.getSendRespCompleteEntered_of_ne
    {request : Req}
    (responding : target.phase request = .responding)
    {window : Win} {held : Finset Req}
    (agrees : Agrees pkt target window held)
    (different : window ≠ (pkt request).targetWin) :
    Agrees pkt (WinLock.getSendRespCompleteEntered pkt target request) window held := by
  have completed := getSendRespCompleteEntered_completed pkt target request responding
  have window_eq : (WinLock.getSendRespCompleteEntered pkt target
      request).windows window = target.windows window := by
    unfold WinLock.getSendRespCompleteEntered
    simp only
    split <;> simp [different]
  refine ⟨?_, ?_, ?_⟩
  · intro other
    rw [agrees.mem_iff other]
    by_cases same : other = request
    · subst same
      simp [HoldsLock, different.symm]
    · exact (HoldsLock.congr (by simp [completed.phase_eq, same])).symm
  · rw [window_eq]
    exact agrees.lock
  · rw [window_eq]
    exact agrees.myCounter_eq

theorem Consistent.completeEntered
    (consistent : Consistent pkt target)
    (completed : List Req) :
    Consistent pkt (completeEntered pkt target completed) := by
  induction completed generalizing target with
  | nil => exact consistent
  | cons request completed ih =>
    rw [completeEntered_cons]
    by_cases responding : target.phase request = .responding
    · rw [if_pos responding]
      obtain ⟨held, agrees⟩ := consistent.agrees (pkt request).targetWin
      exact ih (consistent.getSendRespCompleteEntered responding agrees).1
    · rw [if_neg responding]
      exact ih consistent

/-- Every window other than the one being released keeps a holder through the
completions. -/
def KeepsOthers
    (pkt : Req → LockPkt Win)
    (target : Target Win Req)
    (window : Win)
    (completed : List Req) : Prop :=
  ∀ request ∈ completed, (pkt request).targetWin ≠ window → target.phase request = .responding →
    ∃ other, HoldsLock pkt target (pkt request).targetWin other ∧
      ¬ (other ∈ completed ∧ target.phase other = .responding)

/-- Completions that keep the other windows locked count a release exactly when
the last holder of this window goes. -/
theorem Consistent.completeEntered_enteredCount
    (consistent : Consistent pkt target)
    {window : Win} {completed : List Req}
    (keepsOthers : KeepsOthers pkt target window completed)
    {held remaining : Finset Req}
    (before : Agrees pkt target window held)
    (after : Agrees pkt (WinLock.completeEntered pkt target completed) window
      remaining) :
    (WinLock.completeEntered pkt target completed).enteredCount = target.enteredCount +
        if held.Nonempty ∧ remaining = ∅ then 1 else 0 := by
  induction completed generalizing target held with
  | nil =>
    have same : remaining = held := by
      ext request
      rw [after.mem_iff, before.mem_iff, completeEntered_nil]
    rw [same, if_neg (fun both => both.1.ne_empty both.2), completeEntered_nil, Int.add_zero]
  | cons request completed ih =>
    rw [completeEntered_cons] at after ⊢
    by_cases responding : target.phase request = .responding
    · rw [if_pos responding] at after ⊢
      obtain ⟨requestHeld, agrees⟩ := consistent.agrees (pkt request).targetWin
      obtain ⟨stepConsistent, stepAgrees, stepCount⟩ :=
        consistent.getSendRespCompleteEntered responding agrees
      have step := getSendRespCompleteEntered_completed pkt target request responding
      have stepKeeps : KeepsOthers pkt
          (WinLock.getSendRespCompleteEntered pkt target request) window
          completed := by
        intro later member different laterResponding
        rw [step.phase_eq] at laterResponding
        have laterBefore : target.phase later = .responding := by
          split at laterResponding
          · simp at laterResponding
          · exact laterResponding
        obtain ⟨other, holds, stays⟩ := keepsOthers later
          (mem_cons_of_mem _ member) different laterBefore
        have distinct : other ≠ request := by
          intro same
          subst same
          exact stays ⟨by simp, responding⟩
        have phase_eq : (WinLock.getSendRespCompleteEntered pkt target
            request).phase other = target.phase other := by
          simp [step.phase_eq, distinct]
        refine ⟨other, (HoldsLock.congr phase_eq).mpr holds, ?_⟩
        rw [phase_eq]
        exact fun both => stays ⟨mem_cons_of_mem _ both.1, both.2⟩
      by_cases sameWindow : (pkt request).targetWin = window
      · subst sameWindow
        have heldEq : requestHeld = held := by
          ext other
          rw [agrees.mem_iff, before.mem_iff]
        subst heldEq
        have holds : request ∈ requestHeld :=
          (agrees.mem_iff request).mpr ⟨rfl, by simp [responding]⟩
        rw [ih stepConsistent stepKeeps stepAgrees after, stepCount]
        by_cases last : requestHeld.erase request = ∅
        · have none_left : remaining = ∅ := by
            apply Finset.eq_empty_of_forall_notMem
            intro other remains
            rw [after.mem_iff] at remains
            have completion := completeEntered_completed pkt
              (WinLock.getSendRespCompleteEntered pkt target request)
              completed
            have earlier : HoldsLock pkt
                (WinLock.getSendRespCompleteEntered pkt target request)
                (pkt request).targetWin other := by
              refine ⟨remains.1, ?_⟩
              have phaseHolds := remains.2
              rw [completion.phase_eq] at phaseHolds
              split at phaseHolds
              · simp at phaseHolds
              · exact phaseHolds
            rw [← stepAgrees.mem_iff, last] at earlier
            simp at earlier
          rw [if_pos last, none_left]
          simp [last, Finset.nonempty_of_ne_empty (Finset.ne_empty_of_mem holds)]
        · rw [if_neg last, Int.add_zero]
          simp [Finset.nonempty_of_ne_empty last,
            Finset.nonempty_of_ne_empty (Finset.ne_empty_of_mem holds)]
      · have holdsOther : ∃ other ∈ requestHeld.erase request, True := by
          obtain ⟨other, holds, stays⟩ := keepsOthers request mem_cons_self sameWindow responding
          refine ⟨other, Finset.mem_erase.mpr ⟨?_, ?_⟩, trivial⟩
          · intro same
            subst same
            exact stays ⟨by simp, responding⟩
          · exact (agrees.mem_iff other).mpr holds
        obtain ⟨other, otherHolds, -⟩ := holdsOther
        rw [ih stepConsistent stepKeeps
          (before.getSendRespCompleteEntered_of_ne responding (Ne.symm sameWindow)) after,
          stepCount, if_neg (Finset.ne_empty_of_mem otherHolds), Int.add_zero]
    · rw [if_neg responding] at after ⊢
      apply ih consistent ?_ before after
      intro later member different laterResponding
      obtain ⟨other, holds, stays⟩ := keepsOthers later
        (mem_cons_of_mem _ member) different laterResponding
      exact ⟨other, holds, fun both => stays ⟨mem_cons_of_mem _ both.1, both.2⟩⟩

end Mpich.Ch3.WinLock
