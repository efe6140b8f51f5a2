import Mpich.Ch3.WinLock.Release

/-!
# When the release of a lock comes to its end

`MPIDI_CH3I_Release_lock` on an arbitrary target: any lock type and reference
count, any queue, any responses in flight. Which entries the release loop can
grant depends only on a `Tally`: the lock type and the reference count of each
window, the responses in flight, and the releases from within that have not had
their pass. The passes of the loop together go through the queue once, since the
entries that a pass has gone over still wait for their data in the next one.
`Tally.Passes` says that each entry can be granted when its turn comes, and the
loop returns exactly in that case.
-/

namespace Mpich.Ch3.WinLock

open List Function Option

variable {Win Req : Type*}

/-! ## The tally -/

/-- What a release loop depends on apart from the queue. -/
@[ext] structure Tally (Win Req : Type*) where
  lockType : Win → Option LockType
  refCnt : Win → Int
  inFlight : Req → Bool
  /-- Releases from within that have not had a pass of their own. -/
  pending : Int

/-- The tally of a target, when the loop has counted this many releases. -/
def Target.tally
    (target : Target Win Req)
    (tempEnteredCount : Int) : Tally Win Req where
  lockType := fun window => (target.windows window).currentLockType
  refCnt := fun window => (target.windows window).sharedLockRefCnt
  inFlight := fun request => decide (target.phase request = .responding)
  pending := target.enteredCount - tempEnteredCount

variable [DecidableEq Win] [DecidableEq Req]

namespace Tally

/-- The lock of a window is granted. -/
def acquire
    (tally : Tally Win Req)
    (window : Win)
    (lockType : LockType) : Tally Win Req :=
  { tally with
    lockType := update tally.lockType window (some lockType)
    refCnt := update tally.refCnt window
      (tally.refCnt window + if lockType = .shared then 1 else 0) }

/-- One holder of a shared lock less. -/
def decrRefCnt
    (tally : Tally Win Req)
    (window : Win) : Tally Win Req :=
  { tally with
    refCnt := update tally.refCnt window
      (tally.refCnt window -
        if tally.lockType window = some .shared then 1 else 0) }

/-- Nobody is taken to hold the lock. -/
def free
    (tally : Tally Win Req)
    (window : Win) : Tally Win Req :=
  { tally with lockType := update tally.lockType window none }

/-- A response is put in flight, or has arrived. -/
def setInFlight
    (tally : Tally Win Req)
    (request : Req)
    (inFlight : Bool) : Tally Win Req :=
  { tally with inFlight := update tally.inFlight request inFlight }

/-- The lock is given back at once. -/
def giveBack
    (tally : Tally Win Req)
    (window : Win) : Tally Win Req :=
  if (tally.decrRefCnt window).refCnt window = 0 then
    (tally.decrRefCnt window).free window
  else
    tally.decrRefCnt window

/-- The early return of `MPIDI_CH3I_Release_lock`: a release from within is
counted when the window is left without a holder. -/
def releaseEntered
    (tally : Tally Win Req)
    (window : Win) : Tally Win Req :=
  let left := tally.decrRefCnt window
  if left.refCnt window = 0 then
    { left with pending := left.pending + 1 }
  else
    left

/-- A response completes while the loop runs. -/
def finish
    (pkt : Req → LockPkt Win)
    (tally : Tally Win Req)
    (request : Req) : Tally Win Req :=
  let window := (pkt request).targetWin
  if tally.inFlight request = false then
    tally
  else if tally.lockType window = none then
    tally.setInFlight request false
  else
    (tally.setInFlight request false).releaseEntered window

/-- An entry of the queue is granted and executed. -/
def serve
    (pkt : Req → LockPkt Win)
    (inside : Req → List Req)
    (window : Win)
    (tally : Tally Win Req)
    (entry : LockQueueEntry Req) : Tally Win Req :=
  let granted := tally.acquire window entry.lockType
  match entry.ptSingleOp.map PtSingleOp.type with
  | none => granted.setInFlight entry.request false
  | some .get =>
    (inside entry.request).foldl (finish pkt)
      (granted.setInFlight entry.request true)
  | some _ => (granted.giveBack window).setInFlight entry.request false

/-- A release from within has its pass. -/
def nextPass
    (tally : Tally Win Req)
    (window : Win) : Tally Win Req :=
  { tally.free window with pending := tally.pending - 1 }

/-- Each entry that has its data can be granted when its turn comes, until an
exclusive lock or get is granted with no further pass to come. -/
def Passes
    (pkt : Req → LockPkt Win)
    (inside : Req → List Req)
    (window : Win) :
    Tally Win Req → List (LockQueueEntry Req) → Prop
  | _, [] => True
  | tally, entry :: rest =>
    if entry.Ready then
      Admits (tally.lockType window) entry.lockType ∧
        let served := tally.serve pkt inside window entry
        if entry.Stops then
          served.pending = 0 ∨ (served.nextPass window).Passes pkt inside window rest
        else
          served.Passes pkt inside window rest
    else
      tally.Passes pkt inside window rest

end Tally

/-! ## The tally follows the target -/

section

variable {pkt : Req → LockPkt Win} {inside : Req → List Req} {window : Win}
  (target : Target Win Req) {tempEnteredCount : Int}

omit [DecidableEq Win] in
theorem tally_setPhase
    (request : Req)
    (phase : Phase) :
    (target.setPhase request phase).tally tempEnteredCount =
      (target.tally tempEnteredCount).setInFlight request (decide (phase = .responding)) := by
  apply Tally.ext
  · rfl
  · rfl
  · exact comp_update (fun phase : Phase =>
      decide (phase = .responding)) _ _ _
  · rfl

omit [DecidableEq Win] in
theorem tally_record
    (request : Req)
    (event : Event) :
    (target.record request event).tally tempEnteredCount = target.tally tempEnteredCount :=
  rfl

section

omit [DecidableEq Req]

theorem tally_setWindow
    (win : WindowState Req) :
    (target.setWindow window win).tally tempEnteredCount =
      { target.tally tempEnteredCount with
        lockType := update
          (target.tally tempEnteredCount).lockType window win.currentLockType
        refCnt := update
          (target.tally tempEnteredCount).refCnt window
            win.sharedLockRefCnt } := by
  apply Tally.ext
  · exact comp_update WindowState.currentLockType _ _ _
  · exact comp_update WindowState.sharedLockRefCnt _ _ _
  · rfl
  · rfl

/-- The tally does not depend on the other fields of a window. -/
theorem tally_setWindow_of_eq
    {win : WindowState Req}
    (type_eq : win.currentLockType = (target.windows window).currentLockType)
    (refCnt_eq : win.sharedLockRefCnt = (target.windows window).sharedLockRefCnt) :
    (target.setWindow window win).tally tempEnteredCount = target.tally tempEnteredCount := by
  rw [tally_setWindow, type_eq, refCnt_eq]
  apply Tally.ext
  · exact update_eq_self _ _
  · exact update_eq_self _ _
  · rfl
  · rfl

theorem tally_acquired
    (lockType : LockType) :
    (target.setWindow window
        ((target.windows window).acquired lockType)).tally tempEnteredCount =
      (target.tally tempEnteredCount).acquire window lockType := by
  rw [tally_setWindow]
  apply Tally.ext
  · rfl
  · simp only [WindowState.acquired, Tally.acquire, Target.tally]
    split <;> simp
  · rfl
  · rfl

theorem tally_decrRefCnt :
    (target.setWindow window (target.windows window).decrRefCnt).tally
        tempEnteredCount =
      (target.tally tempEnteredCount).decrRefCnt window := by
  rw [tally_setWindow]
  apply Tally.ext
  · rw [decrRefCnt_currentLockType]
    exact update_eq_self _ _
  · simp only [WindowState.decrRefCnt, Tally.decrRefCnt, Target.tally]
    by_cases shared : (target.windows window).currentLockType = some .shared
    · simp [shared]
    · simp [shared]
  · rfl
  · rfl

theorem tally_clear :
    (target.clear window).tally tempEnteredCount = (target.tally tempEnteredCount).free window := by
  rw [Target.clear, tally_setWindow]
  apply Tally.ext
  · rfl
  · exact update_eq_self _ _
  · rfl
  · rfl

theorem tally_refCnt_decr :
    ((target.tally tempEnteredCount).decrRefCnt window).refCnt window =
      (target.windows window).decrRefCnt.sharedLockRefCnt := by
  rw [← tally_decrRefCnt]
  simp [Target.tally, Target.setWindow]

/-- The window is left as after `WindowState.releaseInPlace`. -/
theorem tally_releaseInPlace :
    (target.setWindow window (target.windows window).releaseInPlace).tally
        tempEnteredCount =
      (target.tally tempEnteredCount).giveBack window := by
  unfold WindowState.releaseInPlace Tally.giveBack
  rw [tally_refCnt_decr, ← tally_decrRefCnt, ← tally_clear]
  split
  · simp [Target.clear, Target.setWindow]
  · rfl

theorem tally_releaseLockEntered :
    (releaseLockEntered target window).tally tempEnteredCount =
      (target.tally tempEnteredCount).releaseEntered window := by
  unfold releaseLockEntered Tally.releaseEntered
  simp only
  rw [tally_refCnt_decr, ← tally_decrRefCnt]
  split
  · apply Tally.ext
    · rfl
    · rfl
    · rfl
    · simp only [Target.tally, Target.setWindow]
      omega
  · rfl

end

/-- A response that completes inside. -/
theorem tally_getSendRespCompleteEntered
    (request : Req) :
    (if target.phase request = .responding then
        getSendRespCompleteEntered pkt target request
      else
        target).tally tempEnteredCount =
      (target.tally tempEnteredCount).finish pkt request := by
  by_cases responding : target.phase request = .responding
  · rw [if_pos responding]
    have inFlight : (target.tally tempEnteredCount).inFlight request = true :=
      decide_eq_true responding
    unfold getSendRespCompleteEntered
    simp only [Tally.finish, inFlight, Bool.true_eq_false, if_false]
    generalize window_eq : (pkt request).targetWin = window
    by_cases idle : (target.windows window).currentLockType = none
    · rw [if_pos (by exact idle), if_pos (by exact idle),
        Target.decrCounter, tally_setWindow_of_eq _ (by rfl) (by rfl), tally_setPhase]
      rfl
    · rw [if_neg (by exact idle), if_neg (by exact idle), tally_releaseLockEntered, tally_setPhase]
      rfl
  · rw [if_neg responding]
    have notInFlight : (target.tally tempEnteredCount).inFlight request = false :=
      decide_eq_false responding
    rw [Tally.finish, if_pos notInFlight]

theorem tally_completeEntered
    (completed : List Req) :
    (completeEntered pkt target completed).tally tempEnteredCount =
      completed.foldl (Tally.finish pkt) (target.tally tempEnteredCount) := by
  induction completed generalizing target with
  | nil => rfl
  | cons request completed ih =>
    rw [completeEntered_cons, ih, tally_getSendRespCompleteEntered, foldl_cons]

/-- Serving an entry of the queue changes the tally as `Tally.serve` says. -/
theorem tally_serveEntry
    (entry : LockQueueEntry Req)
    (lockQueue : List (LockQueueEntry Req)) :
    ((serveEntry pkt inside window
        (target.setWindow window ((target.windows window).acquired entry.lockType))
        entry).setLockQueue window lockQueue).tally tempEnteredCount =
      (target.tally tempEnteredCount).serve pkt inside window entry := by
  rw [Target.setLockQueue, tally_setWindow_of_eq _ (by rfl) (by rfl)]
  unfold serveEntry Tally.serve
  cases op_eq : entry.ptSingleOp with
  | none =>
    rw [tally_setPhase, tally_record, tally_acquired]
    rfl
  | some singleOp =>
    have executed : ∀ type, (((((target.setWindow window
            ((target.windows window).acquired entry.lockType)).record
              entry.request (.applied type)).countPutAcc window).record
                entry.request .rmaDone).tally tempEnteredCount) =
          (target.tally tempEnteredCount).acquire window entry.lockType := by
      intro type
      rw [tally_record, Target.countPutAcc,
        tally_setWindow_of_eq _ (by rfl) (by rfl), tally_record, tally_acquired]
    cases type_eq : singleOp.type with
    | get =>
      simp only [map_some, type_eq]
      rw [doSimpleGet, tally_completeEntered, tally_setPhase, tally_record, tally_acquired]
      rfl
    | put =>
      simp only [map_some, type_eq]
      rw [tally_setPhase, tally_releaseInPlace, executed]
      rfl
    | accumulate =>
      simp only [map_some, type_eq]
      rw [tally_setPhase, tally_releaseInPlace, executed]
      rfl

end

/-! ## The passes -/

section

variable {pkt : Req → LockPkt Win} {inside : Req → List Req} {window : Win}

theorem Tally.pending_finish
    (tally : Tally Win Req)
    (request : Req) :
    tally.pending ≤ (tally.finish pkt request).pending ∧
      (tally.finish pkt request).pending ≤ tally.pending + 1 := by
  unfold Tally.finish Tally.releaseEntered
  simp only
  split
  · omega
  · split
    · simp only [Tally.setInFlight]
      omega
    · split
      · simp only [Tally.setInFlight, Tally.decrRefCnt]
        omega
      · simp only [Tally.setInFlight, Tally.decrRefCnt]
        omega

theorem Tally.pending_finish_foldl
    (tally : Tally Win Req)
    (completed : List Req) :
    tally.pending ≤ (completed.foldl (Tally.finish pkt) tally).pending ∧
      (completed.foldl (Tally.finish pkt) tally).pending ≤ tally.pending + completed.length := by
  induction completed generalizing tally with
  | nil => simp
  | cons request completed ih =>
    have first := @Tally.pending_finish _ _ _ _ pkt tally request
    have others := ih (tally.finish pkt request)
    rw [foldl_cons, length_cons]
    omega

/-- Serving an entry adds at most the responses that complete inside. -/
theorem Tally.pending_serve
    (tally : Tally Win Req)
    (entry : LockQueueEntry Req) :
    tally.pending ≤ (tally.serve pkt inside window entry).pending ∧
      (tally.serve pkt inside window entry).pending ≤
        tally.pending + (inside entry.request).length := by
  have unchanged : tally.pending ≤ tally.pending + (inside entry.request).length :=
    by omega
  unfold Tally.serve
  simp only
  split
  · exact ⟨le_refl _, unchanged⟩
  · exact @Tally.pending_finish_foldl _ _ _ _ pkt
      ((tally.acquire window entry.lockType).setInFlight entry.request true)
      (inside entry.request)
  · unfold Tally.giveBack
    split
    · exact ⟨le_refl _, unchanged⟩
    · exact ⟨le_refl _, unchanged⟩

/-- A pass has come to its end: `rest` are the entries that the pointer has not
reached. -/
structure PassDone
    (inside : Req → List Req)
    (window : Win)
    (tempEnteredCount : Int)
    (bound : Int)
    (kept rest : List (LockQueueEntry Req))
    (target : Target Win Req) : Prop where
  queue_eq : (target.windows window).lockQueue = kept ++ rest
  notReady : ∀ entry ∈ kept, ¬ entry.Ready
  nonneg : 0 ≤ (target.tally tempEnteredCount).pending
  bounded : (target.tally tempEnteredCount).pending + releasesInside inside rest ≤ bound
  ends : rest = [] ∨ (target.windows window).currentLockType = some .exclusive

theorem serveEntry_lockType_of_stops
    (target : Target Win Req)
    {entry : LockQueueEntry Req}
    (stops : entry.Stops)
    (lockQueue : List (LockQueueEntry Req)) :
    (((serveEntry pkt inside window
        (target.setWindow window ((target.windows window).acquired entry.lockType))
        entry).setLockQueue window lockQueue).windows
          window).currentLockType = some .exclusive := by
  obtain ⟨exclusive, plain | isGet⟩ := stops
  · simp [serveEntry, plain, Target.setLockQueue, Target.setWindow,
      Target.setPhase, Target.record, WindowState.acquired, exclusive]
  · obtain ⟨singleOp, singleOp_eq, type_eq⟩ := map_eq_some_iff.mp isGet
    have completion := completeEntered_completed pkt
      (((target.setWindow window
        ((target.windows window).acquired entry.lockType)).record
          entry.request (.applied .get)).setPhase entry.request .responding)
      (inside entry.request)
    simp only [serveEntry, singleOp_eq, type_eq, doSimpleGet,
      Target.setLockQueue, Target.setWindow, update_self]
    exact (completion.type_eq window).trans (by
      simp [Target.setWindow, Target.setPhase, Target.record, WindowState.acquired, exclusive])

variable {target : Target Win Req}

variable {tempEnteredCount : Int}

/-- One pass, for any target: it stops at an entry that cannot be granted, or it
comes to its end and what is left decides about the passes to come. Induction on
the entries that the pointer has yet to reach. -/
theorem releaseScan_cases
    (rest : List (LockQueueEntry Req))
    {kept : List (LockQueueEntry Req)}
    (queue_eq : (target.windows window).lockQueue = kept ++ rest)
    (notReady : ∀ entry ∈ kept, ¬ entry.Ready)
    (nonneg : 0 ≤ (target.tally tempEnteredCount).pending) :
    (releaseScan pkt inside window kept rest target = none ∧
        ¬ (target.tally tempEnteredCount).Passes pkt inside window rest) ∨
      ∃ next nextKept nextRest, releaseScan pkt inside window kept rest target = some next ∧
          PassDone inside window tempEnteredCount
            ((target.tally tempEnteredCount).pending +
              releasesInside inside rest) nextKept nextRest next ∧
          ((target.tally tempEnteredCount).Passes pkt inside window rest ↔
            (next.tally tempEnteredCount).pending = 0 ∨
              ((next.tally tempEnteredCount).nextPass window).Passes pkt inside
                window nextRest) := by
  induction rest generalizing kept target with
  | nil =>
    refine .inr ⟨target, kept, [], rfl, ⟨queue_eq, notReady, nonneg, le_refl _, .inl rfl⟩, ?_⟩
    exact ⟨fun _ => .inr trivial, fun _ => trivial⟩
  | cons entry rest ih =>
    by_cases ready : entry.Ready
    · by_cases admits :
          Admits ((target.tally tempEnteredCount).lockType window) entry.lockType
      · have follows := @tally_serveEntry _ _ _ _ pkt inside window
          target tempEnteredCount entry (kept ++ rest)
        have pending := @Tally.pending_serve _ _ _ _ pkt inside window
          (target.tally tempEnteredCount) entry
        rw [releaseScan, if_pos ready, tryAcquireWinLock_of_admits admits,
          Tally.Passes, if_pos ready, releasesInside_cons]
        simp only
        rw [← follows] at pending ⊢
        have lock_eq := fun stops => @serveEntry_lockType_of_stops _ _ _ _
          pkt inside window target entry stops (kept ++ rest)
        have served_queue : ((((serveEntry pkt inside window
            (target.setWindow window ((target.windows window).acquired entry.lockType))
            entry).setLockQueue window (kept ++ rest)).windows
              window).lockQueue) = kept ++ rest := by
          simp [Target.setLockQueue, Target.setWindow]
        generalize (serveEntry pkt inside window _ entry).setLockQueue
          window (kept ++ rest) = served at *
        by_cases stops : entry.Stops
        · rw [if_pos stops, if_pos stops]
          refine .inr ⟨served, kept, rest, rfl,
            ⟨served_queue, notReady, by omega, by push_cast; omega, .inr (lock_eq stops)⟩, ?_⟩
          exact and_iff_right admits
        · rw [if_neg stops, if_neg stops]
          rcases ih served_queue notReady (by omega) with
            ⟨stuck, fails⟩ | ⟨next, nextKept, nextRest, scanned, done, iff⟩
          · exact .inl ⟨stuck, fun passes => fails passes.2⟩
          · refine .inr ⟨next, nextKept, nextRest, scanned, ?_, ?_⟩
            · refine ⟨done.queue_eq, done.notReady, done.nonneg, ?_, done.ends⟩
              have bounded := done.bounded
              omega
            · exact (and_iff_right admits).trans iff
      · refine .inl ⟨?_, ?_⟩
        · rw [releaseScan, if_pos ready, tryAcquireWinLock_of_not_admits admits]
        · rw [Tally.Passes, if_pos ready]
          exact fun passes => admits passes.1
    · have passedOver : ∀ other ∈ kept ++ [entry], ¬ other.Ready := by
        intro other member
        rcases mem_append.mp member with member | member
        · exact notReady other member
        · rw [mem_singleton.mp member]
          exact ready
      rw [releaseScan, if_neg ready, Tally.Passes, if_neg ready]
      rcases ih (by simp [queue_eq]) passedOver nonneg with
        stuck | ⟨next, nextKept, nextRest, scanned, done, iff⟩
      · exact .inl stuck
      · refine .inr ⟨next, nextKept, nextRest, scanned, ?_, iff⟩
        refine ⟨done.queue_eq, done.notReady, done.nonneg, ?_, done.ends⟩
        have bounded := done.bounded
        rw [releasesInside_cons]
        omega

omit [DecidableEq Req] in
/-- The next pass starts from the tally that the last one left. -/
theorem tally_clear_next :
    (target.clear window).tally (tempEnteredCount + 1) =
      (target.tally tempEnteredCount).nextPass window := by
  rw [tally_clear]
  apply Tally.ext
  · rfl
  · rfl
  · rfl
  · simp only [Tally.free, Tally.nextPass, Target.tally]
    omega

variable
    {kept rest : List (LockQueueEntry Req)}
    (queue_eq : (target.windows window).lockQueue = kept ++ rest)
    (notReady : ∀ entry ∈ kept, ¬ entry.Ready)
    {temp : Int}
    (temp_eq : temp = if tempEnteredCount ≠ target.enteredCount then
        tempEnteredCount + 1
      else
        tempEnteredCount)
    (nonneg : 0 ≤ ((target.clear window).tally temp).pending)

include queue_eq notReady

/-- One round of the release loop. -/
theorem releaseLoop_succ (fuel : Nat) :
    let temp :=
      if tempEnteredCount ≠ target.enteredCount then
        tempEnteredCount + 1
      else
        tempEnteredCount
    releaseLoop pkt inside window (fuel + 1) tempEnteredCount target =
      (releaseScan pkt inside window kept rest (target.clear window)).bind
        fun next =>
          if temp ≠ next.enteredCount then
            releaseLoop pkt inside window fuel temp next
          else
            some { next with enteredCount := 0, enteredFlag := 0 } := by
  rw [releaseLoop]
  rw [show target.setWindow window
      { target.windows window with currentLockType := none } =
        target.clear window from rfl, clear_lockQueue, queue_eq,
    releaseScan_append_of_not_ready notReady, nil_append]

include temp_eq nonneg in
/-- The release loop never returns when an entry cannot be granted in its
turn. -/
theorem releaseLoop_of_not_passes
    (fuel : Nat)
    (fails : ¬ ((target.clear window).tally temp).Passes pkt inside window
      rest) :
    releaseLoop pkt inside window fuel tempEnteredCount target = none := by
  induction fuel generalizing target tempEnteredCount temp kept rest with
  | zero => rfl
  | succ fuel ih =>
    rw [releaseLoop_succ queue_eq notReady, ← temp_eq]
    rcases releaseScan_cases rest (by rw [clear_lockQueue, queue_eq]) notReady nonneg with
      ⟨stuck, -⟩ | ⟨next, nextKept, nextRest, scanned, done, iff⟩
    · rw [stuck, bind_none]
    · rw [iff, not_or] at fails
      obtain ⟨waiting, nextFails⟩ := fails
      have nonnegNext := done.nonneg
      have again : temp ≠ next.enteredCount := by
        simp only [Target.tally] at waiting
        omega
      rw [scanned, bind_some, if_pos again]
      apply ih done.queue_eq done.notReady rfl
      · rw [if_pos again, tally_clear_next]
        simp only [Tally.nextPass]
        omega
      · rw [if_pos again, tally_clear_next]
        exact nextFails

/-- No entry that waits with its data could be granted. -/
def NoneGrantable
    (win : WindowState Req) : Prop :=
  ∀ entry ∈ win.lockQueue, entry.Ready → tryAcquireWinLock win entry.lockType = none

include temp_eq nonneg in
/-- The release loop returns, and leaves no entry that could be granted. Each
round but the last uses up a release from within. -/
theorem releaseLoop_of_passes
    (fuel : Nat)
    (passes : ((target.clear window).tally temp).Passes pkt inside window rest)
    (enough : ((target.clear window).tally temp).pending + releasesInside inside rest < fuel) :
    ∃ next, releaseLoop pkt inside window fuel tempEnteredCount target =
        some next ∧ NoneGrantable (next.windows window) := by
  induction fuel generalizing target tempEnteredCount temp kept rest with
  | zero => push_cast at enough; omega
  | succ fuel ih =>
    rw [releaseLoop_succ queue_eq notReady, ← temp_eq]
    rcases releaseScan_cases rest (by rw [clear_lockQueue, queue_eq]) notReady nonneg with
      ⟨-, fails⟩ | ⟨next, nextKept, nextRest, scanned, done, iff⟩
    · exact absurd passes fails
    · have nonnegNext := done.nonneg
      have bounded := done.bounded
      rw [scanned, bind_some]
      by_cases again : temp ≠ next.enteredCount
      · have waiting : (next.tally temp).pending ≠ 0 := by
          simp only [Target.tally]
          omega
        have nextPasses := (iff.mp passes).resolve_left waiting
        rw [if_pos again]
        apply ih done.queue_eq done.notReady rfl
        · rw [if_pos again, tally_clear_next]
          simp only [Tally.nextPass]
          omega
        · rw [if_pos again, tally_clear_next]
          exact nextPasses
        · rw [if_pos again, tally_clear_next]
          simp only [Tally.nextPass]
          omega
      · rw [if_neg again]
        refine ⟨_, rfl, ?_⟩
        intro entry member ready
        rcases done.ends with finished | exclusive
        · rw [done.queue_eq, finished, append_nil] at member
          exact absurd ready (done.notReady entry member)
        · apply tryAcquireWinLock_of_not_admits
          rw [exclusive]
          simp [Admits]

end

/-! ## The call -/

section

variable (pkt : Req → LockPkt Win) (inside : Req → List Req)

/-- An exclusive lock was granted between these two states of a window: an entry
that asks for one has left the queue. -/
def ExclusiveGranted (win next : WindowState Req) : Prop :=
  ∃ entry, entry.lockType = .exclusive ∧ next.lockQueue.count entry < win.lockQueue.count entry

/-- The call of `MPIDI_CH3I_Release_lock` returns, and no entry that has its data
could be granted, unless an exclusive lock was granted. -/
def ReleaseSettles
    (target : Target Win Req)
    (window : Win) : Prop :=
  ∃ next, releaseLock pkt inside target window = some next ∧
      (ExclusiveGranted (target.windows window) (next.windows window) ∨
        NoneGrantable (next.windows window))

/-- The tally with which the release loop starts. -/
def startTally
    (target : Target Win Req)
    (window : Win) : Tally Win Req :=
  ((target.tally target.enteredCount).decrRefCnt window).free window

/-- When this is not the last holder, or a release loop is running already, no
entry with its data could be granted before; otherwise each entry with its data
can be granted when its turn comes. -/
def QueueOrderly
    (target : Target Win Req)
    (window : Win) : Prop :=
  if (target.windows window).decrRefCnt.sharedLockRefCnt = 0 ∧ target.enteredFlag = 0 then
    (startTally target window).Passes pkt inside window
      (target.windows window).lockQueue
  else
    ∀ entry ∈ (target.windows window).lockQueue, entry.Ready →
      ¬ Admits (target.windows window).currentLockType entry.lockType

variable {pkt inside} {target : Target Win Req} {window : Win}

variable
    (early : ¬ ((target.windows window).decrRefCnt.sharedLockRefCnt = 0 ∧ target.enteredFlag = 0))

include early in
/-- A call that leaves the lock as it is. -/
theorem releaseLock_early :
    ∃ next, releaseLock pkt inside target window = some next ∧
        next.windows window = (target.windows window).decrRefCnt := by
  unfold releaseLock
  by_cases released :
      (target.windows window).decrRefCnt.sharedLockRefCnt = 0
  · have entered : target.enteredFlag ≠ 0 := fun zero => early ⟨released, zero⟩
    rw [if_pos released, if_pos entered]
    exact ⟨_, rfl, by simp [Target.setWindow]⟩
  · rw [if_neg released]
    exact ⟨_, rfl, by simp [Target.setWindow]⟩

omit [DecidableEq Req] in
theorem noneGrantable_iff {win : WindowState Req} :
    NoneGrantable win ↔ ∀ entry ∈ win.lockQueue, entry.Ready →
      ¬ Admits win.currentLockType entry.lockType := by
  constructor
  · intro none entry member ready admits
    have refused := none entry member ready
    rw [tryAcquireWinLock_of_admits admits] at refused
    exact absurd refused (by simp)
  · intro refused entry member ready
    exact tryAcquireWinLock_of_not_admits (refused entry member ready)

section

variable
    (released : (target.windows window).decrRefCnt.sharedLockRefCnt = 0)
    (notEntered : target.enteredFlag = 0)

include released notEntered

/-- The first pass of the loop. -/
theorem releaseLock_loop :
    releaseLock pkt inside target window = releaseLoop pkt inside window
        (releaseFuel inside (target.windows window).lockQueue)
        target.enteredCount
        { target.setWindow window (target.windows window).decrRefCnt with
          enteredFlag := 1 } := by
  unfold releaseLock
  rw [if_pos released, if_neg (by simp [notEntered]), decrRefCnt_lockQueue]

/-- The call runs the release loop. -/
theorem releaseSettles_iff_passes :
    ReleaseSettles pkt inside target window ↔
      (startTally target window).Passes pkt inside window (target.windows window).lockQueue := by
  unfold ReleaseSettles
  rw [releaseLock_loop released notEntered]
  generalize entered_eq :
    ({ target.setWindow window (target.windows window).decrRefCnt with
      enteredFlag := 1 } : Target Win Req) = entered
  have queue_eq : (entered.windows window).lockQueue = [] ++ (target.windows window).lockQueue := by
    subst entered_eq
    simp [Target.setWindow]
  have tally_eq : (entered.clear window).tally target.enteredCount = startTally target window := by
    subst entered_eq
    rw [tally_clear, startTally, ← tally_decrRefCnt]
    rfl
  have count_eq : entered.enteredCount = target.enteredCount := by
    subst entered_eq
    rfl
  have temp_eq : target.enteredCount = if target.enteredCount ≠ entered.enteredCount then
        target.enteredCount + 1
      else
        target.enteredCount := by
    rw [if_neg (not_not.mpr count_eq.symm)]
  have pending_eq :
      ((entered.clear window).tally target.enteredCount).pending = 0 := by
    rw [tally_eq]
    simp [startTally, Tally.free, Tally.decrRefCnt, Target.tally]
  rw [← tally_eq]
  constructor
  · rintro ⟨next, returned, -⟩
    by_contra fails
    rw [releaseLoop_of_not_passes queue_eq (by simp) temp_eq (by omega) _ fails] at returned
    exact absurd returned (by simp)
  · intro passes
    have enough : ((entered.clear window).tally target.enteredCount).pending +
        releasesInside inside (target.windows window).lockQueue <
          releaseFuel inside (target.windows window).lockQueue := by
      simp only [releaseFuel, releasesInside]
      omega
    obtain ⟨next, returned, none⟩ := releaseLoop_of_passes queue_eq (by simp) temp_eq
      (by omega) _ passes enough
    exact ⟨next, returned, .inr none⟩

end

include early in
/-- The call returns early, with the queue as it was. -/
theorem releaseSettles_iff_of_early :
    ReleaseSettles pkt inside target window ↔
      ∀ entry ∈ (target.windows window).lockQueue, entry.Ready →
        ¬ Admits (target.windows window).currentLockType entry.lockType := by
  obtain ⟨next, returned, window_eq⟩ := @releaseLock_early _ _ _ _ pkt inside target window early
  have same : NoneGrantable (next.windows window) ↔
      ∀ entry ∈ (target.windows window).lockQueue, entry.Ready →
        ¬ Admits (target.windows window).currentLockType entry.lockType := by
    rw [noneGrantable_iff, window_eq, decrRefCnt_lockQueue, decrRefCnt_currentLockType]
  have nothingGranted : ¬ ExclusiveGranted (target.windows window) (next.windows window) := by
    rintro ⟨entry, -, fewer⟩
    rw [window_eq, decrRefCnt_lockQueue] at fewer
    exact lt_irrefl _ fewer
  rw [← same]
  constructor
  · rintro ⟨other, otherReturned, settled⟩
    rw [returned, Option.some.injEq] at otherReturned
    subst otherReturned
    exact settled.resolve_left nothingGranted
  · exact fun none => ⟨next, returned, .inr none⟩

/-- Releasing a lock returns with no entry left that could be granted exactly
when the queue is in such an order. -/
theorem releaseLock_settles_iff
    (pkt : Req → LockPkt Win)
    (inside : Req → List Req)
    (target : Target Win Req)
    (window : Win) :
    ReleaseSettles pkt inside target window ↔ QueueOrderly pkt inside target window := by
  unfold QueueOrderly
  by_cases runs : (target.windows window).decrRefCnt.sharedLockRefCnt = 0 ∧ target.enteredFlag = 0
  · rw [if_pos runs]
    exact releaseSettles_iff_passes runs.1 runs.2
  · rw [if_neg runs]
    exact releaseSettles_iff_of_early runs

/-- A queue of two entries with their data: a shared lock that is granted keeps
the exclusive one behind it from being granted, and the pointer never moves. -/
theorem releaseLock_stuck_sharedThenExclusive :
    ¬ ∀ (pkt : Nat → LockPkt Unit) (inside : Nat → List Nat)
      (target : Target Unit Nat) (window : Unit),
      ReleaseSettles pkt inside target window := by
  intro settles
  obtain ⟨next, returned, -⟩ := settles
    (fun _ => { targetWin := (), lockType := .shared, singleOp := none })
    (fun _ => [])
    { windows := fun _ => {
        currentLockType := some .exclusive
        sharedLockRefCnt := 0
        lockQueue := [
          { request := 1, lockType := .shared, ptSingleOp := none },
          { request := 2, lockType := .exclusive, ptSingleOp := none }]
        myCounter := 0
        myPtRmaPutsAccs := 0 }
      enteredFlag := 0
      enteredCount := 0
      phase := fun request =>
        if request = 0 then .finished
        else if request ≤ 2 then .queued
        else .idle
      history := fun _ => [] }
    ()
  have stuck : none = some next := returned
  exact absurd stuck (by simp)

end

end Mpich.Ch3.WinLock
