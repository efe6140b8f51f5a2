import Mpich.Ch3.WinLock.Scan

/-!
# The release loop

Each pass but the last uses up a release from within, so that the release loop
returns when its passes are safe, and it leaves the target as it is between two
steps: consistent, with every window at rest and the marks of the loop reset.
-/

namespace Mpich.Ch3.WinLock

open List

attribute [local simp] Target.setWindow

variable {Win Req : Type*} [DecidableEq Win]
variable {pkt : Req → LockPkt Win}
variable {inside : Req → List Req} {start : Target Win Req} {window : Win}
  {tempEnteredCount : Int}

/-- The target between two steps. -/
structure LockInvariant
    (pkt : Req → LockPkt Win)
    (target : Target Win Req) : Prop where
  consistent : Consistent pkt target
  atRest : ∀ window, AtRest pkt target window
  enteredFlag_eq : target.enteredFlag = 0
  enteredCount_eq : target.enteredCount = 0

/-- The window is marked free before a pass. -/
def Target.clear
    (target : Target Win Req)
    (window : Win) : Target Win Req :=
  target.setWindow window
    { target.windows window with currentLockType := none }

variable {target : Target Win Req} {held : Finset Req}

attribute [local simp] Target.clear

theorem Agrees.clear
    {other : Win}
    (agrees : Agrees pkt target other held)
    (released : other = window → held = ∅) :
    Agrees pkt (target.clear window) other held where
  mem_iff := agrees.mem_iff
  lock := by
    by_cases same : other = window
    · subst same
      have lock := agrees.lock
      rw [released rfl] at lock ⊢
      simpa using lock.cleared
    · simpa [same] using agrees.lock
  myCounter_eq := by
    by_cases same : other = window
    · subst same
      simpa using agrees.myCounter_eq
    · simpa [same] using agrees.myCounter_eq

@[simp] theorem clear_lockQueue
    (target : Target Win Req)
    (window other : Win) :
    ((target.clear window).windows other).lockQueue = (target.windows other).lockQueue := by
  by_cases same : other = window
  · subst same
    simp
  · simp [same]

theorem Consistent.clear
    (consistent : Consistent pkt target)
    (agrees : Agrees pkt target window ∅) :
    Consistent pkt (target.clear window) where
  agrees := by
    intro other
    obtain ⟨held, otherAgrees⟩ := consistent.agrees other
    refine ⟨held, otherAgrees.clear ?_⟩
    intro same
    subst same
    ext request
    rw [otherAgrees.mem_iff, agrees.mem_iff]
  queues := by
    intro other
    rw [clear_lockQueue]
    have queue := consistent.queues other
    exact ⟨queue.entryOf, queue.nodup, queue.mem_iff⟩
  recorded := consistent.recorded

theorem AtRest.clear
    {other : Win}
    (atRest : AtRest pkt target other)
    (different : other ≠ window) :
    AtRest pkt (target.clear window) other := by
  have window_eq : (target.clear window).windows other = target.windows other := by
    simp [different]
  refine ⟨?_, ?_⟩
  · rw [window_eq]
    exact atRest.busy
  · rw [window_eq]
    exact atRest.idle

variable [DecidableEq Req]

/-- Another pass begins. -/
theorem Scanning.clear
    {completed : List Req} {pending : Nat}
    (scanning : Scanning pkt start window completed tempEnteredCount pending ∅
      target)
    (waiting : 0 < pending) :
    Scanning pkt start window completed (tempEnteredCount + 1) (pending - 1) ∅
      (target.clear window) where
  consistent := scanning.consistent.clear scanning.agrees
  agrees := scanning.agrees.clear fun _ => rfl
  others := fun other different =>
    (scanning.others other different).clear different
  phase_eq := scanning.phase_eq
  getsOnly := by simp
  busy := by simp
  enteredFlag_eq := scanning.enteredFlag_eq
  enteredCount_eq := by
    rw [show (target.clear window).enteredCount = target.enteredCount from rfl,
      scanning.enteredCount_eq]
    omega

theorem releaseScan_append_of_not_ready
    {kept rest passed : List (LockQueueEntry Req)}
    (notReady : ∀ entry ∈ kept, ¬ entry.Ready) :
    releaseScan pkt inside window passed (kept ++ rest) target =
      releaseScan pkt inside window (passed ++ kept) rest target := by
  induction kept generalizing passed with
  | nil => simp
  | cons entry kept ih =>
    rw [cons_append, releaseScan, if_neg (notReady entry mem_cons_self), ih fun other member =>
        notReady other (mem_cons_of_mem _ member)]
    simp

/-- The loop ends when no release from within is left without its pass. -/
theorem PassEnd.lockInvariant
    {completed : List Req}
    {kept rest : List (LockQueueEntry Req)}
    (passEnd : PassEnd pkt inside start window tempEnteredCount completed 0
      held kept rest target) :
    LockInvariant pkt
      { target with enteredCount := 0, enteredFlag := 0 } := by
  have consistent := passEnd.scanning.consistent
  have scanned : AtRest pkt target window := by
    refine ⟨?_, ?_⟩
    · intro locked
      obtain ⟨holder, holds⟩ := (passEnd.scanning.busy locked).resolve_right (lt_irrefl 0)
      exact ⟨holder, (passEnd.scanning.agrees.mem_iff holder).mp holds⟩
    · intro free
      rw [passEnd.queue_eq, passEnd.idle rfl free, append_nil]
      exact passEnd.notReady
  refine ⟨⟨?_, ?_, consistent.recorded⟩, ?_, rfl, rfl⟩
  · intro other
    obtain ⟨otherHeld, agrees⟩ := consistent.agrees other
    exact ⟨otherHeld, agrees.mem_iff, agrees.lock, agrees.myCounter_eq⟩
  · intro other
    have queue := consistent.queues other
    exact ⟨queue.entryOf, queue.nodup, queue.mem_iff⟩
  · intro other
    have atRest : AtRest pkt target other := by
      by_cases same : other = window
      · rw [same]
        exact scanned
      · exact passEnd.scanning.others other same
    exact ⟨atRest.busy, atRest.idle⟩

/-- The release loop returns and leaves the target in order. Induction on the
passes: each one but the last uses up a release from within. -/
theorem releaseLoop_of_passSafe
    (fuel : Nat)
    {completed : List Req} {pending : Nat}
    {kept rest : List (LockQueueEntry Req)}
    (scanning : Scanning pkt start window completed
      (if tempEnteredCount ≠ target.enteredCount then tempEnteredCount + 1
        else tempEnteredCount)
      pending ∅ (target.clear window))
    (queue_eq : (target.windows window).lockQueue = kept ++ rest)
    (notReady : ∀ entry ∈ kept, ¬ entry.Ready)
    (safe : PassSafe pkt inside (KeepsOthers pkt start window) none ∅ pending
      completed rest)
    (enough : pending + releasesInside inside rest < fuel) :
    ∃ next, releaseLoop pkt inside window fuel tempEnteredCount target =
        some next ∧ LockInvariant pkt next := by
  induction fuel generalizing target tempEnteredCount completed pending kept rest with
  | zero => omega
  | succ fuel ih =>
    obtain ⟨next, nextKept, nextRest, nextCompleted, nextPending, nextHeld,
        scanned, passEnd, bounded⟩ :=
      @releaseScan_of_passSafe _ _ _ _ _ _ _ _ _ inside _ _ _ rest _ scanning
        (by rw [clear_lockQueue, queue_eq]) notReady
        (by simpa using safe)
    rw [releaseLoop]
    rw [show target.setWindow window
        { target.windows window with currentLockType := none } =
          target.clear window from rfl, clear_lockQueue, queue_eq,
      releaseScan_append_of_not_ready notReady, nil_append, scanned, Option.bind_some]
    generalize (if tempEnteredCount ≠ target.enteredCount then
      tempEnteredCount + 1 else tempEnteredCount) = temp at passEnd ⊢
    have count := passEnd.scanning.enteredCount_eq
    by_cases waiting : 0 < nextPending
    · obtain ⟨released, nextSafe⟩ := passEnd.again waiting
      have differs : temp ≠ next.enteredCount := by omega
      rw [if_pos differs]
      have nextScanning := passEnd.scanning
      rw [released] at nextScanning
      have cleared := nextScanning.clear waiting
      rw [← if_pos (c := temp ≠ next.enteredCount) (t := temp + 1) (e := temp) differs] at cleared
      exact ih cleared passEnd.queue_eq passEnd.notReady nextSafe (by omega)
    · have nothingPending : nextPending = 0 := by omega
      subst nothingPending
      rw [if_neg (by omega)]
      exact ⟨_, rfl, passEnd.lockInvariant⟩

/-- `MPIDI_CH3I_Release_lock` called for a request that has just stopped holding
the lock: if another holder is left the count goes down, otherwise the loop runs
and returns. -/
theorem releaseLock_spec
    (consistent : Consistent pkt
      (target.setWindow window (target.windows window).decrRefCnt))
    (agrees : Agrees pkt
      (target.setWindow window (target.windows window).decrRefCnt) window held)
    (others : ∀ other ≠ window, AtRest pkt
      (target.setWindow window (target.windows window).decrRefCnt) other)
    (phase_eq : ∀ request, (pkt request).targetWin ≠ window →
      target.phase request = start.phase request)
    (enteredFlag_eq : target.enteredFlag = 0)
    (enteredCount_eq : target.enteredCount = 0)
    (locked : (target.windows window).currentLockType ≠ none)
    (refCnt_eq : (target.windows window).decrRefCnt.sharedLockRefCnt = 0 ↔ held = ∅)
    (safe : held = ∅ → PassSafe pkt inside (KeepsOthers pkt start window) none ∅ 0 []
        (target.windows window).lockQueue) :
    ∃ next, releaseLock pkt inside target window = some next ∧ LockInvariant pkt next := by
  have enteredAgrees : ∀ (flag : Int) (other : Win) (otherHeld : Finset Req), Agrees pkt
        (target.setWindow window (target.windows window).decrRefCnt) other otherHeld →
      Agrees pkt
        { target.setWindow window (target.windows window).decrRefCnt with
          enteredFlag := flag } other otherHeld :=
    fun _ _ _ agrees => ⟨agrees.mem_iff, agrees.lock, agrees.myCounter_eq⟩
  unfold releaseLock
  by_cases released : held = ∅
  · subst released
    rw [if_pos (refCnt_eq.mpr rfl), if_neg (by simp [enteredFlag_eq])]
    apply @releaseLoop_of_passSafe _ _ _ pkt inside start window _ _ _ _ [] 0
      [] (target.windows window).lockQueue
    · have entered : Consistent pkt
          { target.setWindow window (target.windows window).decrRefCnt with
            enteredFlag := 1 } := by
        refine ⟨?_, ?_, consistent.recorded⟩
        · intro other
          obtain ⟨otherHeld, otherAgrees⟩ := consistent.agrees other
          exact ⟨otherHeld, enteredAgrees 1 other otherHeld otherAgrees⟩
        · intro other
          have queue := consistent.queues other
          exact ⟨queue.entryOf, queue.nodup, queue.mem_iff⟩
      refine ⟨entered.clear (enteredAgrees 1 window ∅ agrees),
        (enteredAgrees 1 window ∅ agrees).clear fun _ => rfl, ?_, ?_, by simp,
        by simp, rfl, ?_⟩
      · intro other different
        have atRest := others other different
        have inEntered : AtRest pkt
            { target.setWindow window (target.windows window).decrRefCnt with
              enteredFlag := 1 } other :=
          ⟨atRest.busy, atRest.idle⟩
        exact inEntered.clear different
      · intro request elsewhere
        simpa using phase_eq request elsewhere
      · simp
    · simp
    · simp
    · exact safe rfl
    · simp [releaseFuel, releasesInside]
  · rw [if_neg (fun zero => released (refCnt_eq.mp zero))]
    refine ⟨_, rfl, consistent, ?_, enteredFlag_eq, enteredCount_eq⟩
    intro other
    by_cases same : other = window
    · subst same
      obtain ⟨holder, holds⟩ := Finset.nonempty_of_ne_empty released
      refine ⟨fun _ => ⟨holder, (agrees.mem_iff holder).mp holds⟩, ?_⟩
      intro free
      simp only [Target.setWindow, Function.update_self, decrRefCnt_currentLockType] at free
      exact absurd free locked
    · exact others other same

end Mpich.Ch3.WinLock
