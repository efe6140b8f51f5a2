import Mpich.Ch3.WinLock.Defs

/-!
# What a consistent target looks like

The invariant is stated about one window, one queue or one request at a time:
`LockAgrees` relates the lock fields of a window to the set of its holders,
`QueueAgrees` the queue to the requests that wait, and `Recorded` the history of
a request to its phase. `Consistent` collects them. It holds between the
operations of the release loop as well, where the lock type may still name a
lock that nobody holds any more.
-/

namespace Mpich.Ch3.WinLock

open List

variable {Win Req : Type*}

/-- The lock table of `MPIDI_CH3I_Try_acquire_win_lock`. -/
def Admits (existingLock : Option LockType) (requestedLock : LockType) : Prop :=
  (requestedLock = .shared ∧ (existingLock = none ∨ existingLock = some .shared)) ∨
    (requestedLock = .exclusive ∧ existingLock = none)

instance (existingLock : Option LockType) (requestedLock : LockType) :
    Decidable (Admits existingLock requestedLock) :=
  inferInstanceAs (Decidable (_ ∨ _))

/-- The window after the lock has been granted. -/
def WindowState.acquired
    (win : WindowState Req)
    (lockType : LockType) : WindowState Req :=
  { win with
    currentLockType := some lockType
    sharedLockRefCnt :=
      if lockType = .shared then
        win.sharedLockRefCnt + 1
      else
        win.sharedLockRefCnt }

variable {win : WindowState Req}

theorem tryAcquireWinLock_of_admits
    {lockType : LockType}
    (admits : Admits win.currentLockType lockType) :
    tryAcquireWinLock win lockType = some (win.acquired lockType) :=
  if_pos admits

theorem tryAcquireWinLock_of_not_admits
    {lockType : LockType}
    (refused : ¬ Admits win.currentLockType lockType) :
    tryAcquireWinLock win lockType = none :=
  if_neg refused

/-- The lock fields of a window agree with the set of its holders. The lock type
may be left over from a holder that has gone. -/
structure LockAgrees
    (pkt : Req → LockPkt Win)
    (win : WindowState Req)
    (held : Finset Req) : Prop where
  free : win.currentLockType = none → held = ∅
  lockType_eq : ∀ lockType, win.currentLockType = some lockType →
    ∀ request ∈ held, (pkt request).lockType = lockType
  alone : win.currentLockType = some .exclusive → held.card ≤ 1
  refCnt : win.sharedLockRefCnt = (held.filter fun request => (pkt request).lockType = .shared).card

namespace LockAgrees

variable {pkt : Req → LockPkt Win} {win : WindowState Req} {held : Finset Req}

/-- Only the two lock fields matter. -/
theorem congr
    {other : WindowState Req}
    (agrees : LockAgrees pkt win held)
    (type_eq : other.currentLockType = win.currentLockType)
    (refCnt_eq : other.sharedLockRefCnt = win.sharedLockRefCnt) :
    LockAgrees pkt other held where
  free := by rw [type_eq]; exact agrees.free
  lockType_eq := by rw [type_eq]; exact agrees.lockType_eq
  alone := by rw [type_eq]; exact agrees.alone
  refCnt := by rw [refCnt_eq]; exact agrees.refCnt

/-- A window that nobody holds can be marked free. -/
theorem cleared (agrees : LockAgrees pkt win ∅) :
    LockAgrees pkt { win with currentLockType := none } ∅ where
  free := fun _ => rfl
  lockType_eq := by simp
  alone := by simp
  refCnt := agrees.refCnt

/-- A holder shows that the window is locked in its mode. -/
theorem currentLockType_eq
    (agrees : LockAgrees pkt win held)
    {request : Req}
    (holds : request ∈ held) :
    win.currentLockType = some (pkt request).lockType := by
  cases current : win.currentLockType with
  | none =>
    rw [agrees.free current] at holds
    simp at holds
  | some lockType => rw [agrees.lockType_eq lockType current request holds]

theorem eq_empty_of_refCnt
    (agrees : LockAgrees pkt win held)
    (notExclusive : win.currentLockType ≠ some .exclusive)
    (refCnt_eq : win.sharedLockRefCnt = 0) :
    held = ∅ := by
  have noShared := agrees.refCnt
  rw [refCnt_eq, eq_comm, Int.natCast_eq_zero, Finset.card_eq_zero,
    Finset.filter_eq_empty_iff] at noShared
  apply Finset.eq_empty_of_forall_notMem
  intro request holds
  have current := agrees.currentLockType_eq holds
  cases type_eq : (pkt request).lockType with
  | shared => exact noShared holds type_eq
  | exclusive =>
    rw [type_eq] at current
    exact notExclusive current

variable [DecidableEq Req]

section

variable
    (agrees : LockAgrees pkt win held)
    {request : Req}

include agrees

theorem acquire
    (fresh : request ∉ held)
    (admits : Admits win.currentLockType (pkt request).lockType) :
    LockAgrees pkt (win.acquired (pkt request).lockType) (insert request held) where
  free := by simp [WindowState.acquired]
  lockType_eq := by
    intro lockType current other holds
    simp only [WindowState.acquired, Option.some.injEq] at current
    rw [← current]
    rcases Finset.mem_insert.mp holds with rfl | holds
    · rfl
    · have existing := agrees.currentLockType_eq holds
      cases requested : (pkt request).lockType <;> simp_all [Admits]
  alone := by
    intro current
    have requested : (pkt request).lockType = .exclusive := by
      simpa [WindowState.acquired] using current
    have existing : win.currentLockType = none := by
      simpa [Admits, requested] using admits
    simp [agrees.free existing]
  refCnt := by
    cases requested : (pkt request).lockType with
    | shared =>
      rw [Finset.filter_insert, if_pos requested, Finset.card_insert_of_notMem (by simp [fresh])]
      simp [WindowState.acquired, agrees.refCnt]
    | exclusive =>
      rw [Finset.filter_insert, if_neg (by simp [requested])]
      simp [WindowState.acquired, agrees.refCnt]

/-- The decrement of `MPIDI_CH3I_Release_lock` removes a holder. -/
theorem decrRefCnt (holds : request ∈ held) :
    LockAgrees pkt win.decrRefCnt (held.erase request) := by
  have current := agrees.currentLockType_eq holds
  cases type_eq : (pkt request).lockType with
  | shared =>
    rw [type_eq] at current
    rw [WindowState.decrRefCnt, if_pos current]
    refine ⟨?_, ?_, ?_, ?_⟩
    · simp [current]
    · intro lockType same other otherHolds
      exact agrees.lockType_eq lockType same other (Finset.mem_of_mem_erase otherHolds)
    · simp [current]
    · have sharedHolder : request ∈ held.filter fun request => (pkt request).lockType = .shared :=
        Finset.mem_filter.mpr ⟨holds, type_eq⟩
      have positive := Finset.card_pos.mpr ⟨_, sharedHolder⟩
      show win.sharedLockRefCnt - 1 = _
      rw [agrees.refCnt, Finset.filter_erase, Finset.card_erase_of_mem sharedHolder]
      omega
  | exclusive =>
    rw [type_eq] at current
    have only : held = {request} :=
      Finset.eq_singleton_iff_unique_mem.mpr
        ⟨holds, fun other otherHolds =>
          Finset.card_le_one.mp (agrees.alone current) _ otherHolds _ holds⟩
    rw [WindowState.decrRefCnt, if_neg (by simp [current])]
    refine ⟨?_, ?_, ?_, ?_⟩
    · simp [only]
    · simp [only]
    · simp [only]
    · rw [agrees.refCnt, only]
      simp [type_eq, Finset.filter_singleton]

/-- The release frees the window when no other holder is left. -/
theorem decrRefCnt_eq_zero_iff (holds : request ∈ held) :
    win.decrRefCnt.sharedLockRefCnt = 0 ↔ held.erase request = ∅ := by
  have current := agrees.currentLockType_eq holds
  have decremented := agrees.decrRefCnt holds
  cases type_eq : (pkt request).lockType with
  | shared =>
    have same : win.decrRefCnt.currentLockType = some .shared := by
      rw [WindowState.decrRefCnt, if_pos (by rw [current, type_eq])]
      rw [current, type_eq]
    constructor
    · exact decremented.eq_empty_of_refCnt (by simp [same])
    · intro empty
      rw [decremented.refCnt, empty]
      simp
  | exclusive =>
    rw [type_eq] at current
    have empty : held.erase request = ∅ := by
      rw [← Finset.card_eq_zero, Finset.card_erase_of_mem holds]
      have atMostOne := agrees.alone current
      omega
    simp [decremented.refCnt, empty]

end

end LockAgrees

@[simp] theorem decrRefCnt_currentLockType (win : WindowState Req) :
    win.decrRefCnt.currentLockType = win.currentLockType := by
  unfold WindowState.decrRefCnt
  split <;> rfl

@[simp] theorem decrRefCnt_lockQueue (win : WindowState Req) :
    win.decrRefCnt.lockQueue = win.lockQueue := by
  unfold WindowState.decrRefCnt
  split <;> rfl

theorem decrRefCnt_with_lockQueue
    (win : WindowState Req)
    (lockQueue : List (LockQueueEntry Req)) :
    WindowState.decrRefCnt { win with lockQueue := lockQueue } =
      { win.decrRefCnt with lockQueue := lockQueue } := by
  unfold WindowState.decrRefCnt
  split <;> rfl

@[simp] theorem decrRefCnt_myCounter (win : WindowState Req) :
    win.decrRefCnt.myCounter = win.myCounter := by
  unfold WindowState.decrRefCnt
  split <;> rfl

@[simp] theorem releaseInPlace_myCounter (win : WindowState Req) :
    win.releaseInPlace.myCounter = win.myCounter := by
  unfold WindowState.releaseInPlace
  split <;> simp

variable {held : Finset Req}

/-- An operation executed in the release loop gives the lock back as it was. -/
theorem LockAgrees.releaseInPlace
    [DecidableEq Req] {pkt : Req → LockPkt Win}
    (agrees : LockAgrees pkt win held)
    {request : Req}
    (holds : request ∈ held) :
    LockAgrees pkt win.releaseInPlace (held.erase request) ∧ win.releaseInPlace.currentLockType =
        if held.erase request = ∅ then none else win.currentLockType := by
  have decremented := agrees.decrRefCnt holds
  by_cases empty : held.erase request = ∅
  · rw [WindowState.releaseInPlace,
      if_pos ((agrees.decrRefCnt_eq_zero_iff holds).mpr empty), if_pos empty]
    rw [empty] at decremented ⊢
    exact ⟨decremented.cleared, rfl⟩
  · rw [WindowState.releaseInPlace,
      if_neg (fun zero => empty ((agrees.decrRefCnt_eq_zero_iff holds).mp zero)), if_neg empty]
    exact ⟨decremented, decrRefCnt_currentLockType win⟩

/-- The request holds the lock of the window. -/
def HoldsLock
    (pkt : Req → LockPkt Win)
    (target : Target Win Req)
    (window : Win)
    (request : Req) : Prop :=
  (pkt request).targetWin = window ∧ (target.phase request).Holds

/-- The set `held` is the set of holders of the window, and its lock fields
agree with it. The counter of active-target operations is never touched. -/
structure Agrees
    (pkt : Req → LockPkt Win)
    (target : Target Win Req)
    (window : Win)
    (held : Finset Req) : Prop where
  mem_iff : ∀ request, request ∈ held ↔ HoldsLock pkt target window request
  lock : LockAgrees pkt (target.windows window) held
  myCounter_eq : (target.windows window).myCounter = 0

/-- The entry carries what came in the packet of its request. -/
structure EntryOf
    (pkt : Req → LockPkt Win)
    (entry : LockQueueEntry Req) : Prop where
  lockType_eq : entry.lockType = (pkt entry.request).lockType
  type_eq :
    entry.ptSingleOp.map PtSingleOp.type = (pkt entry.request).singleOp
  get_ready : (pkt entry.request).singleOp = some .get → entry.Ready

/-- The queue of a window has one entry for each of its waiting requests. -/
structure QueueAgrees
    (pkt : Req → LockPkt Win)
    (target : Target Win Req)
    (window : Win)
    (lockQueue : List (LockQueueEntry Req)) : Prop where
  entryOf : ∀ entry ∈ lockQueue, EntryOf pkt entry
  nodup : (lockQueue.map LockQueueEntry.request).Nodup
  mem_iff : ∀ request, request ∈ lockQueue.map LockQueueEntry.request ↔
      (pkt request).targetWin = window ∧ target.phase request = .queued

/-- What the target has done for a request, given its single operation and the
phase it is in: one lock-granted packet for a lock; one response for a get; for
a put or an accumulate, one application and one done packet. A done packet for
a granted lock acknowledges the operations under it. -/
inductive Recorded : Option RmaType → Phase → List Event → Prop
  | idle {singleOp : Option RmaType} : Recorded singleOp .idle []
  | queued {singleOp : Option RmaType} : Recorded singleOp .queued []
  | receiving : Recorded (some .put) .receiving []
  | holding : Recorded none .holding [.lockGranted]
  | lastGet : Recorded none .responding [.lockGranted]
  | released : Recorded none .finished [.lockGranted]
  | acknowledged : Recorded none .finished [.lockGranted, .rmaDone]
  | responding : Recorded (some .get) .responding [.applied .get]
  | responded : Recorded (some .get) .finished [.applied .get]
  | done {type : RmaType} :
      type ≠ .get →
      Recorded (some type) .finished [.applied type, .rmaDone]

section

variable
    {singleOp : Option RmaType} {history : List Event}

theorem Recorded.responding_finished
    (recorded : Recorded singleOp .responding history) :
    Recorded singleOp .finished history := by
  cases recorded with
  | lastGet => exact .released
  | responding => exact .responded

theorem Recorded.eq_nil_of_queued
    (recorded : Recorded singleOp .queued history) :
    history = [] := by
  cases recorded
  rfl

theorem Recorded.eq_nil_of_idle (recorded : Recorded singleOp .idle history) :
    history = [] := by
  cases recorded
  rfl

end

/-- Every window, every queue and every request is in order. -/
structure Consistent
    (pkt : Req → LockPkt Win)
    (target : Target Win Req) : Prop where
  agrees : ∀ window, ∃ held, Agrees pkt target window held
  queues : ∀ window, QueueAgrees pkt target window (target.windows window).lockQueue
  recorded : ∀ request, Recorded (pkt request).singleOp (target.phase request)
      (target.history request)

section

variable {pkt : Req → LockPkt Win} {target next : Target Win Req}

variable {window : Win} {request : Req}

theorem HoldsLock.congr (phase_eq : next.phase request = target.phase request) :
    HoldsLock pkt next window request ↔ HoldsLock pkt target window request := by
  rw [HoldsLock, HoldsLock, phase_eq]

/-- Two states that differ only in what concerns one request and its window. -/
structure DiffersAt
    (pkt : Req → LockPkt Win)
    (target next : Target Win Req)
    (request : Req) : Prop where
  windows_eq : ∀ window ≠ (pkt request).targetWin, next.windows window = target.windows window
  phase_eq : ∀ other ≠ request, next.phase other = target.phase other
  history_eq : ∀ other ≠ request, next.history other = target.history other

theorem Agrees.of_differsAt
    (agrees : Agrees pkt target window held)
    (differs : DiffersAt pkt target next request)
    (otherWindow : window ≠ (pkt request).targetWin) :
    Agrees pkt next window held where
  mem_iff := by
    intro other
    rw [agrees.mem_iff other]
    by_cases same : other = request
    · subst same
      simp [HoldsLock, otherWindow.symm]
    · exact (HoldsLock.congr (differs.phase_eq other same)).symm
  lock := by
    rw [differs.windows_eq window otherWindow]
    exact agrees.lock
  myCounter_eq := by
    rw [differs.windows_eq window otherWindow]
    exact agrees.myCounter_eq

variable {lockQueue : List (LockQueueEntry Req)}

theorem QueueAgrees.of_differsAt
    (queue : QueueAgrees pkt target window lockQueue)
    (differs : DiffersAt pkt target next request)
    (otherWindow : window ≠ (pkt request).targetWin) :
    QueueAgrees pkt next window lockQueue where
  entryOf := queue.entryOf
  nodup := queue.nodup
  mem_iff := by
    intro other
    rw [queue.mem_iff other]
    by_cases same : other = request
    · subst same
      simp [otherWindow.symm]
    · rw [differs.phase_eq other same]

/-- A step that concerns one request has to be checked there only. -/
theorem Consistent.of_differsAt
    (consistent : Consistent pkt target)
    (differs : DiffersAt pkt target next request)
    (agrees : ∃ held, Agrees pkt next (pkt request).targetWin held)
    (queue : QueueAgrees pkt next (pkt request).targetWin
      (next.windows (pkt request).targetWin).lockQueue)
    (recorded : Recorded (pkt request).singleOp (next.phase request)
      (next.history request)) :
    Consistent pkt next where
  agrees := by
    intro window
    by_cases same : window = (pkt request).targetWin
    · rw [same]
      exact agrees
    · obtain ⟨held, windowAgrees⟩ := consistent.agrees window
      exact ⟨held, windowAgrees.of_differsAt differs same⟩
  queues := by
    intro window
    by_cases same : window = (pkt request).targetWin
    · rw [same]
      exact queue
    · rw [differs.windows_eq window same]
      exact (consistent.queues window).of_differsAt differs same
  recorded := by
    intro other
    by_cases same : other = request
    · rw [same]
      exact recorded
    · rw [differs.phase_eq other same, differs.history_eq other same]
      exact consistent.recorded other

/-- The holders after a request has come or gone. -/
theorem HoldsLock.iff_of_differsAt
    (differs : DiffersAt pkt target next request)
    (other : Req)
    (different : other ≠ request) :
    HoldsLock pkt next window other ↔ HoldsLock pkt target window other :=
  HoldsLock.congr (differs.phase_eq other different)

/-- The queue when the request neither enters nor leaves it. -/
theorem QueueAgrees.congr
    (queue : QueueAgrees pkt target window lockQueue)
    (differs : DiffersAt pkt target next request)
    (notQueued : target.phase request ≠ .queued)
    (stillNotQueued : next.phase request ≠ .queued) :
    QueueAgrees pkt next window lockQueue where
  entryOf := queue.entryOf
  nodup := queue.nodup
  mem_iff := by
    intro other
    rw [queue.mem_iff other]
    by_cases same : other = request
    · subst same
      simp [notQueued, stillNotQueued]
    · rw [differs.phase_eq other same]

/-- The queue when the request leaves it. -/
theorem QueueAgrees.leave
    {entry : LockQueueEntry Req} {kept rest : List (LockQueueEntry Req)}
    (queue : QueueAgrees pkt target window (kept ++ entry :: rest))
    (differs : DiffersAt pkt target next entry.request)
    (left : next.phase entry.request ≠ .queued) :
    QueueAgrees pkt next window (kept ++ rest) where
  entryOf := by
    intro other member
    apply queue.entryOf other
    rcases mem_append.mp member with member | member
    · exact mem_append_left _ member
    · exact mem_append_right _ (mem_cons_of_mem _ member)
  nodup := by
    have nodup := queue.nodup
    rw [map_append, map_cons, nodup_middle, nodup_cons] at nodup
    rw [map_append]
    exact nodup.2
  mem_iff := by
    intro other
    have before := queue.mem_iff other
    have nodup := queue.nodup
    rw [map_append, map_cons, nodup_middle, nodup_cons] at nodup
    rw [map_append] at before ⊢
    by_cases same : other = entry.request
    · subst same
      constructor
      · exact fun member => absurd member nodup.1
      · exact fun queued => absurd queued.2 left
    · rw [differs.phase_eq other same, ← before]
      simp [same]

/-- The queue when the request enters it. -/
theorem QueueAgrees.append
    {entry : LockQueueEntry Req}
    (queue : QueueAgrees pkt target (pkt entry.request).targetWin lockQueue)
    (differs : DiffersAt pkt target next entry.request)
    (entryOf : EntryOf pkt entry)
    (notQueued : target.phase entry.request ≠ .queued)
    (queued : next.phase entry.request = .queued) :
    QueueAgrees pkt next (pkt entry.request).targetWin (lockQueue ++ [entry]) where
  entryOf := by
    intro other member
    rcases mem_append.mp member with member | member
    · exact queue.entryOf other member
    · rw [mem_singleton.mp member]
      exact entryOf
  nodup := by
    rw [map_append, map_singleton, nodup_append]
    refine ⟨queue.nodup, nodup_singleton _, ?_⟩
    rintro other member _ (_ | ⟨_, ⟨⟩⟩) rfl
    exact notQueued ((queue.mem_iff _).mp member).2
  mem_iff := by
    intro other
    rw [map_append, map_singleton, mem_append, mem_singleton, queue.mem_iff other]
    by_cases same : other = entry.request
    · subst same
      simp [queued]
    · rw [differs.phase_eq other same]
      simp [same]

variable [DecidableEq Req]

/-- The request is granted the lock. -/
theorem Agrees.acquire
    (agrees : Agrees pkt target (pkt request).targetWin held)
    (differs : DiffersAt pkt target next request)
    (notHolding : ¬ (target.phase request).Holds)
    (admits : Admits (target.windows (pkt request).targetWin).currentLockType
      (pkt request).lockType)
    (holds : (next.phase request).Holds)
    (type_eq : (next.windows (pkt request).targetWin).currentLockType = some (pkt request).lockType)
    (refCnt_eq : (next.windows (pkt request).targetWin).sharedLockRefCnt =
      ((target.windows (pkt request).targetWin).acquired (pkt request).lockType).sharedLockRefCnt)
    (counter_eq : (next.windows (pkt request).targetWin).myCounter =
      (target.windows (pkt request).targetWin).myCounter) :
    Agrees pkt next (pkt request).targetWin (insert request held) where
  mem_iff := by
    intro other
    rw [Finset.mem_insert, agrees.mem_iff other]
    by_cases same : other = request
    · subst same
      simp [HoldsLock, holds]
    · simp [same, HoldsLock.iff_of_differsAt differs other same]
  lock := by
    have fresh : request ∉ held := by
      rw [agrees.mem_iff]
      exact fun holdsAlready => notHolding holdsAlready.2
    exact (agrees.lock.acquire fresh admits).congr type_eq refCnt_eq
  myCounter_eq := counter_eq.trans agrees.myCounter_eq

section

variable
    {request : Req} {window : Win} {held : Finset Req}
    (agrees : Agrees pkt target window held)
    (differs : DiffersAt pkt target next request)

include agrees differs

/-- The holders when a request stops holding the lock. -/
theorem Agrees.erase_mem_iff (released : ¬ (next.phase request).Holds) :
    ∀ other, other ∈ held.erase request ↔ HoldsLock pkt next window other := by
  intro other
  rw [Finset.mem_erase, agrees.mem_iff other]
  by_cases same : other = request
  · subst same
    simp [HoldsLock, released]
  · simp [same, HoldsLock.iff_of_differsAt differs other same]

/-- The holders when the request keeps the lock or stays without it. -/
theorem Agrees.congr
    (same_holds : (next.phase request).Holds ↔ (target.phase request).Holds)
    (type_eq : (next.windows window).currentLockType = (target.windows window).currentLockType)
    (refCnt_eq : (next.windows window).sharedLockRefCnt = (target.windows window).sharedLockRefCnt)
    (counter_eq : (next.windows window).myCounter = (target.windows window).myCounter) :
    Agrees pkt next window held where
  mem_iff := by
    intro other
    rw [agrees.mem_iff other]
    by_cases same : other = request
    · subst same
      simp [HoldsLock, same_holds]
    · exact (HoldsLock.iff_of_differsAt differs other same).symm
  lock := agrees.lock.congr type_eq refCnt_eq
  myCounter_eq := counter_eq.trans agrees.myCounter_eq

end

end

end Mpich.Ch3.WinLock
