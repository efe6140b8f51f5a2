import Mpich.Ch3.WinLock.Release

/-!
# The window lock over whole runs

Every action keeps the invariant, as long as a release that frees a window finds
a queue its loop can go through. The lock is then safe in every state reached,
no request is lost and no enabled action fails to return. Without the condition
a release can loop for ever: a shared request and then an exclusive one wait for
the holder of an exclusive lock.
-/

namespace Mpich.Ch3.WinLock

open List Function

attribute [local simp] Target.setWindow Target.setLockQueue Target.setPhase Target.enqueue
  WindowState.acquired WindowState.created Phase.Holds

variable {Win Req : Type*} [DecidableEq Win] [DecidableEq Req]

/-! ## The condition on a step -/

/-- If this request is the last holder of its window, the release loop that its
release starts comes to its end. -/
def ReleaseSafe
    (pkt : Req → LockPkt Win)
    (inside : Req → List Req)
    (target : Target Win Req)
    (request : Req) : Prop :=
  HoldsLock pkt target (pkt request).targetWin request →
    (∀ other, HoldsLock pkt target (pkt request).targetWin other → other = request) →
    PassSafe pkt inside (KeepsOthers pkt target (pkt request).targetWin) none ∅
      0 [] (target.windows (pkt request).targetWin).lockQueue

/-- The steps that can release a window do so safely. -/
def StepSafe
    (pkt : Req → LockPkt Win)
    (target : Target Win Req) : LockAction Req → Prop
  | .packet _ | .lockOwn _ | .lastGet _ => True
  | .dataArrives request inside
  | .responseSent request inside
  | .release request _ inside => ReleaseSafe pkt inside target request

variable {pkt : Req → LockPkt Win} {target : Target Win Req}
  {inside : Req → List Req}

/-- A queue without ready entries is passed over. -/
theorem passSafe_of_not_ready
    {keepsOthers : List Req → Prop} {lock : Option LockType}
    {completed : List Req} {lockQueue : List (LockQueueEntry Req)}
    (notReady : ∀ entry ∈ lockQueue, ¬ entry.Ready) :
    PassSafe pkt inside keepsOthers lock ∅ 0 completed lockQueue := by
  rw [← append_nil lockQueue, passSafe_append_of_not_ready notReady]
  exact .inl rfl

/-! ## Packets -/

variable {next : Target Win Req}

variable (invariant : LockInvariant pkt target)

section

include invariant

/-- A step that concerns one request of its own window keeps the other windows
at rest. -/
theorem LockInvariant.of_differsAt
    {request : Req}
    (differs : DiffersAt pkt target next request)
    (agrees : ∃ held, Agrees pkt next (pkt request).targetWin held)
    (queue : QueueAgrees pkt next (pkt request).targetWin
      (next.windows (pkt request).targetWin).lockQueue)
    (recorded : Recorded (pkt request).singleOp (next.phase request)
      (next.history request))
    (atRest : AtRest pkt next (pkt request).targetWin)
    (enteredFlag_eq : next.enteredFlag = target.enteredFlag)
    (enteredCount_eq : next.enteredCount = target.enteredCount) :
    LockInvariant pkt next where
  consistent := invariant.consistent.of_differsAt differs agrees queue recorded
  atRest := by
    intro window
    by_cases same : window = (pkt request).targetWin
    · rw [same]
      exact atRest
    · exact (invariant.atRest window).of_differsAt differs same
  enteredFlag_eq := enteredFlag_eq.trans invariant.enteredFlag_eq
  enteredCount_eq := enteredCount_eq.trans invariant.enteredCount_eq

/-- A request whose packet arrives is granted the lock at once. -/
theorem LockInvariant.grantAtOnce
    {request : Req}
    (idle : target.phase request = .idle)
    {phase : Phase}
    (holds : phase.Holds)
    {events : List Event}
    (recorded : Recorded (pkt request).singleOp phase events)
    {win : WindowState Req}
    (acquired : tryAcquireWinLock (target.windows (pkt request).targetWin)
      (pkt request).lockType = some win)
    (next_eq : next =
      { target.setWindow (pkt request).targetWin win with
        phase := update target.phase request phase
        history := update target.history request
          (target.history request ++ events) }) :
    LockInvariant pkt next := by
  have nothingYet : target.history request = [] := by
    have before := invariant.consistent.recorded request
    rw [idle] at before
    exact before.eq_nil_of_idle
  have admits : Admits
      (target.windows (pkt request).targetWin).currentLockType
      (pkt request).lockType := by
    by_contra refused
    rw [tryAcquireWinLock_of_not_admits refused] at acquired
    simp at acquired
  rw [tryAcquireWinLock_of_admits admits, Option.some.injEq] at acquired
  subst acquired
  have window_eq : next.windows (pkt request).targetWin =
      (target.windows (pkt request).targetWin).acquired (pkt request).lockType := by
    simp [next_eq]
  have phase_eq : next.phase request = phase := by
    simp [next_eq]
  have differs : DiffersAt pkt target next request := by
    constructor <;> simp +contextual [next_eq]
  obtain ⟨held, agrees⟩ := invariant.consistent.agrees (pkt request).targetWin
  have granted : Agrees pkt next (pkt request).targetWin (insert request held) := by
    apply agrees.acquire differs (by simp [idle]) admits
    · rw [phase_eq]
      exact holds
    · simp [window_eq]
    · rw [window_eq]
    · simp [window_eq]
  apply invariant.of_differsAt differs ⟨_, granted⟩
  · rw [window_eq]
    apply (invariant.consistent.queues _).congr differs (by simp [idle])
    rw [phase_eq]
    intro queued
    subst queued
    exact holds
  · rw [phase_eq]
    simpa [next_eq, nothingYet] using recorded
  · refine ⟨fun _ => ⟨request, rfl, by rw [phase_eq]; exact holds⟩, ?_⟩
    intro free
    simp [window_eq] at free
  · simp [next_eq]
  · simp [next_eq]

/-- A request whose packet arrives is put into the queue. -/
theorem LockInvariant.enqueue
    (entry : LockQueueEntry Req)
    (idle : target.phase entry.request = .idle)
    (entryOf : EntryOf pkt entry)
    (waits : entry.Ready → (target.windows (pkt entry.request).targetWin).currentLockType ≠ none) :
    LockInvariant pkt (target.enqueue (pkt entry.request).targetWin entry) := by
  have nothingYet : target.history entry.request = [] := by
    have before := invariant.consistent.recorded entry.request
    rw [idle] at before
    exact before.eq_nil_of_idle
  have queued :
      (target.enqueue (pkt entry.request).targetWin entry).phase entry.request = .queued := by
    simp
  have window_eq :
      (target.enqueue (pkt entry.request).targetWin entry).windows (pkt entry.request).targetWin =
        { target.windows (pkt entry.request).targetWin with
          lockQueue :=
            (target.windows (pkt entry.request).targetWin).lockQueue ++
              [entry] } := by
    simp
  have differs : DiffersAt pkt target
      (target.enqueue (pkt entry.request).targetWin entry) entry.request := by
    constructor <;> simp +contextual
  obtain ⟨held, agrees⟩ := invariant.consistent.agrees (pkt entry.request).targetWin
  have atRest := invariant.atRest (pkt entry.request).targetWin
  apply invariant.of_differsAt differs
  · refine ⟨held, agrees.congr differs ?_ ?_ ?_ ?_⟩
    · simp [idle, queued]
    · rw [window_eq]
    · rw [window_eq]
    · rw [window_eq]
  · rw [window_eq]
    exact (invariant.consistent.queues _).append differs entryOf (by simp [idle]) queued
  · rw [queued]
    have unchanged :
        (target.enqueue (pkt entry.request).targetWin entry).history entry.request = [] :=
      nothingYet
    rw [unchanged]
    exact .queued
  · refine ⟨?_, ?_⟩
    · rw [window_eq]
      intro locked
      obtain ⟨holder, holds⟩ := atRest.busy locked
      refine ⟨holder, (HoldsLock.congr ?_).mpr holds⟩
      apply differs.phase_eq
      intro same
      subst same
      simp [HoldsLock, idle] at holds
    · rw [window_eq]
      intro free other member ready
      rcases mem_append.mp member with member | member
      · exact atRest.idle free other member ready
      · rw [mem_singleton] at member
        subst member
        exact waits ready free
  · rfl
  · rfl

end

omit [DecidableEq Req] in
theorem lock_ne_none_of_refused
    {win : WindowState Req} {lockType : LockType}
    (refused : tryAcquireWinLock win lockType = none) :
    win.currentLockType ≠ none := by
  intro free
  have admits : Admits win.currentLockType lockType := by
    cases lockType <;> simp [Admits, free]
  rw [tryAcquireWinLock_of_admits admits] at refused
  simp at refused

include invariant in
/-- The packet handlers keep the invariant. -/
theorem LockInvariant.pktHandler
    {request : Req}
    (idle : target.phase request = .idle) :
    LockInvariant pkt (pktHandler pkt target request) := by
  unfold WinLock.pktHandler
  cases op : (pkt request).singleOp with
  | none =>
    simp only [pktHandlerLock]
    cases acquired : tryAcquireWinLock
        (target.windows (pkt request).targetWin) (pkt request).lockType with
    | some win =>
      exact invariant.grantAtOnce idle
        (show Phase.holding.Holds from trivial)
        (by rw [op]; exact .holding) acquired rfl
    | none =>
      apply invariant.enqueue ⟨request, (pkt request).lockType, none⟩ idle
      · exact ⟨rfl, by simp [op], by simp [op]⟩
      · exact fun _ => lock_ne_none_of_refused acquired
  | some type =>
    cases type with
    | put =>
      simp only [pktHandlerLockPutUnlock]
      cases acquired : tryAcquireWinLock
          (target.windows (pkt request).targetWin)
          (pkt request).lockType with
      | some win =>
        apply invariant.grantAtOnce idle
          (show Phase.receiving.Holds from trivial)
          (by rw [op]; exact .receiving) acquired
        simp
      | none =>
        apply invariant.enqueue
          ⟨request, (pkt request).lockType, some ⟨.put, false⟩⟩ idle
        · exact ⟨rfl, by simp [op], by simp [op]⟩
        · exact fun _ => lock_ne_none_of_refused acquired
    | get =>
      simp only [pktHandlerLockGetUnlock]
      cases acquired : tryAcquireWinLock
          (target.windows (pkt request).targetWin)
          (pkt request).lockType with
      | some win =>
        exact invariant.grantAtOnce idle
          (show Phase.responding.Holds from trivial)
          (by rw [op]; exact .responding) acquired rfl
      | none =>
        apply invariant.enqueue
          ⟨request, (pkt request).lockType, some ⟨.get, true⟩⟩ idle
        · exact ⟨rfl, by simp [op], by simp [LockQueueEntry.Ready]⟩
        · exact fun _ => lock_ne_none_of_refused acquired
    | accumulate =>
      apply invariant.enqueue
        ⟨request, (pkt request).lockType, some ⟨.accumulate, false⟩⟩ idle
      · exact ⟨rfl, by simp [op], by simp [op]⟩
      · intro ready
        simpa using ready _ rfl

/-! ## Releases -/

section

variable
    (invariant : LockInvariant pkt target)
    {request : Req}
    (holds : (target.phase request).Holds)
    (safe : ReleaseSafe pkt inside target request)

include invariant holds safe

/-- A holder gives up the lock of its window and `MPIDI_CH3I_Release_lock` is
called. -/
theorem LockInvariant.releaseLock
    (differs : DiffersAt pkt target next request)
    (finished : next.phase request = .finished)
    (recorded : Recorded (pkt request).singleOp .finished
      (next.history request))
    (type_eq : (next.windows (pkt request).targetWin).currentLockType =
      (target.windows (pkt request).targetWin).currentLockType)
    (refCnt_eq : (next.windows (pkt request).targetWin).sharedLockRefCnt =
      (target.windows (pkt request).targetWin).sharedLockRefCnt)
    (queue_eq : (next.windows (pkt request).targetWin).lockQueue =
      (target.windows (pkt request).targetWin).lockQueue)
    (counter_eq : (next.windows (pkt request).targetWin).myCounter =
      (target.windows (pkt request).targetWin).myCounter)
    (enteredFlag_eq : next.enteredFlag = target.enteredFlag)
    (enteredCount_eq : next.enteredCount = target.enteredCount) :
    ∃ result, releaseLock pkt inside next (pkt request).targetWin = some result ∧
        LockInvariant pkt result := by
  obtain ⟨held, agrees⟩ := invariant.consistent.agrees (pkt request).targetWin
  have member : request ∈ held := (agrees.mem_iff request).mpr ⟨rfl, holds⟩
  have lock : LockAgrees pkt (next.windows (pkt request).targetWin) held :=
    agrees.lock.congr type_eq refCnt_eq
  have released : DiffersAt pkt target
      (next.setWindow (pkt request).targetWin
        (next.windows (pkt request).targetWin).decrRefCnt) request := by
    refine ⟨?_, differs.phase_eq, differs.history_eq⟩
    intro window different
    simp [different, differs.windows_eq window different]
  have remaining : Agrees pkt
      (next.setWindow (pkt request).targetWin (next.windows (pkt request).targetWin).decrRefCnt)
      (pkt request).targetWin (held.erase request) := by
    refine ⟨?_, ?_, ?_⟩
    · apply agrees.erase_mem_iff released
      rw [show (next.setWindow (pkt request).targetWin
        (next.windows (pkt request).targetWin).decrRefCnt).phase request = .finished from finished]
      exact id
    · simpa using lock.decrRefCnt member
    · simp [counter_eq, agrees.myCounter_eq]
  apply @releaseLock_spec _ _ _ pkt inside target (pkt request).targetWin _ (held.erase request) _
  · apply invariant.consistent.of_differsAt released ⟨_, remaining⟩
    · simp only [Target.setWindow, update_self, decrRefCnt_lockQueue, queue_eq]
      apply (invariant.consistent.queues _).congr released
      · intro queued
        rw [queued] at holds
        exact holds
      · exact fun queued => by simp [finished] at queued
    · simpa [finished] using recorded
  · exact remaining
  · exact fun other different =>
      (invariant.atRest other).of_differsAt released different
  · intro other elsewhere
    apply differs.phase_eq
    intro same
    exact elsewhere (by rw [same])
  · exact enteredFlag_eq.trans invariant.enteredFlag_eq
  · exact enteredCount_eq.trans invariant.enteredCount_eq
  · simp [lock.currentLockType_eq member]
  · exact lock.decrRefCnt_eq_zero_iff member
  · intro last
    rw [queue_eq]
    apply safe ⟨rfl, holds⟩
    intro other otherHolds
    by_contra different
    have left : other ∈ held.erase request :=
      Finset.mem_erase.mpr ⟨different, (agrees.mem_iff other).mpr otherHolds⟩
    rw [last] at left
    simp at left

/-- `MPIDI_CH3_ReqHandler_PutAccumRespComplete` for a holder returns. -/
theorem LockInvariant.putAccumRespComplete
    {singleOpOpt : Bool} {events : List Event}
    (recorded : ∀ acknowledged : Bool, (singleOpOpt = true → acknowledged = true) →
      Recorded (pkt request).singleOp .finished
        (target.history request ++ events ++ if acknowledged then [.rmaDone] else [])) :
    ∃ result, putAccumRespComplete pkt inside
          { target with
            history := update target.history request
              (target.history request ++ events) }
          request singleOpOpt = some result ∧
        LockInvariant pkt result := by
  obtain ⟨held, agrees⟩ := invariant.consistent.agrees (pkt request).targetWin
  have member : request ∈ held := (agrees.mem_iff request).mpr ⟨rfl, holds⟩
  have locked : (target.windows (pkt request).targetWin).currentLockType ≠ none := by
    simp [agrees.lock.currentLockType_eq member]
  have unfolded : ∃ acknowledged : Bool, (singleOpOpt = true → acknowledged = true) ∧
      WinLock.putAccumRespComplete pkt inside
          { target with
            history := update target.history request
              (target.history request ++ events) }
          request singleOpOpt =
        WinLock.releaseLock pkt inside
          { target with
            windows := update target.windows (pkt request).targetWin
              { target.windows (pkt request).targetWin with
                myPtRmaPutsAccs :=
                  (target.windows (pkt request).targetWin).myPtRmaPutsAccs +
                    1 }
            phase := update target.phase request .finished
            history := update target.history request
              (target.history request ++ events ++
                if acknowledged then [.rmaDone] else []) }
          (pkt request).targetWin := by
    unfold WinLock.putAccumRespComplete
    simp only [Target.setPhase, Target.countPutAcc, Target.setWindow,
      update_self, eq_false locked, if_false]
    by_cases sends :
        (target.windows (pkt request).targetWin).currentLockType = some .shared ∨ singleOpOpt = true
    · refine ⟨true, fun _ => rfl, ?_⟩
      simp only [eq_true sends, if_true]
      simp [Target.record]
    · refine ⟨false, fun opt => absurd (.inr opt) sends, ?_⟩
      simp only [eq_false sends, if_false]
      simp
  obtain ⟨acknowledged, always, unfolded⟩ := unfolded
  rw [unfolded]
  apply invariant.releaseLock holds safe
  · constructor <;> simp +contextual
  · simp
  · simpa using recorded acknowledged always
  all_goals simp

end

include invariant in
/-- `MPIDI_CH3_ReqHandler_GetSendRespComplete` for a holder returns. -/
theorem LockInvariant.getSendRespComplete
    {request : Req}
    (responding : target.phase request = .responding)
    (safe : ReleaseSafe pkt inside target request) :
    ∃ result, getSendRespComplete pkt inside target request = some result ∧
        LockInvariant pkt result := by
  obtain ⟨held, agrees⟩ := invariant.consistent.agrees (pkt request).targetWin
  have holds : (target.phase request).Holds := by
    rw [responding]
    trivial
  have member : request ∈ held := (agrees.mem_iff request).mpr ⟨rfl, holds⟩
  have locked : (target.windows (pkt request).targetWin).currentLockType ≠ none := by
    simp [agrees.lock.currentLockType_eq member]
  have recorded := invariant.consistent.recorded request
  rw [responding] at recorded
  unfold WinLock.getSendRespComplete
  simp only [Target.setPhase, eq_false locked, if_false]
  apply invariant.releaseLock holds safe
  · refine ⟨fun _ _ => rfl, ?_, fun _ _ => rfl⟩
    intro other different
    simp [different]
  · simp
  · exact recorded.responding_finished
  all_goals rfl

/-! ## Data for a queued operation -/

theorem filter_request_ne
    {kept rest : List (LockQueueEntry Req)} {entry : LockQueueEntry Req}
    (nodup : ((kept ++ entry :: rest).map
      LockQueueEntry.request).Nodup) :
    ((kept ++ entry :: rest).filter fun other =>
      other.request ≠ entry.request) = kept ++ rest := by
  rw [List.map_append, List.map_cons, List.nodup_middle,
    List.nodup_cons, ← List.map_append, List.mem_map] at nodup
  have others : ∀ other ∈ kept ++ rest, other.request ≠ entry.request :=
    fun other member same => nodup.1 ⟨other, member, same⟩
  rw [filter_append, filter_cons_of_neg (by simp), ← filter_append, filter_eq_self]
  exact fun other member => by simpa using others other member

/-- The entry with all its data received. -/
def LockQueueEntry.received
    (entry : LockQueueEntry Req) : LockQueueEntry Req :=
  { entry with
    ptSingleOp := entry.ptSingleOp.map fun singleOp =>
      { singleOp with dataRecd := true } }

omit [DecidableEq Win] [DecidableEq Req] in
theorem EntryOf.received
    {entry : LockQueueEntry Req}
    (entryOf : EntryOf pkt entry) :
    EntryOf pkt entry.received where
  lockType_eq := entryOf.lockType_eq
  type_eq := by
    rw [show entry.received.request = entry.request from rfl,
      ← entryOf.type_eq, LockQueueEntry.received, Option.map_map]
    rfl
  get_ready := by
    intro _ singleOp singleOp_eq
    rw [LockQueueEntry.received, Option.map_eq_some_iff] at singleOp_eq
    obtain ⟨_, _, rfl⟩ := singleOp_eq
    rfl

include invariant in
/-- Data that has arrived while the lock is taken is marked. -/
theorem LockInvariant.markReceived
    {request : Req}
    (queued : target.phase request = .queued)
    (locked : (target.windows (pkt request).targetWin).currentLockType ≠ none) :
    LockInvariant pkt
      (target.setLockQueue (pkt request).targetWin
        ((target.windows (pkt request).targetWin).lockQueue.map fun entry =>
          if entry.request = request then entry.received else entry)) := by
  have requests_eq :
      ((target.windows (pkt request).targetWin).lockQueue.map fun entry =>
        if entry.request = request then entry.received else entry).map
          LockQueueEntry.request =
      (target.windows (pkt request).targetWin).lockQueue.map LockQueueEntry.request := by
    rw [List.map_map]
    apply List.map_congr_left
    intro entry _
    simp only [comp_apply]
    split <;> rfl
  generalize next_eq : target.setLockQueue (pkt request).targetWin _ = next
  have differs : DiffersAt pkt target next request := by
    constructor <;> simp +contextual [← next_eq]
  have phase_eq : next.phase request = target.phase request := by
    simp [← next_eq]
  have history_eq : next.history request = target.history request := by
    simp [← next_eq]
  have type_eq : (next.windows (pkt request).targetWin).currentLockType =
      (target.windows (pkt request).targetWin).currentLockType := by
    simp [← next_eq]
  have queue := invariant.consistent.queues (pkt request).targetWin
  obtain ⟨held, agrees⟩ := invariant.consistent.agrees (pkt request).targetWin
  apply invariant.of_differsAt differs
  · refine ⟨held, agrees.congr differs (by rw [phase_eq]) type_eq ?_ ?_⟩
    · simp [← next_eq]
    · simp [← next_eq]
  · have queue_eq : (next.windows (pkt request).targetWin).lockQueue =
        (target.windows (pkt request).targetWin).lockQueue.map fun entry =>
          if entry.request = request then entry.received else entry := by
      simp [← next_eq]
    rw [queue_eq]
    refine ⟨?_, ?_, ?_⟩
    · intro entry member
      obtain ⟨original, originalMember, rfl⟩ := List.mem_map.mp member
      split
      · exact (queue.entryOf original originalMember).received
      · exact queue.entryOf original originalMember
    · rw [requests_eq]
      exact queue.nodup
    · intro other
      rw [requests_eq, queue.mem_iff]
      by_cases same : other = request
      · rw [same, phase_eq]
      · rw [differs.phase_eq other same]
  · rw [phase_eq, history_eq]
    exact invariant.consistent.recorded request
  · refine ⟨?_, ?_⟩
    · intro _
      obtain ⟨holder, holds⟩ := (invariant.atRest (pkt request).targetWin).busy locked
      refine ⟨holder, (HoldsLock.congr ?_).mpr holds⟩
      by_cases same : holder = request
      · rw [same, phase_eq]
      · exact differs.phase_eq holder same
    · intro free
      rw [type_eq] at free
      exact absurd free locked
  · simp [← next_eq]
  · simp [← next_eq]

include invariant in
/-- The operation of a queue entry whose data has just arrived is executed and
its lock released. Nothing else that is ready waits, because the window was free
or stays shared. -/
theorem LockInvariant.executeQueued
    {entry : LockQueueEntry Req} {kept rest : List (LockQueueEntry Req)}
    (queue_eq : (target.windows (pkt entry.request).targetWin).lockQueue = kept ++ entry :: rest)
    (admits : Admits
      (target.windows (pkt entry.request).targetWin).currentLockType
      entry.lockType)
    {type : RmaType}
    (type_eq : entry.ptSingleOp.map PtSingleOp.type = some type)
    (notGet : type ≠ .get) :
    ∃ result, WinLock.releaseLock pkt inside
          { target with
            windows :=
              update target.windows (pkt entry.request).targetWin
                { (target.windows (pkt entry.request).targetWin).acquired
                    entry.lockType with
                  lockQueue := kept ++ rest
                  myPtRmaPutsAccs :=
                    (target.windows
                      (pkt entry.request).targetWin).myPtRmaPutsAccs + 1 }
            phase := update target.phase entry.request .finished
            history := update target.history entry.request
              (target.history entry.request ++
                [.applied type, .rmaDone]) }
          (pkt entry.request).targetWin = some result ∧
        LockInvariant pkt result := by
  have queue := invariant.consistent.queues (pkt entry.request).targetWin
  rw [queue_eq] at queue
  have member : entry ∈ kept ++ entry :: rest := mem_append_right _ mem_cons_self
  have entryOf := queue.entryOf entry member
  have queued := ((queue.mem_iff entry.request).mp (mem_map_of_mem member)).2
  have nothingYet : target.history entry.request = [] := by
    have before := invariant.consistent.recorded entry.request
    rw [queued] at before
    exact before.eq_nil_of_queued
  obtain ⟨held, agrees⟩ := invariant.consistent.agrees (pkt entry.request).targetWin
  have fresh : entry.request ∉ held := by
    rw [agrees.mem_iff]
    simp [HoldsLock, queued]
  -- the lock is taken and given back
  have acquired : LockAgrees pkt
      { (target.windows (pkt entry.request).targetWin).acquired
          entry.lockType with
        lockQueue := kept ++ rest
        myPtRmaPutsAccs :=
          (target.windows (pkt entry.request).targetWin).myPtRmaPutsAccs + 1 }
      (insert entry.request held) := by
    rw [entryOf.lockType_eq] at admits ⊢
    exact (agrees.lock.acquire fresh admits).congr rfl rfl
  have released := acquired.decrRefCnt (Finset.mem_insert_self _ _)
  have refCnt_eq := acquired.decrRefCnt_eq_zero_iff (Finset.mem_insert_self _ _)
  rw [Finset.erase_insert fresh] at released refCnt_eq
  generalize win_eq : WindowState.mk _ _ (kept ++ rest) _ _ = win at *
  have winQueue : win.lockQueue = kept ++ rest := by
    rw [← win_eq]
  have winCounter : win.myCounter = 0 := by
    rw [← win_eq]
    exact agrees.myCounter_eq
  have winLocked : win.currentLockType ≠ none := by
    rw [← win_eq]
    simp
  generalize next_eq : Target.mk (update target.windows _ win) _ _ _ _ = next
  have differs : DiffersAt pkt target
      (next.setWindow (pkt entry.request).targetWin win.decrRefCnt) entry.request := by
    constructor <;> simp +contextual [← next_eq]
  have remaining : Agrees pkt (next.setWindow (pkt entry.request).targetWin win.decrRefCnt)
      (pkt entry.request).targetWin held := by
    refine ⟨?_, ?_, ?_⟩
    · intro other
      rw [agrees.mem_iff]
      by_cases same : other = entry.request
      · subst same
        simp [← next_eq, HoldsLock, queued]
      · exact (HoldsLock.iff_of_differsAt differs other same).symm
    · simpa using released
    · simp [winCounter]
  subst next_eq
  apply @releaseLock_spec _ _ _ pkt inside target (pkt entry.request).targetWin _ held _
  · simp only [update_self]
    apply invariant.consistent.of_differsAt differs ⟨_, remaining⟩
    · simp only [Target.setWindow, update_self, decrRefCnt_lockQueue, winQueue]
      apply queue.leave differs
      simp
    · simpa [nothingYet, ← entryOf.type_eq, type_eq] using Recorded.done notGet
  · simp only [update_self]
    exact remaining
  · simp only [update_self]
    exact fun other different =>
      (invariant.atRest other).of_differsAt differs different
  · intro other elsewhere
    apply update_of_ne
    intro same
    exact elsewhere (by rw [same])
  · exact invariant.enteredFlag_eq
  · exact invariant.enteredCount_eq
  · simpa using winLocked
  · simpa using refCnt_eq
  · intro free
    have unlocked :
        (target.windows (pkt entry.request).targetWin).currentLockType = none := by
      by_contra locked
      obtain ⟨holder, holds⟩ := (invariant.atRest (pkt entry.request).targetWin).busy locked
      rw [← agrees.mem_iff, free] at holds
      simp at holds
    apply passSafe_of_not_ready
    simp only [update_self, winQueue]
    intro other otherMember
    apply (invariant.atRest (pkt entry.request).targetWin).idle unlocked other
    rw [queue_eq]
    rcases mem_append.mp otherMember with before | behind
    · exact mem_append_left _ before
    · exact mem_append_right _ (mem_cons_of_mem _ behind)

include invariant in
/-- `MPIDI_CH3_ReqHandler_SinglePutAccumComplete` returns. -/
theorem LockInvariant.singlePutAccumComplete
    {request : Req}
    (awaits : AwaitsData pkt target request) :
    ∃ result, WinLock.singlePutAccumComplete pkt inside target request = some result ∧
        LockInvariant pkt result := by
  obtain ⟨waiting, waitingMember, rfl, notReady⟩ := awaits
  have queue := invariant.consistent.queues (pkt waiting.request).targetWin
  have queued := ((queue.mem_iff waiting.request).mp (mem_map_of_mem waitingMember)).2
  unfold WinLock.singlePutAccumComplete
  simp only
  cases found : (target.windows (pkt waiting.request).targetWin).lockQueue.find?
      (fun entry => entry.request = waiting.request) with
  | none =>
    rw [find?_eq_none] at found
    exact absurd (found waiting waitingMember) (by simp)
  | some entry =>
    obtain ⟨isRequest, kept, rest, queue_eq, -⟩ := find?_eq_some_iff_append.mp found
    have sameRequest : entry.request = waiting.request := by
      simpa using isRequest
    have same : entry = waiting := by
      apply inj_on_of_nodup_map queue.nodup ?_ waitingMember sameRequest
      rw [queue_eq]
      exact mem_append_right _ mem_cons_self
    subst same
    have entryOf := queue.entryOf entry waitingMember
    simp only
    by_cases admits : Admits
        (target.windows (pkt entry.request).targetWin).currentLockType
        entry.lockType
    · rw [tryAcquireWinLock_of_admits admits]
      obtain ⟨singleOp, singleOp_eq⟩ : ∃ singleOp, entry.ptSingleOp = some singleOp := by
        by_contra plain
        apply notReady
        intro singleOp singleOp_eq
        exact absurd ⟨singleOp, singleOp_eq⟩ plain
      have type_eq : entry.ptSingleOp.map PtSingleOp.type = some singleOp.type := by
        rw [singleOp_eq, Option.map_some]
      have notGet : singleOp.type ≠ .get := by
        intro isGet
        apply notReady
        apply entryOf.get_ready
        rw [← entryOf.type_eq, type_eq, isGet]
      have opType : (if entry.ptSingleOp.map PtSingleOp.type = some .put then
          RmaType.put else .accumulate) = singleOp.type := by
        rw [type_eq]
        cases kind : singleOp.type with
        | put => rfl
        | get => exact absurd kind notGet
        | accumulate => rfl
      have executed := @LockInvariant.executeQueued _ _ _ _ _ _ inside
        invariant entry kept rest queue_eq admits _ type_eq notGet
      have filtered :
          ((target.windows (pkt entry.request).targetWin).lockQueue.filter
            fun other => other.request ≠ entry.request) = kept ++ rest := by
        rw [queue_eq]
        apply filter_request_ne
        rw [← queue_eq]
        exact queue.nodup
      simp only [opType, filtered]
      convert executed using 4
      simp [Target.record, Target.countPutAcc]
    · rw [tryAcquireWinLock_of_not_admits admits]
      exact ⟨_, rfl, invariant.markReceived queued
        (lock_ne_none_of_refused (tryAcquireWinLock_of_not_admits admits))⟩

/-! ## Runs -/

include invariant in
/-- Every enabled action that meets the condition returns and keeps the
invariant. -/
theorem LockInvariant.step
    {action : LockAction Req}
    (enabled : (lockSystem pkt).enabled target action)
    (safe : StepSafe pkt target action) :
    ∃ next, (lockSystem pkt).step target action = some next ∧ LockInvariant pkt next := by
  cases action with
  | packet request => exact ⟨_, rfl, invariant.pktHandler enabled⟩
  | lockOwn request =>
    obtain ⟨idle, plain, granted⟩ := enabled
    obtain ⟨win, acquired⟩ := Option.isSome_iff_exists.mp granted
    refine ⟨((target.setWindow (pkt request).targetWin win).record request
      .lockGranted).setPhase request .holding, ?_, ?_⟩
    · simp [lockSystem, lockStep, acquired]
    · exact invariant.grantAtOnce idle
        (show Phase.holding.Holds from trivial)
        (by rw [plain]; exact .holding) acquired rfl
  | dataArrives request inside =>
    by_cases receiving : target.phase request = .receiving
    · have recorded := invariant.consistent.recorded request
      rw [receiving] at recorded
      have isPut : (pkt request).singleOp = some .put ∧ target.history request = [] := by
        revert recorded
        generalize (pkt request).singleOp = singleOp
        generalize target.history request = history
        intro recorded
        cases recorded
        exact ⟨rfl, rfl⟩
      have handled := @LockInvariant.putAccumRespComplete _ _ _ _ _ _ inside
        invariant request (by rw [receiving]; trivial) safe true
        [.applied .put] (by
          intro acknowledged always
          rw [always rfl, isPut.1, isPut.2]
          exact .done (by simp))
      obtain ⟨next, returns, nextInvariant⟩ := handled
      refine ⟨next, ?_, nextInvariant⟩
      simp only [lockSystem, lockStep, if_pos receiving]
      exact returns
    · have awaits : AwaitsData pkt target request := enabled.resolve_left receiving
      obtain ⟨next, returns, nextInvariant⟩ :=
        @LockInvariant.singlePutAccumComplete _ _ _ _ _ _ inside invariant request awaits
      refine ⟨next, ?_, nextInvariant⟩
      simp only [lockSystem, lockStep, if_neg receiving]
      exact returns
  | lastGet request =>
    have holding : target.phase request = .holding := enabled
    have recorded := invariant.consistent.recorded request
    rw [holding] at recorded
    have differs : DiffersAt pkt target (target.setPhase request .responding) request := by
      refine ⟨fun _ _ => rfl, ?_, fun _ _ => rfl⟩
      intro other different
      simp [different]
    obtain ⟨held, agrees⟩ := invariant.consistent.agrees (pkt request).targetWin
    have atRest := invariant.atRest (pkt request).targetWin
    refine ⟨target.setPhase request .responding, rfl, ?_⟩
    apply invariant.of_differsAt differs
    · refine ⟨held, agrees.congr differs ?_ rfl rfl rfl⟩
      simp [holding]
    · apply (invariant.consistent.queues _).congr differs
      · simp [holding]
      · simp
    · have history_eq : (target.setPhase request .responding).history
          request = target.history request := rfl
      simp only [Target.setPhase, update_self]
      revert recorded
      generalize (pkt request).singleOp = singleOp
      generalize target.history request = history
      intro recorded
      cases recorded
      exact .lastGet
    · refine ⟨?_, atRest.idle⟩
      intro _
      exact ⟨request, rfl, by simp⟩
    · rfl
    · rfl
  | responseSent request inside => exact invariant.getSendRespComplete enabled safe
  | release request path inside =>
    have holding : target.phase request = .holding := enabled
    have holds : (target.phase request).Holds := by
      rw [holding]
      trivial
    have recorded := invariant.consistent.recorded request
    rw [holding] at recorded
    have isLock : (pkt request).singleOp = none ∧ target.history request = [.lockGranted] := by
      revert recorded
      generalize (pkt request).singleOp = singleOp
      generalize target.history request = history
      intro recorded
      cases recorded
      exact ⟨rfl, rfl⟩
    cases path with
    | putAccum =>
      obtain ⟨next, returns, nextInvariant⟩ :=
        @LockInvariant.putAccumRespComplete _ _ _ _ _ _ inside invariant
          request holds safe false [] (by
            intro acknowledged _
            rw [isLock.1, isLock.2]
            cases acknowledged with
            | false => exact .released
            | true => exact .acknowledged)
      refine ⟨next, ?_, nextInvariant⟩
      simpa [lockSystem, lockStep] using returns
    | ownProcess =>
      apply invariant.releaseLock holds safe
      · refine ⟨fun _ _ => rfl, ?_, fun _ _ => rfl⟩
        intro other different
        simp [different]
      · simp
      · rw [isLock.1, show (target.setPhase request .finished).history
          request = target.history request from rfl, isLock.2]
        exact .released
      all_goals rfl

theorem LockInvariant.initial (starts : (lockSystem pkt).initial target) :
    LockInvariant pkt target := by
  obtain ⟨windows, enteredFlag_eq, enteredCount_eq, phases, histories⟩ := starts
  refine ⟨⟨?_, ?_, ?_⟩, ?_, enteredFlag_eq, enteredCount_eq⟩
  · intro window
    refine ⟨∅, ?_, ⟨?_, ?_, ?_, ?_⟩, ?_⟩
    · intro request
      simp [HoldsLock, phases]
    all_goals simp [windows]
  · intro window
    refine ⟨?_, ?_, ?_⟩
    · simp [windows]
    · simp [windows]
    · simp [windows, phases]
  · intro request
    rw [phases, histories]
    exact .idle
  · intro window
    refine ⟨?_, ?_⟩
    · simp [windows]
    · simp [windows]

theorem lockInvariant_inductive :
    ((lockSystem pkt).restrict (StepSafe pkt)).Inductive
      (LockInvariant pkt) where
  initial := fun _ starts => LockInvariant.initial starts
  step := by
    intro target action next invariant enabled stepped
    obtain ⟨result, returns, kept⟩ := invariant.step enabled.1 enabled.2
    rw [show ((lockSystem pkt).restrict (StepSafe pkt)).step target action =
      (lockSystem pkt).step target action from rfl, returns, Option.some.injEq] at stepped
    rw [← stepped]
    exact kept

/-! ## The result -/

/-- The lock of every window is safe and nothing is lost. -/
structure LockSafe
    (pkt : Req → LockPkt Win)
    (target : Target Win Req) : Prop where
  /-- An exclusive holder is the only holder. -/
  alone : ∀ window request other, HoldsLock pkt target window request →
    (pkt request).lockType = .exclusive → HoldsLock pkt target window other → other = request
  /-- `shared_lock_ref_cnt` is the number of shared holders. -/
  refCnt : ∀ window, ∃ sharers : Finset Req, (∀ request, request ∈ sharers ↔
      HoldsLock pkt target window request ∧ (pkt request).lockType = .shared) ∧
      (target.windows window).sharedLockRefCnt = sharers.card
  /-- `current_lock_type` is `MPID_LOCK_NONE` when nobody holds the window. -/
  free : ∀ window, (target.windows window).currentLockType = none ↔
    ∀ request, ¬ HoldsLock pkt target window request
  /-- Otherwise it is the type of its holders. -/
  lockType : ∀ window lockType, (target.windows window).currentLockType = some lockType →
    ∀ request, HoldsLock pkt target window request → (pkt request).lockType = lockType
  /-- Each request is granted or executed once, and not before it leaves the
  queue. -/
  recorded : ∀ request, Recorded (pkt request).singleOp (target.phase request)
      (target.history request)
  /-- A request has one entry, in the queue of its window, exactly while it
  waits. -/
  queued : ∀ window,
    ((target.windows window).lockQueue.map LockQueueEntry.request).Nodup ∧ ∀ request,
        request ∈ (target.windows window).lockQueue.map LockQueueEntry.request ↔
          (pkt request).targetWin = window ∧ target.phase request = .queued
  /-- No release is left over: once the holders have gone and the data has
  arrived, every request whose packet has arrived is finished. -/
  settled :
    (∀ request, ¬ (target.phase request).Holds ∧ ¬ AwaitsData pkt target request) →
    ∀ request, target.phase request = .idle ∨ target.phase request = .finished
  /-- The marks of the release loop are reset. -/
  notEntered : target.enteredFlag = 0 ∧ target.enteredCount = 0

include invariant in
theorem LockInvariant.lockSafe :
    LockSafe pkt target where
  alone := by
    intro window request other holds exclusive otherHolds
    obtain ⟨held, agrees⟩ := invariant.consistent.agrees window
    have member := (agrees.mem_iff request).mpr holds
    have current := agrees.lock.currentLockType_eq member
    rw [exclusive] at current
    exact Finset.card_le_one.mp (agrees.lock.alone current) _
      ((agrees.mem_iff other).mpr otherHolds) _ member
  refCnt := by
    intro window
    obtain ⟨held, agrees⟩ := invariant.consistent.agrees window
    refine ⟨held.filter fun request => (pkt request).lockType = .shared, ?_, agrees.lock.refCnt⟩
    intro request
    rw [Finset.mem_filter, agrees.mem_iff]
  free := by
    intro window
    obtain ⟨held, agrees⟩ := invariant.consistent.agrees window
    constructor
    · intro unlocked request holds
      rw [← agrees.mem_iff, agrees.lock.free unlocked] at holds
      simp at holds
    · intro nobody
      by_contra locked
      obtain ⟨holder, holds⟩ := (invariant.atRest window).busy locked
      exact nobody holder holds
  lockType := by
    intro window lockType current request holds
    obtain ⟨held, agrees⟩ := invariant.consistent.agrees window
    exact agrees.lock.lockType_eq lockType current request ((agrees.mem_iff request).mpr holds)
  recorded := invariant.consistent.recorded
  queued := fun window =>
    ⟨(invariant.consistent.queues window).nodup, (invariant.consistent.queues window).mem_iff⟩
  settled := by
    intro nothingPending request
    have queue := invariant.consistent.queues (pkt request).targetWin
    cases phase : target.phase request with
    | idle => exact .inl rfl
    | finished => exact .inr rfl
    | queued =>
      obtain ⟨entry, member, rfl⟩ := List.mem_map.mp ((queue.mem_iff request).mpr ⟨rfl, phase⟩)
      have unlocked :
          (target.windows (pkt entry.request).targetWin).currentLockType = none := by
        by_contra locked
        obtain ⟨holder, holds⟩ := (invariant.atRest (pkt entry.request).targetWin).busy locked
        exact (nothingPending holder).1 holds.2
      have notReady := (invariant.atRest (pkt entry.request).targetWin).idle unlocked entry member
      exact absurd ⟨entry, member, rfl, notReady⟩ (nothingPending entry.request).2
    | receiving => exact absurd (by rw [phase]; trivial) (nothingPending request).1
    | responding => exact absurd (by rw [phase]; trivial) (nothingPending request).1
    | holding => exact absurd (by rw [phase]; trivial) (nothingPending request).1
  notEntered := ⟨invariant.enteredFlag_eq, invariant.enteredCount_eq⟩

/-- In every run whose steps meet the condition, the lock is safe in every state
reached and every enabled step that meets the condition returns. -/
theorem winLock_safe
    (pkt : Req → LockPkt Win)
    {target : Target Win Req}
    (reachable :
      ((lockSystem pkt).restrict (StepSafe pkt)).Reachable target) :
    LockSafe pkt target ∧ ((lockSystem pkt).restrict (StepSafe pkt)).Responsive target := by
  have invariant := lockInvariant_inductive.reachable reachable
  refine ⟨invariant.lockSafe, ?_⟩
  intro action enabled
  obtain ⟨next, returns, -⟩ := invariant.step enabled.1 enabled.2
  rw [show ((lockSystem pkt).restrict (StepSafe pkt)).step target action =
    (lockSystem pkt).step target action from rfl, returns]
  rfl

/-! ## A run inside the condition, and one outside -/

/-- An exclusive lock, a get under a shared lock and another exclusive lock. -/
def sampleRequests : Fin 3 → LockPkt Unit
  | 0 => { targetWin := (), lockType := .exclusive, singleOp := none }
  | 1 => { targetWin := (), lockType := .shared, singleOp := some .get }
  | 2 => { targetWin := (), lockType := .exclusive, singleOp := none }

/-- The target before any packet. -/
def sampleStart : Target Unit (Fin 3) where
  windows := fun _ => .created
  enteredFlag := 0
  enteredCount := 0
  phase := fun _ => .idle
  history := fun _ => []

theorem sampleStart_initial : (lockSystem sampleRequests).initial sampleStart :=
  ⟨fun _ => rfl, rfl, rfl, fun _ => rfl, fun _ => rfl⟩

/-- The first lock is granted. -/
def sampleLocked : Target Unit (Fin 3) :=
  pktHandler sampleRequests sampleStart 0

/-- The get waits for it. -/
def sampleWaiting : Target Unit (Fin 3) :=
  pktHandler sampleRequests sampleLocked 1

/-- The release of the lock executes the get, and its response is sent at
once. -/
def sampleReleased : Target Unit (Fin 3) :=
  (lockStep sampleRequests sampleWaiting (.release 0 .putAccum fun _ => [1])).getD sampleStart

theorem sampleWaiting_reachable :
    ((lockSystem sampleRequests).restrict (StepSafe sampleRequests)).Reachable
      sampleWaiting := by
  have locked : ((lockSystem sampleRequests).restrict
      (StepSafe sampleRequests)).Reachable sampleLocked :=
    .step (.packet 0) (.initial sampleStart_initial) ⟨rfl, trivial⟩ rfl
  exact .step (.packet 1) locked ⟨rfl, trivial⟩ rfl

theorem winLock_safe_getInside :
    LockSafe sampleRequests sampleReleased ∧ ((lockSystem sampleRequests).restrict
        (StepSafe sampleRequests)).Responsive sampleReleased := by
  have safe : StepSafe sampleRequests sampleWaiting (.release 0 .putAccum fun _ => [1]) := by
    intro _ _
    refine ⟨by decide, ?_, ?_⟩
    · intro request _ elsewhere
      exact absurd rfl elsewhere
    · rw [if_neg (by decide), PassSafe]
      decide
  apply winLock_safe
  exact .step (.release 0 .putAccum fun _ => [1]) sampleWaiting_reachable ⟨rfl, safe⟩ rfl

/-- A get under a shared lock and then an exclusive lock wait for an exclusive
holder. Its release grants the get and never gets past the exclusive lock. -/
theorem winLock_unsafe_sharedThenExclusive :
    ¬ ∀ target, (lockSystem sampleRequests).Reachable target →
      LockSafe sampleRequests target ∧ (lockSystem sampleRequests).Responsive target := by
  intro safe
  have reachable : (lockSystem sampleRequests).Reachable
      (pktHandler sampleRequests sampleWaiting 2) :=
    .step (.packet 2) sampleWaiting_reachable.of_restrict rfl rfl
  have responds := (safe _ reachable).2 (.release 0 .putAccum fun _ => []) rfl
  exact absurd responds (by decide)

end Mpich.Ch3.WinLock
