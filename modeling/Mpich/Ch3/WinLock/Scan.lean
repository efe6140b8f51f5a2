import Mpich.Ch3.WinLock.Reentry

/-!
# One pass of the release loop

`PassSafe` says, about the queue of a window and the responses that complete
inside, that the release loop goes through the queue without meeting a ready
entry that cannot have the lock, that the other windows keep a holder, and that
every further pass finds nobody holding the lock. Under it a pass comes to its
end: each entry that is served keeps the target consistent, and the induction
goes over the entries the pointer has yet to reach.
-/

namespace Mpich.Ch3.WinLock

open List Function Option

attribute [local simp] Target.setWindow Target.setLockQueue Target.setPhase Target.record
  WindowState.acquired

variable {Win Req : Type*} [DecidableEq Win] [DecidableEq Req]

/-! ## The condition -/

/-- The holders that are left of `held` when these responses complete. -/
def heldAfter
    (pkt : Req → LockPkt Win)
    (held : Finset Req)
    (completed : List Req) : Finset Req :=
  held.filter fun request =>
    ¬ (request ∈ completed ∧ (pkt request).singleOp = some .get)

/-- A release loop that has reached this queue with this lock type comes to its
end. `held` are the requests it has granted and that hold the lock, `pending`
counts the releases from within that have not had their pass, and `completed`
are the responses that have completed inside. -/
def PassSafe
    (pkt : Req → LockPkt Win)
    (inside : Req → List Req)
    (keepsOthers : List Req → Prop) :
    Option LockType → Finset Req → Nat → List Req → List (LockQueueEntry Req) → Prop
  | _, held, pending, _, [] => held = ∅ ∨ pending = 0
  | lock, held, pending, completed, entry :: rest =>
    if entry.Ready then
      Admits lock entry.lockType ∧ match entry.ptSingleOp.map PtSingleOp.type with
        | none =>
          -- an exclusive lock ends the pass
          if entry.lockType = .exclusive then
            pending = 0
          else
            PassSafe pkt inside keepsOthers (some .shared)
              (insert entry.request held) pending completed rest
        | some .get =>
          let completed := completed ++ inside entry.request
          let remaining := heldAfter pkt (insert entry.request held) (inside entry.request)
          keepsOthers completed ∧ if entry.lockType = .exclusive then
              -- ends the pass; if released inside, the next one follows
              if remaining = ∅ then
                PassSafe pkt inside keepsOthers none ∅ pending completed rest
              else
                pending = 0
            else
              PassSafe pkt inside keepsOthers (some .shared) remaining
                (if remaining = ∅ then pending + 1 else pending)
                completed rest
        | some _ =>
          PassSafe pkt inside keepsOthers
            (if held = ∅ then none else lock) held pending completed rest
    else
      PassSafe pkt inside keepsOthers lock held pending completed rest

variable {held : Finset Req} {completed : List Req} {pending : Nat}

/-- Entries that are not ready are passed over. -/
theorem passSafe_append_of_not_ready
    {pkt : Req → LockPkt Win} {inside : Req → List Req}
    {keepsOthers : List Req → Prop} {lock : Option LockType}
    {kept rest : List (LockQueueEntry Req)}
    (notReady : ∀ entry ∈ kept, ¬ entry.Ready) :
    PassSafe pkt inside keepsOthers lock held pending completed (kept ++ rest) ↔
      PassSafe pkt inside keepsOthers lock held pending completed rest := by
  induction kept with
  | nil => rfl
  | cons entry kept ih =>
    rw [cons_append, PassSafe, if_neg (notReady entry mem_cons_self)]
    apply ih
    exact fun other member => notReady other (mem_cons_of_mem _ member)

/-- The releases that can still come from within. -/
def releasesInside
    (inside : Req → List Req)
    (lockQueue : List (LockQueueEntry Req)) : Nat :=
  (lockQueue.map fun entry => (inside entry.request).length).sum

omit [DecidableEq Req] in
@[simp] theorem releasesInside_cons
    (inside : Req → List Req)
    (entry : LockQueueEntry Req)
    (rest : List (LockQueueEntry Req)) :
    releasesInside inside (entry :: rest) =
      (inside entry.request).length + releasesInside inside rest := by
  simp [releasesInside]

/-! ## Windows at rest -/

/-- Between steps the lock type of a window names a lock that is held, and
nothing that is ready waits for a free window. -/
structure AtRest
    (pkt : Req → LockPkt Win)
    (target : Target Win Req)
    (window : Win) : Prop where
  busy : (target.windows window).currentLockType ≠ none →
    ∃ request, HoldsLock pkt target window request
  idle : (target.windows window).currentLockType = none →
    ∀ entry ∈ (target.windows window).lockQueue, ¬ entry.Ready

variable {pkt : Req → LockPkt Win}

variable {target : Target Win Req}

theorem AtRest.of_differsAt
    {next : Target Win Req} {request : Req} {window : Win}
    (rest : AtRest pkt target window)
    (differs : DiffersAt pkt target next request)
    (otherWindow : window ≠ (pkt request).targetWin) :
    AtRest pkt next window where
  busy := by
    rw [differs.windows_eq window otherWindow]
    intro locked
    obtain ⟨holder, holds⟩ := rest.busy locked
    refine ⟨holder, (HoldsLock.congr (differs.phase_eq holder ?_)).mpr holds⟩
    intro same
    subst same
    exact otherWindow holds.1.symm
  idle := by
    rw [differs.windows_eq window otherWindow]
    exact rest.idle

/-- The state of the target while the release loop works on a window. -/
structure Scanning
    (pkt : Req → LockPkt Win)
    (start : Target Win Req)
    (window : Win)
    (completed : List Req)
    (tempEnteredCount : Int)
    (pending : Nat)
    (held : Finset Req)
    (target : Target Win Req) : Prop where
  consistent : Consistent pkt target
  agrees : Agrees pkt target window held
  others : ∀ other ≠ window, AtRest pkt target other
  phase_eq : ∀ request, (pkt request).targetWin ≠ window → target.phase request =
      if request ∈ completed ∧ start.phase request = .responding then
        .finished
      else
        start.phase request
  getsOnly : ∀ request ∈ held, target.phase request = .responding →
    (pkt request).singleOp = some .get
  busy : (target.windows window).currentLockType ≠ none → held.Nonempty ∨ 0 < pending
  enteredFlag_eq : target.enteredFlag = 1
  enteredCount_eq : target.enteredCount = tempEnteredCount + pending

/-! ## One entry -/

section

variable {start target next : Target Win Req} {window : Win}
  {completed : List Req} {tempEnteredCount : Int} {pending : Nat}
  {held : Finset Req} {entry : LockQueueEntry Req}
  {kept rest : List (LockQueueEntry Req)}

section

variable (scanning : Scanning pkt start window completed tempEnteredCount pending held target)

include scanning

/-- The loop deals with one entry and removes it from the queue. -/
theorem Scanning.serve
    (inWindow : (pkt entry.request).targetWin = window)
    (queue_eq : (target.windows window).lockQueue = kept ++ entry :: rest)
    (differs : DiffersAt pkt target next entry.request)
    (nextQueue_eq : (next.windows window).lockQueue = kept ++ rest)
    (left : next.phase entry.request ≠ .queued)
    (recorded : Recorded (pkt entry.request).singleOp
      (next.phase entry.request) (next.history entry.request))
    {nextHeld : Finset Req}
    (agrees : Agrees pkt next window nextHeld)
    (getsOnly : ∀ request ∈ nextHeld, next.phase request = .responding →
      (pkt request).singleOp = some .get)
    (busy : (next.windows window).currentLockType ≠ none → nextHeld.Nonempty ∨ 0 < pending)
    (enteredFlag_eq : next.enteredFlag = target.enteredFlag)
    (enteredCount_eq : next.enteredCount = target.enteredCount) :
    Scanning pkt start window completed tempEnteredCount pending nextHeld next where
  consistent := by
    subst inWindow
    have queue := scanning.consistent.queues (pkt entry.request).targetWin
    rw [queue_eq] at queue
    apply scanning.consistent.of_differsAt differs ⟨_, agrees⟩ ?_ recorded
    rw [nextQueue_eq]
    exact queue.leave differs left
  agrees := agrees
  others := fun other different =>
    (scanning.others other different).of_differsAt differs
      (by rw [inWindow]; exact different)
  phase_eq := by
    intro request elsewhere
    rw [differs.phase_eq request (fun same => elsewhere (same ▸ inWindow)),
      scanning.phase_eq request elsewhere]
  getsOnly := getsOnly
  busy := busy
  enteredFlag_eq := enteredFlag_eq.trans scanning.enteredFlag_eq
  enteredCount_eq := enteredCount_eq.trans scanning.enteredCount_eq

section

variable (queue_eq : (target.windows window).lockQueue = kept ++ entry :: rest)

include queue_eq

/-- The request of an entry of the queue is queued at this window. -/
theorem Scanning.queued :
    (pkt entry.request).targetWin = window ∧ target.phase entry.request = .queued ∧
      EntryOf pkt entry := by
  have queue := scanning.consistent.queues window
  rw [queue_eq] at queue
  have member : entry ∈ kept ++ entry :: rest := mem_append_right _ mem_cons_self
  have waits := (queue.mem_iff entry.request).mp (mem_map_of_mem member)
  exact ⟨waits.1, waits.2, queue.entryOf entry member⟩

variable (admits : Admits (target.windows window).currentLockType entry.lockType)

include admits in
/-- A granted request that keeps the lock. -/
theorem Scanning.grant
    {event : Event} {phase : Phase}
    (recorded : Recorded (pkt entry.request).singleOp phase [event])
    (holds : phase.Holds)
    (getsOnly : phase = .responding → (pkt entry.request).singleOp = some .get) :
    Scanning pkt start window completed tempEnteredCount pending
      (insert entry.request held)
      ((((target.setWindow window
        ((target.windows window).acquired entry.lockType)).record
          entry.request event).setPhase entry.request phase).setLockQueue
            window (kept ++ rest)) := by
  obtain ⟨inWindow, queued, entryOf⟩ := scanning.queued queue_eq
  have nothingYet : target.history entry.request = [] := by
    have before := scanning.consistent.recorded entry.request
    rw [queued] at before
    exact before.eq_nil_of_queued
  have differs : DiffersAt pkt target
      ((((target.setWindow window
        ((target.windows window).acquired entry.lockType)).record
          entry.request event).setPhase entry.request phase).setLockQueue
            window (kept ++ rest)) entry.request := by
    constructor <;> simp +contextual [inWindow.symm]
  apply scanning.serve inWindow queue_eq differs
  · simp
  · intro stillQueued
    simp only [Target.setLockQueue, Target.setWindow, Target.setPhase, update_self] at stillQueued
    subst stillQueued
    exact holds
  · simpa [nothingYet] using recorded
  · subst inWindow
    apply scanning.agrees.acquire differs (by simp [queued, Phase.Holds])
      (by rw [← entryOf.lockType_eq]; exact admits)
    · simpa using holds
    · simp [entryOf.lockType_eq]
    · simp [entryOf.lockType_eq]
    · simp
  · intro request member responding
    by_cases same : request = entry.request
    · subst same
      apply getsOnly
      simpa using responding
    · rw [differs.phase_eq request same] at responding
      exact scanning.getsOnly request (Finset.mem_of_mem_insert_of_ne member same) responding
  · exact fun _ => .inl (Finset.insert_nonempty _ _)
  · simp
  · simp

/-- The target after a put or accumulate of the queue has been executed. -/
def Target.executed
    (target : Target Win Req)
    (window : Win)
    (entry : LockQueueEntry Req)
    (type : RmaType)
    (lockQueue : List (LockQueueEntry Req)) : Target Win Req :=
  { target with
    windows := update target.windows window
      { WindowState.releaseInPlace
          { (target.windows window).acquired entry.lockType with
            myPtRmaPutsAccs := (target.windows window).myPtRmaPutsAccs + 1 }
        with lockQueue := lockQueue }
    phase := update target.phase entry.request .finished
    history := update target.history entry.request
      (target.history entry.request ++ [.applied type] ++ [.rmaDone]) }

variable {type : RmaType}

omit queue_eq in
omit scanning in
theorem serveEntry_eq_executed
    (inside : Req → List Req)
    (type_eq : entry.ptSingleOp.map PtSingleOp.type = some type)
    (notGet : type ≠ .get)
    (lockQueue : List (LockQueueEntry Req)) :
    (serveEntry pkt inside window
        (target.setWindow window ((target.windows window).acquired entry.lockType))
        entry).setLockQueue window lockQueue =
      target.executed window entry type lockQueue := by
  obtain ⟨singleOp, singleOp_eq, rfl⟩ := map_eq_some_iff.mp type_eq
  unfold serveEntry
  rw [singleOp_eq]
  cases opType : singleOp.type with
  | get => exact absurd opType notGet
  | put =>
    simp [Target.executed, Target.countPutAcc, opType]
  | accumulate =>
    simp [Target.executed, Target.countPutAcc, opType]

include admits in
/-- A put or accumulate of the queue is executed and gives the lock back. -/
theorem Scanning.execute
    (type_eq : entry.ptSingleOp.map PtSingleOp.type = some type)
    (notGet : type ≠ .get) :
    Scanning pkt start window completed tempEnteredCount pending held
        (target.executed window entry type (kept ++ rest)) ∧
      ((target.executed window entry type (kept ++ rest)).windows window).currentLockType =
        if held = ∅ then none else (target.windows window).currentLockType := by
  obtain ⟨inWindow, queued, entryOf⟩ := scanning.queued queue_eq
  have nothingYet : target.history entry.request = [] := by
    have before := scanning.consistent.recorded entry.request
    rw [queued] at before
    exact before.eq_nil_of_queued
  have fresh : entry.request ∉ held := by
    rw [scanning.agrees.mem_iff]
    simp [HoldsLock, queued, Phase.Holds]
  -- the lock fields before and after the operation
  have acquired : LockAgrees pkt
      { (target.windows window).acquired entry.lockType with
        myPtRmaPutsAccs := (target.windows window).myPtRmaPutsAccs + 1 }
      (insert entry.request held) := by
    rw [entryOf.lockType_eq] at admits ⊢
    exact (scanning.agrees.lock.acquire fresh admits).congr rfl rfl
  obtain ⟨released, lock_eq⟩ := acquired.releaseInPlace (Finset.mem_insert_self _ _)
  rw [Finset.erase_insert fresh] at released lock_eq
  have lock_same : held ≠ ∅ → some entry.lockType = (target.windows window).currentLockType := by
    intro occupied
    obtain ⟨holder, holds⟩ := Finset.nonempty_of_ne_empty occupied
    have current := scanning.agrees.lock.currentLockType_eq holds
    cases requested : entry.lockType <;> simp_all [Admits]
  have type_after :
      ((target.executed window entry type (kept ++ rest)).windows window).currentLockType =
        if held = ∅ then none else
          (target.windows window).currentLockType := by
    simp only [Target.executed, update_self]
    rw [lock_eq]
    split
    · rfl
    · exact lock_same ‹_›
  have differs : DiffersAt pkt target
      (target.executed window entry type (kept ++ rest)) entry.request := by
    constructor <;> simp +contextual [Target.executed, inWindow.symm]
  have finished : (target.executed window entry type (kept ++ rest)).phase
      entry.request = .finished := by
    simp [Target.executed]
  refine ⟨?_, type_after⟩
  apply scanning.serve inWindow queue_eq differs
  · simp [Target.executed]
  · simp [finished]
  · rw [finished, ← entryOf.type_eq, type_eq]
    simpa [Target.executed, nothingYet] using Recorded.done notGet
  · refine ⟨?_, ?_, ?_⟩
    · intro other
      rw [scanning.agrees.mem_iff]
      by_cases same : other = entry.request
      · subst same
        simp [HoldsLock, queued, finished, Phase.Holds]
      · exact (HoldsLock.iff_of_differsAt differs other same).symm
    · simp only [Target.executed, update_self]
      exact released.congr rfl rfl
    · simp [Target.executed, scanning.agrees.myCounter_eq]
  · intro request member responding
    have different : request ≠ entry.request :=
      fun same => fresh (same ▸ member)
    rw [differs.phase_eq request different] at responding
    exact scanning.getsOnly request member responding
  · intro locked
    rw [type_after] at locked
    split at locked
    · exact absurd rfl locked
    · exact .inl (Finset.nonempty_of_ne_empty ‹_›)
  · rfl
  · rfl

end

/-! ## Responses that complete inside -/

omit scanning in
omit [DecidableEq Req] in
theorem releaseLockEntered_setLockQueue
    (target : Target Win Req)
    (released window : Win)
    (lockQueue : List (LockQueueEntry Req)) :
    releaseLockEntered (target.setLockQueue window lockQueue) released =
      (releaseLockEntered target released).setLockQueue window lockQueue := by
  by_cases same : released = window
  · subst same
    apply Target.ext
    · simp [decrRefCnt_with_lockQueue]
    · simp
    · simp [decrRefCnt_with_lockQueue, releaseLockEntered_enteredCount]
    · simp
    · simp
  · apply Target.ext
    · simp [same, Ne.symm same, update_comm same]
    · simp
    · simp [same, releaseLockEntered_enteredCount]
    · simp
    · simp

omit scanning in
theorem getSendRespCompleteEntered_setLockQueue
    (target : Target Win Req)
    (window : Win)
    (lockQueue : List (LockQueueEntry Req))
    (request : Req) :
    getSendRespCompleteEntered pkt (target.setLockQueue window lockQueue) request =
      (getSendRespCompleteEntered pkt target request).setLockQueue window lockQueue := by
  have type_eq : ((target.setLockQueue window lockQueue).windows
      (pkt request).targetWin).currentLockType =
        (target.windows (pkt request).targetWin).currentLockType := by
    by_cases same : (pkt request).targetWin = window
    · simp [same]
    · simp [same]
  unfold getSendRespCompleteEntered
  by_cases free :
      (target.windows (pkt request).targetWin).currentLockType = none
  · simp only [Target.setPhase, type_eq, free, if_true]
    by_cases same : (pkt request).targetWin = window
    · simp [Target.decrCounter, same]
    · simp [Target.decrCounter, same, Ne.symm same, update_comm same]
  · simp only [Target.setPhase, type_eq, free, if_false]
    exact releaseLockEntered_setLockQueue
      { target with phase := update target.phase request .finished }
      (pkt request).targetWin window lockQueue

omit scanning in
/-- The entry can be removed from the queue before its response is sent. -/
theorem completeEntered_setLockQueue
    (target : Target Win Req)
    (window : Win)
    (lockQueue : List (LockQueueEntry Req))
    (responses : List Req) :
    completeEntered pkt (target.setLockQueue window lockQueue) responses =
      (completeEntered pkt target responses).setLockQueue window lockQueue := by
  induction responses generalizing target with
  | nil => rfl
  | cons request responses ih =>
    rw [completeEntered_cons, completeEntered_cons]
    by_cases responding : target.phase request = .responding
    · rw [if_pos responding, if_pos (show (target.setLockQueue window lockQueue).phase request =
          .responding from responding),
        getSendRespCompleteEntered_setLockQueue, ih]
    · rw [if_neg responding, if_neg (show (target.setLockQueue window lockQueue).phase request ≠
          .responding from responding),
        ih]

/-- Responses complete while the loop sends a get response. -/
theorem Scanning.complete
    {responses : List Req}
    (keepsOthers : KeepsOthers pkt start window (completed ++ responses)) :
    Scanning pkt start window (completed ++ responses) tempEnteredCount
      (pending + if held.Nonempty ∧ heldAfter pkt held responses = ∅ then 1
        else 0)
      (heldAfter pkt held responses)
      (completeEntered pkt target responses) := by
  have completion := completeEntered_completed pkt target responses
  have consistent := scanning.consistent.completeEntered responses
  have keepsNow : KeepsOthers pkt target window responses := by
    intro request member elsewhere responding
    rw [scanning.phase_eq request elsewhere] at responding
    have responded : start.phase request = .responding := by
      split at responding
      · simp at responding
      · exact responding
    obtain ⟨other, holds, stays⟩ := keepsOthers request
      (mem_append_right _ member) elsewhere responded
    have otherElsewhere : (pkt other).targetWin ≠ window := by
      rw [holds.1]
      exact elsewhere
    have phase_eq : target.phase other = start.phase other := by
      rw [scanning.phase_eq other otherElsewhere, if_neg]
      exact fun both => stays ⟨mem_append_left _ both.1, both.2⟩
    refine ⟨other, (HoldsLock.congr phase_eq).mpr holds, ?_⟩
    rw [phase_eq]
    exact fun both => stays ⟨mem_append_right _ both.1, both.2⟩
  have agrees : Agrees pkt (completeEntered pkt target responses) window
      (heldAfter pkt held responses) := by
    obtain ⟨remaining, remains⟩ := consistent.agrees window
    have same : remaining = heldAfter pkt held responses := by
      ext request
      rw [remains.mem_iff, heldAfter, Finset.mem_filter, scanning.agrees.mem_iff]
      unfold HoldsLock
      rw [completion.phase_eq]
      by_cases here : (pkt request).targetWin = window
      · by_cases holds : (target.phase request).Holds
        · have member := (scanning.agrees.mem_iff request).mpr ⟨here, holds⟩
          have responding_iff : target.phase request = .responding ↔
              (pkt request).singleOp = some .get := by
            refine ⟨scanning.getsOnly request member, fun isGet => ?_⟩
            have recorded := scanning.consistent.recorded request
            rw [isGet] at recorded
            cases phase : target.phase request <;>
              rw [phase] at recorded holds <;>
              first
                | rfl
                | cases recorded
                | exact holds.elim
          split <;> simp_all [Phase.Holds]
        · split <;> simp_all [Phase.Holds]
      · simp [here]
    rw [← same]
    exact remains
  refine ⟨consistent, agrees, ?_, ?_, ?_, ?_, ?_, ?_⟩
  · intro other different
    have atRest := scanning.others other different
    refine ⟨?_, ?_⟩
    · rw [completion.type_eq]
      intro locked
      obtain ⟨holder, holds⟩ := atRest.busy locked
      by_cases gone : holder ∈ responses ∧ target.phase holder = .responding
      · obtain ⟨witness, witnessHolds, stays⟩ := keepsNow holder gone.1
          (by rw [holds.1]; exact different) gone.2
        refine ⟨witness, (HoldsLock.congr ?_).mpr (holds.1 ▸ witnessHolds)⟩
        rw [completion.phase_eq, if_neg stays]
      · refine ⟨holder, (HoldsLock.congr ?_).mpr holds⟩
        rw [completion.phase_eq, if_neg gone]
    · rw [completion.type_eq, completion.queue_eq]
      exact atRest.idle
  · intro request elsewhere
    rw [completion.phase_eq, scanning.phase_eq request elsewhere]
    by_cases responded : start.phase request = .responding
    · by_cases before : request ∈ completed <;> simp [responded, before]
    · simp [responded]
  · intro request member responding
    rw [completion.phase_eq] at responding
    split at responding
    · simp at responding
    · exact scanning.getsOnly request (Finset.mem_filter.mp member).1 responding
  · rw [completion.type_eq]
    intro locked
    rcases scanning.busy locked with occupied | waiting
    · by_cases emptied : heldAfter pkt held responses = ∅
      · rw [if_pos ⟨occupied, emptied⟩]
        exact .inr (Nat.succ_pos _)
      · exact .inl (Finset.nonempty_of_ne_empty emptied)
    · exact .inr (Nat.add_pos_left waiting _)
  · rw [completion.enteredFlag_eq, scanning.enteredFlag_eq]
  · rw [scanning.consistent.completeEntered_enteredCount keepsNow
      scanning.agrees agrees, scanning.enteredCount_eq]
    split <;> simp [Int.add_assoc]

end

end

/-! ## One pass -/

/-- The state in which a pass of the release loop ends: what it has not reached
is still in the queue, and if another pass follows, that one is safe. -/
structure PassEnd
    (pkt : Req → LockPkt Win)
    (inside : Req → List Req)
    (start : Target Win Req)
    (window : Win)
    (tempEnteredCount : Int)
    (completed : List Req)
    (pending : Nat)
    (held : Finset Req)
    (kept rest : List (LockQueueEntry Req))
    (target : Target Win Req) : Prop where
  scanning : Scanning pkt start window completed tempEnteredCount pending held
    target
  queue_eq : (target.windows window).lockQueue = kept ++ rest
  notReady : ∀ entry ∈ kept, ¬ entry.Ready
  idle : pending = 0 → (target.windows window).currentLockType = none → rest = []
  again : 0 < pending → held = ∅ ∧
    PassSafe pkt inside (KeepsOthers pkt start window) none ∅ (pending - 1) completed rest

/-- A pass returns, in such a state, with this many releases from within still
possible. -/
def PassReaches
    (pkt : Req → LockPkt Win)
    (inside : Req → List Req)
    (start : Target Win Req)
    (window : Win)
    (tempEnteredCount : Int)
    (bound : Nat)
    (result : Option (Target Win Req)) : Prop :=
  ∃ next kept rest completed pending held, result = some next ∧
      PassEnd pkt inside start window tempEnteredCount completed pending held kept rest next ∧
      pending + releasesInside inside rest ≤ bound

variable {inside : Req → List Req} {start : Target Win Req} {window : Win}
  {tempEnteredCount : Int}

theorem PassReaches.mono
    {bound larger : Nat} {result : Option (Target Win Req)}
    (reaches : PassReaches pkt inside start window tempEnteredCount bound
      result)
    (bounded : bound ≤ larger) :
    PassReaches pkt inside start window tempEnteredCount larger result := by
  obtain ⟨next, kept, rest, completed, pending, held, returns, passEnd, within⟩ := reaches
  exact ⟨next, kept, rest, completed, pending, held, returns, passEnd, within.trans bounded⟩

theorem PassEnd.reaches
    {kept rest : List (LockQueueEntry Req)}
    (passEnd : PassEnd pkt inside start window tempEnteredCount completed
      pending held kept rest target) :
    PassReaches pkt inside start window tempEnteredCount
      (pending + releasesInside inside rest) (some target) :=
  ⟨target, kept, rest, completed, pending, held, rfl, passEnd, le_rfl⟩

/-- A response that empties the set of holders is among those that complete. -/
theorem heldAfter_insert_eq_empty
    {request : Req} {responses : List Req}
    (emptied : heldAfter pkt (insert request held) responses = ∅) :
    0 < responses.length := by
  have gone : request ∉ heldAfter pkt (insert request held) responses := by
    simp [emptied]
  rw [heldAfter, Finset.mem_filter, not_and, not_not] at gone
  exact length_pos_of_mem (gone (Finset.mem_insert_self _ _)).1

section

variable {target : Target Win Req} {completed : List Req} {pending : Nat}
  {held : Finset Req} {entry : LockQueueEntry Req}
  {kept rest : List (LockQueueEntry Req)}

/-- A safe pass from an entry on, given that the rest of the queue is passed
safely from any state. -/
def ContinuesSafely
    (pkt : Req → LockPkt Win)
    (inside : Req → List Req)
    (start : Target Win Req)
    (window : Win)
    (tempEnteredCount : Int)
    (kept rest : List (LockQueueEntry Req)) : Prop :=
  ∀ (target : Target Win Req) (completed : List Req) (pending : Nat)
    (held : Finset Req),
    Scanning pkt start window completed tempEnteredCount pending held target →
    (target.windows window).lockQueue = kept ++ rest →
    PassSafe pkt inside (KeepsOthers pkt start window)
      (target.windows window).currentLockType held pending completed rest →
    PassReaches pkt inside start window tempEnteredCount
      (pending + releasesInside inside rest)
      (releaseScan pkt inside window kept rest target)

variable
    (scanning : Scanning pkt start window completed tempEnteredCount pending
      held target)
    (queue_eq : (target.windows window).lockQueue = kept ++ entry :: rest)
    (ready : entry.Ready)
    (safe : PassSafe pkt inside (KeepsOthers pkt start window)
      (target.windows window).currentLockType held pending completed (entry :: rest))
    (continues : ContinuesSafely pkt inside start window tempEnteredCount kept rest)

include scanning queue_eq ready safe continues

/-- A plain lock is granted. -/
theorem releaseScan_lock
    (notReady : ∀ entry ∈ kept, ¬ entry.Ready)
    (plain : entry.ptSingleOp.map PtSingleOp.type = none) :
    PassReaches pkt inside start window tempEnteredCount
      (pending + releasesInside inside (entry :: rest))
      (releaseScan pkt inside window kept (entry :: rest) target) := by
  rw [PassSafe, if_pos ready, plain] at safe
  obtain ⟨admits, safe⟩ := safe
  obtain ⟨-, -, entryOf⟩ := scanning.queued queue_eq
  have granted := @Scanning.grant _ _ _ _ _ _ _ _ _ _ _ _ _ _ _ scanning
    queue_eq admits .lockGranted .holding
    (by rw [← entryOf.type_eq, plain]; exact .holding) trivial (by simp)
  rw [releaseScan, if_pos ready, tryAcquireWinLock_of_admits admits]
  simp only [serveEntry, map_eq_none_iff.mp plain]
  generalize next_eq : Target.setLockQueue _ window (kept ++ rest) = next
    at granted ⊢
  have nextQueue : (next.windows window).lockQueue = kept ++ rest := by
    simp [← next_eq]
  have nextType : (next.windows window).currentLockType = some entry.lockType := by
    simp [← next_eq]
  cases exclusive : entry.lockType with
  | exclusive =>
    have stops : entry.Stops := ⟨exclusive, .inl (map_eq_none_iff.mp plain)⟩
    rw [if_pos exclusive] at safe
    rw [if_pos stops]
    have passEnd : PassEnd pkt inside start window tempEnteredCount completed
        pending (insert entry.request held) kept rest next := by
      refine ⟨granted, nextQueue, notReady, ?_, ?_⟩
      · intro _ free
        rw [nextType] at free
        simp at free
      · intro waiting
        omega
    apply passEnd.reaches.mono
    rw [releasesInside_cons]
    omega
  | shared =>
    have continuesScan : ¬ entry.Stops := fun stops => by
      simp [LockQueueEntry.Stops, exclusive] at stops
    rw [if_neg (by simp [exclusive])] at safe
    rw [if_neg continuesScan]
    rw [exclusive] at nextType
    apply (continues next completed pending _ granted nextQueue (by rw [nextType]; exact safe)).mono
    rw [releasesInside_cons]
    omega

variable {type : RmaType}

/-- A put or an accumulate is executed. -/
theorem releaseScan_execute
    (type_eq : entry.ptSingleOp.map PtSingleOp.type = some type)
    (notGet : type ≠ .get) :
    PassReaches pkt inside start window tempEnteredCount
      (pending + releasesInside inside (entry :: rest))
      (releaseScan pkt inside window kept (entry :: rest) target) := by
  rw [PassSafe, if_pos ready, type_eq] at safe
  obtain ⟨admits, safe⟩ := safe
  have restSafe : PassSafe pkt inside (KeepsOthers pkt start window)
      (if held = ∅ then none else (target.windows window).currentLockType) held
        pending completed rest := by
    cases type with
    | get => exact absurd rfl notGet
    | put => exact safe
    | accumulate => exact safe
  obtain ⟨executed, lock_eq⟩ := scanning.execute queue_eq admits type_eq notGet
  have continuesScan : ¬ entry.Stops := fun stops => by
    rcases stops.2 with plain | isGet
    · simp [plain] at type_eq
    · rw [type_eq, Option.some.injEq] at isGet
      exact notGet isGet
  rw [releaseScan, if_pos ready, tryAcquireWinLock_of_admits admits]
  simp only [serveEntry_eq_executed inside type_eq notGet, if_neg continuesScan]
  apply (continues _ completed pending held executed
    (by simp [Target.executed]) (by rw [lock_eq]; exact restSafe)).mono
  rw [releasesInside_cons]
  omega

/-- The response to a get is sent. -/
theorem releaseScan_get
    (notReady : ∀ entry ∈ kept, ¬ entry.Ready)
    (isGet : entry.ptSingleOp.map PtSingleOp.type = some .get) :
    PassReaches pkt inside start window tempEnteredCount
      (pending + releasesInside inside (entry :: rest))
      (releaseScan pkt inside window kept (entry :: rest) target) := by
  rw [PassSafe, if_pos ready, isGet] at safe
  obtain ⟨admits, keepsOthers, safe⟩ := safe
  obtain ⟨-, -, entryOf⟩ := scanning.queued queue_eq
  have getOp : (pkt entry.request).singleOp = some .get := by
    rw [← entryOf.type_eq, isGet]
  have granted := @Scanning.grant _ _ _ _ _ _ _ _ _ _ _ _ _ _ _ scanning
    queue_eq admits (.applied .get) .responding
    (by rw [getOp]; exact .responding) trivial (fun _ => getOp)
  have finished := granted.complete keepsOthers
  simp only [Finset.insert_nonempty, true_and] at finished
  obtain ⟨singleOp, singleOp_eq, singleType_eq⟩ := map_eq_some_iff.mp isGet
  have completion := completeEntered_completed pkt
    (((target.setWindow window
      ((target.windows window).acquired entry.lockType)).record
        entry.request (.applied .get)).setPhase entry.request .responding)
    (inside entry.request)
  rw [completeEntered_setLockQueue] at finished
  rw [releaseScan, if_pos ready, tryAcquireWinLock_of_admits admits]
  simp only [serveEntry, singleOp_eq, singleType_eq, doSimpleGet]
  generalize sent_eq : completeEntered pkt _ (inside entry.request) = sent
    at completion finished ⊢
  have nextQueue : ((sent.setLockQueue window (kept ++ rest)).windows
      window).lockQueue = kept ++ rest := by
    simp
  have nextType : ((sent.setLockQueue window (kept ++ rest)).windows
      window).currentLockType = some entry.lockType := by
    simpa using completion.type_eq window
  generalize remaining_eq : heldAfter pkt (insert entry.request held)
    (inside entry.request) = remaining at safe finished
  have emptied_length : remaining = ∅ → 0 < (inside entry.request).length :=
    fun emptied => heldAfter_insert_eq_empty (remaining_eq.trans emptied)
  cases exclusive : entry.lockType with
  | exclusive =>
    have stops : entry.Stops := ⟨exclusive, .inr isGet⟩
    rw [if_pos exclusive] at safe
    rw [if_pos stops]
    have passEnd : PassEnd pkt inside start window tempEnteredCount
        (completed ++ inside entry.request)
        (pending + if remaining = ∅ then 1 else 0) remaining kept rest
        (sent.setLockQueue window (kept ++ rest)) := by
      refine ⟨finished, nextQueue, notReady, ?_, ?_⟩
      · intro _ free
        rw [nextType] at free
        simp at free
      · intro waiting
        by_cases emptied : remaining = ∅
        · rw [if_pos emptied] at safe ⊢
          exact ⟨emptied, safe⟩
        · rw [if_neg emptied] at safe waiting
          omega
    apply passEnd.reaches.mono
    rw [releasesInside_cons]
    split
    · have := emptied_length ‹_›
      omega
    · omega
  | shared =>
    have continuesScan : ¬ entry.Stops := fun stops => by
      simp [LockQueueEntry.Stops, exclusive] at stops
    rw [if_neg (by simp [exclusive])] at safe
    rw [if_neg continuesScan]
    rw [exclusive] at nextType
    have pending_eq : (pending + if remaining = ∅ then 1 else 0) =
        if remaining = ∅ then pending + 1 else pending := by
      split <;> rfl
    apply (continues _ _ _ remaining finished nextQueue
      (by rw [nextType, pending_eq]; exact safe)).mono
    rw [releasesInside_cons]
    split
    · have := emptied_length ‹_›
      omega
    · omega

end

/-- A safe pass comes to its end. Induction on the entries the pointer has yet
to reach. -/
theorem releaseScan_of_passSafe
    (rest : List (LockQueueEntry Req))
    {kept : List (LockQueueEntry Req)}
    (scanning : Scanning pkt start window completed tempEnteredCount pending
      held target)
    (queue_eq : (target.windows window).lockQueue = kept ++ rest)
    (notReady : ∀ entry ∈ kept, ¬ entry.Ready)
    (safe : PassSafe pkt inside (KeepsOthers pkt start window)
      (target.windows window).currentLockType held pending completed rest) :
    PassReaches pkt inside start window tempEnteredCount
      (pending + releasesInside inside rest)
      (releaseScan pkt inside window kept rest target) := by
  induction rest generalizing kept target completed pending held with
  | nil =>
    have passEnd : PassEnd pkt inside start window tempEnteredCount completed
        pending held kept [] target := by
      refine ⟨scanning, queue_eq, notReady, fun _ _ => rfl, ?_⟩
      intro waiting
      have released : held = ∅ := safe.resolve_right (by omega)
      exact ⟨released, .inl rfl⟩
    exact passEnd.reaches
  | cons entry rest ih =>
    by_cases ready : entry.Ready
    · have continues : ContinuesSafely pkt inside start window tempEnteredCount kept rest :=
        fun _ _ _ _ scanning queue_eq safe =>
          ih scanning queue_eq notReady safe
      cases type_eq : entry.ptSingleOp.map PtSingleOp.type with
      | none =>
        exact releaseScan_lock scanning queue_eq ready safe continues notReady type_eq
      | some type =>
        by_cases isGet : type = .get
        · subst isGet
          exact releaseScan_get scanning queue_eq ready safe continues notReady type_eq
        · exact releaseScan_execute scanning queue_eq ready safe continues type_eq isGet
    · rw [releaseScan, if_neg ready]
      rw [PassSafe, if_neg ready] at safe
      have passedOver : ∀ other ∈ kept ++ [entry], ¬ other.Ready := by
        intro other member
        rcases mem_append.mp member with member | member
        · exact notReady other member
        · rw [mem_singleton.mp member]
          exact ready
      apply (ih scanning (by simp [queue_eq]) passedOver safe).mono
      rw [releasesInside_cons]
      omega

end Mpich.Ch3.WinLock
