import Mathlib.Algebra.GroupWithZero.Nat
import Mpich.Foundation.TransitionSystem

/-!
# The passive-target window lock

The target side of passive-target RMA, from `ch3u_handle_recv_pkt.c`,
`ch3u_handle_recv_req.c` and `ch3u_handle_send_req.c`: the packet handlers for
`Lock`, `LockPutUnlock`, `LockGetUnlock` and `LockAccumUnlock`, the handlers
that run when data has arrived or a get response has been sent, and
`MPIDI_CH3I_Release_lock` with its loop through the queue of waiting requests.

A process has any number of windows, and `entered_flag` and `entered_count` are
shared by all of them. Sending a get response from the release loop can complete
send requests at once, and each completion calls `MPIDI_CH3I_Release_lock`
again. Which responses complete there is the choice of the channel: `inside`
lists them for each get that the loop executes.

What has become of a request is recorded in its phase and its history. The data
of the operations is not modelled: an operation is an event of the history.
-/

namespace Mpich.Ch3.WinLock

open Function

/-- The lock types a request can ask for, `MPI_LOCK_SHARED` and
`MPI_LOCK_EXCLUSIVE`. -/
inductive LockType
  | shared
  | exclusive
  deriving DecidableEq, Repr

/-- The single operations, `MPIDI_RMA_PUT`, `MPIDI_RMA_GET` and
`MPIDI_RMA_ACCUMULATE`. -/
inductive RmaType
  | put
  | get
  | accumulate
  deriving DecidableEq, Repr

/-- A request for a lock, as it comes in a packet: `Lock` when there is no
single operation, otherwise `LockPutUnlock`, `LockGetUnlock` or
`LockAccumUnlock`. -/
structure LockPkt (Win : Type*) where
  targetWin : Win
  lockType : LockType
  singleOp : Option RmaType
  deriving DecidableEq, Repr

/-- `MPIDI_PT_single_op`. -/
structure PtSingleOp where
  type : RmaType
  dataRecd : Bool
  deriving DecidableEq, Repr

/-- `MPIDI_Win_lock_queue`. The request stands for the fields that only say
where to answer and what to copy. -/
structure LockQueueEntry (Req : Type*) where
  request : Req
  lockType : LockType
  ptSingleOp : Option PtSingleOp
  deriving DecidableEq, Repr

/-- The fields of a window object that passive-target RMA uses. `MPID_LOCK_NONE`
is `none`. -/
structure WindowState (Req : Type*) where
  currentLockType : Option LockType
  sharedLockRefCnt : Int
  lockQueue : List (LockQueueEntry Req)
  myCounter : Int
  myPtRmaPutsAccs : Int
  deriving DecidableEq, Repr

/-- The window that `MPIDI_Win_create` makes. -/
def WindowState.created {Req : Type*} : WindowState Req where
  currentLockType := none
  sharedLockRefCnt := 0
  lockQueue := []
  myCounter := 0
  myPtRmaPutsAccs := 0

/-- What the target has yet to do for a request. -/
inductive Phase
  /-- The packet has not arrived. -/
  | idle
  /-- An entry of the lock queue. -/
  | queued
  /-- A granted put whose data is being received into the window. -/
  | receiving
  /-- A holder whose last operation is a get, with the response being sent. -/
  | responding
  /-- A granted lock. -/
  | holding
  /-- The lock has been released. -/
  | finished
  deriving DecidableEq, Repr

/-- The phases in which a request holds the lock of its window. -/
def Phase.Holds : Phase → Prop
  | .receiving | .responding | .holding => True
  | .idle | .queued | .finished => False

instance : DecidablePred Phase.Holds := fun phase => by
  cases phase <;> unfold Phase.Holds <;> infer_instance

/-- What the target does for a request that can be seen from outside. -/
inductive Event
  /-- `MPIDI_CH3I_Send_lock_granted_pkt`; for a lock of the target's own
  process, its `MPI_Win_lock` returns. -/
  | lockGranted
  /-- `MPIDI_CH3I_Send_pt_rma_done_pkt`. -/
  | rmaDone
  /-- The data of a put or accumulate is in the window, or the response to a
  get, which carries the data, is handed to the channel. -/
  | applied (type : RmaType)
  deriving DecidableEq, Repr

/-- The state of the target process. -/
@[ext] structure Target (Win Req : Type*) where
  windows : Win → WindowState Req
  enteredFlag : Int
  enteredCount : Int
  phase : Req → Phase
  history : Req → List Event

section

variable {Req : Type*}

/-- `MPIDI_CH3I_Try_acquire_win_lock`; `none` when the lock is not granted. -/
def tryAcquireWinLock
    (win : WindowState Req)
    (requestedLock : LockType) : Option (WindowState Req) :=
  if (requestedLock = .shared ∧ (win.currentLockType = none ∨ win.currentLockType = some .shared)) ∨
      (requestedLock = .exclusive ∧ win.currentLockType = none) then
    some { win with
      currentLockType := some requestedLock
      sharedLockRefCnt :=
        if requestedLock = .shared then
          win.sharedLockRefCnt + 1
        else
          win.sharedLockRefCnt }
  else
    none

/-- Decrement the reference count of a shared lock. -/
def WindowState.decrRefCnt (win : WindowState Req) : WindowState Req :=
  if win.currentLockType = some .shared then
    { win with sharedLockRefCnt := win.sharedLockRefCnt - 1 }
  else
    win

/-- The lock is given up by a put or accumulate executed in the release loop. -/
def WindowState.releaseInPlace (win : WindowState Req) : WindowState Req :=
  if win.decrRefCnt.sharedLockRefCnt = 0 then
    { win.decrRefCnt with currentLockType := none }
  else
    win.decrRefCnt

/-- The release loop tries to execute an entry that is a plain lock request or
whose data has all been received. -/
def LockQueueEntry.Ready (entry : LockQueueEntry Req) : Prop :=
  ∀ singleOp, entry.ptSingleOp = some singleOp → singleOp.dataRecd = true

instance : DecidablePred (@LockQueueEntry.Ready Req) := fun entry =>
  match h : entry.ptSingleOp with
  | none => isTrue (by simp [LockQueueEntry.Ready, h])
  | some singleOp =>
    decidable_of_iff (singleOp.dataRecd = true) (by simp [LockQueueEntry.Ready, h])

/-- The release loop is left after granting an exclusive lock that is not
released in the loop. -/
def LockQueueEntry.Stops (entry : LockQueueEntry Req) : Prop :=
  entry.lockType = .exclusive ∧ (entry.ptSingleOp = none ∨
      entry.ptSingleOp.map PtSingleOp.type = some .get)

instance : DecidablePred (@LockQueueEntry.Stops Req) := fun _ =>
  inferInstanceAs (Decidable (_ ∧ _))

end

section

variable {Win Req : Type*} [DecidableEq Win] [DecidableEq Req]

namespace Target

def setWindow
    (target : Target Win Req)
    (window : Win)
    (win : WindowState Req) : Target Win Req :=
  { target with windows := update target.windows window win }

def setPhase
    (target : Target Win Req)
    (request : Req)
    (phase : Phase) : Target Win Req :=
  { target with phase := update target.phase request phase }

def record
    (target : Target Win Req)
    (request : Req)
    (event : Event) : Target Win Req :=
  { target with
    history := update target.history request
      (target.history request ++ [event]) }

/-- Replace the queue of a window. -/
def setLockQueue
    (target : Target Win Req)
    (window : Win)
    (lockQueue : List (LockQueueEntry Req)) : Target Win Req :=
  target.setWindow window
    { target.windows window with lockQueue := lockQueue }

/-- Append an entry to the queue of a window. -/
def enqueue
    (target : Target Win Req)
    (window : Win)
    (entry : LockQueueEntry Req) : Target Win Req :=
  (target.setLockQueue window
    ((target.windows window).lockQueue ++ [entry])).setPhase
      entry.request .queued

/-- One more put or accumulate has been applied to the window. -/
def countPutAcc
    (target : Target Win Req)
    (window : Win) : Target Win Req :=
  target.setWindow window
    { target.windows window with
      myPtRmaPutsAccs := (target.windows window).myPtRmaPutsAccs + 1 }

/-- The last active-target operation of an origin is complete. -/
def decrCounter
    (target : Target Win Req)
    (window : Win) : Target Win Req :=
  target.setWindow window
    { target.windows window with
      myCounter := (target.windows window).myCounter - 1 }

end Target

/-- `MPIDI_CH3I_Release_lock` when it is called from within its own loop, which
`entered_flag` shows. -/
def releaseLockEntered
    (target : Target Win Req)
    (window : Win) : Target Win Req :=
  let win := (target.windows window).decrRefCnt
  if win.sharedLockRefCnt = 0 then
    { target.setWindow window win with
      enteredCount := target.enteredCount + 1 }
  else
    target.setWindow window win

variable (pkt : Req → LockPkt Win)

/-- `MPIDI_CH3_ReqHandler_GetSendRespComplete` when the response is sent from
within the release loop. -/
def getSendRespCompleteEntered
    (target : Target Win Req)
    (request : Req) : Target Win Req :=
  let window := (pkt request).targetWin
  let target := target.setPhase request .finished
  if (target.windows window).currentLockType = none then
    target.decrCounter window
  else
    releaseLockEntered target window

/-- Send requests complete while the release loop sends a get response. Only a
response in flight can complete. -/
def completeEntered
    (target : Target Win Req)
    (completed : List Req) : Target Win Req :=
  completed.foldl
    (fun target request =>
      if target.phase request = .responding then
        getSendRespCompleteEntered pkt target request
      else
        target)
    target

/-- `do_simple_get`: the response is sent with `iSendv`, which may complete this
request and others before it returns. -/
def doSimpleGet
    (inside : Req → List Req)
    (target : Target Win Req)
    (request : Req) : Target Win Req :=
  completeEntered pkt
    ((target.record request (.applied .get)).setPhase request .responding)
    (inside request)

/-- What the release loop does for an entry that has acquired the lock, before
it removes the entry from the queue. -/
def serveEntry
    (inside : Req → List Req)
    (window : Win)
    (target : Target Win Req)
    (entry : LockQueueEntry Req) : Target Win Req :=
  match entry.ptSingleOp with
  | none =>
    (target.record entry.request .lockGranted).setPhase
      entry.request .holding
  | some singleOp =>
    match singleOp.type with
    | .get => doSimpleGet pkt inside target entry.request
    | type =>
      let target :=
        ((target.record entry.request (.applied type)).countPutAcc
          window).record entry.request .rmaDone
      (target.setWindow window
        (target.windows window).releaseInPlace).setPhase entry.request .finished

/-- One pass of the release loop through the queue: `kept` has been passed over
and the pointer stands at the head of the second list. An entry that is ready
but cannot have the lock does not advance the pointer, so that the pass never
ends: the result is `none`. -/
def releaseScan
    (inside : Req → List Req)
    (window : Win) :
    List (LockQueueEntry Req) → List (LockQueueEntry Req) → Target Win Req → Option (Target Win Req)
  | _, [], target => some target
  | kept, entry :: rest, target =>
    if entry.Ready then
      match tryAcquireWinLock (target.windows window) entry.lockType with
      | none => none
      | some win =>
        let target :=
          (serveEntry pkt inside window
            (target.setWindow window win) entry).setLockQueue window (kept ++ rest)
        if entry.Stops then
          some target
        else
          releaseScan inside window kept rest target
    else
      releaseScan inside window (kept ++ [entry]) rest target

/-- The passes of the release loop, repeated until every release from within has
had one of its own. -/
def releaseLoop
    (inside : Req → List Req)
    (window : Win) :
    Nat → Int → Target Win Req → Option (Target Win Req)
  | 0, _, _ => none
  | fuel + 1, tempEnteredCount, target =>
    let tempEnteredCount :=
      if tempEnteredCount ≠ target.enteredCount then
        tempEnteredCount + 1
      else
        tempEnteredCount
    let target := target.setWindow window
      { target.windows window with currentLockType := none }
    (releaseScan pkt inside window []
        (target.windows window).lockQueue target).bind fun target =>
      if tempEnteredCount ≠ target.enteredCount then
        releaseLoop inside window fuel tempEnteredCount target
      else
        some { target with enteredCount := 0, enteredFlag := 0 }

/-- Enough passes for the releases that can come from within. -/
def releaseFuel
    (inside : Req → List Req)
    (lockQueue : List (LockQueueEntry Req)) : Nat :=
  (lockQueue.map fun entry => (inside entry.request).length).sum + 1

/-- `MPIDI_CH3I_Release_lock`; `none` when it does not return. -/
def releaseLock
    (inside : Req → List Req)
    (target : Target Win Req)
    (window : Win) : Option (Target Win Req) :=
  let win := (target.windows window).decrRefCnt
  let entered := target.setWindow window win
  if win.sharedLockRefCnt = 0 then
    if target.enteredFlag ≠ 0 then
      some { entered with enteredCount := target.enteredCount + 1 }
    else
      releaseLoop pkt inside window (releaseFuel inside win.lockQueue)
        target.enteredCount { entered with enteredFlag := 1 }
  else
    some entered

/-- `MPIDI_CH3_PktHandler_Lock`. -/
def pktHandlerLock
    (target : Target Win Req)
    (request : Req) : Target Win Req :=
  let window := (pkt request).targetWin
  match tryAcquireWinLock (target.windows window) (pkt request).lockType with
  | some win =>
    ((target.setWindow window win).record request .lockGranted).setPhase
      request .holding
  | none =>
    target.enqueue window {
      request := request
      lockType := (pkt request).lockType
      ptSingleOp := none }

/-- `MPIDI_CH3_PktHandler_LockPutUnlock`: the data goes to the window if the
lock is free and to a buffer of the queue entry otherwise. -/
def pktHandlerLockPutUnlock
    (target : Target Win Req)
    (request : Req) : Target Win Req :=
  let window := (pkt request).targetWin
  match tryAcquireWinLock (target.windows window) (pkt request).lockType with
  | some win => (target.setWindow window win).setPhase request .receiving
  | none =>
    target.enqueue window {
      request := request
      lockType := (pkt request).lockType
      ptSingleOp := some { type := .put, dataRecd := false } }

/-- `MPIDI_CH3_PktHandler_LockGetUnlock`. A response that is sent completely
within the handler is the completion of the response as the next step. -/
def pktHandlerLockGetUnlock
    (target : Target Win Req)
    (request : Req) : Target Win Req :=
  let window := (pkt request).targetWin
  match tryAcquireWinLock (target.windows window) (pkt request).lockType with
  | some win =>
    ((target.setWindow window win).record request (.applied .get)).setPhase
      request .responding
  | none =>
    target.enqueue window {
      request := request
      lockType := (pkt request).lockType
      ptSingleOp := some { type := .get, dataRecd := true } }

/-- `MPIDI_CH3_PktHandler_LockAccumUnlock`: the data is received before the lock
is asked for. -/
def pktHandlerLockAccumUnlock
    (target : Target Win Req)
    (request : Req) : Target Win Req :=
  target.enqueue (pkt request).targetWin {
    request := request
    lockType := (pkt request).lockType
    ptSingleOp := some { type := .accumulate, dataRecd := false } }

/-- The handler of the packet a request comes in. -/
def pktHandler
    (target : Target Win Req)
    (request : Req) : Target Win Req :=
  match (pkt request).singleOp with
  | none => pktHandlerLock pkt target request
  | some .put => pktHandlerLockPutUnlock pkt target request
  | some .get => pktHandlerLockGetUnlock pkt target request
  | some .accumulate => pktHandlerLockAccumUnlock pkt target request

/-- `MPIDI_CH3_ReqHandler_PutAccumRespComplete` for the last operation of an
origin: a put with its own lock, or the last put or accumulate under a granted
lock. -/
def putAccumRespComplete
    (inside : Req → List Req)
    (target : Target Win Req)
    (request : Req)
    (singleOpOpt : Bool) : Option (Target Win Req) :=
  let window := (pkt request).targetWin
  let target := target.setPhase request .finished
  if (target.windows window).currentLockType = none then
    some (target.decrCounter window)
  else
    let target := target.countPutAcc window
    let target :=
      if (target.windows window).currentLockType = some .shared ∨ singleOpOpt = true then
        target.record request .rmaDone
      else
        target
    releaseLock pkt inside target window

/-- `MPIDI_CH3_ReqHandler_GetSendRespComplete` for the last operation of an
origin. -/
def getSendRespComplete
    (inside : Req → List Req)
    (target : Target Win Req)
    (request : Req) : Option (Target Win Req) :=
  let window := (pkt request).targetWin
  let target := target.setPhase request .finished
  if (target.windows window).currentLockType = none then
    some (target.decrCounter window)
  else
    releaseLock pkt inside target window

/-- `MPIDI_CH3_ReqHandler_SinglePutAccumComplete`: all the data of a queued put
or accumulate has arrived. The result is `none` when its entry is not in the
queue any more. -/
def singlePutAccumComplete
    (inside : Req → List Req)
    (target : Target Win Req)
    (request : Req) : Option (Target Win Req) :=
  let window := (pkt request).targetWin
  let lockQueue := (target.windows window).lockQueue
  match lockQueue.find? (fun entry => entry.request = request) with
  | none => none
  | some entry =>
    match tryAcquireWinLock (target.windows window) entry.lockType with
    | some win =>
      let type :=
        if entry.ptSingleOp.map PtSingleOp.type = some .put then
          RmaType.put
        else
          .accumulate
      let target :=
        ((((target.setWindow window win).record request
          (.applied type)).countPutAcc window).record request .rmaDone).setPhase request .finished
      releaseLock pkt inside
        (target.setLockQueue window (lockQueue.filter fun entry => entry.request ≠ request))
        window
    | none =>
      some (target.setLockQueue window
        (lockQueue.map fun entry =>
          if entry.request = request then
            { entry with
              ptSingleOp := entry.ptSingleOp.map fun singleOp =>
                { singleOp with dataRecd := true } }
          else
            entry))

/-- How the holder of a granted lock gives it up. -/
inductive UnlockPath
  /-- The data of the origin's last operation, a put or an accumulate, has
  arrived. -/
  | putAccum
  /-- `MPIDI_Win_unlock` in the target's own process. -/
  | ownProcess
  deriving DecidableEq, Repr

/-- What can happen next at the target. -/
inductive LockAction (Req : Type*)
  /-- The packet of a request arrives. -/
  | packet (request : Req)
  /-- `MPIDI_Win_lock` in the target's own process, which polls for the lock,
  has it granted. -/
  | lockOwn (request : Req)
  /-- The data of a put or accumulate has arrived. -/
  | dataArrives (request : Req) (inside : Req → List Req)
  /-- The last operation under a granted lock is a get: its response is handed
  to the channel. -/
  | lastGet (request : Req)
  /-- The response to a get has been sent. -/
  | responseSent (request : Req) (inside : Req → List Req)
  /-- The holder of a granted lock releases it otherwise. -/
  | release (request : Req) (path : UnlockPath) (inside : Req → List Req)

/-- One step of the target. -/
def lockStep
    (target : Target Win Req) :
    LockAction Req → Option (Target Win Req)
  | .packet request => some (pktHandler pkt target request)
  | .lockOwn request =>
    (tryAcquireWinLock (target.windows (pkt request).targetWin)
        (pkt request).lockType).map fun win =>
      ((target.setWindow (pkt request).targetWin win).record request
        .lockGranted).setPhase request .holding
  | .dataArrives request inside =>
    if target.phase request = .receiving then
      putAccumRespComplete pkt inside (target.record request (.applied .put)) request true
    else
      singlePutAccumComplete pkt inside target request
  | .lastGet request => some (target.setPhase request .responding)
  | .responseSent request inside => getSendRespComplete pkt inside target request
  | .release request .putAccum inside =>
    putAccumRespComplete pkt inside target request false
  | .release request .ownProcess inside =>
    releaseLock pkt inside (target.setPhase request .finished) (pkt request).targetWin

/-- The data of a queued put or accumulate is still to arrive. -/
def AwaitsData
    (target : Target Win Req)
    (request : Req) : Prop :=
  ∃ entry ∈ (target.windows (pkt request).targetWin).lockQueue,
    entry.request = request ∧ ¬ entry.Ready

/-- The target process as a transition system. Each request comes in one packet.
Every put and accumulate has data to arrive: an origin does not send an
operation without data. -/
def lockSystem : TransitionSystem (Target Win Req) (LockAction Req) where
  initial := fun target =>
    (∀ window, target.windows window = .created) ∧
      target.enteredFlag = 0 ∧ target.enteredCount = 0 ∧
      (∀ request, target.phase request = .idle) ∧ ∀ request, target.history request = []
  enabled := fun target action =>
    match action with
    | .packet request => target.phase request = .idle
    | .lockOwn request =>
      target.phase request = .idle ∧ (pkt request).singleOp = none ∧
        (tryAcquireWinLock (target.windows (pkt request).targetWin) (pkt request).lockType).isSome
    | .dataArrives request _ =>
      target.phase request = .receiving ∨ AwaitsData pkt target request
    | .lastGet request => target.phase request = .holding
    | .responseSent request _ => target.phase request = .responding
    | .release request _ _ => target.phase request = .holding
  step := lockStep pkt

end

end Mpich.Ch3.WinLock
