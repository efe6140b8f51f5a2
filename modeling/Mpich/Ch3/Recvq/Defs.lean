import Mpich.Foundation.LinkedQueue
import Mpich.Foundation.TransitionSystem

/-!
# The receive queues

The routines of `ch3u_recvq.c` over the posted and the unexpected receive
queue. Both queues are linked through the `dev.next` field of their requests.
That field is kept apart from the others, as a function of its own. A routine
that walks a queue takes a bound on the requests it may visit and returns
`none` when the bound cuts it short.

The routines are called with a source, tag and context id of type `int`, while
a request stores the rank and the context id in 16 bits; the conversions stand
where the source has them.
-/

namespace Mpich.Ch3.Recvq

open LinkedQueue Function

/-- `MPI_ANY_SOURCE`. -/
def anySource : Int32 := -2

/-- `MPI_ANY_TAG`. -/
def anyTag : Int32 := -1

/-- `MPIDI_Message_match`: the envelope of a message, or what a posted receive
asks for. -/
structure MessageMatch where
  tag : Int32
  rank : Int16
  contextId : Int16
  deriving DecidableEq, Repr

/-- The fields of an `MPI_Status`. -/
structure Status where
  source : Int32
  tag : Int32
  count : Int32
  cancelled : Bool
  error : Int32
  deriving DecidableEq, Repr

/-- A receive request, apart from its `dev.next` pointer. -/
structure Request where
  matchInfo : MessageMatch
  senderReqId : Int32
  status : Status
  refCount : Int32
  cc : Int32
  state : UInt32
  cancelPending : Bool
  deriving DecidableEq, Repr

/-- `MPIDI_Request_create_rreq`, applied to an allocated object. The fields it
does not name keep what the object's last use left in them. -/
def createRreq (rreq : Request) : Request :=
  { rreq with
    refCount := 2
    cc := 1
    status := { rreq.status with error := 0, cancelled := false }
    state := 0
    cancelPending := false }

/-- The memory of the requests, and the head and tail of both queues. -/
structure Queues (Req : Type*) where
  request : Req → Request
  next : Req → Option Req
  posted : Ends Req
  unexpected : Ends Req

/-- The test of the loops without wildcards. -/
def exactTest
    (source tag contextId : Int32)
    (info : MessageMatch) : Bool :=
  info.contextId.toInt32 == contextId && info.rank.toInt32 == source && info.tag == tag

/-- The `match` of the loops with wildcards. -/
def wildcardMatch (source tag contextId : Int32) : MessageMatch where
  contextId := contextId.toInt16
  tag := if tag = anyTag then 0 else tag
  rank := if source = anySource then 0 else source.toInt16

/-- The `mask` of the loops with wildcards. -/
def wildcardMask (source tag : Int32) : MessageMatch where
  contextId := -1
  tag := if tag = anyTag then 0 else -1
  rank := if source = anySource then 0 else -1

/-- The test of the loops with wildcards. -/
def maskedTest
    (wanted mask : MessageMatch)
    (info : MessageMatch) : Bool :=
  info.contextId == wanted.contextId &&
    (info.rank &&& mask.rank) == wanted.rank &&
      (info.tag &&& mask.tag) == wanted.tag

/-- The test of the loop over the posted queue. -/
def postedTest
    (arrived : MessageMatch)
    (info : MessageMatch) : Bool :=
  info.contextId == arrived.contextId &&
    (info.rank == arrived.rank || info.rank.toInt32 == anySource) &&
      (info.tag == arrived.tag || info.tag == anyTag)

namespace Queues

variable {Req : Type*}

/-- The search of the unexpected queue that `MPIDI_CH3U_Recvq_FU` and
`MPIDI_CH3U_Recvq_FDU_or_AEP` make, with a loop for each kind of match. -/
def searchUnexpected
    (queues : Queues Req)
    (bound : Nat)
    (source tag contextId : Int32) : Option (Option (Option Req × Req)) :=
  if tag ≠ anyTag ∧ source ≠ anySource then
    findFirst queues.next
      (fun rreq =>
        exactTest source tag contextId (queues.request rreq).matchInfo)
      bound none queues.unexpected.head
  else
    findFirst queues.next
      (fun rreq =>
        maskedTest (wildcardMatch source tag contextId)
          (wildcardMask source tag) (queues.request rreq).matchInfo)
      bound none queues.unexpected.head

/-- `MPIDI_CH3U_Recvq_FU`: whether an unexpected message matches, and the
caller's status, where it has one, with what is known of that message. -/
def recvqFU
    (queues : Queues Req)
    (bound : Nat)
    (source tag contextId : Int32)
    (status : Option Status) : Option (Bool × Option Status) :=
  (queues.searchUnexpected bound source tag contextId).map fun
    | none => (false, status)
    | some (_, rreq) =>
      let known := (queues.request rreq).status
      (true, status.map fun status =>
        -- The error field is left as the caller set it.
        { known with error := status.error })

variable [DecidableEq Req]

/-- Take a request out of the unexpected queue. -/
def unlinkUnexpected
    (queues : Queues Req)
    (prev : Option Req)
    (rreq : Req) : Queues Req :=
  let unlinked := unlink queues.next queues.unexpected prev rreq
  { queues with next := unlinked.1, unexpected := unlinked.2 }

/-- Take a request out of the posted queue. -/
def unlinkPosted
    (queues : Queues Req)
    (prev : Option Req)
    (rreq : Req) : Queues Req :=
  let unlinked := unlink queues.next queues.posted prev rreq
  { queues with next := unlinked.1, posted := unlinked.2 }

/-- Create a request in an allocated object, and put it at the end of the
unexpected queue. -/
def enqueueUnexpected
    (queues : Queues Req)
    (rreq : Req)
    (info : MessageMatch) : Queues Req :=
  let appended := append queues.next queues.unexpected rreq
  { queues with
    request := update queues.request rreq
      { createRreq (queues.request rreq) with matchInfo := info }
    next := appended.1
    unexpected := appended.2 }

/-- Create a request in an allocated object, and put it at the end of the
posted queue. -/
def enqueuePosted
    (queues : Queues Req)
    (rreq : Req)
    (info : MessageMatch) : Queues Req :=
  let appended := append queues.next queues.posted rreq
  { queues with
    request := update queues.request rreq
      { createRreq (queues.request rreq) with matchInfo := info }
    next := appended.1
    posted := appended.2 }

/-- `MPIDI_CH3U_Recvq_FDU`: find a request in the unexpected queue by its
sender's request and its envelope, and dequeue it. The walk does not stop at
the first match. -/
def recvqFDU
    (queues : Queues Req)
    (bound : Nat)
    (sreqId : Int32)
    (info : MessageMatch) : Option (Option Req × Queues Req) :=
  (findLast queues.next
      (fun rreq =>
        (queues.request rreq).senderReqId == sreqId && (queues.request rreq).matchInfo == info)
      bound none none queues.unexpected.head).map fun
    | none => (none, queues)
    | some (prev, rreq) => (some rreq, queues.unlinkUnexpected prev rreq)

/-- `MPIDI_CH3U_Recvq_FDU_or_AEP`: find a request in the unexpected queue and
dequeue it, or allocate a new request and enqueue it in the posted queue.
Yields the request and whether it was found; `allocated` is what the allocator
returns when it is asked. -/
def recvqFDUorAEP
    (queues : Queues Req)
    (bound : Nat)
    (source tag contextId : Int32)
    (allocated : Option Req) : Option (Option Req × Bool × Queues Req) :=
  (queues.searchUnexpected bound source tag contextId).map fun
    | some (prev, rreq) => (some rreq, true, queues.unlinkUnexpected prev rreq)
    | none =>
      match allocated with
      | none => (none, false, queues)
      | some rreq =>
        (some rreq, false, queues.enqueuePosted rreq
          { tag, rank := source.toInt16, contextId := contextId.toInt16 })

/-- `MPIDI_CH3U_Recvq_DP`: dequeue a given request from the posted queue, if
it is there. -/
def recvqDP
    (queues : Queues Req)
    (bound : Nat)
    (rreq : Req) : Option (Bool × Queues Req) :=
  (findFirst queues.next (fun cur => cur == rreq) bound none queues.posted.head).map fun
    | none => (false, queues)
    | some (prev, cur) => (true, queues.unlinkPosted prev cur)

/-- `MPIDI_CH3U_Recvq_FDP_or_AEU`: find a request in the posted queue and
dequeue it, or allocate a new request and enqueue it in the unexpected
queue. -/
def recvqFDPorAEU
    (queues : Queues Req)
    (bound : Nat)
    (arrived : MessageMatch)
    (allocated : Option Req) : Option (Option Req × Bool × Queues Req) :=
  (findFirst queues.next
      (fun rreq => postedTest arrived (queues.request rreq).matchInfo)
      bound none queues.posted.head).map fun
    | some (prev, rreq) => (some rreq, true, queues.unlinkPosted prev rreq)
    | none =>
      match allocated with
      | none => (none, false, queues)
      | some rreq => (some rreq, false, queues.enqueueUnexpected rreq arrived)

end Queues

/-- What one operation did. -/
inductive Event (Req : Type*)
  /-- A receive found no message and was put in the posted queue. -/
  | postedReceive (rreq : Req) (wanted : MessageMatch)
  /-- A receive took an unexpected message. -/
  | matchedReceive (rreq : Req) (wanted : MessageMatch)
  /-- A receive found no message and no memory for a request. -/
  | refusedReceive (wanted : MessageMatch)
  /-- A message was given to a posted receive. -/
  | matchedArrival (rreq : Req) (arrived : MessageMatch)
  /-- A message found no receive and was put in the unexpected queue. -/
  | unexpectedArrival (rreq : Req) (arrived : MessageMatch)
  /-- A message found no receive and no memory for a request. -/
  | refusedArrival (arrived : MessageMatch)
  /-- A probe told whether there is an unexpected message. -/
  | probed (wanted : MessageMatch) (found : Bool)
  /-- A posted receive was cancelled. -/
  | cancelledReceive (rreq : Req)
  /-- A receive to be cancelled was not in the posted queue. -/
  | keptReceive (rreq : Req)
  /-- An unexpected message was cancelled by its sender. -/
  | cancelledSend (rreq : Req) (sent : MessageMatch)
  /-- A message to be cancelled was not in the unexpected queue. -/
  | keptSend (sent : MessageMatch)
  deriving DecidableEq, Repr

/-- A receive asking for `wanted` matches a message with this envelope. -/
def MessageMatch.Accepts (wanted arrived : MessageMatch) : Prop :=
  wanted.contextId = arrived.contextId ∧
    (wanted.rank = arrived.rank ∨ wanted.rank.toInt32 = anySource) ∧
      (wanted.tag = arrived.tag ∨ wanted.tag = anyTag)

instance (wanted arrived : MessageMatch) :
    Decidable (wanted.Accepts arrived) :=
  inferInstanceAs (Decidable (_ ∧ _ ∧ _))

/-- A value of type `int` that a 16-bit field can hold. -/
def Fits16 (value : Int32) : Prop :=
  value.toInt16.toInt32 = value

instance (value : Int32) : Decidable (Fits16 value) :=
  inferInstanceAs (Decidable (_ = _))

section

variable {Req : Type*} [DecidableEq Req]

/-- The requests waiting somewhere, each with its envelope. -/
abbrev Waiting (Req : Type*) := List (Req × MessageMatch)

/-- The requests of a waiting list. -/
def Waiting.requests (waiting : Waiting Req) : List Req :=
  waiting.map Prod.fst

/-- A waiting list without one request. -/
def Waiting.without (waiting : Waiting Req) (rreq : Req) : Waiting Req :=
  waiting.filter fun entry => entry.1 ≠ rreq

/-- The receives that have been posted and neither matched nor cancelled
since, in the order they were posted. -/
def waitingPosted : List (Event Req) → Waiting Req
  | [] => []
  | event :: earlier =>
    match event with
    | .postedReceive rreq wanted => waitingPosted earlier ++ [(rreq, wanted)]
    | .matchedArrival rreq _ | .cancelledReceive rreq =>
      (waitingPosted earlier).without rreq
    | _ => waitingPosted earlier

/-- The messages that have arrived unexpectedly and been neither received nor
cancelled since, in the order they arrived. -/
def waitingUnexpected : List (Event Req) → Waiting Req
  | [] => []
  | event :: earlier =>
    match event with
    | .unexpectedArrival rreq arrived =>
      waitingUnexpected earlier ++ [(rreq, arrived)]
    | .matchedReceive rreq _ | .cancelledSend rreq _ =>
      (waitingUnexpected earlier).without rreq
    | _ => waitingUnexpected earlier

/-- The first message of a waiting list that a receive matches. -/
def Waiting.firstFor
    (waiting : Waiting Req)
    (wanted : MessageMatch) : Option (Req × MessageMatch) :=
  waiting.find? fun entry => wanted.Accepts entry.2

/-- The first receive of a waiting list that matches a message. -/
def Waiting.firstFrom
    (waiting : Waiting Req)
    (arrived : MessageMatch) : Option (Req × MessageMatch) :=
  waiting.find? fun entry => entry.2.Accepts arrived

/-- What must have been the case before an event for it to be right. -/
def Event.Justified
    (earlier : List (Event Req)) : Event Req → Prop
  | .postedReceive rreq wanted =>
    (waitingUnexpected earlier).firstFor wanted = none ∧
      rreq ∉ (waitingPosted earlier).requests ∧ rreq ∉ (waitingUnexpected earlier).requests
  | .matchedReceive rreq wanted =>
    ∃ arrived, (waitingUnexpected earlier).firstFor wanted = some (rreq, arrived)
  | .refusedReceive wanted => (waitingUnexpected earlier).firstFor wanted = none
  | .matchedArrival rreq arrived =>
    ∃ wanted, (waitingPosted earlier).firstFrom arrived = some (rreq, wanted)
  | .unexpectedArrival rreq arrived =>
    (waitingPosted earlier).firstFrom arrived = none ∧
      rreq ∉ (waitingPosted earlier).requests ∧ rreq ∉ (waitingUnexpected earlier).requests
  | .refusedArrival arrived => (waitingPosted earlier).firstFrom arrived = none
  | .probed wanted found =>
    found = ((waitingUnexpected earlier).firstFor wanted).isSome
  | .cancelledReceive rreq => rreq ∈ (waitingPosted earlier).requests
  | .keptReceive rreq => rreq ∉ (waitingPosted earlier).requests
  | .cancelledSend rreq sent => (rreq, sent) ∈ waitingUnexpected earlier
  | .keptSend _ => True

/-- Every event of a history is justified by what came before it. -/
def InOrder : List (Event Req) → Prop
  | [] => True
  | event :: earlier => event.Justified earlier ∧ InOrder earlier

end

/-- The queues of a process, with the request objects in use. The history, the
latest event first, only records what has happened. -/
structure Process (Req : Type*) where
  queues : Queues Req
  inUse : Finset Req
  history : List (Event Req)

/-- What can happen next. -/
inductive Action (Req : Type*)
  /-- A receive is posted. -/
  | receive (source tag contextId : Int32) (allocated : Option Req)
  /-- The envelope of a message arrives. -/
  | arrive (arrived : MessageMatch) (allocated : Option Req)
  /-- The unexpected queue is probed. -/
  | probe (source tag contextId : Int32)
  /-- A receive is cancelled. -/
  | cancelReceive (rreq : Req)
  /-- A send is cancelled by its sender. -/
  | cancelSend (sreqId : Int32) (sent : MessageMatch)
  /-- Another part of the device writes to a request. -/
  | write (rreq : Req) (request : Request) (next : Option Req)
  /-- The last reference to a request is dropped. -/
  | release (rreq : Req)

section

variable {Req : Type*} [DecidableEq Req]

/-- What a receive with these arguments asks for, as its request stores it. -/
def wantedMatch (source tag contextId : Int32) : MessageMatch where
  tag := tag
  rank := source.toInt16
  contextId := contextId.toInt16

/-- One operation. The walks may visit as many requests as there have been
events. -/
def step (process : Process Req) : Action Req → Option (Process Req)
  | .receive source tag contextId allocated =>
    let wanted := wantedMatch source tag contextId
    (process.queues.recvqFDUorAEP process.history.length
        source tag contextId allocated).map fun
      | (none, _, queues) =>
        { process with
          queues
          history := .refusedReceive wanted :: process.history }
      | (some rreq, true, queues) =>
        { process with
          queues
          history := .matchedReceive rreq wanted :: process.history }
      | (some rreq, false, queues) =>
        { queues
          inUse := insert rreq process.inUse
          history := .postedReceive rreq wanted :: process.history }
  | .arrive arrived allocated =>
    (process.queues.recvqFDPorAEU process.history.length
        arrived allocated).map fun
      | (none, _, queues) =>
        { process with
          queues
          history := .refusedArrival arrived :: process.history }
      | (some rreq, true, queues) =>
        { process with
          queues
          history := .matchedArrival rreq arrived :: process.history }
      | (some rreq, false, queues) =>
        { queues
          inUse := insert rreq process.inUse
          history := .unexpectedArrival rreq arrived :: process.history }
  | .probe source tag contextId =>
    (process.queues.recvqFU process.history.length
        source tag contextId none).map fun (found, _) =>
      { process with
        history :=
          .probed (wantedMatch source tag contextId) found ::
            process.history }
  | .cancelReceive rreq =>
    (process.queues.recvqDP process.history.length rreq).map fun
      | (found, queues) =>
        { process with
          queues
          history :=
            (if found then .cancelledReceive rreq else .keptReceive rreq) ::
              process.history }
  | .cancelSend sreqId sent =>
    (process.queues.recvqFDU process.history.length sreqId sent).map fun
      | (some rreq, queues) =>
        { process with
          queues
          history := .cancelledSend rreq sent :: process.history }
      | (none, queues) =>
        { process with
          queues
          history := .keptSend sent :: process.history }
  | .write rreq request next =>
    some { process with
      queues := { process.queues with
        request := update process.queues.request rreq request
        next := update process.queues.next rreq next } }
  | .release rreq => some { process with inUse := process.inUse.erase rreq }

/-- What the callers of the routines promise. A rank and a context id fit the
fields of the packets that carry them. The allocator hands out objects that are
not in use. The device writes neither the envelope nor the `next` pointer of a
request in a queue, and holds a reference to it. -/
def Enabled (process : Process Req) : Action Req → Prop
  | .receive source _ contextId allocated =>
    Fits16 source ∧ Fits16 contextId ∧ ∀ rreq ∈ allocated, rreq ∉ process.inUse
  | .arrive _ allocated => ∀ rreq ∈ allocated, rreq ∉ process.inUse
  | .probe source _ contextId => Fits16 source ∧ Fits16 contextId
  | .cancelReceive _ => True
  | .cancelSend _ _ => True
  | .write rreq request next =>
    rreq ∈ (waitingPosted process.history).requests ++
        (waitingUnexpected process.history).requests →
      request.matchInfo = (process.queues.request rreq).matchInfo ∧ next = process.queues.next rreq
  | .release rreq =>
    rreq ∉ (waitingPosted process.history).requests ++ (waitingUnexpected process.history).requests

/-- The receive queues of a process as a transition system. -/
def recvqSystem : TransitionSystem (Process Req) (Action Req) where
  initial := fun process =>
    process.queues.posted = { head := none, tail := none } ∧
      process.queues.unexpected = { head := none, tail := none } ∧ process.history = []
  enabled := Enabled
  step := step

end

end Mpich.Ch3.Recvq
