import Mpich.Foundation.TransitionSystem
import Mpich.Nemesis.Send.Cells

/-!
# The send queue

The five ways to send towards a local destination, and the part of the progress
engine that sends. There is one queue for all destinations, and `active_send` marks
the request whose message has begun. A request is known by the number of the call
it was made for or given to. Functions that fail an assertion return `none`.

An `OnDataAvail` function completes its request or loads the IOV again. What the
completing ones send themselves is sent like calls made right before that step of
the progress engine, or right after the call: the queue is as empty as it is there.
-/

namespace Mpich.Nemesis.Send

variable {Vc Byte : Type*}

/-- Data in memory. -/
structure Piece (Byte : Type*) where
  content : Nat → Byte
  len : Nat

def Piece.iov
    (piece : Piece Byte) : Iov Byte :=
  ⟨.user piece.content, 0, piece.len⟩

def Piece.bytes
    (piece : Piece Byte) : List (Option Byte) :=
  read piece.content 0 piece.len

/-- The IOV that `OnDataAvail` loads: its first element is not empty. -/
structure Load (Byte : Type*) where
  first : Piece Byte
  rest : List (Piece Byte)
  positive : 0 < first.len

def Load.pieces
    (load : Load Byte) : List (Piece Byte) :=
  load.first :: load.rest

/-- `sreq->dev.OnDataAvail` -/
inductive OnDataAvail (Byte : Type*)
  | null
  /-- A function that completes the request. -/
  | final
  /-- `MPIDI_CH3_ReqHandler_SendReloadIOV`, with what it loads and leaves. -/
  | reload (load : Load Byte) (next : OnDataAvail Byte)

/-- The data that `OnDataAvail` supplies. -/
def OnDataAvail.bytes : OnDataAvail Byte → List (Option Byte)
  | null => []
  | final => []
  | reload load next => load.pieces.flatMap Piece.bytes ++ next.bytes

/-- `MPID_Request`, as far as the send path uses it. -/
structure Request (Vc Byte : Type*) where
  vc : Vc
  noncontig : Bool
  pendingPkt : Nat → Byte
  headerSz : Nat
  iov : List (Iov Byte)
  iovOffset : Nat
  iovCount : Nat
  onDataAvail : OnDataAvail Byte
  segment : Nat → Byte
  segmentFirst : Nat
  segmentSize : Nat

/-- A call of the send path. The caller's header is read through a function; a
call that makes its own request comes with what `MPID_Request_create` returns. -/
inductive Call (Vc Byte : Type*)
  | iStartMsg (vc : Vc) (hdr : Nat → Byte) (created : Request Vc Byte)
  | iStartMsgv (vc : Vc) (hdr : Nat → Byte) (data : List (Piece Byte))
      (created : Request Vc Byte)
  | iSend (vc : Vc) (sreq : Request Vc Byte) (hdr : Nat → Byte)
  | iSendv (vc : Vc) (sreq : Request Vc Byte) (hdr : Nat → Byte)
      (data : List (Piece Byte))
  | sendNoncontig (vc : Vc) (sreq : Request Vc Byte) (header : Nat → Byte)
      (hdrSz : Nat)

def Call.vc : Call Vc Byte → Vc
  | iStartMsg vc _ _ => vc
  | iStartMsgv vc _ _ _ => vc
  | iSend vc _ _ => vc
  | iSendv vc _ _ _ => vc
  | sendNoncontig vc _ _ _ => vc

/-- The message of a call: its header and all its data. -/
def Call.message
    (sizes : Sizes) : Call Vc Byte → List (Option Byte)
  | iStartMsg _ hdr _ => read hdr 0 sizes.pkt
  | iStartMsgv _ hdr data _ => read hdr 0 sizes.pkt ++ data.flatMap Piece.bytes
  | iSend _ sreq hdr => read hdr 0 sizes.pkt ++ sreq.onDataAvail.bytes
  | iSendv _ sreq hdr data =>
    read hdr 0 sizes.pkt ++ data.flatMap Piece.bytes ++ sreq.onDataAvail.bytes
  | sendNoncontig _ sreq header hdrSz =>
    sizes.segHeader header hdrSz ++ read sreq.segment 0 sreq.segmentSize

structure State (Vc Byte : Type*) where
  /-- The calls so far. -/
  calls : List (Call Vc Byte)
  /-- The requests, by the number of their call. -/
  requests : Nat → Option (Request Vc Byte)
  sendQ : List Nat
  activeSend : Option Nat
  /-- The packets sent to each destination. -/
  wire : Vc → List (List (Option Byte))
  /-- The requests, as they are completed. -/
  completed : List Nat

/-- The bytes sent to a destination. -/
def State.stream
    (state : State Vc Byte)
    (vc : Vc) : List (Option Byte) :=
  (state.wire vc).flatten

/-- `sreq->dev.pending_pkt = *(MPIDI_CH3_PktGeneric_t *) hdr` -/
def Sizes.copyPkt
    (sizes : Sizes)
    (hdr old : Nat → Byte) : Nat → Byte :=
  fun index => if index < sizes.generic then hdr index else old index

namespace Request

variable (sizes : Sizes) (sreq : Request Vc Byte)

/-- The elements of the IOV that are still to be sent. -/
def entries : List (Iov Byte) :=
  (sreq.iov.drop sreq.iovOffset).take sreq.iovCount

/-- `iov_count > 0 && iov[iov_offset].MPID_IOV_LEN > 0` -/
def ready : Bool :=
  0 < sreq.iovCount && (sreq.iov[sreq.iovOffset]?).any (0 < ·.len)

/-- The request that `OnDataAvail` loads again; `none` when the request completes. -/
def dataAvail : Option (Request Vc Byte) :=
  match sreq.onDataAvail with
  | .null => none
  | .final => none
  | .reload load next =>
    some { sreq with
      iov := load.pieces.map Piece.iov
      iovCount := load.pieces.length
      onDataAvail := next }

/-- A request for a whole message: the header is kept in the request. -/
def keepHeader
    (vc : Vc)
    (hdr : Nat → Byte)
    (data : List (Piece Byte)) : Request Vc Byte :=
  { sreq with
    vc := vc
    noncontig := false
    pendingPkt := sizes.copyPkt hdr sreq.pendingPkt
    iov := ⟨.pendingPkt, 0, sizes.pkt⟩ :: data.map Piece.iov
    iovOffset := 0
    iovCount := data.length + 1 }

/-- A request for the rest of a message. The header is kept in the request when it
has not been sent: `remaining_iov == iov`. -/
def keepRest
    (vc : Vc)
    (hdr : Nat → Byte)
    (iov remaining : List (Iov Byte)) : Request Vc Byte :=
  { sreq with
    vc := vc
    noncontig := false
    pendingPkt :=
      if remaining.length = iov.length then sizes.copyPkt hdr sreq.pendingPkt
      else sreq.pendingPkt
    iov :=
      if remaining.length = iov.length then
        ⟨.pendingPkt, 0, sizes.pkt⟩ :: remaining.tail
      else remaining
    iovOffset := 0
    iovCount := remaining.length }

/-- Where the progress engine leaves the IOV of a request. -/
def leave
    (remaining : List (Iov Byte)) : Request Vc Byte :=
  let index := sreq.iovOffset + (sreq.iovCount - remaining.length)
  { sreq with
    iov := sreq.iov.take index ++ remaining ++ sreq.iov.drop (index + remaining.length)
    iovOffset := index
    iovCount := remaining.length }

end Request

namespace State

variable [DecidableEq Vc] (state : State Vc Byte)

def emit
    (vc : Vc)
    (packets : List (List (Option Byte))) : State Vc Byte :=
  { state with wire := Function.update state.wire vc (state.wire vc ++ packets) }

omit [DecidableEq Vc] in
def put
    (number : Nat)
    (sreq : Request Vc Byte) : State Vc Byte :=
  { state with requests := Function.update state.requests number (some sreq) }

/-- `MPIDI_CH3I_SendQ_enqueue` -/
def enqueue
    (number : Nat)
    (sreq : Request Vc Byte) : State Vc Byte :=
  { state.put number sreq with sendQ := state.sendQ ++ [number] }

/-- A request whose message has begun is enqueued, and becomes active. -/
def enqueueActive
    (number : Nat)
    (sreq : Request Vc Byte) : Option (State Vc Byte) :=
  if state.activeSend.isNone then
    some { state.enqueue number sreq with activeSend := some number }
  else none

/-- `MPIDI_CH3U_Request_complete` -/
def complete
    (number : Nat) : State Vc Byte :=
  { state with completed := state.completed ++ [number] }

/-- `MPIDI_CH3I_SendQ_dequeue`, and `active_send = NULL` -/
def dequeue : State Vc Byte :=
  { state with sendQ := state.sendQ.tail, activeSend := none }

def iStartMsg
    (sizes : Sizes)
    (free : Free)
    (number : Nat)
    (vc : Vc)
    (hdr : Nat → Byte)
    (created : Request Vc Byte) : Option (State Vc Byte) :=
  let sreq := { created.keepHeader sizes vc hdr [] with onDataAvail := .null }
  if state.sendQ.isEmpty then
    match sizes.sendHeader free hdr with
    | some packet => some (state.emit vc [packet])
    | none => some (state.enqueue number sreq)
  else some (state.enqueue number sreq)

def iStartMsgv
    (sizes : Sizes)
    (free : Free)
    (number : Nat)
    (vc : Vc)
    (hdr : Nat → Byte)
    (data : List (Piece Byte))
    (created : Request Vc Byte) : Option (State Vc Byte) :=
  if state.sendQ.isEmpty then
    let iov := ⟨.caller, 0, sizes.pkt⟩ :: data.map Piece.iov
    let sent := sizes.sendvMessage ⟨hdr, created.pendingPkt⟩ free iov
    let state := state.emit vc sent.packets
    if sent.again then
      state.enqueueActive number
        { created.keepRest sizes vc hdr iov sent.iov with onDataAvail := .null }
    else some state
  else
    some (state.enqueue number
      { created.keepHeader sizes vc hdr data with onDataAvail := .null })

/-- When the header has been sent and `OnDataAvail` loads the IOV again, nothing
else is done. -/
def iSend
    (sizes : Sizes)
    (free : Free)
    (number : Nat)
    (vc : Vc)
    (sreq : Request Vc Byte)
    (hdr : Nat → Byte) : Option (State Vc Byte) :=
  if state.sendQ.isEmpty then
    match sizes.sendHeader free hdr with
    | some packet =>
      let state := state.emit vc [packet]
      match sreq.dataAvail with
      | none => some ((state.put number sreq).complete number)
      | some reloaded => some (state.put number reloaded)
    | none => some (state.enqueue number (sreq.keepHeader sizes vc hdr []))
  else some (state.enqueue number (sreq.keepHeader sizes vc hdr []))

def iSendv
    (sizes : Sizes)
    (free : Free)
    (number : Nat)
    (vc : Vc)
    (sreq : Request Vc Byte)
    (hdr : Nat → Byte)
    (data : List (Piece Byte)) : Option (State Vc Byte) :=
  if state.sendQ.isEmpty then
    let iov := ⟨.caller, 0, sizes.pkt⟩ :: data.map Piece.iov
    let sent := sizes.sendvMessage ⟨hdr, sreq.pendingPkt⟩ free iov
    let state := state.emit vc sent.packets
    if sent.again then
      state.enqueueActive number (sreq.keepRest sizes vc hdr iov sent.iov)
    else
      match sreq.dataAvail with
      | none => some ((state.put number sreq).complete number)
      | some reloaded =>
        state.enqueueActive number
          { reloaded with iovOffset := 0, noncontig := false, vc := vc }
  else some (state.enqueue number (sreq.keepHeader sizes vc hdr data))

/-- `MPIDI_CH3I_SendNoncontig` -/
def sendNoncontig
    (sizes : Sizes)
    (free : Free)
    (number : Nat)
    (vc : Vc)
    (sreq : Request Vc Byte)
    (header : Nat → Byte)
    (hdrSz : Nat) : Option (State Vc Byte) :=
  let sreq := { sreq with onDataAvail := .null }
  if state.sendQ.isEmpty then
    if hdrSz ≤ sizes.pkt ∧ sreq.segmentFirst = 0 then
      let sent := sizes.sendSegMessage free header hdrSz
        sreq.segment sreq.segmentFirst sreq.segmentSize
      let sreq := { sreq with segmentFirst := sent.first }
      let state := state.emit vc sent.packets
      if sent.again then
        let sreq := { sreq with noncontig := true, vc := vc }
        if sreq.segmentFirst = 0 then
          some (state.enqueue number
            { sreq with
              pendingPkt := sizes.copyPkt header sreq.pendingPkt
              headerSz := hdrSz })
        else state.enqueueActive number sreq
      else some ((state.put number sreq).complete number)
    else none
  else
    some (state.enqueue number
      { sreq with
        vc := vc
        noncontig := true
        pendingPkt := sizes.copyPkt header sreq.pendingPkt
        headerSz := hdrSz })

/-- `finished sending sreq` -/
def finish
    (number : Nat)
    (sreq : Request Vc Byte) : State Vc Byte :=
  match sreq.dataAvail with
  | none => ((state.put number sreq).complete number).dequeue
  | some reloaded => state.put number reloaded

/-- The progress engine goes on with a message along an IOV: `sent` says how far. -/
def progressIov
    (number : Nat)
    (sreq : Request Vc Byte)
    (sent : Sent Byte) : State Vc Byte :=
  let state := state.emit sreq.vc sent.packets
  if sent.again then state.put number (sreq.leave sent.iov)
  else state.finish number { sreq with iovOffset := 0 }

/-- The progress engine goes on with a message along a segment. -/
def progressSegment
    (number : Nat)
    (sreq : Request Vc Byte)
    (sent : SentSegment Byte) : State Vc Byte :=
  let state := state.emit sreq.vc sent.packets
  let sreq := { sreq with segmentFirst := sent.first }
  if sent.again then state.put number sreq
  else state.finish number sreq

/-- `cont sreq`: the message of the active request has begun. -/
def continueActive
    (sizes : Sizes)
    (free : Free)
    (stack : Nat → Byte)
    (number : Nat)
    (sreq : Request Vc Byte) : Option (State Vc Byte) :=
  if sreq.noncontig then
    some (state.progressSegment number sreq
      (sizes.sendSeg sreq.segment sreq.segmentSize free.cells sreq.segmentFirst))
  else if sreq.ready then
    some (state.progressIov number sreq
      (sizes.sendv ⟨stack, sreq.pendingPkt⟩ free.cells sreq.entries))
  else none

/-- `new sreq`: a request becomes active when its header has been sent. -/
def startHead
    (sizes : Sizes)
    (free : Free)
    (stack : Nat → Byte)
    (number : Nat)
    (sreq : Request Vc Byte) : Option (State Vc Byte) :=
  if sreq.noncontig then
    if sreq.headerSz ≤ sizes.pkt ∧ sreq.segmentFirst = 0 then
      let header := (sizes.sendSegHeader free sreq.pendingPkt sreq.headerSz
        sreq.segment sreq.segmentFirst sreq.segmentSize).1
      let state :=
        if header.again then state else { state with activeSend := some number }
      some (state.progressSegment number sreq
        (sizes.sendSegMessage free sreq.pendingPkt sreq.headerSz
          sreq.segment sreq.segmentFirst sreq.segmentSize))
    else none
  else if sreq.ready && (sreq.entries.head?).any (·.len == sizes.pkt) then
    let header := (sizes.sendvHeader ⟨stack, sreq.pendingPkt⟩ free sreq.entries).1
    let state :=
      if header.again then state else { state with activeSend := some number }
    some (state.progressIov number sreq
      (sizes.sendvMessage ⟨stack, sreq.pendingPkt⟩ free sreq.entries))
  else none

/-- The part of `MPIDI_CH3I_Progress` that sends. What the stack of a caller holds
by now is anything. -/
def progress
    (sizes : Sizes)
    (free : Free)
    (stack : Nat → Byte) : Option (State Vc Byte) :=
  match state.activeSend with
  | some number => do
      let sreq ← state.requests number
      state.continueActive sizes free stack number sreq
  | none =>
    match state.sendQ with
    | [] => some state
    | number :: _ => do
        let sreq ← state.requests number
        state.startHead sizes free stack number sreq

/-- A call of the send path. -/
def call
    (sizes : Sizes)
    (free : Free)
    (call : Call Vc Byte) : Option (State Vc Byte) :=
  let number := state.calls.length
  let state := { state with calls := state.calls ++ [call] }
  match call with
  | .iStartMsg vc hdr created => state.iStartMsg sizes free number vc hdr created
  | .iStartMsgv vc hdr data created =>
    state.iStartMsgv sizes free number vc hdr data created
  | .iSend vc sreq hdr => state.iSend sizes free number vc sreq hdr
  | .iSendv vc sreq hdr data => state.iSendv sizes free number vc sreq hdr data
  | .sendNoncontig vc sreq header hdrSz =>
    state.sendNoncontig sizes free number vc sreq header hdrSz

omit [DecidableEq Vc] in
/-- Nothing has been sent. -/
def start : State Vc Byte where
  calls := []
  requests := fun _ => none
  sendQ := []
  activeSend := none
  wire := fun _ => []
  completed := []

end State

/-- A step: a call, or a turn of the progress engine. -/
inductive Action (Vc Byte : Type*)
  | call (call : Call Vc Byte) (free : Free)
  | progress (free : Free) (stack : Nat → Byte)

/-- What a caller of `MPIDI_CH3I_SendNoncontig` sees to: the header is no longer
than a packet, and the segment is at its beginning. -/
def Call.Proper
    (sizes : Sizes) : Call Vc Byte → Prop
  | sendNoncontig _ sreq _ hdrSz => hdrSz ≤ sizes.pkt ∧ sreq.segmentFirst = 0
  | _ => True

def sending
    [DecidableEq Vc]
    (sizes : Sizes) : TransitionSystem (State Vc Byte) (Action Vc Byte) where
  initial := fun state => state = State.start
  enabled := fun _ action =>
    match action with
    | .call call _ => call.Proper sizes
    | .progress _ _ => True
  step := fun state action =>
    match action with
    | .call call free => state.call sizes free call
    | .progress free stack => state.progress sizes free stack

end Mpich.Nemesis.Send

/-!
## What holds of the send queue

The queue holds the calls from some number on, in order. Of those only the first can
have begun. What has been sent to a destination is the messages of the earlier calls
and the part of the first that is not left.
-/

namespace Mpich.Nemesis.Send

open List

variable {Vc Byte : Type*} [DecidableEq Vc]

/-- The messages to a destination, one after the other. -/
def messagesTo
    (sizes : Sizes)
    (vc : Vc)
    (calls : List (Call Vc Byte)) : List (Option Byte) :=
  calls.flatMap fun call => if call.vc = vc then call.message sizes else []

theorem messagesTo_append
    (sizes : Sizes)
    (vc : Vc)
    (front back : List (Call Vc Byte)) :
    messagesTo sizes vc (front ++ back) = messagesTo sizes vc front ++ messagesTo sizes vc back :=
  flatMap_append

theorem messagesTo_take_succ
    (sizes : Sizes)
    (vc : Vc)
    {calls : List (Call Vc Byte)} {number : Nat} {call : Call Vc Byte}
    (isCall : calls[number]? = some call) :
    messagesTo sizes vc (calls.take (number + 1)) = messagesTo sizes vc (calls.take number) ++
        if call.vc = vc then call.message sizes else [] := by
  rw [take_add_one, isCall, messagesTo_append]
  simp [messagesTo]

omit [DecidableEq Vc] in
/-- An IOV that does not point to the caller's header. -/
theorem bytes_of_kept
    (caller pendingPkt : Nat → Byte)
    {iov : List (Iov Byte)}
    (kept : ∀ entry ∈ iov, entry.buf ≠ .caller) :
    bytes ⟨caller, pendingPkt⟩ iov = bytes ⟨pendingPkt, pendingPkt⟩ iov := by
  apply flatMap_congr
  intro entry member
  unfold Iov.bytes
  cases isBuf : entry.buf with
  | caller => exact absurd isBuf (kept entry member)
  | pendingPkt => rfl
  | user content => rfl

namespace Request

/-- What is left to send of a request whose message has begun, or has not. -/
def rest
    (sizes : Sizes)
    (sreq : Request Vc Byte)
    (begun : Bool) : List (Option Byte) :=
  if sreq.noncontig then
    (if begun then [] else sizes.segHeader sreq.pendingPkt sreq.headerSz) ++
      read sreq.segment sreq.segmentFirst (sreq.segmentSize - sreq.segmentFirst)
  else
    bytes ⟨sreq.pendingPkt, sreq.pendingPkt⟩ sreq.entries ++ sreq.onDataAvail.bytes

/-- A request that the progress engine can go on with. -/
structure Valid
    (sizes : Sizes)
    (sreq : Request Vc Byte)
    (begun : Bool) : Prop where
  inside : sreq.noncontig = false → sreq.iovOffset + sreq.iovCount ≤ sreq.iov.length
  kept : sreq.noncontig = false → ∀ entry ∈ sreq.entries, entry.buf ≠ .caller
  left : sreq.noncontig = false → Ready sreq.entries
  header : sreq.noncontig = false → begun = false →
    ∃ data, sreq.entries = ⟨.pendingPkt, 0, sizes.pkt⟩ :: data
  null : sreq.noncontig = true → sreq.onDataAvail = .null
  segmentHeader : sreq.noncontig = true → begun = false →
    sreq.headerSz ≤ sizes.pkt ∧ sreq.segmentFirst = 0
  segmentLeft : sreq.noncontig = true → begun = true → sreq.segmentFirst < sreq.segmentSize

end Request

namespace State

/-- The invariant; the queue begins with the call of number `head`. -/
structure Invariant
    (sizes : Sizes)
    (state : State Vc Byte)
    (head : Nat) : Prop where
  queue : state.sendQ = range' head (state.calls.length - head)
  head_le : head ≤ state.calls.length
  active : state.activeSend = none ∨ state.activeSend = some head ∧ head < state.calls.length
  waiting : ∀ number call, head ≤ number → state.calls[number]? = some call →
    ∃ sreq, state.requests number = some sreq ∧ sreq.vc = call.vc ∧
      sreq.Valid sizes (state.activeSend == some number) ∧
      (state.activeSend ≠ some number → sreq.rest sizes false = call.message sizes)
  sent : state.activeSend = none → ∀ vc,
    state.stream vc = messagesTo sizes vc (state.calls.take head)
  sending : ∀ sreq, state.activeSend = some head → state.requests head = some sreq →
    ∀ vc, (state.stream vc ++ if sreq.vc = vc then sreq.rest sizes true else []) =
      messagesTo sizes vc (state.calls.take (head + 1))
  earlier : ∀ vc, messagesTo sizes vc (state.calls.take head) <+: state.stream vc
  unused : ∀ number, state.calls.length ≤ number → state.requests number = none
  completed : ∀ number, state.completed.count number =
    if number < head then (state.requests number).toList.length else 0

theorem stream_emit
    (state : State Vc Byte)
    (vc other : Vc)
    (packets : List (List (Option Byte))) :
    (state.emit vc packets).stream other =
      state.stream other ++ if vc = other then packets.flatten else [] := by
  unfold stream emit
  by_cases same : vc = other
  · subst same
    simp
  · rw [if_neg same]
    dsimp only
    rw [Function.update_of_ne (Ne.symm same), append_nil]

theorem stream_prefix_emit
    (state : State Vc Byte)
    (vc other : Vc)
    (packets : List (List (Option Byte))) :
    state.stream other <+: (state.emit vc packets).stream other := by
  rw [stream_emit]
  exact prefix_append _ _

theorem start_invariant (sizes : Sizes) :
    (start : State Vc Byte).Invariant sizes 0 where
  queue := rfl
  head_le := Nat.le_refl _
  active := .inl rfl
  waiting := fun _ _ _ => nofun
  sent := fun _ _ => rfl
  sending := fun _ => nofun
  earlier := fun _ => nil_prefix
  unused := fun _ _ => rfl
  completed := fun _ => rfl

namespace Invariant

variable {sizes : Sizes} {state : State Vc Byte} {head : Nat}

section

variable
    (invariant : state.Invariant sizes head)

include invariant

/-- The queue is empty when every call has been dealt with. -/
theorem head_eq (empty : state.sendQ = []) :
    head = state.calls.length := by
  have queue := invariant.queue
  rw [empty] at queue
  have none := congrArg length queue
  rw [length_nil, length_range'] at none
  have bounded := invariant.head_le
  omega

/-- No request is active when the queue is empty. -/
theorem inactive (empty : state.sendQ = []) :
    state.activeSend = none := by
  have isHead := invariant.head_eq empty
  rcases invariant.active with none | ⟨_, inside⟩
  · exact none
  · omega

/-- The queue begins with the head. -/
theorem head_lt
    {number : Nat} {later : List Nat}
    (isQueue : state.sendQ = number :: later) :
    number = head ∧ head < state.calls.length := by
  have queue := invariant.queue
  rw [isQueue] at queue
  cases isLength : state.calls.length - head with
  | zero =>
    rw [isLength] at queue
    exact absurd queue nofun
  | succ count =>
    rw [isLength, range'_succ] at queue
    exact ⟨(List.cons.inj queue).1, by omega⟩

/-- What has been sent and what is left of the first request in the queue. -/
theorem stream_head (inside : head < state.calls.length) :
    ∃ sreq, state.requests head = some sreq ∧
      sreq.Valid sizes (state.activeSend == some head) ∧ ∀ vc, (state.stream vc ++
          if sreq.vc = vc then sreq.rest sizes (state.activeSend == some head)
          else []) =
        messagesTo sizes vc (state.calls.take (head + 1)) := by
  have isCall : state.calls[head]? = some state.calls[head] := getElem?_eq_getElem inside
  obtain ⟨sreq, isRequest, sameVc, valid, whole⟩ := invariant.waiting head _ (Nat.le_refl _) isCall
  refine ⟨sreq, isRequest, valid, ?_⟩
  intro vc
  rcases invariant.active with none | ⟨active, _⟩
  · have notActive : state.activeSend ≠ some head := by
      rw [none]
      nofun
    rw [beq_false_of_ne notActive, whole notActive, sameVc, invariant.sent none,
      messagesTo_take_succ sizes vc isCall]
  · rw [active, beq_self_eq_true]
    exact invariant.sending sreq active isRequest vc

end

end Mpich.Nemesis.Send.State.Invariant
