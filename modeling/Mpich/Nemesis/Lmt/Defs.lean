import Mpich.Foundation.TransitionSystem

/-!
# The owner of a copy buffer

Two processes move large messages through a copy buffer in shared memory, one
transfer at a time. A process that finds the buffer without an owner takes it and
writes into `remote_req_id` which of the transfers comes next, under the request
handle of the other process; the other process looks the handle up in its own
queue. The receiver releases the buffer at the end of the transfer. Every access
to the rank of the owner and to `remote_req_id` is a step of its own.
-/

namespace Mpich.Nemesis.Lmt

/-- A message from one of the two processes to the other. Each side has a request
for it, and a number of chunks that it copies. -/
structure Transfer (Handle : Type*) where
  ident : Nat
  sender : Bool
  sendHandle : Handle
  recvHandle : Handle
  sendChunks : Nat
  recvChunks : Nat
  sends : 0 < sendChunks
  receives : 0 < recvChunks

namespace Transfer

variable {Handle : Type*} (transfer : Transfer Handle)

def receiver : Bool :=
  !transfer.sender

/-- The handle of the request that a process has for the transfer. -/
def handle
    (process : Bool) : Handle :=
  if process = transfer.sender then transfer.sendHandle else transfer.recvHandle

end Transfer

/-- Where a process is in `get_next_req` or in the release at the end of
`lmt_shm_recv_progress`. -/
inductive Place (Handle : Type*)
  | idle
  /-- About to compare and swap the rank of the owner. -/
  | cas
  | resetFlags
  | writeReqId
  /-- In the loop that waits for a valid `remote_req_id`. -/
  | waitReqId
  /-- Comparing the queue with `remote_req_id`, which is read for each element. -/
  | search (passed rest : List (Transfer Handle))
  /-- About to write `NO_OWNER`. -/
  | releasing

namespace Place

variable {Handle : Type*}

/-- Between the compare-and-swap and the writing of `remote_req_id`. -/
def Taking : Place Handle → Prop
  | resetFlags | writeReqId => True
  | _ => False

/-- Between a compare-and-swap that failed and the end of the search. -/
def Following : Place Handle → Prop
  | waitReqId | search _ _ => True
  | _ => False

end Place

/-- What a process keeps for the connection. -/
structure Process (Handle : Type*) where
  /-- The CTS packets that it has not handled, the oldest first. -/
  cts : List (Transfer Handle)
  lmtQueue : List (Transfer Handle)
  lmtActive : Option (Transfer Handle)
  /-- The chunks of the active transfer that it has copied; `lmt_buf_num` is the
  remainder by `NUM_BUFS`. -/
  chunk : Nat
  place : Place Handle
  /-- The transfers that it has completed. -/
  finished : List (Transfer Handle)

/-- `NUM_BUFS` -/
def numBufs : Nat := 8

/-- The copy buffer and the two processes. -/
structure State (Handle : Type*) where
  rank : Option Bool
  remoteReqId : Option Handle
  /-- The buffers that are full. -/
  flag : Nat → Bool
  process : Bool → Process Handle
  /-- The transfer for which the owner has written `remote_req_id`. -/
  named : Option (Transfer Handle)
  /-- The transfers that have been started. -/
  started : List (Transfer Handle)

inductive Action (Handle : Type*)
  /-- `MPID_nem_lmt_shm_start_recv`, up to its call of `lmt_shm_progress_vc` -/
  | startRecv (transfer : Transfer Handle)
  /-- `MPID_nem_lmt_shm_start_send`, up to its call of `lmt_shm_progress_vc` -/
  | startSend (process : Bool)
  /-- The process makes its next step in `lmt_shm_progress_vc`. -/
  | advance (process : Bool)

namespace State

variable {Handle : Type*} (state : State Handle)

def put
    (process : Bool)
    (after : Process Handle) : State Handle :=
  { state with process := Function.update state.process process after }

def clearFlags : State Handle :=
  { state with flag := fun _ => false }

def setFlag
    (chunk : Nat)
    (full : Bool) : State Handle :=
  { state with flag := Function.update state.flag (chunk % numBufs) full }

/-- A chunk of `lmt_shm_send_progress`; nothing while the buffer is full. -/
def sendChunk
    (process : Bool)
    (transfer : Transfer Handle) : State Handle :=
  let mine := state.process process
  if state.flag (mine.chunk % numBufs) then state
  else if mine.chunk + 1 < transfer.sendChunks then
    (state.setFlag mine.chunk true).put process
      { mine with chunk := mine.chunk + 1 }
  else
    (state.setFlag mine.chunk true).put process
      { mine with
        lmtActive := none
        finished := mine.finished ++ [transfer] }

/-- A chunk of `lmt_shm_recv_progress`, or the first write of the release. -/
def recvChunk
    (process : Bool)
    (transfer : Transfer Handle) : State Handle :=
  let mine := state.process process
  if mine.chunk = transfer.recvChunks then
    { state.clearFlags.put process { mine with place := .releasing } with
      remoteReqId := none }
  else if state.flag (mine.chunk % numBufs) then
    (state.setFlag mine.chunk false).put process { mine with chunk := mine.chunk + 1 }
  else state

/-- The next step of a process; `none` where it follows a null pointer. -/
def advance
    [DecidableEq Handle]
    (process : Bool) : Option (State Handle) :=
  let mine := state.process process
  match mine.place with
  | .idle =>
    match mine.lmtActive with
    | none => some (state.put process { mine with place := .cas })
    | some transfer =>
      if process = transfer.sender then some (state.sendChunk process transfer)
      else some (state.recvChunk process transfer)
  | .cas =>
    match state.rank with
    | none =>
      some { state.put process { mine with place := .resetFlags } with
        rank := some process }
    | some owner =>
      if owner = process then some (state.put process { mine with place := .idle })
      else some (state.put process { mine with place := .waitReqId })
  | .resetFlags =>
    some (state.clearFlags.put process { mine with place := .writeReqId })
  | .writeReqId =>
    match mine.lmtQueue with
    | [] => none
    | transfer :: rest =>
      some { state.put process { mine with
          lmtQueue := rest
          lmtActive := some transfer
          chunk := 0
          place := .idle } with
        remoteReqId := some (transfer.handle !process)
        named := some transfer }
  | .waitReqId =>
    if state.remoteReqId = none then some state
    else some (state.put process { mine with place := .search [] mine.lmtQueue })
  | .search _ [] => some (state.put process { mine with place := .idle })
  | .search passed (transfer :: rest) =>
    if state.remoteReqId = some (transfer.handle process) then
      some (state.put process { mine with
        lmtQueue := passed ++ rest
        lmtActive := some transfer
        chunk := 0
        place := .idle })
    else
      some (state.put process { mine with place := .search (passed ++ [transfer]) rest })
  | .releasing =>
    match mine.lmtActive with
    | none => none
    | some transfer =>
      some { state.put process { mine with
          lmtActive := none
          place := .idle
          finished := mine.finished ++ [transfer] } with
        rank := none
        named := none }

end State

variable {Handle : Type*}

/-- A process starts transfers between its other calls. It makes progress on a
connection that has a transfer. -/
def enabled
    (state : State Handle) : Action Handle → Prop
  | .startRecv transfer =>
    (state.process transfer.receiver).place = .idle ∧ transfer ∉ state.started
  | .startSend process =>
    (state.process process).place = .idle ∧ (state.process process).cts ≠ []
  | .advance process =>
    (state.process process).place = .idle → (state.process process).lmtActive = none →
        (state.process process).lmtQueue ≠ []

def step
    [DecidableEq Handle]
    (state : State Handle) : Action Handle → Option (State Handle)
  | .startRecv transfer =>
    let mine := state.process transfer.receiver
    let other := state.process transfer.sender
    some { (state.put transfer.receiver
        { mine with lmtQueue := mine.lmtQueue ++ [transfer] }).put transfer.sender
        { other with cts := other.cts ++ [transfer] } with
      started := state.started ++ [transfer] }
  | .startSend process =>
    let mine := state.process process
    match mine.cts with
    | [] => none
    | transfer :: rest =>
      some (state.put process { mine with
        cts := rest
        lmtQueue := mine.lmtQueue ++ [transfer] })
  | .advance process => state.advance process

/-- A copy buffer without an owner, and no transfer. -/
def Initial
    (state : State Handle) : Prop :=
  state.rank = none ∧ state.remoteReqId = none ∧ state.started = [] ∧
    ∀ process, (state.process process).cts = [] ∧
      (state.process process).lmtQueue = [] ∧ (state.process process).lmtActive = none ∧
      (state.process process).place = .idle ∧ (state.process process).finished = []

/-- Two processes that share a copy buffer. -/
def system
    [DecidableEq Handle] :
    TransitionSystem (State Handle) (Action Handle) where
  initial := Initial
  enabled := enabled
  step := step

/-- The owner of the copy buffer is known to both sides. -/
structure Sound
    (state : State Handle) : Prop where
  /-- A process that has taken the buffer is its only owner. -/
  owner : ∀ process, (state.process process).place.Taking → state.rank = some process
  /-- Both sides move the same transfer. -/
  together : ∀ process mine other, (state.process process).lmtActive = some mine →
      (state.process !process).lmtActive = some other → mine = other
  /-- The assertion of both progress functions: `remote_req_id` names the active
  transfer from the side that does not own the buffer. -/
  named : ∀ process transfer, (state.process process).lmtActive = some transfer →
    (state.process process).place = .idle → state.rank = some process ∧
          state.remoteReqId = some (transfer.handle !process) ∨
        state.rank = some !process ∧ state.remoteReqId = some (transfer.handle process)
  /-- While a process waits for a valid `remote_req_id`, the owner is about to
  write it. -/
  waits : ∀ process, (state.process process).place = .waitReqId → state.remoteReqId = none →
      state.rank = some !process ∧ (state.process !process).place.Taking

/-- No step goes wrong: a compare-and-swap does not fall between the two writes of
a release, a release does not begin while the other side waits for a valid
`remote_req_id`, a search finds a handle at no other transfer than the owner wrote
it for, and no receiver has fewer chunks than the sender. -/
def Careful
    (state : State Handle) : Action Handle → Prop
  | .startRecv transfer => transfer.sendChunks ≤ transfer.recvChunks
  | .startSend _ => True
  | .advance process =>
    let mine := state.process process
    let other := state.process !process
    (mine.place = .cas → other.place ≠ .releasing) ∧
      (∀ transfer, mine.place = .idle → mine.lmtActive = some transfer →
        transfer.receiver = process → mine.chunk = transfer.recvChunks → other.place ≠ .waitReqId) ∧
      ∀ passed transfer rest, mine.place = .search passed (transfer :: rest) →
        state.remoteReqId = some (transfer.handle process) → state.named = some transfer

end Mpich.Nemesis.Lmt
