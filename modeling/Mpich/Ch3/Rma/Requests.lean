import Mathlib.Algebra.GroupWithZero.Nat
import Mpich.Ch3.Fence.Calls

/-!
# Operations on their way to a window

What happens to the put, get and accumulate packets of one origin at one target:
they arrive in order, the data of one packet are received before the next packet is
handled, and the response to a get is sent later. The data themselves are not part
of the model, only which handler runs when they have arrived.
-/

namespace Mpich.Ch3.Rma

open Fence (RmaType)

/-- An operation of `rma_ops_list`. The data take up `pieces` contiguous pieces at
the target. -/
structure Op where
  type : RmaType
  target : Nat
  /-- `MPIDI_CH3I_DATATYPE_IS_PREDEFINED` of the target's datatype. -/
  predefined : Bool
  /-- The number of bytes of each contiguous piece at the target. -/
  pieces : List Nat
  deriving DecidableEq

/-- What a packet asks for. A put packet whose count is zero only signals. -/
inductive Body
  | op (op : Op)
  | emptyPut
  deriving DecidableEq

/-- The packet is a get packet. -/
def Body.isGet : Body → Bool
  | .op rmaOp => rmaOp.type = .get
  | .emptyPut => false

/-- A packet. `last` stands for a `source_win_handle` that is not null. No field of
the source corresponds to `epoch`, which tells in which epoch the operation was
issued. -/
structure Packet where
  epoch : Nat
  body : Body
  last : Bool
  deriving DecidableEq

/-- `MPID_IOV_LIMIT`. -/
def iovLimit : Nat := 16

/-- `MPIDI_IOV_DENSITY_MIN`. -/
def iovDensityMin : Nat := 16 * 1024

/-- The function in `OnDataAvail` of a request that receives at the target. -/
inductive Handler
  /-- The handler for the description of a derived datatype. -/
  | derivedDTComplete
  | putAccumRespComplete
  /-- `ReloadIOV`, with the pieces that are still to be received. -/
  | reloadIOV (pieces : List Nat)
  /-- The rest of the data passes through a send/receive buffer. The loads of the
  buffer have no effect but to end in `UnpackSRBufComplete`. -/
  | unpackSRBufComplete
  | null
  deriving DecidableEq

/-- `MPIDI_CH3U_Request_load_recv_iov` for data that are not truncated: the handler
that it sets. -/
def loadRecvIov (pieces : List Nat) : Handler :=
  if pieces.length ≤ iovLimit then .null
  else if (pieces.take iovLimit).sum / iovLimit ≥ iovDensityMin then
    .reloadIOV (pieces.drop iovLimit)
  else .unpackSRBufComplete

/-- The handler after the first load for a put or an accumulate, which replaces a
handler that was reset. -/
def firstLoad (pieces : List Nat) : Handler :=
  match loadRecvIov pieces with
  | .null => .putAccumRespComplete
  | handler => handler

/-- What is between an origin and a target. -/
structure Pipe where
  /-- Packets that have been issued and not been handled. -/
  channel : List Packet
  /-- The packet whose data are being received. -/
  receiving : Option (Packet × Handler)
  /-- Gets whose responses the target is sending. -/
  sending : List Packet
  /-- Operations that have been performed at the target: the data of a put or an
  accumulate have been applied, the response to a get has been sent completely.
  The source does not keep it. -/
  finished : List Packet
  /-- The number of the origin's put and accumulate requests that have not been
  sent completely. -/
  sends : Nat
  /-- The number of the origin's get requests that wait for their data. -/
  gets : Nat
  /-- The number of responses that have not arrived completely. -/
  responses : Nat
  deriving DecidableEq

/-- Nothing has been issued yet. -/
def Pipe.create : Pipe where
  channel := []
  receiving := none
  sending := []
  finished := []
  sends := 0
  gets := 0
  responses := 0

/-- What can happen in a pipe after a packet has been issued. -/
inductive Event
  | handle
  | arrive
  | finishSend
  | completeSend
  | receiveResponse
  deriving DecidableEq

namespace Pipe

variable (pipe : Pipe)

/-- `MPIDI_CH3I_Send_rma_msg` or `MPIDI_CH3I_Recv_rma_msg`. -/
def issue (packet : Packet) : Pipe :=
  if packet.body.isGet then
    { pipe with channel := pipe.channel ++ [packet], gets := pipe.gets + 1 }
  else
    { pipe with channel := pipe.channel ++ [packet], sends := pipe.sends + 1 }

/-- The target starts to send the response to a get. -/
def respond (packet : Packet) : Pipe :=
  { pipe with
    receiving := none
    sending := pipe.sending ++ [packet]
    responses := pipe.responses + 1 }

/-- `MPIDI_CH3_ReqHandler_PutAccumRespComplete` has applied the data. -/
def apply (packet : Packet) : Pipe :=
  { pipe with
    receiving := none
    finished := pipe.finished ++ [packet] }

/-- `MPIDI_CH3_PktHandler_Put`, `MPIDI_CH3_PktHandler_Get` or
`MPIDI_CH3_PktHandler_Accumulate` for a packet that has left the channel: the pipe
afterwards, and the packet if its operation is complete. Data that are there already
are an arrival that follows at once. -/
def accept (packet : Packet) : Pipe × Option Packet :=
  match packet.body with
  | .emptyPut => (pipe.apply packet, some packet)
  | .op op =>
    if op.predefined then
      if op.type = .get then (pipe.respond packet, none)
      else ({ pipe with receiving := some (packet, firstLoad op.pieces) }, none)
    else ({ pipe with receiving := some (packet, .derivedDTComplete) }, none)

/-- The next packet is handled once the data of the one before it have arrived. -/
def handle : Option (Pipe × Option Packet) :=
  match pipe.receiving, pipe.channel with
  | none, packet :: channel => some ({ pipe with channel := channel }.accept packet)
  | _, _ => none

/-- The handler of the request that is being received runs. -/
def arrive : Option (Pipe × Option Packet) :=
  match pipe.receiving with
  | none => none
  | some (packet, .derivedDTComplete) =>
    match packet.body with
    | .op op =>
      if op.type = .get then some (pipe.respond packet, none)
      else
        some ({ pipe with receiving := some (packet, firstLoad op.pieces) }, none)
    | .emptyPut => none
  | some (packet, .putAccumRespComplete) => some (pipe.apply packet, some packet)
  | some (packet, .unpackSRBufComplete) => some (pipe.apply packet, some packet)
  | some (packet, .reloadIOV pieces) =>
    some ({ pipe with receiving := some (packet, loadRecvIov pieces) }, none)
  | some (_, .null) =>
    -- The request completes, or an assertion fails, without any effect.
    some ({ pipe with receiving := none }, none)

/-- `MPIDI_CH3_ReqHandler_GetSendRespComplete`. The responses to one origin are sent
in order. -/
def finishSend : Option (Pipe × Option Packet) :=
  match pipe.sending with
  | [] => none
  | packet :: sending =>
    some ({ pipe with
      sending := sending
      finished := pipe.finished ++ [packet] }, some packet)

/-- The effect of an event on a pipe, and the packet whose operation is complete. -/
def step : Event → Option (Pipe × Option Packet)
  | .handle => pipe.handle
  | .arrive => pipe.arrive
  | .finishSend => pipe.finishSend
  | .completeSend =>
    if 0 < pipe.sends then some ({ pipe with sends := pipe.sends - 1 }, none)
    else none
  | .receiveResponse =>
    if 0 < pipe.responses then
      some ({ pipe with
        responses := pipe.responses - 1
        gets := pipe.gets - 1 }, none)
    else none

/-- All requests of the origin are complete. -/
def RequestsDone : Prop :=
  pipe.sends = 0 ∧ pipe.gets = 0

instance : Decidable pipe.RequestsDone :=
  inferInstanceAs (Decidable (_ ∧ _))

end Pipe

/-- The packets for the operations towards one target. `currOpsCnt` of them have
been issued before, and `nopsToProc` is the number of all of them. -/
def packets (epoch nopsToProc : Nat) : Nat → List Op → List Packet
  | _, [] => []
  | currOpsCnt, op :: ops =>
    { epoch := epoch, body := .op op, last := currOpsCnt = nopsToProc - 1 } ::
      packets epoch nopsToProc (currOpsCnt + 1) ops

/-- `nops_to_proc`. -/
def nopsToProc (ops : List Op) (target : Nat) : Nat :=
  ops.countP (·.target = target)

end Mpich.Ch3.Rma
