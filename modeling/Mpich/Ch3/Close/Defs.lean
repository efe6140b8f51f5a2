import Mpich.Foundation.TransitionSystem
import Mathlib.Data.Fintype.Prod

/-!
# The connection close handshake

The routines of `ch3u_handle_connection.c`: `MPIDI_CH3U_VC_SendClose`,
`MPIDI_CH3_PktHandler_Close` and `MPIDI_CH3U_Handle_connection`. Each returns
`none` where one of its state assertions fails.

A network has any number of connections with two ends each, and every end
belongs to a process, which keeps one count of outstanding close operations for
all its connections. Close packets travel through one queue towards each end.
`MPIDI_CH3_Connection_terminate` is called by the handler; the termination
event reaches `MPIDI_CH3U_Handle_connection` at once or later, depending on the
channel, so it is a step of its own.
-/

namespace Mpich.Ch3.Close

/-- The states of a virtual connection, `MPIDI_VC_State_t`. -/
inductive VcState
  | inactive
  | active
  | localClose
  | remoteClose
  | closeAcked
  deriving DecidableEq, Repr

/-- A close packet, `MPIDI_CH3_Pkt_close_t`. -/
structure ClosePkt where
  ack : Bool
  deriving DecidableEq, Repr

/-- What `MPIDI_CH3U_VC_SendClose` leaves behind. -/
structure SendCloseResult where
  vcState : VcState
  outstandingCloseOps : Int
  closePkt : ClosePkt
  deriving DecidableEq, Repr

/-- `MPIDI_CH3U_VC_SendClose`: initiate a close, or answer the one received. -/
def vcSendClose
    (vcState : VcState)
    (outstandingCloseOps : Int) : Option SendCloseResult :=
  if vcState = .active ∨ vcState = .remoteClose then
    some {
      vcState := if vcState = .active then .localClose else .closeAcked
      outstandingCloseOps := outstandingCloseOps + 1
      closePkt := { ack := if vcState = .active then false else true } }
  else
    none

/-- What `MPIDI_CH3_PktHandler_Close` leaves behind. -/
structure PktHandlerResult where
  vcState : VcState
  /-- The close packets sent back. -/
  responses : List ClosePkt
  /-- Whether `MPIDI_CH3_Connection_terminate` is called. -/
  terminates : Bool
  deriving DecidableEq, Repr

/-- `MPIDI_CH3_PktHandler_Close`: process a close packet when it is received. -/
def pktHandlerClose
    (vcState : VcState)
    (closePkt : ClosePkt) : Option PktHandlerResult :=
  let responses :=
    if vcState = .localClose then [{ ack := true }] else []
  if closePkt.ack = false then
    if vcState = .localClose then
      some { vcState := .closeAcked, responses, terminates := false }
    else if vcState = .active then
      some { vcState := .remoteClose, responses, terminates := false }
    else
      none
  else if vcState = .localClose ∨ vcState = .closeAcked then
    some { vcState := .closeAcked, responses, terminates := true }
  else
    none

/-- `MPIDI_CH3U_Handle_connection` on `MPIDI_VC_EVENT_TERMINATED`: the new
state and count, or `none` for the unhandled connection state error. -/
def handleConnection
    (vcState : VcState)
    (outstandingCloseOps : Int) : Option (VcState × Int) :=
  match vcState with
  | .closeAcked => some (.inactive, outstandingCloseOps - 1)
  | _ => none

/-- The loop condition of `MPIDI_CH3U_VC_WaitForClose`. -/
def vcWaitForCloseContinues (outstandingCloseOps : Int) : Prop :=
  0 < outstandingCloseOps

/-- The two ends of a connection. -/
inductive Side
  | left
  | right
  deriving DecidableEq, Repr

instance : Fintype Side where
  elems := {.left, .right}
  complete := by
    intro side
    cases side <;> simp

/-- The other end. -/
def Side.peer : Side → Side
  | .left => .right
  | .right => .left

/-- One end of one connection. -/
abbrev Endpoint (Conn : Type*) := Conn × Side

/-- The end across the connection. -/
def peer {Conn : Type*} (endpoint : Endpoint Conn) : Endpoint Conn :=
  (endpoint.1, endpoint.2.peer)

@[simp] theorem peer_peer
    {Conn : Type*}
    (endpoint : Endpoint Conn) :
    peer (peer endpoint) = endpoint := by
  rcases endpoint with ⟨conn, side⟩
  cases side <;> rfl

theorem peer_ne
    {Conn : Type*}
    (endpoint : Endpoint Conn) :
    peer endpoint ≠ endpoint := by
  rcases endpoint with ⟨conn, side⟩
  cases side <;> simp [peer, Side.peer]

/-- One end of a connection, with the packets on their way to it. The last two
fields only record what has happened. -/
structure CloseEnd where
  vcState : VcState
  /-- Close packets in flight towards this end, the oldest first. -/
  inbox : List ClosePkt
  /-- `MPIDI_CH3_Connection_terminate` calls whose event is still to come. -/
  terminating : Nat
  /-- Close packets sent by this end so far. -/
  closesSent : Nat
  /-- Termination events handled by this end so far. -/
  terminations : Nat
  deriving DecidableEq, Repr

/-- A connection end before any close. -/
def CloseEnd.connected : CloseEnd where
  vcState := .active
  inbox := []
  terminating := 0
  closesSent := 0
  terminations := 0

/-- All connection ends and the outstanding close operations of each process. -/
structure CloseNet (Proc Conn : Type*) where
  ends : Endpoint Conn → CloseEnd
  outstandingCloseOps : Proc → Int

/-- What can happen next in a network. -/
inductive CloseAction (Conn : Type*)
  /-- The process at this end calls `MPIDI_CH3U_VC_SendClose`. -/
  | sendClose (endpoint : Endpoint Conn)
  /-- The oldest close packet on its way to this end is handled. -/
  | deliver (endpoint : Endpoint Conn)
  /-- The channel reports the termination of the connection to this end. -/
  | terminated (endpoint : Endpoint Conn)

section

variable {Proc Conn : Type*} [DecidableEq Conn]

namespace CloseNet

/-- Change one end and append packets to the queue towards its peer. -/
def update
    (net : CloseNet Proc Conn)
    (endpoint : Endpoint Conn)
    (closeEnd : CloseEnd)
    (sent : List ClosePkt) : Endpoint Conn → CloseEnd :=
  Function.update
    (Function.update net.ends endpoint closeEnd)
    (peer endpoint)
    { net.ends (peer endpoint) with
      inbox := (net.ends (peer endpoint)).inbox ++ sent }

@[simp] theorem update_self
    (net : CloseNet Proc Conn)
    (endpoint : Endpoint Conn)
    (closeEnd : CloseEnd)
    (sent : List ClosePkt) :
    net.update endpoint closeEnd sent endpoint = closeEnd := by
  rw [update, Function.update_of_ne (peer_ne endpoint).symm, Function.update_self]

@[simp] theorem update_peer
    (net : CloseNet Proc Conn)
    (endpoint : Endpoint Conn)
    (closeEnd : CloseEnd)
    (sent : List ClosePkt) :
    net.update endpoint closeEnd sent (peer endpoint) =
      { net.ends (peer endpoint) with
        inbox := (net.ends (peer endpoint)).inbox ++ sent } := by
  rw [update, Function.update_self]

theorem update_of_ne
    (net : CloseNet Proc Conn)
    (endpoint other : Endpoint Conn)
    (closeEnd : CloseEnd)
    (sent : List ClosePkt)
    (different : other ≠ endpoint)
    (notPeer : other ≠ peer endpoint) :
    net.update endpoint closeEnd sent other = net.ends other := by
  rw [update, Function.update_of_ne notPeer, Function.update_of_ne different]

end CloseNet

variable [DecidableEq Proc]

/-- One step of the network. The process at each end is given by `owner`. -/
def closeStep
    (owner : Endpoint Conn → Proc)
    (net : CloseNet Proc Conn) :
    CloseAction Conn → Option (CloseNet Proc Conn)
  | .sendClose endpoint =>
    let vc := net.ends endpoint
    (vcSendClose vc.vcState (net.outstandingCloseOps (owner endpoint))).map
      fun result => {
        ends := net.update endpoint
          { vc with
            vcState := result.vcState
            closesSent := vc.closesSent + 1 }
          [result.closePkt]
        outstandingCloseOps := Function.update net.outstandingCloseOps
          (owner endpoint) result.outstandingCloseOps }
  | .deliver endpoint =>
    let vc := net.ends endpoint
    match vc.inbox with
    | [] => none
    | closePkt :: inbox =>
      (pktHandlerClose vc.vcState closePkt).map fun result => {
        ends := net.update endpoint
          { vc with
            vcState := result.vcState
            inbox := inbox
            terminating := vc.terminating + if result.terminates then 1 else 0
            closesSent := vc.closesSent + result.responses.length }
          result.responses
        outstandingCloseOps := net.outstandingCloseOps }
  | .terminated endpoint =>
    let vc := net.ends endpoint
    (handleConnection vc.vcState
        (net.outstandingCloseOps (owner endpoint))).map fun result => {
      ends := net.update endpoint
        { vc with
          vcState := result.1
          terminating := vc.terminating - 1
          terminations := vc.terminations + 1 }
        []
      outstandingCloseOps := Function.update net.outstandingCloseOps
        (owner endpoint) result.2 }

/-- The close handshake as a transition system. `MPIDI_PG_Close_VCs` calls
`MPIDI_CH3U_VC_SendClose` only for connections that are active or closed
remotely, which is also its documented precondition. -/
def closeSystem (owner : Endpoint Conn → Proc) :
    TransitionSystem (CloseNet Proc Conn) (CloseAction Conn) where
  initial := fun net =>
    (∀ endpoint, net.ends endpoint = .connected) ∧ ∀ process, net.outstandingCloseOps process = 0
  enabled := fun net action =>
    match action with
    | .sendClose endpoint =>
      (net.ends endpoint).vcState = .active ∨ (net.ends endpoint).vcState = .remoteClose
    | .deliver endpoint => (net.ends endpoint).inbox ≠ []
    | .terminated endpoint => 0 < (net.ends endpoint).terminating
  step := closeStep owner

end

end Mpich.Ch3.Close
