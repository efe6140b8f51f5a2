import Mpich.Ch3.Close.Defs
import Mathlib.Algebra.BigOperators.Intervals

/-!
# Reference counts of connections and process groups

A process group has a connection for each of its ranks. Communicators name
connections through tables, the VCRTs, which may be shared. A connection that is
used for the first time gets one reference more than it has entries, and its
process group gets one reference; a disconnect that removes the last entry
takes the extra reference away. The connection is then closed if it is open, and
its group is released when the close handshake is over, or at once when there
is nothing to close.

A step is `none` where the code reads or writes a connection of a process group
that has been destroyed, reads an entry that was never filled, or fails an
assertion. `MPIDI_CH3_VC_Destroy` belongs to the channel: in some channels it
reads the connection, in others it does nothing.
-/

namespace Mpich.Ch3.Refcount

open Function

open Close (VcState vcSendClose pktHandlerClose handleConnection)

/-- A connection: its process group and its rank there. -/
abbrev Conn (Group : Type*) :=
  Group × Nat

/-- The fields of an `MPIDI_VC_t`. -/
structure VC where
  refCount : Int
  state : VcState

/-- The reference count of an `MPIDI_PG_t`, and whether it has been freed. -/
structure PG where
  refCount : Int
  destroyed : Bool

/-- An `MPIDI_VCRT_t`. An entry is `none` until it is filled. -/
structure VCRT (Group : Type*) where
  refCount : Int
  vcrTable : List (Option (Conn Group))

/-- The process groups of a process. -/
structure Setup (Group : Type*) where
  size : Group → Nat
  /-- `MPIDI_Process.my_pg` and `MPIDI_Process.my_pg_rank`. -/
  myPg : Group
  myPgRank : Nat
  myRankInGroup : myPgRank < size myPg
  /-- `MPIDI_CH3_VC_Destroy` of the channel reads the connection. -/
  vcDestroyReads : Bool

/-- What a process has, and two records: `kept` says that the connection has
been used and no disconnect has removed its last entry since, `opened` that
some connection of the group has been in use. -/
structure State (Group : Type*) where
  vc : Conn Group → VC
  pg : Group → PG
  vcrt : List (Option (VCRT Group))
  outstandingCloseOps : Int
  kept : Conn Group → Bool
  opened : Group → Bool

variable {Group : Type*} [DecidableEq Group]

/-- The connection of the process to itself. -/
def Setup.myself
    {Group : Type*}
    (setup : Setup Group) : Conn Group :=
  (setup.myPg, setup.myPgRank)

/-- The entries of live tables that name the connection. -/
def liveEntries
    (state : State Group)
    (conn : Conn Group) : Nat :=
  (state.vcrt.map fun table =>
    table.elim 0 fun vcrt => vcrt.vcrTable.count (some conn)).sum

/-- The table behind a handle. -/
def tableAt
    {Group : Type*}
    (state : State Group)
    (handle : Nat) : Option (VCRT Group) :=
  state.vcrt[handle]?.join

def setVc
    (state : State Group)
    (conn : Conn Group)
    (vc : VC) : State Group :=
  { state with vc := update state.vc conn vc }

/-- `MPIDI_PG_add_ref`. -/
def pgAddRef
    (state : State Group)
    (group : Group) : State Group :=
  { state with
    pg := update state.pg group
      { state.pg group with refCount := (state.pg group).refCount + 1 }
    opened := update state.opened group true }

/-- `MPIDI_PG_release_ref`, and `MPIDI_PG_Destroy` when the group is not in use
any more. -/
def pgRelease
    (state : State Group)
    (group : Group) : State Group :=
  let refCount := (state.pg group).refCount - 1
  { state with
    pg := update state.pg group
      { refCount := refCount
        destroyed := if refCount = 0 then true else (state.pg group).destroyed } }

/-- `MPID_VCRT_Create`. -/
def vcrtCreate
    {Group : Type*}
    (state : State Group)
    (size : Nat) : State Group :=
  { state with vcrt := state.vcrt ++ [some ⟨1, List.replicate size none⟩] }

/-- `MPID_VCRT_Add_ref`. -/
def vcrtAddRef
    {Group : Type*}
    (state : State Group)
    (handle : Nat) : Option (State Group) :=
  match tableAt state handle with
  | none => none
  | some vcrt =>
    some { state with
      vcrt := state.vcrt.set handle
        (some { vcrt with refCount := vcrt.refCount + 1 }) }

/-- The connection is put into an entry of a table. -/
def storeEntry
    {Group : Type*}
    (state : State Group)
    (handle slot : Nat)
    (conn : Conn Group) : Option (State Group) :=
  match tableAt state handle with
  | none => none
  | some vcrt =>
    some { state with
      vcrt := state.vcrt.set handle
        (some { vcrt with vcrTable := vcrt.vcrTable.set slot (some conn) }) }

/-- The record of a first use. -/
def keep
    (state : State Group)
    (conn : Conn Group) : State Group :=
  { state with kept := update state.kept conn true }

/-- `MPID_VCR_Dup`, with the assignment to the table entry. -/
def vcrDup
    (state : State Group)
    (origVcr : Conn Group)
    (handle slot : Nat) : Option (State Group) :=
  if (state.pg origVcr.1).destroyed then none
  else
    let vc := state.vc origVcr
    let counted :=
      if vc.refCount = 0 then
        pgAddRef (setVc state origVcr { vc with refCount := 2 }) origVcr.1
      else setVc state origVcr { vc with refCount := vc.refCount + 1 }
    storeEntry (keep counted origVcr) handle slot origVcr

/-- `MPIDI_PG_Dup_vcr`, with the assignment to the table entry. -/
def pgDupVcr
    (state : State Group)
    (pg : Group)
    (rank : Nat)
    (handle slot : Nat) : Option (State Group) :=
  if (state.pg pg).destroyed then none
  else
    let vc := state.vc (pg, rank)
    let first :=
      if vc.refCount = 0 then
        setVc (pgAddRef state pg) (pg, rank) { vc with refCount := vc.refCount + 1 }
      else state
    let vc := first.vc (pg, rank)
    let counted := setVc first (pg, rank) { vc with refCount := vc.refCount + 1 }
    storeEntry (keep counted (pg, rank)) handle slot (pg, rank)

/-- `MPIDI_Comm_get_vc` on an entry of a table. -/
def commGetVc
    (state : State Group)
    (handle slot : Nat) : Option (State Group) :=
  match tableAt state handle with
  | none => none
  | some vcrt =>
    match vcrt.vcrTable[slot]?.join with
    | none => none
    | some conn =>
      let vc := state.vc conn
      if (state.pg conn.1).destroyed then none
      else if vc.state = .inactive then
        some (setVc state conn { vc with state := .active })
      else some state

/-- The connection is in use by nobody: the rest of the loop body of
`MPID_VCRT_Release`. -/
def closeUnused
    (setup : Setup Group)
    (state : State Group)
    (conn : Conn Group) : Option (State Group) :=
  if conn = setup.myself then some (pgRelease state conn.1)
  else
    let vc := state.vc conn
    let closed :=
      if vc.state ≠ .inactive then
        match vcSendClose vc.state state.outstandingCloseOps with
        | none => none
        | some sent =>
          some { setVc state conn { vc with state := sent.vcState } with
            outstandingCloseOps := sent.outstandingCloseOps }
      else some (pgRelease state conn.1)
    match closed with
    | none => none
    | some closed =>
      if setup.vcDestroyReads ∧ (closed.pg conn.1).destroyed then none
      else some closed

/-- One turn of the loop of `MPID_VCRT_Release`; `rest` are the entries that
are still to come. -/
def releaseEntry
    (setup : Setup Group)
    (isDisconnect : Bool)
    (rest : List (Option (Conn Group)))
    (state : State Group)
    (conn : Conn Group) : Option (State Group) :=
  if (state.pg conn.1).destroyed then none
  else
    let vc := state.vc conn
    let inUse := vc.refCount - 1
    let inUse := if isDisconnect ∧ inUse = 1 then inUse - 1 else inUse
    let lastEntry := liveEntries state conn + rest.count (some conn) = 0
    let released :=
      { setVc state conn { vc with refCount := inUse } with
        kept :=
          if isDisconnect ∧ lastEntry then update state.kept conn false
          else state.kept }
    if inUse = 0 then closeUnused setup released conn else some released

/-- The loop of `MPID_VCRT_Release`. -/
def releaseEntries
    (setup : Setup Group)
    (isDisconnect : Bool) :
    List (Option (Conn Group)) → State Group → Option (State Group)
  | [], state => some state
  | none :: _, _ => none
  | some conn :: rest, state =>
    match releaseEntry setup isDisconnect rest state conn with
    | none => none
    | some next => releaseEntries setup isDisconnect rest next

/-- `MPID_VCRT_Release`. -/
def vcrtRelease
    (setup : Setup Group)
    (state : State Group)
    (handle : Nat)
    (isDisconnect : Bool) : Option (State Group) :=
  match tableAt state handle with
  | none => none
  | some vcrt =>
    if vcrt.refCount - 1 ≠ 0 then
      some { state with
        vcrt := state.vcrt.set handle
          (some { vcrt with refCount := vcrt.refCount - 1 }) }
    else
      releaseEntries setup isDisconnect vcrt.vcrTable
        { state with vcrt := state.vcrt.set handle none }

/-- `MPIDI_CH3_PktHandler_Close`. -/
def receiveClose
    (state : State Group)
    (conn : Conn Group)
    (ack : Bool) : Option (State Group) :=
  if (state.pg conn.1).destroyed then none
  else
    match pktHandlerClose (state.vc conn).state ⟨ack⟩ with
    | none => none
    | some handled =>
      some (setVc state conn
        { state.vc conn with state := handled.vcState })

/-- `MPIDI_CH3U_Handle_connection` on `MPIDI_VC_EVENT_TERMINATED`. -/
def terminated
    (state : State Group)
    (conn : Conn Group) : Option (State Group) :=
  if (state.pg conn.1).destroyed then none
  else
    match handleConnection (state.vc conn).state state.outstandingCloseOps with
    | none => none
    | some (vcState, outstandingCloseOps) =>
      let inactive :=
        { setVc state conn { state.vc conn with state := vcState } with
          outstandingCloseOps := outstandingCloseOps }
      if (inactive.vc conn).refCount = 0 then some (pgRelease inactive conn.1)
      else some inactive

/-- What can happen next. -/
inductive Action (Group : Type*)
  | create (size : Nat)
  | addRef (handle : Nat)
  | vcrDup (conn : Conn Group) (handle slot : Nat)
  | pgDupVcr (conn : Conn Group) (handle slot : Nat)
  | getVc (handle slot : Nat)
  | release (handle : Nat) (isDisconnect : Bool)
  | receiveClose (conn : Conn Group) (ack : Bool)
  | terminated (conn : Conn Group)

/-- The response of the process. -/
def step
    (setup : Setup Group)
    (state : State Group) : Action Group → Option (State Group)
  | .create size => some (vcrtCreate state size)
  | .addRef handle => vcrtAddRef state handle
  | .vcrDup conn handle slot => vcrDup state conn handle slot
  | .pgDupVcr conn handle slot => pgDupVcr state conn.1 conn.2 handle slot
  | .getVc handle slot => commGetVc state handle slot
  | .release handle isDisconnect => vcrtRelease setup state handle isDisconnect
  | .receiveClose conn ack => receiveClose state conn ack
  | .terminated conn => terminated state conn

/-- A connection of a known process group goes to an entry that is not yet
filled. -/
def MayFill
    (setup : Setup Group)
    (state : State Group)
    (conn : Conn Group)
    (handle slot : Nat) : Prop :=
  conn.2 < setup.size conn.1 ∧ (state.pg conn.1).destroyed = false ∧
    ∃ vcrt, tableAt state handle = some vcrt ∧ vcrt.vcrTable[slot]? = some none

/-- What the callers and the other processes may do: tables are live where they
are used and full when they are released for the last time, and close packets
and terminations come as the other end of the connection may send them. -/
def Enabled
    (setup : Setup Group)
    (state : State Group) : Action Group → Prop
  | .create _ => True
  | .addRef handle => ∃ vcrt, tableAt state handle = some vcrt
  | .vcrDup conn handle slot => MayFill setup state conn handle slot
  | .pgDupVcr conn handle slot => MayFill setup state conn handle slot
  | .getVc handle slot =>
    ∃ vcrt conn, tableAt state handle = some vcrt ∧ vcrt.vcrTable[slot]? = some (some conn)
  | .release handle _ =>
    ∃ vcrt, tableAt state handle = some vcrt ∧ (vcrt.refCount = 1 → none ∉ vcrt.vcrTable)
  | .receiveClose conn ack =>
    conn ≠ setup.myself ∧ ((state.vc conn).state = .localClose ∨
        if ack then (state.vc conn).state = .closeAcked
        else (state.vc conn).state = .active)
  | .terminated conn => conn ≠ setup.myself ∧ (state.vc conn).state = .closeAcked

/-- The state after `MPID_Init` has created the groups: no connection is in
use, and the group of the process itself has one reference. -/
def Initial
    (setup : Setup Group)
    (state : State Group) : Prop :=
  (∀ conn, state.vc conn = ⟨0, .inactive⟩) ∧ (∀ group, state.pg group =
      ⟨if group = setup.myPg then 1 else 0, false⟩) ∧
    state.vcrt = [] ∧ (∀ conn, state.kept conn = false) ∧ ∀ group, state.opened group = false

/-- The connections and process groups of one process. -/
def system
    (setup : Setup Group) : TransitionSystem (State Group) (Action Group) where
  initial := Initial setup
  enabled := Enabled setup
  step := step setup

/-- A close has been sent and the handshake is not over. -/
def Closing : VcState → Prop
  | .localClose => True
  | .closeAcked => True
  | _ => False

instance : DecidablePred Closing := fun state => by
  cases state <;> unfold Closing <;> infer_instance

/-- The connection is in use or still closing. -/
def Counted
    {Group : Type*}
    (state : State Group)
    (conn : Conn Group) : Prop :=
  state.kept conn = true ∨ Closing (state.vc conn).state

instance
    (state : State Group)
    (conn : Conn Group) : Decidable (Counted state conn) :=
  inferInstanceAs (Decidable (_ ∨ _))

/-- The number of connections of a group that are in use or still closing. -/
def countedIn
    (setup : Setup Group)
    (state : State Group)
    (group : Group) : Nat :=
  ∑ rank ∈ Finset.range (setup.size group), if Counted state (group, rank) then 1 else 0

/-- The counts are exact. The reference that `MPID_Init` takes on the group of
the process itself is one more than the connections give, and that group is
never destroyed. -/
structure Exact
    (setup : Setup Group)
    (state : State Group) : Prop where
  connections : ∀ conn, (state.vc conn).refCount =
    liveEntries state conn + if state.kept conn then 1 else 0
  groups : ∀ group, (state.pg group).refCount =
    countedIn setup state group + if group = setup.myPg then 1 else 0
  destroyed : ∀ group, (state.pg group).destroyed = true ↔
    group ≠ setup.myPg ∧ state.opened group = true ∧ countedIn setup state group = 0

/-- Every step that is offered succeeds: nothing of a destroyed process group
is touched. -/
def Secure
    (setup : Setup Group)
    (state : State Group)
    (condition : Action Group → Prop) : Prop :=
  ∀ action, Enabled setup state action → condition action → (step setup state action).isSome

/-- A release of these entries, as a disconnect, leaves the connection in use
or closing: it is closing, it has other entries or none, or it is open. -/
def Stays
    (state : State Group)
    (entries : List (Option (Conn Group)))
    (conn : Conn Group) : Prop :=
  Closing (state.vc conn).state ∨ state.kept conn = true ∧ (some conn ∉ entries ∨
        entries.count (some conn) < liveEntries state conn ∨ (state.vc conn).state ≠ .inactive)

/-- No connection gets its first entry while it is still closing; and, in a
channel that reads the connection in `MPIDI_CH3_VC_Destroy`, a disconnect does
not take the last connections of another process group when none of them has
to be closed. -/
def Careful
    (setup : Setup Group)
    (state : State Group) : Action Group → Prop
  | .vcrDup conn _ _ => ¬ Closing (state.vc conn).state
  | .pgDupVcr conn _ _ => ¬ Closing (state.vc conn).state
  | .release handle isDisconnect =>
    setup.vcDestroyReads = true → isDisconnect = true →
      ∀ vcrt, tableAt state handle = some vcrt → vcrt.refCount = 1 →
        ∀ conn, some conn ∈ vcrt.vcrTable → conn.1 ≠ setup.myPg →
          ∃ rank < setup.size conn.1, Stays state vcrt.vcrTable (conn.1, rank)
  | _ => True

end Mpich.Ch3.Refcount
