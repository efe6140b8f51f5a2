import Mpich.Foundation.TransitionSystem
import Mpich.Nemesis.Fastbox.Link

/-!
# Packets between the processes of a node

For each two processes of a node there is a fastbox in each direction, and each
process has a receive queue and a queue of its free cells, with a cell that is
prefetched. A queue operation and an access to the flag of a fastbox are steps of
their own; the packet in a fastbox or a cell is written and read between them.
-/

namespace Mpich.Nemesis.Fastbox

/-- Where a process is in a send. A header may go through the fastbox. -/
inductive Sending (Proc Cell Content : Type*)
  | idle
  /-- About to test whether the fastbox is locked. -/
  | testFbox (dest : Proc) (payload : Content)
  /-- About to write the fastbox, which is not locked. -/
  | writeFbox (dest : Proc) (payload : Content)
  /-- About to set the flag of the fastbox, into which the packet has been written. -/
  | setFlag (dest : Proc) (packet : Packet Proc Content)
  /-- About to take the prefetched cell, or to test the queue of free cells. -/
  | findCell (dest : Proc) (payload : Content) (first : Bool)
  /-- About to dequeue a free cell. -/
  | dequeueCell (dest : Proc) (payload : Content) (first : Bool)
  /-- About to write the cell. -/
  | writeCell (dest : Proc) (payload : Content) (first : Bool) (el : Cell)
  /-- About to enqueue the cell, into which the packet has been written. -/
  | enqueueCell (dest : Proc) (packet : Packet Proc Content) (el : Cell)
  /-- About to test the queue of free cells, for the next cell. -/
  | testPrefetch
  /-- About to dequeue the next cell. -/
  | prefetch

/-- Where a process is in `MPID_nem_mpich2_test_recv`, or in
`MPID_nem_mpich2_blocking_recv` when `blocking` is set, or with what it received. -/
inductive Receiving (Proc Cell : Type*)
  | idle
  /-- `poll_fboxes`, with the fastboxes that are still to be polled. -/
  | pollFboxes (blocking : Bool) (left : List Proc)
  /-- `MPID_nem_queue_empty` -/
  | testQueue (blocking : Bool)
  /-- `MPID_nem_recv_seqno_matches` -/
  | testSeqno (blocking : Bool)
  /-- `poll_all_fboxes` -/
  | pollAllFboxes (blocking : Bool)
  /-- `MPID_nem_queue_dequeue` -/
  | dequeue
  /-- The packet in a fastbox has been returned. -/
  | hasFbox (source : Proc)
  /-- A cell has been returned. -/
  | hasCell (cell : Cell)

structure State (Proc Cell Content : Type*) where
  /-- `vc_ch->send_seqno`, of the first process for the second. -/
  sendSeqno : Proc → Proc → BitVec 16
  /-- `MPID_nem_recv_seqno`, of the first process for the second. -/
  recvSeqno : Proc → Proc → BitVec 16
  /-- `flag.value` of the fastbox from the first process to the second. -/
  flag : Proc → Proc → Bool
  fbox : Proc → Proc → Packet Proc Content
  /-- What the cells hold. -/
  memory : Cell → Packet Proc Content
  freeQ : Proc → List Cell
  /-- `MPID_nem_prefetched_cell`, unless it is in use. -/
  prefetched : Proc → Option Cell
  recvQ : Proc → List Cell
  sending : Proc → Sending Proc Cell Content
  receiving : Proc → Receiving Proc Cell
  /-- The packets sent from the first process to the second. -/
  sent : Proc → Proc → List (Packet Proc Content)
  /-- The packets from the first process that the second has been returned. -/
  received : Proc → Proc → List (Packet Proc Content)

/-- `MPID_NEM_NUM_CELLS`, at its largest. -/
def numCells : Nat :=
  128

/-- The cells of each process. -/
structure Cells (Proc Cell : Type*) where
  cells : Proc → List Cell
  disjoint : ∀ process other cell, cell ∈ cells process → cell ∈ cells other → process = other
  few : ∀ process, (cells process).length ≤ numCells

inductive Action (Proc Content : Type*)
  /-- `MPID_nem_mpich2_send_header`, `sendv_header` and `send_seg_header`: the fastbox
  is tried when the message fits into it. -/
  | sendHeader (process dest : Proc) (payload : Content) (fits : Bool)
  /-- `MPID_nem_mpich2_sendv` and `send_seg` -/
  | sendMore (process dest : Proc) (payload : Content)
  /-- The process makes its next step in a send. -/
  | send (process : Proc)
  /-- `MPID_nem_mpich2_test_recv` or `blocking_recv`, with the elements of the fastbox
  queue from `MPID_nem_curr_fboxq_elem` on. -/
  | recv (process : Proc) (blocking : Bool) (order : List Proc)
  /-- The process makes its next step in a receive, or releases what it has.
  `MPID_nem_curr_fbox_all_poll` is at `current`; the fastbox queue is as in `recv`. -/
  | advance (process : Proc) (current : Proc) (order : List Proc)

namespace State

variable {Proc Cell Content : Type*} [DecidableEq Proc] [DecidableEq Cell]

/-- An entry of a table for two processes. -/
def update
    {Value : Type*}
    (table : Proc → Proc → Value)
    (first second : Proc)
    (value : Value) : Proc → Proc → Value :=
  Function.update table first (Function.update (table first) second value)

variable (state : State Proc Cell Content)

omit [DecidableEq Cell] in
def goSending
    (process : Proc)
    (place : Sending Proc Cell Content) : State Proc Cell Content :=
  { state with sending := Function.update state.sending process place }

omit [DecidableEq Cell] in
def goReceiving
    (process : Proc)
    (place : Receiving Proc Cell) : State Proc Cell Content :=
  { state with receiving := Function.update state.receiving process place }

/-- The next step of a send; `none` where a queue is dequeued that is empty. -/
def send
    (process : Proc) : Option (State Proc Cell Content) :=
  match state.sending process with
  | .idle => none
  | .testFbox dest payload =>
    some (state.goSending process
      (if state.flag process dest then .findCell dest payload true
      else .writeFbox dest payload))
  | .writeFbox dest payload =>
    let packet := ⟨process, state.sendSeqno process dest, payload, true⟩
    some ({ state with
      fbox := update state.fbox process dest packet
      sendSeqno := update state.sendSeqno process dest
        (state.sendSeqno process dest + 1) }.goSending process (.setFlag dest packet))
  | .setFlag dest packet =>
    some ({ state with
      flag := update state.flag process dest true
      sent := update state.sent process dest
        (state.sent process dest ++ [packet]) }.goSending
      process .idle)
  | .findCell dest payload first =>
    match state.prefetched process with
    | some el =>
      some ({ state with
        prefetched := Function.update state.prefetched process none }.goSending
        process (.writeCell dest payload first el))
    | none =>
      some (state.goSending process
        (if state.freeQ process = [] then .idle
        else .dequeueCell dest payload first))
  | .dequeueCell dest payload first =>
    match state.freeQ process with
    | [] => none
    | el :: rest =>
      some ({ state with
        freeQ := Function.update state.freeQ process rest }.goSending
        process (.writeCell dest payload first el))
  | .writeCell dest payload first el =>
    let packet := ⟨process, state.sendSeqno process dest, payload, first⟩
    some ({ state with
      memory := Function.update state.memory el packet
      sendSeqno := update state.sendSeqno process dest
        (state.sendSeqno process dest + 1) }.goSending
      process (.enqueueCell dest packet el))
  | .enqueueCell dest packet el =>
    some ({ state with
      recvQ := Function.update state.recvQ dest (state.recvQ dest ++ [el])
      sent := update state.sent process dest
        (state.sent process dest ++ [packet]) }.goSending
      process .testPrefetch)
  | .testPrefetch =>
    some (if state.freeQ process = [] then
        { state with
          prefetched := Function.update state.prefetched process none }.goSending
          process .idle
      else state.goSending process .prefetch)
  | .prefetch =>
    match state.freeQ process with
    | [] => none
    | el :: rest =>
      some ({ state with
        freeQ := Function.update state.freeQ process rest
        prefetched := Function.update state.prefetched process (some el) }.goSending
        process .idle)

/-- `fbox->flag.value == 1 && fbox->cell.pkt.mpich2.seqno == MPID_nem_recv_seqno[..]` -/
def matchesFbox
    (process source : Proc) : Bool :=
  state.flag source process && (state.fbox source process).seqno == state.recvSeqno process source

/-- The packet in a fastbox is returned. -/
def takeFbox
    (process source : Proc) : State Proc Cell Content :=
  { state with
    recvSeqno := update state.recvSeqno process source (state.recvSeqno process source + 1)
    received := update state.received source process
      (state.received source process ++ [state.fbox source process]) }.goReceiving
    process (.hasFbox source)

/-- The next step of a receive, or the release of what has been received; `none`
where the queue is dequeued, or its head read, although it is empty. -/
def advance
    (process current : Proc)
    (order : List Proc) : Option (State Proc Cell Content) :=
  match state.receiving process with
  | .idle => none
  | .pollFboxes blocking [] => some (state.goReceiving process (.testQueue blocking))
  | .pollFboxes blocking (source :: left) =>
    some (if state.matchesFbox process source then state.takeFbox process source
      else state.goReceiving process (.pollFboxes blocking left))
  | .testQueue blocking =>
    some (state.goReceiving process
      (if state.recvQ process = [] then .pollAllFboxes blocking
      else .testSeqno blocking))
  | .testSeqno blocking =>
    (state.recvQ process).head?.map fun cell =>
      let packet := state.memory cell
      state.goReceiving process
        (if packet.seqno = state.recvSeqno process packet.source then .dequeue
        else .pollAllFboxes blocking)
  | .pollAllFboxes blocking =>
    some (if state.matchesFbox process current then state.takeFbox process current
      else state.goReceiving process
        (if blocking then .pollFboxes true order else .idle))
  | .dequeue =>
    match state.recvQ process with
    | [] => none
    | cell :: rest =>
      let packet := state.memory cell
      some ({ state with
        recvQ := Function.update state.recvQ process rest
        recvSeqno := update state.recvSeqno process packet.source
          (state.recvSeqno process packet.source + 1)
        received := update state.received packet.source process
          (state.received packet.source process ++ [packet]) }.goReceiving
        process (.hasCell cell))
  | .hasFbox source =>
    some ({ state with flag := update state.flag source process false }.goReceiving process .idle)
  | .hasCell cell =>
    let source := (state.memory cell).source
    some ({ state with
      freeQ := Function.update state.freeQ source
        (state.freeQ source ++ [cell]) }.goReceiving process .idle)

/-- The states in which nothing has been sent. -/
structure Initial
    (setup : Cells Proc Cell)
    (state : State Proc Cell Content) : Prop where
  sendSeqno : ∀ process other, state.sendSeqno process other = 0
  recvSeqno : ∀ process other, state.recvSeqno process other = 0
  flag : ∀ process other, state.flag process other = false
  freeQ : ∀ process, (state.freeQ process).Nodup ∧
    ∀ cell ∈ state.freeQ process, cell ∈ setup.cells process
  prefetched : ∀ process, state.prefetched process = none
  recvQ : ∀ process, state.recvQ process = []
  sending : ∀ process, state.sending process = .idle
  receiving : ∀ process, state.receiving process = .idle
  sent : ∀ process other, state.sent process other = []
  received : ∀ process other, state.received process other = []

end State

section

variable {Proc Cell Content : Type*} [DecidableEq Proc] [DecidableEq Cell]

/-- The node: a process begins a send or a receive when it is not in one, and
receives again after it has released what it received. -/
def node
    (setup : Cells Proc Cell) :
    TransitionSystem (State Proc Cell Content) (Action Proc Content) where
  initial := State.Initial setup
  enabled := fun state action =>
    match action with
    | .sendHeader process _ _ _ => state.sending process = .idle
    | .sendMore process _ _ => state.sending process = .idle
    | .send process => state.sending process ≠ .idle
    | .recv process _ _ => state.receiving process = .idle
    | .advance process _ _ => state.receiving process ≠ .idle
  step := fun state action =>
    match action with
    | .sendHeader process dest payload fits =>
      some (state.goSending process
        (if fits then .testFbox dest payload else .findCell dest payload true))
    | .sendMore process dest payload =>
      some (state.goSending process (.findCell dest payload false))
    | .send process => state.send process
    | .recv process blocking order =>
      some (state.goReceiving process (.pollFboxes blocking order))
    | .advance process current order => state.advance process current order

end

end Mpich.Nemesis.Fastbox
