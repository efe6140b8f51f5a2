import Mathlib.Algebra.GroupWithZero.Nat
import Mathlib.Data.List.Basic

/-!
# Reassembling packets from buffers

`MPID_nem_handle_pkt` gets the byte stream of a connection in buffers. A stream is
a sequence of packet headers, each with the data that its request asks for through
its IOV; `OnDataAvail` may load the IOV again. What the packet handlers and
`OnDataAvail` make of the bytes is a parameter. The state keeps a log of the
headers dispatched and of the bytes stored.
-/

namespace Mpich.Nemesis.HandlePkt

variable {Byte Req : Type*}

/-- An element of an IOV. -/
structure Iov where
  base : Nat
  len : Nat

/-- The elements of an IOV as `OnDataAvail` loads it: the first one is not empty. -/
structure Load where
  first : Iov
  rest : List Iov
  positive : 0 < first.len

def Load.iov
    (load : Load) : List Iov :=
  load.first :: load.rest

/-- What a connection does with its bytes. -/
inductive Event (Byte : Type*)
  /-- The handler of the packet type is called. -/
  | header (packet : List Byte)
  /-- A byte is stored through an IOV. -/
  | stored (address : Nat) (byte : Byte)

/-- The bytes stored through one element, from its base on. -/
def storesFrom : Nat → List Byte → List (Event Byte)
  | _, [] => []
  | address, byte :: rest => .stored address byte :: storesFrom (address + 1) rest

/-- The bytes stored through the elements of an IOV. -/
def stores : List Iov → List Byte → List (Event Byte)
  | [], _ => []
  | iov :: rest, bytes =>
    storesFrom iov.base (bytes.take iov.len) ++ stores rest (bytes.drop iov.len)

def size
    (iov : List Iov) : Nat :=
  (iov.map Iov.len).sum

/-- The packet handlers and `OnDataAvail`. -/
structure Handlers (Byte Req : Type*) where
  /-- `sizeof (MPIDI_CH3_Pkt_t)` -/
  pktSize : Nat
  pktSize_pos : 0 < pktSize
  /-- The request of a packet, with its IOV; `none` for a packet without data. -/
  dispatch : List Byte → Option (Req × Load)
  /-- What follows when the IOV has been filled with these bytes; `none` when the
  request is complete. -/
  onDataAvail : Req → List Byte → Option (Req × Load)
  /-- How many times the handler itself fills an IOV when it sees these bytes
  behind the header. -/
  ahead : List Byte → List Byte → Nat

/-- `MPID_Request`, as far as the channel uses it. -/
structure Request (Byte Req : Type*) where
  req : Req
  iov : List Iov
  iovOffset : Nat
  iovCount : Nat
  /-- What has been stored through the IOV since it was loaded. -/
  received : List Byte

/-- A new request, or one that has been reloaded: the offset is the channel's. -/
def Request.load
    (req : Req)
    (load : Load)
    (iovOffset : Nat) : Request Byte Req where
  req := req
  iov := load.iov
  iovOffset := iovOffset
  iovCount := load.iov.length
  received := []

/-- The elements that are still to be filled. -/
def Request.entries
    (request : Request Byte Req) : List Iov :=
  (request.iov.drop request.iovOffset).take request.iovCount

/-- `iov_count > 0 && iov[iov_offset].MPID_IOV_LEN > 0` -/
def Request.ready
    (request : Request Byte Req) : Bool :=
  0 < request.iovCount && (request.iov[request.iovOffset]?).any (0 < ·.len)

structure State (Byte Req : Type*) where
  recvActive : Option (Request Byte Req)
  /-- `pending_pkt`, of which `pending_pkt_len` bytes have arrived. -/
  pendingPkt : List Byte
  log : List (Event Byte)

namespace Handlers

variable (handlers : Handlers Byte Req)

/-- A handler fills IOVs from the bytes behind the header: what it does, how many
bytes it uses, and the request that it leaves. -/
def fill : Nat → Req → Load → List Byte → List (Event Byte) × Nat × Option (Req × Load)
  | 0, req, load, _ => ([], 0, some (req, load))
  | times + 1, req, load, buf =>
    let len := size load.iov
    if len ≤ buf.length then
      let events := stores load.iov (buf.take len)
      match handlers.onDataAvail req (buf.take len) with
      | none => (events, len, none)
      | some (next, reloaded) =>
        let later := fill times next reloaded (buf.drop len)
        (events ++ later.1, len + later.2.1, later.2.2)
    else ([], 0, some (req, load))

/-- `pktArray[pkt->type] (vc, pkt, &len, &rreq)` -/
def handler
    (packet buf : List Byte) : List (Event Byte) × Nat × Option (Req × Load) :=
  match handlers.dispatch packet with
  | none => ([.header packet], handlers.pktSize, none)
  | some (req, load) =>
    let filled := handlers.fill (handlers.ahead packet buf) req load buf
    (.header packet :: filled.1, handlers.pktSize + filled.2.1, filled.2.2)

/-- The loop over new whole messages; `none` when the fuel does not suffice. -/
def fastPath : Nat → List (Event Byte) → List Byte →
    Option (List (Event Byte) × List Byte × Option (Req × Load))
  | 0, _, _ => none
  | fuel + 1, log, buf =>
    let (events, len, rreq) :=
      handlers.handler (buf.take handlers.pktSize) (buf.drop handlers.pktSize)
    let log := log ++ events
    let buf := buf.drop len
    if rreq.isNone ∧ handlers.pktSize ≤ buf.length then fastPath fuel log buf
    else some (log, buf, rreq)

/-- `while (n_iov && buflen >= iov->MPID_IOV_LEN)`: the elements and the bytes that
are left. -/
def copyWhole : List Iov → List Byte → List Iov × List Byte
  | [], buf => ([], buf)
  | iov :: rest, buf =>
    if iov.len ≤ buf.length then copyWhole rest (buf.drop iov.len)
    else (iov :: rest, buf)

/-- `while (buflen && !complete)`: the request that stays active, if it is not
complete; `none` when an assertion fails or the fuel does not suffice. -/
def copyLoop : Nat → List (Event Byte) → Request Byte Req → List Byte →
    Option (List (Event Byte) × List Byte × Option (Request Byte Req))
  | _, log, request, [] => some (log, [], some request)
  | 0, _, _, _ :: _ => none
  | fuel + 1, log, request, byte :: later =>
    let buf := byte :: later
    let (entries, left) := copyWhole request.entries buf
    let copied := buf.take (buf.length - left.length)
    match entries with
    | iov :: rest =>
      -- the element that is left gets the rest of the buffer
      let index := request.iovOffset + (request.iovCount - (iov :: rest).length)
      copyLoop fuel (log ++ stores request.entries buf)
        { request with
          iov := request.iov.set index
            ⟨iov.base + left.length, iov.len - left.length⟩
          iovOffset := index
          iovCount := (iov :: rest).length
          received := request.received ++ buf } []
    | [] =>
      let log := log ++ stores request.entries copied
      match handlers.onDataAvail request.req (request.received ++ copied) with
      | none => some (log, left, none)
      | some (req, load) =>
        let request := { Request.load req load request.iovOffset with
          iovOffset := 0 }
        if request.ready then copyLoop fuel log request left else none

/-- The second half of the loop: copy data into the IOV of the request. The result
is the rest of the buffer, which is empty where the source leaves the function. -/
def copyData
    (state : State Byte Req)
    (request : Request Byte Req)
    (buf : List Byte) : Option (State Byte Req × List Byte) :=
  if request.ready then
    if buf = [] then some ({ state with recvActive := some request }, [])
    else
      (handlers.copyLoop buf.length state.log request buf).map fun (log, left, active) =>
        ({ state with recvActive := active, log := log }, left)
  else none

/-- Header fragments are collected in `pending_pkt`. -/
def collect
    (state : State Byte Req)
    (buf : List Byte) : Option (State Byte Req × List Byte) :=
  let copylen :=
    if state.pendingPkt.length + buf.length ≤ handlers.pktSize then buf.length
    else handlers.pktSize - state.pendingPkt.length
  let pendingPkt := state.pendingPkt ++ buf.take copylen
  if pendingPkt.length < handlers.pktSize then
    some ({ state with pendingPkt := pendingPkt }, [])
  else
    let (events, len, rreq) := handlers.handler pendingPkt []
    let state := { state with pendingPkt := [], log := state.log ++ events }
    if len = handlers.pktSize then
      match rreq with
      | none => some (state, buf.drop copylen)
      | some (req, load) =>
        handlers.copyData state { Request.load req load 0 with iovOffset := 0 } (buf.drop copylen)
    else none

/-- The body of the loop of `MPID_nem_handle_pkt`; `none` when an assertion
fails. -/
def handleOnce
    (state : State Byte Req)
    (buf : List Byte) : Option (State Byte Req × List Byte) :=
  if state.recvActive.isNone ∧ state.pendingPkt = [] ∧ handlers.pktSize ≤ buf.length then
    match handlers.fastPath buf.length state.log buf with
    | none => none
    | some (log, left, none) => some ({ state with log := log }, left)
    | some (log, left, some (req, load)) =>
      handlers.copyData { state with log := log }
        { Request.load req load 0 with iovOffset := 0 } left
  else
    match state.recvActive with
    | some request =>
      if state.pendingPkt = [] then handlers.copyData state request buf else none
    | none => handlers.collect state buf

/-- `do … while (buflen)` -/
def handleLoop : Nat → State Byte Req → List Byte → Option (State Byte Req)
  | 0, _, _ => none
  | fuel + 1, state, buf =>
    match handlers.handleOnce state buf with
    | none => none
    | some (next, []) => some next
    | some (next, byte :: rest) => handleLoop fuel next (byte :: rest)

/-- `MPID_nem_handle_pkt`; `none` when an assertion fails, or when the loops do not
end within as many rounds as the buffer has bytes. -/
def handlePkt
    (state : State Byte Req)
    (buf : List Byte) : Option (State Byte Req) :=
  handlers.handleLoop (buf.length + 1) state buf

/-- Buffers that are passed in order. -/
def handleAll
    (state : State Byte Req)
    (buffers : List (List Byte)) : Option (State Byte Req) :=
  buffers.foldlM handlers.handlePkt state

end Mpich.Nemesis.HandlePkt.Handlers

/-!
## A stream, byte by byte

What the bytes of a connection mean, without buffers: a machine that takes one
byte at a time. A byte belongs to a header, or is stored through the IOV of the
request of the last header. A run over many bytes at once, as the loops of the
source make it, is a run of this machine.
-/

namespace Mpich.Nemesis.HandlePkt

open List

variable {Byte Req : Type*}

/-- What the next byte belongs to. -/
inductive Mode (Byte Req : Type*)
  /-- The header of which these bytes have arrived. -/
  | header (packet : List Byte)
  /-- The element `iov`, with other elements behind it. -/
  | data (req : Req) (received : List Byte) (iov : Iov) (rest : List Iov)

structure Progress (Byte Req : Type*) where
  log : List (Event Byte)
  mode : Mode Byte Req

/-- The bytes of the stream that an event has used. -/
def Event.bytes : Event Byte → List Byte
  | .header packet => packet
  | .stored _ byte => [byte]

/-- The bytes of a header that is not complete. -/
def Mode.pending : Mode Byte Req → List Byte
  | .header packet => packet
  | .data .. => []

/-- The bytes that have been used, and those of the unfinished header. -/
def Progress.bytes
    (progress : Progress Byte Req) : List Byte :=
  progress.log.flatMap Event.bytes ++ progress.mode.pending

namespace Handlers

variable (handlers : Handlers Byte Req)

/-- Go on with these elements; empty ones are passed, and after the last one
`OnDataAvail` is called. -/
def fillFrom
    (log : List (Event Byte))
    (req : Req)
    (received : List Byte) : List Iov → Progress Byte Req
  | [] =>
    match handlers.onDataAvail req received with
    | none => ⟨log, .header []⟩
    | some (next, load) => ⟨log, .data next [] load.first load.rest⟩
  | iov :: rest =>
    if iov.len = 0 then fillFrom log req received rest
    else ⟨log, .data req received iov rest⟩

/-- A header is complete. -/
def startPacket
    (log : List (Event Byte))
    (packet : List Byte) : Progress Byte Req :=
  match handlers.dispatch packet with
  | none => ⟨log ++ [.header packet], .header []⟩
  | some (req, load) => handlers.fillFrom (log ++ [.header packet]) req [] load.iov

/-- One byte. -/
def feed
    (progress : Progress Byte Req)
    (byte : Byte) : Progress Byte Req :=
  match progress.mode with
  | .header packet =>
    if (packet ++ [byte]).length < handlers.pktSize then
      ⟨progress.log, .header (packet ++ [byte])⟩
    else handlers.startPacket progress.log (packet ++ [byte])
  | .data req received iov rest =>
    handlers.fillFrom (progress.log ++ [.stored iov.base byte]) req
      (received ++ [byte]) (⟨iov.base + 1, iov.len - 1⟩ :: rest)

def run
    (progress : Progress Byte Req)
    (bytes : List Byte) : Progress Byte Req :=
  bytes.foldl handlers.feed progress

variable {handlers}

@[simp] theorem run_nil
    (progress : Progress Byte Req) :
    handlers.run progress [] = progress :=
  rfl

theorem run_append
    (progress : Progress Byte Req)
    (first second : List Byte) :
    handlers.run progress (first ++ second) = handlers.run (handlers.run progress first) second :=
  foldl_append

theorem fillFrom_nil
    (log : List (Event Byte))
    (req : Req)
    (received : List Byte) :
    handlers.fillFrom log req received [] = match handlers.onDataAvail req received with
      | none => ⟨log, .header []⟩
      | some (next, load) => ⟨log, .data next [] load.first load.rest⟩ :=
  rfl

theorem fillFrom_load
    (log : List (Event Byte))
    (req : Req)
    (received : List Byte)
    (load : Load) :
    handlers.fillFrom log req received load.iov =
      ⟨log, .data req received load.first load.rest⟩ := by
  unfold Load.iov fillFrom
  rw [if_neg (Nat.ne_of_gt load.positive)]

section

variable
    {log : List (Event Byte)} {req : Req} {received bytes : List Byte}
    {iov : Iov} {rest : List Iov}

/-- The bytes of one element, or the first of them. -/
theorem run_element (fits : bytes.length ≤ iov.len) :
    handlers.run (handlers.fillFrom log req received (iov :: rest)) bytes =
      handlers.fillFrom (log ++ storesFrom iov.base bytes) req (received ++ bytes)
        (⟨iov.base + bytes.length, iov.len - bytes.length⟩ :: rest) := by
  induction bytes generalizing log received iov with
  | nil =>
    unfold storesFrom
    rw [run_nil, append_nil, append_nil]
    rfl
  | cons byte later ih =>
    rw [length_cons] at fits
    have current : handlers.fillFrom log req received (iov :: rest) =
        ⟨log, .data req received iov rest⟩ := by
      rw [fillFrom, if_neg (by omega)]
    rw [current]
    have stepped := @ih (log ++ [.stored iov.base byte])
      (received ++ [byte]) ⟨iov.base + 1, iov.len - 1⟩ (by
        change later.length ≤ iov.len - 1
        omega)
    have isBase : iov.base + 1 + later.length = iov.base + (byte :: later).length := by
      rw [length_cons]
      omega
    have isLen : iov.len - 1 - later.length = iov.len - (byte :: later).length := by
      omega
    rw [isBase, isLen] at stepped
    refine stepped.trans ?_
    rw [append_assoc, append_assoc]
    rfl

/-- The bytes of a whole element. -/
theorem run_whole_element (fits : bytes.length = iov.len) :
    handlers.run (handlers.fillFrom log req received (iov :: rest)) bytes =
      handlers.fillFrom (log ++ storesFrom iov.base bytes) req (received ++ bytes) rest := by
  rw [run_element (Nat.le_of_eq fits), fits, Nat.sub_self]
  conv_lhs => unfold fillFrom
  rw [if_pos rfl]

end

theorem stores_nil (entries : List Iov) :
    stores entries ([] : List Byte) = [] := by
  induction entries with
  | nil => rfl
  | cons iov rest ih =>
    unfold stores
    rw [take_nil, drop_nil, ih]
    rfl

variable {log : List (Event Byte)}

/-- The bytes of elements that are filled one behind the other. -/
theorem run_entries
    {req : Req} {received bytes : List Byte}
    {entries : List Iov}
    (later : List Iov)
    (fits : bytes.length = size entries) :
    handlers.run (handlers.fillFrom log req received (entries ++ later)) bytes =
      handlers.fillFrom (log ++ stores entries bytes) req (received ++ bytes) later := by
  induction entries generalizing log received bytes with
  | nil =>
    obtain rfl := length_eq_zero_iff.mp fits
    unfold stores
    rw [run_nil, append_nil, append_nil]
    rfl
  | cons iov rest ih =>
    have total : bytes.length = iov.len + size rest := by
      rw [fits]
      rfl
    have isTake : (bytes.take iov.len).length = iov.len := by
      rw [length_take]
      omega
    have isDrop : (bytes.drop iov.len).length = size rest := by
      rw [length_drop]
      omega
    conv_lhs => rw [← take_append_drop iov.len bytes]
    rw [cons_append, run_append, run_whole_element isTake,
      ih isDrop, append_assoc, append_assoc, take_append_drop]
    rfl

theorem stores_cons
    (iov : Iov)
    (rest : List Iov)
    (bytes : List Byte) :
    stores (iov :: rest) bytes =
      storesFrom iov.base (bytes.take iov.len) ++ stores rest (bytes.drop iov.len) :=
  rfl

theorem stores_append
    {entries later : List Iov} {bytes left : List Byte}
    (fits : bytes.length = size entries) :
    stores (entries ++ later) (bytes ++ left) = stores entries bytes ++ stores later left := by
  induction entries generalizing bytes with
  | nil =>
    obtain rfl := length_eq_zero_iff.mp fits
    rfl
  | cons iov rest ih =>
    have total : bytes.length = iov.len + size rest := by
      rw [fits]
      rfl
    have isDrop : (bytes.drop iov.len).length = size rest := by
      rw [length_drop]
      omega
    rw [cons_append, stores_cons, stores_cons, take_append_of_le_length (by omega),
      drop_append_of_le_length (by omega), ih isDrop, append_assoc]

/-- The bytes of a header, up to its end. -/
theorem run_header
    {packet bytes : List Byte}
    (nonempty : bytes ≠ [])
    (fits : packet.length + bytes.length = handlers.pktSize) :
    handlers.run ⟨log, .header packet⟩ bytes = handlers.startPacket log (packet ++ bytes) := by
  induction bytes generalizing packet with
  | nil => exact absurd rfl nonempty
  | cons byte later ih =>
    rw [length_cons] at fits
    cases later with
    | nil =>
      have isLast : ¬ (packet ++ [byte]).length < handlers.pktSize := by
        rw [length_append, length_singleton]
        rw [length_nil] at fits
        omega
      exact if_neg isLast
    | cons next rest =>
      have more : (packet ++ [byte]).length < handlers.pktSize := by
        rw [length_append, length_singleton]
        rw [length_cons] at fits
        omega
      have fed : handlers.feed ⟨log, .header packet⟩ byte = ⟨log, .header (packet ++ [byte])⟩ :=
        if_pos more
      have stepped := @ih (packet ++ [byte])
        (cons_ne_nil _ _) (by
          rw [length_append, length_singleton]
          omega)
      rw [← fed, append_assoc] at stepped
      exact stepped

/-- Some bytes of a header. -/
theorem run_fragment
    {packet bytes : List Byte}
    (short : packet.length + bytes.length < handlers.pktSize) :
    handlers.run ⟨log, .header packet⟩ bytes = ⟨log, .header (packet ++ bytes)⟩ := by
  induction bytes generalizing packet with
  | nil => rw [run_nil, append_nil]
  | cons byte later ih =>
    rw [length_cons] at short
    have more : (packet ++ [byte]).length < handlers.pktSize := by
      rw [length_append, length_singleton]
      omega
    have fed : handlers.feed ⟨log, .header packet⟩ byte = ⟨log, .header (packet ++ [byte])⟩ :=
      if_pos more
    have stepped := @ih (packet ++ [byte]) (by
      rw [length_append, length_singleton]
      omega)
    rw [← fed, append_assoc] at stepped
    exact stepped

theorem fillFrom_bytes
    (log : List (Event Byte))
    (req : Req)
    (received : List Byte)
    (entries : List Iov) :
    Progress.bytes (handlers.fillFrom log req received entries) = log.flatMap Event.bytes := by
  induction entries with
  | nil =>
    unfold fillFrom
    cases handlers.onDataAvail req received with
    | none => exact append_nil _
    | some next => exact append_nil _
  | cons iov rest ih =>
    unfold fillFrom
    split
    case isTrue => exact ih
    case isFalse => exact append_nil _

theorem feed_bytes
    (progress : Progress Byte Req)
    (byte : Byte) :
    Progress.bytes (handlers.feed progress byte) = Progress.bytes progress ++ [byte] := by
  obtain ⟨log, mode⟩ := progress
  unfold feed
  cases mode with
  | header packet =>
    dsimp only
    split
    case isTrue => exact (append_assoc ..).symm
    case isFalse =>
      have used : (log ++ [Event.header (packet ++ [byte])]).flatMap Event.bytes =
          Progress.bytes (⟨log, .header packet⟩ : Progress Byte Req) ++ [byte] := by
        unfold Progress.bytes Mode.pending
        rw [flatMap_append, flatMap_singleton, append_assoc]
        rfl
      rw [← used]
      unfold startPacket
      cases handlers.dispatch (packet ++ [byte]) with
      | none => exact append_nil _
      | some result => exact fillFrom_bytes ..
  | data req received iov rest =>
    rw [fillFrom_bytes, flatMap_append, flatMap_singleton]
    unfold Progress.bytes Mode.pending
    rw [append_nil]
    rfl

/-- Every byte of the stream is used once, in order. -/
theorem run_bytes
    (progress : Progress Byte Req)
    (stream : List Byte) :
    Progress.bytes (handlers.run progress stream) = Progress.bytes progress ++ stream := by
  induction stream generalizing progress with
  | nil => exact (append_nil _).symm
  | cons byte rest ih =>
    refine (ih (handlers.feed progress byte)).trans ?_
    rw [feed_bytes, append_assoc]
    rfl

end Mpich.Nemesis.HandlePkt.Handlers
