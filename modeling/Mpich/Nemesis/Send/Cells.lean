import Mathlib.Algebra.GroupWithZero.Nat
import Mpich.Foundation.Tabulate

/-!
# Sending through cells

The sends of `mpid_nem_inline.h`: a header goes into the fastbox of its destination
or into a free cell, what follows goes into further free cells, and a send that finds
no free cell sets `again`. A cell byte that the sender does not write is `none`.
-/

namespace Mpich.Nemesis.Send

open List

variable {Byte : Type*}

/-- Copying bytes of a buffer into a cell. -/
def read
    (content : Nat → Byte)
    (start len : Nat) : List (Option Byte) :=
  Buffer.tabulate len fun index => some (content (start + index))

/-- The sizes that the sends depend on. -/
structure Sizes where
  /-- `sizeof (MPIDI_CH3_Pkt_t)` -/
  pkt : Nat
  /-- `sizeof (MPIDI_CH3_PktGeneric_t)` -/
  generic : Nat
  /-- `MPID_NEM_MPICH2_DATA_LEN`, and `MPID_NEM_FBOX_DATALEN` -/
  data : Nat
  pkt_pos : 0 < pkt
  /-- Checked by `MPID_Init`. -/
  pkt_le_generic : pkt ≤ generic
  pkt_lt_data : pkt < data

/-- Where an element of an IOV points. -/
inductive Buffer (Byte : Type*)
  /-- The header of the caller, which may be on its stack. -/
  | caller
  /-- `sreq->dev.pending_pkt` -/
  | pendingPkt
  /-- Data that stays in place until it is sent. -/
  | user (content : Nat → Byte)

/-- What the two header buffers hold. -/
structure Headers (Byte : Type*) where
  caller : Nat → Byte
  pendingPkt : Nat → Byte

def Buffer.content
    (headers : Headers Byte) : Buffer Byte → Nat → Byte
  | caller => headers.caller
  | pendingPkt => headers.pendingPkt
  | user content => content

/-- An element of an IOV; `offset` bytes of its buffer have been sent. -/
structure Iov (Byte : Type*) where
  buf : Buffer Byte
  offset : Nat
  len : Nat

def Iov.bytes
    (headers : Headers Byte)
    (iov : Iov Byte) : List (Option Byte) :=
  read (iov.buf.content headers) iov.offset iov.len

def bytes
    (headers : Headers Byte)
    (iov : List (Iov Byte)) : List (Option Byte) :=
  iov.flatMap (Iov.bytes headers)

def size
    (iov : List (Iov Byte)) : Nat :=
  (iov.map Iov.len).sum

/-- What there is to send into at the moment. -/
structure Free where
  /-- The fastbox of the destination is not in use. -/
  fbox : Bool
  /-- The free cells, each with the most that `MPID_Segment_pack` puts into it. -/
  cells : List Nat

/-- What a send along an IOV leaves. -/
structure Sent (Byte : Type*) where
  packets : List (List (Option Byte))
  iov : List (Iov Byte)
  again : Bool

/-- What a send along a segment leaves. -/
structure SentSegment (Byte : Type*) where
  packets : List (List (Option Byte))
  first : Nat
  again : Bool

/-- Fill the room that is left in a cell: `while (*n_iov && payload_len >= iov_len)`
and the element after. -/
def fill
    (headers : Headers Byte) :
    Nat → List (Iov Byte) → List (Option Byte) × List (Iov Byte)
  | _, [] => ([], [])
  | room, iov :: rest =>
    if iov.len ≤ room then
      let filled := fill headers (room - iov.len) rest
      (iov.bytes headers ++ filled.1, filled.2)
    else
      (read (iov.buf.content headers) iov.offset room,
        ⟨iov.buf, iov.offset + room, iov.len - room⟩ :: rest)

/-- `last` after `MPID_Segment_pack`, which has been asked for as much as there is
room for. -/
def lastPacked
    (room packed first segmentSize : Nat) : Nat :=
  min (first + packed) (if segmentSize - first ≤ room then segmentSize else first + room)

namespace Sizes

variable (sizes : Sizes)

/-- `MPID_nem_mpich2_send_header`: the packet, unless it has to be tried again. -/
def sendHeader
    (free : Free)
    (hdr : Nat → Byte) : Option (List (Option Byte)) :=
  if free.fbox || !free.cells.isEmpty then some (read hdr 0 sizes.pkt) else none

/-- `do MPID_nem_mpich2_sendv (..) while (!again && n_iov > 0)` -/
def sendv
    (headers : Headers Byte) : List Nat → List (Iov Byte) → Sent Byte
  | [], iov => ⟨[], iov, true⟩
  | _ :: cells, iov =>
    let filled := fill headers sizes.data iov
    match filled.2 with
    | [] => ⟨[filled.1], [], false⟩
    | next :: rest =>
      let sent := sendv headers cells (next :: rest)
      ⟨filled.1 :: sent.packets, sent.iov, sent.again⟩

/-- `MPID_nem_mpich2_sendv_header`, and the free cells after it. -/
def sendvHeader
    (headers : Headers Byte)
    (free : Free) : List (Iov Byte) → Sent Byte × List Nat
  | [] => (⟨[], [], false⟩, free.cells)
  | header :: data =>
    if free.fbox && (data.length == 1 && size data + sizes.pkt ≤ sizes.data) then
      (⟨[header.bytes headers ++ bytes headers data], [], false⟩, free.cells)
    else
      match free.cells with
      | [] => (⟨[], header :: data, true⟩, [])
      | _ :: cells =>
        let filled := fill headers (sizes.data - sizes.pkt) data
        (⟨[header.bytes headers ++ filled.1], filled.2, false⟩, cells)

/-- `MPID_nem_mpich2_sendv_header`, then `while (!again && n_iov > 0)`
`MPID_nem_mpich2_sendv`. -/
def sendvMessage
    (headers : Headers Byte)
    (free : Free)
    (iov : List (Iov Byte)) : Sent Byte :=
  let (sent, cells) := sizes.sendvHeader headers free iov
  if sent.again || sent.iov.isEmpty then sent
  else
    let later := sizes.sendv headers cells sent.iov
    ⟨sent.packets ++ later.packets, later.iov, later.again⟩

/-- `do MPID_nem_mpich2_send_seg (..) while (!again && first < size)` -/
def sendSeg
    (segment : Nat → Byte)
    (segmentSize : Nat) : List Nat → Nat → SentSegment Byte
  | [], first => ⟨[], first, true⟩
  | packed :: cells, first =>
    let last := lastPacked sizes.data packed first segmentSize
    let packet := read segment first (last - first)
    if last < segmentSize then
      let sent := sendSeg segment segmentSize cells last
      ⟨packet :: sent.packets, sent.first, sent.again⟩
    else ⟨[packet], last, false⟩

/-- The header of a segment: `header_sz` bytes of it are copied. -/
def segHeader
    (header : Nat → Byte)
    (headerSz : Nat) : List (Option Byte) :=
  read header 0 headerSz ++ replicate (sizes.pkt - headerSz) none

/-- `MPID_nem_mpich2_send_seg_header`, and the free cells after it. -/
def sendSegHeader
    (free : Free)
    (header : Nat → Byte)
    (headerSz : Nat)
    (segment : Nat → Byte)
    (first segmentSize : Nat) : SentSegment Byte × List Nat :=
  if free.fbox && sizes.pkt + segmentSize ≤ sizes.data then
    (⟨[sizes.segHeader header headerSz ++ read segment first (segmentSize - first)],
      segmentSize, false⟩, free.cells)
  else
    match free.cells with
    | [] => (⟨[], first, true⟩, [])
    | packed :: cells =>
      let last := lastPacked (sizes.data - sizes.pkt) packed first segmentSize
      (⟨[sizes.segHeader header headerSz ++ read segment first (last - first)], last, false⟩, cells)

/-- `MPID_nem_mpich2_send_seg_header`, then `while (!again && first < size)`
`MPID_nem_mpich2_send_seg`. -/
def sendSegMessage
    (free : Free)
    (header : Nat → Byte)
    (headerSz : Nat)
    (segment : Nat → Byte)
    (first segmentSize : Nat) : SentSegment Byte :=
  let (sent, cells) := sizes.sendSegHeader free header headerSz segment first segmentSize
  if sent.again || !(sent.first < segmentSize) then sent
  else
    let later := sizes.sendSeg segment segmentSize cells sent.first
    ⟨sent.packets ++ later.packets, later.first, later.again⟩

end Sizes

theorem read_append
    (content : Nat → Byte)
    (start front back : Nat) :
    read content start front ++ read content (start + front) back =
      read content start (front + back) := by
  unfold read
  rw [Mpich.Buffer.tabulate_append]
  apply Mpich.Buffer.tabulate_congr
  intro index inside
  by_cases inFront : index < front
  · rw [if_pos inFront]
  · rw [if_neg inFront]
    congr 2
    omega

theorem read_append_of_le
    (content : Nat → Byte)
    {start middle last : Nat}
    (front : start ≤ middle)
    (back : middle ≤ last) :
    read content start (middle - start) ++ read content middle (last - middle) =
      read content start (last - start) := by
  have split := read_append content start (middle - start) (last - middle)
  rw [Nat.add_sub_cancel' front] at split
  rw [split]
  congr 1
  omega

/-- Filling a cell takes the bytes off the IOV, in order. -/
theorem fill_bytes
    (headers : Headers Byte)
    (room : Nat)
    (iov : List (Iov Byte)) :
    (fill headers room iov).1 ++ bytes headers (fill headers room iov).2 = bytes headers iov := by
  induction iov generalizing room with
  | nil => rfl
  | cons iov rest ih =>
    unfold fill
    by_cases fits : iov.len ≤ room
    · simp only [if_pos fits]
      rw [append_assoc, ih]
      rfl
    · simp only [if_neg fits]
      unfold bytes
      rw [flatMap_cons, flatMap_cons, ← append_assoc]
      congr 1
      unfold Iov.bytes
      rw [read_append, Nat.add_sub_cancel' (by omega)]

theorem le_lastPacked
    {first segmentSize : Nat}
    (inside : first ≤ segmentSize)
    (room packed : Nat) :
    first ≤ lastPacked room packed first segmentSize := by
  unfold lastPacked
  split <;> omega

theorem lastPacked_le (room packed first segmentSize : Nat) :
    lastPacked room packed first segmentSize ≤ segmentSize := by
  unfold lastPacked
  split <;> omega

/-- A cell that takes bytes moves the position. -/
theorem lt_lastPacked
    {room packed first segmentSize : Nat}
    (inside : first < segmentSize)
    (hasRoom : 0 < room)
    (packs : 0 < packed) :
    first < lastPacked room packed first segmentSize := by
  unfold lastPacked
  split <;> omega

/-- An IOV whose first element has bytes left. -/
def Ready
    (iov : List (Iov Byte)) : Prop :=
  ∃ first rest, iov = first :: rest ∧ 0 < first.len

section

variable
    (headers : Headers Byte)
    (room : Nat)
    (iov : List (Iov Byte))

include headers room iov

/-- What is left does not fit, so it begins with bytes. -/
theorem fill_ready :
    (fill headers room iov).2 = [] ∨ Ready (fill headers room iov).2 := by
  induction iov generalizing room with
  | nil => exact .inl rfl
  | cons iov rest ih =>
    unfold fill
    by_cases fits : iov.len ≤ room
    · simp only [if_pos fits]
      exact ih _
    · simp only [if_neg fits]
      exact .inr ⟨_, _, rfl, by dsimp only; omega⟩

/-- A cell that leaves something behind is full. -/
theorem fill_size :
    (fill headers room iov).2 = [] ∨ size (fill headers room iov).2 + room = size iov := by
  induction iov generalizing room with
  | nil => exact .inl rfl
  | cons iov rest ih =>
    unfold fill
    by_cases fits : iov.len ≤ room
    · simp only [if_pos fits]
      apply (ih (room - iov.len)).imp_right
      intro full
      unfold size at full ⊢
      rw [map_cons, sum_cons]
      omega
    · simp only [if_neg fits]
      apply Or.inr
      unfold size
      rw [map_cons, sum_cons, map_cons, sum_cons]
      dsimp only
      omega

theorem length_fill_le :
    (fill headers room iov).2.length ≤ iov.length := by
  induction iov generalizing room with
  | nil => exact Nat.le_refl _
  | cons iov rest ih =>
    unfold fill
    by_cases fits : iov.len ≤ room
    · simp only [if_pos fits]
      exact Nat.le_succ_of_le (ih _)
    · simp only [if_neg fits]
      exact Nat.le_refl _

end

/-- What is left points into the same buffers. -/
theorem fill_buf
    (headers : Headers Byte)
    {allowed : Buffer Byte → Prop}
    (room : Nat)
    (iov : List (Iov Byte))
    (inside : ∀ entry ∈ iov, allowed entry.buf) :
    ∀ entry ∈ (fill headers room iov).2, allowed entry.buf := by
  induction iov generalizing room with
  | nil => exact inside
  | cons iov rest ih =>
    have later := (forall_mem_cons.mp inside).2
    unfold fill
    by_cases fits : iov.len ≤ room
    · simp only [if_pos fits]
      exact ih _ later
    · simp only [if_neg fits]
      exact forall_mem_cons.mpr ⟨(forall_mem_cons.mp inside).1, later⟩

/-- A send along an IOV: the bytes of the packets and of what is left are those of
the IOV, and it stops at the end or where it has to be tried again. -/
structure Sent.Along
    (headers : Headers Byte)
    (iov : List (Iov Byte))
    (sent : Sent Byte) : Prop where
  bytes : sent.packets.flatten ++ Send.bytes headers sent.iov = Send.bytes headers iov
  stopped : sent.again = true ∧ Ready sent.iov ∨ sent.again = false ∧ sent.iov = []
  length_le : sent.iov.length ≤ iov.length
  inside : ∀ allowed : Buffer Byte → Prop, (∀ entry ∈ iov, allowed entry.buf) →
    ∀ entry ∈ sent.iov, allowed entry.buf

/-- A send along a segment: the packets hold what lies between the two positions,
and it stops at the end or where it has to be tried again. -/
structure SentSegment.Along
    (segment : Nat → Byte)
    (segmentSize first : Nat)
    (sent : SentSegment Byte) : Prop where
  bytes : sent.packets.flatten = read segment first (sent.first - first)
  stopped : sent.again = true ∧ sent.first < segmentSize ∨
    sent.again = false ∧ sent.first = segmentSize
  onward : first ≤ sent.first

/-- The rest of an IOV after one cell, sent on. -/
theorem Sent.Along.after_fill
    {headers : Headers Byte} {room : Nat} {iov : List (Iov Byte)}
    {sent : Sent Byte}
    (along : sent.Along headers (fill headers room iov).2) :
    Sent.Along headers iov ⟨(fill headers room iov).1 :: sent.packets, sent.iov, sent.again⟩ where
  bytes := by
    rw [flatten_cons, append_assoc, along.bytes, fill_bytes]
  stopped := along.stopped
  length_le := Nat.le_trans along.length_le (length_fill_le headers room iov)
  inside := fun allowed inside =>
    along.inside allowed (fill_buf headers room iov inside)

namespace Sizes

variable (sizes : Sizes)

theorem data_pos : 0 < sizes.data :=
  Nat.lt_of_le_of_lt (Nat.zero_le _) sizes.pkt_lt_data

section

variable (headers : Headers Byte)

include headers

theorem sendv_along
    (cells : List Nat)
    (iov : List (Iov Byte))
    (ready : Ready iov) :
    (sizes.sendv headers cells iov).Along headers iov := by
  induction cells generalizing iov with
  | nil => exact ⟨rfl, .inl ⟨rfl, ready⟩, Nat.le_refl _, fun _ inside => inside⟩
  | cons _ cells ih =>
    have isReady := fill_ready headers sizes.data iov
    unfold sendv
    cases left : (fill headers sizes.data iov).2 with
    | nil =>
      simp only [left]
      refine ⟨?_, .inr ⟨rfl, rfl⟩, Nat.zero_le _, fun _ _ _ => nofun⟩
      have total := fill_bytes headers sizes.data iov
      rw [left] at total
      simpa using total
    | cons next rest =>
      simp only [left]
      rw [left] at isReady
      have along := ih (next :: rest) (isReady.resolve_left nofun)
      apply Sent.Along.after_fill
      rw [left]
      exact along

/-- Enough free cells take the whole IOV. -/
theorem sendv_all
    (cells : List Nat)
    (iov : List (Iov Byte))
    (ready : Ready iov)
    (enough : size iov ≤ cells.length) :
    (sizes.sendv headers cells iov).again = false := by
  induction cells generalizing iov with
  | nil =>
    obtain ⟨first, rest, rfl, positive⟩ := ready
    unfold size at enough
    rw [map_cons, sum_cons, length_nil] at enough
    omega
  | cons _ cells ih =>
    have isReady := fill_ready headers sizes.data iov
    have isFull := fill_size headers sizes.data iov
    have positive := sizes.data_pos
    unfold sendv
    cases left : (fill headers sizes.data iov).2 with
    | nil => simp only [left]
    | cons next rest =>
      simp only [left]
      rw [left] at isReady isFull
      have full := isFull.resolve_left nofun
      rw [length_cons] at enough
      exact ih _ (isReady.resolve_left nofun) (by omega)

/-- A message along an IOV: its header is not sent, or it is sent and the data is
sent along. -/
theorem sendvMessage_along
    (free : Free)
    (header : Iov Byte)
    (data : List (Iov Byte)) :
    (sizes.sendvMessage headers free (header :: data) = ⟨[], header :: data, true⟩ ∧
        (sizes.sendvHeader headers free (header :: data)).1.again = true) ∨
      ∃ later : Sent Byte, later.Along headers data ∧
        (sizes.sendvHeader headers free (header :: data)).1.again = false ∧
        (sizes.sendvMessage headers free (header :: data)).packets.flatten =
          header.bytes headers ++ later.packets.flatten ∧
        (sizes.sendvMessage headers free (header :: data)).iov = later.iov ∧
        (sizes.sendvMessage headers free (header :: data)).again = later.again := by
  unfold sendvMessage sendvHeader
  by_cases fast : (free.fbox &&
      (data.length == 1 && decide (size data + sizes.pkt ≤ sizes.data))) = true
  · simp only [if_pos fast]
    refine .inr ⟨⟨[bytes headers data], [], false⟩, ⟨?_, .inr ⟨rfl, rfl⟩, ?_, ?_⟩, by trivial, ?_⟩
    · simp [bytes]
    · exact Nat.zero_le _
    · exact fun _ _ _ => nofun
    · simp
  · simp only [if_neg fast]
    cases free.cells with
    | nil => exact .inl ⟨rfl, rfl⟩
    | cons cell cells =>
      have isReady := fill_ready headers (sizes.data - sizes.pkt) data
      have total := fill_bytes headers (sizes.data - sizes.pkt) data
      apply Or.inr
      cases left : (fill headers (sizes.data - sizes.pkt) data).2 with
      | nil =>
        rw [left] at total
        refine ⟨⟨[(fill headers (sizes.data - sizes.pkt) data).1], [], false⟩,
          ⟨?_, .inr ⟨rfl, rfl⟩, ?_, ?_⟩, rfl, ?_⟩
        · simpa using total
        · exact Nat.zero_le _
        · exact fun _ _ _ => nofun
        · simp
      | cons next rest =>
        rw [left] at isReady
        have along := sizes.sendv_along headers cells (next :: rest) (isReady.resolve_left nofun)
        have whole := along
        rw [← left] at whole
        refine ⟨_, whole.after_fill, rfl, ?_⟩
        simp [left]

/-- With enough free cells the whole message is sent. -/
theorem sendvMessage_all
    {free : Free}
    (fbox : free.fbox = false)
    (header : Iov Byte)
    (data : List (Iov Byte))
    (enough : size data < free.cells.length) :
    (sizes.sendvMessage headers free (header :: data)).again = false := by
  unfold sendvMessage sendvHeader
  simp only [fbox, Bool.false_and, Bool.false_eq_true, if_false]
  cases isCells : free.cells with
  | nil =>
    rw [isCells] at enough
    exact absurd enough (Nat.not_lt_zero _)
  | cons cell cells =>
    rw [isCells] at enough
    have isReady := fill_ready headers (sizes.data - sizes.pkt) data
    have isFull := fill_size headers (sizes.data - sizes.pkt) data
    cases left : (fill headers (sizes.data - sizes.pkt) data).2 with
    | nil => simp
    | cons next rest =>
      rw [left] at isReady isFull
      rw [length_cons] at enough
      have full := isFull.resolve_left nofun
      have sentAll := sizes.sendv_all headers cells (next :: rest)
        (isReady.resolve_left nofun) (by omega)
      simp [sentAll]

end

section

variable
    (segment : Nat → Byte)
    (segmentSize : Nat)
    (cells : List Nat)
    (first : Nat)
    (inside : first < segmentSize)

include segment segmentSize cells first inside

theorem sendSeg_along :
    (sizes.sendSeg segment segmentSize cells first).Along segment segmentSize first := by
  induction cells generalizing first with
  | nil =>
    refine ⟨?_, .inl ⟨rfl, inside⟩, Nat.le_refl _⟩
    simp [sendSeg, read, Buffer.tabulate]
  | cons packed cells ih =>
    have onward := le_lastPacked (Nat.le_of_lt inside) sizes.data packed
    have bounded := lastPacked_le sizes.data packed first segmentSize
    unfold sendSeg
    by_cases more : lastPacked sizes.data packed first segmentSize < segmentSize
    · have along := ih _ more
      simp only [if_pos more]
      refine ⟨?_, along.stopped, Nat.le_trans onward along.onward⟩
      rw [flatten_cons, along.bytes, read_append_of_le segment onward along.onward]
    · simp only [if_neg more]
      exact ⟨by simp, .inr ⟨rfl, by dsimp only; omega⟩, onward⟩

/-- Enough free cells take the whole segment. -/
theorem sendSeg_all
    (advances : ∀ packed ∈ cells, 0 < packed)
    (enough : segmentSize ≤ first + cells.length) :
    (sizes.sendSeg segment segmentSize cells first).again = false := by
  induction cells generalizing first with
  | nil => exact absurd enough (by rw [length_nil]; omega)
  | cons packed cells ih =>
    obtain ⟨packs, later⟩ := forall_mem_cons.mp advances
    have onward := lt_lastPacked inside sizes.data_pos packs
    unfold sendSeg
    by_cases more : lastPacked sizes.data packed first segmentSize < segmentSize
    · simp only [if_pos more]
      rw [length_cons] at enough
      exact ih _ more later (by omega)
    · simp only [if_neg more]

/-- A cell that takes bytes moves the position. -/
theorem sendSeg_advances (advances : ∃ packed ∈ cells, 0 < packed) :
    first < (sizes.sendSeg segment segmentSize cells first).first := by
  induction cells generalizing first with
  | nil => exact absurd advances (by simp)
  | cons packed cells ih =>
    have onward := le_lastPacked (Nat.le_of_lt inside) sizes.data packed
    unfold sendSeg
    by_cases more : lastPacked sizes.data packed first segmentSize < segmentSize
    · have along := sizes.sendSeg_along segment segmentSize cells _ more
      simp only [if_pos more]
      obtain ⟨cell, member, packs⟩ := advances
      rcases mem_cons.mp member with rfl | member
      · exact Nat.lt_of_lt_of_le (lt_lastPacked inside sizes.data_pos packs) along.onward
      · exact Nat.lt_of_le_of_lt onward (ih _ more ⟨cell, member, packs⟩)
    · simp only [if_neg more]
      omega

end

/-- Once a cell is taken for the header, some cell takes bytes of the segment: what
`MPID_nem_mpich2_send_seg_header` says of itself. -/
def Packs
    (free : Free)
    (segmentSize : Nat) : Prop :=
  0 < segmentSize → ¬ (free.fbox && sizes.pkt + segmentSize ≤ sizes.data) →
    free.cells ≠ [] → ∃ packed ∈ free.cells, 0 < packed

/-- A message along a segment: its header is not sent, or it is sent and the data
is sent along. -/
theorem sendSegMessage_along
    (free : Free)
    (header : Nat → Byte)
    (headerSz : Nat)
    (segment : Nat → Byte)
    (segmentSize : Nat) :
    (sizes.sendSegMessage free header headerSz segment 0 segmentSize = ⟨[], 0, true⟩ ∧
        (sizes.sendSegHeader free header headerSz segment 0 segmentSize).1.again = true) ∨
      ∃ later : SentSegment Byte, later.Along segment segmentSize 0 ∧
        (sizes.sendSegHeader free header headerSz segment 0 segmentSize).1.again = false ∧
        (sizes.sendSegMessage free header headerSz segment 0 segmentSize).packets.flatten =
          sizes.segHeader header headerSz ++ later.packets.flatten ∧
        (sizes.sendSegMessage free header headerSz segment 0 segmentSize).first = later.first ∧
        (sizes.sendSegMessage free header headerSz segment 0 segmentSize).again = later.again ∧
        (sizes.Packs free segmentSize → later.again = true → 0 < later.first) := by
  unfold sendSegMessage sendSegHeader
  by_cases fast : (free.fbox && decide (sizes.pkt + segmentSize ≤ sizes.data)) = true
  · simp only [if_pos fast]
    exact .inr ⟨⟨[read segment 0 (segmentSize - 0)], segmentSize, false⟩,
      ⟨by simp, .inr ⟨rfl, rfl⟩, Nat.zero_le _⟩, by trivial, by simp, by simp, by simp, by simp⟩
  · simp only [if_neg fast]
    unfold Packs
    cases free.cells with
    | nil => exact .inl ⟨by simp, rfl⟩
    | cons packed cells =>
      apply Or.inr
      have bounded := lastPacked_le (sizes.data - sizes.pkt) packed 0 segmentSize
      have room := sizes.pkt_lt_data
      by_cases more : lastPacked (sizes.data - sizes.pkt) packed 0 segmentSize < segmentSize
      · have along := sizes.sendSeg_along segment segmentSize cells _ more
        let last := lastPacked (sizes.data - sizes.pkt) packed 0 segmentSize
        let sent := sizes.sendSeg segment segmentSize cells last
        refine ⟨⟨read segment 0 (last - 0) :: sent.packets, sent.first, sent.again⟩,
          ⟨?_, along.stopped, Nat.zero_le _⟩, rfl, ?_⟩
        · rw [flatten_cons, along.bytes, read_append_of_le segment (Nat.zero_le _) along.onward]
        · refine ⟨by simp [more, last, sent], by simp [more, last, sent],
            by simp [more, last, sent], ?_⟩
          intro packs _
          obtain ⟨cell, member, takes⟩ :=
            packs (Nat.lt_of_le_of_lt (Nat.zero_le _) more) fast nofun
          rcases mem_cons.mp member with rfl | member
          · exact Nat.lt_of_lt_of_le (lt_lastPacked
              (Nat.lt_of_le_of_lt (Nat.zero_le _) more) (by omega) takes) along.onward
          · exact Nat.lt_of_le_of_lt (Nat.zero_le _) (sizes.sendSeg_advances segment
              segmentSize cells _ more ⟨cell, member, takes⟩)
      · have finished : lastPacked (sizes.data - sizes.pkt) packed 0 segmentSize =
            segmentSize := by omega
        refine ⟨⟨[read segment 0 (segmentSize - 0)], segmentSize, false⟩,
          ⟨by simp, .inr ⟨rfl, rfl⟩, Nat.zero_le _⟩, rfl, ?_⟩
        simp [finished]

/-- With enough free cells the whole segment is sent. -/
theorem sendSegMessage_all
    {free : Free}
    (fbox : free.fbox = false)
    (header : Nat → Byte)
    (headerSz : Nat)
    (segment : Nat → Byte)
    (segmentSize : Nat)
    (advances : ∀ packed ∈ free.cells, 0 < packed)
    (enough : segmentSize < free.cells.length) :
    (sizes.sendSegMessage free header headerSz segment 0 segmentSize).again = false := by
  unfold sendSegMessage sendSegHeader
  simp only [fbox, Bool.false_and, Bool.false_eq_true, if_false]
  cases isCells : free.cells with
  | nil =>
    rw [isCells] at enough
    exact absurd enough (Nat.not_lt_zero _)
  | cons packed cells =>
    rw [isCells] at enough advances
    rw [length_cons] at enough
    by_cases more : lastPacked (sizes.data - sizes.pkt) packed 0 segmentSize < segmentSize
    · have sentAll := sizes.sendSeg_all segment segmentSize cells _ more
        (forall_mem_cons.mp advances).2 (by omega)
      simp [more, sentAll]
    · simp [more]

end Sizes

end Mpich.Nemesis.Send
