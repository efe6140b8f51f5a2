import Mathlib.Data.List.Basic
import Mathlib.Data.List.GetD

/-!
# One link: a box and a queue

What one process sends to another goes through a box that holds one packet or
through a queue. Each packet has a sequence number of 16 bits, and the receiver takes
a packet only when its number is the next one. As long as fewer than 2^16 packets are
under way the numbers put the packets back in order.
-/

namespace Mpich.Nemesis.Fastbox

open List

/-- A packet; `first` marks the first of a message. -/
structure Packet (Proc Content : Type*) where
  source : Proc
  seqno : BitVec 16
  payload : Content
  first : Bool

/-- What the sender of a link is doing with it. -/
inductive LinkSender (Proc Content : Type*)
  | idle
  /-- The box has been seen empty. -/
  | boxing (payload : Content)
  /-- The packet has been written into the box, and the flag is not set yet. -/
  | raising (packet : Packet Proc Content)
  /-- The packet has been written into a cell that is not in the queue yet and that
  holds `written`. -/
  | posting (packet written : Packet Proc Content)

/-- What the receiver of a link holds of it. -/
inductive LinkHolder (Proc Content : Type*)
  | nothing
  | box
  | cell (packet : Packet Proc Content)

structure Link (Proc Content : Type*) where
  flag : Bool
  box : Packet Proc Content
  queue : List (Packet Proc Content)
  sendSeqno : BitVec 16
  recvSeqno : BitVec 16
  sent : List (Packet Proc Content)
  received : List (Packet Proc Content)
  sender : LinkSender Proc Content
  holder : LinkHolder Proc Content

namespace Link

variable {Proc Content : Type*}

/-- What can happen on a link. -/
inductive Step (source : Proc) : Link Proc Content → Link Proc Content → Prop
  | stay (link : Link Proc Content) : Step source link link
  | seeEmpty (link : Link Proc Content) (payload : Content) :
      link.sender = .idle → link.flag = false →
      Step source link { link with sender := .boxing payload }
  | fillBox (link : Link Proc Content) (payload : Content) :
      link.sender = .boxing payload →
      Step source link { link with
        box := ⟨source, link.sendSeqno, payload, true⟩
        sendSeqno := link.sendSeqno + 1
        sender := .raising ⟨source, link.sendSeqno, payload, true⟩ }
  | raise (link : Link Proc Content) (packet : Packet Proc Content) :
      link.sender = .raising packet →
      Step source link { link with
        flag := true
        sent := link.sent ++ [packet]
        sender := .idle }
  | fillCell (link : Link Proc Content) (payload : Content) (first : Bool) :
      link.sender = .idle →
      Step source link { link with
        sendSeqno := link.sendSeqno + 1
        sender := .posting ⟨source, link.sendSeqno, payload, first⟩
          ⟨source, link.sendSeqno, payload, first⟩ }
  | post (link : Link Proc Content) (packet written : Packet Proc Content) :
      link.sender = .posting packet written →
      Step source link { link with
        queue := link.queue ++ [written]
        sent := link.sent ++ [packet]
        sender := .idle }
  | takeBox (link : Link Proc Content) :
      link.holder = .nothing → link.flag = true → link.box.seqno = link.recvSeqno →
      Step source link { link with
        recvSeqno := link.recvSeqno + 1
        received := link.received ++ [link.box]
        holder := .box }
  | takeCell (link : Link Proc Content) (packet : Packet Proc Content)
      (rest : List (Packet Proc Content)) :
      link.holder = .nothing → link.queue = packet :: rest →
      packet.seqno = link.recvSeqno →
      Step source link { link with
        queue := rest
        recvSeqno := link.recvSeqno + 1
        received := link.received ++ [packet]
        holder := .cell packet }
  | releaseBox (link : Link Proc Content) :
      link.holder = .box →
      Step source link { link with flag := false, holder := .nothing }
  | releaseCell (link : Link Proc Content) (packet : Packet Proc Content) :
      link.holder = .cell packet →
      Step source link { link with holder := .nothing }

/-- The box holds a packet that has not been received. -/
def Loaded
    (link : Link Proc Content) : Prop :=
  link.flag = true ∧ link.holder ≠ .box

/-- The packets that are under way, by the place of the one in the box. -/
structure UnderWay
    (link : Link Proc Content)
    (packets : List (Packet Proc Content)) : Prop where
  sent : link.sent = link.received ++ packets
  queued : ¬ link.Loaded → link.queue = packets
  loaded : link.Loaded → ∃ front back,
    packets = front ++ link.box :: back ∧ link.queue = front ++ back

/-- The invariant of a link. -/
structure Invariant
    (source : Proc)
    (link : Link Proc Content) : Prop where
  underWay : ∃ packets, link.UnderWay packets
  numbered : ∀ index packet, link.sent[index]? = some packet →
    packet.seqno = BitVec.ofNat 16 index ∧ packet.source = source
  recvSeqno : link.recvSeqno = BitVec.ofNat 16 link.received.length
  sendSeqno : (link.sender = .idle ∨ ∃ payload, link.sender = .boxing payload) →
    link.sendSeqno = BitVec.ofNat 16 link.sent.length
  boxing : ∀ payload, link.sender = .boxing payload → link.flag = false
  raising : ∀ packet, link.sender = .raising packet → link.flag = false ∧ link.box = packet ∧
    packet.source = source ∧ packet.seqno = BitVec.ofNat 16 link.sent.length ∧
    packet.first = true ∧ link.sendSeqno = BitVec.ofNat 16 (link.sent.length + 1)
  posting : ∀ packet written, link.sender = .posting packet written → written = packet ∧
    packet.source = source ∧ packet.seqno = BitVec.ofNat 16 link.sent.length ∧
    link.sendSeqno = BitVec.ofNat 16 (link.sent.length + 1)
  first : link.flag = true → link.box.first = true
  heldBox : link.holder = .box → link.flag = true ∧ link.received.getLast? = some link.box
  heldCell : ∀ packet, link.holder = .cell packet → link.received.getLast? = some packet

/-- Numbers that are equal modulo 2^16 and close to each other are equal. -/
theorem eq_of_ofNat_eq
    {first second : Nat}
    (same : BitVec.ofNat 16 first = BitVec.ofNat 16 second)
    (order : second ≤ first)
    (near : first < second + 65536) :
    first = second := by
  have remainders := congrArg BitVec.toNat same
  rw [BitVec.toNat_ofNat, BitVec.toNat_ofNat] at remainders
  omega

theorem ofNat_succ (index : Nat) :
    BitVec.ofNat 16 index + 1 = BitVec.ofNat 16 (index + 1) :=
  (BitVec.ofNat_add index 1).symm

namespace Invariant

variable {source : Proc} {link : Link Proc Content}

section

variable
    (invariant : link.Invariant source)
    {packets : List (Packet Proc Content)}
    (underWay : link.UnderWay packets)
    {index : Nat} {packet : Packet Proc Content}
    (isPacket : packets[index]? = some packet)

include invariant underWay isPacket

/-- The number of a packet that is under way. -/
theorem seqno_underWay :
    packet.seqno = BitVec.ofNat 16 (link.received.length + index) := by
  apply (invariant.numbered _ packet _).1
  rw [underWay.sent, getElem?_append_right (Nat.le_add_right _ _), Nat.add_sub_cancel_left]
  exact isPacket

/-- A packet that is next is the first under way. -/
theorem index_eq_zero
    (isNext : packet.seqno = link.recvSeqno)
    (near : index < 65536) :
    index = 0 := by
  rw [invariant.seqno_underWay underWay isPacket, invariant.recvSeqno] at isNext
  have same := eq_of_ofNat_eq isNext (Nat.le_add_right _ _) (by omega)
  omega

end

variable {packet : Packet Proc Content}

section

variable (invariant : link.Invariant source)

include invariant

/-- The first packet under way is next. -/
theorem isNext_of_first
    {rest : List (Packet Proc Content)}
    (underWay : link.UnderWay (packet :: rest)) :
    packet.seqno = link.recvSeqno := by
  have head : (packet :: rest)[0]? = some packet := rfl
  rw [invariant.recvSeqno]
  exact invariant.seqno_underWay underWay head

/-- When packets are under way, one of them is next, in the box or at the head of the
queue; and the head of the queue is not blocked unless the box is next. -/
theorem available
    (waiting : link.sent ≠ link.received) :
    (link.Loaded ∧ link.box.seqno = link.recvSeqno) ∨
      ∃ packet rest, link.queue = packet :: rest ∧ packet.seqno = link.recvSeqno := by
  obtain ⟨packets, underWay⟩ := invariant.underWay
  by_cases loaded : link.Loaded
  · obtain ⟨front, back, rfl, isQueue⟩ := underWay.loaded loaded
    cases front with
    | nil => exact .inl ⟨loaded, invariant.isNext_of_first underWay⟩
    | cons packet front =>
      exact .inr ⟨packet, front ++ back, isQueue, invariant.isNext_of_first underWay⟩
  · have isQueue := underWay.queued loaded
    cases packets with
    | nil => exact absurd (by rw [underWay.sent, append_nil]) waiting
    | cons packet rest =>
      exact .inr ⟨packet, rest, isQueue, invariant.isNext_of_first underWay⟩

omit invariant in
/-- A link on which nothing has been sent. -/
theorem initial
    (source : Proc)
    (box : Packet Proc Content) :
    Link.Invariant source ⟨false, box, [], 0, 0, [], [], .idle, .nothing⟩ where
  underWay := ⟨[], rfl, fun _ => rfl, fun loaded => absurd loaded.1 Bool.false_ne_true⟩
  numbered := nofun
  recvSeqno := rfl
  sendSeqno := fun _ => rfl
  boxing := nofun
  raising := nofun
  posting := nofun
  first := nofun
  heldBox := nofun
  heldCell := nofun

omit invariant in
/-- The numbers of the packets sent, after one more. -/
theorem numbered_append
    {sent : List (Packet Proc Content)}
    (numbered : ∀ index packet, sent[index]? = some packet →
      packet.seqno = BitVec.ofNat 16 index ∧ packet.source = source)
    (isSource : packet.source = source)
    (isSeqno : packet.seqno = BitVec.ofNat 16 sent.length) :
    ∀ index other, (sent ++ [packet])[index]? = some other →
      other.seqno = BitVec.ofNat 16 index ∧ other.source = source := by
  intro index other isOther
  by_cases earlier : index < sent.length
  · rw [getElem?_append_left earlier] at isOther
    exact numbered index other isOther
  · have inside := (List.getElem?_eq_some_iff.mp isOther).1
    rw [length_append, length_singleton] at inside
    have isLast : index = sent.length := by omega
    subst isLast
    rw [getElem?_concat_length] at isOther
    cases isOther
    exact ⟨isSeqno, isSource⟩

/-- The packet in the box, when it is next, is the first under way. -/
theorem front_eq_nil
    {front back : List (Packet Proc Content)}
    (underWay : link.UnderWay (front ++ link.box :: back))
    (isNext : link.box.seqno = link.recvSeqno)
    (near : front.length < 65536) :
    front = [] := by
  apply eq_nil_of_length_eq_zero
  refine invariant.index_eq_zero underWay ?_ isNext near
  rw [getElem?_append_right (Nat.le_refl _), Nat.sub_self]
  rfl

/-- The packet at the head of the queue, when it is next, is not behind the box. -/
theorem front_ne_nil
    {rest : List (Packet Proc Content)}
    (underWay : link.UnderWay (link.box :: packet :: rest))
    (isNext : packet.seqno = link.recvSeqno) :
    False := by
  have second : (link.box :: packet :: rest)[1]? = some packet := rfl
  exact absurd (invariant.index_eq_zero underWay second isNext (by decide)) (by decide)

/-- A step of a link keeps the invariant. -/
theorem step
    {next : Link Proc Content}
    (stepped : Step source link next)
    (short : link.queue.length < 65536) :
    next.Invariant source := by
  obtain ⟨packets, underWay⟩ := invariant.underWay
  cases stepped with
  | stay => exact invariant
  | seeEmpty payload isIdle empty =>
    refine ⟨⟨packets, underWay.sent, underWay.queued, underWay.loaded⟩,
      invariant.numbered, invariant.recvSeqno, fun _ => ?_, fun _ _ => empty,
      fun _ => nofun, fun _ _ => nofun, invariant.first, invariant.heldBox, invariant.heldCell⟩
    exact invariant.sendSeqno (.inl isIdle)
  | fillBox payload isBoxing =>
    have isEmpty := invariant.boxing payload isBoxing
    have isSeqno := invariant.sendSeqno (.inr ⟨payload, isBoxing⟩)
    have notLoaded : ¬ link.Loaded := by
      rintro ⟨isFull, _⟩
      rw [isEmpty] at isFull
      cases isFull
    refine ⟨⟨packets, underWay.sent, fun _ => underWay.queued notLoaded, ?_⟩,
      invariant.numbered, invariant.recvSeqno, ?_, fun _ => nofun, ?_,
      fun _ _ => nofun, ?_, ?_, invariant.heldCell⟩
    · rintro ⟨isFull, _⟩
      exact absurd (isEmpty.symm.trans isFull) nofun
    · rintro (isIdle | ⟨_, isBoxing⟩)
      · cases isIdle
      · cases isBoxing
    · intro packet isPacket
      cases isPacket
      refine ⟨isEmpty, rfl, rfl, isSeqno, rfl, ?_⟩
      rw [isSeqno, ofNat_succ]
    · intro isFull
      exact absurd (isEmpty.symm.trans isFull) nofun
    · intro isHeld
      exact absurd (isEmpty.symm.trans (invariant.heldBox isHeld).1) nofun
  | raise packet isRaising =>
    obtain ⟨isEmpty, rfl, isSource, isSeqno, isFirst, isNext⟩ := invariant.raising packet isRaising
    have notLoaded : ¬ link.Loaded := by
      rintro ⟨isFull, _⟩
      rw [isEmpty] at isFull
      cases isFull
    have notHeld : link.holder ≠ .box := by
      intro isHeld
      exact absurd (isEmpty.symm.trans (invariant.heldBox isHeld).1) nofun
    refine ⟨⟨packets ++ [link.box], ?_, ?_, ?_⟩,
      numbered_append invariant.numbered isSource isSeqno, invariant.recvSeqno, ?_,
      fun _ => nofun, fun _ => nofun, fun _ _ => nofun, fun _ => isFirst,
      fun isHeld => absurd isHeld notHeld, invariant.heldCell⟩
    · dsimp only
      rw [underWay.sent, append_assoc]
    · exact fun unloaded => absurd ⟨rfl, notHeld⟩ unloaded
    · exact fun _ => ⟨packets, [], rfl, by
        rw [append_nil]
        exact underWay.queued notLoaded⟩
    · intro _
      rw [isNext, length_append, length_singleton]
  | fillCell payload first isIdle =>
    have isSeqno := invariant.sendSeqno (.inl isIdle)
    refine ⟨⟨packets, underWay.sent, underWay.queued, underWay.loaded⟩,
      invariant.numbered, invariant.recvSeqno, ?_, fun _ => nofun, fun _ => nofun, ?_,
      invariant.first, invariant.heldBox, invariant.heldCell⟩
    · rintro (isIdle | ⟨_, isBoxing⟩)
      · cases isIdle
      · cases isBoxing
    · rintro packet written isPacket
      cases isPacket
      refine ⟨rfl, rfl, isSeqno, ?_⟩
      rw [isSeqno, ofNat_succ]
  | post packet written isPosting =>
    obtain ⟨rfl, isSource, isSeqno, isNext⟩ := invariant.posting packet written isPosting
    refine ⟨⟨packets ++ [written], ?_, ?_, ?_⟩,
      numbered_append invariant.numbered isSource isSeqno, invariant.recvSeqno, ?_,
      fun _ => nofun, fun _ => nofun, fun _ _ => nofun, invariant.first,
      invariant.heldBox, invariant.heldCell⟩
    · dsimp only
      rw [underWay.sent, append_assoc]
    · exact fun unloaded => congrArg (· ++ [written]) (underWay.queued unloaded)
    · intro loaded
      obtain ⟨front, back, isSplit, isQueue⟩ := underWay.loaded loaded
      refine ⟨front, back ++ [written], ?_, ?_⟩
      · rw [isSplit, append_assoc, cons_append]
      · dsimp only
        rw [isQueue, append_assoc]
    · intro _
      rw [isNext, length_append, length_singleton]
  | takeBox isFree isFull isNext =>
    have loaded : link.Loaded := ⟨isFull, by rw [isFree]; nofun⟩
    obtain ⟨front, back, rfl, isQueue⟩ := underWay.loaded loaded
    have near : front.length < 65536 := by
      rw [isQueue, length_append] at short
      omega
    have isFront := invariant.front_eq_nil underWay isNext near
    subst isFront
    refine ⟨⟨back, ?_, fun _ => isQueue, fun loaded => absurd rfl loaded.2⟩,
      invariant.numbered, ?_, invariant.sendSeqno, invariant.boxing, invariant.raising,
      invariant.posting, invariant.first, fun _ => ⟨isFull, ?_⟩, fun _ => nofun⟩
    · rw [append_assoc]
      exact underWay.sent
    · dsimp only
      rw [invariant.recvSeqno, ofNat_succ, length_append, length_singleton]
    · exact getLast?_concat
  | takeCell packet rest isFree isQueue isNext =>
    have isReceived : ∀ later, packets = packet :: later →
        link.sent = link.received ++ [packet] ++ later := by
      intro later isPackets
      rw [append_assoc, underWay.sent, isPackets]
      rfl
    have notBox : link.holder ≠ .box := by
      rw [isFree]
      nofun
    have isCount : link.recvSeqno + 1 = BitVec.ofNat 16 (link.received ++ [packet]).length := by
      rw [invariant.recvSeqno, ofNat_succ, length_append, length_singleton]
    have isLast : (link.received ++ [packet]).getLast? = some packet := getLast?_concat
    by_cases loaded : link.Loaded
    · obtain ⟨front, back, rfl, isSplit⟩ := underWay.loaded loaded
      rw [isQueue] at isSplit
      cases front with
      | nil =>
        rw [nil_append] at isSplit
        rw [← isSplit] at underWay
        exact (invariant.front_ne_nil underWay isNext).elim
      | cons head front =>
        obtain ⟨rfl, isRest⟩ := List.cons.inj isSplit
        exact ⟨⟨front ++ link.box :: back, isReceived _ rfl,
            fun unloaded => absurd ⟨loaded.1, nofun⟩ unloaded, fun _ => ⟨front, back, rfl, isRest⟩⟩,
          invariant.numbered, isCount, invariant.sendSeqno, invariant.boxing,
          invariant.raising, invariant.posting, invariant.first, nofun,
          fun _ isHeld => by cases isHeld; exact isLast⟩
    · have isPackets := underWay.queued loaded
      rw [isQueue] at isPackets
      have unloaded : link.flag ≠ true := fun isFull => loaded ⟨isFull, notBox⟩
      exact ⟨⟨rest, isReceived _ isPackets.symm, fun _ => rfl,
          fun loaded => absurd loaded.1 unloaded⟩,
        invariant.numbered, isCount, invariant.sendSeqno, invariant.boxing,
        invariant.raising, invariant.posting, invariant.first, nofun,
        fun _ isHeld => by cases isHeld; exact isLast⟩
  | releaseBox isHeld =>
    have notLoaded : ¬ link.Loaded := fun loaded => loaded.2 isHeld
    exact ⟨⟨packets, underWay.sent, fun _ => underWay.queued notLoaded,
        fun loaded => absurd loaded.1 nofun⟩,
      invariant.numbered, invariant.recvSeqno, invariant.sendSeqno, fun _ _ => rfl,
      fun packet isRaising => ⟨rfl, (invariant.raising packet isRaising).2⟩,
      invariant.posting, nofun, nofun, fun _ => nofun⟩
  | releaseCell packet isHeld =>
    have notBox : link.holder ≠ .box := by
      rw [isHeld]
      nofun
    exact ⟨⟨packets, underWay.sent,
        fun unloaded => underWay.queued fun loaded => unloaded ⟨loaded.1, nofun⟩,
        fun loaded => underWay.loaded ⟨loaded.1, notBox⟩⟩,
      invariant.numbered, invariant.recvSeqno, invariant.sendSeqno, invariant.boxing,
      invariant.raising, invariant.posting, invariant.first, nofun, fun _ => nofun⟩

end

end Mpich.Nemesis.Fastbox.Link.Invariant
