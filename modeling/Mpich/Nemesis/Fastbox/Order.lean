import Mpich.Nemesis.Fastbox.Steps

/-!
# The order of the packets

In every run of the node, what a receiver is returned from a sender is the beginning of
what the sender has sent, and a receiver for which packets are under way finds one that
is next in a fastbox or at the head of its receive queue.
-/

namespace Mpich.Nemesis.Fastbox

open List

namespace Link

variable {Proc Content : Type*} {source : Proc} {link : Link Proc Content}

/-- A packet in the queue has been sent and not received. -/
theorem Invariant.waiting
    (invariant : link.Invariant source)
    (nonempty : link.queue ≠ []) :
    link.sent ≠ link.received := by
  obtain ⟨packets, underWay⟩ := invariant.underWay
  have some : packets ≠ [] := by
    by_cases loaded : link.Loaded
    · obtain ⟨front, back, isSplit, _⟩ := underWay.loaded loaded
      rw [isSplit]
      exact append_ne_nil_of_right_ne_nil front (cons_ne_nil _ back)
    · rwa [← underWay.queued loaded]
  intro same
  rw [underWay.sent] at same
  exact some (append_right_eq_self.mp same)

/-- What has been received is the beginning of what has been sent. -/
theorem Invariant.isPrefix_received (invariant : link.Invariant source) :
    link.received <+: link.sent := by
  obtain ⟨packets, underWay⟩ := invariant.underWay
  exact ⟨packets, underWay.sent.symm⟩

end Link

variable {Proc Cell Content : Type*} [DecidableEq Proc]

namespace State

/-- A fastbox to the process, or the head of its receive queue, holds a packet whose
sequence number matches and that it has not been returned. -/
def Matching
    (state : State Proc Cell Content)
    (process : Proc) : Prop :=
  (∃ source, state.matchesFbox process source = true ∧ state.receiving process ≠ .hasFbox source) ∨
  ∃ cell rest, state.recvQ process = cell :: rest ∧
    (state.memory cell).seqno = state.recvSeqno process (state.memory cell).source

/-- What holds in every state of the node. -/
structure Sound
    (state : State Proc Cell Content) : Prop where
  /-- What has been returned is the beginning of what has been sent. -/
  inOrder : ∀ source dest, state.received source dest <+: state.sent source dest
  /-- A fastbox that has been returned holds the last packet until it is released, and
  the packet is the first of a message. -/
  hasFbox : ∀ source dest, state.receiving dest = .hasFbox source →
    (state.received source dest).getLast? = some (state.fbox source dest) ∧
      (state.fbox source dest).first = true
  /-- A cell that has been returned holds the last packet until it is released. -/
  hasCell : ∀ cell dest, state.receiving dest = .hasCell cell →
    (state.received (state.memory cell).source dest).getLast? = some (state.memory cell)
  /-- A fastbox is written only when what was in it has been released. -/
  released : ∀ source dest payload, state.sending source = .writeFbox dest payload →
    state.flag source dest = false ∧ state.receiving dest ≠ .hasFbox source
  /-- Whoever has been sent more than it has been returned finds the next packet. -/
  available : ∀ source dest, state.received source dest ≠ state.sent source dest →
    state.Matching dest

variable {setup : Cells Proc Cell} {state : State Proc Cell Content}

/-- The box of a link that is loaded, with the next packet. -/
theorem Matching.of_box
    {source dest : Proc}
    (loaded : (state.link source dest).Loaded)
    (isNext : (state.link source dest).box.seqno = (state.link source dest).recvSeqno) :
    state.Matching dest := by
  refine .inl ⟨source, ?_, ?_⟩
  · rw [matchesFbox, Bool.and_eq_true, beq_iff_eq]
    exact ⟨loaded.1, isNext⟩
  · intro isHeld
    apply loaded.2
    simp [link, isHeld, Receiving.link]

/-- The first packet of a link in the receive queue, when it is at the head. -/
theorem link_queue_head
    {dest : Proc} {cell : Cell} {rest : List Cell}
    (isQueue : state.recvQ dest = cell :: rest) :
    (state.link (state.memory cell).source dest).queue =
      state.memory cell :: packetsFrom state.memory (state.memory cell).source rest := by
  simp [link, isQueue, packetsFrom]

/-- The head of the receive queue may be of another sender than the one that waits; then
the other one waits too, and its next packet is in its fastbox or this head. -/
theorem Valid.matching
    (valid : state.Valid setup)
    {source dest : Proc}
    (waiting : state.received source dest ≠ state.sent source dest) :
    state.Matching dest := by
  rcases (valid.links source dest).available waiting.symm with
    ⟨loaded, isNext⟩ | ⟨packet, behind, isBehind, _⟩
  · exact .of_box loaded isNext
  · cases isQueue : state.recvQ dest with
    | nil =>
      have isEmpty : (state.link source dest).queue = [] := by
        simp [link, isQueue, packetsFrom]
      rw [isEmpty] at isBehind
      cases isBehind
    | cons cell rest =>
      have isHead := link_queue_head isQueue
      have invariant := valid.links (state.memory cell).source dest
      have headWaiting := invariant.waiting (by rw [isHead]; exact cons_ne_nil _ _)
      rcases invariant.available headWaiting with ⟨loaded, isNext⟩ | ⟨_, _, isFirst, isNext⟩
      · exact .of_box loaded isNext
      · rw [isHead] at isFirst
        obtain ⟨rfl, _⟩ := List.cons.inj isFirst
        exact .inr ⟨cell, rest, isQueue, isNext⟩

theorem Valid.sound (valid : state.Valid setup) :
    state.Sound where
  inOrder := fun source dest => (valid.links source dest).isPrefix_received
  hasFbox := by
    intro source dest isPlace
    have isHeld : (state.link source dest).holder = .box := by
      simp [link, isPlace, Receiving.link]
    obtain ⟨isFull, isLast⟩ := (valid.links source dest).heldBox isHeld
    exact ⟨isLast, (valid.links source dest).first isFull⟩
  hasCell := by
    intro cell dest isPlace
    apply (valid.links (state.memory cell).source dest).heldCell
    simp [link, isPlace, Receiving.link]
  released := by
    intro source dest payload isPlace
    have isBoxing : (state.link source dest).sender = .boxing payload := by
      simp [link, isPlace, Sending.link]
    have isEmpty := (valid.links source dest).boxing payload isBoxing
    refine ⟨isEmpty, fun isHeld => ?_⟩
    have held : (state.link source dest).holder = .box := by
      simp [link, isHeld, Receiving.link]
    exact absurd (isEmpty.symm.trans ((valid.links source dest).heldBox held).1) Bool.false_ne_true
  available := fun _ _ => valid.matching

end State

variable [DecidableEq Cell]

/-- In every run of the node the packets arrive once and in order, and no process is
stuck in a send or a receive. -/
theorem packets_in_order
    (setup : Cells Proc Cell)
    (state : State Proc Cell Content)
    (reachable : (node setup).Reachable state) :
    state.Sound ∧ (node setup).Responsive state := by
  have valid := State.Valid.reachable reachable
  refine ⟨valid.sound, ?_⟩
  intro action enabled
  obtain ⟨_, isNext, _⟩ := valid.step action enabled
  rw [isNext]
  rfl

/-- Two processes with a cell each. -/
def sampleCells : Cells Bool Bool where
  cells := fun process => [process]
  disjoint := by decide
  few := by decide

/-- Nothing has been sent yet. -/
def sampleStart : State Bool Bool Nat where
  sendSeqno := fun _ _ => 0
  recvSeqno := fun _ _ => 0
  flag := fun _ _ => false
  fbox := fun _ _ => ⟨false, 0, 0, false⟩
  memory := fun _ => ⟨false, 0, 0, false⟩
  freeQ := fun process => [process]
  prefetched := fun _ => none
  recvQ := fun _ => []
  sending := fun _ => .idle
  receiving := fun _ => .idle
  sent := fun _ _ => []
  received := fun _ _ => []

theorem sampleStart_initial :
    sampleStart.Initial sampleCells where
  sendSeqno := fun _ _ => rfl
  recvSeqno := fun _ _ => rfl
  flag := fun _ _ => rfl
  freeQ := fun process => ⟨nodup_singleton process, fun _ => id⟩
  prefetched := fun _ => rfl
  recvQ := fun _ => rfl
  sending := fun _ => rfl
  receiving := fun _ => rfl
  sent := fun _ _ => rfl
  received := fun _ _ => rfl

/-- A header goes through the fastbox, and the receiver is returned it. -/
theorem packets_in_order_sample :
    ∃ state : State Bool Bool Nat, state.received false true = [⟨false, 0, 7, true⟩] ∧
        state.Sound ∧ (node sampleCells).Responsive state := by
  have start : (node sampleCells).Reachable sampleStart := .initial sampleStart_initial
  have called := start.step (Action.sendHeader false true 7 true) rfl rfl
  have tested := called.step (Action.send false) nofun rfl
  have written := tested.step (Action.send false) nofun rfl
  have raised := written.step (Action.send false) nofun rfl
  have polling := raised.step (Action.recv true false [false]) rfl rfl
  have returned := polling.step (Action.advance true false []) nofun rfl
  exact ⟨_, rfl, packets_in_order sampleCells _ returned⟩

end Mpich.Nemesis.Fastbox
