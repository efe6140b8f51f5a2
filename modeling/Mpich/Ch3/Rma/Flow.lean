import Mathlib.Data.List.Perm.Basic
import Mpich.Ch3.Rma.Requests

/-!
# Nothing is lost between an origin and a target

The packets of an epoch that one origin issues to one target are, at any time,
handled, on their way or still to be issued. Once the operation that is marked as the
last one has been performed, all others have been, if the operations are such that
the responses to gets cannot be overtaken.
-/

namespace Mpich.Ch3.Rma

open List

open Fence (RmaType)

/-- After some loads that go directly to the window, the rest of the data passes
through a buffer: the data of a load take up less than the density asks for, and more
follow. -/
def Sparse (pieces : List Nat) : Prop :=
  ∃ loads < pieces.length, iovLimit * (loads + 1) < pieces.length ∧
    ((pieces.drop (iovLimit * loads)).take iovLimit).sum / iovLimit < iovDensityMin

instance : DecidablePred Sparse :=
  fun _ => inferInstanceAs (Decidable (∃ _ < _, _))

/-- The loads for some data end in the handler that applies them. -/
def Delivered (pieces : List Nat) : Prop :=
  pieces.length ≤ iovLimit ∨ Sparse pieces

instance : DecidablePred Delivered :=
  fun _ => inferInstanceAs (Decidable (_ ∨ _))

/-- The data of an operation are applied when they have arrived. -/
def Body.Delivered : Body → Prop
  | .op rmaOp => rmaOp.type = .get ∨ Rma.Delivered rmaOp.pieces
  | .emptyPut => True

instance : DecidablePred Body.Delivered
  | .op _ => inferInstanceAs (Decidable (_ ∨ _))
  | .emptyPut => isTrue trivial

/-- A handler leads to the one that applies the data of a packet. -/
def Handler.Leads (packet : Packet) : Handler → Prop
  | .derivedDTComplete => packet.body.Delivered ∧ packet.body ≠ .emptyPut
  | .putAccumRespComplete => packet.body.isGet = false
  | .reloadIOV pieces => packet.body.isGet = false ∧ Sparse pieces
  | .unpackSRBufComplete => packet.body.isGet = false
  | .null => False

theorem Handler.leads_loadRecvIov
    {packet : Packet} {pieces : List Nat}
    (data : packet.body.isGet = false)
    (sparse : Sparse pieces) :
    (loadRecvIov pieces).Leads packet := by
  obtain ⟨loads, -, more, light⟩ := sparse
  unfold loadRecvIov
  split
  · next few =>
      rw [Nat.mul_add, mul_one] at more
      omega
  · split
    · next dense =>
        -- The load that does not fill the entries enough is a later one.
        cases loads with
        | zero =>
          rw [mul_zero, drop_zero] at light
          omega
        | succ loads =>
          refine ⟨data, loads, ?_, ?_, ?_⟩
          · rw [length_drop]
            simp only [iovLimit] at more ⊢
            omega
          · rw [length_drop]
            simp only [iovLimit] at more ⊢
            omega
          · rw [drop_drop]
            have offset : iovLimit + iovLimit * loads = iovLimit * (loads + 1) := by
              rw [Nat.mul_add, mul_one, add_comm]
            rw [offset]
            exact light
    · exact data

theorem Handler.leads_firstLoad
    {packet : Packet} {pieces : List Nat}
    (data : packet.body.isGet = false)
    (delivered : Delivered pieces) :
    (firstLoad pieces).Leads packet := by
  rcases delivered with few | sparse
  · have reset : loadRecvIov pieces = .null := if_pos few
    rw [firstLoad, reset]
    exact data
  · have leads := Handler.leads_loadRecvIov data sparse
    unfold firstLoad
    split
    · exact data
    · exact leads

namespace Pipe

/-- The packets that have been issued and whose handling is not over. -/
def coming (pipe : Pipe) : List Packet :=
  (pipe.receiving.map Prod.fst).toList ++ pipe.channel

/-- Every handler leads to the right end, and only responses to gets are sent. -/
structure Sound (pipe : Pipe) : Prop where
  channel : ∀ packet ∈ pipe.channel, packet.body.Delivered
  receiving : ∀ packet handler, pipe.receiving = some (packet, handler) → handler.Leads packet
  sending : ∀ packet ∈ pipe.sending, packet.body.isGet

/-- What an event can do with the packets of a pipe. -/
inductive Moves (pipe next : Pipe) : Option Packet → Prop
  | stay (coming : next.coming = pipe.coming)
      (sending : next.sending = pipe.sending)
      (finished : next.finished = pipe.finished) : Moves pipe next none
  | respond (packet : Packet)
      (get : packet.body.isGet)
      (coming : pipe.coming = packet :: next.coming)
      (sending : next.sending = pipe.sending ++ [packet])
      (finished : next.finished = pipe.finished) : Moves pipe next none
  | apply (packet : Packet)
      (data : packet.body.isGet = false)
      (coming : pipe.coming = packet :: next.coming)
      (sending : next.sending = pipe.sending)
      (finished : next.finished = pipe.finished ++ [packet]) :
      Moves pipe next (some packet)
  | finishSend (packet : Packet)
      (get : packet.body.isGet)
      (coming : next.coming = pipe.coming)
      (sending : pipe.sending = packet :: next.sending)
      (finished : next.finished = pipe.finished ++ [packet]) :
      Moves pipe next (some packet)

variable {pipe next : Pipe} {packet : Packet} {out : Option Packet}

theorem sound_create : create.Sound where
  channel := fun _ member => absurd member not_mem_nil
  receiving := fun _ _ impossible => nomatch impossible
  sending := fun _ member => absurd member not_mem_nil

@[simp] theorem coming_issue :
    (pipe.issue packet).coming = pipe.coming ++ [packet] := by
  unfold issue coming
  split
  · exact (append_assoc ..).symm
  · exact (append_assoc ..).symm

@[simp] theorem sending_issue : (pipe.issue packet).sending = pipe.sending := by
  unfold issue
  split <;> rfl

@[simp] theorem finished_issue : (pipe.issue packet).finished = pipe.finished := by
  unfold issue
  split <;> rfl

section

variable (sound : pipe.Sound)

include sound

theorem sound_issue
    (delivered : packet.body.Delivered) :
    (pipe.issue packet).Sound := by
  have channel : (pipe.issue packet).channel = pipe.channel ++ [packet] := by
    unfold issue
    split <;> rfl
  have receiving : (pipe.issue packet).receiving = pipe.receiving := by
    unfold issue
    split <;> rfl
  constructor
  · intro other member
    rw [channel, mem_append, mem_singleton] at member
    rcases member with member | rfl
    · exact sound.channel other member
    · exact delivered
  · rw [receiving]
    exact sound.receiving
  · rw [sending_issue]
    exact sound.sending

theorem sound_respond
    (get : packet.body.isGet) :
    (pipe.respond packet).Sound where
  channel := sound.channel
  receiving := fun _ _ impossible => nomatch impossible
  sending := by
    intro other member
    simp only [respond, mem_append, mem_singleton] at member
    rcases member with member | rfl
    · exact sound.sending other member
    · exact get

theorem sound_apply : (pipe.apply packet).Sound where
  channel := sound.channel
  receiving := fun _ _ impossible => nomatch impossible
  sending := sound.sending

theorem sound_receive
    {handler : Handler}
    (leads : handler.Leads packet) :
    Sound { pipe with receiving := some (packet, handler) } where
  channel := sound.channel
  receiving := by
    intro other otherHandler received
    cases received
    exact leads
  sending := sound.sending

theorem sound_take
    {channel : List Packet}
    (head : pipe.channel = packet :: channel) :
    Sound { pipe with channel := channel } where
  channel := by
    intro other member
    apply sound.channel
    rw [head]
    exact mem_cons_of_mem _ member
  receiving := sound.receiving
  sending := sound.sending

omit sound in
/-- What the handler of a packet does that has been taken out of the channel. -/
theorem accept_spec
    {taken : Pipe}
    (sound : taken.Sound)
    (coming : pipe.coming = packet :: taken.channel)
    (sending : taken.sending = pipe.sending)
    (finished : taken.finished = pipe.finished)
    (delivered : packet.body.Delivered) :
    (taken.accept packet).1.Sound ∧ Moves pipe (taken.accept packet).1 (taken.accept packet).2 := by
  cases body : packet.body with
  | emptyPut =>
    have data : packet.body.isGet = false := by
      rw [body]
      rfl
    simp only [accept, body]
    refine ⟨sound_apply sound, .apply packet data coming sending ?_⟩
    rw [apply, finished]
  | op rmaOp =>
    have described : Handler.Leads packet .derivedDTComplete := by
      refine ⟨delivered, ?_⟩
      rw [body]
      exact Body.noConfusion
    rw [body] at delivered
    simp only [accept, body]
    by_cases predefined : rmaOp.predefined
    · rw [if_pos predefined]
      by_cases get : rmaOp.type = .get
      · have isGet : packet.body.isGet := by simp [body, Body.isGet, get]
        rw [if_pos get]
        refine ⟨sound_respond sound isGet, .respond packet isGet coming ?_ finished⟩
        rw [respond, sending]
      · have data : packet.body.isGet = false := by simp [body, Body.isGet, get]
        rw [if_neg get]
        exact ⟨sound_receive sound (Handler.leads_firstLoad data (delivered.resolve_left get)),
          .stay coming.symm sending finished⟩
    · rw [if_neg predefined]
      exact ⟨sound_receive sound described, .stay coming.symm sending finished⟩

theorem handle_spec
    (handled : pipe.handle = some (next, out)) :
    next.Sound ∧ Moves pipe next out := by
  cases receiving : pipe.receiving with
  | some request => simp [handle, receiving] at handled
  | none =>
    cases channel : pipe.channel with
    | nil => simp [handle, receiving, channel] at handled
    | cons packet rest =>
      have accepted : { pipe with channel := rest }.accept packet = (next, out) := by
        simpa [handle, receiving, channel] using handled
      have coming : pipe.coming = packet :: rest := by
        rw [Pipe.coming, receiving, channel]
        rfl
      have delivered := sound.channel packet (by simp [channel])
      have spec := @accept_spec pipe packet { pipe with channel := rest }
        (sound_take sound channel) coming rfl rfl delivered
      rw [accepted] at spec
      exact spec

theorem arrive_spec
    (arrived : pipe.arrive = some (next, out)) :
    next.Sound ∧ Moves pipe next out := by
  cases receiving : pipe.receiving with
  | none => simp [arrive, receiving] at arrived
  | some request =>
    obtain ⟨packet, handler⟩ := request
    have leads := sound.receiving packet handler receiving
    have coming : pipe.coming = packet :: pipe.channel := by
      rw [Pipe.coming, receiving]
      rfl
    cases handler with
    | derivedDTComplete =>
      cases body : packet.body with
      | emptyPut => exact absurd body leads.2
      | op rmaOp =>
        have delivered := leads.1
        rw [body] at delivered
        simp only [arrive, receiving, body] at arrived
        by_cases get : rmaOp.type = .get
        · have isGet : packet.body.isGet := by simp [body, Body.isGet, get]
          rw [if_pos get] at arrived
          cases arrived
          exact ⟨sound_respond sound isGet, .respond packet isGet coming rfl rfl⟩
        · have data : packet.body.isGet = false := by
            simp [body, Body.isGet, get]
          rw [if_neg get] at arrived
          cases arrived
          exact ⟨sound_receive sound (Handler.leads_firstLoad data (delivered.resolve_left get)),
            .stay coming.symm rfl rfl⟩
    | putAccumRespComplete =>
      simp only [arrive, receiving] at arrived
      cases arrived
      exact ⟨sound_apply sound, .apply packet leads coming rfl rfl⟩
    | unpackSRBufComplete =>
      simp only [arrive, receiving] at arrived
      cases arrived
      exact ⟨sound_apply sound, .apply packet leads coming rfl rfl⟩
    | reloadIOV pieces =>
      simp only [arrive, receiving] at arrived
      cases arrived
      exact ⟨sound_receive sound (Handler.leads_loadRecvIov leads.1 leads.2),
        .stay coming.symm rfl rfl⟩
    | null => exact leads.elim

theorem step_spec
    {event : Event}
    (step : pipe.step event = some (next, out)) :
    next.Sound ∧ Moves pipe next out := by
  cases event with
  | handle => exact handle_spec sound step
  | arrive => exact arrive_spec sound step
  | finishSend =>
    cases sending : pipe.sending with
    | nil => simp [Pipe.step, finishSend, sending] at step
    | cons packet rest =>
      simp only [Pipe.step, finishSend, sending, Option.some.injEq] at step
      cases step
      have gets := sound.sending
      rw [sending] at gets
      refine ⟨⟨sound.channel, sound.receiving, fun other member =>
        gets other (mem_cons_of_mem _ member)⟩, ?_⟩
      exact .finishSend packet (gets packet mem_cons_self) rfl sending rfl
  | completeSend =>
    simp only [Pipe.step, Option.ite_none_right_eq_some, Option.some.injEq] at step
    obtain ⟨-, same⟩ := step
    cases same
    exact ⟨⟨sound.channel, sound.receiving, sound.sending⟩, .stay rfl rfl rfl⟩
  | receiveResponse =>
    simp only [Pipe.step, Option.ite_none_right_eq_some, Option.some.injEq] at step
    obtain ⟨-, same⟩ := step
    cases same
    exact ⟨⟨sound.channel, sound.receiving, sound.sending⟩, .stay rfl rfl rfl⟩

end

end Pipe

/-- The packets of an epoch. -/
def slice (epoch : Nat) (packets : List Packet) : List Packet :=
  packets.filter (·.epoch = epoch)

/-- The get packets. -/
def getPackets (packets : List Packet) : List Packet :=
  packets.filter (·.body.isGet)

/-- The number of packets that are marked as the last one. -/
def lasts (packets : List Packet) : Nat :=
  packets.countP (·.last)

/-- Whether a completed operation signals the end of an epoch. -/
def signal (epoch : Nat) : Option Packet → Nat
  | none => 0
  | some packet => if packet.epoch = epoch ∧ packet.last then 1 else 0

section

variable {epoch : Nat} {packet : Packet} {packets more : List Packet}

@[simp] theorem slice_nil : slice epoch [] = [] := rfl

@[simp] theorem slice_append :
    slice epoch (packets ++ more) = slice epoch packets ++ slice epoch more :=
  filter_append ..

theorem slice_cons_of_eq (same : packet.epoch = epoch) :
    slice epoch (packet :: packets) = packet :: slice epoch packets :=
  filter_cons_of_pos (decide_eq_true same)

theorem slice_cons_of_ne (other : packet.epoch ≠ epoch) :
    slice epoch (packet :: packets) = slice epoch packets :=
  filter_cons_of_neg (by simpa using other)

@[simp] theorem getPackets_append :
    getPackets (packets ++ more) = getPackets packets ++ getPackets more :=
  filter_append ..

theorem getPackets_singleton_of_get (get : packet.body.isGet) : getPackets [packet] = [packet] :=
  filter_cons_of_pos get

theorem getPackets_singleton_of_data (data : packet.body.isGet = false) :
    getPackets [packet] = [] := by
  simp [getPackets, data]

@[simp] theorem lasts_append : lasts (packets ++ more) = lasts packets + lasts more :=
  countP_append ..

@[simp] theorem lasts_nil : lasts [] = 0 := rfl

theorem lasts_slice_singleton :
    lasts (slice epoch [packet]) = signal epoch (some packet) := by
  unfold signal
  by_cases same : packet.epoch = epoch
  · rw [slice_cons_of_eq same]
    simp [lasts, same, countP_cons]
  · rw [slice_cons_of_ne same]
    simp [same]

end

namespace Pipe

variable {pipe next : Pipe} {packet : Packet} {out : Option Packet}
variable {epoch : Nat} {total unsent : List Packet}

/-- The packets of an epoch whose operations have not been performed. -/
def outstanding (pipe : Pipe) (epoch : Nat) (unsent : List Packet) : List Packet :=
  slice epoch pipe.sending ++ (slice epoch pipe.coming ++ unsent)

/-- The packets of an epoch have been handled in order, as far as they have been
issued and arrived, and the responses to gets are sent in that order too. -/
def Flows (pipe : Pipe) (epoch : Nat) (total unsent : List Packet) : Prop :=
  ∃ handled, total = handled ++ (slice epoch pipe.coming ++ unsent) ∧
    (∃ sent, getPackets handled = sent ++ slice epoch pipe.sending) ∧
    handled.Perm (slice epoch pipe.finished ++ slice epoch pipe.sending)

theorem flows_create : create.Flows epoch total total :=
  ⟨[], rfl, ⟨[], rfl⟩, List.Perm.nil⟩

variable (moves : pipe.Moves next out)

include moves in
/-- Nothing of an epoch is lost or duplicated by an event. -/
theorem flows_moves
    (flows : pipe.Flows epoch total unsent) :
    next.Flows epoch total unsent := by
  obtain ⟨handled, whole, ⟨sent, responses⟩, performed⟩ := flows
  cases moves with
  | stay coming sending finished =>
    refine ⟨handled, ?_, ⟨sent, ?_⟩, ?_⟩
    · rw [coming, whole]
    · rw [sending, responses]
    · rw [sending, finished]
      exact performed
  | respond packet get coming sending finished =>
    rw [coming] at whole
    by_cases same : packet.epoch = epoch
    · rw [slice_cons_of_eq same] at whole
      have sendingSlice : slice epoch next.sending = slice epoch pipe.sending ++ [packet] := by
        rw [sending, slice_append, slice_cons_of_eq same, slice_nil]
      refine ⟨handled ++ [packet], ?_, ⟨sent, ?_⟩, ?_⟩
      · simpa using whole
      · rw [getPackets_append, responses, getPackets_singleton_of_get get, sendingSlice,
          append_assoc]
      · rw [sendingSlice, finished, ← append_assoc]
        exact performed.append_right [packet]
    · rw [slice_cons_of_ne same] at whole
      have sendingSlice : slice epoch next.sending = slice epoch pipe.sending := by
        rw [sending, slice_append, slice_cons_of_ne same, slice_nil, append_nil]
      refine ⟨handled, whole, ⟨sent, ?_⟩, ?_⟩
      · rw [sendingSlice, responses]
      · rw [sendingSlice, finished]
        exact performed
  | apply packet data coming sending finished =>
    rw [coming] at whole
    by_cases same : packet.epoch = epoch
    · rw [slice_cons_of_eq same] at whole
      refine ⟨handled ++ [packet], ?_, ⟨sent, ?_⟩, ?_⟩
      · simpa using whole
      · rw [getPackets_append, responses, getPackets_singleton_of_data data, sending, append_nil]
      · rw [sending, finished, slice_append, slice_cons_of_eq same, slice_nil, append_assoc]
        refine (performed.append_right [packet]).trans ?_
        rw [append_assoc]
        exact List.Perm.append_left _ perm_append_comm
    · rw [slice_cons_of_ne same] at whole
      refine ⟨handled, whole, ⟨sent, ?_⟩, ?_⟩
      · rw [sending, responses]
      · rw [sending, finished, slice_append, slice_cons_of_ne same, slice_nil, append_nil]
        exact performed
  | finishSend packet get coming sending finished =>
    rw [sending] at responses performed
    by_cases same : packet.epoch = epoch
    · rw [slice_cons_of_eq same] at responses performed
      refine ⟨handled, ?_, ⟨sent ++ [packet], ?_⟩, ?_⟩
      · rw [coming, whole]
      · rw [responses, append_assoc]
        rfl
      · rw [finished, slice_append, slice_cons_of_eq same, slice_nil, append_assoc]
        exact performed
    · rw [slice_cons_of_ne same] at responses performed
      refine ⟨handled, ?_, ⟨sent, responses⟩, ?_⟩
      · rw [coming, whole]
      · rw [finished, slice_append, slice_cons_of_ne same, slice_nil, append_nil]
        exact performed

theorem slice_cons (packet : Packet) (packets : List Packet) :
    slice epoch (packet :: packets) = slice epoch [packet] ++ slice epoch packets :=
  @slice_append epoch [packet] packets

section

include moves

/-- What is outstanding loses its mark exactly when the marked operation signals. -/
theorem lasts_outstanding_moves :
    lasts (next.outstanding epoch unsent) + signal epoch out =
      lasts (pipe.outstanding epoch unsent) := by
  unfold outstanding
  cases moves with
  | stay coming sending finished =>
    rw [coming, sending]
    rfl
  | respond packet get coming sending finished =>
    rw [coming, sending, slice_append, slice_cons packet next.coming]
    simp only [lasts_append, signal]
    omega
  | apply packet data coming sending finished =>
    rw [coming, sending, slice_cons packet next.coming]
    simp only [lasts_append, lasts_slice_singleton]
    omega
  | finishSend packet get coming sending finished =>
    rw [coming, sending, slice_cons packet next.sending]
    simp only [lasts_append, lasts_slice_singleton]
    omega

theorem length_outstanding_moves :
    (next.outstanding epoch unsent).length ≤ (pipe.outstanding epoch unsent).length := by
  unfold outstanding
  cases moves with
  | stay coming sending finished => exact Nat.le_of_eq (by rw [coming, sending])
  | respond packet get coming sending finished =>
    rw [coming, sending, slice_append, slice_cons packet next.coming]
    simp only [length_append]
    omega
  | apply packet data coming sending finished =>
    rw [coming, sending, slice_cons packet next.coming]
    simp only [length_append]
    omega
  | finishSend packet get coming sending finished =>
    rw [coming, sending, slice_cons packet next.sending]
    simp only [length_append]
    omega

theorem lasts_finished_moves :
    lasts (slice epoch next.finished) = lasts (slice epoch pipe.finished) + signal epoch out := by
  cases moves with
  | stay coming sending finished =>
    rw [finished]
    rfl
  | respond packet get coming sending finished =>
    rw [finished]
    rfl
  | apply packet data coming sending finished =>
    rw [finished, slice_append, lasts_append, lasts_slice_singleton]
  | finishSend packet get coming sending finished =>
    rw [finished, slice_append, lasts_append, lasts_slice_singleton]

end

/-- A completed operation belongs to a packet that was in the pipe. -/
theorem mem_of_moves (moves : pipe.Moves next (some packet)) :
    packet ∈ pipe.coming ∨ packet ∈ pipe.sending := by
  cases moves with
  | apply _ data coming sending finished =>
    rw [coming]
    exact .inl mem_cons_self
  | finishSend _ get coming sending finished =>
    rw [sending]
    exact .inr mem_cons_self

theorem flows_issue
    (same : packet.epoch = epoch)
    (flows : pipe.Flows epoch total (packet :: unsent)) :
    (pipe.issue packet).Flows epoch total unsent := by
  obtain ⟨handled, whole, responses, performed⟩ := flows
  refine ⟨handled, ?_, ?_, ?_⟩
  · rw [coming_issue, slice_append, slice_cons_of_eq same, slice_nil, whole,
      append_assoc (slice epoch pipe.coming)]
    rfl
  · rw [sending_issue]
    exact responses
  · rw [sending_issue, finished_issue]
    exact performed

theorem flows_issue_of_ne
    (other : packet.epoch ≠ epoch)
    (flows : pipe.Flows epoch total unsent) :
    (pipe.issue packet).Flows epoch total unsent := by
  obtain ⟨handled, whole, responses, performed⟩ := flows
  refine ⟨handled, ?_, ?_, ?_⟩
  · rw [coming_issue, slice_append, slice_cons_of_ne other, slice_nil, append_nil]
    exact whole
  · rw [sending_issue]
    exact responses
  · rw [sending_issue, finished_issue]
    exact performed

theorem outstanding_issue (same : packet.epoch = epoch) :
    (pipe.issue packet).outstanding epoch unsent = pipe.outstanding epoch (packet :: unsent) := by
  unfold outstanding
  rw [sending_issue, coming_issue, slice_append, slice_cons_of_eq same, slice_nil,
    append_assoc (slice epoch pipe.coming)]
  rfl

theorem outstanding_issue_of_ne (other : packet.epoch ≠ epoch) :
    (pipe.issue packet).outstanding epoch unsent = pipe.outstanding epoch unsent := by
  unfold outstanding
  rw [sending_issue, coming_issue, slice_append, slice_cons_of_ne other, slice_nil, append_nil]

/-- All packets of an epoch are performed or outstanding. -/
theorem perm_outstanding (flows : pipe.Flows epoch total unsent) :
    total.Perm (slice epoch pipe.finished ++ pipe.outstanding epoch unsent) := by
  obtain ⟨handled, whole, -, performed⟩ := flows
  rw [whole, outstanding, ← append_assoc (slice epoch pipe.finished)]
  exact performed.append_right _

theorem finished_eq_nil_of_unissued (flows : pipe.Flows epoch total total) :
    slice epoch pipe.finished = [] ∧ slice epoch pipe.coming = [] ∧
      slice epoch pipe.sending = [] := by
  obtain ⟨handled, whole, -, performed⟩ := flows
  have lengths := congrArg length whole
  simp only [length_append] at lengths
  have noneHandled : handled = [] := eq_nil_of_length_eq_zero (by omega)
  have noneComing : slice epoch pipe.coming = [] := eq_nil_of_length_eq_zero (by omega)
  rw [noneHandled] at performed
  have nonePerformed := append_eq_nil_iff.mp performed.nil_eq.symm
  exact ⟨nonePerformed.1, noneComing, nonePerformed.2⟩

theorem outstanding_of_unissued (flows : pipe.Flows epoch total total) :
    pipe.outstanding epoch total = total := by
  obtain ⟨-, noneComing, noneSending⟩ := finished_eq_nil_of_unissued flows
  rw [outstanding, noneComing, noneSending]
  rfl

end Pipe

/-- Only the final packet is marked as the last one. -/
def Marked : List Packet → Prop
  | [] => True
  | [packet] => packet.last
  | packet :: next :: packets => packet.last = false ∧ Marked (next :: packets)

theorem Marked.final
    {packets : List Packet} {packet : Packet}
    (marked : Marked (packets ++ [packet])) :
    packet.last := by
  induction packets with
  | nil => exact marked
  | cons head tail ih =>
    cases tail with
    | nil => exact ih marked.2
    | cons next rest => exact ih marked.2

theorem Marked.lasts_eq_one
    {packets : List Packet}
    (marked : Marked packets)
    (nonempty : packets ≠ []) :
    lasts packets = 1 := by
  induction packets with
  | nil => exact absurd rfl nonempty
  | cons head tail ih =>
    cases tail with
    | nil =>
      have last : head.last = true := marked
      simp [lasts, last]
    | cons next rest =>
      have notLast : head.last = false := marked.1
      have later := ih marked.2 (cons_ne_nil _ _)
      unfold lasts at later ⊢
      rw [countP_cons_of_neg (by simp [notLast])]
      exact later

/-- A put or an accumulate is the last operation only if there is no get. -/
def NotOvertaken (packets : List Packet) : Prop :=
  ∀ packet ∈ packets, packet.last → packet.body.isGet = false → getPackets packets = []

/-- When the last operation has been performed, all have been. -/
theorem Pipe.outstanding_eq_nil
    {pipe : Pipe} {epoch : Nat} {total unsent : List Packet}
    (flows : pipe.Flows epoch total unsent)
    (marked : Marked total)
    (notOvertaken : NotOvertaken total)
    (signalled : lasts (pipe.outstanding epoch unsent) = 0) :
    pipe.outstanding epoch unsent = [] := by
  obtain ⟨handled, whole, ⟨sent, responses⟩, -⟩ := flows
  have unmarked : ∀ packet ∈ pipe.outstanding epoch unsent, packet.last = false := by
    intro packet member
    have none := countP_eq_zero.mp signalled packet member
    exact Bool.eq_false_iff.mpr none
  -- The final packet is marked, so it has been handled.
  have handledAll : slice epoch pipe.coming ++ unsent = [] := by
    rcases eq_nil_or_concat (slice epoch pipe.coming ++ unsent) with
      empty | ⟨front, final, split⟩
    · exact empty
    · rw [concat_eq_append] at split
      rw [split, ← append_assoc] at whole
      have last := Marked.final (whole ▸ marked)
      have member : final ∈ pipe.outstanding epoch unsent := by
        rw [Pipe.outstanding, split]
        simp
      rw [unmarked final member] at last
      cases last
  rw [handledAll, append_nil] at whole
  -- A get whose response is being sent would be the final packet.
  have sentAll : slice epoch pipe.sending = [] := by
    rcases eq_nil_or_concat (slice epoch pipe.sending) with
      empty | ⟨front, get, split⟩
    · exact empty
    · rw [concat_eq_append] at split
      have member : get ∈ pipe.outstanding epoch unsent := by
        rw [Pipe.outstanding, split]
        simp
      rw [split, ← append_assoc, ← whole] at responses
      rcases eq_nil_or_concat total with empty | ⟨before, final, finalSplit⟩
      · rw [empty] at responses
        simp [getPackets] at responses
      · rw [concat_eq_append] at finalSplit
        have last := Marked.final (finalSplit ▸ marked)
        cases kind : final.body.isGet with
        | false =>
          have noGets := notOvertaken final (by simp [finalSplit]) last kind
          rw [noGets] at responses
          simp at responses
        | true =>
          rw [finalSplit, getPackets_append, getPackets_singleton_of_get kind] at responses
          have same := append_inj_right' responses rfl
          rw [← singleton_inj.mp same] at member
          rw [unmarked final member] at last
          cases last
  rw [Pipe.outstanding, sentAll, handledAll]
  rfl

theorem marked_packets
    {epoch nopsToProc currOpsCnt : Nat} {ops : List Op}
    (count : currOpsCnt + ops.length = nopsToProc) :
    Marked (packets epoch nopsToProc currOpsCnt ops) := by
  induction ops generalizing currOpsCnt with
  | nil => trivial
  | cons rmaOp ops ih =>
    rw [length_cons] at count
    have later := @ih (currOpsCnt + 1) (by omega)
    cases ops with
    | nil =>
      rw [length_nil] at count
      exact decide_eq_true (by omega)
    | cons next ops =>
      rw [length_cons] at count
      exact ⟨decide_eq_false (by omega), later⟩

section

variable {epoch count currOpsCnt : Nat} {ops : List Op} {packet : Packet}

theorem map_body_packets :
    (packets epoch count currOpsCnt ops).map (·.body) = ops.map .op := by
  induction ops generalizing currOpsCnt with
  | nil => rfl
  | cons rmaOp ops ih => rw [packets, map_cons, ih, map_cons]

theorem packets_eq_nil_iff : packets epoch count currOpsCnt ops = [] ↔ ops = [] := by
  cases ops with
  | nil => exact iff_of_true rfl rfl
  | cons rmaOp ops => exact iff_of_false (cons_ne_nil _ _) (cons_ne_nil _ _)

theorem mem_packets (member : packet ∈ packets epoch count currOpsCnt ops) :
    packet.epoch = epoch ∧ ∃ rmaOp ∈ ops, packet.body = .op rmaOp := by
  induction ops generalizing currOpsCnt with
  | nil => cases member
  | cons rmaOp ops ih =>
    rcases mem_cons.mp member with rfl | member
    · exact ⟨rfl, rmaOp, mem_cons_self, rfl⟩
    · obtain ⟨same, other, otherMember, body⟩ := ih member
      exact ⟨same, other, mem_cons_of_mem _ otherMember, body⟩

section

variable (whole : currOpsCnt + ops.length = count)

include whole

theorem lasts_packets :
    lasts (packets epoch count currOpsCnt ops) = if ops = [] then 0 else 1 := by
  by_cases empty : ops = []
  · rw [if_pos empty, empty]
    rfl
  · rw [if_neg empty]
    exact (marked_packets whole).lasts_eq_one (mt packets_eq_nil_iff.mp empty)

/-- The marked packet is for the final operation. -/
theorem body_of_last
    (member : packet ∈ packets epoch count currOpsCnt ops)
    (last : packet.last) :
    ∃ rmaOp ∈ ops.getLast?, packet.body = .op rmaOp := by
  induction ops generalizing currOpsCnt with
  | nil => cases member
  | cons rmaOp ops ih =>
    rw [length_cons] at whole
    rcases mem_cons.mp member with rfl | member
    · have final : ops = [] := by
        have count : currOpsCnt = count - 1 := of_decide_eq_true last
        exact eq_nil_of_length_eq_zero (by omega)
      exact ⟨rmaOp, by simp [final], rfl⟩
    · obtain ⟨other, isLast, body⟩ := @ih (currOpsCnt + 1) (by omega) member
      refine ⟨other, ?_, body⟩
      rw [getLast?_cons, Option.mem_def.mp isLast]
      rfl

theorem notOvertaken_packets
    (ordered : ∀ rmaOp ∈ ops.getLast?, rmaOp.type ≠ .get → ∀ other ∈ ops, other.type ≠ .get) :
    NotOvertaken (packets epoch count currOpsCnt ops) := by
  intro packet member last data
  obtain ⟨rmaOp, isLast, body⟩ := body_of_last whole member last
  rw [body] at data
  have noGets := ordered rmaOp isLast (of_decide_eq_false data)
  unfold getPackets
  rw [filter_eq_nil_iff]
  intro other otherMember get
  obtain ⟨-, otherOp, inOps, otherBody⟩ := mem_packets otherMember
  rw [otherBody] at get
  exact noGets otherOp inOps (of_decide_eq_true get)

end

end

end Mpich.Ch3.Rma
