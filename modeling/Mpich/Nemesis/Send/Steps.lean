import Mpich.Nemesis.Send.Defs

/-!
# What a step does to the send queue

A call either sends its whole message, or enqueues a request with what is left. A
turn of the progress engine sends some of the first request in the queue, and takes
the request off the queue when nothing is left.
-/

namespace Mpich.Nemesis.Send

open List Function

variable {Vc Byte : Type*} [DecidableEq Vc]

namespace State.Invariant

variable {sizes : Sizes} {state : State Vc Byte} {head : Nat}

section

variable (invariant : state.Invariant sizes head)

include invariant

/-- Only the head can be active. -/
theorem notActive
    {number : Nat}
    (differs : head < state.calls.length → number ≠ head) :
    state.activeSend ≠ some number := by
  rcases invariant.active with none | ⟨active, inside⟩
  · rw [none]
    nofun
  · rw [active]
    exact fun same => differs inside (Option.some.inj same).symm

theorem completed_update
    {number : Nat}
    (late : head ≤ number)
    (value : Option (Request Vc Byte))
    (other : Nat) :
    state.completed.count other =
      if other < head then (update state.requests number value other).toList.length else 0 := by
  rw [invariant.completed]
  by_cases earlier : other < head
  · rw [update_of_ne (by omega)]
  · rw [if_neg earlier, if_neg earlier]

theorem unused_update
    {number : Nat}
    (inside : number < state.calls.length)
    (value : Option (Request Vc Byte))
    (other : Nat)
    (outside : state.calls.length ≤ other) :
    update state.requests number value other = none := by
  rw [update_of_ne (by omega)]
  exact invariant.unused other outside

end

/-- A request with a whole message is enqueued. -/
theorem enqueued
    (invariant : state.Invariant sizes head)
    (call : Call Vc Byte)
    (sreq : Request Vc Byte)
    (sameVc : sreq.vc = call.vc)
    (valid : sreq.Valid sizes false)
    (whole : sreq.rest sizes false = call.message sizes) :
    ({ state with calls := state.calls ++ [call] }.enqueue
      state.calls.length sreq).Invariant sizes head := by
  have bounded := invariant.head_le
  have front : (state.calls ++ [call]).take head = state.calls.take head :=
    take_append_of_le_length bounded
  have notNew := invariant.notActive Nat.ne_of_gt
  refine ⟨?queue, ?bound, ?active, ?waiting, ?sent, ?sending, ?earlier, ?unused,
    ?completed⟩ <;> unfold enqueue put <;> dsimp only
  case queue =>
    rw [invariant.queue, length_append, length_singleton,
      Nat.sub_add_comm bounded, range'_concat, one_mul, Nat.add_sub_cancel' bounded]
  case bound =>
    rw [length_append]
    omega
  case active =>
    apply invariant.active.imp_right
    rintro ⟨active, inside⟩
    rw [length_append]
    exact ⟨active, by omega⟩
  case waiting =>
    intro number other late isCall
    by_cases earlier : number < state.calls.length
    · rw [getElem?_append_left earlier] at isCall
      rw [update_of_ne (ne_of_lt earlier)]
      exact invariant.waiting number other late isCall
    · have isNew : number = state.calls.length := by
        have inside := (List.getElem?_eq_some_iff.mp isCall).1
        rw [length_append, length_singleton] at inside
        omega
      subst isNew
      rw [getElem?_concat_length] at isCall
      cases isCall
      rw [update_self, beq_false_of_ne notNew]
      exact ⟨sreq, rfl, sameVc, valid, fun _ => whole⟩
  case sent =>
    intro none vc
    rw [front]
    exact invariant.sent none vc
  case sending =>
    intro other active isRequest vc
    have inside : head < state.calls.length :=
      (invariant.active.resolve_left (by rw [active]; nofun)).2
    rw [update_of_ne (ne_of_lt inside)] at isRequest
    rw [take_append_of_le_length inside]
    exact invariant.sending other active isRequest vc
  case earlier =>
    intro vc
    rw [front]
    exact invariant.earlier vc
  case unused =>
    intro number outside
    rw [length_append, length_singleton] at outside
    rw [update_of_ne (by omega)]
    exact invariant.unused number (by omega)
  case completed => exact invariant.completed_update bounded _

variable {packets : List (List (Option Byte))}

/-- A message is sent at once. -/
theorem passed
    (invariant : state.Invariant sizes head)
    (empty : state.sendQ = [])
    (call : Call Vc Byte)
    (whole : packets.flatten = call.message sizes) :
    ({ state with calls := state.calls ++ [call] }.emit
      call.vc packets).Invariant sizes (state.calls.length + 1) := by
  have isHead := invariant.head_eq empty
  have none := invariant.inactive empty
  have isLength : (state.calls ++ [call]).length = state.calls.length + 1 := by
    rw [length_append, length_singleton]
  have sent : ∀ vc, ({ state with calls := state.calls ++ [call] }.emit
      call.vc packets).stream vc = messagesTo sizes vc
        ((state.calls ++ [call]).take (state.calls.length + 1)) := by
    intro vc
    have before := invariant.sent none vc
    rw [isHead, take_length] at before
    rw [← isLength, take_length, messagesTo_append, ← before]
    refine (stream_emit _ _ _ _).trans ?_
    congr 1
    by_cases same : call.vc = vc
    · simp [messagesTo, same, whole]
    · simp [messagesTo, same]
  refine ⟨?queue, ?bound, .inl none, ?waiting, fun _ => sent, ?sending,
    fun vc => (sent vc) ▸ prefix_rfl, ?unused, ?completed⟩ <;>
    dsimp only [emit]
  case queue => rw [empty, isLength, Nat.sub_self, range'_zero]
  case bound => exact le_of_eq isLength.symm
  case waiting =>
    intro number other late isCall
    have inside := (List.getElem?_eq_some_iff.mp isCall).1
    omega
  case sending =>
    intro _ active
    rw [none] at active
    cases active
  case unused =>
    intro number outside
    exact invariant.unused number (by omega)
  case completed =>
    intro number
    rw [invariant.completed]
    by_cases isLast : number = state.calls.length
    · rw [isLast, invariant.unused _ (le_refl _)]
      split <;> split <;> rfl
    · have same : number < head ↔ number < state.calls.length + 1 := by omega
      simp only [same]

/-- The request of a message that has been sent at once is completed. -/
theorem completes
    {number : Nat}
    (invariant : state.Invariant sizes (number + 1))
    (unused : state.requests number = none)
    (sreq : Request Vc Byte) :
    ((state.put number sreq).complete number).Invariant sizes (number + 1) := by
  have bounded := invariant.head_le
  have differs : ∀ {other : Nat}, number + 1 ≤ other →
      update state.requests number (some sreq) other = state.requests other :=
    fun late => update_of_ne (by omega) _ _
  refine ⟨invariant.queue, bounded, invariant.active, ?waiting, invariant.sent,
    ?sending, invariant.earlier, ?unused, ?completed⟩ <;>
    unfold complete put <;> dsimp only
  case waiting =>
    intro other call late isCall
    rw [differs late]
    exact invariant.waiting other call late isCall
  case sending =>
    intro other active isRequest
    rw [differs (le_refl _)] at isRequest
    exact invariant.sending other active isRequest
  case unused =>
    intro other outside
    rw [differs (by omega)]
    exact invariant.unused other outside
  case completed =>
    intro other
    rw [count_append, invariant.completed]
    by_cases same : other = number
    · subst same
      rw [unused, update_self]
      simp
    · have differs : (number == other) = false := beq_false_of_ne (Ne.symm same)
      rw [update_of_ne same, count_singleton, differs]
      rfl

section

variable
    (invariant : state.Invariant sizes head)

include invariant

/-- A request whose message has begun is enqueued. -/
theorem started
    (empty : state.sendQ = [])
    (call : Call Vc Byte)
    (sreq : Request Vc Byte)
    (sameVc : sreq.vc = call.vc)
    (valid : sreq.Valid sizes true)
    (whole : packets.flatten ++ sreq.rest sizes true = call.message sizes) :
    ∃ next, ({ state with calls := state.calls ++ [call] }.emit
        call.vc packets).enqueueActive state.calls.length sreq = some next ∧
      next.Invariant sizes head := by
  have isHead := invariant.head_eq empty
  have none := invariant.inactive empty
  have isLength : (state.calls ++ [call]).length = state.calls.length + 1 := by
    rw [length_append, length_singleton]
  refine ⟨_, if_pos (Option.isNone_iff_eq_none.mpr none), ?_⟩
  subst isHead
  refine ⟨?queue, ?bound, .inr ⟨rfl, ?inside⟩, ?waiting, ?sent, ?sending, ?earlier,
    ?unused, ?completed⟩ <;> dsimp only [enqueue, put, emit]
  case queue =>
    rw [empty, isLength, Nat.add_sub_cancel_left]
    rfl
  case bound => omega
  case inside => omega
  case waiting =>
    intro number other late isCall
    have inside := (List.getElem?_eq_some_iff.mp isCall).1
    have isNew : number = state.calls.length := by omega
    subst isNew
    rw [getElem?_concat_length] at isCall
    cases isCall
    refine ⟨sreq, update_self _ _ _, sameVc, ?_, fun notActive => absurd rfl notActive⟩
    rw [beq_self_eq_true]
    exact valid
  case sent => nofun
  case sending =>
    intro other _ isRequest vc
    rw [update_self] at isRequest
    cases isRequest
    have before := invariant.sent none vc
    rw [take_length] at before
    rw [← isLength, take_length, messagesTo_append, ← before]
    have emitted := stream_emit { state with calls := state.calls ++ [call] } call.vc vc packets
    refine (congrArg (· ++ _) emitted).trans ?_
    rw [append_assoc]
    congr 1
    by_cases same : call.vc = vc
    · simp [messagesTo, same, sameVc, ← whole]
    · simp [messagesTo, same, sameVc]
  case earlier =>
    intro vc
    rw [take_append_of_le_length (le_refl _)]
    exact (invariant.earlier vc).trans (stream_prefix_emit _ call.vc vc packets)
  case unused =>
    intro number outside
    rw [update_of_ne (by omega)]
    exact invariant.unused number (by omega)
  case completed => exact invariant.completed_update le_rfl _

variable {sreq : Request Vc Byte}

/-- Some of the first request in the queue is sent, and its message has begun. -/
theorem proceeded
    (inside : head < state.calls.length)
    (isRequest : state.requests head = some sreq)
    (next : Request Vc Byte)
    (sameVc : next.vc = sreq.vc)
    (valid : next.Valid sizes true)
    (bytes : packets.flatten ++ next.rest sizes true =
      sreq.rest sizes (state.activeSend == some head)) :
    (({ state with activeSend := some head }.emit sreq.vc packets).put
      head next).Invariant sizes head := by
  refine ⟨invariant.queue, invariant.head_le, .inr ⟨rfl, inside⟩, ?waiting, ?sent,
    ?sending, fun vc => (invariant.earlier vc).trans (stream_prefix_emit _ _ vc packets),
    ?unused, ?completed⟩ <;> dsimp only [put, emit]
  case waiting =>
    intro number call late isCall
    obtain ⟨other, isOther, otherVc, otherValid, whole⟩ := invariant.waiting number call late isCall
    by_cases isHead : number = head
    · subst isHead
      rw [isRequest] at isOther
      cases isOther
      rw [beq_self_eq_true]
      exact ⟨next, update_self _ _ _, sameVc.trans otherVc, valid,
        fun notActive => absurd rfl notActive⟩
    · have notHead : some head ≠ some number := fun same =>
        isHead (Option.some.inj same).symm
      have notActive := invariant.notActive fun _ => isHead
      rw [beq_false_of_ne notActive] at otherValid
      rw [update_of_ne isHead, beq_false_of_ne notHead]
      exact ⟨other, isOther, otherVc, otherValid, fun _ => whole notActive⟩
  case sent => nofun
  case sending =>
    intro other _ isOther vc
    rw [update_self] at isOther
    cases isOther
    obtain ⟨before, isBefore, _, stream⟩ := invariant.stream_head inside
    rw [isRequest] at isBefore
    cases isBefore
    rw [← stream vc, ← bytes, sameVc]
    refine (congrArg (· ++ _) (stream_emit _ sreq.vc vc packets)).trans ?_
    rw [append_assoc]
    congr 1
    by_cases same : sreq.vc = vc
    · rw [if_pos same, if_pos same, if_pos same]
    · rw [if_neg same, if_neg same, if_neg same]
      rfl
  case unused => exact invariant.unused_update inside _
  case completed => exact invariant.completed_update le_rfl _

/-- The rest of the first request in the queue is sent. -/
theorem finished
    (inside : head < state.calls.length)
    (isRequest : state.requests head = some sreq)
    (bytes : packets.flatten = sreq.rest sizes (state.activeSend == some head))
    (next : Request Vc Byte) :
    (((({ state with activeSend := some head }.emit sreq.vc packets).put
      head next).complete head).dequeue).Invariant sizes (head + 1) := by
  have sent : ∀ vc, (state.emit sreq.vc packets).stream vc =
      messagesTo sizes vc (state.calls.take (head + 1)) := by
    intro vc
    obtain ⟨before, isBefore, _, stream⟩ := invariant.stream_head inside
    rw [isRequest] at isBefore
    cases isBefore
    rw [← stream vc, ← bytes]
    exact stream_emit _ sreq.vc vc packets
  refine ⟨?queue, inside, .inl rfl, ?waiting, fun _ => sent, nofun,
    fun vc => (sent vc) ▸ prefix_rfl, ?unused, ?completed⟩ <;>
    dsimp only [dequeue, complete, put, emit]
  case queue => rw [invariant.queue, tail_range', Nat.sub_sub]
  case waiting =>
    intro number call late isCall
    obtain ⟨other, isOther, otherVc, otherValid, whole⟩ :=
      invariant.waiting number call (by omega) isCall
    have notActive := invariant.notActive fun _ => ne_of_gt late
    rw [beq_false_of_ne notActive] at otherValid
    rw [update_of_ne (by omega)]
    exact ⟨other, isOther, otherVc, otherValid, fun _ => whole notActive⟩
  case unused => exact invariant.unused_update inside _
  case completed =>
    intro number
    rw [count_append, invariant.completed, count_singleton]
    by_cases isHead : number = head
    · subst isHead
      simp
    · have differs : (head == number) = false := beq_false_of_ne (Ne.symm isHead)
      have same : number < head + 1 ↔ number < head := by omega
      rw [update_of_ne isHead, differs]
      simp only [same]
      rfl

/-- The header of the first request in the queue is not sent. -/
theorem kept
    (none : state.activeSend = none)
    (isRequest : state.requests head = some sreq)
    (inside : head < state.calls.length)
    (next : Request Vc Byte)
    (sameVc : next.vc = sreq.vc)
    (valid : next.Valid sizes false)
    (bytes : next.rest sizes false = sreq.rest sizes false) :
    ((state.emit sreq.vc []).put head next).Invariant sizes head := by
  have notActive : ∀ number, state.activeSend ≠ some number := by
    rw [none]
    nofun
  refine ⟨invariant.queue, invariant.head_le, .inl none, ?waiting, ?sent,
    fun _ active => absurd active (notActive head),
    fun vc => (invariant.earlier vc).trans (stream_prefix_emit _ _ vc []), ?unused,
    ?completed⟩ <;> dsimp only [put, emit]
  case waiting =>
    intro number call late isCall
    obtain ⟨other, isOther, otherVc, otherValid, whole⟩ := invariant.waiting number call late isCall
    by_cases isHead : number = head
    · subst isHead
      rw [isRequest] at isOther
      cases isOther
      rw [beq_false_of_ne (notActive number)]
      exact ⟨next, update_self _ _ _, sameVc.trans otherVc, valid,
        fun notActive => bytes.trans (whole notActive)⟩
    · rw [update_of_ne isHead]
      exact ⟨other, isOther, otherVc, otherValid, whole⟩
  case sent =>
    intro _ vc
    refine (stream_emit state sreq.vc vc []).trans ?_
    rw [flatten_nil, ite_self, append_nil]
    exact invariant.sent none vc
  case unused => exact invariant.unused_update inside _
  case completed => exact invariant.completed_update le_rfl _

end

end Mpich.Nemesis.Send.State.Invariant
