import Mpich.Ch3.Fence.Advance

/-!
# The steps between an origin and a target

When an operation has been performed, its target is in the fence of the operation's
epoch, so that its counter follows the operations that remain.
-/

namespace Mpich.Ch3.Fence

open Finset
open Rma

section

variable {program : Program} {state : State} {origin target : Nat}
  (inv : Inv program state)
variable {pipe : Pipe} {out : Option Packet}
  (originInSize : origin < program.size)
  (targetInSize : target < program.size)
  (moves : (state.pipes origin target).Moves pipe out)

include inv originInSize targetInSize in
/-- A completed operation belongs to the fence that its target is in. -/
theorem Inv.current
    {packet : Packet}
    (moves : (state.pipes origin target).Moves pipe (some packet)) :
    (state.procs target).phase ≠ .outside ∧ packet.epoch = (state.procs target).round := by
  have inPipe : slice packet.epoch (state.pipes origin target).coming ≠ [] ∨
      slice packet.epoch (state.pipes origin target).sending ≠ [] := by
    rcases Pipe.mem_of_moves moves with coming | sending
    · exact .inl (List.ne_nil_of_mem (List.mem_filter.mpr ⟨coming, by simp⟩))
    · exact .inr (List.ne_nil_of_mem (List.mem_filter.mpr ⟨sending, by simp⟩))
  have remains : state.remaining program origin target packet.epoch ≠ [] := by
    intro empty
    rw [State.remaining, Pipe.outstanding, List.append_eq_nil_iff, List.append_eq_nil_iff] at empty
    exact inPipe.elim (absurd empty.2.1) (absurd empty.1)
  have collective : program.Collective packet.epoch := by
    by_contra notCollective
    exact remains (inv.remaining_of_not_collective originInSize targetInSize notCollective)
  have left : (state.procs origin).Left packet.epoch := by
    by_contra notLeft
    have flows := inv.flows origin originInSize target targetInSize packet.epoch
    rw [unsent_of_not_left notLeft] at flows
    obtain ⟨-, coming, sending⟩ := Pipe.finished_eq_nil_of_unissued flows
    exact inPipe.elim (absurd coming) (absurd sending)
  have entered := inv.barrier origin originInSize target targetInSize _ collective left
  have notReturned : ¬ packet.epoch < (state.procs target).round := fun returned =>
    remains (inv.drained origin originInSize target targetInSize _ returned)
  unfold Process.Entered at entered
  cases found : (state.procs target).phase with
  | outside =>
    rw [found] at entered
    exact absurd entered notReturned
  | collective =>
    rw [found] at entered
    exact ⟨Phase.noConfusion, le_antisymm entered (not_lt.mp notReturned)⟩
  | issuing currOpsCnt currPtr =>
    rw [found] at entered
    exact ⟨Phase.noConfusion, le_antisymm entered (not_lt.mp notReturned)⟩

/-- Completions change only the counter and what is kept of the decrements. -/
theorem State.procs_complete (rank : Nat) :
    ∃ myCounter decrements, (state.complete origin target out).procs rank =
      { state.procs rank with
        myCounter := myCounter
        decrements := decrements } := by
  unfold State.complete
  split
  · exact ⟨_, _, rfl⟩
  · split
    · by_cases own : rank = target
      · subst own
        rw [State.procs_setProc]
        exact ⟨_, _, rfl⟩
      · rw [State.procs_setProc_of_ne _ own]
        exact ⟨_, _, rfl⟩
    · exact ⟨_, _, rfl⟩

variable {rank : Nat}

theorem State.procs_complete_of_ne
    (differ : rank ≠ target) :
    (state.complete origin target out).procs rank = state.procs rank := by
  unfold State.complete
  split
  · rfl
  · split
    · exact State.procs_setProc_of_ne _ differ
    · rfl

@[simp] theorem State.pipes_complete :
    (state.complete origin target out).pipes = state.pipes := by
  unfold State.complete
  split
  · rfl
  · split <;> rfl

@[simp] theorem State.rmaTargetProc_complete :
    (state.complete origin target out).rmaTargetProc = state.rmaTargetProc := by
  unfold State.complete
  split
  · rfl
  · split <;> rfl

/-- The counter of the target is decremented if the operation signals the end of the
fence that it is in. -/
theorem State.myCounter_complete
    {round : Nat}
    (current : ∀ packet, out = some packet → packet.epoch = round) :
    ((state.complete origin target out).procs target).myCounter =
      (state.procs target).myCounter - signal round out := by
  cases out with
  | none => exact (sub_zero _).symm
  | some packet =>
    have epoch := current packet rfl
    rw [State.complete, signal]
    by_cases last : packet.last
    · rw [if_pos last, if_pos ⟨epoch, last⟩, State.procs_setProc]
      rfl
    · rw [if_neg last, if_neg fun both => last both.2]
      exact (sub_zero _).symm

theorem State.count_complete (other round : Nat) :
    ((state.complete origin target out).procs target).decrements.count (other, round) =
      (state.procs target).decrements.count (other, round) +
        if other = origin then signal round out else 0 := by
  cases out with
  | none => exact (ite_self 0).symm ▸ rfl
  | some packet =>
    rw [State.complete, signal]
    by_cases last : packet.last
    · rw [if_pos last, State.procs_setProc, Process.decrement, List.count_append,
        List.count_singleton]
      congr 1
      by_cases own : other = origin
      · by_cases same : packet.epoch = round
        · simp [own, same, last]
        · simp [own, same]
      · have differ : ¬ origin = other := fun same => own same.symm
        simp [own, differ]
    · simp [last]

/-- Two sums that differ at one place. -/
theorem sum_range_add
    {size place change : Nat} {after before : Nat → Nat}
    (inSize : place < size)
    (others : ∀ index, index ≠ place → after index = before index)
    (changed : after place + change = before place) :
    (∑ index ∈ range size, after index) + change = ∑ index ∈ range size, before index := by
  have member := mem_range.mpr inSize
  rw [← add_sum_erase _ after member, ← add_sum_erase _ before member, ← changed]
  have rest : ∑ index ∈ (range size).erase place, after index =
      ∑ index ∈ (range size).erase place, before index :=
    sum_congr rfl fun index inErase => others index (ne_of_mem_erase inErase)
  omega

/-- What an event between an origin and a target does to the state. -/
structure Progressed (state next : State) (origin target : Nat) (pipe : Pipe)
    (out : Option Packet) : Prop where
  procs : ∀ rank, ∃ myCounter decrements, next.procs rank =
    { state.procs rank with
      myCounter := myCounter
      decrements := decrements }
  procs_of_ne : ∀ rank, rank ≠ target → next.procs rank = state.procs rank
  pipe_here : next.pipes origin target = pipe
  pipes_of_ne : ∀ source rank, source ≠ origin ∨ rank ≠ target →
    next.pipes source rank = state.pipes source rank
  rmaTargetProc : next.rmaTargetProc = state.rmaTargetProc
  myCounter : ∀ round, (∀ packet, out = some packet → packet.epoch = round) →
    (next.procs target).myCounter = (state.procs target).myCounter - signal round out
  count : ∀ source round, (next.procs target).decrements.count (source, round) =
      (state.procs target).decrements.count (source, round) +
        if source = origin then signal round out else 0

theorem progressed_complete :
    Progressed state ((state.setPipe origin target pipe).complete origin target out)
      origin target pipe out where
  procs := State.procs_complete
  procs_of_ne := fun _ => State.procs_complete_of_ne
  pipe_here := by
    simp [State.setPipe]
  pipes_of_ne := by
    intro source rank differ
    by_cases own : source = origin
    · subst own
      simp [State.setPipe, differ.resolve_left fun differ => differ rfl]
    · simp [State.setPipe, own]
  rmaTargetProc := State.rmaTargetProc_complete
  myCounter := fun _ => State.myCounter_complete
  count := State.count_complete

namespace Progressed

variable {next : State} (progressed : Progressed state next origin target pipe out)
include progressed

theorem round_eq (rank : Nat) : (next.procs rank).round = (state.procs rank).round := by
  obtain ⟨counter, decrements, same⟩ := progressed.procs rank
  rw [same]

theorem unsent_eq (rank epoch source dest : Nat) :
    program.unsent (next.procs rank) epoch source dest =
      program.unsent (state.procs rank) epoch source dest := by
  obtain ⟨counter, decrements, same⟩ := progressed.procs rank
  rw [same]
  rfl

theorem entered_iff (rank epoch : Nat) :
    (next.procs rank).Entered epoch ↔ (state.procs rank).Entered epoch := by
  obtain ⟨counter, decrements, same⟩ := progressed.procs rank
  rw [same]
  exact Iff.rfl

theorem left_iff (rank epoch : Nat) :
    (next.procs rank).Left epoch ↔ (state.procs rank).Left epoch := by
  obtain ⟨counter, decrements, same⟩ := progressed.procs rank
  rw [same]
  exact Iff.rfl

theorem remaining_here (epoch : Nat) :
    next.remaining program origin target epoch = pipe.outstanding epoch
        (program.unsent (state.procs origin) epoch origin target) := by
  rw [State.remaining, progressed.pipe_here, progressed.unsent_eq]

theorem remaining_of_ne
    {source : Nat}
    (differ : source ≠ origin ∨ rank ≠ target)
    (epoch : Nat) :
    next.remaining program source rank epoch = state.remaining program source rank epoch := by
  unfold State.remaining
  rw [progressed.pipes_of_ne source rank differ, progressed.unsent_eq]

include originInSize moves in
/-- The target awaits one operation less if this one signals. -/
theorem awaited_add :
    next.awaited program target + signal (state.procs target).round out =
      state.awaited program target := by
  unfold State.awaited
  rw [progressed.round_eq]
  apply sum_range_add originInSize
  · intro source differ
    rw [progressed.remaining_of_ne (.inl differ)]
  · rw [progressed.remaining_here]
    exact Pipe.lasts_outstanding_moves moves

theorem awaited_of_ne
    (differ : rank ≠ target) :
    next.awaited program rank = state.awaited program rank := by
  unfold State.awaited
  rw [progressed.round_eq]
  apply sum_congr rfl
  intro source _
  rw [progressed.remaining_of_ne (.inr differ)]

section

include inv

include originInSize targetInSize moves in
/-- The counter of the target still says what it awaits. -/
theorem counts :
    (next.procs target).Counts program target (next.awaited program target) := by
  have current : ∀ packet, out = some packet → (state.procs target).phase ≠ .outside ∧
        packet.epoch = (state.procs target).round := by
    intro packet some
    rw [some] at moves
    exact inv.current originInSize targetInSize moves
  have awaited := progressed.awaited_add originInSize moves
  have myCounter := progressed.myCounter (state.procs target).round
    fun packet some => (current packet some).2
  have counts := inv.counts target targetInSize
  obtain ⟨counter, decrements, same⟩ := progressed.procs target
  rw [same] at myCounter ⊢
  have myCounter : counter = (state.procs target).myCounter - _ := myCounter
  unfold Process.Counts at counts ⊢
  cases found : (state.procs target).phase with
  | outside =>
    have none : out = none := by
      rw [Option.eq_none_iff_forall_ne_some]
      exact fun packet some => (current packet some).1 found
    simp only [found] at counts ⊢
    rw [myCounter, counts, none]
    rfl
  | collective =>
    simp only [found] at counts ⊢
    omega
  | issuing currOpsCnt currPtr =>
    simp only [found] at counts ⊢
    omega

include moves in
theorem drained
    {source epoch : Nat}
    (sourceInSize : source < program.size)
    (inSize : rank < program.size)
    (returned : epoch < (state.procs rank).round) :
    next.remaining program source rank epoch = [] := by
  have drained := inv.drained source sourceInSize rank inSize epoch returned
  by_cases pair : source = origin ∧ rank = target
  · obtain ⟨rfl, rfl⟩ := pair
    have shorter := @Pipe.length_outstanding_moves _ pipe out epoch
      (program.unsent (state.procs source) epoch source rank) moves
    have before := congrArg List.length drained
    rw [State.remaining, List.length_nil] at before
    rw [progressed.remaining_here]
    apply List.eq_nil_of_length_eq_zero
    omega
  · rw [progressed.remaining_of_ne (not_and_or.mp pair)]
    exact drained

include moves in
theorem decrements
    {source : Nat}
    (sourceInSize : source < program.size)
    (inSize : rank < program.size)
    (epoch : Nat) :
    (next.procs rank).decrements.count (source, epoch) =
      lasts (slice epoch (next.pipes source rank).finished) := by
  have decrements := inv.decrements source sourceInSize rank inSize epoch
  by_cases same : rank = target
  · subst same
    rw [progressed.count, decrements]
    by_cases own : source = origin
    · subst own
      rw [if_pos rfl, progressed.pipe_here]
      exact (Pipe.lasts_finished_moves moves).symm
    · rw [if_neg own, progressed.pipes_of_ne source rank (.inl own), add_zero]
  · rw [progressed.procs_of_ne rank same, decrements,
      progressed.pipes_of_ne source rank (.inr same)]

include originInSize in
theorem origins
    (inSize : rank < program.size) :
    ∀ decrement ∈ (next.procs rank).decrements, decrement.1 < program.size := by
  intro decrement member
  by_cases same : rank = target
  · subst same
    have positive := List.count_pos_iff.mpr member
    rw [progressed.count decrement.1 decrement.2] at positive
    by_cases own : decrement.1 = origin
    · rw [own]
      exact originInSize
    · rw [if_neg own, add_zero] at positive
      exact inv.origins rank inSize decrement (List.count_pos_iff.mp positive)
  · rw [progressed.procs_of_ne rank same] at member
    exact inv.origins rank inSize decrement member

end

end Progressed

include inv originInSize targetInSize moves in
theorem Inv.progress (sound : pipe.Sound) :
    Inv program ((state.setPipe origin target pipe).complete origin target out) := by
  have progressed := @progressed_complete state origin target pipe out
  generalize (state.setPipe origin target pipe).complete origin target out = next
    at progressed
  constructor
  case follows =>
    intro rank inSize
    have follows := inv.follows rank inSize
    obtain ⟨counter, decrements, same⟩ := progressed.procs rank
    rw [same]
    exact ⟨follows.fenceCnt, follows.queued⟩
  case barrier =>
    intro source sourceInSize rank inSize epoch collective left
    rw [progressed.entered_iff]
    rw [progressed.left_iff] at left
    exact inv.barrier source sourceInSize rank inSize epoch collective left
  case contributed =>
    intro rank inSize epoch collective entered
    rw [progressed.entered_iff] at entered
    rw [progressed.rmaTargetProc]
    exact inv.contributed rank inSize epoch collective entered
  case sound =>
    intro source sourceInSize rank inSize
    by_cases pair : source = origin ∧ rank = target
    · obtain ⟨rfl, rfl⟩ := pair
      rw [progressed.pipe_here]
      exact sound
    · rw [progressed.pipes_of_ne source rank (not_and_or.mp pair)]
      exact inv.sound source sourceInSize rank inSize
  case flows =>
    intro source sourceInSize rank inSize epoch
    have flows := inv.flows source sourceInSize rank inSize epoch
    rw [progressed.unsent_eq]
    by_cases pair : source = origin ∧ rank = target
    · obtain ⟨rfl, rfl⟩ := pair
      rw [progressed.pipe_here]
      exact Pipe.flows_moves moves flows
    · rw [progressed.pipes_of_ne source rank (not_and_or.mp pair)]
      exact flows
  case drained =>
    intro source sourceInSize rank inSize epoch returned
    rw [progressed.round_eq] at returned
    exact progressed.drained inv moves sourceInSize inSize returned
  case counts =>
    intro rank inSize
    by_cases own : rank = target
    · rw [own]
      exact progressed.counts inv originInSize targetInSize moves
    · rw [progressed.procs_of_ne rank own, progressed.awaited_of_ne own]
      exact inv.counts rank inSize
  case decrements =>
    intro source sourceInSize rank inSize epoch
    exact progressed.decrements inv moves sourceInSize inSize epoch
  case origins =>
    intro rank inSize
    exact progressed.origins inv originInSize inSize

end

end Mpich.Ch3.Fence
