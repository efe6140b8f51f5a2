import Mpich.Foundation.MessagePassing.Certificate

/-!
# Programs that proceed in rounds

Where the communications of all ranks can be numbered by rounds, in which each
rank first sends and then receives, a certificate follows from an agreement
about one round at a time.
-/

namespace Mpich.MessagePassing

open List

variable {Rank Msg Out : Type} [DecidableEq Rank]

/-- What a rank sends in one round, and then receives in it. -/
structure Round (Rank Msg : Type) where
  sends : List (Rank × Msg)
  recvs : List (Rank × Msg)

namespace Round

/-- A round in which a rank is idle. -/
def idle : Round Rank Msg where
  sends := []
  recvs := []

/-- The messages of a list that go to, or come from, one rank. -/
def withRank (rank : Rank) (messages : List (Rank × Msg)) : List Msg :=
  messages.filterMap fun entry =>
    if entry.1 = rank then some entry.2 else none

@[simp] theorem withRank_nil (rank : Rank) :
    withRank rank ([] : List (Rank × Msg)) = [] :=
  rfl

@[simp] theorem withRank_singleton (rank other : Rank) (msg : Msg) :
    withRank rank [(other, msg)] = if other = rank then [msg] else [] := by
  unfold withRank
  by_cases same : other = rank <;> simp [same]

/-- The communications of a round. -/
def events (round : Round Rank Msg) (number : Nat) : List (Event Rank Msg) :=
  round.sends.map (fun entry => (2 * number, .send entry.1 entry.2)) ++
    round.recvs.map (fun entry => (2 * number + 1, .recv entry.1 entry.2))

theorem sentTo_events
    (round : Round Rank Msg)
    (number : Nat)
    (dst : Rank) :
    sentTo dst (round.events number) =
      (withRank dst round.sends).map fun msg => (2 * number, msg) := by
  have noSends :
      sentTo dst (round.recvs.map fun entry =>
        ((2 * number + 1, .recv entry.1 entry.2) : Event Rank Msg)) = [] := by
    simp [sentTo, filterMap_map]
  rw [events, sentTo_append, noSends, append_nil, sentTo, withRank, filterMap_map, map_filterMap]
  congr 1
  funext entry
  by_cases same : entry.1 = dst <;> simp [same]

theorem receivedFrom_events
    (round : Round Rank Msg)
    (number : Nat)
    (src : Rank) :
    receivedFrom src (round.events number) =
      (withRank src round.recvs).map fun msg => (2 * number + 1, msg) := by
  have noRecvs :
      receivedFrom src (round.sends.map fun entry =>
        ((2 * number, .send entry.1 entry.2) : Event Rank Msg)) = [] := by
    simp [receivedFrom, filterMap_map]
  rw [events, receivedFrom_append, noRecvs, nil_append, receivedFrom,
    withRank, filterMap_map, map_filterMap]
  congr 1
  funext entry
  by_cases same : entry.1 = src <;> simp [same]

omit [DecidableEq Rank] in
theorem time_mem_events
    {round : Round Rank Msg} {number : Nat} {event : Event Rank Msg}
    (member : event ∈ round.events number) :
    2 * number ≤ event.1 ∧ event.1 ≤ 2 * number + 1 := by
  rcases mem_append.mp member with sent | received
  · obtain ⟨entry, -, rfl⟩ := mem_map.mp sent
    simp
  · obtain ⟨entry, -, rfl⟩ := mem_map.mp received
    simp

omit [DecidableEq Rank] in
theorem sorted_events
    (round : Round Rank Msg)
    (number : Nat) :
    (round.events number).Pairwise fun first second => first.1 ≤ second.1 := by
  rw [events, pairwise_append]
  refine ⟨?_, ?_, ?_⟩
  · exact pairwise_map.mpr (pairwise_of_forall fun _ _ => le_rfl)
  · exact pairwise_map.mpr (pairwise_of_forall fun _ _ => le_rfl)
  · simp only [mem_map]
    rintro _ ⟨sent, -, rfl⟩ _ ⟨received, -, rfl⟩
    exact Nat.le_succ _

end Round

/-- The communications of this many rounds, from a given one on. -/
def traceFrom
    (rounds : Nat → Round Rank Msg) : Nat → Nat → List (Event Rank Msg)
  | _, 0 => []
  | number, count + 1 =>
    (rounds number).events number ++ traceFrom rounds (number + 1) count

omit [DecidableEq Rank] in
theorem time_mem_traceFrom
    {rounds : Nat → Round Rank Msg} {number count : Nat}
    {event : Event Rank Msg}
    (member : event ∈ traceFrom rounds number count) :
    2 * number ≤ event.1 := by
  induction count generalizing number with
  | zero => cases member
  | succ count ih =>
    rcases mem_append.mp member with here | later
    · exact (Round.time_mem_events here).1
    · have := ih later
      omega

omit [DecidableEq Rank] in
theorem sorted_traceFrom
    (rounds : Nat → Round Rank Msg)
    (number count : Nat) :
    (traceFrom rounds number count).Pairwise
      fun first second => first.1 ≤ second.1 := by
  induction count generalizing number with
  | zero => exact .nil
  | succ count ih =>
    rw [traceFrom, pairwise_append]
    refine ⟨(rounds number).sorted_events number, ih (number + 1), ?_⟩
    intro first here second later
    have := (Round.time_mem_events here).2
    have := time_mem_traceFrom later
    omega

omit [DecidableEq Rank] in
/-- Rounds in which a rank is idle leave no trace. -/
theorem traceFrom_of_idle
    {rounds : Nat → Round Rank Msg} {number : Nat}
    (idle : ∀ later, number ≤ later → rounds later = .idle)
    (count : Nat) :
    traceFrom rounds number count = [] := by
  induction count generalizing number with
  | zero => rfl
  | succ count ih =>
    rw [traceFrom, idle number le_rfl, ih fun later order => idle later (by omega)]
    rfl

/-- In each round, what one rank sends to another is what the other receives
from it. -/
def RoundsAgree (rounds : Rank → Nat → Round Rank Msg) (count : Nat) : Prop :=
  ∀ number < count, ∀ src dst, Round.withRank dst (rounds src number).sends =
      Round.withRank src (rounds dst number).recvs

theorem paired_traceFrom
    {rounds : Rank → Nat → Round Rank Msg} {total : Nat}
    (agree : RoundsAgree rounds total)
    (number count : Nat)
    (within : number + count ≤ total)
    (src dst : Rank) :
    List.Forall₂
      (fun sent received => sent.2 = received.2 ∧ sent.1 < received.1)
      (sentTo dst (traceFrom (rounds src) number count))
      (receivedFrom src (traceFrom (rounds dst) number count)) := by
  induction count generalizing number with
  | zero => exact .nil
  | succ count ih =>
    rw [traceFrom, traceFrom, sentTo_append, receivedFrom_append,
      Round.sentTo_events, Round.receivedFrom_events, agree number (by omega) src dst]
    apply rel_append
    · rw [forall₂_map_left_iff, forall₂_map_right_iff, forall₂_same]
      intro msg _
      exact ⟨rfl, Nat.lt_succ_self _⟩
    · exact ih (number + 1) (by omega)

/-- Programs that go through agreeing rounds complete. -/
theorem completes_of_rounds
    {programs : Rank → Prog Rank Msg Out} {out : Rank → Out}
    (rounds : Rank → Nat → Round Rank Msg)
    (count : Nat)
    (agree : RoundsAgree rounds count)
    (ends : ∀ rank, (programs rank).Ends
      ((traceFrom (rounds rank) 0 count).map Prod.snd) (out rank))
    (members : Finset Rank)
    (finite : ∀ rank ∉ members, ∀ number, rounds rank number = .idle) :
    Completes programs out := by
  apply @Certificate.completes _ _ _ _ programs out
    fun rank => traceFrom (rounds rank) 0 count
  refine ⟨ends, fun rank => sorted_traceFrom _ _ _,
    paired_traceFrom agree 0 count (by omega), members, ?_⟩
  intro rank outside
  exact traceFrom_of_idle (fun number _ => finite rank outside number) count

end Mpich.MessagePassing
