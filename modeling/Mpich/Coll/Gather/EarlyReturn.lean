import Mpich.Coll.Gather.Run

/-!
# Processes that return early

A process whose own count is zero returns at once, whatever the others do. When
the blocks are empty because of the size of the type, the counts may differ.
The processes then complete only if all of them return early or none does: a
rank and its parent in the tree would otherwise disagree on whether there is a
message between them.
-/

namespace Mpich.Coll.Gather

open MessagePassing Masks List

section

variable {Cell : Type} {shape : Shape} {contents : Contents Cell} {nbytes : Nat}

/-- A rank returns early. -/
def Shape.ReturnsEarly (shape : Shape) (rank : Nat) : Prop :=
  (rank = shape.root ∧ shape.recvcnt shape.root = 0) ∨ (rank ≠ shape.root ∧ shape.sendcnt rank = 0)

instance (rank : Nat) : Decidable (shape.ReturnsEarly rank) :=
  inferInstanceAs (Decidable (_ ∨ _))

theorem Shape.returnsEarly_call (rank : Nat) :
    (shape.call contents rank).ReturnsEarly ↔ shape.ReturnsEarly rank := by
  change (rank = shape.root ∧ shape.recvcnt rank = 0) ∨ _ ↔ _
  refine or_congr_left (and_congr_right ?_)
  rintro rfl
  rfl

/-- All processes return early, or none does. -/
def Shape.Agrees (shape : Shape) : Prop :=
  ∀ rank < shape.commSize, shape.ReturnsEarly rank ↔ shape.ReturnsEarly shape.root

/-- Where all processes return early, they complete. -/
theorem Shape.completes_of_early
    (early : ∀ rank < shape.commSize, shape.ReturnsEarly rank) :
    Completes (shape.program contents) fun rank =>
      if rank < shape.commSize then contents.recvbuf rank else [] := by
  refine completes_of_rounds (fun _ _ => .idle) 0 ?_ ?_ ∅ (fun _ _ _ => rfl)
  · intro round none
    omega
  · intro rank
    unfold Shape.program
    by_cases inComm : rank < shape.commSize
    · have returns : (shape.call contents rank).ReturnsEarly :=
        (Shape.returnsEarly_call rank).mpr (early rank inComm)
      rw [if_pos inComm, if_pos inComm, Call.gather, if_pos returns]
      exact Prog.ends_done _
    · rw [if_neg inComm, if_neg inComm]
      exact Prog.ends_done _

/-- The loop of a rank takes part in every round that concerns the rank. -/
theorem Shape.Matches.mem_of_ends_gatherLoop
    (matching : shape.Matches nbytes)
    {position target : Nat}
    (inComm : position < shape.commSize)
    (multiple : position % 2 ^ target = 0)
    (within : 2 ^ target < shape.commSize)
    (fuel : Nat)
    {round : Nat}
    (ahead : round ≤ target)
    (enough : shape.commSize ≤ 2 ^ (round + fuel))
    {node final : Node Cell} {ops : List (Op Nat (List Cell))}
    (ends : ((shape.at contents position).gatherLoop fuel (2 ^ round) node).Ends
      ops final) :
    (BitSet position target → ∃ msg,
      Op.send (absolute shape.commSize shape.root (position - 2 ^ target)) msg ∈ ops) ∧
    (¬ BitSet position target → position + 2 ^ target < shape.commSize → ∃ msg,
        Op.recv (absolute shape.commSize shape.root (position + 2 ^ target)) msg ∈ ops) := by
  have below : 2 ^ round < (shape.at contents position).commSize :=
    (Nat.pow_le_pow_right two_pos ahead).trans_lt within
  induction fuel generalizing round node ops with
  | zero => exact absurd below (not_lt.mpr enough)
  | succ fuel ih =>
    have double : 2 ^ round <<< 1 = 2 ^ (round + 1) := by
      rw [Nat.shiftLeft_eq, Nat.pow_one, pow_succ]
    rw [Call.gatherLoop, if_pos below] at ends
    simp only [Nat.and_comm (2 ^ round), matching.at_relativeRank inComm,
      and_mask_eq_zero_iff, double] at ends
    rcases lt_or_ge round target with earlier | here
    · -- The rank is still there after this round.
      have goOn := @ih (round + 1)
      rw [add_assoc, add_comm 1] at goOn
      have multipleNext : position % 2 ^ (round + 1) = 0 :=
        Nat.mod_eq_zero_of_dvd ((Nat.pow_dvd_pow 2 earlier).trans (Nat.dvd_of_mod_eq_zero multiple))
      have clear := (bitSet_of_mod (mod_of_mod_succ multipleNext)).mp multipleNext
      have belowNext :
          2 ^ (round + 1) < (shape.at contents position).commSize :=
        (Nat.pow_le_pow_right two_pos earlier).trans_lt within
      rw [if_pos clear, or_mask clear] at ends
      by_cases child : position + 2 ^ round < shape.commSize
      · rw [if_pos (by exact child)] at ends
        obtain ⟨front, back, msg, rfl, -, rest⟩ := ends.of_bind
        obtain ⟨middle, last, next, rfl, -, loop⟩ := rest.of_bind
        obtain ⟨sends, receives⟩ := goOn earlier enough loop belowNext
        constructor
        · intro set
          obtain ⟨sent, member⟩ := sends set
          exact ⟨sent, by simp [member]⟩
        · intro notSet inside
          obtain ⟨received, member⟩ := receives notSet inside
          exact ⟨received, by simp [member]⟩
      · rw [if_neg (by exact child)] at ends
        exact goOn earlier enough ends belowNext
    · obtain rfl : round = target := by omega
      constructor
      · intro set
        rw [if_neg (not_not.mpr set), xor_mask_of_set set] at ends
        obtain ⟨front, back, msg, rfl, -, rest⟩ := ends.of_bind
        obtain ⟨middle, last, next, rfl, send, -⟩ := rest.of_bind
        have member := mem_of_ends_mpicSend send
        exact ⟨msg, mem_append_right _ (mem_append_left _ member)⟩
      · intro clear inside
        rw [if_pos clear, or_mask clear, if_pos (by exact inside),
          matching.at_child inComm clear] at ends
        obtain ⟨front, back, msg, rfl, receive, -⟩ := ends.of_bind
        obtain ⟨received, member⟩ := mem_of_ends_mpicRecv receive
        exact ⟨received, mem_append_left _ member⟩

/-- A position other than the root's has a lowest bit. -/
theorem exists_lowest_bit
    {position : Nat}
    (notRoot : position ≠ 0) :
    ∃ round, position % 2 ^ round = 0 ∧ BitSet position round := by
  classical
  have exists_not : ∃ round, position % 2 ^ (round + 1) ≠ 0 := by
    refine ⟨position, ?_⟩
    rw [Nat.mod_eq_of_lt]
    · exact notRoot
    · exact Nat.lt_two_pow_self.trans (Nat.pow_lt_pow_right (by omega) (Nat.lt_succ_self position))
  have notNext := Nat.find_spec exists_not
  have multiple : position % 2 ^ Nat.find exists_not = 0 := by
    cases first : Nat.find exists_not with
    | zero => exact Nat.mod_one _
    | succ earlier =>
      by_contra notMultiple
      have := Nat.find_min' exists_not notMultiple
      omega
  refine ⟨Nat.find exists_not, multiple, ?_⟩
  by_contra clear
  exact notNext ((bitSet_of_mod multiple).mpr clear)

/-- A rank that does not return early takes part in every round that concerns
it. -/
theorem Shape.Matches.mem_of_ends_gather
    (matching : shape.Matches nbytes)
    {position target : Nat}
    (inComm : position < shape.commSize)
    (stays : ¬ shape.ReturnsEarly
      (absolute shape.commSize shape.root position))
    (multiple : position % 2 ^ target = 0)
    (within : 2 ^ target < shape.commSize)
    {out : List Cell} {ops : List (Op Nat (List Cell))}
    (ends : (shape.program contents
      (absolute shape.commSize shape.root position)).Ends ops out) :
    (BitSet position target → ∃ msg,
      Op.send (absolute shape.commSize shape.root (position - 2 ^ target)) msg ∈ ops) ∧
    (¬ BitSet position target → position + 2 ^ target < shape.commSize → ∃ msg,
        Op.recv (absolute shape.commSize shape.root (position + 2 ^ target)) msg ∈ ops) := by
  rw [Shape.program, if_pos (absolute_lt matching.root_lt position),
    Call.gather, if_neg (by rwa [Shape.returnsEarly_call])] at ends
  obtain ⟨first, rest, node, rfl, -, after⟩ := ends.of_bind
  obtain ⟨front, back, final, rfl, loop, -⟩ := after.of_bind
  have enough : shape.commSize ≤ 2 ^ (0 + shape.commSize) := by
    rw [zero_add]
    exact Nat.lt_two_pow_self.le
  obtain ⟨sends, receives⟩ := matching.mem_of_ends_gatherLoop inComm multiple
    within shape.commSize (Nat.zero_le target) enough loop
  constructor
  · intro set
    obtain ⟨msg, member⟩ := sends set
    exact ⟨msg, by simp [member]⟩
  · intro clear inside
    obtain ⟨msg, member⟩ := receives clear inside
    exact ⟨msg, by simp [member]⟩

section

variable
    (matching : shape.Matches nbytes)
    {out : Nat → List Cell}
    (completes : Completes (shape.program contents) out)

include matching completes

/-- Where the processes complete, a rank and its parent return early both or
neither. -/
theorem Shape.Matches.early_iff_parent
    {position round : Nat}
    (inComm : position < shape.commSize)
    (multiple : position % 2 ^ round = 0)
    (set : BitSet position round) :
    shape.ReturnsEarly (absolute shape.commSize shape.root position) ↔
      shape.ReturnsEarly (absolute shape.commSize shape.root (position - 2 ^ round)) := by
  have rootLt := matching.root_lt
  have small := mask_le_of_bitSet set
  have parent := parent_spec multiple set
  have parentLt : position - 2 ^ round < shape.commSize := (Nat.sub_le _ _).trans_lt inComm
  have within := small.trans_lt inComm
  obtain ⟨past, ends, balanced⟩ := completes.exists_history
  have silent : ∀ rank < shape.commSize, shape.ReturnsEarly rank → past rank = [] := by
    intro rank rankLt early
    have ended := ends rank
    rw [Shape.program, if_pos rankLt, Call.gather,
      if_pos ((Shape.returnsEarly_call rank).mpr early)] at ended
    exact map_eq_nil_iff.mp (Prog.Ends.of_done ended)
  have same := balanced (absolute shape.commSize shape.root position)
    (absolute shape.commSize shape.root (position - 2 ^ round))
  constructor
  · intro early
    by_contra stays
    obtain ⟨msg, member⟩ := (matching.mem_of_ends_gather parentLt stays parent.1
      within (ends _)).2 parent.2 (by omega)
    rw [Nat.sub_add_cancel small] at member
    rw [silent _ (absolute_lt rootLt _) early, sentTo_nil, map_nil, eq_comm, map_eq_nil_iff] at same
    exact receivedFrom_ne_nil member same
  · intro early
    by_contra stays
    obtain ⟨msg, member⟩ := (matching.mem_of_ends_gather inComm stays multiple
      within (ends _)).1 set
    rw [silent _ (absolute_lt rootLt _) early, receivedFrom_nil, map_nil, map_eq_nil_iff] at same
    exact sentTo_ne_nil member same

/-- Where the processes complete, all of them return early or none does. -/
theorem Shape.Matches.agrees_of_completes :
    shape.Agrees := by
  have towardsRoot : ∀ position < shape.commSize,
      shape.ReturnsEarly (absolute shape.commSize shape.root position) ↔
        shape.ReturnsEarly shape.root := by
    intro position
    induction position using Nat.strong_induction_on with
    | _ position ih =>
      intro inComm
      by_cases isRoot : position = 0
      · rw [isRoot, matching.absolute_zero]
      · obtain ⟨round, multiple, set⟩ := exists_lowest_bit isRoot
        rw [matching.early_iff_parent completes inComm multiple set]
        exact ih _ (by omega) (by omega)
  intro rank inComm
  have step := towardsRoot _ (relative_lt matching.root_lt inComm)
  rwa [absolute_relative matching.root_lt inComm] at step

end

end

end Mpich.Coll.Gather
