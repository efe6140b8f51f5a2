import Mpich.Coll.ReduceScatter.Defs

/-!
# Recursive halving

After the ranks beyond a power of two have been folded into pairs, each round
halves the block of new ranks whose elements a process still combines. The
states of the processes are given round by round, together with the order in
which the elements have been combined.
-/

namespace Mpich.Coll.ReduceScatter

open MessagePassing Masks List Buffer

namespace Shape

variable (shape : Shape)

/-- The number of rounds of the halving. -/
def levels : Nat :=
  Nat.log 2 shape.commSize

/-- The number of ranks beyond the power of two. -/
def extra : Nat :=
  shape.commSize - 2 ^ shape.levels

/-- What a new rank maps to in the old ranking. -/
def oldRank (newrank : Nat) : Nat :=
  if newrank < shape.extra then newrank * 2 + 1 else newrank + shape.extra

/-- The first rank whose elements a new rank starts with. -/
def firstRank (newrank : Nat) : Nat :=
  if newrank < shape.extra then newrank * 2 else newrank + shape.extra

/-- The ranks whose elements a new rank starts with. -/
def members (newrank : Nat) : List Nat :=
  if newrank < shape.extra then [newrank * 2, newrank * 2 + 1]
  else [newrank + shape.extra]

/-- The new rank that computes the result of a rank. -/
def holder (rank : Nat) : Nat :=
  if rank < 2 * shape.extra then rank / 2 else rank - shape.extra

/-- The new rank of a process that takes part in the halving. -/
def newRank (rank : Nat) : Option Nat :=
  if rank < shape.commSize ∧ ¬ (rank < 2 * shape.extra ∧ rank % 2 = 0) then
    some (shape.holder rank)
  else none

variable {shape}

variable (nonempty : 0 < shape.commSize)

include nonempty in
theorem pow_levels_le :
    2 ^ shape.levels ≤ shape.commSize :=
  Nat.pow_log_le_self 2 nonempty.ne'

theorem lt_pow_levels_succ : shape.commSize < 2 ^ (shape.levels + 1) :=
  Nat.lt_pow_succ_log_self one_lt_two _

include nonempty in
theorem commSize_eq :
    shape.commSize = 2 ^ shape.levels + shape.extra := by
  have := pow_levels_le nonempty
  unfold extra
  omega

theorem extra_lt : shape.extra < 2 ^ shape.levels := by
  have below := @lt_pow_levels_succ shape
  unfold extra
  omega

include nonempty in
theorem newRank_eq_some_iff
    {rank newrank : Nat} :
    shape.newRank rank = some newrank ↔
      newrank < 2 ^ shape.levels ∧ shape.oldRank newrank = rank := by
  have size := commSize_eq nonempty
  have few := @extra_lt shape
  unfold newRank holder oldRank
  rw [Option.ite_none_right_eq_some, Option.some.injEq]
  constructor
  · rintro ⟨takesPart, same⟩
    split at same <;> split <;> omega
  · rintro ⟨within, same⟩
    split at same <;> split <;> omega

theorem firstRank_zero : shape.firstRank 0 = 0 := by
  unfold firstRank
  split <;> omega

include nonempty in
theorem firstRank_pow :
    shape.firstRank (2 ^ shape.levels) = shape.commSize := by
  rw [firstRank, if_neg (by have := @extra_lt shape; omega), ← commSize_eq nonempty]

/-- The ranks of a new rank end where those of the next begin. -/
theorem firstRank_succ (newrank : Nat) :
    shape.firstRank (newrank + 1) =
      shape.firstRank newrank + if newrank < shape.extra then 2 else 1 := by
  unfold firstRank
  split <;> split <;> omega

theorem firstRank_holder {rank : Nat} :
    shape.firstRank (shape.holder rank) ≤ rank ∧
      rank < shape.firstRank (shape.holder rank + 1) := by
  rw [firstRank_succ]
  unfold holder firstRank
  split <;> split <;> omega

include nonempty in
theorem holder_lt
    {rank : Nat}
    (inComm : rank < shape.commSize) :
    shape.holder rank < 2 ^ shape.levels := by
  have size := commSize_eq nonempty
  have few := @extra_lt shape
  unfold holder
  split <;> omega

/-- The ranks of all new ranks are all ranks in order. -/
theorem flatMap_members (newrank : Nat) :
    (List.range newrank).flatMap shape.members = List.range (shape.firstRank newrank) := by
  induction newrank with
  | zero => rw [firstRank_zero]; rfl
  | succ newrank ih =>
    rw [range_succ, flatMap_append, ih, flatMap_singleton, firstRank_succ]
    unfold members firstRank
    by_cases folded : newrank < shape.extra
    · rw [if_pos folded, if_pos folded, if_pos folded, range_succ, range_succ, append_assoc]
      rfl
    · rw [if_neg folded, if_neg folded, if_neg folded, range_succ]

end Shape

variable {Cell : Type} {shape : Shape} {uop : Cell → Cell → Cell}
variable {contents : Contents Cell}

section

variable
    (nonempty : 0 < shape.commSize)

include nonempty

theorem exceedingPof2_eq
    (fuel : Nat)
    {round : Nat}
    (within : round ≤ shape.levels + 1)
    (enough : shape.levels + 1 ≤ round + fuel) :
    exceedingPof2 shape.commSize fuel (2 ^ round) = 2 ^ (shape.levels + 1) := by
  induction fuel generalizing round with
  | zero => rw [exceedingPof2, show round = shape.levels + 1 by omega]
  | succ fuel ih =>
    rw [exceedingPof2]
    by_cases small : 2 ^ round ≤ shape.commSize
    · have below := small.trans_lt Shape.lt_pow_levels_succ
      rw [Nat.pow_lt_pow_iff_right one_lt_two] at below
      rw [if_pos small, Nat.shiftLeft_eq, Nat.pow_one, ← pow_succ]
      exact ih below (by omega)
    · rw [if_neg small]
      by_contra different
      have lower : round ≤ shape.levels := by
        by_contra above
        exact different (by rw [show round = shape.levels + 1 by omega])
      exact small ((Nat.pow_le_pow_right two_pos lower).trans (Shape.pow_levels_le nonempty))

theorem Shape.call_pof2 (rank : Nat) :
    (shape.call uop contents rank).pof2 = 2 ^ shape.levels := by
  have enough : shape.levels + 1 ≤ 0 + shape.commSize := by
    have small := Nat.lt_two_pow_self (n := shape.levels)
    have := Shape.pow_levels_le nonempty
    omega
  change exceedingPof2 shape.commSize shape.commSize (2 ^ 0) >>> 1 = _
  rw [exceedingPof2_eq nonempty shape.commSize (Nat.zero_le _) enough,
    Nat.shiftRight_eq_div_pow, Nat.pow_one, pow_succ, Nat.mul_div_cancel _ two_pos]

theorem Shape.call_rem (rank : Nat) :
    (shape.call uop contents rank).rem = shape.extra := by
  rw [Call.rem, Shape.call_pof2 nonempty]
  rfl

theorem Shape.call_oldRank (rank newrank : Nat) :
    (shape.call uop contents rank).oldRank newrank = shape.oldRank newrank := by
  rw [Call.oldRank, Shape.call_rem nonempty]
  rfl

/-- The elements for the ranks of new ranks below a given one are the elements
for the ranks below its first. -/
theorem Shape.call_newdisps (rank newrank : Nat) :
    (shape.call uop contents rank).newdisps newrank = shape.disps (shape.firstRank newrank) := by
  induction newrank with
  | zero =>
    rw [Shape.firstRank_zero]
    rfl
  | succ newrank ih =>
    have split : (shape.call uop contents rank).newdisps (newrank + 1) =
        (shape.call uop contents rank).newdisps newrank +
          (shape.call uop contents rank).newcnts newrank :=
      Finset.sum_range_succ _ _
    rw [split, ih, Shape.firstRank_succ, Call.newcnts,
      Shape.call_oldRank nonempty, Shape.call_rem nonempty]
    change _ + (if _ then shape.recvcnts _ + shape.recvcnts _
      else shape.recvcnts _) = _
    unfold Shape.oldRank Shape.firstRank
    by_cases folded : newrank < shape.extra
    · rw [if_pos folded, if_pos folded, if_pos folded, if_pos (by omega),
        Nat.add_sub_cancel, Shape.disps_succ, Shape.disps_succ]
      omega
    · rw [if_neg folded, if_neg folded, if_neg folded, if_neg (by omega), Shape.disps_succ]

/-- The elements for a block of new ranks. -/
theorem Shape.call_sum_newcnts
    (rank : Nat)
    {first last : Nat}
    (order : first ≤ last) :
    ∑ i ∈ Finset.Ico first last, (shape.call uop contents rank).newcnts i =
      shape.disps (shape.firstRank last) - shape.disps (shape.firstRank first) := by
  have total := Finset.sum_range_add_sum_Ico (shape.call uop contents rank).newcnts order
  have upTo := @Shape.call_newdisps _ shape uop contents nonempty rank
  rw [← upTo, ← upTo]
  unfold Call.newdisps
  omega

end

namespace Shape

variable (shape : Shape) (uop : Cell → Cell → Cell) (contents : Contents Cell)

/-- The new rank that a new rank exchanges elements with in a round. -/
def partner (round newrank : Nat) : Nat :=
  newrank ^^^ 2 ^ (shape.levels - round - 1)

/-- The position of the elements that a new rank still combines. -/
def windowStart (round newrank : Nat) : Nat :=
  shape.disps (shape.firstRank (blockStart newrank (shape.levels - round)))

/-- The number of the elements that a new rank still combines. -/
def windowSize (round newrank : Nat) : Nat :=
  shape.disps (shape.firstRank (blockStart newrank (shape.levels - round) +
    2 ^ (shape.levels - round))) - shape.windowStart round newrank

/-- The elements of `tmp_results` after some rounds. -/
def resultsAt : Nat → Nat → Nat → Cell
  | 0, newrank =>
    if newrank < shape.extra then fun column =>
      uop (contents.input (newrank * 2) column) (contents.input (newrank * 2 + 1) column)
    else contents.input (newrank + shape.extra)
  | round + 1, newrank =>
    let start := shape.windowStart (round + 1) newrank
    patch (resultsAt round newrank) start
      (shape.windowSize (round + 1) newrank) fun index =>
        uop (resultsAt round (shape.partner round newrank) (start + index))
          (resultsAt round newrank (start + index))

/-- The elements of `tmp_recvbuf` after some rounds. -/
def incomingAt : Nat → Nat → Nat → Cell
  | 0, newrank =>
    if newrank < shape.extra then contents.input (newrank * 2)
    else contents.garbage (newrank + shape.extra)
  | round + 1, newrank =>
    let start := shape.windowStart (round + 1) newrank
    patch (incomingAt round newrank) start
      (shape.windowSize (round + 1) newrank) fun index =>
        shape.resultsAt uop contents round (shape.partner round newrank) (start + index)

/-- The order in which a new rank has combined the elements that it still
combines. -/
def orderAt : Nat → Nat → List Nat
  | 0, newrank => shape.members newrank
  | round + 1, newrank =>
    orderAt round (shape.partner round newrank) ++ orderAt round newrank

/-- The temporary buffers of a new rank after some rounds. -/
def tempsAt (round newrank : Nat) : Temps Cell where
  tmpRecvbuf := tabulate shape.totalCount (shape.incomingAt uop contents round newrank)
  tmpResults := tabulate shape.totalCount (shape.resultsAt uop contents round newrank)

/-- What a new rank sends in a round. -/
def halvingMsg (round newrank : Nat) : List Cell :=
  let dst := shape.partner round newrank
  tabulate (shape.windowSize (round + 1) dst) fun index =>
    shape.resultsAt uop contents round newrank (shape.windowStart (round + 1) dst + index)

/-- The results for a rank that its holder has in the end. -/
def halvingResults (rank index : Nat) : Cell :=
  shape.resultsAt uop contents shape.levels (shape.holder rank) (shape.disps rank + index)

end Shape

/-- The rounds of the recursive halving. -/
inductive HalvingLabel
  /-- Even ranks send to their right neighbours. -/
  | fold
  /-- The blocks are halved. -/
  | exchange (round : Nat)
  /-- Even ranks get their results. -/
  | unfold

/-- The communications of a rank in a round of the recursive halving. -/
def Shape.halvingRound
    (shape : Shape)
    (uop : Cell → Cell → Cell)
    (contents : Contents Cell)
    (rank : Nat) : HalvingLabel → Round Nat (List Cell)
  | .fold =>
    { sends := messageIf (rank < 2 * shape.extra ∧ rank % 2 = 0) (rank + 1)
        (tabulate shape.totalCount (contents.input rank))
      recvs := messageIf (rank < 2 * shape.extra ∧ rank % 2 ≠ 0) (rank - 1)
        (tabulate shape.totalCount (contents.input (rank - 1))) }
  | .exchange round =>
    match shape.newRank rank with
    | none => .idle
    | some newrank =>
      let dst := shape.partner round newrank
      { sends := messageIf (shape.windowSize (round + 1) dst ≠ 0)
          (shape.oldRank dst) (shape.halvingMsg uop contents round newrank)
        recvs := messageIf (shape.windowSize (round + 1) newrank ≠ 0)
          (shape.oldRank dst) (shape.halvingMsg uop contents round dst) }
  | .unfold =>
    { sends := messageIf
        ((rank < 2 * shape.extra ∧ rank % 2 ≠ 0) ∧ shape.recvcnts (rank - 1) ≠ 0)
        (rank - 1)
        (tabulate (shape.recvcnts (rank - 1)) (shape.halvingResults uop contents (rank - 1)))
      recvs := messageIf
        ((rank < 2 * shape.extra ∧ rank % 2 = 0) ∧ shape.recvcnts rank ≠ 0)
        (rank + 1)
        (tabulate (shape.recvcnts rank)
          (shape.halvingResults uop contents rank)) }

/-- The rounds in their order. -/
def Shape.halvingSchedule (shape : Shape) : List HalvingLabel :=
  .fold :: ((List.range shape.levels).map .exchange ++ [.unfold])

namespace Shape

theorem partner_lt
    {round newrank : Nat}
    (within : newrank < 2 ^ shape.levels)
    (more : round < shape.levels) :
    shape.partner round newrank < 2 ^ shape.levels :=
  xor_mask_lt within (by omega)

theorem partner_partner (round newrank : Nat) :
    shape.partner round (shape.partner round newrank) = newrank :=
  xor_mask_xor_mask _ _

/-- Partners still combine the same elements. -/
theorem window_partner
    {round newrank : Nat}
    (more : round < shape.levels) :
    shape.windowStart round (shape.partner round newrank) = shape.windowStart round newrank ∧
      shape.windowSize round (shape.partner round newrank) = shape.windowSize round newrank := by
  have same := blockStart_xor_mask newrank (shape.levels - round - 1)
  rw [show shape.levels - round - 1 + 1 = shape.levels - round by omega] at same
  unfold windowSize windowStart partner
  rw [same]
  exact ⟨rfl, rfl⟩

theorem firstRank_mono : Monotone shape.firstRank :=
  monotone_nat_of_le_succ fun newrank => by
    rw [firstRank_succ]
    exact Nat.le_add_right _ _

/-- The elements that a new rank combines are among all elements. -/
theorem window_within
    (nonempty : 0 < shape.commSize)
    {newrank : Nat}
    (within : newrank < 2 ^ shape.levels)
    (round : Nat) :
    shape.windowStart round newrank + shape.windowSize round newrank ≤ shape.totalCount := by
  have inside := blockStart_add_le within (Nat.sub_le shape.levels round)
  have order : shape.windowStart round newrank ≤
      shape.disps (shape.firstRank (blockStart newrank (shape.levels - round) +
        2 ^ (shape.levels - round))) :=
    disps_mono (firstRank_mono (Nat.le_add_right _ _))
  have bound : shape.disps (shape.firstRank (blockStart newrank
      (shape.levels - round) + 2 ^ (shape.levels - round))) ≤ shape.totalCount := by
    rw [totalCount, ← firstRank_pow nonempty]
    exact disps_mono (firstRank_mono inside)
  unfold windowSize
  omega

end Shape

end Mpich.Coll.ReduceScatter

namespace Mpich.Coll.ReduceScatter

open Masks List OrderedProduct

variable {Cell : Type} {shape : Shape} {uop : Cell → Cell → Cell}
variable {contents : Contents Cell}

theorem Shape.windowEnd_eq (round newrank : Nat) :
    shape.windowStart round newrank + shape.windowSize round newrank =
      shape.disps (shape.firstRank (blockStart newrank (shape.levels - round) +
        2 ^ (shape.levels - round))) := by
  have order : shape.windowStart round newrank ≤
      shape.disps (shape.firstRank (blockStart newrank (shape.levels - round) +
        2 ^ (shape.levels - round))) :=
    Shape.disps_mono (Shape.firstRank_mono (Nat.le_add_right _ _))
  unfold Shape.windowSize
  omega

variable {newrank : Nat}

/-- The elements that a new rank still combines become fewer. -/
theorem Shape.window_succ
    {round column : Nat}
    (more : round < shape.levels)
    (after : shape.windowStart (round + 1) newrank ≤ column)
    (before : column < shape.windowStart (round + 1) newrank +
      shape.windowSize (round + 1) newrank) :
    shape.windowStart round newrank ≤ column ∧
      column < shape.windowStart round newrank + shape.windowSize round newrank := by
  obtain ⟨exponent, levels⟩ : ∃ exponent, shape.levels = round + exponent + 1 :=
    ⟨shape.levels - round - 1, by omega⟩
  have half := blockStart_succ newrank exponent
  have positive := Nat.two_pow_pos exponent
  rw [Shape.windowEnd_eq] at before ⊢
  unfold Shape.windowStart at *
  rw [show shape.levels - (round + 1) = exponent by omega] at after before
  rw [show shape.levels - round = exponent + 1 by omega]
  constructor
  · refine (Shape.disps_mono (Shape.firstRank_mono ?_)).trans after
    omega
  · refine before.trans_le (Shape.disps_mono (Shape.firstRank_mono ?_))
    split at half <;> omega

/-- A new rank has combined the elements in the order given for it. -/
theorem Shape.product_resultsAt
    (associative : ∀ a b c, uop (uop a b) c = uop a (uop b c))
    {round column : Nat}
    (within : round ≤ shape.levels)
    (after : shape.windowStart round newrank ≤ column)
    (before : column < shape.windowStart round newrank + shape.windowSize round newrank) :
    product uop (fun rank => contents.input rank column) (shape.orderAt round newrank) =
      some (shape.resultsAt uop contents round newrank column) := by
  induction round generalizing newrank with
  | zero =>
    unfold Shape.orderAt Shape.members Shape.resultsAt
    by_cases folded : newrank < shape.extra
    · rw [if_pos folded, if_pos folded]
      rfl
    · rw [if_neg folded, if_neg folded]
      rfl
  | succ round ih =>
    have more : round < shape.levels := within
    have inside := Shape.window_succ more after before
    have same := @Shape.window_partner shape round newrank more
    have own := ih more.le inside.1 inside.2
    have other := @ih (shape.partner round newrank) more.le
      (by rw [same.1]; exact inside.1)
      (by rw [same.1, same.2]; exact inside.2)
    rw [Shape.orderAt, Shape.resultsAt, Buffer.patch_of_mem ⟨after, before⟩,
      Nat.add_sub_cancel' after]
    exact product_append associative other own

/-- The new ranks whose elements a new rank has combined. -/
def Shape.groupAt (shape : Shape) : Nat → Nat → List Nat
  | 0, newrank => [newrank]
  | round + 1, newrank =>
    groupAt shape round (shape.partner round newrank) ++ groupAt shape round newrank

theorem Shape.orderAt_eq_flatMap (round newrank : Nat) :
    shape.orderAt round newrank = (shape.groupAt round newrank).flatMap shape.members := by
  induction round generalizing newrank with
  | zero => exact (flatMap_singleton _ _).symm
  | succ round ih =>
    rw [Shape.orderAt, Shape.groupAt, flatMap_append, ih, ih]

theorem Shape.length_groupAt (round newrank : Nat) :
    (shape.groupAt round newrank).length = 2 ^ round := by
  induction round generalizing newrank with
  | zero => rfl
  | succ round ih =>
    rw [Shape.groupAt, length_append, ih, ih, pow_succ, mul_two]

/-- The new ranks combined so far agree in the bits below the masks used. -/
theorem Shape.mem_groupAt
    {round member : Nat}
    (within : round ≤ shape.levels)
    (inside : newrank < 2 ^ shape.levels)
    (isMember : member ∈ shape.groupAt round newrank) :
    member < 2 ^ shape.levels ∧ member % 2 ^ (shape.levels - round) =
        newrank % 2 ^ (shape.levels - round) := by
  induction round generalizing newrank with
  | zero =>
    obtain rfl := mem_singleton.mp isMember
    exact ⟨inside, rfl⟩
  | succ round ih =>
    obtain ⟨exponent, levels⟩ :
        ∃ exponent, shape.levels = round + exponent + 1 :=
      ⟨shape.levels - round - 1, by omega⟩
    have now : shape.levels - round = exponent + 1 := by omega
    have next : shape.levels - (round + 1) = exponent := by omega
    have lower : ∀ other, member % 2 ^ (exponent + 1) = other % 2 ^ (exponent + 1) →
          member % 2 ^ exponent = other % 2 ^ exponent := by
      intro other same
      have divides := Nat.pow_dvd_pow 2 (Nat.le_succ exponent)
      rw [← Nat.mod_mod_of_dvd member divides, same, Nat.mod_mod_of_dvd other divides]
    rw [next]
    rcases mem_append.mp isMember with other | own
    · have hypothesis := ih (by omega) (Shape.partner_lt inside within) other
      rw [now] at hypothesis
      refine ⟨hypothesis.1, (lower _ hypothesis.2).trans ?_⟩
      rw [Shape.partner, now, Nat.add_sub_cancel, xor_mask_mod]
    · have hypothesis := ih (by omega) inside own
      rw [now] at hypothesis
      exact ⟨hypothesis.1, lower _ hypothesis.2⟩

theorem Shape.nodup_groupAt
    {round : Nat}
    (within : round ≤ shape.levels)
    (inside : newrank < 2 ^ shape.levels) :
    (shape.groupAt round newrank).Nodup := by
  induction round generalizing newrank with
  | zero => exact nodup_singleton _
  | succ round ih =>
    obtain ⟨exponent, levels⟩ :
        ∃ exponent, shape.levels = round + exponent + 1 :=
      ⟨shape.levels - round - 1, by omega⟩
    have now : shape.levels - round = exponent + 1 := by omega
    have dstInside := Shape.partner_lt inside within
    rw [Shape.groupAt, nodup_append']
    refine ⟨ih (by omega) dstInside, ih (by omega) inside, ?_⟩
    -- The two halves differ in the bit of the mask.
    intro member other own
    have first := (Shape.mem_groupAt (by omega) dstInside other).2
    have second := (Shape.mem_groupAt (by omega) inside own).2
    rw [first, Shape.partner, now, Nat.add_sub_cancel, mod_two_pow_succ,
      mod_two_pow_succ, xor_mask_mod] at second
    simp only [bitSet_xor_mask] at second
    by_cases set : BitSet newrank exponent
    · simp only [set, not_true_eq_false, if_false, if_true] at second
      omega
    · simp only [set, not_false_eq_true, if_false, if_true] at second
      omega

/-- In the end every rank has been combined once. -/
theorem Shape.orderAt_perm
    (nonempty : 0 < shape.commSize)
    (inside : newrank < 2 ^ shape.levels) :
    (shape.orderAt shape.levels newrank).Perm (List.range shape.commSize) := by
  have all : (shape.groupAt shape.levels newrank).Perm (List.range (2 ^ shape.levels)) := by
    apply List.Subperm.perm_of_length_le
    · apply (Shape.nodup_groupAt le_rfl inside).subperm
      intro member isMember
      exact mem_range.mpr (Shape.mem_groupAt le_rfl inside isMember).1
    · rw [length_range, Shape.length_groupAt]
  rw [Shape.orderAt_eq_flatMap, ← Shape.firstRank_pow nonempty, ← Shape.flatMap_members]
  exact all.flatMap_right _

/-- The result for a rank is the product over an order of all ranks. -/
theorem Shape.product_halvingResults
    (associative : ∀ a b c, uop (uop a b) c = uop a (uop b c))
    {rank index : Nat}
    (inside : index < shape.recvcnts rank) :
    product uop
        (fun src => contents.input src (shape.disps rank + index))
        (shape.orderAt shape.levels (shape.holder rank)) =
      some (shape.halvingResults uop contents rank index) := by
  have covered := @Shape.firstRank_holder shape rank
  have next := @Shape.disps_succ shape rank
  apply Shape.product_resultsAt associative le_rfl
  · unfold Shape.windowStart
    rw [Nat.sub_self, blockStart_zero]
    exact (Shape.disps_mono covered.1).trans (Nat.le_add_right _ _)
  · rw [Shape.windowEnd_eq, Nat.sub_self, blockStart_zero, pow_zero]
    have upTo := @Shape.disps_mono shape _ _ covered.2
    rw [Nat.succ_eq_add_one, next] at upTo
    omega

end Mpich.Coll.ReduceScatter
