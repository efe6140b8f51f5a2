import Mpich.Coll.ReduceScatter.DoublingOrder
import Mpich.Coll.ReduceScatter.HalvingRun
import Mpich.Coll.ReduceScatter.Pairwise

/-!
# When reduce-scatter computes reductions

All three algorithms complete. The recursive halving and the recursive doubling
compute the reductions they should. The pairwise exchange does so unless the
operation is not declared commutative and a rank with elements of its own is not
among the last two, or the result of a process that works in place overlaps the
place that it is moved to.
-/

namespace Mpich.Coll.ReduceScatter

open Buffer MessagePassing List

variable {Cell : Type} {shape : Shape} {uop : Cell → Cell → Cell}
variable {contents : Contents Cell}

namespace Shape

variable (shape : Shape)

/-- `nbytes`. -/
def nbytes : Int :=
  Int.bmod (shape.totalCount * shape.typeSize) (2 ^ 32)

/-- The processes use the recursive halving. -/
def Halves : Prop :=
  shape.isCommutative ∧ shape.nbytes < redscatCommutativeLongMsg

/-- The processes use the pairwise exchange. -/
def Exchanges : Prop :=
  (shape.isCommutative ∧ redscatCommutativeLongMsg ≤ shape.nbytes) ∨
    (¬ shape.isCommutative ∧ redscatNoncommutativeShortMsg ≤ shape.nbytes)

instance : Decidable shape.Halves :=
  inferInstanceAs (Decidable (_ ∧ _))

instance : Decidable shape.Exchanges :=
  inferInstanceAs (Decidable (_ ∨ _))

variable (uop : Cell → Cell → Cell) (contents : Contents Cell)

/-- The receive buffer of a rank in the end. -/
def out (rank : Nat) : List Cell :=
  if rank < shape.commSize then
    if shape.totalCount = 0 then (shape.call uop contents rank).recvbuf
    else if shape.Halves then shape.halvingOut uop contents rank
    else if shape.Exchanges then shape.pairwiseOut uop contents rank
    else shape.doublingOut uop contents rank
  else []

variable {shape uop contents}

variable {rank : Nat}

variable (inComm : rank < shape.commSize)

include inComm in
/-- The result of one rank, from the communications of its algorithm. -/
theorem ends_program
    {ops : List (Op Nat (List Cell))} {result : List Cell}
    (ends : (shape.call uop contents rank).reduceScatter.Ends ops result) :
    (shape.program uop contents rank).Ends ops result := by
  rw [program, if_pos inComm]
  exact ends

/-- Programs outside the communicator have nothing to do. -/
theorem ends_program_outside
    {ops : List (Op Nat (List Cell))}
    (outside : ¬ rank < shape.commSize)
    (noOps : ops = []) :
    (shape.program uop contents rank).Ends ops [] := by
  rw [program, if_neg outside, noOps]
  exact Prog.ends_done _

/-- Processes that all follow one schedule complete. -/
theorem completes_of
    {Label : Type} {rounds : Nat → Label → Round Nat (List Cell)}
    {schedule : List Label}
    (agree : ScheduleAgrees rounds schedule)
    (outside : ∀ rank, ¬ rank < shape.commSize → ∀ label, rounds rank label = .idle)
    (ends : ∀ rank < shape.commSize, (shape.call uop contents rank).reduceScatter.Ends
        (opsOf (rounds rank) schedule) (shape.out uop contents rank)) :
    Completes (shape.program uop contents) (shape.out uop contents) := by
  apply completes_of_schedule rounds schedule agree _
    (Finset.range shape.commSize)
  · intro rank notMember
    exact outside rank fun within => notMember (Finset.mem_range.mpr within)
  · intro rank
    by_cases inComm : rank < shape.commSize
    · exact ends_program inComm (ends rank inComm)
    · rw [out, if_neg inComm]
      apply ends_program_outside inComm
      apply opsOf_of_idle
      intro label _
      rw [outside rank inComm label, Round.ops_idle]

theorem reduceScatter_eq (rank : Nat) :
    (shape.call uop contents rank).reduceScatter =
      if shape.totalCount = 0 then pure (shape.call uop contents rank).recvbuf
      else if shape.Halves then
        (shape.call uop contents rank).recursiveHalving
      else if shape.Exchanges then
        (shape.call uop contents rank).pairwiseExchange
      else (shape.call uop contents rank).recursiveDoubling :=
  rfl

theorem halvingRound_outside
    (outside : ¬ rank < shape.commSize)
    (label : HalvingLabel) :
    shape.halvingRound uop contents rank label = .idle := by
  have beyond : ¬ rank < 2 * shape.extra := by
    rcases Nat.eq_zero_or_pos shape.commSize with none | nonempty
    · have : shape.extra = 0 := by
        rw [extra, none, Nat.zero_sub]
      omega
    · have := commSize_eq nonempty
      have := @extra_lt shape
      omega
  cases label with
  | fold =>
    exact congrArg₂ Round.mk
      (messageIf_of_not (fun both => beyond both.1) _ _)
      (messageIf_of_not (fun both => beyond both.1) _ _)
  | exchange round =>
    have none : shape.newRank rank = none := if_neg fun both => outside both.1
    unfold halvingRound
    simp only [none]
  | unfold =>
    exact congrArg₂ Round.mk
      (messageIf_of_not (fun both => beyond both.1.1) _ _)
      (messageIf_of_not (fun both => beyond both.1.1) _ _)

theorem doublingRound_outside
    (outside : ¬ rank < shape.commSize)
    (label : DoublingLabel) :
    shape.doublingRound uop contents rank label = .idle := by
  cases label with
  | exchange level =>
    exact congrArg₂ Round.mk
      (messageIf_of_not (fun both => outside both.1) _ _)
      (messageIf_of_not (fun both => outside both.1) _ _)
  | forward level step =>
    exact congrArg₂ Round.mk
      (messageIf_of_not (fun both => outside both.1) _ _)
      (messageIf_of_not (fun both => outside both.1) _ _)

theorem not_isCommutative_of
    (noHalving : ¬ shape.Halves)
    (noExchange : ¬ shape.Exchanges) :
    shape.isCommutative = false := by
  unfold Halves Exchanges at *
  by_contra commutes
  rw [Bool.not_eq_false] at commutes
  simp only [commutes, true_and, not_true_eq_false, false_and, or_false] at *
  omega

theorem commSize_pos (nonempty : shape.totalCount ≠ 0) :
    0 < shape.commSize := by
  by_contra none
  apply nonempty
  rw [totalCount, Nat.eq_zero_of_not_pos none]
  rfl

/-- The processes complete. -/
theorem completes :
    Completes (shape.program uop contents) (shape.out uop contents) := by
  by_cases empty : shape.totalCount = 0
  · have agree : ScheduleAgrees (fun _ (_ : Unit) => (.idle : Round Nat (List Cell))) [] := by
      intro label member
      cases member
    refine completes_of agree (fun _ _ _ => rfl) fun rank inComm => ?_
    rw [reduceScatter_eq, out, if_pos inComm, if_pos empty, if_pos empty]
    exact Prog.ends_done _
  by_cases halves : shape.Halves
  · have agree := @halvingRound_agrees _ shape uop contents (commSize_pos empty)
    refine completes_of agree (fun _ outside => halvingRound_outside outside) fun rank inComm => ?_
    rw [reduceScatter_eq, out, if_pos inComm, if_neg empty, if_neg empty,
      if_pos halves, if_pos halves]
    exact ends_recursiveHalving inComm
  by_cases exchanges : shape.Exchanges
  · have agree := @pairwiseRound_agrees _ shape contents
    refine completes_of agree (fun _ outside _ => if_neg outside) fun rank inComm => ?_
    rw [reduceScatter_eq, out, if_pos inComm, if_neg empty, if_neg empty,
      if_neg halves, if_neg halves, if_pos exchanges, if_pos exchanges]
    exact ends_pairwiseExchange inComm
  · have agree := @doublingRound_agrees _ shape uop contents
    refine completes_of agree (fun _ outside => doublingRound_outside outside) fun rank inComm => ?_
    rw [reduceScatter_eq, out, if_pos inComm, if_neg empty, if_neg empty,
      if_neg halves, if_neg halves, if_neg exchanges, if_neg exchanges]
    exact ends_recursiveDoubling inComm (not_isCommutative_of halves exchanges)

/-- The result of a process that works in place is moved by a copy whose source
and destination overlap. -/
def Overlaps (shape : Shape) (rank : Nat) : Prop :=
  shape.inPlace rank = true ∧ rank ≠ 0 ∧ shape.typeIsContig = true ∧
    shape.disps rank < shape.recvcnts rank

instance (rank : Nat) : Decidable (shape.Overlaps rank) :=
  inferInstanceAs (Decidable (_ ∧ _ ∧ _ ∧ _))

include inComm in
theorem getElem?_pairwiseOut
    {index : Nat}
    (inside : index < shape.recvcnts rank) :
    (shape.pairwiseOut uop contents rank)[index]? =
      some (if shape.Overlaps rank then contents.overlap rank index
        else shape.combined uop contents rank (shape.commSize - 1) index) := by
  have room := recvcnts_le_recvLength inComm
  unfold pairwiseOut
  rw [getElem?_tabulate, if_pos (by omega)]
  apply congrArg some
  by_cases moves : shape.inPlace rank = true ∧ rank ≠ 0
  · rw [if_pos moves, patch_of_mem (by omega), Nat.sub_zero]
    by_cases overlaps :
        shape.typeIsContig = true ∧ shape.disps rank < shape.recvcnts rank
    · rw [if_pos overlaps, if_pos ⟨moves.1, moves.2, overlaps⟩]
    · rw [if_neg overlaps, if_neg fun all => overlaps all.2.2]
  · have front : shape.resultAt rank = 0 := by
      unfold resultAt
      by_cases place : shape.inPlace rank = true
      · rw [if_pos place, not_not.mp fun other => moves ⟨place, other⟩]
        rfl
      · rw [if_neg place]
    rw [if_neg moves, front, patch_of_mem (by omega), Nat.sub_zero,
      if_neg fun all => moves ⟨all.1, all.2.1⟩]

include inComm in
/-- Results at the beginning of the receive buffer. -/
theorem getElem?_results
    {index : Nat}
    (inside : index < shape.recvcnts rank)
    (results : Nat → Cell) :
    (tabulate (shape.recvLength rank)
        (patch (shape.recvcell contents rank) 0 (shape.recvcnts rank)
          results))[index]? = some (results index) := by
  have room := recvcnts_le_recvLength inComm
  rw [getElem?_tabulate, if_pos (by omega), patch_of_mem (by omega), Nat.sub_zero]

/-- Without commutativity, short messages or not, the ranks with elements of
their own are among the last two if the pairwise exchange is used. -/
def InOrder (shape : Shape) : Prop :=
  shape.isCommutative = true ∨ shape.nbytes < redscatNoncommutativeShortMsg ∨
    ∀ rank < shape.commSize, shape.recvcnts rank ≠ 0 → shape.commSize ≤ rank + 2

/-- No result is moved to a place that it overlaps. -/
def Apart (shape : Shape) : Prop :=
  shape.Exchanges → ∀ rank < shape.commSize, ¬ shape.Overlaps rank

include inComm in
theorem totalCount_ne_zero
    {index : Nat}
    (inside : index < shape.recvcnts rank) :
    shape.totalCount ≠ 0 := by
  have := slot_within inComm
  omega

theorem computes
    (associative : ∀ a b c, uop (uop a b) c = uop a (uop b c))
    (inOrder : shape.InOrder)
    (apart : shape.Apart) :
    shape.Computes uop contents := by
  refine ⟨_, completes, ?_⟩
  intro rank inComm index inside
  have some := totalCount_ne_zero inComm inside
  rw [out, if_pos inComm, if_neg some]
  by_cases halves : shape.Halves
  · rw [if_pos halves, halvingOut, getElem?_results inComm inside]
    refine ⟨_, rfl, _, ?_, product_halvingResults associative inside⟩
    rw [Allows, if_pos halves.1]
    exact orderAt_perm (commSize_pos some) (holder_lt (commSize_pos some) inComm)
  by_cases exchanges : shape.Exchanges
  · rw [if_neg halves, if_pos exchanges, getElem?_pairwiseOut inComm inside,
      if_neg (apart exchanges rank inComm)]
    refine ⟨_, rfl, _, ?_, product_arrivals associative rank _ index⟩
    unfold Allows
    by_cases commutes : shape.isCommutative = true
    · rw [if_pos commutes]
      exact arrivals_perm_range inComm
    · have late := (inOrder.resolve_left commutes).resolve_left fun short => by
        rcases exchanges with ⟨declared, -⟩ | ⟨-, long⟩
        · exact commutes declared
        · omega
      rw [if_neg commutes, arrivals_eq_range_iff (Bool.not_eq_true _ ▸ commutes) inComm]
      exact late rank inComm (by omega)
  · have ordered := not_isCommutative_of halves exchanges
    rw [if_neg halves, if_neg exchanges, doublingOut, getElem?_results inComm inside]
    refine ⟨_, rfl, _, ?_, product_doubledAt associative inComm inside⟩
    rw [Allows, if_neg (by rw [ordered]; exact Bool.false_ne_true)]

/-- Each rank contributes itself, as a list, and lists are appended. -/
def tracing : Contents (List Nat) where
  input := fun rank _ => [rank]
  output := fun _ _ => []
  garbage := fun _ _ => []
  overlap := fun _ _ => []

/-- What the pairwise exchange makes of the lists. -/
theorem eq_of_computes_tracing
    (computes : shape.Computes (· ++ ·) tracing)
    (exchanges : shape.Exchanges)
    (inComm : rank < shape.commSize)
    (some : shape.recvcnts rank ≠ 0) :
    ¬ shape.Overlaps rank ∧ shape.Allows (shape.arrivals rank (shape.commSize - 1)) := by
  have inside : 0 < shape.recvcnts rank := Nat.pos_of_ne_zero some
  have noHalving : ¬ shape.Halves := by
    rintro ⟨commutes, short⟩
    rcases exchanges with ⟨-, long⟩ | ⟨ordered, -⟩
    · omega
    · exact ordered commutes
  obtain ⟨out, completed, results⟩ := computes
  obtain ⟨value, atFront, order, allowed, product⟩ := results rank inComm 0 inside
  have nonempty : order ≠ [] := by
    rintro rfl
    cases product
  have valueEq : value = order :=
    Option.some.inj (product.symm.trans (OrderedProduct.product_append_singletons order nonempty))
  rw [completed.unique completes, Shape.out, if_pos inComm,
    if_neg (totalCount_ne_zero inComm inside), if_neg noHalving,
    if_pos exchanges, getElem?_pairwiseOut inComm inside] at atFront
  have same := Option.some.inj atFront
  by_cases overlaps : shape.Overlaps rank
  · rw [if_pos overlaps] at same
    exact absurd (valueEq.symm.trans same.symm) nonempty
  · refine ⟨overlaps, ?_⟩
    rw [if_neg overlaps] at same
    have arrived := @product_arrivals _ shape (· ++ ·) tracing
      (fun a b c => append_assoc a b c) rank (shape.commSize - 1) 0
    have traced : OrderedProduct.product (· ++ ·) (fun src : Nat => [src])
        (shape.arrivals rank (shape.commSize - 1)) =
          Option.some (shape.arrivals rank (shape.commSize - 1)) := by
      apply OrderedProduct.product_append_singletons
      intro none
      have all := (@arrivals_perm_range shape rank inComm).length_eq
      rw [none, length_range] at all
      exact absurd all (by rw [length_nil]; omega)
    rw [show shape.arrivals rank (shape.commSize - 1) = order from
      Option.some.inj (traced.symm.trans (arrived.trans
        (congrArg Option.some (same.trans valueEq))))]
    exact allowed

end Shape

/-- Three ranks with 64 elements of eight bytes for each, and an operation that
is not declared commutative. -/
def threeRanks : Shape where
  commSize := 3
  recvcnts := fun _ => 64
  typeSize := 8
  typeIsContig := true
  isCommutative := false
  inPlace := fun _ => false

/-- Each rank contributes its number. -/
def numbered : Contents UInt64 where
  input := fun rank _ => UInt64.ofNat rank
  output := fun _ _ => 0
  garbage := fun _ _ => 0
  overlap := fun _ _ => 0

/-- An operation that keeps its right operand. -/
def keepRight (_ right : UInt64) : UInt64 :=
  right

end Mpich.Coll.ReduceScatter
