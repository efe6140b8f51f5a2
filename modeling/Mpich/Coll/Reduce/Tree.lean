import Mpich.Coll.Reduce.Defs
import Mpich.Foundation.BinomialTree

/-!
# Running up the binomial tree

What a process has after each round of the tree, and how the result of an
operation that is not commutative gets to the root.
-/

namespace Mpich.Coll.Reduce

open MessagePassing Masks BinomialTree List Buffer Cyclic

variable {Cell : Type}

namespace Shape

variable {shape : Shape} {check : LengthCheck} {uop : Cell → Cell → Cell}
variable {contents : Contents Cell}

section

variable {rank other : Nat} {own incoming : Nat → Cell}

theorem startTemps_eq (rank : Nat) :
    (shape.call check uop contents rank).startTemps = some
        { recvbuf := tabulate shape.count (contents.input rank)
          tmpBuf := tabulate shape.count (contents.garbage rank) } := by
  unfold Call.startTemps call
  by_cases isRoot : rank = shape.root
  · cases inPlace : shape.inPlace with
    | true => simp [isRoot]
    | false => simp [isRoot, localcopy_all]
  · simp [isRoot, localcopy_all]

theorem ends_sendAll (tmpBuf : List Cell) :
    ((shape.call check uop contents rank).sendAll other
        { recvbuf := tabulate shape.count own, tmpBuf }).Ends
      [.send other (tabulate shape.count own)] () :=
  (ends_ofOption (load_tabulate_all _ _)).bind (ends_mpicSend _ _)

theorem ends_recvTmp (recvbuf : List Cell) (cell : Nat → Cell) :
    ((shape.call check uop contents rank).recvTmp other
        { recvbuf, tmpBuf := tabulate shape.count cell }).Ends
      [.recv other (tabulate shape.count incoming)]
      { recvbuf, tmpBuf := tabulate shape.count incoming } :=
  (check.ends_recv (length_tabulate _ _)).bind
    ((ends_ofOption (store_tabulate_all _ _ _)).bind (Prog.ends_done _))

/-- The combined elements, in one order or the other. -/
theorem combine_eq (tmpFirst : Prop) [Decidable tmpFirst] :
    ∃ cell, (shape.call check uop contents rank).combine tmpFirst
        { recvbuf := tabulate shape.count own
          tmpBuf := tabulate shape.count incoming } =
      some
        { recvbuf := tabulate shape.count fun index =>
            if tmpFirst then uop (incoming index) (own index)
            else uop (own index) (incoming index)
          tmpBuf := tabulate shape.count cell } := by
  have count : (shape.call check uop contents rank).count = shape.count := rfl
  have operation : (shape.call check uop contents rank).uop = uop := rfl
  unfold Call.combine
  rw [count, operation]
  by_cases first : tmpFirst
  · refine ⟨incoming, ?_⟩
    simp only [if_pos first]
    rw [applyOp_all]
    rfl
  · refine ⟨fun index => uop (own index) (incoming index), ?_⟩
    simp only [if_neg first]
    rw [applyOp_all, Option.bind_some, localcopy_all]
    rfl

end

variable (shape) in
/-- The root of the tree. -/
def lroot : Nat :=
  if shape.kind.isCommutative then shape.root else 0

variable (shape) in
/-- The position of a rank in the tree. -/
def position (rank : Nat) : Nat :=
  behind shape.commSize rank shape.lroot

variable (shape) in
/-- The rank at a position. -/
def rankAt (position : Nat) : Nat :=
  ahead shape.commSize position shape.lroot

variable (shape) in
/-- The number of rounds. -/
def height : Nat :=
  Nat.clog 2 shape.commSize

variable (shape uop contents) in
/-- The combined elements of a position after some rounds. -/
def treeAt (round position column : Nat) : Cell :=
  valueAt uop shape.kind.isCommutative shape.commSize
    (fun position => contents.input (shape.rankAt position) column) round position

variable (shape uop contents) in
/-- What a position sends in a round. -/
def treeMsg (round position : Nat) : List Cell :=
  tabulate shape.count (shape.treeAt uop contents round position)

theorem lroot_lt : shape.lroot < shape.commSize := by
  have := shape.root_lt
  unfold lroot
  split <;> omega

variable {round : Nat}

theorem lt_height_iff :
    round < shape.height ↔ 2 ^ round < shape.commSize :=
  Nat.lt_clog_iff_pow_lt one_lt_two

theorem height_le : shape.height ≤ shape.commSize :=
  Nat.clog_le_of_le_pow Nat.lt_two_pow_self.le

theorem treeAt_succ
    {position : Nat}
    (within : position + 2 ^ round < shape.commSize) :
    shape.treeAt uop contents (round + 1) position = fun column =>
      if shape.kind.isCommutative then
        uop (shape.treeAt uop contents round (position + 2 ^ round) column)
          (shape.treeAt uop contents round position column)
      else
        uop (shape.treeAt uop contents round position column)
          (shape.treeAt uop contents round (position + 2 ^ round) column) := by
  funext column
  unfold treeAt
  rw [valueAt, if_pos within]

theorem treeAt_succ_of_le
    {position : Nat}
    (beyond : ¬ position + 2 ^ round < shape.commSize) :
    shape.treeAt uop contents (round + 1) position = shape.treeAt uop contents round position := by
  funext column
  unfold treeAt
  rw [valueAt, if_neg beyond]

section

variable {rank : Nat} (inComm : rank < shape.commSize)

include inComm

theorem rankAt_position : shape.rankAt (shape.position rank) = rank :=
  ahead_behind inComm lroot_lt.le

/-- The rank of the child in a round. -/
theorem child_eq
    (within : shape.position rank + 2 ^ round < shape.commSize) :
    shape.rankAt (shape.position rank + 2 ^ round) = ahead shape.commSize rank (2 ^ round) := by
  have moved : shape.position (ahead shape.commSize rank (2 ^ round)) =
      shape.position rank + 2 ^ round :=
    behind_ahead_of_lt inComm lroot_lt within
  rw [← moved]
  exact rankAt_position (ahead_lt inComm)

/-- The rank of the parent. -/
theorem parent_eq
    (least : 2 ^ round ≤ shape.position rank) :
    shape.rankAt (shape.position rank - 2 ^ round) = behind shape.commSize rank (2 ^ round) := by
  have moved : shape.position (behind shape.commSize rank (2 ^ round)) =
      shape.position rank - 2 ^ round :=
    behind_behind_of_le inComm lroot_lt least
  rw [← moved]
  exact rankAt_position (behind_lt inComm)

omit inComm in
/-- Clearing a bit that is set. -/
theorem ldiff_mask
    {number exponent : Nat}
    (set : BitSet number exponent) :
    Nat.ldiff number (2 ^ exponent) = number - 2 ^ exponent := by
  rw [← xor_mask_of_set set]
  apply Nat.eq_of_testBit_eq
  intro index
  by_cases here : exponent = index
  · subst here
    simp [testBit_eq_decide number, set]
  · simp [here]

/-- The loop of the tree. -/
theorem yields_treeLoop
    (fuel : Nat)
    (multiple : shape.position rank % 2 ^ round = 0)
    (within : round ≤ shape.height)
    (enough : shape.height ≤ round + fuel)
    (cell : Nat → Cell) :
    ((shape.call check uop contents rank).treeLoop fuel (2 ^ round)
        { recvbuf := tabulate shape.count
            (shape.treeAt uop contents round (shape.position rank))
          tmpBuf := tabulate shape.count cell }).Yields
      (opsOf (climbRound shape.commSize shape.lroot (shape.treeMsg uop contents)
        rank) (range' round (shape.height - round)))
      (fun out => ∃ own cell, out =
          { recvbuf := tabulate shape.count own
            tmpBuf := tabulate shape.count cell } ∧
        (shape.position rank = 0 → own = shape.treeAt uop contents shape.height 0)) := by
  have size : (shape.call check uop contents rank).commSize = shape.commSize := rfl
  have relrank : (shape.call check uop contents rank).relrank = shape.position rank := rfl
  have lroot : (shape.call check uop contents rank).lroot = shape.lroot := rfl
  have kind : (shape.call check uop contents rank).kind = shape.kind := rfl
  have position : behind shape.commSize rank shape.lroot = shape.position rank := rfl
  have result : shape.position rank = 0 →
      shape.treeAt uop contents shape.height (shape.position rank) =
        shape.treeAt uop contents shape.height 0 := by
    intro first
    rw [first]
  have last : ¬ 2 ^ shape.height < shape.commSize := mt lt_height_iff.mpr (lt_irrefl _)
  induction fuel generalizing round cell with
  | zero =>
    obtain rfl : round = shape.height := by omega
    rw [Call.treeLoop, size, if_neg last, Nat.sub_self]
    exact Prog.yields_pure ⟨_, cell, rfl, result⟩
  | succ fuel ih =>
    rw [Call.treeLoop, size, relrank]
    by_cases more : round < shape.height
    · have bit := mod_two_pow_succ (shape.position rank) round
      rw [multiple, zero_add] at bit
      rw [if_pos (lt_height_iff.mp more), two_pow_shiftLeft, Nat.and_comm,
        show shape.height - round = shape.height - (round + 1) + 1 by omega,
        range'_succ, opsOf_cons]
      by_cases set : BitSet (shape.position rank) round
      · -- The process sends to its parent and leaves the loop.
        rw [if_pos set] at bit
        have least := le_of_lowest bit
        have parent : (Nat.ldiff (shape.position rank) (2 ^ round) +
            shape.lroot) % shape.commSize = behind shape.commSize rank (2 ^ round) := by
          rw [ldiff_mask set]
          exact parent_eq inComm least
        have later : opsOf (climbRound shape.commSize shape.lroot
            (shape.treeMsg uop contents) rank)
            (range' (round + 1) (shape.height - (round + 1))) = [] := by
          apply opsOf_of_idle
          intro next member
          exact ops_climbRound_of_above bit (Nat.lt_of_succ_le (mem_range'_1.mp member).1) _
        rw [if_neg fun clear => (and_mask_eq_zero_iff _ _).mp clear set, lroot,
          parent, later, ops_climbRound_of_lowest inComm bit]
        have notFirst : shape.position rank = 0 →
            shape.treeAt uop contents round (shape.position rank) =
              shape.treeAt uop contents shape.height 0 := by
          omega
        exact (ends_sendAll _).bind_yields (Prog.yields_pure ⟨_, cell, rfl, notFirst⟩)
      · rw [if_neg set] at bit
        rw [if_pos ((and_mask_eq_zero_iff _ _).mpr set), or_mask set,
          ops_climbRound_of_multiple inComm bit, position]
        by_cases hasChild : shape.position rank + 2 ^ round < shape.commSize
        · have child : (shape.position rank + 2 ^ round + shape.lroot) %
              shape.commSize = ahead shape.commSize rank (2 ^ round) :=
            child_eq inComm hasChild
          obtain ⟨next, combined⟩ := @combine_eq Cell shape check uop contents
            rank (shape.treeAt uop contents round (shape.position rank))
            (shape.treeAt uop contents round (shape.position rank + 2 ^ round))
            shape.kind.isCommutative _
          rw [← treeAt_succ hasChild] at combined
          simp only [if_pos hasChild, lroot, child, kind]
          refine (ends_recvTmp _ cell).bind_yields ?_
          rw [combined]
          exact ih bit more (by omega) next
        · rw [if_neg hasChild, if_neg hasChild, ← treeAt_succ_of_le hasChild]
          exact ih bit more (by omega) cell
    · obtain rfl : round = shape.height := by omega
      rw [if_neg last, Nat.sub_self]
      exact Prog.yields_pure ⟨_, cell, rfl, result⟩

end

end Shape

end Mpich.Coll.Reduce
