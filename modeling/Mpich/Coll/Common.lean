import Mathlib.Data.Nat.Log
import Mpich.Foundation.Masks
import Mpich.Foundation.MessagePassing.Rounds
import Mpich.Foundation.OrderedProduct
import Mpich.Foundation.Tabulate

/-!
# Point-to-point communication in collective operations

The calls that the collective algorithms make, over messages that are lists of
cells. A receive names the number of cells it has room for; a longer message is
a truncation error. Each collective call uses one tag on one communicator, so
that messages are told apart by their source.
-/

namespace Mpich.Coll

open MessagePassing

variable {Cell : Type}

/-- `MPIC_Send`. -/
def mpicSend (dst : Nat) (msg : List Cell) : Prog Nat (List Cell) Unit :=
  .send dst msg (.done ())

/-- `MPIC_Recv`, with room for this many cells. -/
def mpicRecv (src capacity : Nat) : Prog Nat (List Cell) (List Cell) :=
  .recv src fun msg => if msg.length ≤ capacity then .done msg else .fail

/-- What a receive demands of a message: to fit into the room for it, as
`MPIC_Recv` does, or to fill it. -/
inductive LengthCheck
  | fits
  | equal

namespace LengthCheck

/-- A message of this length is received without an error. -/
def Accepts : LengthCheck → Nat → Nat → Prop
  | .fits, length, capacity => length ≤ capacity
  | .equal, length, capacity => length = capacity

instance : ∀ (check : LengthCheck) (length capacity : Nat),
    Decidable (check.Accepts length capacity)
  | .fits, length, capacity => inferInstanceAs (Decidable (length ≤ capacity))
  | .equal, length, capacity => inferInstanceAs (Decidable (length = capacity))

/-- A receive with such a check; `mpicRecv` for `fits`. -/
def recv (check : LengthCheck) (src capacity : Nat) :
    Prog Nat (List Cell) (List Cell) :=
  .recv src fun msg =>
    if check.Accepts msg.length capacity then .done msg else .fail

variable {msg : List Cell}

theorem ends_recv
    (check : LengthCheck)
    {src capacity : Nat}
    (same : msg.length = capacity) :
    (check.recv src capacity).Ends [.recv src msg] msg := by
  have accepted : check.Accepts msg.length capacity := by
    cases check with
    | fits => exact same.le
    | equal => exact same
  refine ⟨rfl, ?_⟩
  simp only [if_pos accepted, Prog.path_nil]

end LengthCheck

theorem ends_mpicSend (dst : Nat) (msg : List Cell) :
    (mpicSend dst msg).Ends [.send dst msg] () :=
  ⟨rfl, rfl, rfl⟩

variable {msg : List Cell}

theorem ends_mpicRecv
    {src capacity : Nat}
    (fits : msg.length ≤ capacity) :
    (mpicRecv src capacity).Ends [.recv src msg] msg := by
  refine ⟨rfl, ?_⟩
  simp only [if_pos fits, Prog.path_nil]

theorem mem_of_ends_mpicSend
    {dst : Nat} {ops : List (Op Nat (List Cell))}
    (ends : (mpicSend dst msg).Ends ops ()) :
    Op.send dst msg ∈ ops := by
  cases ops with
  | nil => cases ends
  | cons op ops =>
    rcases Prog.Path.cons_cases ends with
      ⟨_, _, _, rfl, progEq, _⟩ | ⟨_, _, _, rfl, progEq, _⟩
    · obtain ⟨rfl, rfl, -⟩ := Prog.send.inj progEq
      exact List.mem_cons_self
    · cases progEq

theorem mem_of_ends_mpicRecv
    {src capacity : Nat} {ops : List (Op Nat (List Cell))}
    (ends : (mpicRecv src capacity).Ends ops msg) :
    ∃ received, Op.recv src received ∈ ops := by
  cases ops with
  | nil => cases ends
  | cons op ops =>
    rcases Prog.Path.cons_cases ends with
      ⟨_, _, _, rfl, progEq, _⟩ | ⟨_, received, _, rfl, progEq, _⟩
    · cases progEq
    · obtain ⟨rfl, -⟩ := Prog.recv.inj progEq
      exact ⟨received, List.mem_cons_self⟩

theorem ends_ofOption
    {Rank Msg Out : Type} {value : Option Out} {out : Out}
    (isSome : value = some out) :
    (Prog.ofOption value : Prog Rank Msg Out).Ends [] out := by
  rw [isSome]
  rfl

end Mpich.Coll

/-!
## Reductions on buffers

What the collective algorithms do with the elements of their buffers between
two communications. A buffer of `count` elements of a datatype is the list of
these elements, whatever the size and the extent of the datatype.
-/

namespace Mpich.Coll

open MessagePassing Option Buffer

variable {Cell : Type}

/-- `(*uop)(invec, inoutvec, &count, &datatype)`, where the vectors start at
the given elements of two buffers. The buffer of `inoutvec` afterwards. -/
def applyOp
    (uop : Cell → Cell → Cell)
    (invec : List Cell)
    (inOffset : Nat)
    (inoutvec : List Cell)
    (inoutOffset count : Nat) : Option (List Cell) :=
  (load invec inOffset count).bind fun left =>
  (load inoutvec inoutOffset count).bind fun right =>
  store inoutvec inoutOffset (List.zipWith uop left right)

/-- `MPIR_Localcopy` between the elements of two different buffers. The buffer
written to afterwards. -/
def localcopy
    (src : List Cell)
    (srcOffset : Nat)
    (dst : List Cell)
    (dstOffset count : Nat) : Option (List Cell) :=
  (load src srcOffset count).bind (store dst dstOffset)

/-- `MPIR_Localcopy` between two different buffers of packed data, in which
elements of a type of `size` bytes are given by their positions and numbers.
There must be room for all that is copied. -/
def copyElements
    (src : List Cell)
    (srcElement srcCount srcSize : Nat)
    (dst : List Cell)
    (dstElement dstCount dstSize : Nat) : Option (List Cell) :=
  if srcCount * srcSize ≤ dstCount * dstSize then
    localcopy src (srcElement * srcSize) dst (dstElement * dstSize) (srcCount * srcSize)
  else none

theorem applyOp_tabulate
    {inLength inOffset inoutLength inoutOffset count : Nat}
    (inWithin : inOffset + count ≤ inLength)
    (inoutWithin : inoutOffset + count ≤ inoutLength)
    (uop : Cell → Cell → Cell)
    (incell inoutcell : Nat → Cell) :
    applyOp uop (tabulate inLength incell) inOffset
        (tabulate inoutLength inoutcell) inoutOffset count =
      some (tabulate inoutLength
        (patch inoutcell inoutOffset count fun index =>
          uop (incell (inOffset + index)) (inoutcell (inoutOffset + index)))) := by
  rw [applyOp, load_tabulate inWithin, bind_some, load_tabulate inoutWithin, bind_some,
    zipWith_tabulate, store_tabulate inoutWithin]

theorem localcopy_tabulate
    {srcLength srcOffset dstLength dstOffset count : Nat}
    (srcWithin : srcOffset + count ≤ srcLength)
    (dstWithin : dstOffset + count ≤ dstLength)
    (srccell dstcell : Nat → Cell) :
    localcopy (tabulate srcLength srccell) srcOffset (tabulate dstLength dstcell) dstOffset count =
      some (tabulate dstLength
        (patch dstcell dstOffset count fun index =>
          srccell (srcOffset + index))) := by
  rw [localcopy, load_tabulate srcWithin, bind_some, store_tabulate dstWithin]

theorem load_tabulate_all (count : Nat) (cell : Nat → Cell) :
    load (tabulate count cell) 0 count = some (tabulate count cell) := by
  rw [load_tabulate (zero_add _).le]
  simp only [zero_add]

theorem applyOp_all
    (uop : Cell → Cell → Cell)
    (count : Nat)
    (incell inoutcell : Nat → Cell) :
    applyOp uop (tabulate count incell) 0 (tabulate count inoutcell) 0 count =
      some (tabulate count fun index =>
        uop (incell index) (inoutcell index)) := by
  rw [applyOp, load_tabulate_all, bind_some, load_tabulate_all,
    bind_some, zipWith_tabulate, store_tabulate_all]

theorem localcopy_all
    (count : Nat)
    (srccell dstcell : Nat → Cell) :
    localcopy (tabulate count srccell) 0 (tabulate count dstcell) 0 count =
      some (tabulate count srccell) := by
  rw [localcopy, load_tabulate_all, bind_some, store_tabulate_all]

end Mpich.Coll

/-!
## Powers of two

The loop with which several collective algorithms find out whether the number of
processes is a power of two, and what their recursive doublings have in common.
-/

namespace Mpich.Coll

/-- `while (pof2 < comm_size) pof2 *= 2;` from a given value. -/
def doublePof2 (commSize : Nat) : Nat → Nat → Nat
  | 0, pof2 => pof2
  | fuel + 1, pof2 =>
    if pof2 < commSize then doublePof2 commSize fuel (pof2 * 2) else pof2

/-- `pof2 == comm_size` after that loop, which starts from one. -/
def CommSizeIsPof2 (commSize : Nat) : Prop :=
  doublePof2 commSize commSize 1 = commSize

instance (commSize : Nat) : Decidable (CommSizeIsPof2 commSize) :=
  inferInstanceAs (Decidable (_ = _))

theorem exists_doublePof2_eq (commSize fuel exponent : Nat) :
    ∃ final, doublePof2 commSize fuel (2 ^ exponent) = 2 ^ final := by
  induction fuel generalizing exponent with
  | zero => exact ⟨exponent, rfl⟩
  | succ fuel ih =>
    rw [doublePof2]
    split
    · rw [← pow_succ]
      exact ih (exponent + 1)
    · exact ⟨exponent, rfl⟩

/-- The loop recognises powers of two only. -/
theorem CommSizeIsPof2.eq_two_pow
    {commSize : Nat}
    (pof2 : CommSizeIsPof2 commSize) :
    commSize = 2 ^ Nat.clog 2 commSize := by
  obtain ⟨exponent, doubled⟩ := exists_doublePof2_eq commSize commSize 0
  have size : commSize = 2 ^ exponent := pof2.symm.trans doubled
  rw [size, Nat.clog_pow _ _ Nat.one_lt_two]

/-- The loop does not miss a power of two. -/
theorem commSizeIsPof2_two_pow (exponent : Nat) :
    CommSizeIsPof2 (2 ^ exponent) := by
  have reaches : ∀ fuel start, start ≤ exponent → exponent ≤ start + fuel →
      doublePof2 (2 ^ exponent) fuel (2 ^ start) = 2 ^ exponent := by
    intro fuel
    induction fuel with
    | zero =>
      intro start order enough
      rw [doublePof2, show start = exponent by omega]
    | succ fuel ih =>
      intro start order enough
      rw [doublePof2]
      by_cases less : start < exponent
      · rw [if_pos (Nat.pow_lt_pow_right Nat.one_lt_two less), ← pow_succ]
        exact ih (start + 1) less (by omega)
      · rw [show start = exponent by omega, if_neg (lt_irrefl _)]
  have enough : exponent ≤ 0 + 2 ^ exponent := by
    rw [zero_add]
    exact Nat.lt_two_pow_self.le
  exact reaches (2 ^ exponent) 0 (Nat.zero_le _) enough

/-- The first rank of the subtree of a rank at a level. -/
def treeRoot (rank i : Nat) : Nat :=
  (rank >>> i) <<< i

theorem treeRoot_eq (rank i : Nat) :
    treeRoot rank i = Masks.blockStart rank i := by
  rw [treeRoot, Nat.shiftRight_eq_div_pow, Nat.shiftLeft_eq, Masks.blockStart]

/-- `while (j) { j >>= 1; k++; }` from given values. -/
def countShifts : Nat → Nat → Nat → Nat
  | 0, _, k => k
  | fuel + 1, j, k => if j ≠ 0 then countShifts fuel (j >>> 1) (k + 1) else k

end Mpich.Coll
