import Mathlib.Algebra.BigOperators.Ring.List
import Mpich.Datatypes.TypeMap

/-!
# The contiguity flag of indexed types

The counts of contiguous blocks that `MPID_Type_blockindexed` and
`MPID_Type_indexed` take: when they find one, each block begins where the block in
front of it ends. `MPIDI_Type_blockindexed_count_contig` keeps displacements in
`int` variables, which does no harm as long as the size of the type fits one.
-/

namespace Mpich.Datatypes

open Copies List

section

variable {Index : Type*} (bound : Index → Int × Int)

/-- The widened bounds lie outside of all bounds. -/
theorem foldl_widen
    (list : List Index)
    (start : Int × Int) :
    let bounds := list.foldl (fun bounds index => widen bounds (bound index)) start
    bounds.1 ≤ start.1 ∧ start.2 ≤ bounds.2 ∧ ∀ index ∈ list,
        bounds.1 ≤ (bound index).1 ∧ (bound index).2 ≤ bounds.2 := by
  induction list generalizing start with
  | nil => exact ⟨le_refl _, le_refl _, fun _ member => by cases member⟩
  | cons index list ih =>
    obtain ⟨lower, upper, inside⟩ := ih (widen start (bound index))
    have lowest : (widen start (bound index)).1 ≤ start.1 ∧
        (widen start (bound index)).1 ≤ (bound index).1 := by
      unfold widen
      split <;> omega
    have highest : start.2 ≤ (widen start (bound index)).2 ∧
        (bound index).2 ≤ (widen start (bound index)).2 := by
      unfold widen
      split <;> omega
    refine ⟨lower.trans lowest.1, highest.1.trans upper, ?_⟩
    rw [forall_mem_cons]
    exact ⟨⟨lower.trans lowest.2, highest.2.trans upper⟩, inside⟩

/-- Blocks of one width that share short bounds are near to each other. -/
theorem near_of_foldl_widen
    {position : Index → Int} {lower upper limit : Int} {first : Index}
    {rest : List Index} {bounds : Int × Int}
    (bounds_eq : bounds = rest.foldl
      (fun bounds index =>
        widen bounds (lower + position index, upper + position index))
      (lower + position first, upper + position first))
    (ordered : lower ≤ upper)
    (short : bounds.2 - bounds.1 < limit) :
    upper - lower < limit ∧ ∀ index ∈ first :: rest, ∀ next ∈ first :: rest,
        (position next - position index).natAbs < limit := by
  obtain ⟨low, high, inside⟩ := foldl_widen
    (fun index => (lower + position index, upper + position index)) rest
    (lower + position first, upper + position first)
  rw [← bounds_eq] at low high inside
  have all : ∀ index ∈ first :: rest,
      bounds.1 ≤ lower + position index ∧ upper + position index ≤ bounds.2 := by
    rw [forall_mem_cons]
    exact ⟨⟨low, high⟩, inside⟩
  refine ⟨?_, ?_⟩
  · have atFirst := all first mem_cons_self
    omega
  · intro index member next nextMember
    have atIndex := all index member
    have atNext := all next nextMember
    omega

end

section

variable {position : Int → Int} {distance : Int}

/-- Each place lies a fixed distance behind the one in front. -/
def Evenly
    (position : Int → Int)
    (distance : Int)
    (displacements : List Int) : Prop :=
  displacements.IsChain fun disp next => position next = position disp + distance

variable {rest : List Int} {first : Int}

/-- Blocks that follow one another are one long run. -/
theorem Evenly.flatMap_run
    {start : Int} {length : Nat}
    (evenly : Evenly position length (first :: rest)) :
    ((first :: rest).flatMap fun disp =>
        shifted (position disp) (run start length)) =
      run (position first + start) ((first :: rest).length * length) := by
  induction rest generalizing first with
  | nil => simp [shifted_run]
  | cons second rest ih =>
    unfold Evenly at evenly
    rw [isChain_cons_cons] at evenly
    obtain ⟨next, evenly⟩ := evenly
    rw [flatMap_cons, ih evenly, shifted_run,
      length_cons (a := first), Nat.succ_mul, add_comm _ length, ← run_append, next]
    congr 2
    ring

/-- The bounds of blocks that follow one another. -/
theorem Evenly.foldl_widen
    {lower upper low : Int}
    (evenly : Evenly position distance (first :: rest))
    (forward : 0 ≤ distance)
    (isLow : low ≤ lower + position first) :
    rest.foldl
        (fun bounds disp =>
          widen bounds (lower + position disp, upper + position disp))
        (low, upper + position first) =
      (low, upper + position first + rest.length * distance) := by
  induction rest generalizing first with
  | nil => simp
  | cons second rest ih =>
    unfold Evenly at evenly
    rw [isChain_cons_cons] at evenly
    obtain ⟨next, evenly⟩ := evenly
    have wider : widen (low, upper + position first)
        (lower + position second, upper + position second) =
        (low, upper + position second) := by
      unfold widen
      rw [if_neg (by omega)]
      split
      · rfl
      · congr 1
        omega
    rw [foldl_cons, wider, ih evenly (by omega), next, length_cons]
    congr 1
    push_cast
    ring

end

variable {first : Int} {rest : List Int}

theorem isChain_of_countBreaks
    {step : Int} {cut : Int → Int}
    (unbroken : countBreaks step cut (cut first) rest = 0) :
    (first :: rest).IsChain fun disp next => next = cut disp + step := by
  induction rest generalizing first with
  | nil => exact isChain_singleton first
  | cons second rest ih =>
    rw [countBreaks, Nat.add_eq_zero_iff, ite_eq_right_iff] at unbroken
    rw [isChain_cons_cons]
    refine ⟨?_, ih unbroken.2⟩
    by_contra different
    exact absurd (unbroken.1 fun same => different same.symm) Nat.one_ne_zero

/-- Cutting a displacement off is seen when the next one is near. -/
theorem toInt_add_of_near
    {disp next step : Int}
    (next_eq : next = toInt disp + step)
    (near : ((next - disp).natAbs : Int) < 2 ^ 31)
    (short : (step.natAbs : Int) < 2 ^ 31) :
    next = disp + step := by
  have cut := Int.bmod_eq_self_sub_mul_bdiv disp (2 ^ 32)
  unfold toInt at next_eq
  omega

section

variable {old : Oldtype} {typeMap : List Item} (fresh : Datatype)

variable {Index : Type*}

theorem occupied_of_flatMap
    {list : List Index} {distance : Index → Int}
    {count : Index → Nat} {extent : Int} {positions : List Int}
    (occupied : (list.flatMap fun index =>
      shifted (distance index) (copies (count index) extent positions)) ≠ []) :
    positions ≠ [] := by
  rintro rfl
  apply occupied
  rw [flatMap_eq_nil_iff]
  intro index _
  rw [copies_nil, shifted_nil]

/-- The displacements of a contiguous block-indexed type. -/
theorem evenly_of_countContig
    {blocklength : Nat} {dispinbytes : Bool}
    (one : blockindexedCountContig blocklength first rest dispinbytes
      old.extent = 1)
    (near : ∀ disp ∈ first :: rest, ∀ next ∈ first :: rest,
      ((inBytes dispinbytes old next - inBytes dispinbytes old disp).natAbs : Int) < 2 ^ 31)
    (short : ((blocklength * old.extent).natAbs : Int) < 2 ^ 31) :
    Evenly (inBytes dispinbytes old) (blocklength * old.extent) (first :: rest) := by
  cases dispinbytes with
  | false =>
    have unbroken : countBreaks blocklength id (id first) rest = 0 := by
      exact Nat.add_left_cancel one
    refine (isChain_of_countBreaks unbroken).imp fun disp next next_eq => ?_
    rw [next_eq]
    exact add_mul disp (blocklength : Int) old.extent
  | true =>
    have unbroken : countBreaks (blocklength * old.extent) toInt (toInt first) rest = 0 := by
      exact Nat.add_left_cancel one
    refine (isChain_of_countBreaks unbroken).imp_of_mem_imp
      fun disp next member nextMember next_eq => ?_
    exact toInt_add_of_near next_eq (near disp member next nextMember) short

theorem bytes_blocks
    (list : List Index)
    (distance : Index → Int)
    (count : Index → Nat)
    (extent : Index → Int)
    (typeMap : Index → List Item) :
    bytes (list.flatMap fun index =>
        shifted (distance index) (copies (count index) (extent index) (typeMap index))) =
      list.flatMap fun index =>
        shifted (distance index) (copies (count index) (extent index) (bytes (typeMap index))) := by
  rw [bytes_flatMap]
  simp only [bytes_shifted, bytes_copies]

theorem Describes.blockindexed
    (describes : Describes old typeMap)
    (blocklength : Nat)
    (displacements : List Int)
    (dispinbytes : Bool)
    (fits : (typeBlockindexed fresh blocklength displacements dispinbytes
      old).size < 2 ^ 31) :
    Describes
      (.derived (typeBlockindexed fresh blocklength displacements dispinbytes old))
      (displacements.flatMap fun disp =>
        shifted (inBytes dispinbytes old disp) (copies blocklength old.extent typeMap)) := by
  cases displacements with
  | nil => exact describes_zerolen fresh rfl
  | cons first rest =>
    refine ⟨?_, rfl, ?_⟩
    · rw [bytes_blocks, length_flatMap]
      simp only [length_shifted, length_copies, map_const', sum_replicate_nat]
      push_cast
      rw [← describes.size_eq, ← mul_assoc]
      rfl
    · intro isContig occupied
      obtain ⟨oldContig, size_eq, one⟩ := of_decide_eq_true isContig
      rw [bytes_blocks] at occupied ⊢
      have oldOccupied := occupied_of_flatMap occupied
      have nonempty : blocklength ≠ 0 := by
        rintro rfl
        exact occupied (by simp [copies])
      obtain ⟨-, trueUb_eq, extent_eq⟩ := describes.contig oldContig oldOccupied
      have positive := describes.size_pos oldOccupied
      have bounds := describes.extent_eq
      have blockBounds_eq (disp : Int) := blockBounds_of_pos bounds (by omega) nonempty disp
      have wide : 0 < blocklength * old.extent := mul_pos (by omega) (by omega)
      have blockWidth : old.ub + old.extent * (blocklength - 1) - old.lb =
          blocklength * old.extent := by
        rw [show old.ub = old.lb + old.extent by omega]
        ring
      simp only [Oldtype.trueLb_derived, Oldtype.trueUb_derived,
        Oldtype.extent_derived, Oldtype.size_derived, typeBlockindexed,
        blockBounds_eq] at size_eq fits ⊢
      generalize bounds_eq : rest.foldl _ _ = outer at size_eq fits ⊢
      rw [size_eq] at fits
      obtain ⟨short, near⟩ := near_of_foldl_widen bounds_eq.symm (by omega) fits
      have evenly := evenly_of_countContig one near (by omega)
      rw [evenly.foldl_widen wide.le (le_refl _)] at bounds_eq
      have width_eq : blocklength * old.extent = (blocklength * (bytes typeMap).length : Nat) := by
        rw [extent_eq, describes.size_eq]
        rfl
      simp only [describes.block oldContig]
      rw [width_eq] at evenly
      rw [evenly.flatMap_run, length_run, ← bounds_eq]
      refine ⟨?_, ?_, ?_⟩
      · congr 1
        ring
      · rw [trueUb_eq, extent_eq, show old.ub = old.lb + old.size by omega, length_cons]
        push_cast
        ring
      · rw [extent_eq, show old.ub = old.lb + old.size by omega, length_cons]
        push_cast
        ring

end

section

variable {old : Oldtype} {typeMap : List Item} (fresh : Datatype)

/-- The old types of the blocks. -/
def oldCount (blocks : List (Nat × Int)) : Nat :=
  (blocks.map Prod.fst).sum

variable {Index : Type*}

theorem flatMap_dropWhile
    {Value : Type*} {skipped : Index → Bool} {part : Index → List Value}
    (noPart : ∀ index, skipped index = true → part index = [])
    (list : List Index) :
    (list.dropWhile skipped).flatMap part = list.flatMap part := by
  induction list with
  | nil => rfl
  | cons index list ih =>
    rw [dropWhile_cons]
    split
    · rename_i skip
      rw [ih, flatMap_cons, noPart index skip, nil_append]
    · rfl

theorem foldl_oldCount
    (rest : List (Nat × Int))
    (start : Nat) :
    (rest.filter fun block => decide (block.1 > 0)).foldl
        (fun count block => count + block.1) start =
      start + oldCount rest := by
  induction rest generalizing start with
  | nil => rfl
  | cons block rest ih =>
    rw [filter_cons, oldCount, map_cons, sum_cons]
    split
    · rw [foldl_cons, ih, oldCount, add_assoc]
    · rename_i empty
      have isZero : block.1 = 0 := by simpa using empty
      rw [ih, isZero, zero_add, oldCount]

/-- A width of a block in the units of the displacements. -/
def unitWidth (dispinbytes : Bool) (old : Oldtype) : Int :=
  if dispinbytes then old.extent else 1

theorem inBytes_add_mul
    (dispinbytes : Bool)
    (disp : Int)
    (count : Nat) :
    inBytes dispinbytes old (disp + count * unitWidth dispinbytes old) =
      inBytes dispinbytes old disp + count * old.extent := by
  cases dispinbytes with
  | false =>
    change (disp + count * 1) * old.extent = disp * old.extent + _
    ring
  | true => rfl

/-- Empty blocks in front do not matter when no block breaks the row. -/
theorem indexedBreaks_dropWhile
    {width curDisp : Int} {blocks : List (Nat × Int)}
    (unbroken : indexedBreaks width curDisp 0 blocks = 0)
    {first : Nat × Int} {rest : List (Nat × Int)}
    (dropped : blocks.dropWhile (fun block => decide (block.1 = 0)) = first :: rest) :
    indexedBreaks width first.2 first.1 rest = 0 := by
  induction blocks with
  | nil => cases dropped
  | cons block blocks ih =>
    obtain ⟨blocklength, disp⟩ := block
    rw [dropWhile_cons] at dropped
    rw [indexedBreaks] at unbroken
    by_cases empty : blocklength = 0
    · rw [if_pos empty] at unbroken
      rw [if_pos (decide_eq_true empty)] at dropped
      exact ih unbroken dropped
    · rw [if_neg empty] at unbroken
      rw [if_neg (by simpa using empty)] at dropped
      cases dropped
      split at unbroken
      · rename_i same
        rw [Nat.cast_zero, zero_mul, add_zero] at same
        rw [zero_add, same] at unbroken
        exact unbroken
      · omega

theorem indexedBreaks_of_countContig
    {blocks : List (Nat × Int)} {dispinbytes : Bool}
    (one : indexedCountContig blocks dispinbytes old.extent = 1)
    {first : Nat × Int} {rest : List (Nat × Int)}
    (dropped : blocks.dropWhile (fun block => decide (block.1 = 0)) = first :: rest) :
    indexedBreaks (unitWidth dispinbytes old) first.2 first.1 rest = 0 := by
  cases blocks with
  | nil => cases dropped
  | cons block blocks =>
    obtain ⟨blocklength, disp⟩ := block
    have unbroken : indexedBreaks (unitWidth dispinbytes old) disp blocklength
        blocks = 0 := Nat.add_left_cancel one
    rw [dropWhile_cons] at dropped
    split at dropped
    · rename_i empty
      have isZero : blocklength = 0 := of_decide_eq_true empty
      subst isZero
      exact indexedBreaks_dropWhile unbroken dropped
    · cases dropped
      exact unbroken

variable {dispinbytes : Bool} {curDisp : Int} {curBlklen : Nat}
  {rest : List (Nat × Int)}

variable (unbroken : indexedBreaks (unitWidth dispinbytes old) curDisp curBlklen rest = 0)

include unbroken in
/-- Blocks that continue a block are one long run. -/
theorem flatMap_of_unbroken
    {positions : List Int} {start : Int} {length : Nat}
    (extent_eq : old.extent = length)
    (block_eq : ∀ blocklength,
      copies blocklength old.extent positions = run start (blocklength * length)) :
    (rest.flatMap fun block =>
        shifted (inBytes dispinbytes old block.2) (copies block.1 old.extent positions)) =
      run (inBytes dispinbytes old curDisp + curBlklen * length + start)
        (oldCount rest * length) := by
  induction rest generalizing curBlklen with
  | nil => rw [oldCount, map_nil, sum_nil, zero_mul]; rfl
  | cons block rest ih =>
    rw [indexedBreaks] at unbroken
    rw [flatMap_cons, oldCount, map_cons, sum_cons, block_eq, shifted_run]
    split at unbroken
    · rename_i empty
      rw [ih unbroken, empty, zero_mul, run, nil_append, zero_add, oldCount]
    · split at unbroken
      · rename_i next_eq
        rw [ih unbroken, ← next_eq, inBytes_add_mul, extent_eq, add_mul, ← run_append, oldCount]
        congr 2
        push_cast
        ring
      · omega

include unbroken in
/-- The bounds of blocks that continue a block. -/
theorem foldl_widen_of_unbroken
    (extent_eq : old.extent = old.ub - old.lb)
    (positive : 0 < old.extent)
    {low : Int}
    (isLow : low ≤ old.lb + inBytes dispinbytes old curDisp) :
    (rest.filter fun block => decide (block.1 > 0)).foldl
        (fun bounds block =>
          widen bounds (old.blockBounds block.1 (inBytes dispinbytes old block.2)))
        (low, old.lb + curBlklen * old.extent + inBytes dispinbytes old curDisp) =
      (low, old.lb + (curBlklen + oldCount rest : Nat) * old.extent +
        inBytes dispinbytes old curDisp) := by
  induction rest generalizing curBlklen with
  | nil => rfl
  | cons block rest ih =>
    obtain ⟨blocklength, disp⟩ := block
    rw [indexedBreaks] at unbroken
    rw [filter_cons, oldCount, map_cons, sum_cons, ← oldCount]
    split at unbroken
    · rename_i empty
      rw [if_neg (by simpa using empty), ih unbroken, empty, zero_add]
    · rename_i nonempty
      split at unbroken
      · rename_i next_eq
        have forward : 0 ≤ (curBlklen : Int) * old.extent :=
          mul_nonneg (Int.natCast_nonneg _) positive.le
        have further : 0 < (blocklength : Int) * old.extent := mul_pos (by omega) positive
        have stop_eq : old.ub + old.extent * (blocklength - 1) +
            (inBytes dispinbytes old curDisp + curBlklen * old.extent) =
            old.lb + (curBlklen + blocklength : Nat) * old.extent +
              inBytes dispinbytes old curDisp := by
          rw [show old.ub = old.lb + old.extent by omega]
          push_cast
          ring
        have longer : ((curBlklen + blocklength : Nat) : Int) * old.extent =
            curBlklen * old.extent + blocklength * old.extent := by
          push_cast
          ring
        have wider : widen
            (low, old.lb + curBlklen * old.extent + inBytes dispinbytes old curDisp)
            (old.blockBounds blocklength (inBytes dispinbytes old disp)) =
            (low, old.lb + (curBlklen + blocklength : Nat) * old.extent +
              inBytes dispinbytes old curDisp) := by
          rw [blockBounds_of_pos extent_eq positive nonempty, ← next_eq,
            inBytes_add_mul, widen, stop_eq]
          rw [if_neg (by omega), if_pos (by omega)]
        rw [if_pos (by simpa using pos_of_ne_zero nonempty), foldl_cons,
          wider, ih unbroken, Nat.add_assoc]
      · omega

theorem Describes.indexed
    (describes : Describes old typeMap)
    (blocks : List (Nat × Int))
    (dispinbytes : Bool) :
    Describes (.derived (typeIndexed fresh blocks dispinbytes old))
      (blocks.flatMap fun block =>
        shifted (inBytes dispinbytes old block.2) (copies block.1 old.extent typeMap)) := by
  have noBlock (block : Nat × Int) (empty : decide (block.1 = 0) = true) :
      shifted (inBytes dispinbytes old block.2)
        (copies block.1 old.extent (bytes typeMap)) = [] := by
    rw [of_decide_eq_true empty]
    rfl
  have bytes_eq : bytes (blocks.flatMap fun block =>
      shifted (inBytes dispinbytes old block.2) (copies block.1 old.extent typeMap)) =
      (blocks.dropWhile fun block => decide (block.1 = 0)).flatMap fun block =>
        shifted (inBytes dispinbytes old block.2) (copies block.1 old.extent (bytes typeMap)) := by
    rw [bytes_blocks, flatMap_dropWhile noBlock]
  unfold typeIndexed
  split
  · rename_i dropped
    rw [dropped] at bytes_eq
    exact describes_zerolen fresh bytes_eq
  · rename_i first rest dropped
    rw [dropped] at bytes_eq
    refine ⟨?_, rfl, ?_⟩
    · rw [bytes_eq, length_flatMap, Oldtype.size_derived]
      simp only [length_shifted, length_copies, foldl_oldCount]
      rw [sum_map_mul_right, map_cons, sum_cons, ← oldCount]
      push_cast
      rw [← describes.size_eq]
    · intro isContig occupied
      rw [bytes_eq] at occupied ⊢
      obtain ⟨tested, oldContig⟩ := Bool.and_eq_true_iff.mp isContig
      obtain ⟨one, size_eq⟩ := of_decide_eq_true tested
      have oldOccupied := occupied_of_flatMap occupied
      obtain ⟨-, trueUb_eq, extent_eq⟩ := describes.contig oldContig oldOccupied
      have positive := describes.size_pos oldOccupied
      have bounds := describes.extent_eq
      have unbroken := indexedBreaks_of_countContig one dropped
      have nonempty : first.1 ≠ 0 := by
        have stopped := head?_dropWhile_not (fun block : Nat × Int => decide (block.1 = 0)) blocks
        rw [dropped] at stopped
        simpa using stopped
      have width_eq : old.extent = ((bytes typeMap).length : Int) := by
        rw [extent_eq, describes.size_eq]
      have ub_eq : old.ub = old.lb + old.extent := by omega
      have firstBounds : old.blockBounds first.1 (inBytes dispinbytes old first.2) =
          (old.lb + inBytes dispinbytes old first.2,
            old.lb + first.1 * old.extent + inBytes dispinbytes old first.2) := by
        rw [blockBounds_of_pos bounds (by omega) nonempty, ub_eq]
        congr 2
        ring
      simp only [Oldtype.trueLb_derived, Oldtype.trueUb_derived,
        Oldtype.extent_derived, Oldtype.size_derived, foldl_oldCount, firstBounds,
        foldl_widen_of_unbroken unbroken bounds (by omega) (le_refl _)]
      rw [flatMap_cons, flatMap_of_unbroken unbroken width_eq (describes.block oldContig),
        describes.block oldContig, shifted_run]
      have position_eq : inBytes dispinbytes old first.2 +
            first.1 * ((bytes typeMap).length : Int) + old.trueLb =
          inBytes dispinbytes old first.2 + old.trueLb +
            (first.1 * (bytes typeMap).length : Nat) := by
        push_cast
        ring
      rw [position_eq, run_append, length_run]
      refine ⟨?_, ?_, ?_⟩
      · congr 1
        ring
      · rw [trueUb_eq, ← extent_eq, ub_eq]
        ring
      · rw [← extent_eq]
        ring

end

end Mpich.Datatypes
