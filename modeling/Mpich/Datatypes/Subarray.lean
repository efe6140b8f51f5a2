import Mathlib.Data.Fin.VecNotation
import Mpich.Datatypes.TypeMap

/-!
# Subarrays

`Type_convert_subarray` builds a subarray from a vector for the first two dimensions,
one more for each dimension behind them, and a struct that moves the result to its
start, between `MPI_LB` and `MPI_UB`. The elements of the whole array have positions,
in storage order. `MPI_LB` and `MPI_UB` of the old type compete with those of the
struct, so the bounds are those of the array unless an element has one of them
outside.
-/

namespace Mpich.Datatypes

open List Copies

/-- One dimension, as the checks of `MPI_Type_create_subarray` admit it. -/
structure Slice where
  size : Nat
  subsize : Nat
  start : Nat
  occupied : 0 < subsize
  inside : start + subsize ≤ size

/-- `MPI_ORDER_FORTRAN` and `MPI_ORDER_C` -/
inductive Order
  | fortran
  | c

/-- The dimensions, the one that changes fastest in front. -/
def Order.fastestFirst {Dimension : Type*} : Order → List Dimension → List Dimension
  | .fortran, dimensions => dimensions
  | .c, dimensions => dimensions.reverse

/-- The loop over the dimensions behind the second one, which lie `size` bytes apart. -/
def outerSlices (fresh : Nat → Datatype) : Int → List Slice → Tree → Tree
  | _, [], tmp => tmp
  | size, slice :: slices, tmp =>
    outerSlices fresh (size * slice.size) slices
      (.vector (fresh slices.length) slice.subsize 1 size true tmp)

/-- The loop that adds up the displacement, in elements. -/
def displacement : Nat → List Slice → Nat
  | _, [] => 0
  | size, slice :: slices =>
    size * slice.start + displacement (size * slice.size) slices

/-- `tmp1`: the type of the selected elements, from the first of them on. -/
def innerType
    (config : AlignConfig)
    (fresh : Nat → Datatype)
    (slices : List Slice)
    (oldtype : Tree) : Tree :=
  match slices with
  | [] => oldtype
  | [only] => .contiguous (fresh 0) only.subsize oldtype
  | first :: second :: rest =>
    outerSlices fresh (first.size * (oldtype.handle config).extent * second.size)
      rest
      (.vector (fresh rest.length) second.subsize first.subsize first.size false oldtype)

/-- `Type_convert_subarray`. There is at least one dimension. -/
def typeConvertSubarray
    (config : AlignConfig)
    (fresh : Nat → Datatype)
    (slices : List Slice)
    (order : Order)
    (oldtype : Tree) : Tree :=
  let extent := (oldtype.handle config).extent
  let inOrder := order.fastestFirst slices
  .struct (fresh slices.length) 3 (fun _ => 1)
    ![0, displacement 1 inOrder * extent,
      slices.foldl (fun upper slice => upper * slice.size) extent]
    ![.builtin .mpiLb, innerType config fresh inOrder oldtype, .builtin .mpiUb]

/-- The number of elements of the whole array. -/
def volume (slices : List Slice) : Nat :=
  (slices.map (·.size)).prod

/-- The index of this position lies in the subarray in every dimension. -/
def InBox : List Slice → Nat → Prop
  | [], _ => True
  | slice :: slices, position =>
    (slice.start ≤ position % slice.size ∧ position % slice.size < slice.start + slice.subsize) ∧
    InBox slices (position / slice.size)

instance decidableInBox : (slices : List Slice) → DecidablePred (InBox slices)
  | [], _ => isTrue trivial
  | _ :: slices, position =>
    have := decidableInBox slices
    inferInstanceAs (Decidable ((_ ∧ _) ∧ InBox slices (position / _)))

/-- The positions in the subarray, in storage order. -/
def box (slices : List Slice) : List Nat :=
  (range (volume slices)).filter fun position => decide (InBox slices position)

/-- The type has the elements of the box and the bounds of the whole array. -/
structure SelectsBox
    (config : AlignConfig)
    (slices : List Slice)
    (oldtype type : Tree) : Prop where
  typeMap :
    (type.typeMap config).filter (fun item => !item.basic.isMarker) =
      ((box slices).flatMap fun position : Nat =>
        shifted (position * (oldtype.handle config).extent)
          (oldtype.typeMap config)).filter fun item => !item.basic.isMarker
  lb : (type.handle config).lb = 0
  extent : (type.handle config).extent = volume slices * (oldtype.handle config).extent

/-- The positions against the first one. -/
def offsets : List Slice → List Nat
  | [] => [0]
  | slice :: slices =>
    (offsets slices).flatMap fun outer =>
      (range slice.subsize).map fun index => slice.size * outer + index

theorem displacement_eq (size : Nat) (slices : List Slice) :
    displacement size slices = size * displacement 1 slices := by
  induction slices generalizing size with
  | nil => rfl
  | cons slice slices ih =>
    rw [displacement, displacement, ih (size * slice.size), ih (1 * slice.size)]
    ring

theorem displacement_cons (slice : Slice) (slices : List Slice) :
    displacement 1 (slice :: slices) = slice.start + slice.size * displacement 1 slices := by
  rw [displacement, displacement_eq]
  ring

/-- An array of rows. -/
theorem range_mul (rows size : Nat) :
    range (size * rows) = (range rows).flatMap fun row => (range size).map (size * row + ·) := by
  induction rows with
  | zero => rfl
  | succ rows ih =>
    rw [Nat.mul_succ, range_add, ih, range_succ, flatMap_append, flatMap_singleton]

theorem filter_range {start subsize size : Nat} (inside : start + subsize ≤ size) :
    (range size).filter (fun index =>
        decide (start ≤ index ∧ index < start + subsize)) =
      (range subsize).map (start + ·) := by
  obtain ⟨behind, rfl⟩ := Nat.exists_eq_add_of_le inside
  rw [range_add, range_add, filter_append, filter_append,
    filter_eq_nil_iff.mpr, filter_eq_self.mpr, filter_eq_nil_iff.mpr, append_nil, nil_append]
  · simp only [mem_map, mem_range]
    grind
  · simp only [mem_map, mem_range]
    grind
  · simp only [mem_range]
    grind

theorem box_cons (slice : Slice) (slices : List Slice) :
    box (slice :: slices) = (box slices).flatMap fun outer =>
        (range slice.subsize).map fun index =>
          slice.size * outer + (slice.start + index) := by
  have positive : 0 < slice.size := by
    have := slice.occupied
    have := slice.inside
    omega
  have row : ∀ outer, ((range slice.size).map (slice.size * outer + ·)).filter
      (fun position => decide (InBox (slice :: slices) position)) = if InBox slices outer then
          (range slice.subsize).map fun index =>
            slice.size * outer + (slice.start + index)
        else [] := by
    intro outer
    have inRow : ∀ index ∈ range slice.size,
        decide (InBox (slice :: slices) (slice.size * outer + index)) =
          (decide (slice.start ≤ index ∧ index < slice.start + slice.subsize) &&
            decide (InBox slices outer)) := by
      intro index member
      rw [← Bool.decide_and, decide_eq_decide]
      change (_ ≤ _ % _ ∧ _ % _ < _) ∧ InBox slices (_ / _) ↔ _
      rw [Nat.mul_add_mod, Nat.mod_eq_of_lt (mem_range.mp member),
        Nat.mul_add_div positive, Nat.div_eq_of_lt (mem_range.mp member), add_zero]
    rw [filter_map, Function.comp_def, filter_congr inRow]
    split
    case isTrue inBox =>
      simp only [inBox, decide_true, Bool.and_true]
      rw [filter_range slice.inside, map_map]
      rfl
    case isFalse outside => simp [outside]
  rw [box, volume, map_cons, prod_cons, range_mul, filter_flatMap, box, volume]
  simp only [row]
  induction range ((slices.map (·.size)).prod) with
  | nil => rfl
  | cons outer outers ih =>
    rw [flatMap_cons, ih, filter_cons]
    by_cases inBox : InBox slices outer <;> simp [inBox]

theorem box_eq (slices : List Slice) :
    box slices = (offsets slices).map (displacement 1 slices + ·) := by
  induction slices with
  | nil => rfl
  | cons slice slices ih =>
    rw [box_cons, ih, offsets, displacement_cons, flatMap_map, map_flatMap]
    congr 1
    funext outer
    rw [map_map]
    apply map_congr_left
    intro index _
    change slice.size * (displacement 1 slices + outer) + (slice.start + index) =
      slice.start + slice.size * displacement 1 slices + (slice.size * outer + index)
    ring

/-- The last of the positions against the first. -/
def lastOffset : List Slice → Nat
  | [] => 0
  | slice :: slices => slice.size * lastOffset slices + (slice.subsize - 1)

theorem lastOffset_mem (slices : List Slice) : lastOffset slices ∈ offsets slices := by
  induction slices with
  | nil => exact mem_singleton_self 0
  | cons slice slices ih =>
    exact mem_flatMap.mpr ⟨_, ih, mem_map.mpr ⟨slice.subsize - 1,
      mem_range.mpr (Nat.sub_one_lt_of_lt slice.occupied), rfl⟩⟩

theorem zero_mem_offsets (slices : List Slice) : 0 ∈ offsets slices := by
  induction slices with
  | nil => exact mem_singleton_self 0
  | cons slice slices ih =>
    exact mem_flatMap.mpr ⟨0, ih, mem_map.mpr ⟨0, mem_range.mpr slice.occupied, rfl⟩⟩

variable {slices : List Slice}

theorem le_lastOffset {offset : Nat}
    (member : offset ∈ offsets slices) : offset ≤ lastOffset slices := by
  induction slices generalizing offset with
  | nil => exact (mem_singleton.mp member).le
  | cons slice slices ih =>
    obtain ⟨outer, isOuter, isIndex⟩ := mem_flatMap.mp member
    obtain ⟨index, inRange, rfl⟩ := mem_map.mp isIndex
    have before := Nat.mul_le_mul_left slice.size (ih isOuter)
    have inside := mem_range.mp inRange
    rw [lastOffset]
    omega

theorem copies_eq_flatMap {α : Type*} [AddAction Int α] (count : Nat) (distance : Int)
    (list : List α) :
    copies count distance list =
      (range count).flatMap fun index : Nat => shifted (index * distance) list := by
  induction count generalizing list with
  | zero => rfl
  | succ count ih =>
    rw [copies, ih, range_succ_eq_map, flatMap_cons, flatMap_map, Nat.cast_zero,
      zero_mul, shifted_zero]
    congr 2
    funext index
    rw [shifted_shifted, Nat.cast_succ, add_mul, one_mul]

section

variable (config : AlignConfig) (fresh : Nat → Datatype)

theorem typeMap_outerSlices (size : Int) (slices : List Slice) (tmp : Tree) :
    (outerSlices fresh size slices tmp).typeMap config =
      (offsets slices).flatMap fun offset : Nat =>
        shifted (offset * size) (tmp.typeMap config) := by
  induction slices generalizing size tmp with
  | nil => simp [outerSlices, offsets]
  | cons slice slices ih =>
    rw [outerSlices, ih, offsets, flatMap_assoc, Tree.typeMap, copies_one, copies_eq_flatMap]
    congr 1
    funext outer
    rw [flatMap_map, shifted, map_flatMap]
    congr 1
    funext index
    change shifted _ (shifted _ _) = _
    rw [shifted_shifted, inBytes, if_pos rfl]
    push_cast
    congr 1
    ring

theorem typeMap_innerType (nonempty : slices ≠ [])
    (oldtype : Tree) :
    (innerType config fresh slices oldtype).typeMap config =
      (offsets slices).flatMap fun offset : Nat =>
        shifted (offset * (oldtype.handle config).extent) (oldtype.typeMap config) := by
  rw [← typeMap_outerSlices config fresh]
  match slices with
  | [only] =>
    simp only [innerType, outerSlices, Tree.typeMap, inBytes, if_true, copies_one]
  | first :: second :: rest =>
    simp only [innerType, outerSlices, typeMap_outerSlices, Tree.typeMap, inBytes,
      if_true, copies_one, if_false, Bool.false_eq_true, mul_comm]

end

section

variable (config : AlignConfig)

include config

theorem Tree.extent_eq (tree : Tree) :
    (tree.handle config).extent = (tree.handle config).ub - (tree.handle config).lb := by
  induction tree with
  | builtin basic => simp [handle, Oldtype.extent, Oldtype.ub, Oldtype.lb]
  | pairtype fresh pair =>
    simp [handle, typeCreatePairtype, Oldtype.extent, Oldtype.ub, Oldtype.lb]
  | contiguous fresh count old ih =>
    simp only [handle, Oldtype.extent, Oldtype.ub, Oldtype.lb, typeContiguous]
    split <;> rfl
  | vector fresh count blocklength stride strideinbytes old ih =>
    simp only [handle, Oldtype.extent, Oldtype.ub, Oldtype.lb, typeVector]
    split <;> rfl
  | blockindexed fresh blocklength displacements dispinbytes old ih =>
    simp only [handle, Oldtype.extent, Oldtype.ub, Oldtype.lb, typeBlockindexed]
    split <;> rfl
  | indexed fresh blocks dispinbytes old ih =>
    simp only [handle, Oldtype.extent, Oldtype.ub, Oldtype.lb, typeIndexed]
    split <;> rfl
  | struct fresh count blocklengths displacements oldtypes ih =>
    simp only [handle, Oldtype.extent, Oldtype.ub, Oldtype.lb, typeStruct]
    split <;> rfl
  | createResized fresh lb extent old ih =>
    simp [handle, typeCreateResized, Oldtype.extent, Oldtype.ub, Oldtype.lb]
  | dup fresh old ih =>
    simp only [handle, typeDup]
    cases isOld : old.handle config with
    | builtin basic =>
      simp only [Oldtype.extent, Oldtype.ub, Oldtype.lb, typeContiguous]
      split <;> rfl
    | derived dtp =>
      rw [isOld] at ih
      exact ih

/-- The copies of the old type begin with it and reach so far. -/
structure Spans (old tmp : Oldtype) (reach : Int) : Prop where
  hasStickyLb : tmp.hasStickyLb = old.hasStickyLb
  hasStickyUb : tmp.hasStickyUb = old.hasStickyUb
  lb : tmp.lb = old.lb + min 0 reach
  ub : tmp.ub = old.ub + max 0 reach

section

variable {old tmp : Oldtype} {reach : Int} {count : Nat} (fresh : Datatype)

variable {size : Int}

omit config in
theorem Spans.hvector (spans : Spans old tmp reach) (positive : 0 < count)
    (sameSign : 0 ≤ reach ∧ 0 ≤ size ∨ reach ≤ 0 ∧ size ≤ 0) :
    Spans old (.derived (typeVector fresh count 1 size true tmp))
      (reach + (count - 1 : Nat) * size) := by
  have notEmpty : count ≠ 0 := positive.ne'
  have cast : ((count - 1 : Nat) : Int) = count - 1 := by omega
  have many : (0 : Int) ≤ count - 1 := by omega
  have := spans.lb
  have := spans.ub
  have bounds : vectorLbUb count size 1 tmp.lb tmp.ub tmp.extent =
      (old.lb + min 0 (reach + (count - 1) * size),
        old.ub + max 0 (reach + (count - 1) * size)) := by
    unfold vectorLbUb
    rcases sameSign with ⟨ahead, forward⟩ | ⟨behind, backward⟩
    · have := mul_nonneg many forward
      grind
    · have := mul_nonpos_of_nonneg_of_nonpos many backward
      grind
  rw [cast]
  refine ⟨?_, ?_, ?_, ?_⟩
  · simp only [typeVector, if_neg notEmpty, Oldtype.hasStickyLb]
    exact spans.hasStickyLb
  · simp only [typeVector, if_neg notEmpty, Oldtype.hasStickyUb]
    exact spans.hasStickyUb
  · simp only [typeVector, if_neg notEmpty, inBytes, if_true, bounds, Oldtype.lb_derived]
  · simp only [typeVector, if_neg notEmpty, inBytes, if_true, bounds, Oldtype.ub_derived]

theorem Spans.outerSlices (fresh : Nat → Datatype)
    {tmp : Tree}
    (spans : Spans old (tmp.handle config) reach)
    (sameSign : 0 ≤ reach ∧ 0 ≤ size ∨ reach ≤ 0 ∧ size ≤ 0) :
    Spans old ((outerSlices fresh size slices tmp).handle config)
      (reach + lastOffset slices * size) := by
  induction slices generalizing size tmp reach with
  | nil => simpa [lastOffset, Datatypes.outerSlices] using spans
  | cons slice slices ih =>
    have next := spans.hvector (fresh slices.length) slice.occupied sameSign
    have many := Int.natCast_nonneg (slice.subsize - 1)
    have wide := Int.natCast_nonneg slice.size
    have all := @ih _ (size * slice.size) (.vector _ _ _ _ _ tmp) next (by
      rcases sameSign with ⟨ahead, forward⟩ | ⟨behind, backward⟩
      · exact .inl ⟨add_nonneg ahead (mul_nonneg many forward), mul_nonneg forward wide⟩
      · exact .inr ⟨add_nonpos behind (mul_nonpos_of_nonneg_of_nonpos many backward),
          mul_nonpos_of_nonpos_of_nonneg backward wide⟩)
    have whole : reach + (slice.subsize - 1 : Nat) * size +
        lastOffset slices * (size * slice.size) = reach + lastOffset (slice :: slices) * size := by
      rw [lastOffset]
      push_cast
      ring
    rwa [whole] at all

omit config in
theorem contigLbUb_eq (positive : 0 < count)
    (extent_eq : old.extent = old.ub - old.lb) :
    contigLbUb count old.lb old.ub old.extent = (old.lb + min 0 ((count - 1 : Nat) * old.extent),
        old.ub + max 0 ((count - 1 : Nat) * old.extent)) := by
  have cast : ((count - 1 : Nat) : Int) = count - 1 := by omega
  have many : (0 : Int) ≤ count - 1 := by omega
  rw [cast]
  unfold contigLbUb
  rcases le_total 0 old.extent with forward | backward
  · have := mul_nonneg many forward
    grind
  · have := mul_nonpos_of_nonneg_of_nonpos many backward
    grind

omit config in
theorem vectorLbUb_eq (first second : Slice) (old : Oldtype) :
    vectorLbUb second.subsize (first.size * old.extent) first.subsize old.lb old.ub old.extent =
      (old.lb + min 0 (lastOffset [first, second] * old.extent),
        old.ub + max 0 (lastOffset [first, second] * old.extent)) := by
  have := first.occupied
  have := second.occupied
  have := first.inside
  have last : (lastOffset [first, second] : Int) =
      first.size * (second.subsize - 1) + (first.subsize - 1) := by
    simp only [lastOffset]
    push_cast [Nat.cast_sub first.occupied, Nat.cast_sub second.occupied]
    ring
  have whole : (lastOffset [first, second] : Int) * old.extent =
      old.extent * (first.subsize - 1) + first.size * old.extent * (second.subsize - 1) := by
    rw [last]
    ring
  have many := Int.natCast_nonneg (lastOffset [first, second])
  unfold vectorLbUb
  rcases le_or_gt 0 old.extent with forward | backward
  · have := mul_nonneg many forward
    have := mul_nonneg (Int.natCast_nonneg first.size) forward
    grind
  · have := mul_nonpos_of_nonneg_of_nonpos many backward.le
    have : first.size * old.extent < 0 := mul_neg_of_pos_of_neg (by omega) backward
    grind

theorem spans_innerType (fresh : Nat → Datatype)
    (nonempty : slices ≠ []) (oldtype : Tree) :
    Spans (oldtype.handle config) ((innerType config fresh slices oldtype).handle config)
      (lastOffset slices * (oldtype.handle config).extent) := by
  have extent_eq := oldtype.extent_eq config
  match slices with
  | [only] =>
    have positive := only.occupied
    have cast : ((only.subsize - 1 : Nat) : Int) = only.subsize - 1 := by omega
    have many : (0 : Int) ≤ only.subsize - 1 := by omega
    have bounds := contigLbUb_eq positive extent_eq
    refine ⟨?_, ?_, ?_, ?_⟩ <;>
      simp only [innerType, Tree.handle, typeContiguous, if_neg positive.ne', bounds,
        lastOffset, Oldtype.hasStickyLb, Oldtype.hasStickyUb, Oldtype.lb_derived,
        Oldtype.ub_derived, mul_zero, zero_add]
  | first :: second :: rest =>
    have positive := second.occupied
    have inner : Spans (oldtype.handle config)
        ((Tree.vector (fresh rest.length) second.subsize first.subsize first.size false
          oldtype).handle config)
        (lastOffset [first, second] * (oldtype.handle config).extent) := by
      have bounds := vectorLbUb_eq first second (oldtype.handle config)
      refine ⟨?_, ?_, ?_, ?_⟩ <;>
        simp only [Tree.handle, typeVector, if_neg positive.ne', inBytes, if_false,
          Bool.false_eq_true, bounds, Oldtype.hasStickyLb, Oldtype.hasStickyUb,
          Oldtype.lb_derived, Oldtype.ub_derived]
    have whole : lastOffset [first, second] * (oldtype.handle config).extent +
        lastOffset rest * (first.size * (oldtype.handle config).extent * second.size) =
        lastOffset (first :: second :: rest) * (oldtype.handle config).extent := by
      simp only [lastOffset]
      push_cast
      ring
    rw [← whole]
    apply inner.outerSlices config fresh
    have many := Int.natCast_nonneg (lastOffset [first, second])
    rcases le_total 0 (oldtype.handle config).extent with forward | backward
    · exact .inl ⟨mul_nonneg many forward,
        mul_nonneg (mul_nonneg (Int.natCast_nonneg _) forward) (Int.natCast_nonneg _)⟩
    · refine .inr ⟨mul_nonpos_of_nonneg_of_nonpos many backward, ?_⟩
      exact mul_nonpos_of_nonpos_of_nonneg
        (mul_nonpos_of_nonneg_of_nonpos (Int.natCast_nonneg _) backward)
        (Int.natCast_nonneg _)

end

/-- The struct around a type: an explicit bound of the type is kept. -/
theorem struct_bounds (fresh dtp : Datatype) (disp upper : Int) :
    let type := typeStruct config fresh [⟨1, 0, .builtin .mpiLb⟩,
      ⟨1, disp, .derived dtp⟩, ⟨1, upper, .builtin .mpiUb⟩]
    type.lb = (if dtp.hasStickyLb then min 0 (dtp.lb + disp) else 0) ∧
      type.ub = (if dtp.hasStickyUb then max upper (dtp.ub + disp) else upper) ∧
      type.extent = type.ub - type.lb := by
  cases lower : dtp.hasStickyLb <;> cases highest : dtp.hasStickyUb <;>
    simp [typeStruct, StructScan.next, StructScan.start, Oldtype.blockBounds, blockLbUb,
      Oldtype.givesStickyLb, Oldtype.givesStickyUb, Oldtype.isMarker, Basic.isMarker,
      Basic.mpiLb, Basic.mpiUb, keepLowest, keepHighest, Oldtype.lb, Oldtype.ub,
      Oldtype.extent, lower, highest]
  all_goals grind

variable {size : Int}

theorem exists_handle_outerSlices (fresh : Nat → Datatype)
    {tmp : Tree}
    (derived : ∃ dtp, tmp.handle config = .derived dtp) :
    ∃ dtp, (outerSlices fresh size slices tmp).handle config = .derived dtp := by
  induction slices generalizing size tmp with
  | nil => exact derived
  | cons slice slices ih => exact ih ⟨_, rfl⟩

theorem exists_handle_innerType (fresh : Nat → Datatype)
    (nonempty : slices ≠ []) (oldtype : Tree) :
    ∃ dtp, (innerType config fresh slices oldtype).handle config = .derived dtp := by
  match slices with
  | [only] => exact ⟨_, rfl⟩
  | first :: second :: rest => exact exists_handle_outerSlices config fresh ⟨_, rfl⟩

end

section

variable {slices : List Slice} {extent lowest : Int}

/-- No element of the box begins before the array. -/
theorem forall_box_ge_iff :
    (∀ position ∈ box slices, 0 ≤ position * extent + lowest) ↔
      0 ≤ lowest + min 0 (lastOffset slices * extent) + displacement 1 slices * extent := by
  simp only [box_eq, forall_mem_map, Nat.cast_add, add_mul]
  constructor
  · intro all
    have first := all 0 (zero_mem_offsets slices)
    have last := all _ (lastOffset_mem slices)
    rw [Nat.cast_zero, zero_mul] at first
    omega
  · intro lower offset member
    have few : (offset : Int) ≤ lastOffset slices := mod_cast le_lastOffset member
    rcases le_total 0 extent with forward | backward
    · have := mul_nonneg (Int.natCast_nonneg offset) forward
      omega
    · have := mul_le_mul_of_nonpos_right few backward
      omega

/-- No element of the box ends behind the array. -/
theorem forall_box_le_iff {upper : Int} :
    (∀ position ∈ box slices, position * extent + lowest ≤ upper) ↔
      lowest + max 0 (lastOffset slices * extent) + displacement 1 slices * extent ≤ upper := by
  have mirrored := @forall_box_ge_iff slices (-extent) (upper - lowest)
  have turned : (∀ position ∈ box slices, position * extent + lowest ≤ upper) ↔
      ∀ position ∈ box slices, 0 ≤ position * -extent + (upper - lowest) := by
    apply forall₂_congr
    intro position _
    rw [mul_neg]
    omega
  rw [turned, mirrored, mul_neg, mul_neg]
  omega

end

theorem foldl_size (extent : Int) (slices : List Slice) :
    slices.foldl (fun upper (slice : Slice) => upper * (slice.size : Int)) extent =
      volume slices * extent := by
  induction slices generalizing extent with
  | nil => simp [volume]
  | cons slice slices ih =>
    rw [foldl_cons, ih, volume, volume, map_cons, prod_cons]
    push_cast
    ring

theorem volume_fastestFirst (order : Order) (slices : List Slice) :
    volume (order.fastestFirst slices) = volume slices := by
  cases order with
  | fortran => rfl
  | c => rw [Order.fastestFirst, volume, map_reverse, prod_reverse, volume]

/-- The elements are those of the box. -/
theorem filter_typeMap_typeConvertSubarray
    (config : AlignConfig)
    (fresh : Nat → Datatype)
    (order : Order)
    (inOrder : order.fastestFirst slices ≠ [])
    (oldtype : Tree) :
    ((typeConvertSubarray config fresh slices order oldtype).typeMap config).filter
        (fun item => !item.basic.isMarker) =
      ((box (order.fastestFirst slices)).flatMap fun position : Nat =>
        shifted (position * (oldtype.handle config).extent)
          (oldtype.typeMap config)).filter fun item => !item.basic.isMarker := by
  have moved : ((box (order.fastestFirst slices)).flatMap fun position : Nat =>
      shifted (position * (oldtype.handle config).extent) (oldtype.typeMap config)) =
        shifted (displacement 1 (order.fastestFirst slices) *
          (oldtype.handle config).extent)
            ((innerType config fresh (order.fastestFirst slices) oldtype).typeMap config) := by
    rw [typeMap_innerType config fresh inOrder, box_eq, flatMap_map, shifted, map_flatMap]
    congr 1
    funext offset
    change _ = shifted _ (shifted _ _)
    rw [shifted_shifted, Nat.cast_add, add_mul]
  have parts : (typeConvertSubarray config fresh slices order oldtype).typeMap config =
      ⟨0, .mpiLb⟩ :: (shifted (displacement 1 (order.fastestFirst slices) *
        (oldtype.handle config).extent)
          ((innerType config fresh (order.fastestFirst slices) oldtype).typeMap config) ++
        shifted (slices.foldl (fun upper (slice : Slice) => upper * (slice.size : Int))
          (oldtype.handle config).extent) [⟨0, .mpiUb⟩]) := by
    simp [typeConvertSubarray, Tree.typeMap, finRange_succ, copies_one]
  rw [moved, parts, filter_cons_of_neg (by decide), filter_append]
  exact append_nil _

/-- The type map is always that of the box. The bounds are those of the array if and
only if no element of the box has an explicit bound outside it. -/
theorem selectsBox_iff
    (config : AlignConfig)
    (fresh : Nat → Datatype)
    {slices : List Slice}
    (nonempty : slices ≠ [])
    (order : Order)
    (oldtype : Tree) :
    SelectsBox config (order.fastestFirst slices) oldtype
        (typeConvertSubarray config fresh slices order oldtype) ↔
      ∀ position ∈ box (order.fastestFirst slices), ((oldtype.handle config).hasStickyLb = true →
          0 ≤ position * (oldtype.handle config).extent + (oldtype.handle config).lb) ∧
        ((oldtype.handle config).hasStickyUb = true →
          position * (oldtype.handle config).extent + (oldtype.handle config).ub ≤
            volume slices * (oldtype.handle config).extent) := by
  have inOrder : order.fastestFirst slices ≠ [] := by
    cases order with
    | fortran => exact nonempty
    | c => exact reverse_ne_nil_iff.mpr nonempty
  obtain ⟨dtp, isInner⟩ := exists_handle_innerType config fresh inOrder oldtype
  have spans := spans_innerType config fresh inOrder oldtype
  rw [isInner] at spans
  obtain ⟨lb, ub, extent⟩ := struct_bounds config (fresh slices.length) dtp
    (displacement 1 (order.fastestFirst slices) * (oldtype.handle config).extent)
    (volume slices * (oldtype.handle config).extent)
  have isStruct : (typeConvertSubarray config fresh slices order oldtype).handle config =
      .derived (typeStruct config (fresh slices.length) [⟨1, 0, .builtin .mpiLb⟩,
        ⟨1, displacement 1 (order.fastestFirst slices) *
          (oldtype.handle config).extent, .derived dtp⟩,
        ⟨1, volume slices * (oldtype.handle config).extent, .builtin .mpiUb⟩]) := by
    rw [← isInner, ← foldl_size]
    rfl
  have lower := @forall_box_ge_iff (order.fastestFirst slices)
    (oldtype.handle config).extent (oldtype.handle config).lb
  have upper := @forall_box_le_iff (order.fastestFirst slices)
    (oldtype.handle config).extent (oldtype.handle config).ub
    (volume slices * (oldtype.handle config).extent)
  have sameLb : dtp.hasStickyLb = (oldtype.handle config).hasStickyLb := spans.hasStickyLb
  have sameUb : dtp.hasStickyUb = (oldtype.handle config).hasStickyUb := spans.hasStickyUb
  have dtpLb : dtp.lb = _ := spans.lb
  have dtpUb : dtp.ub = _ := spans.ub
  rw [sameLb, dtpLb] at lb
  rw [sameUb, dtpUb] at ub
  have bounds : SelectsBox config (order.fastestFirst slices) oldtype
      (typeConvertSubarray config fresh slices order oldtype) ↔ _ :=
    ⟨fun selects => And.intro selects.lb selects.extent,
      fun both => ⟨filter_typeMap_typeConvertSubarray config fresh order inOrder oldtype,
        both.1, both.2⟩⟩
  rw [bounds, isStruct, volume_fastestFirst, Oldtype.lb_derived]
  change _ ∧ Datatype.extent _ = _ ↔ _
  rw [extent, and_congr_right_iff.mpr fun (zero : Datatype.lb _ = 0) =>
    by rw [zero, sub_zero], lb, ub, forall₂_and]
  cases (oldtype.handle config).hasStickyLb <;>
    cases (oldtype.handle config).hasStickyUb <;>
      simp only [if_true, if_false, Bool.false_eq_true, true_imp_iff, false_imp_iff,
        implies_true, true_and, and_true, lower, upper, min_eq_left_iff, max_eq_left_iff]

/-- The middle of five integers. -/
theorem selectsBox_mpiInt :
    SelectsBox Tree.plainAlign [⟨5, 3, 1, by decide, by decide⟩] Tree.mpiInt
      (typeConvertSubarray Tree.plainAlign (fun _ => Tree.cleared)
        [⟨5, 3, 1, by decide, by decide⟩] .fortran Tree.mpiInt) :=
  (selectsBox_iff Tree.plainAlign (fun _ => Tree.cleared) (by decide) .fortran
    Tree.mpiInt).mpr (by decide)

/-- The `MPI_LB` of the old type lies in front of the array. -/
theorem not_selectsBox_createResized :
    let oldtype := Tree.createResized Tree.cleared (-4) 8 Tree.mpiInt
    ¬ SelectsBox Tree.plainAlign [⟨1, 1, 0, by decide, by decide⟩] oldtype
      (typeConvertSubarray Tree.plainAlign (fun _ => Tree.cleared)
        [⟨1, 1, 0, by decide, by decide⟩] .fortran oldtype) := by
  intro oldtype selects
  exact absurd selects.lb (by decide)

end Mpich.Datatypes
