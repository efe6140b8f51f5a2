import Mpich.Romio.Flatten.Repeated
import Mathlib.Algebra.Order.BigOperators.Group.List

/-!
# Constructors with a displacement for each block

An indexed type and one with displacements in bytes. Over a type that is not
flattened each block is an entry of its own. Over a flattened type the entries of
a block are made from those of the block in front of it, by the difference of
the displacements.
-/

namespace Mpich.Romio.Flatten

open Copies List

namespace Library

variable {library : Library} {old : Basic} {inner : List Block}

variable {blocks : List (Nat × Int)}

/-- Runs of `unit` bytes for each element of a block are as long as the blocks
of elements only if every block is. -/
theorem run_lengths
    {unit : Int} {size : Nat}
    (nonneg : ∀ block ∈ blocks, 0 ≤ block.1 * unit)
    (total : (blocks.map fun block => (block.1 * unit).toNat).sum =
      (blocks.map fun block => block.1 * size).sum) :
    ∀ block ∈ blocks, (block.1 * unit).toNat = block.1 * size := by
  have inUnits : ((blocks.map fun block => (block.1 * unit).toNat).sum : Int) =
      (blocks.map Prod.fst).sum * unit := by
    clear total
    induction blocks with
    | nil => simp
    | cons block blocks ih =>
      have later := ih fun other member =>
        nonneg other (mem_cons_of_mem _ member)
      have first := Int.toNat_of_nonneg (nonneg block (mem_cons_self ..))
      rw [map_cons, sum_cons, map_cons, sum_cons]
      push_cast at later ⊢
      rw [first, later]
      ring
  have inSizes : (blocks.map fun block => block.1 * size).sum =
      (blocks.map Prod.fst).sum * size := by
    clear total inUnits nonneg
    induction blocks with
    | nil => simp
    | cons block blocks ih =>
      rw [map_cons, sum_cons, ih, map_cons, sum_cons]
      ring
  have balanced : ((blocks.map Prod.fst).sum : Int) * (unit - size) = 0 := by
    rw [total, inSizes] at inUnits
    push_cast at inUnits ⊢
    rw [mul_sub, ← inUnits, sub_self]
  intro block member
  rcases mul_eq_zero.mp balanced with none | same
  · have zero : block.1 = 0 := by
      have isZero : (blocks.map Prod.fst).sum = 0 := mod_cast none
      exact List.sum_eq_zero_iff_forall_eq_nat.mp isZero _ (mem_map_of_mem member)
    rw [zero]
    simp
  · have isSize : unit = size := by omega
    rw [isSize]
    exact Int.toNat_natCast (block.1 * size)

variable {type : Basic}

theorem agrees_blocks_of_simple
    (place : Int → Int)
    (unit : Int)
    (isCount : library.countContiguousBlocks type =
      some ((blocks.length : Int), (blocks.length : Int)))
    (isFlatten : ∀ stOffset, library.flatten type stOffset =
      some (blocks.map fun block => ⟨stOffset + place block.2, block.1 * unit⟩))
    (isBytes : library.bytes type = blocks.flatMap fun block =>
      shifted (place block.2) (copies block.1 (library.extent old) (library.bytes old)))
    (harmless : library.Harmless type ↔ blocks ≠ [] ∧ ∀ block ∈ blocks, 0 ≤ block.1 * unit ∧
        library.Solid block.1 (block.1 * unit).toNat old) :
    library.Agrees type := by
  let entry (block : Nat × Int) : Block := ⟨place block.2, block.1 * unit⟩
  refine agrees_of (blocks.map entry) ?_ (fun stOffset => ?_) ?_
  · rw [isCount, length_map]
  · rw [isFlatten, shifted, map_map]
    rfl
  · have isCover : cover (blocks.map entry) = blocks.flatMap fun block =>
        shifted (place block.2) (run 0 (block.1 * unit).toNat) := by
      rw [cover, flatMap_map]
      congr 1
      funext block
      rw [shifted_run, add_zero]
      rfl
    have isForward : Forward (blocks.map entry) ↔
        ∀ block ∈ blocks, 0 ≤ block.1 * unit := forall_mem_map
    have solid_iff (lengths : ∀ block ∈ blocks,
        (block.1 * unit).toNat = block.1 * library.size old) :
        cover (blocks.map entry) = library.bytes type ↔
          ∀ block ∈ blocks, library.Solid block.1 (block.1 * unit).toNat old := by
      rw [isCover, isBytes, flatMap_inj]
      · apply forall₂_congr
        intro block member
        rw [(shifted_injective _).eq_iff, Solid]
        exact eq_comm
      · intro block member
        rw [length_shifted, length_run, lengths block member, length_shifted, length_copies, size]
    rw [harmless, ne_eq, ne_eq, map_eq_nil_iff, isForward]
    constructor
    · rintro ⟨nonempty, right⟩
      have lengths (block : Nat × Int) (member : block ∈ blocks) :
          (block.1 * unit).toNat = block.1 * library.size old := by
        have solid := congrArg length (right block member).2
        rw [length_copies, length_run] at solid
        exact solid.symm
      exact ⟨nonempty, fun block member => (right block member).1,
        (solid_iff lengths).mpr fun block member => (right block member).2⟩
    · rintro ⟨nonempty, nonneg, same⟩
      have total := congrArg length same
      rw [isCover, isBytes, length_flatMap, length_flatMap] at total
      simp only [length_shifted, length_run, length_copies] at total
      have lengths := run_lengths nonneg total
      exact ⟨nonempty, fun block member =>
        ⟨nonneg block member, (solid_iff lengths).mp same block member⟩⟩

/-- The places of the blocks behind one at `place` with displacement `before`,
each from the one in front of it. -/
def places
    (distance : Int → Int → Int) :
    Int → Int → List (Nat × Int) → List (Nat × Int)
  | _, _, [] => []
  | place, before, (blocklength, displacement) :: rest =>
    (blocklength, place + distance displacement before) ::
      places distance (place + distance displacement before) displacement rest

theorem places_lengths
    (distance : Int → Int → Int)
    (place before : Int)
    (blocks : List (Nat × Int)) :
    (places distance place before blocks).map Prod.fst = blocks.map Prod.fst := by
  induction blocks generalizing place before with
  | nil => rfl
  | cons block blocks ih => rw [places, map_cons, ih, map_cons]

theorem places_shifted
    (distance : Int → Int → Int)
    (shift place before : Int)
    (blocks : List (Nat × Int)) :
    places distance (shift + place) before blocks =
      (places distance place before blocks).map fun block =>
        (block.1, shift + block.2) := by
  induction blocks generalizing place before with
  | nil => rfl
  | cons block blocks ih => rw [places, places, map_cons, add_assoc, ih]

/-- The entries of blocks at their places; each has one copy at least. -/
def placed
    (oldExtent : Int)
    (inner : List Block)
    (blocks : List (Nat × Int)) : List Block :=
  blocks.flatMap fun block =>
    copies (block.1 - 1 + 1) oldExtent (shifted block.2 inner)

variable {distance : Int → Int → Int}

/-- The entries of a block start with those of one copy. -/
theorem laterBlocks_eq
    {oldExtent : Int} {previous : List Block}
    {place before : Int}
    (start : previous.take inner.length = shifted place inner) :
    laterBlocks inner.length oldExtent distance previous before blocks =
      placed oldExtent inner (places distance place before blocks) := by
  induction blocks generalizing previous place before with
  | nil => rfl
  | cons block blocks ih =>
    obtain ⟨blocklength, displacement⟩ := block
    have entries : again inner.length oldExtent (blocklength - 1)
        (shifted (distance displacement before) (previous.take inner.length)) =
        copies (blocklength - 1 + 1) oldExtent
          (shifted (place + distance displacement before) inner) := by
      have loop := again_shifted inner (distance displacement before + place)
        oldExtent (blocklength - 1)
      rw [length_shifted, shifted_copies] at loop
      rw [start, shifted_shifted, loop, add_comm place]
    have next : (copies (blocklength - 1 + 1) oldExtent
          (shifted (place + distance displacement before) inner)).take inner.length =
        shifted (place + distance displacement before) inner := by
      exact take_left' (length_shifted ..)
    rw [laterBlocks]
    simp only [entries]
    rw [ih next]
    rfl

theorem placed_shifted
    (oldExtent shift : Int)
    (inner : List Block)
    (blocks : List (Nat × Int)) :
    placed oldExtent inner (blocks.map fun block => (block.1, shift + block.2)) =
      shifted shift (placed oldExtent inner blocks) := by
  induction blocks with
  | nil => rfl
  | cons block blocks ih =>
    unfold placed at ih ⊢
    rw [map_cons, flatMap_cons, flatMap_cons, shifted_append, ih, shifted_copies, shifted_shifted]

theorem cover_placed
    (oldExtent : Int)
    (inner : List Block)
    (blocks : List (Nat × Int)) :
    cover (placed oldExtent inner blocks) = blocks.flatMap fun block =>
      shifted block.2 (copies (block.1 - 1 + 1) oldExtent (cover inner)) := by
  rw [placed, cover_flatMap]
  congr 1
  funext block
  rw [cover_copies, cover_shifted, shifted_copies]

theorem forward_placed
    (oldExtent : Int)
    (forward : Forward inner)
    (blocks : List (Nat × Int)) :
    Forward (placed oldExtent inner blocks) := by
  intro entry member
  obtain ⟨block, _, isEntry⟩ := mem_flatMap.mp member
  exact (forward.shifted block.2).copies _ _ entry isEntry

theorem length_placed
    (oldExtent : Int)
    (inner : List Block)
    (blocks : List (Nat × Int)) :
    (placed oldExtent inner blocks).length =
      ((blocks.map Prod.fst).map fun blocklength => blocklength - 1 + 1).sum * inner.length := by
  induction blocks with
  | nil => rw [placed, flatMap_nil, map_nil, map_nil,
      sum_nil, zero_mul, length_nil]
  | cons block blocks ih =>
    unfold placed at ih ⊢
    rw [flatMap_cons, length_append, ih, length_copies, length_shifted, map_cons, map_cons,
      sum_cons, Nat.add_mul _ (sum _)]

/-- Blocks with bytes are in their places exactly when the differences of the
displacements are right. -/
theorem places_iff
    {place : Int → Int} {piece : Nat → List Int}
    {before : Int}
    (nonempty : ∀ block ∈ blocks, piece block.1 ≠ []) :
    ((places distance (place before) before blocks).flatMap fun block =>
        shifted block.2 (piece block.1)) =
      (blocks.flatMap fun block => shifted (place block.2) (piece block.1)) ↔
        (before :: blocks.map Prod.snd).IsChain fun before next =>
          distance next before = place next - place before := by
  induction blocks generalizing before with
  | nil => exact iff_of_true rfl (isChain_singleton _)
  | cons block blocks ih =>
    obtain ⟨blocklength, displacement⟩ := block
    have later := @ih displacement fun other member =>
      nonempty other (mem_cons_of_mem _ member)
    have some : piece blocklength ≠ [] := nonempty _ (mem_cons_self ..)
    rw [places, flatMap_cons, flatMap_cons, map_cons, isChain_cons_cons, ← later]
    constructor
    · intro equal
      have lengths : (shifted (place before + distance displacement before)
          (piece blocklength)).length =
            (shifted (place displacement) (piece blocklength)).length := by
        rw [length_shifted, length_shifted]
      obtain ⟨here, rest⟩ := append_inj equal lengths
      have isPlace : place before + distance displacement before = place displacement :=
        (shifted_inj_distance.mp here).resolve_left some
      rw [isPlace] at rest
      exact ⟨eq_sub_of_add_eq' isPlace, rest⟩
    · rintro ⟨isDistance, rest⟩
      have isPlace : place before + distance displacement before = place displacement :=
        add_eq_of_eq_sub' isDistance
      rw [isPlace, rest]

/-- A block without copies is written with one. -/
theorem sum_lt_of_zero
    {lengths : List Nat}
    (zero : 0 ∈ lengths) :
    lengths.sum < (lengths.map fun length => length - 1 + 1).sum := by
  calc
    lengths.sum = (lengths.map id).sum := by rw [map_id]
    _ < (lengths.map fun length => length - 1 + 1).sum :=
        sum_lt_sum _ _ (fun _ _ => le_tsub_add) ⟨0, zero, Nat.zero_lt_one⟩

/-- As many entries are counted as blocks have copies. -/
theorem countIndexed_eq
    {width : Nat}
    (positive : (width : Int) ≠ 0)
    (first : Nat × Int)
    (rest : List (Nat × Int)) :
    let copied : Int := (((first :: rest).map Prod.fst).sum * width : Nat)
    countContiguousBlocks.countIndexed width width (first :: rest) = some (copied, copied) := by
  have later : (rest.map fun block => (block.1 : Int) * width).sum =
      ((rest.map Prod.fst).sum : Int) * width := by
    rw [sum_map_mul_right, Nat.cast_list_sum, map_map]
    rfl
  unfold countContiguousBlocks.countIndexed
  rw [if_neg positive]
  simp only [later, map_cons, sum_cons]
  congr 2 <;> push_cast <;> ring

/-- The places of the blocks when the first one is at `start`. -/
def found
    (distance : Int → Int → Int)
    (start : Int) : List (Nat × Int) → List (Nat × Int)
  | [] => []
  | (blocklength, displacement) :: rest =>
    (blocklength, start) :: places distance start displacement rest

theorem found_lengths
    (distance : Int → Int → Int)
    (start : Int)
    (blocks : List (Nat × Int)) :
    (found distance start blocks).map Prod.fst = blocks.map Prod.fst := by
  cases blocks with
  | nil => rfl
  | cons block rest => rw [found, map_cons, places_lengths, map_cons]

/-- The entries that are written for all blocks. -/
theorem placed_found
    (oldExtent stOffset start : Int)
    (distance : Int → Int → Int)
    (inner : List Block)
    (blocklength : Nat)
    (displacement : Int)
    (rest : List (Nat × Int)) :
    let first := again inner.length oldExtent (blocklength - 1)
      (shifted (stOffset + start) inner)
    first ++ laterBlocks inner.length oldExtent distance first displacement rest =
      shifted stOffset (placed oldExtent inner
        (found distance start ((blocklength, displacement) :: rest))) := by
  have loop := again_shifted inner (stOffset + start) oldExtent (blocklength - 1)
  rw [length_shifted, shifted_copies] at loop
  have next : (copies (blocklength - 1 + 1) oldExtent
      (shifted (stOffset + start) inner)).take inner.length = shifted (stOffset + start) inner := by
    exact take_left' (length_shifted ..)
  have isFound : found distance (stOffset + start) ((blocklength, displacement) :: rest) =
      (found distance start ((blocklength, displacement) :: rest)).map
        fun block => (block.1, stOffset + block.2) := by
    rw [found, found, map_cons, places_shifted]
  simp only [loop, laterBlocks_eq next]
  rw [← placed_shifted, ← isFound]
  rfl

variable {blocklength : Nat}

variable {displacement : Int}

/-- The entries have the right bytes, if no block is without copies, exactly when
the old type has no bytes or the differences of the displacements are right. -/
theorem cover_found_iff
    {place : Int → Int}
    {rest : List (Nat × Int)}
    (fine : library.Fine old inner)
    (positive : ∀ block ∈ (blocklength, displacement) :: rest, block.1 ≠ 0) :
    cover (placed (library.extent old) inner
        (found distance (place displacement) ((blocklength, displacement) :: rest))) =
      (((blocklength, displacement) :: rest).flatMap fun block =>
        shifted (place block.2) (copies block.1 (library.extent old) (library.bytes old))) ↔
      (library.size old = 0 ∨ (displacement :: rest.map Prod.snd).IsChain fun before next =>
          distance next before = place next - place before) := by
  let piece (blocklength : Nat) :=
    copies (blocklength - 1 + 1) (library.extent old) (library.bytes old)
  have isPiece : (((blocklength, displacement) :: rest).flatMap fun block =>
        shifted (place block.2) (copies block.1 (library.extent old) (library.bytes old))) =
      ((blocklength, displacement) :: rest).flatMap fun block =>
        shifted (place block.2) (piece block.1) := by
    apply flatMap_congr
    intro block member
    simp only [piece, Nat.sub_one_add_one (positive block member)]
  rw [isPiece, cover_placed, fine.cover]
  by_cases none : library.size old = 0
  · have noBytes : library.bytes old = [] := eq_nil_of_length_eq_zero none
    have noPiece (start : Int) (length : Nat) :
        shifted start (piece length) = [] := by
      simp only [piece, noBytes, copies_nil, shifted_nil]
    refine iff_of_true ?_ (.inl none)
    rw [flatMap_eq_nil_iff.mpr fun block _ => noPiece _ block.1,
      flatMap_eq_nil_iff.mpr fun block _ => noPiece _ block.1]
  · have some : library.bytes old ≠ [] := mt (congrArg length) none
    have nonempty : ∀ block ∈ rest, piece block.1 ≠ [] := fun block _ =>
      copies_ne_nil some (Nat.succ_ne_zero _)
    rw [or_iff_right none, found, flatMap_cons, flatMap_cons, append_cancel_left_eq]
    exact places_iff nonempty

theorem agrees_blocks_of_fine
    {rest : List (Nat × Int)}
    (place : Int → Int)
    (distance : Int → Int → Int)
    (fine : library.Fine old inner)
    (isCount : library.countContiguousBlocks type =
      countContiguousBlocks.countIndexed inner.length inner.length
        ((blocklength, displacement) :: rest))
    (isFlatten : ∀ stOffset,
      let first := again inner.length (library.extent old) (blocklength - 1)
        (shifted (stOffset + place displacement) inner)
      library.flatten type stOffset = some (first ++
        laterBlocks inner.length (library.extent old) distance first displacement rest))
    (isBytes : library.bytes type = ((blocklength, displacement) :: rest).flatMap fun block =>
        shifted (place block.2) (copies block.1 (library.extent old) (library.bytes old)))
    (harmless : library.Harmless type ↔
      (∀ block ∈ (blocklength, displacement) :: rest, block.1 ≠ 0) ∧ (library.size old = 0 ∨
          (displacement :: rest.map Prod.snd).IsChain fun before next =>
            distance next before = place next - place before)) :
    library.Agrees type := by
  let lengths := ((blocklength, displacement) :: rest).map Prod.fst
  let entries := placed (library.extent old) inner
    (found distance (place displacement) ((blocklength, displacement) :: rest))
  have counted := isCount.trans
    (countIndexed_eq (length_ne_zero fine.some) (blocklength, displacement) rest)
  have written (stOffset : Int) :
      library.flatten type stOffset = some (shifted stOffset entries) := by
    rw [isFlatten]
    exact congrArg some (placed_found ..)
  have isLength : entries.length =
      (lengths.map fun length => length - 1 + 1).sum * inner.length := by
    rw [length_placed, found_lengths]
  by_cases positive : 0 ∈ lengths
  · apply agrees_of_not (not_represents_of_lt counted (written 0) ?_)
    · intro isHarmless
      obtain ⟨block, member, isZero⟩ := mem_map.mp positive
      exact (harmless.mp isHarmless).1 block member isZero
    · rw [length_shifted, isLength]
      exact Int.ofNat_lt.mpr (Nat.mul_lt_mul_of_pos_right (sum_lt_of_zero positive)
        (length_pos_of_ne_nil fine.some))
  · have notZero : ∀ block ∈ (blocklength, displacement) :: rest, block.1 ≠ 0 :=
      fun block member isZero =>
        positive (isZero ▸ mem_map_of_mem member)
    have same : (lengths.map fun length => length - 1 + 1) = lengths := by
      calc
        (lengths.map fun length => length - 1 + 1) = lengths.map id :=
          map_congr_left fun length member =>
            Nat.sub_one_add_one fun isZero => positive (isZero ▸ member)
        _ = lengths := map_id lengths
    refine agrees_of entries ?_ written ?_
    · rw [counted, isLength, same]
    · rw [harmless, isBytes, cover_found_iff fine notZero]
      have first : copies (blocklength - 1 + 1) (library.extent old)
          (shifted (place displacement) inner) ≠ [] :=
        copies_ne_nil (mt shifted_eq_nil.mp fine.some) (Nat.succ_ne_zero _)
      have nonempty : entries ≠ [] := append_ne_nil_of_left_ne_nil first _
      exact ⟨fun right => ⟨nonempty, forward_placed _ fine.forward _, right.2⟩,
        fun right => ⟨notZero, right.2.2⟩⟩

/-- Without blocks, the displacement of the first one is not there. -/
theorem not_represents_of_none
    (isFlatten : library.flatten type 0 = none) :
    ¬ library.Represents type := by
  rintro ⟨_, _, written, _, flattens, _⟩
  exact Option.some_ne_none written (flattens.symm.trans isFlatten)

variable
    (notSimple : ¬ library.isSimple old = true)
    (isFine : library.isSimple old = false → ∃ written, library.Fine old written)

include notSimple in
theorem flatten_indexed_nil
    (stOffset : Int) :
    library.flatten (.indexed [] old) stOffset = none := by
  exact if_neg notSimple

include notSimple in
theorem flatten_indexed_cons
    {stOffset : Int} {rest : List (Nat × Int)}
    (isInner : library.flatten old (stOffset + displacement * library.extent old) = some inner)
    (nonempty : inner ≠ []) :
    let first := again inner.length (library.extent old) (blocklength - 1) inner
    library.flatten (.indexed ((blocklength, displacement) :: rest) old) stOffset =
      some (first ++ laterBlocks inner.length (library.extent old)
        (fun next before => intSub next before * library.extent old) first displacement rest) := by
  unfold flatten
  simp only [if_neg notSimple, isInner]

include isFine in
theorem agrees_indexed
    (blocks : List (Nat × Int)) :
    library.Agrees (.indexed blocks old) := by
  cases simple : library.isSimple old with
  | true =>
    refine agrees_blocks_of_simple (· * library.extent old) (library.extent old)
      ?_ (fun stOffset => ?_) rfl ?_
    · rw [countContiguousBlocks, if_pos simple]
      rfl
    · unfold flatten
      exact if_pos simple
    · rw [Harmless, if_pos simple]
  | false =>
    obtain ⟨inner, fine⟩ := isFine simple
    have notSimple := Bool.eq_false_iff.mp simple
    cases blocks with
    | nil =>
      apply agrees_of_not
      · exact not_represents_of_none (flatten_indexed_nil notSimple 0)
      · rw [Harmless]
        exact fun impossible => impossible.1 rfl
    | cons block rest =>
      obtain ⟨blocklength, displacement⟩ := block
      refine agrees_blocks_of_fine (· * library.extent old)
        (fun next before => intSub next before * library.extent old) fine
        ?_ (fun stOffset => ?_) rfl ?_
      · rw [countContiguousBlocks, if_neg notSimple, fine.count]
      · have step := @flatten_indexed_cons library old _ blocklength displacement
          notSimple stOffset rest (fine.flatten _) (mt shifted_eq_nil.mp fine.some)
        simp only [length_shifted] at step
        exact step
      · rw [Harmless, if_neg notSimple, map_cons]
        simp only [sub_mul, ne_eq, reduceCtorEq, not_false_eq_true, true_and]

include notSimple in
theorem flatten_hindexed_nil
    (stOffset : Int) :
    library.flatten (.hindexed [] old) stOffset = none := by
  exact if_neg notSimple

include notSimple in
theorem flatten_hindexed_cons
    {stOffset : Int} {rest : List (Nat × Int)}
    (isInner : library.flatten old (stOffset + displacement) = some inner)
    (nonempty : inner ≠ []) :
    let first := again inner.length (library.extent old) (blocklength - 1) inner
    library.flatten (.hindexed ((blocklength, displacement) :: rest) old) stOffset =
      some (first ++ laterBlocks inner.length (library.extent old)
        (fun next before => next - before) first displacement rest) := by
  unfold flatten
  simp only [if_neg notSimple, isInner]

include isFine in
theorem agrees_hindexed
    (blocks : List (Nat × Int)) :
    library.Agrees (.hindexed blocks old) := by
  cases simple : library.isSimple old with
  | true =>
    refine agrees_blocks_of_simple id (library.size old) ?_ (fun stOffset => ?_)
      rfl ?_
    · rw [countContiguousBlocks, if_pos simple]
      rfl
    · unfold flatten
      exact if_pos simple
    · rw [Harmless, if_pos simple]
      have nonneg (blocklength : Nat) :
          (0 : Int) ≤ blocklength * library.size old :=
        Int.natCast_nonneg (blocklength * library.size old)
      have isLength (blocklength : Nat) :
          ((blocklength : Int) * library.size old).toNat =
            blocklength * library.size old := Int.toNat_natCast _
      simp only [nonneg, true_and, isLength]
  | false =>
    obtain ⟨inner, fine⟩ := isFine simple
    have notSimple := Bool.eq_false_iff.mp simple
    cases blocks with
    | nil =>
      apply agrees_of_not
      · exact not_represents_of_none (flatten_hindexed_nil notSimple 0)
      · rw [Harmless]
        exact fun impossible => impossible.1 rfl
    | cons block rest =>
      obtain ⟨blocklength, displacement⟩ := block
      refine agrees_blocks_of_fine id (fun next before => next - before) fine
        ?_ (fun stOffset => ?_) rfl ?_
      · rw [countContiguousBlocks, if_neg notSimple, fine.count]
      · have step := @flatten_hindexed_cons library old _ blocklength displacement
          notSimple stOffset rest (fine.flatten _) (mt shifted_eq_nil.mp fine.some)
        simp only [length_shifted] at step
        exact step
      · rw [Harmless, if_neg notSimple]
        have chain : (displacement :: rest.map Prod.snd).IsChain fun before next =>
            next - before = id next - id before :=
          isChain_iff_getElem.mpr fun _ _ => rfl
        simp only [chain, or_true, and_true, ne_eq, reduceCtorEq, not_false_eq_true, true_and]

end Mpich.Romio.Flatten.Library
