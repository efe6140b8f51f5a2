import Mathlib.Tactic.Positivity
import Mathlib.Tactic.Zify
import Mpich.Dataloop.Packed
import Mpich.Foundation.Arena

/-!
# Self-contained trees

What a tree of dataloops in memory consists of, and the bytes that it denotes, are
found by following its pointers. A packed tree is self-contained: its pointers lead
to separate regions of its own block, and it denotes the bytes of the tree.
-/

namespace Mpich.Dataloop

open Copies Arena List Option

namespace Memory

def countAt (memory : Memory) (place : Int) : Option Nat :=
  match memory place with
  | some (.count value) => some value
  | _ => none

def offsetAt (memory : Memory) (place : Int) : Option Int :=
  match memory place with
  | some (.offset value) => some value
  | _ => none

end Memory

variable (abi : Abi)

/-- The arrays that the pointers of a loop lead to. -/
def LoopParams.arrayRegions : LoopParams → List Block
  | .contig _ _ | .vector _ _ _ _ => []
  | .blockindexed count _ _ offsetArray => [⟨offsetArray, count * abi.sizeofOffset⟩]
  | .indexed count _ blocksizeArray offsetArray _ =>
    [⟨blocksizeArray, count * abi.sizeofCount⟩, ⟨offsetArray, count * abi.sizeofOffset⟩]
  | .struct count dataloopArray blocksizeArray offsetArray elExtentArray =>
    [⟨dataloopArray, count * abi.sizeofPointer⟩, ⟨blocksizeArray, count * abi.sizeofCount⟩,
      ⟨offsetArray, count * abi.sizeofOffset⟩, ⟨elExtentArray, count * abi.sizeofOffset⟩]

/-- The loops and the arrays that the pointers of a tree lead to. -/
def regionsAt : Nat → Memory → Int → Option (List Block)
  | 0, _, _ => none
  | fuel + 1, memory, place => do
      let loop ← memory.dataloopAt place
      let own := ⟨place, abi.sizeofDataloop⟩ :: loop.params.arrayRegions abi
      match loop.params with
      | .contig _ child | .vector _ child _ _ | .blockindexed _ child _ _ |
          .indexed _ child _ _ _ =>
          if loop.isFinal then some own
          else (regionsAt fuel memory child).map fun below => own ++ below
      | .struct count dataloopArray _ _ _ =>
        let below ← (List.range count).mapM fun (index : Nat) => do
          let child ← memory.pointerAt (slot abi dataloopArray index)
          regionsAt fuel memory child
        some (own ++ below.flatten)

/-- The first entries of an array of `DLOOP_Count`. -/
def countsAt (memory : Memory) (place : Int) (count : Nat) : Option (List Nat) :=
  (List.range count).mapM fun (index : Nat) => memory.countAt (place + index * abi.sizeofCount)

/-- The first entries of an array of `DLOOP_Offset`. -/
def offsetsAt (memory : Memory) (place : Int) (count : Nat) : Option (List Int) :=
  (List.range count).mapM fun (index : Nat) =>
    memory.offsetAt (place + index * abi.sizeofOffset)

/-- The bytes of a loop with one loop below it, given those of one element. -/
def LoopParams.bytes
    (memory : Memory)
    (elExtent : Int)
    (positions : List Int) : LoopParams → Option (List Int)
  | .contig count _ => some (copies count elExtent positions)
  | .vector count _ blocksize stride =>
    some (copies count stride (copies blocksize elExtent positions))
  | .blockindexed count _ blocksize offsetArray => do
      let offsets ← offsetsAt abi memory offsetArray count
      some (offsets.flatMap fun offset =>
        shifted offset (copies blocksize elExtent positions))
  | .indexed count _ blocksizeArray offsetArray _ => do
      let blocksizes ← countsAt abi memory blocksizeArray count
      let offsets ← offsetsAt abi memory offsetArray count
      some ((blocksizes.zip offsets).flatMap fun block =>
        shifted block.2 (copies block.1 elExtent positions))
  | .struct _ _ _ _ _ => none

/-- The bytes that a tree in memory denotes. -/
def bytesAt : Nat → Memory → Int → Option (List Int)
  | 0, _, _ => none
  | fuel + 1, memory, place => do
      let loop ← memory.dataloopAt place
      match loop.params with
      | .contig _ child | .vector _ child _ _ | .blockindexed _ child _ _ |
          .indexed _ child _ _ _ =>
          let element :=
            if loop.isFinal then some (run 0 loop.element.elSize.toNat)
            else bytesAt fuel memory child
          element.bind fun positions =>
            loop.params.bytes abi memory loop.element.elExtent positions
      | .struct count dataloopArray blocksizeArray offsetArray elExtentArray =>
        let pieces ← (List.range count).mapM fun (index : Nat) => do
          let child ← memory.pointerAt (slot abi dataloopArray index)
          let blocksize ← memory.countAt (blocksizeArray + index * abi.sizeofCount)
          let offset ← memory.offsetAt (offsetArray + index * abi.sizeofOffset)
          let elExtent ← memory.offsetAt (elExtentArray + index * abi.sizeofOffset)
          let positions ← bytesAt fuel memory child
          some (shifted offset (copies blocksize elExtent positions))
        some pieces.flatten

/-- The pointers of a tree lead to separate regions of its block. -/
def SelfContained (memory : Memory) (base size : Int) : Prop :=
  ∃ fuel regions, regionsAt abi fuel memory base = some regions ∧
    (∀ region ∈ regions, base ≤ region.start ∧ region.finish ≤ base + size) ∧
    regions.Pairwise Arena.Apart

/-- The tree denotes these bytes. -/
def Denotes (memory : Memory) (base : Int) (bytes : List Int) : Prop :=
  ∃ fuel, bytesAt abi fuel memory base = some bytes

section

theorem mapM_eq_some
    {α β : Type*} {read : α → Option β} {value : α → β} {items : List α}
    (reads : ∀ item ∈ items, read item = some (value item)) :
    items.mapM read = some (items.map value) := by
  induction items with
  | nil => rfl
  | cons item rest ih =>
    rw [forall_mem_cons] at reads
    rw [mapM_cons, reads.1, ih reads.2]
    rfl

theorem mapM_range_eq_some
    {α : Type*} {count : Nat} {read : Nat → Option α} {value : Fin count → α}
    (reads : ∀ index : Fin count, read index = some (value index)) :
    (List.range count).mapM read = some (ofFn value) := by
  rw [← map_coe_finRange_eq_range, mapM_map, ofFn_eq_map]
  exact mapM_eq_some fun index _ => reads index

variable {memory : Memory} {place : Int}

theorem HoldsArray.countsAt
    {counts : List Nat}
    (holds : HoldsArray memory place abi.sizeofCount (counts.map Cell.count)) :
    countsAt abi memory place counts.length = some counts := by
  have reads (index : Fin counts.length) :
      memory.countAt (place + (index : Nat) * abi.sizeofCount) = some counts[index] := by
    have held := holds index (by rw [length_map]; exact index.isLt)
    rw [getElem_map, Nat.cast_mul] at held
    rw [Memory.countAt, held]
    rfl
  rw [Dataloop.countsAt, mapM_range_eq_some reads]
  exact congrArg some ofFn_getElem

theorem HoldsArray.offsetsAt
    {offsets : List Int}
    (holds : HoldsArray memory place abi.sizeofOffset (offsets.map Cell.offset)) :
    offsetsAt abi memory place offsets.length = some offsets := by
  have reads (index : Fin offsets.length) :
      memory.offsetAt (place + (index : Nat) * abi.sizeofOffset) = some offsets[index] := by
    have held := holds index (by rw [length_map]; exact index.isLt)
    rw [getElem_map, Nat.cast_mul] at held
    rw [Memory.offsetAt, held]
    rfl
  rw [Dataloop.offsetsAt, mapM_range_eq_some reads]
  exact congrArg some ofFn_getElem

/-- The bytes of a loop are those of its shape. -/
theorem bytes_params
    {shape : Shape} {arrays : Int}
    (held : shape.HeldAt abi memory arrays)
    (child elExtent : Int)
    (positions : List Int) :
    (shape.params abi arrays child).bytes abi memory elExtent positions =
      some (shape.bytes elExtent positions) := by
  cases shape with
  | contig count => rfl
  | vector count blocksize stride => rfl
  | blockindexed blocksize offsets =>
    have read := held.offsets.offsetsAt
    change Dataloop.offsetsAt abi memory _ offsets.length = some offsets at read
    simp only [Shape.params, LoopParams.bytes, read, bind_eq_bind, bind_some]
    rfl
  | indexed blocks totalBlocks spare =>
    have counts := held.blocksizes.countsAt
    have read := held.offsets.offsetsAt
    simp only [Shape.blocksizes, Shape.offsets, length_map] at counts read
    simp only [Shape.params, LoopParams.bytes, counts, read, bind_eq_bind, bind_some]
    rw [← unzip_fst, ← unzip_snd, zip_unzip]
    rfl

end

section

variable {memory : Memory} {place : Int}

/-- One step along the pointers of a loop with one child. -/
theorem bytesAt_shape
    (fuel : Nat)
    {arrays child : Int} {isFinal : Bool} {shape : Shape} {element : Element}
    (record : memory place = some (.dataloop {
      isFinal := isFinal
      params := shape.params abi arrays child
      element := element }))
    (held : shape.HeldAt abi memory arrays) :
    bytesAt abi (fuel + 1) memory place = (if isFinal then some (run 0 element.elSize.toNat)
      else bytesAt abi fuel memory child).map (shape.bytes element.elExtent) := by
  have bytes := bytes_params abi held child element.elExtent
  rw [bytesAt, Memory.dataloopAt_of record]
  have read (inner : Option (List Int)) :
      (inner.bind fun positions =>
        (shape.params abi arrays child).bytes abi memory element.elExtent positions) =
        inner.map (shape.bytes element.elExtent) := by
    cases inner with
    | none => rfl
    | some positions => exact bytes positions
  cases shape <;> exact read _

/-- The arrays of a loop follow one another. -/
theorem stacked_arrayRegions
    (shape : Shape)
    (arrays child : Int) :
    Stacked arrays (arrays + (shape.blkRoom abi + shape.offRoom abi : Nat))
      ((shape.params abi arrays child).arrayRegions abi) := by
  have blkLength := shape.length_blocksizes_le abi
  have offLength := shape.length_offsets_le abi
  rw [length_map] at blkLength offLength
  cases shape with
  | contig count | vector count blocksize stride =>
    exact Int.le_add_of_nonneg_right (Int.natCast_nonneg _)
  | blockindexed blocksize offsets =>
    change offsets.length * _ ≤ _ at offLength
    refine ⟨Int.le_add_of_nonneg_right (Int.natCast_nonneg _), by positivity, ?_⟩
    zify at offLength
    dsimp only [Stacked, Block.finish]
    omega
  | indexed blocks totalBlocks spare =>
    rw [Shape.blocksizes, length_map] at blkLength
    rw [Shape.offsets, length_map] at offLength
    zify at blkLength offLength
    refine ⟨le_rfl, by positivity, ?_, by positivity, ?_⟩
    · dsimp only [Stacked, Block.finish]
      omega
    · dsimp only [Stacked, Block.finish]
      omega

/-- The arrays of a tree's first loop are regions of the tree. -/
theorem mem_regionsAt
    {fuel : Nat} {regions : List Block}
    (read : regionsAt abi fuel memory place = some regions)
    {loop : Record}
    (found : memory.dataloopAt place = some loop) :
    ∀ region ∈ loop.params.arrayRegions abi, region ∈ regions := by
  intro region member
  cases fuel with
  | zero => cases read
  | succ fuel =>
    rw [regionsAt, found] at read
    simp only [bind_eq_bind, bind_some] at read
    obtain ⟨isFinal, params, element⟩ := loop
    cases params with
    | struct count dataloopArray blocksizeArray offsetArray elExtentArray =>
      obtain ⟨below, -, same⟩ := bind_eq_some_iff.mp read
      obtain rfl := Option.some.inj same
      exact mem_append_left _ (mem_cons_of_mem _ member)
    | _ =>
      cases isFinal with
      | true =>
        obtain rfl := Option.some.inj read
        exact mem_cons_of_mem _ member
      | false =>
        obtain ⟨below, -, same⟩ := map_eq_some_iff.mp read
        obtain rfl := same
        exact mem_append_left _ (mem_cons_of_mem _ member)

/-- The regions of a loop with one child. -/
theorem regionsAt_shape
    (fuel : Nat)
    {arrays child : Int} {isFinal : Bool} {shape : Shape} {element : Element}
    (record : memory place = some (.dataloop {
      isFinal := isFinal
      params := shape.params abi arrays child
      element := element })) :
    let own := ⟨place, abi.sizeofDataloop⟩ ::
      (shape.params abi arrays child).arrayRegions abi
    regionsAt abi (fuel + 1) memory place = if isFinal then some own
      else (regionsAt abi fuel memory child).map fun below => own ++ below := by
  rw [regionsAt, Memory.dataloopAt_of record]
  cases shape <;> rfl

/-- The arrays of a struct follow one another. -/
theorem stacked_structRegions (base : Int) (count : Nat) :
    Stacked (base + abi.loopRoom) (base + abi.structRoom count)
      ((LoopParams.struct count (base + abi.loopRoom) (base + abi.blkSkip count)
        (base + abi.offSkip count) (base + abi.extSkip count)).arrayRegions abi) := by
  have pointerRoom : count * abi.sizeofPointer ≤ _ := abi.le_room _
  have countRoom : count * abi.sizeofCount ≤ _ := abi.le_room _
  have offsetRoom : count * abi.sizeofOffset ≤ _ := abi.le_room _
  have skips := abi.skips count
  zify at pointerRoom countRoom offsetRoom
  refine ⟨le_rfl, by positivity, ?_, by positivity, ?_, by positivity, ?_, by positivity, ?_⟩
  · dsimp only [Stacked, Block.finish]
    omega
  · dsimp only [Stacked, Block.finish]
    omega
  · dsimp only [Stacked, Block.finish]
    omega
  · dsimp only [Stacked, Block.finish]
    omega

/-- What the arrays of a struct hold for one of its blocks. -/
theorem StructAt.reads
    {base : Int} {count : Nat} {blocksizes : Fin count → Nat}
    {offsets elExtents places : Fin count → Int}
    (held : StructAt abi memory 0 base blocksizes offsets elExtents places)
    (index : Fin count) :
    memory.pointerAt (slot abi (base + abi.loopRoom) index) = some (places index) ∧
      memory.countAt (base + abi.blkSkip count + (index : Nat) * abi.sizeofCount) =
        some (blocksizes index) ∧
      memory.offsetAt (base + abi.offSkip count + (index : Nat) * abi.sizeofOffset) =
        some (offsets index) ∧
      memory.offsetAt (base + abi.extSkip count + (index : Nat) * abi.sizeofOffset) =
        some (elExtents index) := by
  have pointer := held.pointers index (by rw [length_ofFn]; exact index.isLt)
  have blocksize := held.blocksizes index (by rw [length_ofFn]; exact index.isLt)
  have offset := held.offsets index (by rw [length_ofFn]; exact index.isLt)
  have elExtent := held.elExtents index (by rw [length_ofFn]; exact index.isLt)
  rw [List.getElem_ofFn, Nat.cast_mul] at pointer blocksize offset elExtent
  rw [sub_zero] at pointer
  refine ⟨?_, ?_, ?_, ?_⟩
  · rw [Memory.pointerAt, slot, pointer]
  · rw [Memory.countAt, blocksize]
  · rw [Memory.offsetAt, offset]
  · rw [Memory.offsetAt, elExtent]

theorem Loop.depth_child_le
    {count fuel : Nat} {blocksizes : Fin count → Nat}
    {offsets elExtents : Fin count → Int} {children : Fin count → Loop}
    (deep : (Loop.struct count blocksizes offsets elExtents children).depth ≤ fuel + 1)
    (index : Fin count) :
    (children index).depth ≤ fuel :=
  (le_max_of_le' 0 (mem_ofFn.mpr ⟨index, rfl⟩) le_rfl).trans (Nat.le_of_succ_le_succ deep)

section

variable
    {loop : Loop} {fuel : Nat}
    (deep : loop.depth ≤ fuel)
    {base : Int}
    (packed : Packed abi memory 0 loop base)

include deep packed

/-- The regions of a packed tree follow one another in its block. -/
theorem Packed.regions :
    ∃ regions, regionsAt abi fuel memory base = some regions ∧
      Stacked base (base + loop.size abi) regions := by
  have dataloopRoom : abi.sizeofDataloop ≤ abi.loopRoom := abi.le_room _
  induction loop generalizing base fuel with
  | leaf shape element =>
    obtain ⟨fuel, rfl⟩ := Loop.exists_succ deep
    obtain ⟨⟨child, record⟩, held⟩ := packed
    rw [sub_zero] at record
    refine ⟨_, regionsAt_shape abi fuel record, le_rfl, Int.natCast_nonneg _, ?_⟩
    have arrays := (stacked_arrayRegions abi shape (base + abi.loopRoom) child).lower
      (show base + (abi.sizeofDataloop : Int) ≤ base + abi.loopRoom by omega)
    have size_eq : base + abi.loopRoom + (shape.blkRoom abi + shape.offRoom abi : Nat) =
        base + ((Loop.leaf shape element).size abi : Int) := by
      change _ = base + ((abi.loopRoom + shape.blkRoom abi + shape.offRoom abi : Nat) : Int)
      push_cast
      ring
    rwa [size_eq] at arrays
  | inner shape element child ih =>
    obtain ⟨fuel, rfl⟩ := Loop.exists_succ deep
    obtain ⟨record, held, below⟩ := packed
    rw [sub_zero, sub_zero] at record
    obtain ⟨regions, read, stacked⟩ := ih (Nat.le_of_succ_le_succ deep) below
    have step := regionsAt_shape abi fuel record
    rw [read] at step
    refine ⟨_, step, le_rfl, Int.natCast_nonneg _, ?_⟩
    have arrays := (stacked_arrayRegions abi shape (base + abi.loopRoom)
      (base + shape.ownRoom abi)).lower
      (show base + (abi.sizeofDataloop : Int) ≤ base + abi.loopRoom by omega)
    have own_eq : base + abi.loopRoom +
        (shape.blkRoom abi + shape.offRoom abi : Nat) = base + shape.ownRoom abi := by
      change _ = base + ((abi.loopRoom + shape.blkRoom abi + shape.offRoom abi : Nat) : Int)
      push_cast
      ring
    have size_eq : base + ((Loop.inner shape element child).size abi : Int) =
        base + shape.ownRoom abi + child.size abi := by
      change base + ((shape.ownRoom abi + child.size abi : Nat) : Int) = _
      push_cast
      ring
    rw [own_eq] at arrays
    rw [size_eq]
    exact arrays.append stacked
  | struct count blocksizes offsets elExtents children ih =>
    obtain ⟨fuel, rfl⟩ := Loop.exists_succ deep
    obtain ⟨held, below⟩ := packed
    choose regions read stacked using fun index =>
      ih index (Loop.depth_child_le deep index) (below index)
    have record := held.record
    simp only [sub_zero] at record
    have children_eq : ((List.range count).mapM fun (index : Nat) => do
        let child ← memory.pointerAt (slot abi (base + abi.loopRoom) index)
        regionsAt abi fuel memory child) = some (ofFn regions) := by
      refine mapM_range_eq_some fun index => ?_
      rw [(held.reads abi index).1]
      exact read index
    refine ⟨⟨base, abi.sizeofDataloop⟩ ::
      (LoopParams.struct count (base + abi.loopRoom) (base + abi.blkSkip count)
        (base + abi.offSkip count) (base + abi.extSkip count)).arrayRegions abi ++
      (ofFn regions).flatten, ?_, ?_⟩
    · rw [regionsAt, Memory.dataloopAt_of record]
      simp only [bind_eq_bind, bind_some] at children_eq ⊢
      rw [children_eq]
      rfl
    · have arrays := (stacked_structRegions abi base count).lower
        (show base + (abi.sizeofDataloop : Int) ≤ base + abi.loopRoom by omega)
      have loops := stacked_ofFn (base + abi.structRoom count) (fun index => by
        have child := stacked index
        unfold childOffset at child
        rw [Nat.cast_add, ← add_assoc] at child
        exact child)
      have size_eq : base + abi.structRoom count +
          ((ofFn fun index => (children index).size abi).sum : Nat) =
          base + ((Loop.struct count blocksizes offsets elExtents children).size abi :
            Int) := by
        rw [Loop.size, Nat.cast_add, add_assoc]
      rw [size_eq] at loops
      exact ⟨le_rfl, Int.natCast_nonneg _, arrays.append loops⟩

/-- A packed tree denotes its bytes. -/
theorem Packed.bytes :
    bytesAt abi fuel memory base = some loop.bytes := by
  induction loop generalizing base fuel with
  | leaf shape element =>
    obtain ⟨fuel, rfl⟩ := Loop.exists_succ deep
    obtain ⟨⟨child, record⟩, held⟩ := packed
    rw [sub_zero] at record
    exact bytesAt_shape abi fuel record held
  | inner shape element child ih =>
    obtain ⟨fuel, rfl⟩ := Loop.exists_succ deep
    obtain ⟨record, held, below⟩ := packed
    rw [sub_zero, sub_zero] at record
    rw [bytesAt_shape abi fuel record held, if_neg Bool.false_ne_true,
      ih (Nat.le_of_succ_le_succ deep) below]
    rfl
  | struct count blocksizes offsets elExtents children ih =>
    obtain ⟨fuel, rfl⟩ := Loop.exists_succ deep
    obtain ⟨held, below⟩ := packed
    have read (index : Fin count) := ih index (Loop.depth_child_le deep index) (below index)
    have record := held.record
    simp only [sub_zero] at record
    have pieces_eq : ((List.range count).mapM fun (index : Nat) => do
        let child ← memory.pointerAt (slot abi (base + abi.loopRoom) index)
        let blocksize ← memory.countAt
          (base + abi.blkSkip count + index * abi.sizeofCount)
        let offset ← memory.offsetAt
          (base + abi.offSkip count + index * abi.sizeofOffset)
        let elExtent ← memory.offsetAt
          (base + abi.extSkip count + index * abi.sizeofOffset)
        let positions ← bytesAt abi fuel memory child
        some (shifted offset (copies blocksize elExtent positions))) =
        some (ofFn fun index : Fin count => shifted (offsets index)
          (copies (blocksizes index) (elExtents index) (children index).bytes)) := by
      refine mapM_range_eq_some fun index => ?_
      obtain ⟨pointer, blocksize, offset, elExtent⟩ := held.reads abi index
      rw [pointer, blocksize, offset, elExtent]
      simp only [bind_eq_bind, bind_some, read index]
    rw [bytesAt, Memory.dataloopAt_of record]
    simp only [bind_eq_bind, bind_some] at pieces_eq ⊢
    rw [pieces_eq, ofFn_eq_map]
    rfl

end

/-- A packed tree is self-contained. -/
theorem Packed.selfContained
    {loop : Loop} {base : Int}
    (packed : Packed abi memory 0 loop base) :
    SelfContained abi memory base (loop.size abi) := by
  obtain ⟨regions, read, stacked⟩ := packed.regions abi le_rfl
  exact ⟨_, regions, read, stacked.inside, stacked.apart⟩

end

end Mpich.Dataloop
