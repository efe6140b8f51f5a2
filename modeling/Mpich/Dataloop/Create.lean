import Mathlib.Algebra.BigOperators.Ring.List
import Mpich.Dataloop.Packed

/-!
# Creating packed trees

As long as the size of a new tree fits an `int`, the sizes that the allocations
compute are the rooms of its parts, and what the callers fill in makes the tree
packed. An old tree that is copied in must be free of structs.
-/

namespace Mpich.Dataloop

open Function Option

open Datatypes (toInt)

variable (abi : Abi)

section

theorem toInt_natCast
    {number : Nat}
    (fits : number < 2 ^ 31) :
    toInt number = number :=
  Int.bmod_eq_of_le (by omega) (by omega)

theorem pad_natCast (size : Nat) : pad abi size = abi.room size := by
  unfold pad Abi.room
  dsimp only
  rw [← Int.ofNat_tmod]
  have below := Nat.mod_lt size abi.align_pos
  split <;> split <;> omega

theorem loopSz_eq : loopSz abi = abi.loopRoom :=
  pad_natCast abi abi.sizeofDataloop

theorem arraySz_eq
    {count sizeofObject : Nat}
    (fits : abi.arrayRoom count sizeofObject < 2 ^ 31) :
    arraySz abi count sizeofObject = abi.arrayRoom count sizeofObject := by
  have room := abi.le_room (count * sizeofObject)
  rw [arraySz, ← Nat.cast_mul, toInt_natCast (room.trans_lt fits), pad_natCast]
  rfl

theorem Abi.room_zero : abi.room 0 = 0 := by
  rw [Abi.room, if_pos (Nat.zero_mod _)]

theorem Abi.arrayRoom_zero (sizeofObject : Nat) : abi.arrayRoom 0 sizeofObject = 0 := by
  rw [Abi.arrayRoom, zero_mul, abi.room_zero]

section

variable {shape : Shape} (fits : shape.ownRoom abi < 2 ^ 31)

include fits

theorem blkSz_eq : blkSz abi shape.kind shape.allocCount = shape.blkRoom abi := by
  have own : shape.ownRoom abi = abi.loopRoom + shape.blkRoom abi + shape.offRoom abi := rfl
  have small : shape.blkRoom abi < 2 ^ 31 := by omega
  cases shape with
  | indexed blocks totalBlocks spare =>
    rw [blkSz, if_pos (.inr rfl)]
    exact arraySz_eq abi small
  | _ =>
    simp only [Shape.blkRoom, Shape.blkCt, abi.arrayRoom_zero]
    rfl

theorem offSz_eq : offSz abi shape.kind shape.allocCount = shape.offRoom abi := by
  have own : shape.ownRoom abi = abi.loopRoom + shape.blkRoom abi + shape.offRoom abi := rfl
  have small : shape.offRoom abi < 2 ^ 31 := by omega
  cases shape with
  | blockindexed blocksize offsets =>
    rw [offSz, if_pos (.inr (.inr rfl))]
    exact arraySz_eq abi small
  | indexed blocks totalBlocks spare =>
    rw [offSz, if_pos (.inr (.inl rfl))]
    exact arraySz_eq abi small
  | _ =>
    simp only [Shape.offRoom, Shape.offCt, abi.arrayRoom_zero]
    rfl

/-- The size of a new loop without the loops below it. -/
theorem ownSz_eq : ownSz abi shape.kind shape.allocCount = shape.ownRoom abi := by
  have noPointers : ptrSz abi shape.kind shape.allocCount = 0 := by
    cases shape <;> rfl
  have noExtents : extentSz abi shape.kind shape.allocCount = 0 := by
    cases shape <;> rfl
  rw [ownSz, blkSz_eq abi fits, offSz_eq abi fits, noPointers, noExtents, loopSz_eq, Shape.ownRoom]
  push_cast
  ring

/-- The parameters of a new loop, with what the caller fills in. -/
theorem filled_newParams (newLoop child : Int) :
    shape.filled (newParams abi shape.kind shape.allocCount newLoop child) =
      shape.params abi (newLoop + abi.loopRoom) child := by
  have blk := blkSz_eq abi fits
  cases shape with
  | contig count => rfl
  | vector count blocksize stride => rfl
  | blockindexed blocksize offsets =>
    change LoopParams.blockindexed _ _ _ (newLoop + loopSz abi) = _
    simp only [loopSz_eq, Shape.params, Shape.blkRoom, Shape.blkCt,
      abi.arrayRoom_zero, Nat.cast_zero, add_zero]
  | indexed blocks totalBlocks spare =>
    change LoopParams.indexed _ _ (newLoop + loopSz abi)
      (newLoop + loopSz abi + blkSz abi .indexed (blocks.length + spare)) _ = _
    change blkSz abi .indexed (blocks.length + spare) = _ at blk
    rw [loopSz_eq, blk]
    rfl

end

end

section

theorem writeArray_spec
    {sizeofObject : Nat}
    (positive : 0 < sizeofObject)
    (memory : Memory)
    (place : Int)
    (cells : List Cell) :
    HoldsArray (writeArray sizeofObject memory place cells) place sizeofObject cells ∧
      Unchanged memory (writeArray sizeofObject memory place cells) place
        (cells.length * sizeofObject) := by
  induction cells generalizing memory place with
  | nil => exact ⟨fun _ bound => absurd bound (Nat.not_lt_zero _), fun _ _ => rfl⟩
  | cons cell rest ih =>
    obtain ⟨holds, unchanged⟩ := ih (memory.write place cell) (place + sizeofObject)
    have longer : (cell :: rest).length * sizeofObject =
        sizeofObject + rest.length * sizeofObject := by
      rw [List.length_cons, Nat.succ_mul, add_comm]
    refine ⟨?_, ?_⟩
    · intro index bound
      cases index with
      | zero =>
        rw [zero_mul, Nat.cast_zero, add_zero, writeArray, unchanged place (.inl (by omega))]
        exact update_self _ _ _
      | succ index =>
        have later := holds index (Nat.lt_of_succ_lt_succ bound)
        rw [List.getElem_cons_succ, ← later, writeArray]
        congr 1
        push_cast
        ring
    · rw [longer, writeArray]
      exact (unchanged_write memory le_rfl (by omega) cell).trans
        (unchanged.widen (by omega) (by omega))

/-- The arrays of a loop after they have been filled in. -/
def Shape.written (shape : Shape) (memory : Memory) (params : LoopParams) : Memory :=
  writeArray abi.sizeofOffset
    (writeArray abi.sizeofCount memory params.arrays.1
      (shape.blocksizes.map Cell.count))
    params.arrays.2 (shape.offsets.map Cell.offset)

theorem holdsArray_nil
    (memory : Memory)
    (place : Int)
    (sizeofObject : Nat) :
    HoldsArray memory place sizeofObject [] :=
  fun _ bound => absurd bound (Nat.not_lt_zero _)

theorem Shape.written_spec
    (shape : Shape)
    (memory : Memory)
    (arrays child : Int) :
    shape.HeldAt abi (shape.written abi memory (shape.params abi arrays child)) arrays ∧
      Unchanged memory (shape.written abi memory (shape.params abi arrays child))
        arrays (shape.blkRoom abi + shape.offRoom abi) := by
  have blkLength := shape.length_blocksizes_le abi
  have offLength := shape.length_offsets_le abi
  cases shape with
  | contig count =>
    exact ⟨⟨holdsArray_nil _ _ _, holdsArray_nil _ _ _⟩, fun _ _ => rfl⟩
  | vector count blocksize stride =>
    exact ⟨⟨holdsArray_nil _ _ _, holdsArray_nil _ _ _⟩, fun _ _ => rfl⟩
  | blockindexed blocksize offsets =>
    obtain ⟨holds, unchanged⟩ := writeArray_spec abi.offset_pos memory
      (arrays + (Shape.blockindexed blocksize offsets).blkRoom abi)
      ((Shape.blockindexed blocksize offsets).offsets.map Cell.offset)
    exact ⟨⟨holdsArray_nil _ _ _, holds⟩, unchanged.widen (by omega) (by omega)⟩
  | indexed blocks totalBlocks spare =>
    obtain ⟨blkHolds, blkUnchanged⟩ := writeArray_spec abi.count_pos memory arrays
      ((Shape.indexed blocks totalBlocks spare).blocksizes.map Cell.count)
    obtain ⟨offHolds, offUnchanged⟩ := writeArray_spec abi.offset_pos
      (writeArray abi.sizeofCount memory arrays
        ((Shape.indexed blocks totalBlocks spare).blocksizes.map Cell.count))
      (arrays + (Shape.indexed blocks totalBlocks spare).blkRoom abi)
      ((Shape.indexed blocks totalBlocks spare).offsets.map Cell.offset)
    refine ⟨⟨?_, offHolds⟩, ?_⟩
    · exact blkHolds.mirrored abi.count_pos (offUnchanged.mirrors (.inl (by omega)))
    · exact (blkUnchanged.widen (by omega) (by omega)).trans
        (offUnchanged.widen (by omega) (by omega))

end

/-- Two pieces of memory that share no byte. -/
def Apart (first : Int) (size : Nat) (second : Int) (length : Nat) : Prop :=
  first + size ≤ second ∨ second + length ≤ first

/-- The size of a tree keeps the alignment. -/
theorem Loop.alignSz_dvd_size (loop : Loop) : abi.alignSz ∣ loop.size abi := by
  have room (size : Nat) : abi.alignSz ∣ abi.room size := Nat.dvd_of_mod_eq_zero (abi.room_mod size)
  have own (shape : Shape) : abi.alignSz ∣ shape.ownRoom abi :=
    dvd_add (dvd_add (room _) (room _)) (room _)
  induction loop with
  | leaf shape element => exact own shape
  | inner shape element child ih => exact dvd_add (own shape) ih
  | struct count blocksizes offsets elExtents children ih =>
    refine dvd_add ?_ (List.dvd_sum fun size member => ?_)
    · exact dvd_add (dvd_add (dvd_add (dvd_add (room _) (room _)) (room _)) (room _)) (room _)
    · obtain ⟨index, rfl⟩ := List.mem_ofFn.mp member
      exact ih index

theorem dataloopAt_write
    (memory : Memory)
    (place : Int)
    (loop : Record) :
    (memory.write place (.dataloop loop)).dataloopAt place = some loop := by
  rw [Memory.dataloopAt, Memory.write, update_self]

theorem write_write
    (memory : Memory)
    (place : Int)
    (first second : Cell) :
    (memory.write place first).write place second = memory.write place second :=
  update_idem _ _ _

/-- A loop over a built-in type. -/
theorem createLoop_leaf
    (fuel : Nat)
    (memory : Memory)
    {shape : Shape}
    (fits : shape.ownRoom abi < 2 ^ 31)
    (element : Element)
    (newLoop : Int) :
    ∃ other, createLoop abi fuel memory shape element none newLoop =
        some (other, ((Loop.leaf shape element).size abi : Int)) ∧
      Packed abi other 0 (.leaf shape element) newLoop ∧
      Unchanged memory other newLoop ((Loop.leaf shape element).size abi) := by
  have size_eq : toInt (ownSz abi shape.kind shape.allocCount + 0) = (shape.ownRoom abi : Int) := by
    rw [add_zero, ownSz_eq abi fits, toInt_natCast fits]
  have own : shape.ownRoom abi = abi.loopRoom + shape.blkRoom abi + shape.offRoom abi := rfl
  have loopPos := abi.loopRoom_pos
  obtain ⟨held, unchanged⟩ := shape.written_spec abi
    (memory.write newLoop (.dataloop {
      isFinal := true
      params := shape.params abi (newLoop + abi.loopRoom) 0
      element := element }))
    (newLoop + abi.loopRoom) 0
  refine ⟨_, ?_, ⟨⟨0, ?_⟩, held⟩, ?_⟩
  · simp only [createLoop, dataloopAllocAndCopy, map_none, getD_none, bind_eq_bind,
      bind_some, dataloopAt_write, filled_newParams abi fits, write_write, size_eq, isNone_none]
    rfl
  · rw [sub_zero, unchanged newLoop (.inl (by omega))]
    exact update_self _ _ _
  · exact (unchanged_write memory le_rfl
      (by change newLoop < newLoop + (shape.ownRoom abi : Int); omega) _).trans
      (unchanged.widen (by omega) (by change _ ≤ newLoop + (shape.ownRoom abi : Int); omega))

/-- A loop over an old tree without structs. -/
theorem createLoop_inner
    {fuel : Nat} {memory : Memory} {shape : Shape} {old : Loop}
    (fits : shape.ownRoom abi + old.size abi < 2 ^ 31)
    (structFree : old.StructFree)
    (deep : old.depth ≤ fuel)
    {src : Int}
    (packed : Packed abi memory 0 old src)
    (element : Element)
    {newLoop : Int}
    (apart : Apart newLoop (shape.ownRoom abi + old.size abi) src (old.size abi)) :
    ∃ other, createLoop abi fuel memory shape element (some (src, old.size abi)) newLoop =
        some (other, ((Loop.inner shape element old).size abi : Int)) ∧
      Packed abi other 0 (.inner shape element old) newLoop ∧
      Unchanged memory other newLoop ((Loop.inner shape element old).size abi) := by
  have ownFits : shape.ownRoom abi < 2 ^ 31 := by omega
  have size_eq : toInt (ownSz abi shape.kind shape.allocCount + old.size abi) =
      ((shape.ownRoom abi + old.size abi : Nat) : Int) := by
    rw [ownSz_eq abi ownFits, ← Nat.cast_add, toInt_natCast fits]
  have own : shape.ownRoom abi = abi.loopRoom + shape.blkRoom abi + shape.offRoom abi := rfl
  have loopPos := abi.loopRoom_pos
  have oldSize : (Loop.inner shape element old).size abi = shape.ownRoom abi + old.size abi := rfl
  have aligned : (old.size abi : Int).tmod abi.alignSz = 0 := by
    rw [← Int.ofNat_tmod, Nat.mod_eq_zero_of_dvd (old.alignSz_dvd_size abi)]
    rfl
  set allocated := memory.write newLoop (.dataloop {
    isFinal := false
    params := newParams abi shape.kind shape.allocCount newLoop
      (newLoop + shape.ownRoom abi)
    element := blankElement }) with allocated_eq
  have allocatedSame : Unchanged memory allocated newLoop (shape.ownRoom abi) :=
    unchanged_write memory le_rfl (by omega) _
  unfold Apart at apart
  have stillPacked := packed.unchanged abi
    (allocatedSame.mirrors (show src + old.size abi ≤ newLoop ∨ _ by omega))
  obtain ⟨copied, copy_eq, below, copiedSame⟩ :=
    dataloopCopy_packed abi structFree deep stillPacked (newLoop + shape.ownRoom abi)
  have found : copied.dataloopAt newLoop = some {
      isFinal := false
      params := newParams abi shape.kind shape.allocCount newLoop
        (newLoop + shape.ownRoom abi)
      element := blankElement } := by
    rw [Memory.dataloopAt, copiedSame newLoop (.inl (by omega)), allocated_eq,
      Memory.write, update_self]
  set recorded := copied.write newLoop (.dataloop {
    isFinal := false
    params := shape.params abi (newLoop + abi.loopRoom) (newLoop + shape.ownRoom abi)
    element := element }) with recorded_eq
  have recordedSame : Unchanged copied recorded newLoop abi.loopRoom :=
    unchanged_write copied le_rfl (by omega) _
  obtain ⟨held, writtenSame⟩ := shape.written_spec abi recorded
    (newLoop + abi.loopRoom) (newLoop + shape.ownRoom abi)
  refine ⟨_, ?_, ⟨?_, held, ?_⟩, ?_⟩
  · simp only [createLoop, dataloopAllocAndCopy, map_some, getD_some,
      bind_eq_bind, size_eq, aligned, if_true, Nat.cast_add, add_sub_cancel_right]
    rw [← allocated_eq, copy_eq]
    simp only [map_some, bind_some, found, filled_newParams abi ownFits]
    rfl
  · rw [sub_zero, sub_zero, writtenSame newLoop (.inl (by omega)), recorded_eq]
    exact update_self _ _ _
  · have first := below.unchanged abi (recordedSame.mirrors (.inr (by omega)))
    have second := first.unchanged abi (writtenSame.mirrors (.inr (by omega)))
    exact second
  · rw [oldSize]
    exact (allocatedSame.widen le_rfl (by omega)).trans
      ((copiedSame.widen (by omega) (by omega)).trans
        ((recordedSame.widen le_rfl (by omega)).trans (writtenSame.widen (by omega) (by omega))))

/-- The tree with a multiple of its contiguous count. -/
def Loop.multiplied (factor : Nat) : Loop → Loop
  | .leaf (.contig count) element => .leaf (.contig (count * factor)) element
  | .inner (.contig count) element child =>
    .inner (.contig (count * factor)) element child
  | loop => loop

/-- The kind of the first loop is `DLOOP_KIND_CONTIG`. -/
def Loop.IsContig : Loop → Prop
  | .leaf (.contig _) _ | .inner (.contig _) _ _ => True
  | _ => False

theorem Loop.size_multiplied (factor : Nat) (loop : Loop) :
    (loop.multiplied factor).size abi = loop.size abi := by
  unfold Loop.multiplied
  split <;> rfl

/-- A copy of a contiguous loop with a multiple of its count. -/
theorem createCoalesced_packed
    {fuel : Nat} {memory : Memory} {old : Loop}
    (isContig : old.IsContig)
    (structFree : old.StructFree)
    (deep : old.depth ≤ fuel)
    {src : Int}
    (packed : Packed abi memory 0 old src)
    (factor : Nat)
    (newLoop : Int) :
    ∃ other, createCoalesced abi fuel memory factor src (old.size abi) newLoop = some other ∧
      Packed abi other 0 (old.multiplied factor) newLoop ∧
      Unchanged memory other newLoop (old.size abi) := by
  have loopPos := abi.loopRoom_pos
  obtain ⟨copied, copy_eq, copiedPacked, copiedSame⟩ :=
    dataloopCopy_packed abi structFree deep packed newLoop
  match old with
  | .leaf (.contig count) element =>
    obtain ⟨⟨child, record⟩, held⟩ := copiedPacked
    have own : (Loop.leaf (.contig count) element).size abi =
        abi.loopRoom + (Shape.contig count).blkRoom abi + (Shape.contig count).offRoom abi := rfl
    refine ⟨copied.write newLoop (.dataloop {
      isFinal := true
      params := .contig (count * factor) child
      element := element }), ?_, ⟨⟨child, update_self _ _ _⟩, ?_⟩, ?_⟩
    · simp only [createCoalesced, dataloopDup, copy_eq, bind_eq_bind,
        bind_some, Memory.dataloopAt, record]
      rfl
    · exact ⟨holdsArray_nil _ _ _, holdsArray_nil _ _ _⟩
    · exact copiedSame.trans (unchanged_write copied le_rfl (by omega) _)
  | .inner (.contig count) element child =>
    obtain ⟨record, held, below⟩ := copiedPacked
    have own : (Loop.inner (.contig count) element child).size abi =
        (Shape.contig count).ownRoom abi + child.size abi := rfl
    have room : (Shape.contig count).ownRoom abi =
        abi.loopRoom + (Shape.contig count).blkRoom abi + (Shape.contig count).offRoom abi := rfl
    have written : Unchanged copied (copied.write newLoop (.dataloop {
        isFinal := false
        params := .contig (count * factor)
          (newLoop + (Shape.contig count).ownRoom abi - 0)
        element := element })) newLoop ((Shape.contig count).ownRoom abi) :=
      unchanged_write copied le_rfl (by omega) _
    have stillBelow := below.unchanged abi (written.mirrors (.inr le_rfl))
    refine ⟨_, ?_, ⟨update_self _ _ _, ?_, stillBelow⟩, ?_⟩
    · simp only [createCoalesced, dataloopDup, copy_eq, bind_eq_bind,
        bind_some, Memory.dataloopAt, record]
      rfl
    · exact ⟨holdsArray_nil _ _ _, holdsArray_nil _ _ _⟩
    · exact copiedSame.trans (written.widen le_rfl (by omega))

end Mpich.Dataloop
