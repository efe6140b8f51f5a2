import Mathlib.Algebra.BigOperators.Group.List.Basic
import Mpich.Dataloop.Defs

/-!
# Packed trees of dataloops

A tree of dataloops is packed when it lies in one piece: each loop is followed by
its arrays and then by the loops below it. Its pointers may lag behind, which is how
a tree is found after its bytes have been copied and before `Dataloop_update` has
moved its pointers. It moves them in every tree without structs.
-/

namespace Mpich.Dataloop

open Copies List

/-- A tree of dataloops. -/
inductive Loop
  | leaf (shape : Shape) (element : Element)
  | inner (shape : Shape) (element : Element) (child : Loop)
  | struct
      (count : Nat)
      (blocksizes : Fin count → Nat)
      (offsets elExtents : Fin count → Int)
      (children : Fin count → Loop)

/-- The places of the elements of a loop, given those of one element. -/
def Shape.bytes (shape : Shape) (elExtent : Int) (positions : List Int) : List Int :=
  match shape with
  | .contig count => copies count elExtent positions
  | .vector count blocksize stride =>
    copies count stride (copies blocksize elExtent positions)
  | .blockindexed blocksize offsets =>
    offsets.flatMap fun offset =>
      shifted offset (copies blocksize elExtent positions)
  | .indexed blocks _ _ =>
    blocks.flatMap fun block =>
      shifted block.2 (copies block.1 elExtent positions)

namespace Loop

/-- The bytes that a tree denotes, in order. -/
def bytes : Loop → List Int
  | .leaf shape element => shape.bytes element.elExtent (run 0 element.elSize.toNat)
  | .inner shape element child => shape.bytes element.elExtent child.bytes
  | .struct count blocksizes offsets elExtents children =>
    (finRange count).flatMap fun index =>
      shifted (offsets index) (copies (blocksizes index) (elExtents index) (children index).bytes)

/-- There is no struct in the tree. -/
def StructFree : Loop → Prop
  | .leaf _ _ => True
  | .inner _ _ child => child.StructFree
  | .struct _ _ _ _ _ => False

/-- The number of loops on the longest way down. -/
def depth : Loop → Nat
  | .leaf _ _ => 1
  | .inner _ _ child => child.depth + 1
  | .struct _ _ _ _ children =>
    (ofFn fun index => (children index).depth).foldr max 0 + 1

end Loop

section

variable (abi : Abi)

/-- The room that a number of bytes takes. -/
def Abi.room (size : Nat) : Nat :=
  if size % abi.alignSz = 0 then size
  else size + (abi.alignSz - size % abi.alignSz)

theorem Abi.le_room (size : Nat) : size ≤ abi.room size := by
  unfold Abi.room
  split <;> omega

theorem Abi.room_mod (size : Nat) : abi.room size % abi.alignSz = 0 := by
  unfold Abi.room
  split
  · assumption
  · have below := Nat.mod_lt size abi.align_pos
    rw [← Nat.add_sub_assoc below.le, Nat.add_comm, Nat.add_sub_assoc (Nat.mod_le _ _),
      Nat.add_mod_left]
    exact Nat.sub_mod_eq_zero_of_mod_eq (Nat.mod_mod _ _).symm

/-- The room of an array. -/
def Abi.arrayRoom (count sizeofObject : Nat) : Nat :=
  abi.room (count * sizeofObject)

/-- The entries of `blocksize_array` that are allocated. -/
def Shape.blkCt : Shape → Nat
  | .indexed blocks _ spare => blocks.length + spare
  | _ => 0

/-- The entries of `offset_array` that are allocated. -/
def Shape.offCt : Shape → Nat
  | .blockindexed _ offsets => offsets.length
  | .indexed blocks _ spare => blocks.length + spare
  | _ => 0

def Shape.blkRoom (shape : Shape) : Nat :=
  abi.arrayRoom shape.blkCt abi.sizeofCount

def Shape.offRoom (shape : Shape) : Nat :=
  abi.arrayRoom shape.offCt abi.sizeofOffset

/-- The room of a dataloop. -/
def Abi.loopRoom : Nat :=
  abi.room abi.sizeofDataloop

/-- The room of a loop with its arrays. -/
def Shape.ownRoom (shape : Shape) : Nat :=
  abi.loopRoom + shape.blkRoom abi + shape.offRoom abi

/-- The room of a struct up to `blocksize_array`. -/
def Abi.blkSkip (count : Nat) : Nat :=
  abi.loopRoom + abi.arrayRoom count abi.sizeofPointer

/-- The room of a struct up to `offset_array`. -/
def Abi.offSkip (count : Nat) : Nat :=
  abi.blkSkip count + abi.arrayRoom count abi.sizeofCount

/-- The room of a struct up to `el_extent_array`. -/
def Abi.extSkip (count : Nat) : Nat :=
  abi.offSkip count + abi.arrayRoom count abi.sizeofOffset

/-- The room of a struct with its arrays. -/
def Abi.structRoom (count : Nat) : Nat :=
  abi.extSkip count + abi.arrayRoom count abi.sizeofOffset

/-- The arrays of a struct one behind the other. -/
theorem Abi.skips (count : Nat) :
    abi.blkSkip count = abi.loopRoom + abi.room (count * abi.sizeofPointer) ∧
      abi.offSkip count = abi.blkSkip count + abi.room (count * abi.sizeofCount) ∧
      abi.extSkip count = abi.offSkip count + abi.room (count * abi.sizeofOffset) ∧
      abi.structRoom count = abi.extSkip count + abi.room (count * abi.sizeofOffset) :=
  ⟨rfl, rfl, rfl, rfl⟩

/-- The room of a tree. -/
def Loop.size : Loop → Nat
  | .leaf shape _ => shape.ownRoom abi
  | .inner shape _ child => shape.ownRoom abi + child.size
  | .struct count _ _ _ children =>
    abi.structRoom count + (ofFn fun index => (children index).size).sum

/-- Where a child of a struct begins. -/
def childOffset {count : Nat} (children : Fin count → Loop) (index : Nat) : Nat :=
  abi.structRoom count + ((ofFn fun index => (children index).size abi).take index).sum

theorem childOffset_add_le
    {count : Nat}
    (children : Fin count → Loop)
    (index : Fin count) :
    childOffset abi children index + (children index).size abi ≤ abi.structRoom count +
        (ofFn fun index => (children index).size abi).sum := by
  have bound : (index : Nat) < (ofFn fun index => (children index).size abi).length := by
    rw [length_ofFn]
    exact index.isLt
  have next := sum_take_succ (ofFn fun index => (children index).size abi) index bound
  rw [List.getElem_ofFn] at next
  have part := sum_take_add_sum_drop (ofFn fun index => (children index).size abi) (index + 1)
  unfold childOffset
  change _ = _ + (children index).size abi at next
  omega

end

open Function

/-- An array of objects of one size. -/
def HoldsArray
    (memory : Memory)
    (place : Int)
    (sizeofObject : Nat)
    (cells : List Cell) : Prop :=
  ∀ index (bound : index < cells.length),
    memory (place + (index * sizeofObject : Nat)) = some cells[index]

/-- A piece of one memory looks like a piece of another one. -/
def Mirrors
    (memory : Memory)
    (src : Int)
    (other : Memory)
    (dest : Int)
    (size : Nat) : Prop :=
  ∀ distance : Nat, distance < size → other (dest + distance) = memory (src + distance)

section

variable {memory other : Memory} {src dest : Int} {size : Nat}

theorem Mirrors.sub
    (mirrors : Mirrors memory src other dest size)
    (skip : Nat)
    {part : Nat}
    (fits : skip + part ≤ size) :
    Mirrors memory (src + skip) other (dest + skip) part := by
  intro distance bound
  have same := mirrors (skip + distance) (by omega)
  rw [add_assoc, add_assoc]
  exact same

theorem Mirrors.start
    (mirrors : Mirrors memory src other dest size)
    {part : Nat}
    (fits : part ≤ size) :
    Mirrors memory src other dest part :=
  fun distance bound => mirrors distance (bound.trans_le fits)

theorem HoldsArray.mirrored
    {sizeofObject : Nat} {cells : List Cell}
    (holds : HoldsArray memory src sizeofObject cells)
    (positive : 0 < sizeofObject)
    (mirrors : Mirrors memory src other dest (cells.length * sizeofObject)) :
    HoldsArray other dest sizeofObject cells := by
  intro index bound
  rw [mirrors _ (Nat.mul_lt_mul_of_pos_right bound positive)]
  exact holds index bound

theorem mirrors_memcpy
    (memory : Memory)
    (dest src : Int)
    (size : Nat) :
    Mirrors memory src (memory.memcpy dest src size) dest size := by
  intro distance bound
  rw [Memory.memcpy, if_pos (by omega)]
  congr 1
  ring

end

variable (abi : Abi)

/-- The parameters of a loop whose arrays and whose child begin at these places. -/
def Shape.params
    (shape : Shape)
    (arrays child : Int) : LoopParams :=
  match shape with
  | .contig count => .contig count child
  | .vector count blocksize stride => .vector count child blocksize stride
  | .blockindexed blocksize offsets =>
    .blockindexed offsets.length child blocksize (arrays + shape.blkRoom abi)
  | .indexed blocks totalBlocks _ =>
    .indexed blocks.length child arrays (arrays + shape.blkRoom abi) totalBlocks

/-- The arrays of a loop. -/
structure Shape.HeldAt
    (shape : Shape)
    (memory : Memory)
    (arrays : Int) : Prop where
  blocksizes : HoldsArray memory arrays abi.sizeofCount
    (shape.blocksizes.map Cell.count)
  offsets : HoldsArray memory (arrays + shape.blkRoom abi) abi.sizeofOffset
    (shape.offsets.map Cell.offset)

/-- A struct and its arrays, with pointers that lag behind. -/
structure StructAt
    (memory : Memory)
    (lag : Int)
    (base : Int)
    {count : Nat}
    (blocksizes : Fin count → Nat)
    (offsets elExtents : Fin count → Int)
    (places : Fin count → Int) : Prop where
  record : memory base = some (.dataloop {
    isFinal := false
    params := .struct count (base + abi.loopRoom - lag)
      (base + abi.blkSkip count - lag) (base + abi.offSkip count - lag)
      (base + abi.extSkip count - lag)
    element := structElement })
  pointers : HoldsArray memory (base + abi.loopRoom) abi.sizeofPointer
    (ofFn fun index => Cell.pointer (places index - lag))
  blocksizes : HoldsArray memory (base + abi.blkSkip count) abi.sizeofCount
    (ofFn fun index => Cell.count (blocksizes index))
  offsets : HoldsArray memory (base + abi.offSkip count) abi.sizeofOffset
    (ofFn fun index => Cell.offset (offsets index))
  elExtents : HoldsArray memory (base + abi.extSkip count) abi.sizeofOffset
    (ofFn fun index => Cell.offset (elExtents index))

/-- The tree lies in one piece, with pointers that lag behind. The pointer of a leaf
leads nowhere. -/
def Packed (memory : Memory) (lag : Int) : Loop → Int → Prop
  | .leaf shape element, base =>
    (∃ child, memory base = some (.dataloop {
      isFinal := true
      params := shape.params abi (base + abi.loopRoom - lag) child
      element := element })) ∧
    shape.HeldAt abi memory (base + abi.loopRoom)
  | .inner shape element child, base =>
    memory base = some (.dataloop {
      isFinal := false
      params := shape.params abi (base + abi.loopRoom - lag)
        (base + shape.ownRoom abi - lag)
      element := element }) ∧
    shape.HeldAt abi memory (base + abi.loopRoom) ∧
    Packed memory lag child (base + shape.ownRoom abi)
  | .struct _ blocksizes offsets elExtents children, base =>
    StructAt abi memory lag base blocksizes offsets elExtents
      (fun index => base + childOffset abi children index) ∧
    ∀ index, Packed memory lag (children index) (base + childOffset abi children index)

section

variable {memory other : Memory} {src dest : Int}

theorem Shape.length_blocksizes_le (shape : Shape) :
    (shape.blocksizes.map Cell.count).length * abi.sizeofCount ≤ shape.blkRoom abi := by
  refine le_trans (Nat.mul_le_mul_right _ ?_) (abi.le_room _)
  cases shape <;> simp [Shape.blocksizes, Shape.blkCt]

theorem Shape.length_offsets_le (shape : Shape) :
    (shape.offsets.map Cell.offset).length * abi.sizeofOffset ≤ shape.offRoom abi := by
  refine le_trans (Nat.mul_le_mul_right _ ?_) (abi.le_room _)
  cases shape <;> simp [Shape.offsets, Shape.offCt]

theorem Shape.HeldAt.mirrored
    {shape : Shape}
    (held : shape.HeldAt abi memory src)
    (mirrors : Mirrors memory src other dest
      (shape.blkRoom abi + shape.offRoom abi)) :
    shape.HeldAt abi other dest := by
  refine ⟨held.blocksizes.mirrored abi.count_pos ?_, held.offsets.mirrored abi.offset_pos ?_⟩
  · have room := shape.length_blocksizes_le abi
    exact mirrors.start (by omega)
  · have room := shape.length_offsets_le abi
    exact mirrors.sub _ (by omega)

theorem record_mirrored
    {record : Cell} {size : Nat}
    (holds : memory src = some record)
    (mirrors : Mirrors memory src other dest size)
    (positive : 0 < size) :
    other dest = some record := by
  have same := mirrors 0 positive
  rw [Nat.cast_zero, add_zero, add_zero] at same
  rw [same, holds]

theorem Abi.loopRoom_pos : 0 < abi.loopRoom :=
  abi.dataloop_pos.trans_le (abi.le_room _)

/-- A pointer that is not moved yet. -/
theorem moved_eq (dest src distance lag : Int) :
    src + distance - lag = dest + distance - (lag + (dest - src)) := by
  ring

variable {lag : Int}

theorem StructAt.mirrored
    {count : Nat} {blocksizes : Fin count → Nat}
    {offsets elExtents : Fin count → Int} {places : Fin count → Int}
    (held : StructAt abi memory lag src blocksizes offsets elExtents places)
    (mirrors : Mirrors memory src other dest (abi.structRoom count)) :
    StructAt abi other (lag + (dest - src)) dest blocksizes offsets elExtents
      fun index => places index + (dest - src) := by
  have loopPos := abi.loopRoom_pos
  have pointerRoom : count * abi.sizeofPointer ≤ _ := abi.le_room _
  have countRoom : count * abi.sizeofCount ≤ _ := abi.le_room _
  have offsetRoom : count * abi.sizeofOffset ≤ _ := abi.le_room _
  have skips := abi.skips count
  refine ⟨?_, ?_, ?_, ?_, ?_⟩
  · rw [record_mirrored held.record mirrors (by omega)]
    rw [moved_eq dest src, moved_eq dest src, moved_eq dest src, moved_eq dest src]
  · have pointers := held.pointers.mirrored abi.pointer_pos
      (mirrors.sub _ (by rw [length_ofFn]; omega))
    have same (index : Fin count) : places index - lag =
        places index + (dest - src) - (lag + (dest - src)) := by ring
    simpa only [same] using pointers
  · exact held.blocksizes.mirrored abi.count_pos (mirrors.sub _ (by rw [length_ofFn]; omega))
  · exact held.offsets.mirrored abi.offset_pos (mirrors.sub _ (by rw [length_ofFn]; omega))
  · exact held.elExtents.mirrored abi.offset_pos (mirrors.sub _ (by rw [length_ofFn]; omega))

variable {loop : Loop}

theorem Packed.mirrored
    (packed : Packed abi memory lag loop src)
    (mirrors : Mirrors memory src other dest (loop.size abi)) :
    Packed abi other (lag + (dest - src)) loop dest := by
  have loopPos := abi.loopRoom_pos
  induction loop generalizing src dest with
  | leaf shape element =>
    obtain ⟨⟨child, record⟩, held⟩ := packed
    have own : shape.ownRoom abi = abi.loopRoom + shape.blkRoom abi + shape.offRoom abi := rfl
    change Mirrors memory src other dest (shape.ownRoom abi) at mirrors
    refine ⟨⟨child, ?_⟩, held.mirrored abi (mirrors.sub _ (by omega))⟩
    rw [record_mirrored record mirrors (by omega), moved_eq dest src]
  | inner shape element child ih =>
    obtain ⟨record, held, below⟩ := packed
    have own : shape.ownRoom abi = abi.loopRoom + shape.blkRoom abi + shape.offRoom abi := rfl
    change Mirrors memory src other dest (shape.ownRoom abi + child.size abi)
      at mirrors
    refine ⟨?_, held.mirrored abi (mirrors.sub _ (by omega)), ?_⟩
    · rw [record_mirrored record mirrors (by omega), moved_eq dest src, moved_eq dest src]
    · have under := ih below (mirrors.sub _ le_rfl)
      rw [add_sub_add_right_eq_sub] at under
      exact under
  | struct count blocksizes offsets elExtents children ih =>
    obtain ⟨held, below⟩ := packed
    have own := held.mirrored abi (mirrors.start (Nat.le_add_right _ _))
    refine ⟨?_, fun index => ?_⟩
    · have same (index : Fin count) :
          src + childOffset abi children index + (dest - src) =
            dest + childOffset abi children index := by ring
      simpa only [same] using own
    · have under := ih index (below index) (mirrors.sub _ (childOffset_add_le abi children index))
      rw [add_sub_add_right_eq_sub] at under
      exact under

/-- A packed tree whose bytes stay as they are. -/
theorem Packed.unchanged
    (packed : Packed abi memory lag loop src)
    (mirrors : Mirrors memory src other src (loop.size abi)) :
    Packed abi other lag loop src := by
  have same := packed.mirrored abi mirrors
  rwa [sub_self, add_zero] at same

end

/-- Only a piece of the memory differs. -/
def Unchanged (memory other : Memory) (base : Int) (size : Nat) : Prop :=
  ∀ place, place < base ∨ base + size ≤ place → other place = memory place

section

variable {memory other : Memory} {base : Int} {size : Nat}

theorem Unchanged.mirrors
    (unchanged : Unchanged memory other base size)
    {place : Int} {part : Nat}
    (apart : place + part ≤ base ∨ base + size ≤ place) :
    Mirrors memory place other place part :=
  fun distance bound => unchanged _ (by omega)

theorem unchanged_write
    (memory : Memory)
    {base place : Int} {size : Nat}
    (above : base ≤ place)
    (below : place < base + size)
    (cell : Cell) :
    Unchanged memory (memory.write place cell) base size := by
  intro other outside
  exact update_of_ne (by omega) _ _

theorem Unchanged.trans
    {last : Memory}
    (first : Unchanged memory other base size)
    (second : Unchanged other last base size) :
    Unchanged memory last base size :=
  fun place outside => (second place outside).trans (first place outside)

theorem Unchanged.widen
    (unchanged : Unchanged memory other base size)
    {start : Int} {length : Nat}
    (before : start ≤ base)
    (behind : base + size ≤ start + length) :
    Unchanged memory other start length :=
  fun place outside => unchanged place (by omega)

theorem Shape.params_moved
    (shape : Shape)
    (arrays child ptrdiff : Int) :
    (shape.params abi arrays child).moved ptrdiff =
      shape.params abi (arrays + ptrdiff) (child + ptrdiff) := by
  cases shape <;> simp only [Shape.params, LoopParams.moved, add_right_comm]

theorem Memory.dataloopAt_of
    {place : Int} {loop : Record}
    (record : memory place = some (.dataloop loop)) :
    memory.dataloopAt place = some loop := by
  rw [Memory.dataloopAt, record]

theorem Loop.exists_succ
    {loop : Loop} {fuel : Nat}
    (deep : loop.depth ≤ fuel) :
    ∃ less, fuel = less + 1 := by
  cases loop <;> exact Nat.exists_eq_succ_of_ne_zero (Nat.ne_zero_of_lt deep)

/-- One step of `Dataloop_update` over a loop with one child. -/
theorem dataloopUpdate_shape
    (fuel : Nat)
    {place arrays child : Int} {isFinal : Bool} {shape : Shape}
    {element : Element}
    (record : memory place = some (.dataloop {
      isFinal := isFinal
      params := shape.params abi arrays child
      element := element }))
    (ptrdiff : Int) :
    let next := memory.write place (.dataloop {
      isFinal := isFinal
      params := shape.params abi (arrays + ptrdiff) (child + ptrdiff)
      element := element })
    dataloopUpdate abi (fuel + 1) memory place ptrdiff = if isFinal then some next
      else dataloopUpdate abi fuel next (child + ptrdiff) ptrdiff := by
  rw [dataloopUpdate, Memory.dataloopAt_of record]
  dsimp only [Option.bind_eq_bind, Option.bind_some]
  rw [shape.params_moved]
  cases shape <;> rfl

/-- The arrays of a loop do not change with the loop itself. -/
theorem Shape.HeldAt.write
    {shape : Shape}
    (held : shape.HeldAt abi memory (base + abi.loopRoom))
    (cell : Cell) :
    shape.HeldAt abi (memory.write base cell) (base + abi.loopRoom) := by
  have loopPos := abi.loopRoom_pos
  have unchanged := unchanged_write memory (le_refl base)
    (show base < base + (1 : Nat) by omega) cell
  exact held.mirrored abi (unchanged.mirrors (.inr (by omega)))

variable {loop : Loop} {lag : Int}

/-- `Dataloop_update` moves the pointers of a tree without structs. -/
theorem dataloopUpdate_packed
    (structFree : loop.StructFree)
    {fuel : Nat}
    (deep : loop.depth ≤ fuel)
    (packed : Packed abi memory lag loop base) :
    ∃ other, dataloopUpdate abi fuel memory base lag = some other ∧
      Packed abi other 0 loop base ∧ Unchanged memory other base (loop.size abi) := by
  have loopPos := abi.loopRoom_pos
  induction loop generalizing memory base fuel with
  | struct => exact structFree.elim
  | leaf shape element =>
    obtain ⟨fuel, rfl⟩ := Loop.exists_succ deep
    obtain ⟨⟨child, record⟩, held⟩ := packed
    have own : (Loop.leaf shape element).size abi =
        abi.loopRoom + shape.blkRoom abi + shape.offRoom abi := rfl
    refine ⟨_, (dataloopUpdate_shape abi fuel record lag).trans (if_pos rfl),
      ⟨⟨child + lag, ?_⟩, held.write abi _⟩, unchanged_write memory le_rfl (by omega) _⟩
    rw [sub_add_cancel, sub_zero]
    exact update_self _ _ _
  | inner shape element child ih =>
    obtain ⟨fuel, rfl⟩ := Loop.exists_succ deep
    obtain ⟨record, held, below⟩ := packed
    have own : shape.ownRoom abi = abi.loopRoom + shape.blkRoom abi + shape.offRoom abi := rfl
    have step := dataloopUpdate_shape abi fuel record lag
    simp only [Bool.false_eq_true, if_false, sub_add_cancel] at step
    set next := memory.write base (.dataloop {
      isFinal := false
      params := shape.params abi (base + abi.loopRoom) (base + shape.ownRoom abi)
      element := element }) with next_eq
    have written : Unchanged memory next base (shape.ownRoom abi) :=
      unchanged_write memory le_rfl (by omega) _
    have nextBelow := below.unchanged abi (written.mirrors (.inr le_rfl))
    obtain ⟨other, updated, moved, unchanged⟩ :=
      ih structFree (Nat.le_of_succ_le_succ deep) nextBelow
    refine ⟨other, step.trans updated, ⟨?_, ?_, moved⟩, ?_⟩
    · rw [unchanged base (.inl (by omega)), sub_zero, sub_zero]
      exact update_self _ _ _
    · exact (held.write abi _).mirrored abi (unchanged.mirrors (.inl (by omega)))
    · have size_eq : (Loop.inner shape element child).size abi =
          shape.ownRoom abi + child.size abi := rfl
      exact (written.widen le_rfl (by omega)).trans (unchanged.widen (by omega) (by omega))

/-- `Dataloop_copy` copies a tree without structs. -/
theorem dataloopCopy_packed
    (structFree : loop.StructFree)
    {fuel : Nat}
    (deep : loop.depth ≤ fuel)
    {src : Int}
    (packed : Packed abi memory 0 loop src)
    (dest : Int) :
    ∃ other, dataloopCopy abi fuel memory dest src (loop.size abi) = some other ∧
      Packed abi other 0 loop dest ∧ Unchanged memory other dest (loop.size abi) := by
  have copied := packed.mirrored abi (mirrors_memcpy memory dest src (loop.size abi))
  rw [zero_add] at copied
  obtain ⟨other, updated, moved, unchanged⟩ := dataloopUpdate_packed abi structFree deep copied
  refine ⟨other, updated, moved, fun place outside => ?_⟩
  rw [unchanged place outside, Memory.memcpy, if_neg (by omega)]

end

end Mpich.Dataloop
