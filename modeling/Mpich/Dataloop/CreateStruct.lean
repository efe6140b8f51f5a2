import Mathlib.Data.List.OfFn
import Mpich.Dataloop.Create

/-!
# Creating packed structs

`Dataloop_create_struct` copies the trees of its blocks one behind the other into
the room that `Dataloop_struct_alloc` has left for them, and fills in the four
arrays as it goes along.
-/

namespace Mpich.Dataloop

open List Function Option

open Datatypes (toInt)

/-- A block of a struct with the tree at its source. -/
structure Part where
  loop : Loop
  source : Int
  isBasic : Bool
  blocksize : Nat
  offset : Int
  elExtent : Int

variable (abi : Abi)

def Part.member (part : Part) : Member where
  source := part.source
  sourceSz := part.loop.size abi
  isBasic := part.isBasic
  blocksize := part.blocksize
  offset := part.offset
  elExtent := part.elExtent

/-- The room of the trees of the blocks. -/
def partsRoom (parts : List Part) : Nat :=
  (parts.map fun part => part.loop.size abi).sum

@[simp] theorem partsRoom_nil : partsRoom abi [] = 0 := rfl

@[simp] theorem partsRoom_cons (part : Part) (parts : List Part) :
    partsRoom abi (part :: parts) = part.loop.size abi + partsRoom abi parts := rfl

/-- The arrays of a struct. -/
structure Arrays where
  loops : Int
  blocksizes : Int
  offsets : Int
  elExtents : Int

/-- Where the entries of a block are. -/
def Arrays.entries (arrays : Arrays) (index : Nat) : List Int :=
  [slot abi arrays.loops index, arrays.blocksizes + index * abi.sizeofCount,
    arrays.elExtents + index * abi.sizeofOffset, arrays.offsets + index * abi.sizeofOffset]

/-- The arrays share no entry, and lie in front of the place where the trees
begin. -/
structure Arrays.Separate
    (arrays : Arrays)
    (first last : Int)
    (count : Nat) : Prop where
  nodup : ∀ index < count, (arrays.entries abi index).Nodup
  apart : ∀ index < count, ∀ other < count, index ≠ other →
    ∀ place ∈ arrays.entries abi index, place ∉ arrays.entries abi other
  inside : ∀ index < count, ∀ place ∈ arrays.entries abi index, first ≤ place ∧ place < last

/-- The entries of a block whose tree begins here. -/
structure EntriesAt
    (memory : Memory)
    (arrays : Arrays)
    (index : Nat)
    (part : Part)
    (place : Int) : Prop where
  pointer : memory (slot abi arrays.loops index) = some (.pointer place)
  blocksize : memory (arrays.blocksizes + index * abi.sizeofCount) = some (.count part.blocksize)
  elExtent : memory (arrays.elExtents + index * abi.sizeofOffset) = some (.offset part.elExtent)
  offset : memory (arrays.offsets + index * abi.sizeofOffset) = some (.offset part.offset)

variable {arrays : Arrays}

variable {index : Nat} {part : Part}

theorem EntriesAt.unchanged
    {memory other : Memory} {place : Int}
    (entries : EntriesAt abi memory arrays index part place)
    (same : ∀ entry ∈ arrays.entries abi index, other entry = memory entry) :
    EntriesAt abi other arrays index part place := by
  simp only [Arrays.entries, forall_mem_cons, not_mem_nil, IsEmpty.forall_iff,
    implies_true, and_true] at same
  obtain ⟨pointer, blocksize, elExtent, offset⟩ := same
  exact ⟨pointer.trans entries.pointer, blocksize.trans entries.blocksize,
    elExtent.trans entries.elExtent, offset.trans entries.offset⟩

/-- The blocks from this index on, with their trees from this place on. -/
def PlacedFrom
    (memory : Memory)
    (arrays : Arrays) : Nat → Int → List Part → Prop
  | _, _, [] => True
  | index, curpos, part :: rest =>
    EntriesAt abi memory arrays index part curpos ∧ Packed abi memory 0 part.loop curpos ∧
      PlacedFrom memory arrays (index + 1) (curpos + part.loop.size abi) rest

/-- A tree without structs that can be copied to the block. -/
structure Part.Copyable
    (part : Part)
    (fuel : Nat)
    (memory : Memory)
    (base : Int)
    (size : Nat) : Prop where
  structFree : part.loop.StructFree
  deep : part.loop.depth ≤ fuel
  packed : Packed abi memory 0 part.loop part.source
  apart : Apart base size part.source (part.loop.size abi)

variable {fuel : Nat}

theorem Part.Copyable.unchanged
    {memory other : Memory} {base : Int} {size : Nat}
    (copyable : part.Copyable abi fuel memory base size)
    (same : Unchanged memory other base size) :
    part.Copyable abi fuel other base size := by
  have apart := copyable.apart
  unfold Apart at apart
  have packed := copyable.packed.unchanged abi (same.mirrors
    (show part.source + part.loop.size abi ≤ base ∨ _ by omega))
  exact ⟨copyable.structFree, copyable.deep, packed, copyable.apart⟩

/-- The memory after the entries of a block have been written. -/
def writeEntries
    (memory : Memory)
    (arrays : Arrays)
    (index : Nat)
    (curpos : Int)
    (part : Part) : Memory :=
  (((memory.write (slot abi arrays.loops index) (.pointer curpos)).write
    (arrays.blocksizes + index * abi.sizeofCount) (.count part.blocksize)).write
    (arrays.elExtents + index * abi.sizeofOffset) (.offset part.elExtent)).write
    (arrays.offsets + index * abi.sizeofOffset) (.offset part.offset)

theorem writeEntries_of_not_mem
    {memory : Memory} {curpos : Int} {place : Int}
    (outside : place ∉ arrays.entries abi index) :
    writeEntries abi memory arrays index curpos part place = memory place := by
  simp only [Arrays.entries, mem_cons, not_mem_nil, or_false, not_or]
    at outside
  obtain ⟨notPointer, notBlocksize, notExtent, notOffset⟩ := outside
  rw [writeEntries, Memory.write, update_of_ne notOffset, Memory.write,
    update_of_ne notExtent, Memory.write, update_of_ne notBlocksize,
    Memory.write, update_of_ne notPointer]

theorem entriesAt_writeEntries
    {memory : Memory}
    (nodup : (arrays.entries abi index).Nodup)
    (curpos : Int)
    (part : Part) :
    EntriesAt abi (writeEntries abi memory arrays index curpos part) arrays index part curpos := by
  simp only [Arrays.entries, nodup_cons, mem_cons, not_mem_nil, or_false,
    not_or, nodup_nil, and_true, not_false_eq_true] at nodup
  obtain ⟨⟨pointerBlk, pointerExt, pointerOff⟩, ⟨blkExt, blkOff⟩, extOff⟩ := nodup
  unfold writeEntries Memory.write
  refine ⟨?_, ?_, ?_, ?_⟩
  · rw [update_of_ne pointerOff, update_of_ne pointerExt, update_of_ne pointerBlk, update_self]
  · rw [update_of_ne blkOff, update_of_ne blkExt, update_self]
  · rw [update_of_ne extOff, update_self]
  · rw [update_self]

variable {parts : List Part}

/-- The loop over the blocks places them all. -/
theorem placeMembers_placed
    {base first : Int} {size count : Nat}
    (separate : arrays.Separate abi base first count)
    (counted : index + parts.length ≤ count)
    {curpos : Int}
    (behind : first ≤ curpos)
    (fits : curpos + partsRoom abi parts ≤ base + size)
    {memory : Memory}
    (copyable : ∀ part ∈ parts, part.Copyable abi fuel memory base size) :
    ∃ other, placeMembers abi fuel arrays.loops arrays.blocksizes arrays.offsets
        arrays.elExtents index curpos memory (parts.map (Part.member abi)) =
        some other ∧
      PlacedFrom abi other arrays index curpos parts ∧
      ∀ place, (place < curpos ∨ curpos + partsRoom abi parts ≤ place) →
        (∀ later, index ≤ later → later < index + parts.length → place ∉ arrays.entries abi later) →
        other place = memory place := by
  induction parts generalizing index curpos memory with
  | nil => exact ⟨memory, rfl, trivial, fun _ _ _ => rfl⟩
  | cons part rest ih =>
    rw [forall_mem_cons] at copyable
    rw [partsRoom_cons] at fits
    rw [length_cons] at counted
    obtain ⟨here, others⟩ := copyable
    obtain ⟨copied, copy_eq, packed, copiedSame⟩ :=
      dataloopCopy_packed abi here.structFree here.deep here.packed curpos
    have indexBound : index < count := by omega
    have inBlock : base ≤ first := by
      have pointer := separate.inside index indexBound (slot abi arrays.loops index) mem_cons_self
      omega
    set written := writeEntries abi copied arrays index curpos part with written_eq
    have writtenSame (place : Int) (outside : place < base ∨ first ≤ place) :
        written place = copied place := by
      refine writeEntries_of_not_mem abi fun member => ?_
      have inside := separate.inside index indexBound place member
      omega
    have writtenPacked := packed.unchanged abi (fun distance _ =>
      writtenSame (curpos + distance) (.inr (by omega)))
    have blockSame : Unchanged memory written base size := fun place outside =>
      (writtenSame place (by omega)).trans (copiedSame place (by omega))
    obtain ⟨other, placed_eq, placed, otherSame⟩ :=
      @ih (index + 1) (by omega) (curpos + part.loop.size abi)
        (by omega) (by push_cast at fits; omega) written
        (fun later member => (others later member).unchanged abi blockSame)
    have entriesSame : ∀ entry ∈ arrays.entries abi index, other entry = written entry := by
      intro entry member
      have inside := separate.inside index indexBound entry member
      refine otherSame entry (.inl (by omega)) fun later after below => ?_
      exact separate.apart index indexBound later (by omega) (by omega) entry member
    have notEntry (place : Int) (above : first ≤ place) (later : Nat)
        (bound : later < count) : place ∉ arrays.entries abi later := by
      intro member
      have inside := separate.inside later bound place member
      omega
    have otherPacked := writtenPacked.unchanged abi (fun distance bound =>
      otherSame (curpos + distance) (.inl (by omega))
        fun later _ below => notEntry _ (by omega) later (by omega))
    refine ⟨other, ?_, ⟨?_, otherPacked, placed⟩, ?_⟩
    · rw [map_cons, placeMembers]
      simp only [Part.member, copy_eq, bind_eq_bind, bind_some]
      exact placed_eq
    · exact (entriesAt_writeEntries abi (separate.nodup index indexBound) curpos
        part).unchanged abi entriesSame
    · intro place outside notMember
      rw [partsRoom_cons] at outside
      rw [otherSame place (by omega) fun later after below =>
          notMember later (by omega) (by rw [length_cons]; omega),
        written_eq, writeEntries_of_not_mem abi
          (notMember index le_rfl (by rw [length_cons]; omega)),
        copiedSame place (by omega)]

/-- The tree of a struct. -/
def partsLoop (parts : List Part) : Loop :=
  .struct parts.length (fun index => parts[index].blocksize)
    (fun index => parts[index].offset) (fun index => parts[index].elExtent)
    fun index => parts[index].loop

theorem sizes_partsLoop (parts : List Part) :
    (ofFn fun index : Fin parts.length => parts[index].loop.size abi) =
      parts.map fun part => part.loop.size abi :=
  ofFn_getElem_eq_map parts fun part => part.loop.size abi

theorem size_partsLoop (parts : List Part) :
    (partsLoop parts).size abi = abi.structRoom parts.length + partsRoom abi parts := by
  rw [partsLoop, Loop.size, sizes_partsLoop, partsRoom]

theorem PlacedFrom.get
    {memory : Memory} {first : Nat} {curpos : Int}
    (placed : PlacedFrom abi memory arrays first curpos parts)
    (index : Nat)
    (bound : index < parts.length) :
    EntriesAt abi memory arrays (first + index) parts[index]
        (curpos + (partsRoom abi (parts.take index) : Int)) ∧
      Packed abi memory 0 parts[index].loop
        (curpos + (partsRoom abi (parts.take index) : Int)) := by
  induction parts generalizing first curpos index with
  | nil => exact absurd bound (Nat.not_lt_zero _)
  | cons part rest ih =>
    obtain ⟨entries, packed, others⟩ := placed
    cases index with
    | zero =>
      rw [take_zero, partsRoom_nil, Nat.cast_zero, add_zero, add_zero, getElem_cons_zero]
      exact ⟨entries, packed⟩
    | succ index =>
      have later := ih others index (Nat.lt_of_succ_lt_succ bound)
      rw [take_succ_cons, partsRoom_cons, Nat.cast_add,
        ← add_assoc curpos, getElem_cons_succ, ← Nat.succ_add_eq_add_succ]
      exact later

/-- The arrays of a new struct. -/
def newArrays (newLoop : Int) (count : Nat) : Arrays where
  loops := newLoop + abi.loopRoom
  blocksizes := newLoop + abi.blkSkip count
  offsets := newLoop + abi.offSkip count
  elExtents := newLoop + abi.extSkip count

theorem separate_newArrays
    (newLoop : Int)
    (count : Nat) :
    (newArrays abi newLoop count).Separate abi (newLoop + abi.loopRoom)
      (newLoop + abi.structRoom count) count := by
  have inRoom (index : Nat) (bound : index < count) (size : Nat) (positive : 0 < size) :
      0 ≤ (index : Int) * size ∧ (index : Int) * size < abi.room (count * size) := by
    have below := (Nat.mul_lt_mul_of_pos_right bound positive).trans_le (abi.le_room (count * size))
    exact ⟨by exact_mod_cast Nat.zero_le _, by exact_mod_cast below⟩
  have different (index other : Nat) (size : Nat) (positive : 0 < size)
      (distinct : index ≠ other) : (index : Int) * size ≠ other * size := by
    intro same
    exact distinct (Nat.eq_of_mul_eq_mul_right positive (by exact_mod_cast same))
  have skips := abi.skips count
  refine ⟨fun index bound => ?_, fun index bound other otherBound distinct => ?_,
    fun index bound => ?_⟩
  all_goals
    have pointers := inRoom index bound _ abi.pointer_pos
    have counts := inRoom index bound _ abi.count_pos
    have offsets := inRoom index bound _ abi.offset_pos
    simp only [Arrays.entries, newArrays, slot, nodup_cons, mem_cons,
      not_mem_nil, or_false, not_or, nodup_nil, and_true,
      not_false_eq_true, forall_eq_or_imp, forall_eq]
  · omega
  · have otherPointers := inRoom other otherBound _ abi.pointer_pos
    have otherCounts := inRoom other otherBound _ abi.count_pos
    have otherOffsets := inRoom other otherBound _ abi.offset_pos
    have notPointer := different index other _ abi.pointer_pos distinct
    have notCount := different index other _ abi.count_pos distinct
    have notOffset := different index other _ abi.offset_pos distinct
    omega
  · omega

section

variable {count : Nat} (fits : abi.structRoom count < 2 ^ 31)

include fits

theorem structSizes_eq :
    ptrSz abi .struct count = abi.room (count * abi.sizeofPointer) ∧
      blkSz abi .struct count = abi.room (count * abi.sizeofCount) ∧
      offSz abi .struct count = abi.room (count * abi.sizeofOffset) ∧
      extentSz abi .struct count = abi.room (count * abi.sizeofOffset) := by
  have skips := abi.skips count
  refine ⟨?_, ?_, ?_, ?_⟩
  · rw [ptrSz, if_pos rfl]
    exact arraySz_eq abi (show abi.room (count * abi.sizeofPointer) < 2 ^ 31 by omega)
  · rw [blkSz, if_pos (.inl rfl)]
    exact arraySz_eq abi (show abi.room (count * abi.sizeofCount) < 2 ^ 31 by omega)
  · rw [offSz, if_pos (.inl rfl)]
    exact arraySz_eq abi (show abi.room (count * abi.sizeofOffset) < 2 ^ 31 by omega)
  · rw [extentSz, if_pos rfl]
    exact arraySz_eq abi (show abi.room (count * abi.sizeofOffset) < 2 ^ 31 by omega)

theorem ownSz_struct : ownSz abi .struct count = abi.structRoom count := by
  obtain ⟨ptr_eq, blk_eq, off_eq, extent_eq⟩ := structSizes_eq abi fits
  rw [ownSz, loopSz_eq, ptr_eq, blk_eq, off_eq, extent_eq]
  unfold Abi.structRoom Abi.extSkip Abi.offSkip Abi.blkSkip Abi.arrayRoom
  push_cast
  ring

theorem newParams_struct (newLoop : Int) :
    newParams abi .struct count newLoop 0 =
      .struct 0 (newLoop + abi.loopRoom) (newLoop + abi.blkSkip count)
        (newLoop + abi.offSkip count) (newLoop + abi.extSkip count) := by
  obtain ⟨ptr_eq, blk_eq, off_eq, -⟩ := structSizes_eq abi fits
  simp only [newParams, loopSz_eq, ptr_eq, blk_eq, off_eq]
  unfold Abi.extSkip Abi.offSkip Abi.blkSkip Abi.arrayRoom
  push_cast
  simp only [add_assoc]

end

/-- The room of the trees is what the allocation is told. -/
theorem partsRoom_eq
    (basics : ∀ part ∈ parts, part.isBasic = true → part.loop.size abi = abi.loopRoom) :
    ((((parts.map (Part.member abi)).filter Member.isBasic).length : Int) *
          abi.loopRoom +
        (((parts.map (Part.member abi)).filter fun member =>
          !member.isBasic).map Member.sourceSz).sum) =
      partsRoom abi parts := by
  induction parts with
  | nil => simp
  | cons part rest ih =>
    rw [forall_mem_cons] at basics
    have others := ih basics.2
    rw [map_cons, filter_cons, filter_cons, partsRoom_cons, Nat.cast_add, ← others]
    have isBasic_eq : (part.member abi).isBasic = part.isBasic := rfl
    rw [isBasic_eq]
    cases isBasic : part.isBasic with
    | true =>
      rw [if_pos rfl, if_neg (by decide), length_cons, basics.1 isBasic]
      push_cast
      ring
    | false =>
      rw [if_neg (by decide), Bool.not_false, if_pos rfl, map_cons, sum_cons]
      change _ + ((part.loop.size abi : Int) + _) = _
      ring

theorem childOffset_partsLoop
    (parts : List Part)
    (index : Nat) :
    childOffset abi (fun index : Fin parts.length => parts[index].loop) index =
      abi.structRoom parts.length + partsRoom abi (parts.take index) := by
  rw [childOffset, sizes_partsLoop, ← map_take, partsRoom]

/-- The blocks that have been placed are a struct. -/
theorem packed_of_placed
    {memory : Memory} {newLoop : Int}
    (record : memory newLoop = some (.dataloop {
      isFinal := false
      params := .struct parts.length (newLoop + abi.loopRoom)
        (newLoop + abi.blkSkip parts.length) (newLoop + abi.offSkip parts.length)
        (newLoop + abi.extSkip parts.length)
      element := structElement }))
    (placed : PlacedFrom abi memory (newArrays abi newLoop parts.length) 0
      (newLoop + abi.structRoom parts.length) parts) :
    Packed abi memory 0 (partsLoop parts) newLoop := by
  have place_eq (index : Nat) :
      newLoop + (abi.structRoom parts.length : Int) + partsRoom abi (parts.take index) =
        newLoop + (childOffset abi
          (fun index : Fin parts.length => parts[index].loop) index : Int) := by
    rw [childOffset_partsLoop, add_assoc, Nat.cast_add]
  have entries (index : Nat) (bound : index < parts.length) := placed.get abi index bound
  simp only [place_eq, zero_add] at entries
  refine ⟨⟨?_, ?_, ?_, ?_, ?_⟩, fun index => (entries index index.isLt).2⟩
  · simp only [sub_zero]
    exact record
  · intro index bound
    rw [length_ofFn] at bound
    rw [List.getElem_ofFn, Nat.cast_mul, sub_zero]
    exact (entries index bound).1.pointer
  · intro index bound
    rw [length_ofFn] at bound
    rw [List.getElem_ofFn, Nat.cast_mul]
    exact (entries index bound).1.blocksize
  · intro index bound
    rw [length_ofFn] at bound
    rw [List.getElem_ofFn, Nat.cast_mul]
    exact (entries index bound).1.offset
  · intro index bound
    rw [length_ofFn] at bound
    rw [List.getElem_ofFn, Nat.cast_mul]
    exact (entries index bound).1.elExtent

/-- The size that a new struct gets. -/
theorem structSz_eq
    (fits : (partsLoop parts).size abi < 2 ^ 31)
    (basics : ∀ part ∈ parts, part.isBasic = true → part.loop.size abi = abi.loopRoom) :
    toInt (ownSz abi .struct parts.length +
      (((parts.map (Part.member abi)).filter Member.isBasic).length : Int) * loopSz abi +
      (((parts.map (Part.member abi)).filter fun member =>
        !member.isBasic).map Member.sourceSz).sum) =
      ((partsLoop parts).size abi : Int) := by
  rw [size_partsLoop] at fits ⊢
  have ownFits : abi.structRoom parts.length < 2 ^ 31 := by omega
  rw [ownSz_struct abi ownFits, loopSz_eq, add_assoc, partsRoom_eq abi basics,
    ← Nat.cast_add, toInt_natCast fits]

/-- A struct over old trees without structs. -/
theorem createStruct_packed
    {memory : Memory} {newLoop : Int}
    (fits : (partsLoop parts).size abi < 2 ^ 31)
    (basics : ∀ part ∈ parts, part.isBasic = true → part.loop.size abi = abi.loopRoom)
    (copyable : ∀ part ∈ parts,
      part.Copyable abi fuel memory newLoop ((partsLoop parts).size abi)) :
    ∃ other, createStruct abi fuel memory (parts.map (Part.member abi)) newLoop =
        some (other, ((partsLoop parts).size abi : Int)) ∧
      Packed abi other 0 (partsLoop parts) newLoop ∧
      Unchanged memory other newLoop ((partsLoop parts).size abi) := by
  have size_eq := structSz_eq abi fits basics
  rw [size_partsLoop] at fits copyable size_eq ⊢
  have ownFits : abi.structRoom parts.length < 2 ^ 31 := by omega
  have loopPos := abi.loopRoom_pos
  have loopRoom_le : abi.loopRoom ≤ abi.structRoom parts.length := by
    unfold Abi.structRoom Abi.extSkip Abi.offSkip Abi.blkSkip
    omega
  set recorded := memory.write newLoop (.dataloop {
    isFinal := false
    params := .struct parts.length (newLoop + abi.loopRoom)
      (newLoop + abi.blkSkip parts.length) (newLoop + abi.offSkip parts.length)
      (newLoop + abi.extSkip parts.length)
    element := structElement }) with recorded_eq
  have recordedSame : Unchanged memory recorded newLoop
      (abi.structRoom parts.length + partsRoom abi parts) :=
    unchanged_write memory le_rfl (by push_cast; omega) _
  have separate := separate_newArrays abi newLoop parts.length
  have separateBase : (newArrays abi newLoop parts.length).Separate abi newLoop
      (newLoop + abi.structRoom parts.length) parts.length :=
    ⟨separate.nodup, separate.apart, fun index bound place member => by
      have inside := separate.inside index bound place member
      omega⟩
  obtain ⟨other, placed_eq, placed, otherSame⟩ :=
    placeMembers_placed abi separateBase (zero_add parts.length).le le_rfl
      (by push_cast; omega)
      (fun part member => (copyable part member).unchanged abi recordedSame)
  refine ⟨other, ?_, ?_, ?_⟩
  · simp only [createStruct, dataloopStructAlloc, length_map, dataloopAt_write,
      newParams_struct abi ownFits, ownSz_struct abi ownFits, bind_eq_bind, bind_some, write_write]
    rw [ownSz_struct abi ownFits] at size_eq
    rw [← recorded_eq, size_eq]
    simp only [newArrays] at placed_eq
    rw [placed_eq]
    rfl
  · refine packed_of_placed abi ?_ placed
    rw [otherSame newLoop (.inl (by omega)), recorded_eq]
    · exact update_self _ _ _
    · intro later _ below member
      have inside := separate.inside later (by omega) newLoop member
      omega
  · refine recordedSame.trans fun place outside => ?_
    refine otherSame place (by omega) fun later _ below member => ?_
    have inside := separate.inside later (by omega) place member
    omega

end Mpich.Dataloop
