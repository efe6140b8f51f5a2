import Mpich.Foundation.LinkedQueue
import Mpich.Foundation.Masks
import Mpich.Foundation.TransitionSystem

/-!
# Object handles

The allocator of `handlemem.c` for the objects of one class, and the macros of
`mpihandlemem.h` that pack and unpack a handle. A handle is given by its bit
pattern as an unsigned number.

A pointer to an object is the place its block starts at and the offset in it.
The static block of a class is one place, and every answer of `MPIU_Calloc` is
another. What `MPIU_Calloc` answers is a parameter of an allocation.
-/

namespace Mpich.Util.Handle

open Function

/-- `HANDLE_MPI_KIND_SHIFT`. -/
def handleMpiKindShift : Nat := 26

/-- `HANDLE_KIND_SHIFT`. -/
def handleKindShift : Nat := 30

/-- `HANDLE_INDIRECT_SHIFT`. -/
def handleIndirectShift : Nat := 16

/-- `HANDLE_KIND_DIRECT`. -/
def handleKindDirect : Nat := 2

/-- `HANDLE_KIND_INDIRECT`. -/
def handleKindIndirect : Nat := 3

/-- `HANDLE_BLOCK_SIZE`. -/
def handleBlockSize : Nat := 256

/-- `HANDLE_BLOCK_INDEX_SIZE`. -/
def handleBlockIndexSize : Nat := 1024

/-- The handle that `MPIU_Handle_direct_init` gives to an object. -/
def directHandle (handleType index : Nat) : Nat :=
  (handleKindDirect <<< handleKindShift |||
    handleType <<< handleMpiKindShift ||| index) % 4294967296

/-- The handle that `MPIU_Handle_indirect_init` gives to an object. -/
def indirectHandle (handleType block index : Nat) : Nat :=
  (handleKindIndirect <<< handleKindShift |||
    handleType <<< handleMpiKindShift ||| block <<< handleIndirectShift ||| index) % 4294967296

/-- `HANDLE_GET_KIND`. -/
def handleGetKind (handle : Nat) : Nat :=
  (handle &&& 0xc0000000) >>> handleKindShift

/-- `HANDLE_GET_MPI_KIND`. -/
def handleGetMpiKind (handle : Nat) : Nat :=
  (handle &&& 0x3c000000) >>> handleMpiKindShift

/-- `HANDLE_BLOCK`. -/
def handleBlock (handle : Nat) : Nat :=
  (handle &&& 0x03ff0000) >>> handleIndirectShift

/-- `HANDLE_BLOCK_INDEX`. -/
def handleBlockIndex (handle : Nat) : Nat :=
  handle &&& 0x0000ffff

/-- `HANDLE_INDEX`. -/
def handleIndex (handle : Nat) : Nat :=
  handle &&& 0x03ffffff

/-- Where a block of objects starts: the static block of the class, or an
address that `MPIU_Calloc` answered. -/
inductive Place where
  | direct
  | heap (address : Nat)
  deriving DecidableEq, Repr

/-- A `char *` into a block of objects. -/
structure Pointer where
  place : Place
  offset : Nat
  deriving DecidableEq, Repr

/-- `ptr + obj_size` -/
def Pointer.plus (ptr : Pointer) (size : Nat) : Pointer :=
  { ptr with offset := ptr.offset + size }

/-- The members `kind`, `size` and `direct_size` of an `MPIU_Object_alloc_t`,
which never change. A kind has 4 bits, and a class has a static block of at
least one object that the index of a direct handle can number. -/
structure ObjectClass where
  kind : Nat
  size : Nat
  directSize : Nat
  kind_lt : kind < 16
  size_pos : 0 < size
  directSize_pos : 0 < directSize
  directSize_le : directSize ≤ 67108864

/-- The other members of an `MPIU_Object_alloc_t`, and the words of the objects
that the allocator reads and writes. -/
structure ObjectAlloc where
  avail : Option Pointer
  initialized : Bool
  /-- The table of the indirect blocks, once it has been created. -/
  indirect : Option (Nat → Option Nat)
  indirectSize : Nat
  handle : Pointer → Nat
  next : Pointer → Option Pointer

/-- What `MPIU_Calloc` answers in one allocation: whether there is memory for
the table, and the address of the block. -/
structure Calloc where
  table : Bool
  block : Option Nat

namespace ObjectAlloc

variable (cls : ObjectClass)

/-- The loop of both initialization routines: `remaining` objects from `ptr`
on, the first of them with number `i`. -/
def initLoop (handleOf : Nat → Nat) :
    Nat → Nat → Pointer → ObjectAlloc → ObjectAlloc
  | 0, _, _, state => state
  | remaining + 1, i, ptr, state =>
    initLoop handleOf remaining (i + 1) (ptr.plus cls.size)
      { state with
        next := update state.next ptr (some (ptr.plus cls.size))
        handle := update state.handle ptr (handleOf i) }

/-- Initialize the objects of a block and end their list at the last one,
`hptr`. -/
def initBlock
    (handleOf : Nat → Nat)
    (place : Place)
    (count : Nat)
    (state : ObjectAlloc) : ObjectAlloc :=
  let filled := initLoop cls handleOf count 0 ⟨place, 0⟩ state
  let hptr : Pointer := ⟨place, (count - 1) * cls.size⟩
  { filled with next := update filled.next hptr none }

/-- `MPIU_Handle_direct_init`, which returns the start of the static block. -/
def directInit (state : ObjectAlloc) : Option Pointer × ObjectAlloc :=
  (some ⟨.direct, 0⟩, initBlock cls (directHandle cls.kind) .direct cls.directSize state)

/-- The part of `MPIU_Handle_indirect_init` behind the creation of the
table. -/
def addBlock
    (calloc : Calloc)
    (table : Nat → Option Nat)
    (state : ObjectAlloc) : Option Pointer × ObjectAlloc :=
  if handleBlockIndexSize - 1 ≤ state.indirectSize then (none, state)
  else
    match calloc.block with
    | none => (none, state)
    | some address =>
      let filled :=
        initBlock cls (indirectHandle cls.kind state.indirectSize)
          (.heap address) handleBlockSize state
      (some ⟨.heap address, 0⟩,
        { filled with
          indirect := some
            (update table state.indirectSize (some address))
          indirectSize := state.indirectSize + 1 })

/-- `MPIU_Handle_indirect_init`. -/
def indirectInit
    (calloc : Calloc)
    (state : ObjectAlloc) : Option Pointer × ObjectAlloc :=
  match state.indirect with
  | some table => addBlock cls calloc table state
  | none =>
    if calloc.table then
      addBlock cls calloc (fun _ => none)
        { state with
          indirect := some fun _ => none
          indirectSize := 0 }
    else (none, state)

/-- `if (ptr) objmem->avail = ptr->next` -/
def setAvail
    (answer : Option Pointer × ObjectAlloc) : Option Pointer × ObjectAlloc :=
  match answer with
  | (none, state) => (none, state)
  | (some ptr, state) => (some ptr, { state with avail := state.next ptr })

/-- `MPIU_Handle_obj_alloc`. -/
def objAlloc
    (calloc : Calloc)
    (state : ObjectAlloc) : Option Pointer × ObjectAlloc :=
  match state.avail with
  | some ptr => (some ptr, { state with avail := state.next ptr })
  | none =>
    if state.initialized then setAvail (indirectInit cls calloc state)
    else setAvail (directInit cls { state with initialized := true })

/-- `MPIU_Handle_obj_free`. -/
def objFree (obj : Pointer) (state : ObjectAlloc) : ObjectAlloc :=
  { state with
    next := update state.next obj state.avail
    avail := some obj }

/-- `MPIU_Handle_get_ptr_indirect`. -/
def getPtrIndirect
    (handle : Nat)
    (state : ObjectAlloc) : Option Pointer :=
  if handleGetMpiKind handle ≠ cls.kind then none
  else if state.indirectSize ≤ handleBlock handle then none
  else
    match state.indirect with
    | none => none
    | some table =>
      match table (handleBlock handle) with
      | none => none
      | some address => some ⟨.heap address, handleBlockIndex handle * cls.size⟩

/-- `MPID_Get_ptr`. -/
def getPtr
    (handle : Nat)
    (state : ObjectAlloc) : Option Pointer :=
  if handleGetKind handle = handleKindDirect then
    some ⟨.direct, handleIndex handle * cls.size⟩
  else if handleGetKind handle = handleKindIndirect then
    getPtrIndirect cls handle state
  else none

end ObjectAlloc

/-- The allocator of a class, and the objects that have been allocated and not
freed. -/
structure Objects where
  alloc : ObjectAlloc
  live : List Pointer

/-- What the rest of the program does with the objects of a class. -/
inductive Action where
  /-- Allocate an object. -/
  | alloc (calloc : Calloc)
  /-- Free an object. -/
  | free (obj : Pointer)
  /-- Write to an object where a free one keeps its `next` pointer. -/
  | use (obj : Pointer) (word : Option Pointer)

/-- An answer of `MPIU_Calloc` is memory that no block occupies. -/
def Calloc.Fresh (calloc : Calloc) (state : ObjectAlloc) : Prop :=
  ∀ address, calloc.block = some address → ∀ table, state.indirect = some table →
      ∀ block < state.indirectSize, table block ≠ some address

/-- The state of the static variables when the program starts. -/
def ObjectAlloc.Untouched (state : ObjectAlloc) : Prop :=
  state.avail = none ∧ state.initialized = false ∧ state.indirect = none ∧ state.indirectSize = 0

namespace Objects

/-- The allocator's answer to an action. -/
def step (cls : ObjectClass) (objects : Objects) : Action → Objects
  | .alloc calloc =>
    match objects.alloc.objAlloc cls calloc with
    | (none, state) => { objects with alloc := state }
    | (some ptr, state) => ⟨state, ptr :: objects.live⟩
  | .free obj => ⟨objects.alloc.objFree obj, objects.live.erase obj⟩
  | .use obj word =>
    { objects with
      alloc :=
        { objects.alloc with
          next := update objects.alloc.next obj word } }

end Objects

/-- The runs of a class: objects are freed and used only while they are
live. -/
def runs (cls : ObjectClass) : TransitionSystem Objects Action where
  initial := fun objects => objects.alloc.Untouched ∧ objects.live = []
  enabled := fun objects action =>
    match action with
    | .alloc calloc => calloc.Fresh objects.alloc
    | .free obj => obj ∈ objects.live
    | .use obj _ => obj ∈ objects.live
  step := fun objects action => some (objects.step cls action)

end Mpich.Util.Handle

/-!
## The fields of a handle

A handle is the sum of its fields, each at its own weight, as long as every
field has no more bits than there are below the next one. The macros then read
back what was packed.
-/

namespace Mpich.Util.Handle

open BitFields

/-- A direct handle is the sum of its fields. -/
theorem directHandle_eq
    {handleType index : Nat}
    (typeFits : handleType < 16)
    (indexFits : index < 67108864) :
    directHandle handleType index = 2147483648 + handleType * 67108864 + index := by
  have upper : handleKindDirect <<< handleKindShift |||
      handleType <<< handleMpiKindShift = (32 + handleType) <<< 26 := by
    unfold handleKindDirect handleKindShift handleMpiKindShift
    rw [shiftLeft_or_eq_add 2 30, Nat.shiftLeft_eq, Nat.shiftLeft_eq]
    · omega
    · rw [Nat.shiftLeft_eq]
      omega
  unfold directHandle
  rw [upper, shiftLeft_or_eq_add (32 + handleType) 26 (by omega)]
  omega

/-- An indirect handle is the sum of its fields. -/
theorem indirectHandle_eq
    {handleType block index : Nat}
    (typeFits : handleType < 16)
    (blockFits : block < 1024)
    (indexFits : index < 65536) :
    indirectHandle handleType block index =
      3221225472 + handleType * 67108864 + block * 65536 + index := by
  have upper : handleKindIndirect <<< handleKindShift |||
      handleType <<< handleMpiKindShift = (48 + handleType) <<< 26 := by
    unfold handleKindIndirect handleKindShift handleMpiKindShift
    rw [shiftLeft_or_eq_add 3 30, Nat.shiftLeft_eq, Nat.shiftLeft_eq]
    · omega
    · rw [Nat.shiftLeft_eq]
      omega
  have middle : (48 + handleType) <<< 26 ||| block <<< handleIndirectShift =
      ((48 + handleType) * 1024 + block) <<< 16 := by
    unfold handleIndirectShift
    rw [shiftLeft_or_eq_add (48 + handleType) 26, Nat.shiftLeft_eq, Nat.shiftLeft_eq]
    · omega
    · rw [Nat.shiftLeft_eq]
      omega
  unfold indirectHandle
  rw [upper, middle, shiftLeft_or_eq_add ((48 + handleType) * 1024 + block) 16 (by omega)]
  omega

theorem handleGetKind_eq (handle : Nat) :
    handleGetKind handle = handle / 1073741824 % 4 :=
  and_mask_shiftRight handle 30 2

theorem handleGetMpiKind_eq (handle : Nat) :
    handleGetMpiKind handle = handle / 67108864 % 16 :=
  and_mask_shiftRight handle 26 4

theorem handleBlock_eq (handle : Nat) :
    handleBlock handle = handle / 65536 % 1024 :=
  and_mask_shiftRight handle 16 10

theorem handleBlockIndex_eq (handle : Nat) :
    handleBlockIndex handle = handle % 65536 :=
  and_lowMask handle 16

theorem handleIndex_eq (handle : Nat) :
    handleIndex handle = handle % 67108864 :=
  and_lowMask handle 26

/-- The fields that are packed into a direct handle are those that the macros
read. -/
theorem directHandle_fields
    {handleType index : Nat}
    (typeFits : handleType < 16)
    (indexFits : index < 67108864) :
    handleGetKind (directHandle handleType index) = handleKindDirect ∧
      handleGetMpiKind (directHandle handleType index) = handleType ∧
      handleIndex (directHandle handleType index) = index := by
  rw [handleGetKind_eq, handleGetMpiKind_eq, handleIndex_eq, directHandle_eq typeFits indexFits]
  unfold handleKindDirect
  omega

/-- The fields that are packed into an indirect handle are those that the
macros read. -/
theorem indirectHandle_fields
    {handleType block index : Nat}
    (typeFits : handleType < 16)
    (blockFits : block < 1024)
    (indexFits : index < 65536) :
    handleGetKind (indirectHandle handleType block index) = handleKindIndirect ∧
      handleGetMpiKind (indirectHandle handleType block index) = handleType ∧
      handleBlock (indirectHandle handleType block index) = block ∧
      handleBlockIndex (indirectHandle handleType block index) = index := by
  rw [handleGetKind_eq, handleGetMpiKind_eq, handleBlock_eq,
    handleBlockIndex_eq, indirectHandle_eq typeFits blockFits indexFits]
  unfold handleKindIndirect
  omega

end Mpich.Util.Handle
