import Mpich.Datatypes.Defs

/-!
# Dataloops in memory

The functions of `dataloop.c` that allocate, copy and relocate dataloops. Memory
maps an address to the object that begins there: a `DLOOP_Dataloop`, a pointer, a
`DLOOP_Count` or a `DLOOP_Offset`. A tree of dataloops lies in one allocated block,
and its pointers are addresses.

`Dataloop_update` follows the pointers that it finds; it is given a bound on the
depth and has no result where the bound is reached or a pointer leads nowhere.
-/

namespace Mpich.Dataloop

open Datatypes (toInt)

/-- The sizes of the objects, and `align_sz`. -/
structure Abi where
  sizeofDataloop : Nat
  sizeofPointer : Nat
  sizeofCount : Nat
  sizeofOffset : Nat
  alignSz : Nat
  dataloop_pos : 0 < sizeofDataloop
  pointer_pos : 0 < sizeofPointer
  count_pos : 0 < sizeofCount
  offset_pos : 0 < sizeofOffset
  align_pos : 0 < alignSz

/-- `loop_params`, for each kind of loop -/
inductive LoopParams
  | contig (count : Nat) (dataloop : Int)
  | vector (count : Nat) (dataloop : Int) (blocksize : Nat) (stride : Int)
  | blockindexed
      (count : Nat)
      (dataloop : Int)
      (blocksize : Nat)
      (offsetArray : Int)
  | indexed
      (count : Nat)
      (dataloop blocksizeArray offsetArray : Int)
      (totalBlocks : Nat)
  | struct
      (count : Nat)
      (dataloopArray blocksizeArray offsetArray elExtentArray : Int)
  deriving DecidableEq, Repr

/-- `el_size`, `el_extent` and `el_type` -/
structure Element where
  elSize : Int
  elExtent : Int
  elType : Nat
  deriving DecidableEq, Repr

/-- `DLOOP_Dataloop`, with `DLOOP_FINAL_MASK` as a flag. -/
structure Record where
  isFinal : Bool
  params : LoopParams
  element : Element
  deriving DecidableEq, Repr

/-- An object in memory. -/
inductive Cell
  | dataloop (loop : Record)
  | pointer (target : Int)
  | count (value : Nat)
  | offset (value : Int)
  deriving DecidableEq, Repr

/-- The objects and where they begin. -/
abbrev Memory :=
  Int → Option Cell

namespace Memory

def write (memory : Memory) (place : Int) (cell : Cell) : Memory :=
  Function.update memory place (some cell)

def dataloopAt (memory : Memory) (place : Int) : Option Record :=
  match memory place with
  | some (.dataloop loop) => some loop
  | _ => none

def pointerAt (memory : Memory) (place : Int) : Option Int :=
  match memory place with
  | some (.pointer target) => some target
  | _ => none

/-- `memcpy` -/
def memcpy (memory : Memory) (dest src : Int) (size : Int) : Memory :=
  fun place =>
    if dest ≤ place ∧ place < dest + size then memory (src + (place - dest))
    else memory place

end Memory

/-- The pointers in a `DLOOP_Dataloop` that `Dataloop_update` moves: all but
`el_extent_array`. -/
def LoopParams.moved (ptrdiff : Int) : LoopParams → LoopParams
  | .contig count dataloop => .contig count (dataloop + ptrdiff)
  | .vector count dataloop blocksize stride =>
    .vector count (dataloop + ptrdiff) blocksize stride
  | .blockindexed count dataloop blocksize offsetArray =>
    .blockindexed count (dataloop + ptrdiff) blocksize (offsetArray + ptrdiff)
  | .indexed count dataloop blocksizeArray offsetArray totalBlocks =>
    .indexed count (dataloop + ptrdiff) (blocksizeArray + ptrdiff)
      (offsetArray + ptrdiff) totalBlocks
  | .struct count dataloopArray blocksizeArray offsetArray elExtentArray =>
    .struct count (dataloopArray + ptrdiff) (blocksizeArray + ptrdiff)
      (offsetArray + ptrdiff) elExtentArray

variable (abi : Abi)

/-- The place of `looparray[index]`. -/
def slot (looparray : Int) (index : Nat) : Int :=
  looparray + index * abi.sizeofPointer

/-- `Dataloop_update` -/
def dataloopUpdate : Nat → Memory → Int → Int → Option Memory
  | 0, _, _, _ => none
  | fuel + 1, memory, place, ptrdiff => do
      let loop ← memory.dataloopAt place
      let params := loop.params.moved ptrdiff
      let memory := memory.write place (.dataloop { loop with params := params })
      match params with
      | .contig _ child | .vector _ child _ _ | .blockindexed _ child _ _ |
          .indexed _ child _ _ _ =>
          if loop.isFinal then some memory
          else dataloopUpdate fuel memory child ptrdiff
      | .struct count looparray _ _ _ =>
        let memory ← (List.range count).foldlM
          (fun (memory : Memory) index => do
            let target ← memory.pointerAt (slot abi looparray index)
            some (memory.write (slot abi looparray index) (.pointer (target + ptrdiff))))
          memory
        if loop.isFinal then some memory
        else
          (List.range count).foldlM
            (fun (memory : Memory) index => do
              let child ← memory.pointerAt (slot abi looparray index)
              dataloopUpdate fuel memory child ptrdiff)
            memory

/-- `Dataloop_copy` -/
def dataloopCopy
    (fuel : Nat)
    (memory : Memory)
    (dest src : Int)
    (size : Int) : Option Memory :=
  dataloopUpdate abi fuel (memory.memcpy dest src size) dest (dest - src)

/-- The kinds of loops. -/
inductive LoopKind
  | contig
  | vector
  | blockindexed
  | indexed
  | struct
  deriving DecidableEq, Repr

/-- A size that is padded to the alignment. -/
def pad (size : Int) : Int :=
  let epsilon := size.tmod abi.alignSz
  if epsilon ≠ 0 then size + (abi.alignSz - epsilon) else size

/-- The size of an array of `count` objects. The product is stored in an `int`. -/
def arraySz (count sizeofObject : Nat) : Int :=
  pad abi (toInt (count * sizeofObject))

/-- `loop_sz` -/
def loopSz : Int :=
  pad abi abi.sizeofDataloop

/-- `ptr_sz` -/
def ptrSz (kind : LoopKind) (count : Nat) : Int :=
  if kind = .struct then arraySz abi count abi.sizeofPointer else 0

/-- `extent_sz` -/
def extentSz (kind : LoopKind) (count : Nat) : Int :=
  if kind = .struct then arraySz abi count abi.sizeofOffset else 0

/-- `blk_sz` -/
def blkSz (kind : LoopKind) (count : Nat) : Int :=
  if kind = .struct ∨ kind = .indexed then arraySz abi count abi.sizeofCount
  else 0

/-- `off_sz` -/
def offSz (kind : LoopKind) (count : Nat) : Int :=
  if kind = .struct ∨ kind = .indexed ∨ kind = .blockindexed then
    arraySz abi count abi.sizeofOffset
  else
    0

/-- The size of a loop without the loops below it. -/
def ownSz (kind : LoopKind) (count : Nat) : Int :=
  loopSz abi + offSz abi kind count + blkSz abi kind count + ptrSz abi kind count +
    extentSz abi kind count

/-- The pointers that a new loop gets. The other fields are left to the caller. -/
def newParams
    (kind : LoopKind)
    (count : Nat)
    (newLoop child : Int) : LoopParams :=
  let arrays := newLoop + loopSz abi
  match kind with
  | .struct =>
    .struct 0 arrays (arrays + ptrSz abi kind count)
      (arrays + ptrSz abi kind count + blkSz abi kind count)
      (arrays + ptrSz abi kind count + blkSz abi kind count + offSz abi kind count)
  | .indexed => .indexed 0 child arrays (arrays + blkSz abi kind count) 0
  | .blockindexed => .blockindexed 0 child 0 arrays
  | .contig => .contig 0 child
  | .vector => .vector 0 child 0 0

/-- An element that is not filled in. -/
def blankElement : Element where
  elSize := 0
  elExtent := 0
  elType := 0

/-- `Dataloop_alloc_and_copy`, with the block that `DLOOP_Malloc` returns. The
result has the new size. -/
def dataloopAllocAndCopy
    (fuel : Nat)
    (memory : Memory)
    (kind : LoopKind)
    (count : Nat)
    (oldLoop : Option Int)
    (oldLoopSz : Int)
    (newLoop : Int) : Option (Memory × Int) :=
  let newLoopSz := toInt (ownSz abi kind count + oldLoopSz)
  let pos := newLoop + (newLoopSz - oldLoopSz)
  match oldLoop with
  | none =>
    let loop : Record := {
      isFinal := false
      params := newParams abi kind count newLoop 0
      element := blankElement }
    some (memory.write newLoop (.dataloop loop), newLoopSz)
  | some oldLoop =>
    let loop : Record := {
      isFinal := false
      params := newParams abi kind count newLoop pos
      element := blankElement }
    if oldLoopSz.tmod abi.alignSz = 0 then
      (dataloopCopy abi fuel (memory.write newLoop (.dataloop loop)) pos oldLoop
        oldLoopSz).map fun memory => (memory, newLoopSz)
    else
      none

/-- `Dataloop_struct_alloc`, with the block that `DLOOP_Malloc` returns. The result
has the place for the old loops and the new size. -/
def dataloopStructAlloc
    (memory : Memory)
    (count : Nat)
    (oldLoopSz : Int)
    (basicCt : Nat)
    (newLoop : Int) : Memory × Int × Int :=
  let loop : Record := {
    isFinal := false
    params := newParams abi .struct count newLoop 0
    element := blankElement }
  (memory.write newLoop (.dataloop loop), newLoop + ownSz abi .struct count,
    toInt (ownSz abi .struct count + basicCt * loopSz abi + oldLoopSz))

/-- `Dataloop_dup`, with the block that `DLOOP_Malloc` returns. -/
def dataloopDup
    (fuel : Nat)
    (memory : Memory)
    (oldLoop : Int)
    (oldLoopSz : Int)
    (newLoop : Int) : Option Memory :=
  dataloopCopy abi fuel memory newLoop oldLoop oldLoopSz

/-- The kind of a loop with one loop below it, and its parameters. `spare` entries
of an indexed loop are allocated and not used. -/
inductive Shape
  | contig (count : Nat)
  | vector (count blocksize : Nat) (stride : Int)
  | blockindexed (blocksize : Nat) (offsets : List Int)
  | indexed (blocks : List (Nat × Int)) (totalBlocks spare : Nat)
  deriving DecidableEq, Repr

namespace Shape

def kind : Shape → LoopKind
  | .contig _ => .contig
  | .vector _ _ _ => .vector
  | .blockindexed _ _ => .blockindexed
  | .indexed _ _ _ => .indexed

/-- The count that the loop is allocated with. -/
def allocCount : Shape → Nat
  | .contig count => count
  | .vector count _ _ => count
  | .blockindexed _ offsets => offsets.length
  | .indexed blocks _ spare => blocks.length + spare

/-- The entries of `blocksize_array` -/
def blocksizes : Shape → List Nat
  | .indexed blocks _ _ => blocks.map Prod.fst
  | _ => []

/-- The entries of `offset_array` -/
def offsets : Shape → List Int
  | .blockindexed _ offsets => offsets
  | .indexed blocks _ _ => blocks.map Prod.snd
  | _ => []

/-- The parameters with the pointers that the allocation has set. -/
def filled (shape : Shape) (params : LoopParams) : LoopParams :=
  match shape, params with
  | .contig count, .contig _ child => .contig count child
  | .vector count blocksize stride, .vector _ child _ _ =>
    .vector count child blocksize stride
  | .blockindexed blocksize offsets, .blockindexed _ child _ offsetArray =>
    .blockindexed offsets.length child blocksize offsetArray
  | .indexed blocks totalBlocks _, .indexed _ child blocksizeArray offsetArray _ =>
    .indexed blocks.length child blocksizeArray offsetArray totalBlocks
  | _, params => params

end Shape

/-- An array of objects of one size. -/
def writeArray
    (sizeofObject : Nat)
    (memory : Memory)
    (place : Int) : List Cell → Memory
  | [] => memory
  | cell :: rest =>
    writeArray sizeofObject (memory.write place cell) (place + sizeofObject) rest

/-- `blocksize_array` and `offset_array` -/
def LoopParams.arrays : LoopParams → Int × Int
  | .contig _ _ | .vector _ _ _ _ => (0, 0)
  | .blockindexed _ _ _ offsetArray => (0, offsetArray)
  | .indexed _ _ blocksizeArray offsetArray _ => (blocksizeArray, offsetArray)
  | .struct _ _ blocksizeArray offsetArray _ => (blocksizeArray, offsetArray)

/-- The end of `Dataloop_create_contiguous`, `_vector`, `_blockindexed` and
`_indexed`: a loop over an old one, or over a built-in type when there is none. -/
def createLoop
    (fuel : Nat)
    (memory : Memory)
    (shape : Shape)
    (element : Element)
    (old : Option (Int × Int))
    (newLoop : Int) : Option (Memory × Int) := do
  let (memory, newLoopSz) ←
    dataloopAllocAndCopy abi fuel memory shape.kind shape.allocCount
      (old.map Prod.fst) ((old.map Prod.snd).getD 0) newLoop
  let loop ← memory.dataloopAt newLoop
  let params := shape.filled loop.params
  let memory := memory.write newLoop
    (.dataloop { isFinal := old.isNone, params := params, element := element })
  let memory := writeArray abi.sizeofCount memory params.arrays.1
    (shape.blocksizes.map Cell.count)
  let memory := writeArray abi.sizeofOffset memory params.arrays.2
    (shape.offsets.map Cell.offset)
  some (memory, newLoopSz)

/-- The coalescing in `Dataloop_create_contiguous`: a copy of a contiguous loop with
a multiple of its count. -/
def createCoalesced
    (fuel : Nat)
    (memory : Memory)
    (factor : Nat)
    (oldLoop : Int)
    (oldLoopSz : Int)
    (newLoop : Int) : Option Memory := do
  let memory ← dataloopDup abi fuel memory oldLoop oldLoopSz newLoop
  let loop ← memory.dataloopAt newLoop
  match loop.params with
  | .contig count child =>
    some (memory.write newLoop (.dataloop { loop with params := .contig (count * factor) child }))
  | _ => none

/-- A block of a struct: where its loop is, and whether that was made for a built-in
type. -/
structure Member where
  source : Int
  sourceSz : Int
  isBasic : Bool
  blocksize : Nat
  offset : Int
  elExtent : Int

/-- The loop of `Dataloop_create_struct` that copies the old loops. -/
def placeMembers
    (fuel : Nat)
    (looparray blocksizeArray offsetArray elExtentArray : Int) :
    Nat → Int → Memory → List Member → Option Memory
  | _, _, memory, [] => some memory
  | loopIdx, curpos, memory, member :: rest => do
      let memory ← dataloopCopy abi fuel memory curpos member.source member.sourceSz
      let memory := memory.write (slot abi looparray loopIdx) (.pointer curpos)
      let memory := memory.write (blocksizeArray + loopIdx * abi.sizeofCount)
        (.count member.blocksize)
      let memory := memory.write (elExtentArray + loopIdx * abi.sizeofOffset)
        (.offset member.elExtent)
      let memory := memory.write (offsetArray + loopIdx * abi.sizeofOffset)
        (.offset member.offset)
      placeMembers fuel looparray blocksizeArray offsetArray elExtentArray
        (loopIdx + 1) (curpos + member.sourceSz) memory rest

/-- The element of a struct, which is not valid. -/
def structElement : Element where
  elSize := -1
  elExtent := -1
  elType := 0

/-- The general case of `Dataloop_create_struct`. The loop of a built-in type is made
before it is copied and freed afterwards. -/
def createStruct
    (fuel : Nat)
    (memory : Memory)
    (members : List Member)
    (newLoop : Int) : Option (Memory × Int) := do
  let derived := members.filter fun member => !member.isBasic
  let oldLoopSz := (derived.map Member.sourceSz).sum
  let basicCt := (members.filter Member.isBasic).length
  let (memory, curpos, newLoopSz) :=
    dataloopStructAlloc abi memory members.length oldLoopSz basicCt newLoop
  let loop ← memory.dataloopAt newLoop
  match loop.params with
  | .struct _ looparray blocksizeArray offsetArray elExtentArray =>
    let memory := memory.write newLoop (.dataloop {
      isFinal := false
      params := .struct members.length looparray blocksizeArray offsetArray
        elExtentArray
      element := structElement })
    let memory ← placeMembers abi fuel looparray blocksizeArray offsetArray
      elExtentArray 0 curpos memory members
    some (memory, newLoopSz)
  | _ => none

end Mpich.Dataloop
