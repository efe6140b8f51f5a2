import Mathlib.Data.Fin.VecNotation
import Mathlib.Data.List.FinRange
import Mpich.Foundation.Pieces

/-!
# Datatypes and their type maps

A datatype is a tree of constructors over named types, as `MPI_Type_get_envelope`
and `MPI_Type_get_contents` show it. Its type map is the list of the
displacements of its bytes. The extent of a type, which is the distance of the
copies in a constructor, and whether it is contiguous are answers of the MPI
library.

A subarray or a distributed array is built from the other constructors, by
`MPI_Type_create_subarray` and `MPI_Type_create_darray` of the library and once
more, in the same way, by `ADIO_Type_create_subarray` and
`ADIO_Type_create_darray`.
-/

namespace Mpich.Romio.Flatten

open Copies

/-- A datatype without subarrays and distributed arrays. Sizes are those of an
`int`: no datatype has `2 ^ 31` bytes or more, and no block of an indexed type
extends as far. -/
inductive Basic
  /-- A named type and the displacements of its bytes. -/
  | named (bytes : List Int)
  | dup (old : Basic)
  | contiguous (count : Nat) (old : Basic)
  | vector (count blocklength : Nat) (stride : Int) (old : Basic)
  | hvector (count blocklength : Nat) (stride : Int) (old : Basic)
  /-- Block lengths and displacements. -/
  | indexed (blocks : List (Nat × Int)) (old : Basic)
  | hindexed (blocks : List (Nat × Int)) (old : Basic)
  | struct
      (count : Nat)
      (blocklengths : Fin count → Nat)
      (displacements : Fin count → Int)
      (types : Fin count → Basic)

/-- The answers of the MPI library. -/
structure Library where
  /-- `MPI_Type_extent`. -/
  extent : Basic → Int
  /-- `ADIOI_Datatype_iscontig`. -/
  isContig : Basic → Bool

namespace Library

variable (library : Library)

/-- The type map. -/
def bytes : Basic → List Int
  | .named bytes => bytes
  | .dup old => bytes old
  | .contiguous count old => copies count (library.extent old) (bytes old)
  | .vector count blocklength stride old =>
    copies count (stride * library.extent old) (copies blocklength (library.extent old) (bytes old))
  | .hvector count blocklength stride old =>
    copies count stride (copies blocklength (library.extent old) (bytes old))
  | .indexed blocks old =>
    blocks.flatMap fun block =>
      shifted (block.2 * library.extent old) (copies block.1 (library.extent old) (bytes old))
  | .hindexed blocks old =>
    blocks.flatMap fun block =>
      shifted block.2 (copies block.1 (library.extent old) (bytes old))
  | .struct count blocklengths displacements types =>
    (List.finRange count).flatMap fun index =>
      shifted (displacements index)
        (copies (blocklengths index) (library.extent (types index)) (bytes (types index)))

/-- `MPI_Type_size`. -/
def size
    (type : Basic) : Nat :=
  (library.bytes type).length

/-- The type is not flattened: `old_combiner` is `MPI_COMBINER_NAMED`, or the
type is contiguous. -/
def isSimple : Basic → Bool
  | .named _ => true
  | type => library.isContig type

end Library

/-- `MPI_LB` and `MPI_UB`. -/
def marker : Basic :=
  .named []

/-- The struct that ends the construction of an array: the type at its
displacement between a lower and an upper bound. -/
def bounded
    (displacement upper : Int)
    (type : Basic) : Basic :=
  .struct 3 (fun _ => 1) ![0, displacement, upper] ![marker, type, marker]

inductive Order
  | fortran
  | c

/-- The dimensions, the one that changes fastest in front. -/
def Order.fastestFirst
    {Dimension : Type*} : Order → List Dimension → List Dimension
  | .fortran, dimensions => dimensions
  | .c, dimensions => dimensions.reverse

/-- A dimension of a subarray. -/
structure Slice where
  size : Nat
  subsize : Nat
  start : Nat

/-- The vectors behind the first two dimensions; `size` is the number of bytes
of the dimensions up to the one in front. -/
def outerSlices : Int → List Slice → Basic → Basic
  | _, [], type => type
  | bytesInside, slice :: slices, type =>
    outerSlices (bytesInside * slice.size) slices (.hvector slice.subsize 1 bytesInside type)

/-- The displacement of the first element, in elements. -/
def sliceStart : Int → List Slice → Int
  | _, [] => 0
  | elements, slice :: slices =>
    elements * slice.start + sliceStart (elements * slice.size) slices

/-- `ADIO_Type_create_subarray`, with the dimensions fastest first. -/
def createSubarray
    (library : Library)
    (slices : List Slice)
    (old : Basic) : Basic :=
  let extent := library.extent old
  let inner :=
    match slices with
    | [] => old
    | [only] => .contiguous only.subsize old
    | first :: second :: rest =>
      outerSlices (first.size * extent * second.size) rest
        (.vector second.subsize first.subsize first.size old)
  bounded (sliceStart 1 slices * extent)
    (slices.foldl (fun upper slice => upper * slice.size) extent) inner

inductive Distribution
  | block
  | cyclic
  | none

/-- A dimension of a distributed array; `darg` is absent for
`MPI_DISTRIBUTE_DFLT_DARG`. -/
structure Dimension where
  gsize : Nat
  distrib : Distribution
  darg : Option Nat
  psize : Nat

/-- The coordinates of a process in the grid, which is in row-major order. -/
def coordinates : Nat → Nat → List Dimension → List Nat
  | _, _, [] => []
  | procs, rank, dimension :: dimensions =>
    let inside := procs / dimension.psize
    rank / inside :: coordinates inside (rank % inside) dimensions

/-- `MPIOI_Type_block`, with the new type and `st_offset`. `stride` is the
distance of the elements of the dimension in bytes. -/
def typeBlock
    (fastest : Bool)
    (gsize : Nat)
    (darg : Option Nat)
    (nprocs rank : Nat)
    (stride : Int)
    (old : Basic) : Basic × Nat :=
  let blksize := darg.getD ((gsize + nprocs - 1) / nprocs)
  let mysize := min blksize (gsize - blksize * rank)
  (if fastest then .contiguous mysize old else .hvector mysize 1 stride old,
    if mysize = 0 then 0 else blksize * rank)

/-- `MPIOI_Type_cyclic`, with the new type and `st_offset`. -/
def typeCyclic
    (origExtent : Int)
    (fastest : Bool)
    (gsize : Nat)
    (darg : Option Nat)
    (nprocs rank : Nat)
    (stride : Int)
    (old : Basic) : Basic × Nat :=
  let blksize := darg.getD 1
  let stIndex := rank * blksize
  let localSize :=
    if gsize ≤ stIndex then 0
    else (gsize - stIndex) / (nprocs * blksize) * blksize +
      min ((gsize - stIndex) % (nprocs * blksize)) blksize
  let count := localSize / blksize
  let rem := localSize % blksize
  let period := nprocs * blksize * stride
  let blocks := Basic.hvector count blksize period old
  let withLast :=
    if rem = 0 then blocks
    else .struct 2 ![1, rem] ![0, count * period] ![blocks, old]
  if fastest then
    (bounded (rank * blksize * origExtent) (origExtent * gsize) withLast, 0)
  else (withLast, if localSize = 0 then 0 else rank * blksize)

/-- The type of one dimension and its start. -/
def typeDimension
    (origExtent : Int)
    (fastest : Bool)
    (dimension : Dimension)
    (coordinate : Nat)
    (stride : Int)
    (old : Basic) : Basic × Nat :=
  match dimension.distrib with
  | .block =>
    typeBlock fastest dimension.gsize dimension.darg dimension.psize coordinate stride old
  | .cyclic =>
    typeCyclic origExtent fastest dimension.gsize dimension.darg
      dimension.psize coordinate stride old
  | .none => typeBlock fastest dimension.gsize .none 1 0 stride old

/-- The types of the dimensions, fastest first, and the displacement in
elements. `elements` is the number of elements of the dimensions in front. -/
def typeDimensions
    (origExtent : Int) :
    Bool → Int → List (Dimension × Nat) → Basic → Basic × Int
  | _, _, [], old => (old, 0)
  | fastest, elements, (dimension, coordinate) :: rest, old =>
    let (type, stOffset) :=
      typeDimension origExtent fastest dimension coordinate (origExtent * elements) old
    let (outer, displacement) :=
      typeDimensions origExtent false (elements * dimension.gsize) rest type
    (outer, elements * stOffset + displacement)

/-- `ADIO_Type_create_darray`. -/
def createDarray
    (library : Library)
    (size rank : Nat)
    (dimensions : List Dimension)
    (order : Order)
    (old : Basic) : Basic :=
  let extent := library.extent old
  let grid := dimensions.zip (coordinates size rank dimensions)
  let (type, displacement) := typeDimensions extent true 1 (order.fastestFirst grid) old
  bounded (displacement * extent)
    (dimensions.foldl (fun upper dimension => upper * dimension.gsize) extent)
    type

/-- A datatype. -/
inductive Datatype
  | named (bytes : List Int)
  | dup (old : Datatype)
  | contiguous (count : Nat) (old : Datatype)
  | vector (count blocklength : Nat) (stride : Int) (old : Datatype)
  | hvector (count blocklength : Nat) (stride : Int) (old : Datatype)
  | indexed (blocks : List (Nat × Int)) (old : Datatype)
  | hindexed (blocks : List (Nat × Int)) (old : Datatype)
  | struct
      (count : Nat)
      (blocklengths : Fin count → Nat)
      (displacements : Fin count → Int)
      (types : Fin count → Datatype)
  | subarray (slices : List Slice) (order : Order) (old : Datatype)
  | darray
      (size rank : Nat)
      (dimensions : List Dimension)
      (order : Order)
      (old : Datatype)

/-- The datatype with its arrays as they are built. -/
def Datatype.built
    (library : Library) : Datatype → Basic
  | .named bytes => .named bytes
  | .dup old => .dup (old.built library)
  | .contiguous count old => .contiguous count (old.built library)
  | .vector count blocklength stride old =>
    .vector count blocklength stride (old.built library)
  | .hvector count blocklength stride old =>
    .hvector count blocklength stride (old.built library)
  | .indexed blocks old => .indexed blocks (old.built library)
  | .hindexed blocks old => .hindexed blocks (old.built library)
  | .struct count blocklengths displacements types =>
    .struct count blocklengths displacements fun index =>
      (types index).built library
  | .subarray slices order old =>
    createSubarray library (order.fastestFirst slices) (old.built library)
  | .darray size rank dimensions order old =>
    createDarray library size rank dimensions order (old.built library)

end Mpich.Romio.Flatten

/-!
## Flattening a datatype

`ADIOI_Flatten` appends the blocks of a datatype to the arrays of the flattened
type. A constructor flattens its old type once, unless that is named or
contiguous, and makes the other copies from the entries it has written before.
`ADIOI_Count_contiguous_blocks` is a second recursion that says in advance how
long the arrays have to be, and `ADIOI_Optimize_flattened` merges blocks that
touch each other.
-/

namespace Mpich.Romio.Flatten

open Copies

/-- An entry of `indices` and `blocklens`. -/
@[ext]
structure Block where
  index : Int
  blocklen : Int
deriving DecidableEq

instance : AddAction Int Block where
  vadd distance block := ⟨distance + block.index, block.blocklen⟩
  zero_vadd block := by
    cases block
    exact congrArg (Block.mk · _) (zero_add _)
  add_vadd first second block := congrArg (Block.mk · _) (add_assoc first second block.index)

/-- `(unsigned) stride * (unsigned) old_size`. -/
def unsignedProduct
    (stride : Int)
    (oldSize : Nat) : Int :=
  stride % 2 ^ 32 * (oldSize % 2 ^ 32 : Nat) % 2 ^ 32

/-- The difference of two values of type `int`. -/
def intSub
    (first second : Int) : Int :=
  (first - second).bmod (2 ^ 32)

namespace Library

variable (library : Library)

/-- The blocks behind the first one of an indexed type over a type of `width`
entries; `previous` are the entries of the block in front, `before` is its
displacement. -/
def laterBlocks
    (width : Nat)
    (oldExtent : Int)
    (distance : Int → Int → Int) :
    List Block → Int → List (Nat × Int) → List Block
  | _, _, [] => []
  | previous, before, (blocklength, displacement) :: rest =>
    let first := shifted (distance displacement before) (previous.take width)
    let block := again width oldExtent (blocklength - 1) first
    block ++ laterBlocks width oldExtent distance block displacement rest

/-- The copies of an old type of which entries have been written: `blocklength`
times, and these `count` times. -/
def repeated
    (inner : List Block)
    (oldExtent : Int)
    (blocklength : Nat)
    (stride : Int)
    (count : Nat) : List Block :=
  let first := again inner.length oldExtent (blocklength - 1) inner
  again first.length stride (count - 1) first

/-- `ADIOI_Flatten`: the entries it appends for a type at `st_offset`; `none`
for a named type, which is not supported, and where it reads a displacement that
is not there. -/
def flatten : Basic → Int → Option (List Block)
  | .named _, _ => none
  | .dup old, stOffset =>
    if library.isSimple old then some [] else flatten old stOffset
  | .contiguous count old, stOffset =>
    match if library.isSimple old then some [] else flatten old stOffset with
    | none => none
    | some [] => some [⟨stOffset, count * library.size old⟩]
    | some inner =>
      some (again inner.length (library.extent old) (count - 1) inner)
  | .vector count blocklength stride old, stOffset =>
    match if library.isSimple old then some [] else flatten old stOffset with
    | none => none
    | some [] =>
      some (again 1 (unsignedProduct stride (library.size old)) (count - 1)
        [⟨stOffset, blocklength * library.size old⟩])
    | some inner =>
      some (repeated inner (library.extent old) blocklength (stride * library.extent old) count)
  | .hvector count blocklength stride old, stOffset =>
    match if library.isSimple old then some [] else flatten old stOffset with
    | none => none
    | some [] =>
      some (again 1 stride (count - 1) [⟨stOffset, blocklength * library.size old⟩])
    | some inner =>
      some (repeated inner (library.extent old) blocklength stride count)
  | .indexed blocks old, stOffset =>
    let oldExtent := library.extent old
    let simplest :=
      blocks.map fun block =>
        (⟨stOffset + block.2 * oldExtent, block.1 * oldExtent⟩ : Block)
    if library.isSimple old then some simplest
    else
      match blocks with
      | [] => none
      | (blocklength, displacement) :: rest =>
        match flatten old (stOffset + displacement * oldExtent) with
        | none => none
        | some [] => some simplest
        | some inner =>
          let first := again inner.length oldExtent (blocklength - 1) inner
          some (first ++ laterBlocks inner.length oldExtent
            (fun next before => intSub next before * oldExtent)
            first displacement rest)
  | .hindexed blocks old, stOffset =>
    let oldExtent := library.extent old
    let simplest :=
      blocks.map fun block =>
        (⟨stOffset + block.2, block.1 * library.size old⟩ : Block)
    if library.isSimple old then some simplest
    else
      match blocks with
      | [] => none
      | (blocklength, displacement) :: rest =>
        match flatten old (stOffset + displacement) with
        | none => none
        | some [] => some simplest
        | some inner =>
          let first := again inner.length oldExtent (blocklength - 1) inner
          some (first ++ laterBlocks inner.length oldExtent
            (fun next before => next - before) first displacement rest)
  | .struct count blocklengths displacements types, stOffset =>
    let field (index : Fin count) : Option (List Block) :=
      let old := types index
      let start := stOffset + displacements index
      match if library.isSimple old then some []
        else flatten (types index) start with
      | none => none
      | some [] => some [⟨start, blocklengths index * library.size old⟩]
      | some inner =>
        some (again inner.length (library.extent old) (blocklengths index - 1) inner)
    ((List.finRange count).mapM field).map List.flatten

/-- `ADIOI_Count_contiguous_blocks`: what it returns, and by how much it
increases `curr_index`. -/
def countContiguousBlocks : Basic → Option (Int × Int)
  | .named _ => none
  | .dup old =>
    if library.isSimple old then some (1, 1) else countContiguousBlocks old
  | .contiguous count old =>
    match if library.isSimple old then some (1, 0)
      else countContiguousBlocks old with
    | none => none
    | some (inner, num) =>
      if num = 0 then some (inner, 1)
      else some (inner * count, num + (count - 1) * num)
  | .vector count blocklength _ old =>
    match if library.isSimple old then some (1, 0)
      else countContiguousBlocks old with
    | none => none
    | some (inner, num) =>
      if num = 0 then some (count, count)
      else
        let first := num + (blocklength - 1) * num
        some (inner * (blocklength * count), first + (count - 1) * first)
  | .hvector count blocklength _ old =>
    match if library.isSimple old then some (1, 0)
      else countContiguousBlocks old with
    | none => none
    | some (inner, num) =>
      if num = 0 then some (count, count)
      else
        let first := num + (blocklength - 1) * num
        some (inner * (blocklength * count), first + (count - 1) * first)
  | .indexed blocks old =>
    match if library.isSimple old then some (1, 0)
      else countContiguousBlocks old with
    | none => none
    | some (inner, num) => countIndexed inner num blocks
  | .hindexed blocks old =>
    match if library.isSimple old then some (1, 0)
      else countContiguousBlocks old with
    | none => none
    | some (inner, num) => countIndexed inner num blocks
  | .struct count blocklengths _ types =>
    let field (index : Fin count) : Option (Int × Int) :=
      match if library.isSimple (types index) then some (0, 0)
        else countContiguousBlocks (types index) with
      | none => none
      | some (inner, num) =>
        if num = 0 then some (inner + 1, 1)
        else some (inner + (blocklengths index - 1) * num, num + (blocklengths index - 1) * num)
    ((List.finRange count).mapM field).map List.sum
where
  /-- The blocks of an indexed type over a type of `num` entries. -/
  countIndexed
      (inner num : Int)
      (blocks : List (Nat × Int)) : Option (Int × Int) :=
    if num = 0 then some (blocks.length, blocks.length)
    else
      match blocks with
      | [] => none
      | first :: rest =>
        let later := (rest.map fun block => (block.1 : Int) * num).sum
        some (inner * first.1 + later, num + (first.1 - 1) * num + later)

end Library

/-- The second block starts where the first one ends. -/
def touches
    (first second : Block) : Bool :=
  first.index + first.blocklen = second.index

/-- `opt_blocks`. -/
def optBlocks : List Block → Nat
  | first :: second :: rest =>
    (if touches first second then 0 else 1) + optBlocks (second :: rest)
  | _ => 1

/-- The loop that fills in the new arrays; `previous` is the block in front in
the old arrays, `current` the last one in the new arrays. -/
def mergeBlocks : Block → Block → List Block → List Block
  | _, current, [] => [current]
  | previous, current, next :: rest =>
    if touches previous next then
      mergeBlocks next ⟨current.index, current.blocklen + next.blocklen⟩ rest
    else current :: mergeBlocks next next rest

/-- `ADIOI_Optimize_flattened`; `none` where it reads the first entry of empty
arrays. -/
def optimizeFlattened
    (blocks : List Block) : Option (List Block) :=
  if optBlocks blocks = blocks.length then some blocks
  else
    match blocks with
    | [] => none
    | first :: rest => some (mergeBlocks first first rest)

/-- The bytes of a block. -/
def Block.positions
    (block : Block) : List Int :=
  run block.index block.blocklen.toNat

/-- The bytes of all blocks, in order. Blocks without bytes add nothing. -/
def cover
    (blocks : List Block) : List Int :=
  blocks.flatMap Block.positions

/-- No block has a negative length. -/
def Forward
    (blocks : List Block) : Prop :=
  ∀ block ∈ blocks, 0 ≤ block.blocklen

namespace Library

variable (library : Library)

/-- `ADIOI_Flatten_datatype` represents the type: the arrays have room for all
entries that are written, none of which has a negative length, and whatever is
in the rest of the arrays, the blocks that are left by
`ADIOI_Optimize_flattened` are the bytes of the type map. -/
def Represents
    (type : Basic) : Prop :=
  ∃ count num written, library.countContiguousBlocks type = some (count, num) ∧
      library.flatten type 0 = some written ∧ Forward written ∧
        (written.length : Int) ≤ count ∧ ∀ unwritten : List Block,
          (written.length + unwritten.length : Int) = count → ∃ optimized,
              optimizeFlattened (written ++ unwritten) = some optimized ∧
                cover optimized = library.bytes type

/-- The types that are flattened in the course of flattening a type. -/
def flattened : Basic → List Basic
  | .named bytes => [.named bytes]
  | .dup old => .dup old :: if library.isSimple old then [] else flattened old
  | .contiguous count old =>
    .contiguous count old ::
      if library.isSimple old then [] else flattened old
  | .vector count blocklength stride old =>
    .vector count blocklength stride old ::
      if library.isSimple old then [] else flattened old
  | .hvector count blocklength stride old =>
    .hvector count blocklength stride old ::
      if library.isSimple old then [] else flattened old
  | .indexed blocks old =>
    .indexed blocks old :: if library.isSimple old then [] else flattened old
  | .hindexed blocks old =>
    .hindexed blocks old :: if library.isSimple old then [] else flattened old
  | .struct count blocklengths displacements types =>
    .struct count blocklengths displacements types ::
      (List.finRange count).flatMap fun index =>
        if library.isSimple (types index) then [] else flattened (types index)

end Mpich.Romio.Flatten.Library
