import Mpich.Foundation.Pieces

/-!
# Datatype objects

The constructors `MPID_Type_*` of `mpid_type_*.c`, as far as they record sizes,
bounds, alignment, contiguity and the number of contiguous blocks. A constructor
fills in an object that `MPIU_Handle_obj_alloc` has handed out; a field that it
does not assign keeps what the object held before.

A built-in old type and a derived one differ in where the constructors find its
properties, which `Oldtype` gathers. An `MPI_Aint` has 64 bits and is taken not to
overflow; where the source stores one in an `int`, it is cut off.
-/

namespace Mpich.Datatypes

/-- The built-in types that the constructors tell apart. -/
inductive BasicKind
  /-- `MPI_LB` -/
  | lb
  /-- `MPI_UB` -/
  | ub
  | float
  | double
  | longDouble
  | other
  deriving DecidableEq, Repr

/-- A built-in type. Its size is part of its handle. -/
structure Basic where
  kind : BasicKind
  size : Nat
  marker_size : kind = .lb ∨ kind = .ub → size = 0
  deriving DecidableEq

/-- `MPI_LB` or `MPI_UB`. -/
def Basic.isMarker (basic : Basic) : Bool :=
  decide (basic.kind = .lb ∨ basic.kind = .ub)

/-- The fields of `MPID_Datatype` that describe the layout. -/
structure Datatype where
  size : Int
  hasStickyLb : Bool
  hasStickyUb : Bool
  lb : Int
  ub : Int
  trueLb : Int
  trueUb : Int
  extent : Int
  alignsize : Int
  isContig : Bool
  nContigBlocks : Int
  deriving DecidableEq, Repr

/-- A handle that a new type is made from. -/
inductive Oldtype
  | builtin (basic : Basic)
  | derived (dtp : Datatype)
  deriving DecidableEq

namespace Oldtype

/-- `old_sz` -/
def size : Oldtype → Int
  | .builtin basic => basic.size
  | .derived dtp => dtp.size

/-- `old_lb` -/
def lb : Oldtype → Int
  | .builtin _ => 0
  | .derived dtp => dtp.lb

/-- `old_ub` -/
def ub : Oldtype → Int
  | .builtin basic => basic.size
  | .derived dtp => dtp.ub

/-- `old_true_lb` -/
def trueLb : Oldtype → Int
  | .builtin _ => 0
  | .derived dtp => dtp.trueLb

/-- `old_true_ub` -/
def trueUb : Oldtype → Int
  | .builtin basic => basic.size
  | .derived dtp => dtp.trueUb

/-- `old_extent` -/
def extent : Oldtype → Int
  | .builtin basic => basic.size
  | .derived dtp => dtp.extent

/-- `old_is_contig` -/
def isContig : Oldtype → Bool
  | .builtin _ => true
  | .derived dtp => dtp.isContig

/-- The contiguous blocks that are counted for the old type. -/
def nContigBlocks : Oldtype → Int
  | .builtin _ => 1
  | .derived dtp => dtp.nContigBlocks

def hasStickyLb : Oldtype → Bool
  | .builtin _ => false
  | .derived dtp => dtp.hasStickyLb

def hasStickyUb : Oldtype → Bool
  | .builtin _ => false
  | .derived dtp => dtp.hasStickyUb

/-- The alignment that all constructors but the struct one take over. -/
def alignsize : Oldtype → Int
  | .builtin basic => basic.size
  | .derived dtp => dtp.alignsize

section

variable (dtp : Datatype)

include dtp

@[simp] theorem size_derived :
    (derived dtp).size = dtp.size := rfl

@[simp] theorem lb_derived : (derived dtp).lb = dtp.lb := rfl

@[simp] theorem ub_derived : (derived dtp).ub = dtp.ub := rfl

@[simp] theorem trueLb_derived :
    (derived dtp).trueLb = dtp.trueLb := rfl

@[simp] theorem trueUb_derived :
    (derived dtp).trueUb = dtp.trueUb := rfl

@[simp] theorem extent_derived :
    (derived dtp).extent = dtp.extent := rfl

@[simp] theorem isContig_derived :
    (derived dtp).isContig = dtp.isContig := rfl

@[simp] theorem nContigBlocks_derived :
    (derived dtp).nContigBlocks = dtp.nContigBlocks := rfl

end

end Oldtype

/-- `MPID_DATATYPE_CONTIG_LB_UB` -/
def contigLbUb (cnt : Nat) (oldLb oldUb oldExtent : Int) : Int × Int :=
  if cnt = 0 then
    (oldLb, oldUb)
  else if oldUb ≥ oldLb then
    (oldLb, oldUb + oldExtent * (cnt - 1))
  else
    (oldLb + oldExtent * (cnt - 1), oldUb)

/-- `MPID_DATATYPE_VECTOR_LB_UB` -/
def vectorLbUb
    (cnt : Nat)
    (stride : Int)
    (blklen : Nat)
    (oldLb oldUb oldExtent : Int) : Int × Int :=
  if cnt = 0 ∨ blklen = 0 then
    (oldLb, oldUb)
  else if stride ≥ 0 ∧ oldExtent ≥ 0 then
    (oldLb, oldUb + oldExtent * (blklen - 1) + stride * (cnt - 1))
  else if stride < 0 ∧ oldExtent ≥ 0 then
    (oldLb + stride * (cnt - 1), oldUb + oldExtent * (blklen - 1))
  else if stride ≥ 0 ∧ oldExtent < 0 then
    (oldLb + oldExtent * (blklen - 1), oldUb + stride * (cnt - 1))
  else
    (oldLb + oldExtent * (blklen - 1) + stride * (cnt - 1), oldUb)

/-- `MPID_DATATYPE_BLOCK_LB_UB` -/
def blockLbUb
    (cnt : Nat)
    (disp oldLb oldUb oldExtent : Int) : Int × Int :=
  if cnt = 0 then
    (oldLb + disp, oldUb + disp)
  else if oldUb ≥ oldLb then
    (oldLb + disp, oldUb + disp + oldExtent * (cnt - 1))
  else
    (oldLb + disp + oldExtent * (cnt - 1), oldUb + disp)

/-- The bounds of a block of the old type. -/
def Oldtype.blockBounds
    (old : Oldtype)
    (blocklength : Nat)
    (disp : Int) : Int × Int :=
  blockLbUb blocklength disp old.lb old.ub old.extent

/-- The lowest lower and the highest upper bound. -/
def widen (bounds tmp : Int × Int) : Int × Int :=
  (if tmp.1 < bounds.1 then tmp.1 else bounds.1, if tmp.2 > bounds.2 then tmp.2 else bounds.2)

/-- `MPID_Type_zerolen` -/
def typeZerolen (fresh : Datatype) : Datatype :=
  { fresh with
    size := 0
    hasStickyUb := false
    hasStickyLb := false
    lb := 0
    ub := 0
    trueLb := 0
    trueUb := 0
    extent := 0
    alignsize := 0
    isContig := true }

/-- `MPID_Type_contiguous` -/
def typeContiguous
    (fresh : Datatype)
    (count : Nat)
    (old : Oldtype) : Datatype :=
  if count = 0 then
    typeZerolen fresh
  else
    let bounds := contigLbUb count old.lb old.ub old.extent
    { fresh with
      size := count * old.size
      hasStickyUb := old.hasStickyUb
      hasStickyLb := old.hasStickyLb
      lb := bounds.1
      ub := bounds.2
      trueLb := bounds.1 + (old.trueLb - old.lb)
      trueUb := bounds.2 + (old.trueUb - old.ub)
      extent := bounds.2 - bounds.1
      alignsize := old.alignsize
      isContig := old.isContig }

/-- A stride or displacement in bytes. -/
def inBytes (given : Bool) (old : Oldtype) (distance : Int) : Int :=
  if given then distance else distance * old.extent

/-- `MPID_Type_vector` -/
def typeVector
    (fresh : Datatype)
    (count blocklength : Nat)
    (stride : Int)
    (strideinbytes : Bool)
    (old : Oldtype) : Datatype :=
  if count = 0 then
    typeZerolen fresh
  else
    let effStride := inBytes strideinbytes old stride
    let size := count * blocklength * old.size
    let bounds := vectorLbUb count effStride blocklength old.lb old.ub old.extent
    { fresh with
      size := size
      hasStickyLb := old.hasStickyLb
      hasStickyUb := old.hasStickyUb
      lb := bounds.1
      ub := bounds.2
      trueLb := bounds.1 + (old.trueLb - old.lb)
      trueUb := bounds.2 + (old.trueUb - old.ub)
      extent := bounds.2 - bounds.1
      alignsize := old.alignsize
      isContig := decide (size = bounds.2 - bounds.1 ∧
        effStride = blocklength * old.size ∧ old.isContig = true)
      nContigBlocks := old.nContigBlocks * count }

/-- An `MPI_Aint` stored in an `int`. -/
def toInt (number : Int) : Int :=
  number.bmod (2 ^ 32)

/-- The loop of `MPIDI_Type_blockindexed_count_contig`: the blocks that do not
begin where the one in front ends. `step` is the length of a block, and `cut` how
the displacement is stored. -/
def countBreaks (step : Int) (cut : Int → Int) : Int → List Int → Nat
  | _, [] => 0
  | cur, next :: rest =>
    (if cur + step ≠ next then 1 else 0) + countBreaks step cut (cut next) rest

/-- `MPIDI_Type_blockindexed_count_contig` -/
def blockindexedCountContig
    (blklen : Nat)
    (first : Int)
    (rest : List Int)
    (dispinbytes : Bool)
    (oldExtent : Int) : Nat :=
  if dispinbytes then
    1 + countBreaks (blklen * oldExtent) toInt (toInt first) rest
  else
    1 + countBreaks blklen id first rest

/-- `MPID_Type_blockindexed` -/
def typeBlockindexed
    (fresh : Datatype)
    (blocklength : Nat)
    (displacements : List Int)
    (dispinbytes : Bool)
    (old : Oldtype) : Datatype :=
  match displacements with
  | [] => typeZerolen fresh
  | first :: rest =>
    let size := displacements.length * blocklength * old.size
    let blockAt := fun disp =>
      old.blockBounds blocklength (inBytes dispinbytes old disp)
    let bounds := rest.foldl (fun bounds disp => widen bounds (blockAt disp)) (blockAt first)
    { fresh with
      size := size
      hasStickyLb := old.hasStickyLb
      hasStickyUb := old.hasStickyUb
      lb := bounds.1
      ub := bounds.2
      trueLb := bounds.1 + (old.trueLb - old.lb)
      trueUb := bounds.2 + (old.trueUb - old.ub)
      extent := bounds.2 - bounds.1
      alignsize := old.alignsize
      isContig := decide (old.isContig = true ∧ size = bounds.2 - bounds.1 ∧
        blockindexedCountContig blocklength first rest dispinbytes old.extent = 1)
      nContigBlocks := displacements.length * old.nContigBlocks }

/-- The loop of `MPIDI_Type_indexed_count_contig`, for blocks of old types that
are `width` long: the blocks that do not continue the current one. -/
def indexedBreaks (width : Int) : Int → Nat → List (Nat × Int) → Nat
  | _, _, [] => 0
  | curDisp, curBlklen, (blocklength, disp) :: rest =>
    if blocklength = 0 then
      indexedBreaks width curDisp curBlklen rest
    else if curDisp + curBlklen * width = disp then
      indexedBreaks width curDisp (curBlklen + blocklength) rest
    else
      1 + indexedBreaks width disp blocklength rest

/-- `MPIDI_Type_indexed_count_contig` -/
def indexedCountContig
    (blocks : List (Nat × Int))
    (dispinbytes : Bool)
    (oldExtent : Int) : Nat :=
  match blocks with
  | [] => 1
  | (blocklength, disp) :: rest =>
    1 + indexedBreaks (if dispinbytes then oldExtent else 1) disp blocklength rest

/-- `MPID_Type_indexed`, with the block lengths and the displacements. The
alignment of a derived old type is not taken over. -/
def typeIndexed
    (fresh : Datatype)
    (blocks : List (Nat × Int))
    (dispinbytes : Bool)
    (old : Oldtype) : Datatype :=
  match blocks.dropWhile (fun block => decide (block.1 = 0)) with
  | [] => typeZerolen fresh
  | first :: rest =>
    let nonzero := rest.filter fun block => decide (block.1 > 0)
    let oldCt := nonzero.foldl (fun count block => count + block.1) first.1
    let size := oldCt * old.size
    let boundsOf := fun block : Nat × Int =>
      old.blockBounds block.1 (inBytes dispinbytes old block.2)
    let bounds := nonzero.foldl (fun bounds block => widen bounds (boundsOf block)) (boundsOf first)
    { fresh with
      size := size
      hasStickyLb := old.hasStickyLb
      hasStickyUb := old.hasStickyUb
      lb := bounds.1
      ub := bounds.2
      trueLb := bounds.1 + (old.trueLb - old.lb)
      trueUb := bounds.2 + (old.trueUb - old.ub)
      extent := bounds.2 - bounds.1
      alignsize :=
        match old with
        | .builtin basic => basic.size
        | .derived _ => fresh.alignsize
      isContig := decide (indexedCountContig blocks dispinbytes old.extent = 1 ∧
        size = bounds.2 - bounds.1) && old.isContig
      nContigBlocks := old.nContigBlocks * blocks.length }

/-- The configure-time defines that `MPID_Type_struct_alignsize` uses. -/
structure AlignConfig where
  doubleAlignmentException : Option Int
  maxLongDoubleFpAlignment : Option Int
  maxDoubleFpAlignment : Option Int
  maxFpAlignment : Option Int
  doublePosAlignment : Bool
  maxIntegerAlignment : Option Int
  deriving DecidableEq, Repr

/-- An alignment, when there is a largest one. -/
def atMost (maximum : Option Int) (align : Int) : Int :=
  match maximum with
  | none => align
  | some maximum => if align > maximum then maximum else align

/-- `tmp_alignsize` of a built-in type in `MPID_Type_struct_alignsize`. -/
def basicAlignsize (config : AlignConfig) (basic : Basic) (disp : Int) : Int :=
  let align : Int :=
    match config.doubleAlignmentException with
    | some exception => if basic.kind = .double then exception else basic.size
    | none => basic.size
  match basic.kind with
  | .float | .double | .longDouble =>
    let align :=
      match config.maxLongDoubleFpAlignment, config.maxDoubleFpAlignment with
      | some maxLongDouble, some maxDouble =>
        if basic.kind = .longDouble then atMost (some maxLongDouble) align
        else if basic.kind = .double then atMost (some maxDouble) align
        else align
      | _, _ => atMost config.maxFpAlignment align
    if config.doublePosAlignment ∧ basic.kind = .double ∧ disp ≠ 0 then
      4
    else
      align
  | _ => atMost config.maxIntegerAlignment align

/-- A block of a struct. -/
structure Block where
  blocklength : Nat
  displacement : Int
  oldtype : Oldtype
  deriving DecidableEq

/-- `MPID_Type_struct_alignsize` -/
def structAlignsize (config : AlignConfig) (blocks : List Block) : Int :=
  blocks.foldl
    (fun maxAlignsize block =>
      match block.oldtype with
      | .builtin basic =>
        if basic.isMarker then
          maxAlignsize
        else
          max maxAlignsize (basicAlignsize config basic block.displacement)
      | .derived dtp => max maxAlignsize dtp.alignsize)
    0

/-- The variables of the loop of `MPID_Type_struct`. A displacement is there when
its `found_` flag is set. -/
structure StructScan where
  size : Int
  nContigBlocks : Int
  stickyLbDisp : Option Int
  stickyUbDisp : Option Int
  trueLbDisp : Option Int
  trueUbDisp : Option Int
  definitelyNotContig : Bool
  oldAreContig : Bool
  deriving DecidableEq, Repr

def StructScan.start : StructScan where
  size := 0
  nContigBlocks := 0
  stickyLbDisp := none
  stickyUbDisp := none
  trueLbDisp := none
  trueUbDisp := none
  definitelyNotContig := false
  oldAreContig := true

/-- The lower of two displacements. -/
def keepLowest (kept : Option Int) (disp : Int) : Option Int :=
  match kept with
  | none => some disp
  | some lowest => some (if lowest > disp then disp else lowest)

/-- The higher of two displacements. -/
def keepHighest (kept : Option Int) (disp : Int) : Option Int :=
  match kept with
  | none => some disp
  | some highest => some (if highest < disp then disp else highest)

def Oldtype.isMarker : Oldtype → Bool
  | .builtin basic => basic.isMarker
  | .derived _ => false

/-- The block sets a lower bound that later bounds do not change. -/
def Oldtype.givesStickyLb : Oldtype → Bool
  | .builtin basic => decide (basic.kind = .lb)
  | .derived dtp => dtp.hasStickyLb

/-- The block sets an upper bound that later bounds do not change. -/
def Oldtype.givesStickyUb : Oldtype → Bool
  | .builtin basic => decide (basic.kind = .ub)
  | .derived dtp => dtp.hasStickyUb

/-- The loop body of `MPID_Type_struct`. -/
def StructScan.next (scan : StructScan) (block : Block) : StructScan :=
  if block.blocklength = 0 then
    scan
  else
    let old := block.oldtype
    let tmp := old.blockBounds block.blocklength block.displacement
    let tmpTrueLb := tmp.1 + (old.trueLb - old.lb)
    let tmpTrueUb := tmp.2 + (old.trueUb - old.ub)
    let before := scan.trueLbDisp.any fun lowest => decide (lowest > tmpTrueLb)
    let endsBefore := scan.trueUbDisp.any fun highest => !decide (highest < tmpTrueUb)
    { size := scan.size + old.size * block.blocklength
      nContigBlocks := scan.nContigBlocks + old.nContigBlocks
      stickyLbDisp :=
        if old.givesStickyLb then keepLowest scan.stickyLbDisp tmp.1
        else scan.stickyLbDisp
      stickyUbDisp :=
        if old.givesStickyUb then keepHighest scan.stickyUbDisp tmp.2
        else scan.stickyUbDisp
      trueLbDisp :=
        if old.isMarker then scan.trueLbDisp
        else keepLowest scan.trueLbDisp tmpTrueLb
      trueUbDisp :=
        if old.isMarker then scan.trueUbDisp
        else keepHighest scan.trueUbDisp tmpTrueUb
      definitelyNotContig := scan.definitelyNotContig || !old.isMarker && (before || endsBefore)
      oldAreContig := scan.oldAreContig && old.isContig }

/-- The upper bound with the padding of a struct. -/
def padded (alignsize lb ub : Int) : Int :=
  let epsilon := if alignsize > 0 then (ub - lb).tmod alignsize else 0
  if epsilon ≠ 0 then ub + (alignsize - epsilon) else ub

/-- `MPID_Type_struct` -/
def typeStruct
    (config : AlignConfig)
    (fresh : Datatype)
    (blocks : List Block) : Datatype :=
  if blocks.all fun block => decide (block.blocklength = 0) then
    typeZerolen fresh
  else
    let scan := blocks.foldl StructScan.next .start
    let alignsize := structAlignsize config blocks
    let trueLb := scan.trueLbDisp.getD 0
    let trueUb := scan.trueUbDisp.getD 0
    let lb := scan.stickyLbDisp.getD trueLb
    let ub := scan.stickyUbDisp.getD trueUb
    let ub :=
      if scan.stickyLbDisp = none ∧ scan.stickyUbDisp = none then
        padded alignsize lb ub
      else
        ub
    { fresh with
      size := scan.size
      hasStickyLb := scan.stickyLbDisp.isSome
      hasStickyUb := scan.stickyUbDisp.isSome
      lb := lb
      ub := ub
      trueLb := trueLb
      trueUb := trueUb
      extent := ub - lb
      alignsize := alignsize
      isContig := decide (scan.size = ub - lb ∧ scan.oldAreContig = true ∧
        scan.definitelyNotContig = false)
      nContigBlocks := scan.nContigBlocks }

/-- `MPID_Type_create_resized` -/
def typeCreateResized
    (fresh : Datatype)
    (lb extent : Int)
    (old : Oldtype) : Datatype :=
  { fresh with
    size := old.size
    hasStickyUb := true
    hasStickyLb := true
    lb := lb
    ub := lb + extent
    trueLb := old.trueLb
    trueUb := old.trueUb
    extent := extent
    alignsize := old.alignsize
    isContig := if extent = old.size then old.isContig else false }

/-- `MPID_Type_dup` -/
def typeDup (fresh : Datatype) (old : Oldtype) : Datatype :=
  match old with
  | .builtin _ => typeContiguous fresh 1 old
  | .derived dtp => { dtp with nContigBlocks := fresh.nContigBlocks }

/-- How the compiler lays out `struct { ut1_ a; ut2_ b; }`. -/
structure PairLayout where
  first : Basic
  second : Basic
  secondDisp : Nat
  sizeof : Nat
  first_le : first.size ≤ secondDisp
  second_le : secondDisp + second.size ≤ sizeof

/-- The alignment of a pair type, with its maximum. -/
def pairAlignsize (config : AlignConfig) (pair : PairLayout) : Int :=
  let align : Int := max pair.first.size pair.second.size
  match pair.first.kind with
  | .float => atMost config.maxFpAlignment align
  | .double =>
    if config.maxDoubleFpAlignment.isSome then
      atMost config.maxDoubleFpAlignment align
    else
      atMost config.maxFpAlignment align
  | .longDouble =>
    if config.maxLongDoubleFpAlignment.isSome then
      atMost config.maxLongDoubleFpAlignment align
    else
      atMost config.maxFpAlignment align
  | _ => atMost config.maxIntegerAlignment align

/-- `MPID_Type_create_pairtype` -/
def typeCreatePairtype
    (config : AlignConfig)
    (fresh : Datatype)
    (pair : PairLayout) : Datatype :=
  let typeSize := pair.first.size + pair.second.size
  { fresh with
    size := typeSize
    hasStickyLb := false
    hasStickyUb := false
    lb := 0
    ub := pair.sizeof
    trueLb := 0
    trueUb := pair.secondDisp + pair.second.size
    extent := pair.sizeof
    alignsize := pairAlignsize config pair
    isContig := decide (typeSize = pair.sizeof)
    nContigBlocks := if typeSize = pair.sizeof then 1 else 2 }

/-- What a fast path learns about a buffer. -/
structure Info where
  dtContig : Bool
  dataSz : Int
  dtTrueLb : Int
  deriving DecidableEq, Repr

/-- `MPIDI_Datatype_get_info` -/
def getInfo (count : Nat) : Oldtype → Info
  | .builtin basic => {
      dtContig := true
      dataSz := count * basic.size
      dtTrueLb := 0 }
  | .derived dtp => {
      dtContig := dtp.isContig
      dataSz := count * dtp.size
      dtTrueLb := dtp.trueLb }

end Mpich.Datatypes
