import Mathlib.Data.List.OfFn
import Mpich.Dataloop.Create

/-!
# Dataloops of datatypes

The `Dataloop_create_*` functions: the loops that they make for a datatype, and the
depth that they record with them. The depth is that of the loops.
-/

namespace Mpich.Dataloop

open List Option

/-- `DLOOP_DATALOOP_HETEROGENEOUS`, `_HOMOGENEOUS` and `_ALL_BYTES` -/
inductive Flag
  | heterogeneous
  | homogeneous
  | allBytes
  deriving DecidableEq, Repr

/-- What the `DLOOP_Handle_*` macros say of a datatype: its value as a handle, and
its loops with their recorded depth unless it is built in. -/
structure Handle where
  value : Nat
  size : Int
  extent : Int
  basicType : Nat
  loop : Option (Loop × Nat)

/-- `MPI_INT`, of four bytes -/
def mpiInt : Handle where
  value := 1
  size := 4
  extent := 4
  basicType := 1
  loop := none

/-- `MPI_BYTE` -/
def mpiByte : Handle where
  value := 2
  size := 1
  extent := 1
  basicType := 2
  loop := none

instance : DecidablePred Loop.IsContig
  | .leaf (.contig _) _ => .isTrue trivial
  | .leaf (.vector _ _ _) _ => .isFalse id
  | .leaf (.blockindexed _ _) _ => .isFalse id
  | .leaf (.indexed _ _ _) _ => .isFalse id
  | .inner (.contig _) _ _ => .isTrue trivial
  | .inner (.vector _ _ _) _ _ => .isFalse id
  | .inner (.blockindexed _ _) _ _ => .isFalse id
  | .inner (.indexed _ _ _) _ _ => .isFalse id
  | .struct _ _ _ _ _ => .isFalse id

variable (flag : Flag)

/-- The element of a loop over a built-in type. -/
def Handle.builtinElement (old : Handle) (elSize : Int) : Element :=
  if flag = .allBytes then ⟨1, 1, mpiByte.value⟩ else ⟨elSize, elSize, old.value⟩

/-- The elements that one instance of a built-in type of this size counts for. -/
def Flag.unit (elSize : Int) : Nat :=
  if flag = .allBytes then elSize.toNat else 1

/-- The element of a loop over a derived type. -/
def Handle.derivedElement (old : Handle) : Element :=
  ⟨old.size, old.extent, old.basicType⟩

/-- `Dataloop_create_contiguous` -/
def createContiguous (count : Nat) (old : Handle) : Loop × Nat :=
  match old.loop with
  | none =>
    (.leaf (.contig (count * flag.unit old.size))
      (old.builtinElement flag old.size), 1)
  | some (loop, depth) =>
    if loop.IsContig ∧ old.size = old.extent then (loop.multiplied count, depth)
    else (.inner (.contig count) old.derivedElement loop, depth + 1)

/-- `Dataloop_create_vector` -/
def createVector
    (count blocklength : Nat)
    (stride : Int)
    (strideinbytes : Bool)
    (old : Handle) : Loop × Nat :=
  if count = 0 ∨ blocklength = 0 then
    createContiguous flag 0 mpiInt
  else if count = 1 then
    createContiguous flag blocklength old
  else
    match old.loop with
    | none =>
      let element := old.builtinElement flag old.size
      (.leaf (.vector count (blocklength * flag.unit old.size)
        (if strideinbytes then stride else stride * element.elExtent)) element, 1)
    | some (loop, depth) =>
      (.inner (.vector count blocklength
        (if strideinbytes then stride else stride * old.extent))
        old.derivedElement loop, depth + 1)

/-- The neighbours in a list that are not this far apart. -/
def countBreaks (step : Int) : List Int → Nat
  | current :: next :: rest =>
    (if current + step ≠ next then 1 else 0) + countBreaks step (next :: rest)
  | _ => 0

/-- `DLOOP_Type_blockindexed_count_contig` -/
def blockindexedCountContig
    (blklen : Nat)
    (disps : List Int)
    (dispinbytes : Bool)
    (oldExtent : Int) : Nat :=
  1 + countBreaks (if dispinbytes then blklen * oldExtent else blklen) disps

/-- Displacements in bytes -/
def dispsInBytes
    (disps : List Int)
    (dispinbytes : Bool)
    (oldExtent : Int) : List Int :=
  if dispinbytes then disps else disps.map fun disp => disp * oldExtent

/-- The stride between displacements that start at zero and are evenly spaced. -/
def fixedStride : List Int → Option Int
  | first :: second :: rest =>
    if first = 0 ∧ countBreaks (second - first) (first :: second :: rest) = 0 then
      some (second - first)
    else none
  | _ => none

/-- The extent that displacements of a blockindexed type count in. -/
def Handle.blockExtent (old : Handle) : Int :=
  if old.loop.isNone then old.size else old.extent

/-- `Dataloop_create_blockindexed` -/
def createBlockindexed
    (blklen : Nat)
    (disps : List Int)
    (dispinbytes : Bool)
    (old : Handle) : Loop × Nat :=
  if disps.length = 0 ∨ blklen = 0 then
    createContiguous flag 0 mpiInt
  else
    let oldExtent := old.blockExtent
    let contigCount := blockindexedCountContig blklen disps dispinbytes oldExtent
    if contigCount = 1 ∧ disps.head? = some 0 then
      createContiguous flag (disps.length * blklen) old
    else
      let merged := decide (contigCount = 1)
      let blocks := if merged then blklen * disps.length else blklen
      let offsets := dispsInBytes (if merged then disps.take 1 else disps) dispinbytes
        oldExtent
      match fixedStride offsets, old.loop with
      | some stride, _ => createVector flag offsets.length blocks stride true old
      | none, none =>
        (.leaf (.blockindexed (blocks * flag.unit oldExtent) offsets)
          (old.builtinElement flag oldExtent), 1)
      | none, some (loop, depth) =>
        (.inner (.blockindexed blocks offsets) old.derivedElement loop, depth + 1)

/-- Neighbouring blocks put together, and empty ones dropped, behind a first block. -/
def compact (unit : Int) (current : Nat × Int) : List (Nat × Int) → List (Nat × Int)
  | [] => [current]
  | block :: rest =>
    if block.1 = 0 then compact unit current rest
    else if current.2 + current.1 * unit = block.2 then
      compact unit (current.1 + block.1, current.2) rest
    else current :: compact unit block rest

/-- `DLOOP_Type_indexed_count_contig` -/
def indexedCountContig
    (first : Nat × Int)
    (rest : List (Nat × Int))
    (dispinbytes : Bool)
    (oldExtent : Int) : Nat :=
  (compact (if dispinbytes then oldExtent else 1) first rest).length

/-- `DLOOP_Type_indexed_array_copy` -/
def indexedArrayCopy
    (first : Nat × Int)
    (rest : List (Nat × Int))
    (dispinbytes : Bool)
    (oldExtent : Int) : List (Nat × Int) :=
  let inBytes (block : Nat × Int) : Nat × Int :=
    (block.1, if dispinbytes then block.2 else block.2 * oldExtent)
  compact oldExtent (inBytes first) (rest.map inBytes)

/-- `Dataloop_create_indexed`, with the block lengths and displacements. There is no
result where an assertion about the copied arrays fails. -/
def createIndexed
    (blocks : List (Nat × Int))
    (dispinbytes : Bool)
    (old : Handle) : Option (Loop × Nat) :=
  match blocks with
  | [] => some (createContiguous flag 0 mpiInt)
  | first :: rest =>
    let oldTypeCount := (blocks.map Prod.fst).sum
    let contigCount := indexedCountContig first rest dispinbytes old.extent
    if contigCount = 1 ∧ first.2 = 0 then
      some (createContiguous flag oldTypeCount old)
    else if contigCount = 1 then
      some (createBlockindexed flag oldTypeCount [first.2] dispinbytes old)
    else if rest.all fun block => block.1 = first.1 then
      some (createBlockindexed flag first.1 (blocks.map Prod.snd) dispinbytes old)
    else
      let copied := indexedArrayCopy first rest dispinbytes old.extent
      if copied.length ≠ contigCount then none
      else
        match old.loop with
        | none =>
          let scaled := copied.map fun block =>
            (block.1 * flag.unit old.extent, block.2)
          some (.leaf (.indexed scaled oldTypeCount (blocks.length - contigCount))
            (old.builtinElement flag old.extent), 1)
        | some (loop, depth) =>
          some (.inner (.indexed copied oldTypeCount 0) old.derivedElement loop, depth + 1)

/-- A block of a struct type. There is no old type for `MPI_LB` and `MPI_UB`. -/
structure StructEntry where
  blklen : Nat
  disp : Int
  oldtype : Option Handle

/-- A block that is neither empty nor a bound. -/
structure RealEntry where
  blklen : Nat
  disp : Int
  oldtype : Handle

/-- The blocks that count. -/
def realEntries (entries : List StructEntry) : List RealEntry :=
  entries.filterMap fun entry =>
    if entry.blklen = 0 then none
    else entry.oldtype.map fun oldtype => ⟨entry.blklen, entry.disp, oldtype⟩

/-- `DLOOP_Dataloop_create_unique_type_struct`: the blocks of the type from the first
one on, the empty ones among them too. -/
def createUniqueTypeStruct
    (entries : List StructEntry)
    (first : RealEntry) : Option (Loop × Nat) :=
  let isFirst (entry : StructEntry) : Bool :=
    entry.oldtype.any fun oldtype => oldtype.value = first.oldtype.value
  let blocks := (entries.dropWhile fun entry =>
      entry.blklen = 0 || !isFirst entry).filter isFirst
  createIndexed flag (blocks.map fun entry => (entry.blklen, entry.disp)) true first.oldtype

/-- `DLOOP_Dataloop_create_basic_all_bytes_struct` -/
def createBasicAllBytesStruct (real : List RealEntry) : Option (Loop × Nat) :=
  createIndexed flag
    (real.map fun entry => (entry.oldtype.size.toNat * entry.blklen, entry.disp)) true
    mpiByte

/-- The loop below a struct for a block, and what the arrays hold for it. -/
def RealEntry.child (entry : RealEntry) : Loop :=
  match entry.oldtype.loop with
  | none => (createContiguous flag entry.blklen entry.oldtype).1
  | some (loop, _) => loop

def RealEntry.blocksize (entry : RealEntry) : Nat :=
  if entry.oldtype.loop.isNone then 1 else entry.blklen

def RealEntry.elExtent (entry : RealEntry) : Int :=
  if entry.oldtype.loop.isNone then
    entry.blklen * (entry.oldtype.builtinElement flag entry.oldtype.size).elExtent
  else entry.oldtype.extent

/-- The depth that is recorded for the old type of a block. -/
def RealEntry.oldDepth (entry : RealEntry) : Nat :=
  (entry.oldtype.loop.map Prod.snd).getD 0

/-- The general case of `Dataloop_create_struct`. -/
def createGeneralStruct (real : List RealEntry) : Loop × Nat :=
  let basics := real.filter fun entry => entry.oldtype.loop.isNone
  let derived := real.filter fun entry => entry.oldtype.loop.isSome
  let oldLoopDepth := (derived.map RealEntry.oldDepth).foldr max 0
  (.struct real.length (fun index => real[index].blocksize)
    (fun index => real[index].disp) (fun index => real[index].elExtent flag)
    (fun index => real[index].child flag),
    if basics = [] then oldLoopDepth + 1 else max (oldLoopDepth + 1) 2)

/-- `Dataloop_create_struct`, with the blocks that `Segment_mpi_flatten` finds. -/
def createStructType
    (entries : List StructEntry)
    (flattened : List (Nat × Int)) : Option (Loop × Nat) :=
  match realEntries entries with
  | [] => some (createContiguous flag 0 mpiInt)
  | [entry] =>
    some (createBlockindexed flag entry.blklen [entry.disp] true entry.oldtype)
  | first :: rest =>
    let real := first :: rest
    let nrBasics := (real.filter fun entry => entry.oldtype.loop.isNone).length
    let nrDerived := (real.filter fun entry => entry.oldtype.loop.isSome).length
    let unique := real.all fun entry => entry.oldtype.value = first.oldtype.value
    if (nrDerived = 0 ∨ nrBasics = 0) ∧ unique then
      createUniqueTypeStruct flag entries first
    else if nrDerived = 0 ∧ flag ≠ .heterogeneous then
      createBasicAllBytesStruct flag real
    else if flag ≠ .heterogeneous then
      createIndexed flag flattened true mpiByte
    else
      some (createGeneralStruct flag real)

/-- The datatypes with loops that the create functions have made. A dup has a copy of
the loops of its original and their depth, and so has a resized type; a resized
built-in type has its extent in its loop. -/
inductive Created : Handle → Prop
  | builtin {handle : Handle} (noLoop : handle.loop = none) : Created handle
  | contiguous {handle old : Handle} (count : Nat)
      (oldCreated : Created old)
      (made : handle.loop = some (createContiguous flag count old)) : Created handle
  | vector {handle old : Handle} (count blocklength : Nat) (stride : Int)
      (strideinbytes : Bool)
      (oldCreated : Created old)
      (made : handle.loop = some (createVector flag count blocklength stride strideinbytes old)) :
      Created handle
  | blockindexed {handle old : Handle} (blklen : Nat) (disps : List Int)
      (dispinbytes : Bool)
      (oldCreated : Created old)
      (made : handle.loop = some (createBlockindexed flag blklen disps dispinbytes old)) :
      Created handle
  | indexed {handle old : Handle} (blocks : List (Nat × Int)) (dispinbytes : Bool)
      (oldCreated : Created old)
      {made : Loop × Nat}
      (returned : createIndexed flag blocks dispinbytes old = some made)
      (stored : handle.loop = some made) : Created handle
  | struct {handle : Handle} (entries : List StructEntry) (flattened : List (Nat × Int))
      (oldCreated : ∀ entry ∈ entries, ∀ old, entry.oldtype = some old → Created old)
      {made : Loop × Nat}
      (returned : createStructType flag entries flattened = some made)
      (stored : handle.loop = some made) : Created handle
  | dup {handle old : Handle}
      (oldCreated : Created old)
      (copied : handle.loop = old.loop) : Created handle
  | resizedBuiltin {handle old : Handle} {shape : Shape} {element : Element}
      {depth : Nat}
      (made : createContiguous flag 1 old = (.leaf shape element, depth))
      (noLoop : old.loop = none)
      (resized : handle.loop =
        some (.leaf shape { element with elExtent := handle.extent }, depth)) :
      Created handle

/-- The depth that is recorded is the depth of the loops. -/
def Handle.Recorded (handle : Handle) : Prop :=
  ∀ made ∈ handle.loop, made.2 = made.1.depth

theorem Loop.depth_multiplied (factor : Nat) (loop : Loop) :
    (loop.multiplied factor).depth = loop.depth := by
  unfold Loop.multiplied
  split <;> rfl

theorem mpiInt_recorded : mpiInt.Recorded := nofun

theorem mpiByte_recorded : mpiByte.Recorded := nofun

section

variable {old : Handle} (recorded : old.Recorded)

include recorded

theorem createContiguous_depth (count : Nat) :
    (createContiguous flag count old).2 = (createContiguous flag count old).1.depth := by
  unfold createContiguous
  cases found : old.loop with
  | none => rfl
  | some made =>
    have depth_eq := recorded made found
    dsimp only
    split
    · rw [Loop.depth_multiplied]
      exact depth_eq
    · exact congrArg (· + 1) depth_eq

theorem createVector_depth
    (count blocklength : Nat)
    (stride : Int)
    (strideinbytes : Bool) :
    (createVector flag count blocklength stride strideinbytes old).2 =
      (createVector flag count blocklength stride strideinbytes old).1.depth := by
  unfold createVector
  split
  · exact createContiguous_depth flag mpiInt_recorded 0
  split
  · exact createContiguous_depth flag recorded blocklength
  cases found : old.loop with
  | none => rfl
  | some made => exact congrArg (· + 1) (recorded made found)

theorem createBlockindexed_depth
    (blklen : Nat)
    (disps : List Int)
    (dispinbytes : Bool) :
    (createBlockindexed flag blklen disps dispinbytes old).2 =
      (createBlockindexed flag blklen disps dispinbytes old).1.depth := by
  unfold createBlockindexed
  split
  · exact createContiguous_depth flag mpiInt_recorded 0
  dsimp only
  split
  · exact createContiguous_depth flag recorded _
  split
  · exact createVector_depth flag recorded _ _ _ _
  · rfl
  · next made _ found => exact congrArg (· + 1) (recorded _ found)

theorem createIndexed_depth
    {blocks : List (Nat × Int)} {dispinbytes : Bool} {made : Loop × Nat}
    (returned : createIndexed flag blocks dispinbytes old = some made) :
    made.2 = made.1.depth := by
  cases blocks with
  | nil =>
    obtain rfl := Option.some.inj returned
    exact createContiguous_depth flag mpiInt_recorded 0
  | cons first rest =>
    unfold createIndexed at returned
    dsimp only at returned
    split at returned
    · obtain rfl := Option.some.inj returned
      exact createContiguous_depth flag recorded _
    split at returned
    · obtain rfl := Option.some.inj returned
      exact createBlockindexed_depth flag recorded _ _ _
    split at returned
    · obtain rfl := Option.some.inj returned
      exact createBlockindexed_depth flag recorded _ _ _
    split at returned
    · cases returned
    cases found : old.loop with
    | none =>
      rw [found] at returned
      obtain rfl := Option.some.inj returned
      rfl
    | some under =>
      rw [found] at returned
      obtain rfl := Option.some.inj returned
      exact congrArg (· + 1) (recorded under found)

end

section

theorem RealEntry.child_depth
    {entry : RealEntry}
    (recorded : entry.oldtype.Recorded) :
    (entry.child flag).depth = if entry.oldtype.loop.isNone then 1 else entry.oldDepth := by
  unfold RealEntry.child RealEntry.oldDepth createContiguous
  cases found : entry.oldtype.loop with
  | none => rfl
  | some made => exact (recorded made found).symm

/-- The deepest loop below a struct is below one of its derived types, or made for a
built-in type. -/
theorem foldr_child_depth
    {real : List RealEntry}
    (recorded : ∀ entry ∈ real, entry.oldtype.Recorded) :
    (real.map fun entry => (entry.child flag).depth).foldr max 0 =
      max (((real.filter fun entry => entry.oldtype.loop.isSome).map
          RealEntry.oldDepth).foldr max 0)
        (if real.filter (fun entry => entry.oldtype.loop.isNone) = [] then 0 else 1) := by
  induction real with
  | nil => rfl
  | cons entry rest ih =>
    rw [forall_mem_cons] at recorded
    rw [map_cons, foldr_cons, ih recorded.2,
      entry.child_depth flag recorded.1, filter_cons, filter_cons]
    cases entry.oldtype.loop with
    | none =>
      simp only [isNone_none, isSome_none, if_true, Bool.false_eq_true, if_false, reduceCtorEq]
      split <;> omega
    | some made =>
      simp only [isNone_some, isSome_some, if_true,
        Bool.false_eq_true, if_false, map_cons, foldr_cons]
      omega

theorem createGeneralStruct_depth
    {real : List RealEntry}
    (recorded : ∀ entry ∈ real, entry.oldtype.Recorded) :
    (createGeneralStruct flag real).2 = (createGeneralStruct flag real).1.depth := by
  have deepest := foldr_child_depth flag recorded
  rw [← ofFn_getElem_eq_map] at deepest
  change _ = (ofFn fun index : Fin real.length =>
    (real[index].child flag).depth).foldr max 0 + 1
  change (ofFn fun index : Fin real.length =>
    (real[index].child flag).depth).foldr max 0 = _ at deepest
  rw [deepest]
  unfold createGeneralStruct
  dsimp only
  split <;> omega

section

variable
    {entries : List StructEntry}
    (recorded : ∀ entry ∈ entries, ∀ old, entry.oldtype = some old → old.Recorded)

include recorded

theorem realEntries_recorded :
    ∀ entry ∈ realEntries entries, entry.oldtype.Recorded := by
  intro entry member
  obtain ⟨source, inEntries, found⟩ := mem_filterMap.mp member
  split at found
  · cases found
  · obtain ⟨old, old_eq, rfl⟩ := map_eq_some_iff.mp found
    exact recorded source inEntries old old_eq

theorem createStructType_depth
    {flattened : List (Nat × Int)} {made : Loop × Nat}
    (returned : createStructType flag entries flattened = some made) :
    made.2 = made.1.depth := by
  have realRecorded := realEntries_recorded recorded
  unfold createStructType at returned
  generalize realEntries entries = real at returned realRecorded
  match real with
  | [] =>
    obtain rfl := Option.some.inj returned
    exact createContiguous_depth flag mpiInt_recorded 0
  | [entry] =>
    obtain rfl := Option.some.inj returned
    exact createBlockindexed_depth flag (realRecorded entry mem_cons_self) _ _ _
  | first :: second :: rest =>
    have firstRecorded := realRecorded first mem_cons_self
    dsimp only at returned
    split at returned
    · exact createIndexed_depth flag firstRecorded returned
    split at returned
    · exact createIndexed_depth flag mpiByte_recorded returned
    split at returned
    · exact createIndexed_depth flag mpiByte_recorded returned
    obtain rfl := Option.some.inj returned
    exact createGeneralStruct_depth flag realRecorded

end

end

/-- The create functions record the depth of the loops. -/
theorem Created.recorded
    {handle : Handle}
    (created : Created flag handle) :
    handle.Recorded := by
  induction created with
  | builtin noLoop =>
    intro made found
    rw [noLoop] at found
    cases found
  | contiguous count _ made ih =>
    intro pair found
    obtain rfl := Option.some.inj (made.symm.trans found)
    exact createContiguous_depth flag ih count
  | vector count blocklength stride strideinbytes _ made ih =>
    intro pair found
    obtain rfl := Option.some.inj (made.symm.trans found)
    exact createVector_depth flag ih _ _ _ _
  | blockindexed blklen disps dispinbytes _ made ih =>
    intro pair found
    obtain rfl := Option.some.inj (made.symm.trans found)
    exact createBlockindexed_depth flag ih _ _ _
  | indexed blocks dispinbytes _ returned stored ih =>
    intro pair found
    obtain rfl := Option.some.inj (stored.symm.trans found)
    exact createIndexed_depth flag ih returned
  | struct entries flattened _ returned stored ih =>
    intro pair found
    obtain rfl := Option.some.inj (stored.symm.trans found)
    exact createStructType_depth flag ih returned
  | dup _ copied ih =>
    intro pair found
    exact ih pair (copied.symm.trans found)
  | resizedBuiltin made noLoop resized =>
    intro pair found
    obtain rfl := Option.some.inj (resized.symm.trans found)
    unfold createContiguous at made
    rw [noLoop] at made
    exact (congrArg Prod.snd made).symm

end Mpich.Dataloop
