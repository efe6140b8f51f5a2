import Mpich.Datatypes.Subarray

/-!
# Distributed arrays

The library builds a darray type from blocks and cycles of blocks, one dimension
after the other, and ROMIO has its own copy of that code. The two make the same calls,
though into objects of their own, so that the types agree in all that a call fills in.
-/

namespace Mpich.Romio

open Datatypes List Function

/-- `array_of_distribs` -/
inductive Distrib
  | block
  | cyclic
  | none

/-- The arguments that describe the array. -/
structure Darray where
  size : Int
  rank : Int
  ndims : Nat
  gsizes : Nat → Int
  distribs : Nat → Distrib
  dargs : Nat → Int
  psizes : Nat → Int
  order : Order

/-- `MPI_DISTRIBUTE_DFLT_DARG` -/
def dfltDarg : Int := -49767

namespace Darray

variable (array : Darray)

/-- The dimensions in the order of the loop. -/
def dims : List Nat :=
  array.order.fastestFirst (range array.ndims)

/-- This dimension is the one that changes fastest. -/
def isFastest (dim : Nat) : Bool :=
  match array.order with
  | .fortran => dim == 0
  | .c => dim == array.ndims - 1

/-- The dimensions that change faster than this one, in the order of the loop. -/
def faster (dim : Nat) : List Nat :=
  match array.order with
  | .fortran => range dim
  | .c => (range' (dim + 1) (array.ndims - 1 - dim)).reverse

end Darray

namespace Library

/-- `MPIOI_Type_block` of the library -/
def typeBlock
    (fresh : Datatype)
    (array : Darray)
    (dim : Nat)
    (nprocs rank darg origExtent : Int)
    (typeOld : Tree) : Option (Tree × Int) :=
  let globalSize := array.gsizes dim
  let blksize := if darg = dfltDarg then (globalSize + nprocs - 1).tdiv nprocs else darg
  if darg ≠ dfltDarg ∧ (blksize ≤ 0 ∨ blksize * nprocs < globalSize) then
    none
  else
    let j := globalSize - blksize * rank
    let mysize := if blksize < j then blksize else j
    let mysize := if mysize < 0 then 0 else mysize
    let stride := (array.faster dim).foldl (fun stride i => stride * array.gsizes i)
      origExtent
    let typeNew :=
      if array.isFastest dim then .contiguous fresh mysize.toNat typeOld
      else .vector fresh mysize.toNat 1 stride true typeOld
    some (typeNew, if mysize = 0 then 0 else blksize * rank)

/-- `MPIOI_Type_cyclic` of the library -/
def typeCyclic
    (fresh : Nat → Datatype)
    (array : Darray)
    (dim : Nat)
    (nprocs rank darg origExtent : Int)
    (typeOld : Tree) : Option (Tree × Int) :=
  let blksize := if darg = dfltDarg then 1 else darg
  if blksize ≤ 0 then
    none
  else
    let stIndex := rank * blksize
    let endIndex := array.gsizes dim - 1
    let rem := (endIndex - stIndex + 1).tmod (nprocs * blksize)
    let localSize :=
      if endIndex < stIndex then 0
      else (endIndex - stIndex + 1).tdiv (nprocs * blksize) * blksize +
        (if rem < blksize then rem else blksize)
    let count := localSize.tdiv blksize
    let rem := localSize.tmod blksize
    let stride := (array.faster dim).foldl (fun stride i => stride * array.gsizes i)
      (nprocs * blksize * origExtent)
    let typeNew := .vector (fresh 0) count.toNat blksize.toNat stride true typeOld
    let typeNew :=
      if rem ≠ 0 then
        .struct (fresh 1) 2 ![1, rem.toNat] ![0, count * stride] ![typeNew, typeOld]
      else
        typeNew
    if array.isFastest dim then
      some (.struct (fresh 2) 3 (fun _ => 1)
        ![0, rank * blksize * origExtent, origExtent * array.gsizes dim]
        ![.builtin .mpiLb, typeNew, .builtin .mpiUb], 0)
    else
      some (typeNew, if localSize = 0 then 0 else rank * blksize)

/-- The loop that finds the place of the process in the grid. -/
def coords (array : Darray) : Nat → Int :=
  ((range array.ndims).foldl
    (fun ((procs, tmpRank, coords) : Int × Int × (Nat → Int)) i =>
      let procs := procs.tdiv (array.psizes i)
      (procs, tmpRank.tmod procs, update coords i (tmpRank.tdiv procs)))
    (array.size, array.rank, fun _ => 0)).2.2

/-- The `switch` in the loop over the dimensions. -/
def nextDim
    (fresh : Nat → Datatype)
    (array : Darray)
    (origExtent : Int)
    (dim : Nat)
    (typeOld : Tree) : Option (Tree × Int) :=
  match array.distribs dim, array.order with
  | .block, _ =>
    typeBlock (fresh 0) array dim (array.psizes dim) (coords array dim)
      (array.dargs dim) origExtent typeOld
  | .cyclic, _ =>
    typeCyclic fresh array dim (array.psizes dim) (coords array dim)
      (array.dargs dim) origExtent typeOld
  | .none, .fortran => typeBlock (fresh 0) array dim 1 0 dfltDarg origExtent typeOld
  | .none, .c =>
    typeBlock (fresh 0) array dim (array.psizes dim) (coords array dim) dfltDarg origExtent typeOld

/-- The loop over the dimensions, with `st_offsets`. -/
def nestDims
    (fresh : Nat → Nat → Datatype)
    (array : Darray)
    (origExtent : Int) : List Nat → Tree × (Nat → Int) → Option (Tree × (Nat → Int))
  | [], built => some built
  | dim :: dims, (typeOld, stOffsets) =>
    (nextDim (fresh dim) array origExtent dim typeOld).bind fun (typeNew, stOffset) =>
      nestDims fresh array origExtent dims (typeNew, update stOffsets dim stOffset)

/-- `Type_convert_darray` -/
def typeConvertDarray
    (config : AlignConfig)
    (fresh : Nat → Nat → Datatype)
    (array : Darray)
    (oldtype : Tree) : Option Tree :=
  let origExtent := (oldtype.handle config).extent
  (nestDims fresh array origExtent array.dims (oldtype, fun _ => 0)).map
    fun (typeNew, stOffsets) =>
      let (_, disp) := array.dims.foldl
        (fun ((tmpSize, disp) : Int × Int) i =>
          (tmpSize * array.gsizes i, disp + tmpSize * stOffsets i))
        (1, 0)
      .struct (fresh array.ndims 0) 3 (fun _ => 1)
        ![0, disp * origExtent,
          (range array.ndims).foldl (fun upper i => upper * array.gsizes i) origExtent]
        ![.builtin .mpiLb, typeNew, .builtin .mpiUb]

end Library

namespace Adio

/-- `ADIOI_MIN` -/
def adioiMin (a b : Int) : Int :=
  if a < b then a else b

/-- `MPIOI_Type_block` of ROMIO -/
def typeBlock
    (fresh : Datatype)
    (array : Darray)
    (dim : Nat)
    (nprocs rank darg origExtent : Int)
    (typeOld : Tree) : Option (Tree × Int) :=
  let globalSize := array.gsizes dim
  let blksize := if darg = dfltDarg then (globalSize + nprocs - 1).tdiv nprocs else darg
  if darg ≠ dfltDarg ∧ (blksize ≤ 0 ∨ blksize * nprocs < globalSize) then
    none
  else
    let j := globalSize - blksize * rank
    let mysize := adioiMin blksize j
    let mysize := if mysize < 0 then 0 else mysize
    let stride := (array.faster dim).foldl (fun stride i => stride * array.gsizes i)
      origExtent
    let typeNew :=
      if array.isFastest dim then .contiguous fresh mysize.toNat typeOld
      else .vector fresh mysize.toNat 1 stride true typeOld
    some (typeNew, if mysize = 0 then 0 else blksize * rank)

/-- `MPIOI_Type_cyclic` of ROMIO -/
def typeCyclic
    (fresh : Nat → Datatype)
    (array : Darray)
    (dim : Nat)
    (nprocs rank darg origExtent : Int)
    (typeOld : Tree) : Option (Tree × Int) :=
  let blksize := if darg = dfltDarg then 1 else darg
  if blksize ≤ 0 then
    none
  else
    let stIndex := rank * blksize
    let endIndex := array.gsizes dim - 1
    let rem := (endIndex - stIndex + 1).tmod (nprocs * blksize)
    let localSize :=
      if endIndex < stIndex then 0
      else (endIndex - stIndex + 1).tdiv (nprocs * blksize) * blksize + adioiMin rem blksize
    let count := localSize.tdiv blksize
    let rem := localSize.tmod blksize
    let stride := (array.faster dim).foldl (fun stride i => stride * array.gsizes i)
      (nprocs * blksize * origExtent)
    let typeNew := .vector (fresh 0) count.toNat blksize.toNat stride true typeOld
    let typeNew :=
      if rem ≠ 0 then
        .struct (fresh 1) 2 ![1, rem.toNat] ![0, count * stride] ![typeNew, typeOld]
      else
        typeNew
    if array.isFastest dim then
      some (.struct (fresh 2) 3 (fun _ => 1)
        ![0, rank * blksize * origExtent, origExtent * array.gsizes dim]
        ![.builtin .mpiLb, typeNew, .builtin .mpiUb], 0)
    else
      some (typeNew, if localSize = 0 then 0 else rank * blksize)

/-- The loop that finds the place of the process in the grid. -/
def coords (array : Darray) : Nat → Int :=
  ((range array.ndims).foldl
    (fun ((procs, tmpRank, coords) : Int × Int × (Nat → Int)) i =>
      let procs := procs.tdiv (array.psizes i)
      (procs, tmpRank.tmod procs, update coords i (tmpRank.tdiv procs)))
    (array.size, array.rank, fun _ => 0)).2.2

/-- The `switch` in the loop over the dimensions. -/
def nextDim
    (fresh : Nat → Datatype)
    (array : Darray)
    (origExtent : Int)
    (dim : Nat)
    (typeOld : Tree) : Option (Tree × Int) :=
  match array.distribs dim, array.order with
  | .block, _ =>
    typeBlock (fresh 0) array dim (array.psizes dim) (coords array dim)
      (array.dargs dim) origExtent typeOld
  | .cyclic, _ =>
    typeCyclic fresh array dim (array.psizes dim) (coords array dim)
      (array.dargs dim) origExtent typeOld
  | .none, .fortran => typeBlock (fresh 0) array dim 1 0 dfltDarg origExtent typeOld
  | .none, .c =>
    typeBlock (fresh 0) array dim (array.psizes dim) (coords array dim) dfltDarg origExtent typeOld

/-- The loop over the dimensions, with `st_offsets`. -/
def nestDims
    (fresh : Nat → Nat → Datatype)
    (array : Darray)
    (origExtent : Int) : List Nat → Tree × (Nat → Int) → Option (Tree × (Nat → Int))
  | [], built => some built
  | dim :: dims, (typeOld, stOffsets) =>
    (nextDim (fresh dim) array origExtent dim typeOld).bind fun (typeNew, stOffset) =>
      nestDims fresh array origExtent dims (typeNew, update stOffsets dim stOffset)

/-- `ADIO_Type_create_darray` -/
def typeCreateDarray
    (config : AlignConfig)
    (fresh : Nat → Nat → Datatype)
    (array : Darray)
    (oldtype : Tree) : Option Tree :=
  let origExtent := (oldtype.handle config).extent
  (nestDims fresh array origExtent array.dims (oldtype, fun _ => 0)).map
    fun (typeNew, stOffsets) =>
      let (_, disp) := array.dims.foldl
        (fun ((tmpSize, disp) : Int × Int) i =>
          (tmpSize * array.gsizes i, disp + tmpSize * stOffsets i))
        (1, 0)
      .struct (fresh array.ndims 0) 3 (fun _ => 1)
        ![0, disp * origExtent,
          (range array.ndims).foldl (fun upper i => upper * array.gsizes i) origExtent]
        ![.builtin .mpiLb, typeNew, .builtin .mpiUb]

end Adio

/-- The calls agree up to the objects that are filled in. -/
inductive SameCalls : Tree → Tree → Prop
  | refl (tree : Tree) : SameCalls tree tree
  | contiguous {old old' : Tree} {fresh fresh' : Datatype} {count : Nat}
      (same : SameCalls old old') :
      SameCalls (.contiguous fresh count old) (.contiguous fresh' count old')
  | vector {old old' : Tree} {fresh fresh' : Datatype} {count blocklength : Nat}
      {stride : Int} {strideinbytes : Bool} (same : SameCalls old old') :
      SameCalls (.vector fresh count blocklength stride strideinbytes old)
        (.vector fresh' count blocklength stride strideinbytes old')
  | struct {count : Nat} {olds olds' : Fin count → Tree} {fresh fresh' : Datatype}
      {blocklengths : Fin count → Nat} {displacements : Fin count → Int}
      (same : ∀ index, SameCalls (olds index) (olds' index)) :
      SameCalls (.struct fresh count blocklengths displacements olds)
        (.struct fresh' count blocklengths displacements olds')

/-- The handle with another count of blocks, the one field that may be left as it was. -/
def withBlocks : Oldtype → Int → Oldtype
  | .builtin basic, _ => .builtin basic
  | .derived dtp, blocks => .derived { dtp with nContigBlocks := blocks }

section

variable (config : AlignConfig)

theorem fold_withBlocks {Index : Type*} (block : Index → Block) (blocks : Index → Int)
    (indices : List Index) (scan : StructScan) (count : Int) :
    ∃ count', (indices.map fun index =>
        { block index with oldtype := withBlocks (block index).oldtype (blocks index) }
        ).foldl StructScan.next { scan with nContigBlocks := count } =
      { (indices.map block).foldl StructScan.next scan with nContigBlocks := count' } := by
  induction indices generalizing scan count with
  | nil => exact ⟨count, rfl⟩
  | cons index indices ih =>
    rw [map_cons, map_cons, foldl_cons, foldl_cons]
    obtain ⟨next, next_eq⟩ : ∃ next, StructScan.next { scan with nContigBlocks := count }
        { block index with
          oldtype := withBlocks (block index).oldtype (blocks index) } =
        { scan.next (block index) with nContigBlocks := next } := by
      unfold StructScan.next
      split
      · exact ⟨count, rfl⟩
      · cases (block index).oldtype <;> exact ⟨_, rfl⟩
    rw [next_eq]
    exact ih _ next

theorem SameCalls.withBlocks {tree tree' : Tree} (same : SameCalls tree tree') :
    tree'.typeMap config = tree.typeMap config ∧
      ∃ blocks, tree'.handle config = Romio.withBlocks (tree.handle config) blocks := by
  induction same with
  | refl tree =>
    refine ⟨rfl, ?_⟩
    cases tree.handle config with
    | builtin basic => exact ⟨0, rfl⟩
    | derived dtp => exact ⟨_, rfl⟩
  | @contiguous old old' fresh fresh' count same ih =>
    obtain ⟨typeMap, blocks, handle⟩ := ih
    rw [Tree.typeMap, Tree.typeMap, Tree.handle, Tree.handle, handle, typeMap]
    cases old.handle config <;> unfold typeContiguous <;> split <;> exact ⟨rfl, _, rfl⟩
  | @vector old old' fresh fresh' count blocklength stride strideinbytes same ih =>
    obtain ⟨typeMap, blocks, handle⟩ := ih
    rw [Tree.typeMap, Tree.typeMap, Tree.handle, Tree.handle, handle, typeMap]
    cases old.handle config <;> unfold typeVector <;> split <;> exact ⟨rfl, _, rfl⟩
  | @struct count olds olds' fresh fresh' blocklengths displacements same ih =>
    choose typeMap blocks handle using ih
    have extent : ∀ index,
        ((olds' index).handle config).extent = ((olds index).handle config).extent := by
      intro index
      rw [handle]
      cases (olds index).handle config <;> rfl
    refine ⟨?_, ?_⟩
    · simp only [Tree.typeMap, typeMap, extent]
    · obtain ⟨scanned, scan_eq⟩ := fold_withBlocks
        (fun index => ⟨blocklengths index, displacements index,
          (olds index).handle config⟩) blocks (finRange count) .start 0
      have align_eq : structAlignsize config ((finRange count).map fun index =>
          ⟨blocklengths index, displacements index,
            Romio.withBlocks ((olds index).handle config) (blocks index)⟩) =
          structAlignsize config ((finRange count).map fun index =>
            ⟨blocklengths index, displacements index, (olds index).handle config⟩) := by
        rw [structAlignsize, structAlignsize, foldl_map, foldl_map]
        congr 1
        funext align index
        cases (olds index).handle config <;> rfl
      simp only [Tree.handle, handle]
      unfold typeStruct
      simp only [all_map, comp_def]
      by_cases empty : ((finRange count).all fun index =>
          decide (blocklengths index = 0)) = true
      · rw [if_pos empty, if_pos empty]
        exact ⟨_, rfl⟩
      · rw [if_neg empty, if_neg empty, align_eq]
        have scan_eq : ((finRange count).map fun index =>
            ⟨blocklengths index, displacements index,
              Romio.withBlocks ((olds index).handle config) (blocks index)⟩).foldl
              StructScan.next .start = _ := scan_eq
        rw [scan_eq]
        exact ⟨scanned, rfl⟩

end

/-- A dimension that has been built by the same calls. -/
def SameDim (adio library : Tree × Int) : Prop :=
  SameCalls adio.1 library.1 ∧ adio.2 = library.2

/-- The same branch is taken on both sides. -/
theorem rel_ite {α : Type*} {r : α → α → Prop} {condition : Prop} [Decidable condition]
    {first second first' second' : α} (isTrue : r first first')
    (isFalse : r second second') :
    r (if condition then first else second) (if condition then first' else second') := by
  split
  · exact isTrue
  · exact isFalse

theorem SameCalls.cons {count : Nat} {old old' : Tree} {olds olds' : Fin count → Tree}
    (head : SameCalls old old') (tail : ∀ index, SameCalls (olds index) (olds' index)) :
    ∀ index, SameCalls (Matrix.vecCons old olds index) (Matrix.vecCons old' olds' index) :=
  Fin.cases head tail

section

variable {array : Darray} {dim : Nat} {nprocs rank darg origExtent : Int}
  {adioOld libraryOld : Tree} (same : SameCalls adioOld libraryOld)
include same

theorem sameDim_typeBlock (adioFresh libraryFresh : Datatype) :
    Option.Rel SameDim
      (Adio.typeBlock adioFresh array dim nprocs rank darg origExtent adioOld)
      (Library.typeBlock libraryFresh array dim nprocs rank darg origExtent libraryOld) := by
  unfold Adio.typeBlock Library.typeBlock
  refine rel_ite (r := Option.Rel SameDim) .none (.some ⟨?_, rfl⟩)
  exact rel_ite (r := SameCalls) (.contiguous same) (.vector same)

theorem sameDim_typeCyclic (adioFresh libraryFresh : Nat → Datatype) :
    Option.Rel SameDim
      (Adio.typeCyclic adioFresh array dim nprocs rank darg origExtent adioOld)
      (Library.typeCyclic libraryFresh array dim nprocs rank darg origExtent libraryOld) := by
  unfold Adio.typeCyclic Library.typeCyclic
  refine rel_ite (r := Option.Rel SameDim) .none ?_
  refine rel_ite (r := Option.Rel SameDim)
    (.some ⟨.struct (.cons (.refl _) (.cons ?_ (.cons (.refl _) fun index =>
      index.elim0))), rfl⟩) (.some ⟨?_, rfl⟩) <;>
    exact rel_ite (r := SameCalls)
      (.struct (.cons (.vector same) (.cons same fun index => index.elim0)))
      (.vector same)

theorem sameDim_nextDim (adioFresh libraryFresh : Nat → Datatype) :
    Option.Rel SameDim
      (Adio.nextDim adioFresh array origExtent dim adioOld)
      (Library.nextDim libraryFresh array origExtent dim libraryOld) := by
  unfold Adio.nextDim Library.nextDim
  cases array.distribs dim with
  | block => exact sameDim_typeBlock same _ _
  | cyclic => exact sameDim_typeCyclic same _ _
  | none => cases array.order <;> exact sameDim_typeBlock same _ _

theorem sameDims_nestDims (adioFresh libraryFresh : Nat → Nat → Datatype)
    (dims : List Nat) (stOffsets : Nat → Int) :
    Option.Rel (fun adio library => SameCalls adio.1 library.1 ∧ adio.2 = library.2)
      (Adio.nestDims adioFresh array origExtent dims (adioOld, stOffsets))
      (Library.nestDims libraryFresh array origExtent dims (libraryOld, stOffsets)) := by
  induction dims generalizing adioOld libraryOld stOffsets with
  | nil => exact .some ⟨same, rfl⟩
  | cons dim dims ih =>
    have next := @sameDim_nextDim array dim origExtent _ _ same (adioFresh dim) (libraryFresh dim)
    rw [Adio.nestDims, Library.nestDims]
    generalize Adio.nextDim _ _ _ _ _ = adioNext, Library.nextDim _ _ _ _ _ = libraryNext
      at next
    cases next with
    | none => exact .none
    | @some adio library both =>
      rcases adio with ⟨adioNew, adioOffset⟩
      rcases library with ⟨libraryNew, libraryOffset⟩
      obtain ⟨sameNew, rfl⟩ := both
      exact ih sameNew _

end

/-- The types have the same map and bounds. -/
def Agree (config : AlignConfig) (adio library : Tree) : Prop :=
  adio.typeMap config = library.typeMap config ∧
    (adio.handle config).lb = (library.handle config).lb ∧
    (adio.handle config).extent = (library.handle config).extent

theorem SameCalls.agree (config : AlignConfig) {adio library : Tree}
    (same : SameCalls adio library) : Agree config adio library := by
  obtain ⟨typeMap, blocks, handle⟩ := same.withBlocks config
  rw [Agree, typeMap, handle]
  cases adio.handle config <;> exact ⟨rfl, rfl, rfl⟩

/-- ROMIO accepts the same arguments as the library, and the types agree. -/
theorem typeCreateDarray_agrees
    (config : AlignConfig)
    (adioFresh libraryFresh : Nat → Nat → Datatype)
    (array : Darray)
    (oldtype : Tree) :
    Option.Rel (Agree config)
      (Adio.typeCreateDarray config adioFresh array oldtype)
      (Library.typeConvertDarray config libraryFresh array oldtype) := by
  have dims := @sameDims_nestDims array (oldtype.handle config).extent _ _
    (.refl oldtype) adioFresh libraryFresh array.dims fun _ => 0
  simp only [Adio.typeCreateDarray, Library.typeConvertDarray]
  generalize Adio.nestDims _ _ _ _ _ = adioDims, Library.nestDims _ _ _ _ _ = libraryDims
    at dims
  cases dims with
  | none => exact .none
  | @some adio library both =>
    rcases adio with ⟨adioNew, stOffsets⟩
    rcases library with ⟨libraryNew, libraryOffsets⟩
    obtain ⟨sameNew, rfl⟩ := both
    exact .some (SameCalls.agree config (.struct (.cons (.refl _) (.cons sameNew
      (.cons (.refl _) fun index => index.elim0)))))

end Mpich.Romio
