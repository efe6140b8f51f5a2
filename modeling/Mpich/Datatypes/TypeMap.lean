import Mpich.Datatypes.Defs

/-!
# Type maps and the contiguity flag

A derivation tree is a sequence of constructor calls that ends in one datatype.
Next to the object that the calls record stands its type map: the built-in types
it consists of, in order, and their displacements.

When `is_contig` is set, so many instances of a type visit the bytes behind its
true lower bound one after the other. Every constructor but the struct one
preserves this.
-/

namespace Mpich.Datatypes

open Copies List

/-- A built-in type at a displacement. -/
structure Item where
  disp : Int
  basic : Basic
  deriving DecidableEq

instance : AddAction Int Item where
  vadd distance item := { item with disp := distance + item.disp }
  zero_vadd item := by
    cases item
    simp [HVAdd.hVAdd]
  add_vadd first second item := by
    cases item
    simp [HVAdd.hVAdd, add_assoc]

/-- The bytes that a type map visits, in order. -/
def bytes (typeMap : List Item) : List Int :=
  typeMap.flatMap fun item => run item.disp item.basic.size

@[simp] theorem bytes_append (first second : List Item) :
    bytes (first ++ second) = bytes first ++ bytes second :=
  flatMap_append

@[simp] theorem bytes_shifted
    (distance : Int)
    (typeMap : List Item) :
    bytes (shifted distance typeMap) = shifted distance (bytes typeMap) := by
  induction typeMap with
  | nil => rfl
  | cons item typeMap ih =>
    change run (distance + item.disp) item.basic.size ++ bytes (shifted distance typeMap) =
      shifted distance (run item.disp item.basic.size ++ bytes typeMap)
    rw [ih, shifted_append, shifted_run]

@[simp] theorem bytes_copies
    (count : Nat)
    (distance : Int)
    (typeMap : List Item) :
    bytes (copies count distance typeMap) = copies count distance (bytes typeMap) := by
  induction count generalizing typeMap with
  | zero => rfl
  | succ count ih => rw [copies, bytes_append, ih, bytes_shifted, copies]

theorem bytes_flatMap
    {Index : Type*}
    (list : List Index)
    (part : Index → List Item) :
    bytes (list.flatMap part) = list.flatMap fun index => bytes (part index) :=
  flatMap_assoc

/-- The markers take no bytes. -/
theorem bytes_filter (typeMap : List Item) :
    bytes (typeMap.filter fun item => !item.basic.isMarker) = bytes typeMap := by
  induction typeMap with
  | nil => rfl
  | cons item typeMap ih =>
    rw [filter_cons]
    split
    · change _ ++ bytes _ = _ ++ bytes _
      rw [ih]
    · rename_i notKept
      have isMarker : item.basic.isMarker = true := by
        simpa using notKept
      have size_eq := item.basic.marker_size (of_decide_eq_true isMarker)
      change _ = run item.disp item.basic.size ++ bytes typeMap
      rw [ih, size_eq]
      rfl

/-- `MPI_LB` -/
def Basic.mpiLb : Basic where
  kind := .lb
  size := 0
  marker_size := fun _ => rfl

/-- `MPI_UB` -/
def Basic.mpiUb : Basic where
  kind := .ub
  size := 0
  marker_size := fun _ => rfl

/-- Calls of the constructors. Each call fills in the object that it is given. -/
inductive Tree
  | builtin (basic : Basic)
  | pairtype (fresh : Datatype) (pair : PairLayout)
  | contiguous (fresh : Datatype) (count : Nat) (old : Tree)
  | vector
      (fresh : Datatype)
      (count blocklength : Nat)
      (stride : Int)
      (strideinbytes : Bool)
      (old : Tree)
  | blockindexed
      (fresh : Datatype)
      (blocklength : Nat)
      (displacements : List Int)
      (dispinbytes : Bool)
      (old : Tree)
  | indexed
      (fresh : Datatype)
      (blocks : List (Nat × Int))
      (dispinbytes : Bool)
      (old : Tree)
  | struct
      (fresh : Datatype)
      (count : Nat)
      (blocklengths : Fin count → Nat)
      (displacements : Fin count → Int)
      (oldtypes : Fin count → Tree)
  | createResized (fresh : Datatype) (lb extent : Int) (old : Tree)
  | dup (fresh : Datatype) (old : Tree)

namespace Tree

variable (config : AlignConfig)

/-- The handle that the calls end in. -/
def handle : Tree → Oldtype
  | .builtin basic => .builtin basic
  | .pairtype fresh pair => .derived (typeCreatePairtype config fresh pair)
  | .contiguous fresh count old => .derived (typeContiguous fresh count old.handle)
  | .vector fresh count blocklength stride strideinbytes old =>
    .derived (typeVector fresh count blocklength stride strideinbytes old.handle)
  | .blockindexed fresh blocklength displacements dispinbytes old =>
    .derived (typeBlockindexed fresh blocklength displacements dispinbytes old.handle)
  | .indexed fresh blocks dispinbytes old =>
    .derived (typeIndexed fresh blocks dispinbytes old.handle)
  | .struct fresh count blocklengths displacements oldtypes =>
    .derived
      (typeStruct config fresh
        ((finRange count).map fun index => {
          blocklength := blocklengths index
          displacement := displacements index
          oldtype := (oldtypes index).handle }))
  | .createResized fresh lb extent old =>
    .derived (typeCreateResized fresh lb extent old.handle)
  | .dup fresh old => .derived (typeDup fresh old.handle)

/-- The type map. -/
def typeMap : Tree → List Item
  | .builtin basic => [{ disp := 0, basic := basic }]
  | .pairtype _ pair => [{ disp := 0, basic := pair.first },
      { disp := pair.secondDisp, basic := pair.second }]
  | .contiguous _ count old => copies count (old.handle config).extent old.typeMap
  | .vector _ count blocklength stride strideinbytes old =>
    copies count (inBytes strideinbytes (old.handle config) stride)
      (copies blocklength (old.handle config).extent old.typeMap)
  | .blockindexed _ blocklength displacements dispinbytes old =>
    displacements.flatMap fun disp =>
      shifted (inBytes dispinbytes (old.handle config) disp)
        (copies blocklength (old.handle config).extent old.typeMap)
  | .indexed _ blocks dispinbytes old =>
    blocks.flatMap fun block =>
      shifted (inBytes dispinbytes (old.handle config) block.2)
        (copies block.1 (old.handle config).extent old.typeMap)
  | .struct _ count blocklengths displacements oldtypes =>
    (finRange count).flatMap fun index =>
      shifted (displacements index)
        (copies (blocklengths index) ((oldtypes index).handle config).extent
          (oldtypes index).typeMap)
  | .createResized _ lb extent old =>
    (old.typeMap.filter fun item => !item.basic.isMarker) ++
      [{ disp := lb, basic := .mpiLb }, { disp := lb + extent, basic := .mpiUb }]
  | .dup _ old => old.typeMap

/-- The call and all calls in front of it have this property. -/
def All (property : Tree → Prop) : Tree → Prop
  | .builtin basic => property (.builtin basic)
  | .pairtype fresh pair => property (.pairtype fresh pair)
  | .contiguous fresh count old =>
    property (.contiguous fresh count old) ∧ old.All property
  | .vector fresh count blocklength stride strideinbytes old =>
    property (.vector fresh count blocklength stride strideinbytes old) ∧ old.All property
  | .blockindexed fresh blocklength displacements dispinbytes old =>
    property (.blockindexed fresh blocklength displacements dispinbytes old) ∧ old.All property
  | .indexed fresh blocks dispinbytes old =>
    property (.indexed fresh blocks dispinbytes old) ∧ old.All property
  | .struct fresh count blocklengths displacements oldtypes =>
    property (.struct fresh count blocklengths displacements oldtypes) ∧
      ∀ index, (oldtypes index).All property
  | .createResized fresh lb extent old =>
    property (.createResized fresh lb extent old) ∧ old.All property
  | .dup fresh old => property (.dup fresh old) ∧ old.All property

instance decidableAll
    (property : Tree → Prop)
    [DecidablePred property] : DecidablePred (All property)
  | .builtin basic => inferInstanceAs (Decidable (property (.builtin basic)))
  | .pairtype fresh pair =>
    inferInstanceAs (Decidable (property (.pairtype fresh pair)))
  | .contiguous fresh count old =>
    have := decidableAll property old
    inferInstanceAs (Decidable (property (.contiguous fresh count old) ∧ _))
  | .vector fresh count blocklength stride strideinbytes old =>
    have := decidableAll property old
    inferInstanceAs (Decidable
      (property (.vector fresh count blocklength stride strideinbytes old) ∧ _))
  | .blockindexed fresh blocklength displacements dispinbytes old =>
    have := decidableAll property old
    inferInstanceAs (Decidable
      (property (.blockindexed fresh blocklength displacements dispinbytes old) ∧ _))
  | .indexed fresh blocks dispinbytes old =>
    have := decidableAll property old
    inferInstanceAs (Decidable (property (.indexed fresh blocks dispinbytes old) ∧ _))
  | .struct fresh count blocklengths displacements oldtypes =>
    have := fun index => decidableAll property (oldtypes index)
    inferInstanceAs (Decidable
      (property (.struct fresh count blocklengths displacements oldtypes) ∧
        ∀ index, (oldtypes index).All property))
  | .createResized fresh lb extent old =>
    have := decidableAll property old
    inferInstanceAs (Decidable (property (.createResized fresh lb extent old) ∧ _))
  | .dup fresh old =>
    have := decidableAll property old
    inferInstanceAs (Decidable (property (.dup fresh old) ∧ _))

/-- `MPI_INT` -/
def mpiInt : Tree :=
  .builtin {
    kind := .other
    size := 4
    marker_size := by decide }

/-- `MPI_DOUBLE` -/
def mpiDouble : Tree :=
  .builtin {
    kind := .double
    size := 8
    marker_size := by decide }

/-- No alignment defines. -/
def plainAlign : AlignConfig where
  doubleAlignmentException := none
  maxLongDoubleFpAlignment := none
  maxDoubleFpAlignment := none
  maxFpAlignment := none
  doublePosAlignment := false
  maxIntegerAlignment := none

/-- An object that has been cleared. -/
def cleared : Datatype where
  size := 0
  hasStickyLb := false
  hasStickyUb := false
  lb := 0
  ub := 0
  trueLb := 0
  trueUb := 0
  extent := 0
  alignsize := 0
  isContig := false
  nContigBlocks := 0

end Tree

/-- What a handle records about its type map, as far as contiguity goes. -/
structure Describes (old : Oldtype) (typeMap : List Item) : Prop where
  size_eq : old.size = (bytes typeMap).length
  extent_eq : old.extent = old.ub - old.lb
  contig : old.isContig = true → bytes typeMap ≠ [] →
    bytes typeMap = run old.trueLb (bytes typeMap).length ∧
      old.trueUb = old.trueLb + old.size ∧ old.extent = old.size

variable {old : Oldtype} {typeMap : List Item} (describes : Describes old typeMap)

section

include describes

theorem Describes.size_pos
    (occupied : bytes typeMap ≠ []) :
    0 < old.size := by
  rw [describes.size_eq]
  exact_mod_cast length_pos_of_ne_nil occupied

/-- A block of a contiguous type. -/
theorem Describes.block
    (isContig : old.isContig = true)
    (blocklength : Nat) :
    copies blocklength old.extent (bytes typeMap) =
      run old.trueLb (blocklength * (bytes typeMap).length) := by
  by_cases occupied : bytes typeMap = []
  · rw [occupied, copies_nil, length_nil, Nat.mul_zero]
    rfl
  · obtain ⟨bytes_eq, -, extent_eq⟩ := describes.contig isContig occupied
    rw [extent_eq, describes.size_eq]
    generalize (bytes typeMap).length = length at bytes_eq ⊢
    rw [bytes_eq, copies_run]

/-- So many instances of a contiguous type. -/
theorem Describes.instances
    (isContig : old.isContig = true)
    (count : Nat) :
    bytes (copies count old.extent typeMap) = run old.trueLb (count * old.size.toNat) := by
  rw [bytes_copies, describes.block isContig, describes.size_eq, Int.toNat_natCast]

end

/-- The bounds of a block of a type with a positive extent. -/
theorem blockBounds_of_pos
    (extent_eq : old.extent = old.ub - old.lb)
    (positive : 0 < old.extent)
    {blocklength : Nat}
    (nonempty : blocklength ≠ 0)
    (disp : Int) :
    old.blockBounds blocklength disp =
      (old.lb + disp, old.ub + old.extent * (blocklength - 1) + disp) := by
  rw [Oldtype.blockBounds, blockLbUb, if_neg nonempty, if_pos (by omega), add_right_comm]

variable (fresh : Datatype)

theorem describes_basic (basic : Basic) :
    Describes (.builtin basic) [{ disp := 0, basic := basic }] := by
  have bytes_eq : bytes [{ disp := 0, basic := basic }] = run 0 basic.size := by
    simp [bytes]
  refine ⟨?_, ?_, ?_⟩
  · rw [bytes_eq, length_run]
    rfl
  · simp [Oldtype.extent, Oldtype.ub, Oldtype.lb]
  · intro _ _
    rw [bytes_eq, length_run]
    exact ⟨rfl, (zero_add _).symm, rfl⟩

theorem describes_pairtype
    (config : AlignConfig)
    (pair : PairLayout) :
    Describes (.derived (typeCreatePairtype config fresh pair))
      [{ disp := 0, basic := pair.first }, { disp := pair.secondDisp, basic := pair.second }] := by
  have bytes_eq : bytes [{ disp := 0, basic := pair.first },
      { disp := pair.secondDisp, basic := pair.second }] =
      run 0 pair.first.size ++ run pair.secondDisp pair.second.size := by
    simp [bytes]
  refine ⟨?_, (sub_zero _).symm, ?_⟩
  · rw [bytes_eq, length_append, length_run, length_run]
    rfl
  · intro isContig _
    have size_eq : pair.first.size + pair.second.size = pair.sizeof := of_decide_eq_true isContig
    have first_le := pair.first_le
    have second_le := pair.second_le
    have behind : (pair.secondDisp : Int) = 0 + pair.first.size := by omega
    rw [bytes_eq, behind, run_append, length_run]
    refine ⟨rfl, ?_, ?_⟩
    · change (pair.secondDisp + pair.second.size : Int) =
        0 + (pair.first.size + pair.second.size : Nat)
      omega
    · change (pair.sizeof : Int) = (pair.first.size + pair.second.size : Nat)
      omega

theorem describes_zerolen
    (noBytes : bytes typeMap = []) :
    Describes (.derived (typeZerolen fresh)) typeMap := by
  refine ⟨?_, rfl, ?_⟩
  · rw [noBytes]
    rfl
  · exact fun _ occupied => absurd noBytes occupied

/-- A type whose old type has bytes, when the type has. -/
theorem occupied_of_copies
    {count : Nat} {distance : Int} {positions : List Int}
    (occupied : copies count distance positions ≠ []) :
    count ≠ 0 ∧ positions ≠ [] := by
  constructor
  · rintro rfl
    exact occupied rfl
  · rintro rfl
    exact occupied (copies_nil count distance)

section

include describes

theorem Describes.contiguous
    (count : Nat) :
    Describes (.derived (typeContiguous fresh count old)) (copies count old.extent typeMap) := by
  by_cases zero : count = 0
  · subst zero
    exact describes_zerolen fresh rfl
  · rw [typeContiguous, if_neg zero]
    refine ⟨?_, rfl, ?_⟩
    · rw [bytes_copies, length_copies]
      push_cast
      rw [← describes.size_eq]
      rfl
    · intro isContig occupied
      have oldContig : old.isContig = true := isContig
      rw [bytes_copies] at occupied ⊢
      have oldOccupied := (occupied_of_copies occupied).2
      obtain ⟨-, trueUb_eq, extent_eq⟩ := describes.contig oldContig oldOccupied
      have positive := describes.size_pos oldOccupied
      have bounds := describes.extent_eq
      have ordered : old.ub ≥ old.lb := by omega
      have ub_eq : old.ub = old.lb + old.size := by omega
      simp only [Oldtype.trueLb_derived, Oldtype.trueUb_derived,
        Oldtype.extent_derived, Oldtype.size_derived, contigLbUb, if_neg zero, if_pos ordered]
      rw [describes.block oldContig, length_run, trueUb_eq, extent_eq, ub_eq]
      refine ⟨?_, by ring, by ring⟩
      congr 1
      ring

theorem Describes.vector
    (count blocklength : Nat)
    (stride : Int)
    (strideinbytes : Bool) :
    Describes
      (.derived (typeVector fresh count blocklength stride strideinbytes old))
      (copies count (inBytes strideinbytes old stride)
        (copies blocklength old.extent typeMap)) := by
  by_cases zero : count = 0
  · subst zero
    exact describes_zerolen fresh rfl
  · rw [typeVector, if_neg zero]
    refine ⟨?_, rfl, ?_⟩
    · rw [bytes_copies, bytes_copies, length_copies, length_copies]
      push_cast
      rw [← describes.size_eq, ← mul_assoc]
      rfl
    · intro isContig occupied
      obtain ⟨-, stride_eq, oldContig⟩ := of_decide_eq_true isContig
      rw [bytes_copies, bytes_copies] at occupied ⊢
      obtain ⟨-, blockOccupied⟩ := occupied_of_copies occupied
      obtain ⟨nonempty, oldOccupied⟩ := occupied_of_copies blockOccupied
      obtain ⟨-, trueUb_eq, extent_eq⟩ := describes.contig oldContig oldOccupied
      have positive := describes.size_pos oldOccupied
      have bounds := describes.extent_eq
      have forward : inBytes strideinbytes old stride ≥ 0 ∧ old.extent ≥ 0 := by
        rw [stride_eq]
        exact ⟨Int.mul_nonneg (Int.natCast_nonneg _) positive.le, by omega⟩
      have ub_eq : old.ub = old.lb + old.size := by omega
      simp only [Oldtype.trueLb_derived, Oldtype.trueUb_derived,
        Oldtype.extent_derived, Oldtype.size_derived, vectorLbUb,
        if_neg (not_or.mpr ⟨zero, nonempty⟩), if_pos forward]
      have distance_eq : inBytes strideinbytes old stride =
          (blocklength * (bytes typeMap).length : Nat) := by
        rw [stride_eq, describes.size_eq]
        rfl
      rw [describes.block oldContig, distance_eq, copies_run, length_run,
        ← distance_eq, stride_eq, trueUb_eq, extent_eq, ub_eq]
      refine ⟨?_, by ring, by ring⟩
      congr 1
      ring

theorem Describes.createResized
    (lb extent : Int) :
    Describes (.derived (typeCreateResized fresh lb extent old))
      ((typeMap.filter fun item => !item.basic.isMarker) ++ [{ disp := lb, basic := .mpiLb },
          { disp := lb + extent, basic := .mpiUb }]) := by
  have bytes_eq : bytes ((typeMap.filter fun item => !item.basic.isMarker) ++
      [{ disp := lb, basic := .mpiLb },
        { disp := lb + extent, basic := .mpiUb }]) = bytes typeMap := by
    rw [bytes_append, bytes_filter]
    exact append_nil _
  refine ⟨?_, ?_, ?_⟩
  · rw [bytes_eq]
    exact describes.size_eq
  · exact (add_sub_cancel_left lb extent).symm
  · intro isContig occupied
    rw [bytes_eq] at occupied ⊢
    simp only [Oldtype.isContig_derived, typeCreateResized] at isContig
    split at isContig
    · rename_i extent_eq
      obtain ⟨bytes_run, trueUb_eq, -⟩ := describes.contig isContig occupied
      exact ⟨bytes_run, trueUb_eq, extent_eq⟩
    · exact absurd isContig Bool.false_ne_true

theorem Describes.dup :
    Describes (.derived (typeDup fresh old)) typeMap := by
  cases old with
  | builtin basic =>
    have once := describes.contiguous fresh 1
    rw [copies, copies, append_nil] at once
    exact once
  | derived dtp => exact ⟨describes.size_eq, describes.extent_eq, describes.contig⟩

end

end Mpich.Datatypes
