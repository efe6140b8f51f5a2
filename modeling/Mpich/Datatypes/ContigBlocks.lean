import Mathlib.Algebra.Order.BigOperators.Group.List
import Mpich.Datatypes.StructContig

/-!
# The number of contiguous blocks

The constructors for vectors, indexed types and structs count one old type for each
block, however long the block is, and the other ones do not set the count. It is an
upper bound where the blocks are no more broken up than one old type is, and where
the object that an unset count is found in holds a large enough one.
-/

namespace Mpich.Datatypes

open Copies List

/-- A block of old types has no more runs than one of them. -/
def Joins
    (blocklength : Nat)
    (extent : Int)
    (positions : List Int) : Prop :=
  runs (copies blocklength extent positions) ≤ runs positions

instance (blocklength : Nat) (extent : Int) (positions : List Int) :
    Decidable (Joins blocklength extent positions) :=
  inferInstanceAs (Decidable (_ ≤ _))

/-- What the new object held before is at least the number of runs. -/
def Covers (fresh : Datatype) (positions : List Int) : Prop :=
  (runs positions : Int) ≤ fresh.nContigBlocks

instance (fresh : Datatype) (positions : List Int) :
    Decidable (Covers fresh positions) :=
  inferInstanceAs (Decidable (_ ≤ _))

/-- Blocks of one old type, at any places. -/
theorem runs_blocks_le
    {Index : Type*}
    (list : List Index)
    (distance : Index → Int)
    {blocklength : Index → Nat} {extent : Int} {positions : List Int}
    (joins : ∀ index ∈ list, Joins (blocklength index) extent positions) :
    runs (list.flatMap fun index =>
        shifted (distance index) (copies (blocklength index) extent positions)) ≤
      list.length * runs positions := by
  have joined := runs_flatMap_le list fun index =>
    shifted (distance index) (copies (blocklength index) extent positions)
  refine joined.trans ?_
  have each : ∀ count ∈ list.map (fun index =>
      runs (shifted (distance index)
        (copies (blocklength index) extent positions))), count ≤ runs positions := by
    intro count member
    obtain ⟨index, indexMember, rfl⟩ := mem_map.mp member
    rw [runs_shifted]
    exact joins index indexMember
  have total := sum_le_card_nsmul _ _ each
  rw [length_map, smul_eq_mul] at total
  exact total

/-- Runs that are counted once for each block. -/
theorem le_count_mul
    {total count perBlock : Nat} {recorded : Int}
    (joined : total ≤ count * perBlock)
    (counted : (perBlock : Int) ≤ recorded) :
    (total : Int) ≤ count * recorded :=
  calc (total : Int)
      ≤ (count * perBlock : Nat) := by exact_mod_cast joined
    _ = count * (perBlock : Int) := by push_cast; rfl
    _ ≤ count * recorded := Int.mul_le_mul_of_nonneg_left counted (Int.natCast_nonneg _)

/-- A contiguous type is at most one run. -/
theorem Describes.runs_le_one
    {old : Oldtype} {typeMap : List Item}
    (describes : Describes old typeMap)
    (isContig : old.isContig = true) :
    runs (bytes typeMap) ≤ 1 := by
  by_cases occupied : bytes typeMap = []
  · rw [occupied]
    exact Nat.zero_le 1
  · rw [(describes.contig isContig occupied).1]
    exact runs_run_le _ _

namespace Tree

variable (config : AlignConfig)

/-- The call does not lose runs: the blocks are no more broken up than one old
type, and where the count is not set, the object already has one that is large
enough. -/
def CountSafe (tree : Tree) : Prop :=
  match tree with
  | .builtin _ | .pairtype _ _ => True
  | .contiguous fresh _ _ | .createResized fresh _ _ _ | .dup fresh _ =>
    Covers fresh (bytes (tree.typeMap config))
  | .vector fresh count blocklength _ _ old =>
    if count = 0 then Covers fresh []
    else
      Joins blocklength (old.handle config).extent (bytes (old.typeMap config))
  | .blockindexed fresh blocklength displacements _ old =>
    if displacements = [] then Covers fresh []
    else
      Joins blocklength (old.handle config).extent (bytes (old.typeMap config))
  | .indexed fresh blocks _ old =>
    if blocks.dropWhile (fun block => decide (block.1 = 0)) = [] then
      Covers fresh []
    else
      ∀ block ∈ blocks, Joins block.1 (old.handle config).extent (bytes (old.typeMap config))
  | .struct fresh _ blocklengths _ oldtypes =>
    if ∀ index, blocklengths index = 0 then Covers fresh []
    else
      ∀ index, Joins (blocklengths index) ((oldtypes index).handle config).extent
          (bytes ((oldtypes index).typeMap config))

section

variable {old : Oldtype} {typeMap : List Item} (fresh : Datatype)

/-- `MPID_Type_contiguous` does not set the count. -/
theorem nContigBlocks_contiguous
    (count : Nat)
    (old : Oldtype) :
    (typeContiguous fresh count old).nContigBlocks = fresh.nContigBlocks := by
  unfold typeContiguous
  split <;> rfl

/-- `MPID_Type_dup` does not set the count. -/
theorem nContigBlocks_dup (old : Oldtype) :
    (typeDup fresh old).nContigBlocks = fresh.nContigBlocks := by
  cases old with
  | builtin basic => exact nContigBlocks_contiguous fresh 1 _
  | derived dtp => rfl

theorem runs_pairtype
    (config : AlignConfig)
    (pair : PairLayout) :
    (runs (bytes [{ disp := 0, basic := pair.first },
        { disp := pair.secondDisp, basic := pair.second }]) : Int) ≤
      (typeCreatePairtype config fresh pair).nContigBlocks := by
  have described := describes_pairtype fresh config pair
  have first := runs_run_le 0 pair.first.size
  have second := runs_run_le pair.secondDisp pair.second.size
  have both := runs_append_le (run 0 pair.first.size) (run pair.secondDisp pair.second.size)
  have bytes_eq : bytes [{ disp := 0, basic := pair.first },
      { disp := pair.secondDisp, basic := pair.second }] =
      run 0 pair.first.size ++ run pair.secondDisp pair.second.size := by
    simp [bytes]
  change _ ≤ if pair.first.size + pair.second.size = pair.sizeof then 1 else 2
  split
  · rename_i noGap
    exact_mod_cast described.runs_le_one (decide_eq_true noGap)
  · rw [bytes_eq]
    omega

section

variable
    (counted : (runs (bytes typeMap) : Int) ≤ old.nContigBlocks)

include counted

theorem runs_vector
    {count blocklength : Nat}
    (stride : Int)
    (strideinbytes : Bool)
    (safe : if count = 0 then Covers fresh []
      else Joins blocklength old.extent (bytes typeMap)) :
    (runs (bytes (copies count (inBytes strideinbytes old stride)
        (copies blocklength old.extent typeMap))) : Int) ≤
      (typeVector fresh count blocklength stride strideinbytes old).nContigBlocks := by
  by_cases zero : count = 0
  · subst zero
    exact safe
  · rw [if_neg zero] at safe
    rw [typeVector, if_neg zero, bytes_copies, bytes_copies]
    have joined := runs_copies_le count (inBytes strideinbytes old stride)
      (copies blocklength old.extent (bytes typeMap))
    have atMost := joined.trans (Nat.mul_le_mul_left count safe)
    exact (le_count_mul atMost counted).trans_eq (mul_comm _ _)

theorem runs_blockindexed
    {blocklength : Nat} {displacements : List Int}
    (dispinbytes : Bool)
    (safe : if displacements = [] then Covers fresh []
      else Joins blocklength old.extent (bytes typeMap)) :
    (runs (bytes (displacements.flatMap fun disp =>
        shifted (inBytes dispinbytes old disp) (copies blocklength old.extent typeMap))) : Int) ≤
      (typeBlockindexed fresh blocklength displacements dispinbytes old).nContigBlocks := by
  cases displacements with
  | nil => exact safe
  | cons first rest =>
    rw [bytes_blocks]
    exact le_count_mul
      (runs_blocks_le (first :: rest) (inBytes dispinbytes old) fun _ _ => safe)
      counted

theorem runs_indexed
    {blocks : List (Nat × Int)}
    (dispinbytes : Bool)
    (safe : if blocks.dropWhile (fun block => decide (block.1 = 0)) = [] then
        Covers fresh []
      else
        ∀ block ∈ blocks, Joins block.1 old.extent (bytes typeMap)) :
    (runs (bytes (blocks.flatMap fun block =>
        shifted (inBytes dispinbytes old block.2) (copies block.1 old.extent typeMap))) : Int) ≤
      (typeIndexed fresh blocks dispinbytes old).nContigBlocks := by
  rw [bytes_blocks]
  unfold typeIndexed
  split
  · rename_i dropped
    have noPart (block : Nat × Int) (empty : decide (block.1 = 0) = true) :
        shifted (inBytes dispinbytes old block.2)
          (copies block.1 old.extent (bytes typeMap)) = [] := by
      rw [of_decide_eq_true empty]
      rfl
    rw [if_pos dropped] at safe
    rw [← flatMap_dropWhile noPart, dropped]
    exact safe
  · rename_i first rest dropped
    rw [if_neg (by rw [dropped]; exact cons_ne_nil _ _)] at safe
    have total := le_count_mul
      (runs_blocks_le blocks (fun block => inBytes dispinbytes old block.2) safe)
      counted
    exact total.trans_eq (mul_comm _ _)

end

end

/-- The runs of the blocks of a struct. -/
theorem runs_structBlocks
    {Index : Type*} {list : List Index} {block : Index → Block}
    {positions : Index → List Int}
    (counted : ∀ index ∈ list, (runs (positions index) : Int) ≤ (block index).oldtype.nContigBlocks)
    (joins : ∀ index ∈ list,
      Joins (block index).blocklength (block index).oldtype.extent (positions index)) :
    (runs (list.flatMap fun index =>
        shifted (block index).displacement
          (copies (block index).blocklength (block index).oldtype.extent
            (positions index))) : Int) ≤
      countedBlocks (list.map block) := by
  induction list with
  | nil => exact le_refl 0
  | cons index list ih =>
    rw [forall_mem_cons] at counted joins
    have rest := ih counted.2 joins.2
    rw [flatMap_cons]
    have joined := runs_append_le
      (shifted (block index).displacement
        (copies (block index).blocklength (block index).oldtype.extent (positions index)))
      (list.flatMap fun index =>
        shifted (block index).displacement
          (copies (block index).blocklength (block index).oldtype.extent (positions index)))
    rw [runs_shifted] at joined
    rw [map_cons, countedBlocks, filter_cons]
    by_cases present : (block index).isPresent = true
    · rw [if_pos present, map_cons, sum_cons, ← countedBlocks]
      have own := joins.1
      unfold Joins at own
      omega
    · rw [if_neg present, ← countedBlocks]
      have empty : (block index).blocklength = 0 := by
        simpa [Block.isPresent] using present
      rw [empty, copies, runs] at joined
      rw [empty, copies]
      omega

theorem runs_struct
    (fresh : Datatype)
    {count : Nat}
    (block : Fin count → Block)
    {part : Fin count → List Item}
    (counted : ∀ index, (runs (bytes (part index)) : Int) ≤ (block index).oldtype.nContigBlocks)
    (safe : if ∀ index, (block index).blocklength = 0 then Covers fresh []
      else
        ∀ index, Joins (block index).blocklength (block index).oldtype.extent
          (bytes (part index))) :
    (runs (bytes ((finRange count).flatMap fun index =>
        shifted (block index).displacement
          (copies (block index).blocklength (block index).oldtype.extent (part index)))) : Int) ≤
      (typeStruct config fresh ((finRange count).map block)).nContigBlocks := by
  rw [bytes_blocks]
  have allAbsent : (((finRange count).map block).all fun block =>
      decide (block.blocklength = 0)) = true ↔
      ∀ index, (block index).blocklength = 0 := by
    simp
  by_cases absent : ∀ index, (block index).blocklength = 0
  · rw [if_pos absent] at safe
    rw [typeStruct, if_pos (allAbsent.mpr absent)]
    have noBytes : ((finRange count).flatMap fun index =>
        shifted (block index).displacement
          (copies (block index).blocklength (block index).oldtype.extent
            (bytes (part index)))) = [] := by
      rw [flatMap_eq_nil_iff]
      intro index _
      rw [absent index]
      rfl
    rw [noBytes]
    exact safe
  · rw [if_neg absent] at safe
    rw [(recordsStruct config fresh (mt allAbsent.mp absent)).counted_eq]
    exact runs_structBlocks (fun index _ => counted index) fun index _ => safe index

/-- Three blocks of two integers, with holes between them. -/
def blocksOfInts : Tree :=
  .vector cleared 3 2 4 false mpiInt

/-- Two blocks of two old types that have two runs each. -/
def blocksOfVectors : Tree :=
  .vector cleared 2 2 4 false (.vector cleared 2 1 2 false mpiInt)

end Tree

end Mpich.Datatypes
