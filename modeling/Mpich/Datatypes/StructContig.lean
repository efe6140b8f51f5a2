import Mathlib.Data.Fin.VecNotation
import Mpich.Datatypes.IndexedContig
import Mpich.Datatypes.StructScan

/-!
# The contiguity flag of structs

`MPID_Type_struct` sets the flag when the old types are contiguous, the blocks are
in order and the size is the distance of the bounds. Blocks that overlap make up
for holes in this sum, and a sticky bound cuts holes off or adds room at the end.
In a tree without such calls the flag has its meaning: the bytes of any number of
instances can be copied at once.
-/

namespace Mpich.Datatypes

open Copies List Option

/-- The lower bound of a struct. -/
def structLb (blocks : List Block) : Int :=
  (fixedLb blocks).getD ((lowestStart blocks).getD 0)

/-- The upper bound of a struct. Without a sticky bound there is padding. -/
def structUb (config : AlignConfig) (blocks : List Block) : Int :=
  let ub := (fixedUb blocks).getD ((highestStop blocks).getD 0)
  if fixedLb blocks = none ∧ fixedUb blocks = none then
    padded (structAlignsize config blocks) (structLb blocks) ub
  else
    ub

/-- The distance between the first and the last true bound. -/
def structSpan (blocks : List Block) : Int :=
  (highestStop blocks).getD 0 - (lowestStart blocks).getD 0

/-- The fields of a struct that has elements. -/
structure RecordsStruct
    (config : AlignConfig)
    (blocks : List Block)
    (dtp : Datatype) : Prop where
  size_eq : dtp.size = totalSize blocks
  counted_eq : dtp.nContigBlocks = countedBlocks blocks
  lb_eq : dtp.lb = structLb blocks
  ub_eq : dtp.ub = structUb config blocks
  trueLb_eq : dtp.trueLb = (lowestStart blocks).getD 0
  trueUb_eq : dtp.trueUb = (highestStop blocks).getD 0
  extent_eq : dtp.extent = dtp.ub - dtp.lb
  contig : dtp.isContig = true → totalSize blocks = dtp.ub - dtp.lb ∧ InOrder blocks ∧
      ∀ block ∈ blocks, block.isPresent = true → block.oldtype.isContig = true

theorem recordsStruct
    (config : AlignConfig)
    (fresh : Datatype)
    {blocks : List Block}
    (present : (blocks.all fun block => decide (block.blocklength = 0)) ≠ true) :
    RecordsStruct config blocks (typeStruct config fresh blocks) := by
  have scanned := scanned_foldl blocks
  rw [typeStruct, if_neg present]
  refine ⟨scanned.size_eq, scanned.counted_eq, ?_, ?_, ?_, ?_, rfl, ?_⟩
  · rw [structLb, ← scanned.stickyLb_eq, ← scanned.trueLb_eq]
  · rw [structUb, structLb, ← scanned.stickyLb_eq, ← scanned.stickyUb_eq,
      ← scanned.trueLb_eq, ← scanned.trueUb_eq]
  · rw [← scanned.trueLb_eq]
  · rw [← scanned.trueUb_eq]
  · intro isContig
    obtain ⟨size_eq, areContig, notBroken⟩ := of_decide_eq_true isContig
    exact ⟨scanned.size_eq ▸ size_eq, scanned.inOrder notBroken, scanned.areContig areContig⟩

/-- The bytes, when the blocks of a struct lie one after the other. -/
structure NoOverlap
    (config : AlignConfig)
    (blocks : List Block)
    (visited : List Int) : Prop where
  nodup : visited.Nodup
  span : (fixedLb blocks).isSome ∨ (fixedUb blocks).isSome →
    structSpan blocks = structUb config blocks - structLb blocks

/-- When the size is the distance of the bounds and the contiguous blocks of a
struct are in order, no byte is visited twice, and the true bounds lie as far
apart as sticky ones. -/
def StructSafe
    (config : AlignConfig)
    (blocks : List Block)
    (visited : List Int) : Prop :=
  (∀ block ∈ blocks, block.isPresent = true → block.oldtype.isContig = true) →
    InOrder blocks → totalSize blocks = structUb config blocks - structLb blocks →
    NoOverlap config blocks visited

/-- A block without bytes, or with the bytes between its true bounds. -/
def Fills (block : Block) (visited : List Int) : Prop :=
  visited = [] ∨ block.isPlaced = true ∧
    ∃ length : Nat, visited = run block.start length ∧ block.stop = block.start + length

theorem Fills.between
    {block : Block} {visited : List Int}
    (fills : Fills block visited)
    {position : Int}
    (member : position ∈ visited) :
    block.isPlaced = true ∧ ∀ other, other ∈ visited ↔
      block.start ≤ other ∧ other < block.stop := by
  rcases fills with rfl | ⟨placed, length, rfl, stop_eq⟩
  · cases member
  · refine ⟨placed, fun other => ?_⟩
    rw [mem_run, stop_eq]

section

variable {Index : Type*} {list : List Index} {block : Index → Block}
  {visit : Index → List Int}

variable (fills : ∀ index ∈ list, Fills (block index) (visit index))

include fills in
/-- Blocks that end one behind the other, and visit no byte twice, visit their
bytes in increasing order. -/
theorem pairwise_of_stops
    (stops : ((list.map block).filter Block.isPlaced).Pairwise fun block next =>
      block.stop < next.stop)
    (nodup : (list.flatMap visit).Nodup) :
    (list.flatMap visit).Pairwise (· < ·) := by
  induction list with
  | nil => exact .nil
  | cons index list ih =>
    rw [forall_mem_cons] at fills
    rw [flatMap_cons, nodup_append] at nodup
    obtain ⟨_, laterNodup, apart⟩ := nodup
    rw [map_cons] at stops
    have laterStops : ((list.map block).filter Block.isPlaced).Pairwise
        fun block next => block.stop < next.stop := by
      rw [filter_cons] at stops
      split at stops
      · exact (pairwise_cons.mp stops).2
      · exact stops
    rw [flatMap_cons, pairwise_append]
    refine ⟨?_, ih fills.2 laterStops laterNodup, ?_⟩
    · rcases fills.1 with empty | ⟨_, length, visit_eq, _⟩
      · rw [empty]
        exact .nil
      · rw [visit_eq]
        exact pairwise_run _ _
    · intro position member later laterMember
      obtain ⟨next, nextMember, inNext⟩ := mem_flatMap.mp laterMember
      obtain ⟨placed, between⟩ := fills.1.between member
      obtain ⟨nextPlaced, nextBetween⟩ := (fills.2 next nextMember).between inNext
      rw [filter_cons_of_pos placed, pairwise_cons] at stops
      have ends := stops.1 (block next)
        (mem_filter.mpr ⟨List.mem_map_of_mem nextMember, nextPlaced⟩)
      have notShared : ¬position ∈ visit next := fun shared =>
        apart position member position (mem_flatMap.mpr ⟨next, nextMember, shared⟩) rfl
      have inBlock := (between position).mp member
      have inLater := (nextBetween later).mp inNext
      rw [nextBetween] at notShared
      omega

include fills in
/-- The bytes lie between the lowest and the highest true bound. -/
theorem between_of_fills
    {position : Int}
    (member : position ∈ list.flatMap visit) :
    (lowestStart (list.map block)).getD 0 ≤ position ∧
      position < (highestStop (list.map block)).getD 0 := by
  obtain ⟨index, indexMember, inBlock⟩ := mem_flatMap.mp member
  obtain ⟨placed, between⟩ := (fills index indexMember).between inBlock
  have counted : block index ∈ (list.map block).filter Block.isPlaced :=
    mem_filter.mpr ⟨List.mem_map_of_mem indexMember, placed⟩
  have inside := (between position).mp inBlock
  obtain ⟨lowest, isLowest⟩ : ∃ lowest, lowestStart (list.map block) = some lowest :=
    isSome_iff_exists.mp (isSome_min?_of_mem (List.mem_map_of_mem counted))
  obtain ⟨highest, isHighest⟩ :
      ∃ highest, highestStop (list.map block) = some highest :=
    isSome_iff_exists.mp (isSome_max?_of_mem (List.mem_map_of_mem counted))
  have below := le_of_lowestOf isLowest counted
  have above := le_of_highestOf isHighest counted
  rw [isLowest, isHighest, getD_some, getD_some]
  omega

end

theorem Describes.not_isMarker
    {old : Oldtype} {typeMap : List Item}
    (describes : Describes old typeMap)
    (occupied : bytes typeMap ≠ []) :
    old.isMarker = false := by
  have positive := describes.size_pos occupied
  cases old with
  | derived dtp => rfl
  | builtin basic =>
    by_contra isMarker
    have size_eq := basic.marker_size (of_decide_eq_true (Bool.eq_true_of_not_eq_false isMarker))
    change 0 < (basic.size : Int) at positive
    omega

/-- The bytes of a block of a contiguous type. -/
theorem Describes.fills
    {block : Block} {typeMap : List Item}
    (describes : Describes block.oldtype typeMap)
    (isContig : block.isPresent = true → block.oldtype.isContig = true) :
    Fills block
      (shifted block.displacement
        (copies block.blocklength block.oldtype.extent (bytes typeMap))) := by
  by_cases empty : copies block.blocklength block.oldtype.extent (bytes typeMap) = []
  · rw [empty]
    exact .inl rfl
  · obtain ⟨nonempty, occupied⟩ := occupied_of_copies empty
    have present : block.isPresent = true := decide_eq_true nonempty
    obtain ⟨-, trueUb_eq, extent_eq⟩ := describes.contig (isContig present) occupied
    have positive := describes.size_pos occupied
    have bounds_eq : block.bounds = _ :=
      blockBounds_of_pos describes.extent_eq (by omega) nonempty block.displacement
    have start_eq : block.start = block.displacement + block.oldtype.trueLb := by
      rw [Block.start, bounds_eq]
      ring
    refine .inr ⟨?_, block.blocklength * (bytes typeMap).length, ?_, ?_⟩
    · rw [Block.isPlaced, present, describes.not_isMarker occupied]
      rfl
    · rw [describes.block (isContig present), shifted_run, start_eq]
    · rw [start_eq, Block.stop, bounds_eq, trueUb_eq, extent_eq]
      push_cast
      rw [← describes.size_eq]
      ring

/-- Padding moves the upper bound up. -/
theorem le_padded (alignsize lb ub : Int) :
    ub ≤ padded alignsize lb ub := by
  unfold padded
  dsimp only
  split
  · rename_i alignment
    have below := Int.tmod_lt_of_pos (ub - lb) alignment
    split <;> omega
  · simp

/-- Without sticky bounds the bounds lie at least as far apart as the true ones. -/
theorem structSpan_le
    (config : AlignConfig)
    (blocks : List Block)
    (notSticky : ¬((fixedLb blocks).isSome ∨ (fixedUb blocks).isSome)) :
    structSpan blocks ≤ structUb config blocks - structLb blocks := by
  rw [not_or, not_isSome_iff_eq_none, not_isSome_iff_eq_none]
    at notSticky
  have further := le_padded (structAlignsize config blocks)
    ((lowestStart blocks).getD 0) ((highestStop blocks).getD 0)
  rw [structSpan, structUb, structLb, notSticky.1, notSticky.2]
  dsimp only [getD_none]
  omega

section

variable {Index : Type*} {list : List Index} {block : Index → Block}
  {part : Index → List Item}

theorem length_blocks
    (describes : ∀ index ∈ list, Describes (block index).oldtype (part index)) :
    ((list.flatMap fun index =>
        shifted (block index).displacement
          (copies (block index).blocklength (block index).oldtype.extent
            (bytes (part index)))).length : Int) =
      totalSize (list.map block) := by
  induction list with
  | nil => rfl
  | cons index list ih =>
    rw [forall_mem_cons] at describes
    rw [flatMap_cons, length_append, length_shifted, length_copies,
      map_cons, totalSize, map_cons, sum_cons, ← totalSize]
    push_cast
    rw [ih describes.2, describes.1.size_eq]
    ring

theorem describes_struct
    (config : AlignConfig)
    (fresh : Datatype)
    (describes : ∀ index ∈ list, Describes (block index).oldtype (part index))
    (safe : StructSafe config (list.map block)
      (bytes (list.flatMap fun index =>
        shifted (block index).displacement
          (copies (block index).blocklength (block index).oldtype.extent (part index))))) :
    Describes (.derived (typeStruct config fresh (list.map block)))
      (list.flatMap fun index =>
        shifted (block index).displacement
          (copies (block index).blocklength (block index).oldtype.extent (part index))) := by
  have size_eq := length_blocks describes
  rw [bytes_blocks] at safe
  by_cases empty : ((list.map block).all fun block =>
      decide (block.blocklength = 0)) = true
  · rw [typeStruct, if_pos empty]
    refine describes_zerolen fresh ?_
    rw [bytes_blocks, flatMap_eq_nil_iff]
    intro index member
    rw [List.all_eq_true] at empty
    rw [of_decide_eq_true (empty _ (List.mem_map_of_mem member))]
    rfl
  · have records := recordsStruct config fresh empty
    refine ⟨?_, records.extent_eq, ?_⟩
    · rw [bytes_blocks, size_eq]
      exact records.size_eq
    · intro isContig occupied
      rw [bytes_blocks] at occupied ⊢
      obtain ⟨total_eq, inOrder, areContig⟩ := records.contig isContig
      rw [records.lb_eq, records.ub_eq] at total_eq
      have noOverlap := safe areContig inOrder total_eq
      have fills : ∀ index ∈ list, Fills (block index)
          (shifted (block index).displacement
            (copies (block index).blocklength (block index).oldtype.extent
              (bytes (part index)))) := fun index member =>
        (describes index member).fills (areContig (block index) (List.mem_map_of_mem member))
      have increasing := pairwise_of_stops fills inOrder.stops noOverlap.nodup
      have inside := fun position member =>
        @between_of_fills _ _ _ _ fills position member
      obtain ⟨first, isFirst⟩ := exists_mem_of_ne_nil _ occupied
      have ordered : (lowestStart (list.map block)).getD 0 ≤
          (highestStop (list.map block)).getD 0 := by
        have between := inside first isFirst
        omega
      have long := length_le_of_pairwise increasing ordered inside
      have span_eq : totalSize (list.map block) = structSpan (list.map block) := by
        by_cases sticky : (fixedLb (list.map block)).isSome ∨ (fixedUb (list.map block)).isSome
        · rw [noOverlap.span sticky, total_eq]
        · have wide := structSpan_le config (list.map block) sticky
          unfold structSpan at wide ⊢
          omega
      have extent_eq := records.extent_eq
      rw [records.lb_eq, records.ub_eq, ← total_eq] at extent_eq
      unfold structSpan at span_eq
      refine ⟨?_, ?_, extent_eq.trans records.size_eq.symm⟩
      · rw [Oldtype.trueLb_derived, records.trueLb_eq]
        refine eq_run_of_pairwise increasing fun position member => ?_
        have between := inside position member
        omega
      · rw [Oldtype.trueUb_derived, Oldtype.trueLb_derived, Oldtype.size_derived,
          records.trueLb_eq, records.trueUb_eq, records.size_eq]
        omega

end

namespace Tree

variable (config : AlignConfig)

/-- The size fits the `int` that keeps it. -/
def SizeFits (tree : Tree) : Prop :=
  (tree.handle config).size < 2 ^ 31

instance : DecidablePred (SizeFits config) := fun tree =>
  inferInstanceAs (Decidable ((tree.handle config).size < 2 ^ 31))

/-- A struct is safe. The other constructors always are. -/
def ContigSafe (tree : Tree) : Prop :=
  match tree with
  | .struct _ count blocklengths displacements oldtypes =>
    StructSafe config
      ((List.finRange count).map fun index => {
        blocklength := blocklengths index
        displacement := displacements index
        oldtype := (oldtypes index).handle config })
      (bytes (tree.typeMap config))
  | _ => True

/-- What is recorded in a tree of safe calls. -/
theorem describes
    {tree : Tree}
    (fits : tree.All (SizeFits config))
    (safe : tree.All (ContigSafe config)) :
    Describes (tree.handle config) (tree.typeMap config) := by
  induction tree with
  | builtin basic => exact describes_basic basic
  | pairtype fresh pair => exact describes_pairtype fresh config pair
  | contiguous fresh count old ih => exact (ih fits.2 safe.2).contiguous fresh count
  | vector fresh count blocklength stride strideinbytes old ih =>
    exact (ih fits.2 safe.2).vector fresh count blocklength stride strideinbytes
  | blockindexed fresh blocklength displacements dispinbytes old
      ih =>
      exact (ih fits.2 safe.2).blockindexed fresh blocklength displacements dispinbytes fits.1
  | indexed fresh blocks dispinbytes old ih =>
    exact (ih fits.2 safe.2).indexed fresh blocks dispinbytes
  | struct fresh count blocklengths displacements oldtypes ih =>
    exact describes_struct config fresh
      (fun index _ => ih index (fits.2 index) (safe.2 index))
      safe.1
  | createResized fresh lb extent old ih =>
    exact (ih fits.2 safe.2).createResized fresh lb extent
  | dup fresh old ih => exact (ih fits.2 safe.2).dup fresh

theorem getInfo_eq
    (count : Nat)
    (old : Oldtype) :
    getInfo count old = {
      dtContig := old.isContig
      dataSz := count * old.size
      dtTrueLb := old.trueLb } := by
  cases old <;> rfl

/-- A buffer of a type that is marked contiguous is one run of bytes, in a tree of
safe calls. -/
theorem bytes_of_dtContig
    {tree : Tree}
    (fits : tree.All (SizeFits config))
    (safe : tree.All (ContigSafe config))
    (count : Nat)
    (contig : (getInfo count (tree.handle config)).dtContig = true) :
    bytes (copies count (tree.handle config).extent (tree.typeMap config)) =
      run (getInfo count (tree.handle config)).dtTrueLb
        (getInfo count (tree.handle config)).dataSz.toNat := by
  rw [getInfo_eq] at contig ⊢
  have size_nonneg : 0 ≤ (tree.handle config).size := by
    rw [(describes config fits safe).size_eq]
    exact Int.natCast_nonneg _
  rw [(describes config fits safe).instances contig,
    Int.toNat_mul (Int.natCast_nonneg count) size_nonneg, Int.toNat_natCast]

/-- Two integers and a double behind them. -/
def intsAndDouble : Tree :=
  .struct cleared 2 ![2, 1] ![0, 8] ![mpiInt, mpiDouble]

theorem intsAndDouble_contiguous :
    bytes (copies 3 (intsAndDouble.handle plainAlign).extent (intsAndDouble.typeMap plainAlign)) =
      run 0 48 :=
  @bytes_of_dtContig plainAlign intsAndDouble
    (by decide)
    ⟨fun _ _ _ => ⟨by decide, fun sticky => absurd sticky (by decide)⟩,
      Fin.forall_fin_two.mpr ⟨trivial, trivial⟩⟩
    3 (by decide)

/-- Two integers with a hole between them, and a sticky upper bound that makes the
extent as small as the size. -/
def intsWithHole : Tree :=
  .struct cleared 3 (fun _ => 1) ![0, 8, 8] ![mpiInt, mpiInt, .builtin .mpiUb]

theorem intsWithHole_not_contiguous :
    intsWithHole.All (SizeFits plainAlign) ∧
      (getInfo 1 (intsWithHole.handle plainAlign)).dtContig = true ∧
      bytes (copies 1 (intsWithHole.handle plainAlign).extent (intsWithHole.typeMap plainAlign)) ≠
        run (getInfo 1 (intsWithHole.handle plainAlign)).dtTrueLb
          (getInfo 1 (intsWithHole.handle plainAlign)).dataSz.toNat := by
  refine ⟨by decide, by decide, by decide⟩

end Tree

end Mpich.Datatypes
