import Mpich.Dataloop.CreateStruct
import Mpich.Dataloop.SelfContained
import Mpich.Foundation.TransitionSystem

/-!
# Runs of dataloop operations

Trees of dataloops are made by the create functions and by `Dataloop_dup`, in blocks
that `DLOOP_Malloc` has chosen apart from one another, and are freed in any order.
What is not in a block of a tree may change at any time.

`Dataloop_update` moves all pointers but `el_extent_array`. The copy of a tree with
a struct in it keeps that pointer into the block of the original; as long as only
trees without structs are copied, every tree is self-contained.
-/

namespace Mpich.Dataloop

open List

open Datatypes (toInt)

/-- A tree that has been allocated, with its recorded size, and the loops that the
calls describe: a copy describes those of its original. -/
structure Tree where
  base : Int
  size : Int
  loop : Loop

def Tree.block (tree : Tree) : Arena.Block where
  start := tree.base
  size := tree.size

/-- The memory and the trees that are in use. -/
structure State where
  memory : Memory
  trees : List Tree

/-- A block of a struct. The tree of a built-in type is one that has been made for
it. -/
structure StructBlock where
  tree : Tree
  isBasic : Bool
  blocksize : Nat
  offset : Int
  elExtent : Int

def StructBlock.part (block : StructBlock) : Part where
  loop := block.tree.loop
  source := block.tree.base
  isBasic := block.isBasic
  blocksize := block.blocksize
  offset := block.offset
  elExtent := block.elExtent

def StructBlock.member (block : StructBlock) : Member where
  source := block.tree.base
  sourceSz := block.tree.size
  isBasic := block.isBasic
  blocksize := block.blocksize
  offset := block.offset
  elExtent := block.elExtent

/-- The operations on trees, with the block that the new tree gets. -/
inductive Action
  | createBasic (shape : Shape) (element : Element) (newLoop : Int)
  | create (shape : Shape) (element : Element) (old : Tree) (newLoop : Int)
  | coalesce (factor : Nat) (old : Tree) (newLoop : Int)
  | createStruct (blocks : List StructBlock) (newLoop : Int)
  | dup (old : Tree) (newLoop : Int)
  | free (old : Nat)
  | elsewhere (memory : Memory)

variable (abi : Abi)

namespace Action

/-- The trees that are copied. -/
def sources : Action → List Tree
  | .createBasic _ _ _ | .free _ | .elsewhere _ => []
  | .create _ _ old _ | .coalesce _ old _ | .dup old _ => [old]
  | .createStruct blocks _ => blocks.map StructBlock.tree

/-- What is asked of `DLOOP_Malloc`. -/
def requested : Action → Option Arena.Block
  | .createBasic shape _ newLoop =>
    some ⟨newLoop, toInt (ownSz abi shape.kind shape.allocCount)⟩
  | .create shape _ old newLoop =>
    some ⟨newLoop, toInt (ownSz abi shape.kind shape.allocCount + old.size)⟩
  | .coalesce _ old newLoop | .dup old newLoop => some ⟨newLoop, old.size⟩
  | .createStruct blocks newLoop =>
    let members := blocks.map StructBlock.member
    let derived := members.filter fun member => !member.isBasic
    let basicCt := (members.filter Member.isBasic).length
    some ⟨newLoop, toInt (ownSz abi .struct blocks.length +
      basicCt * loopSz abi + (derived.map Member.sourceSz).sum)⟩
  | .free _ | .elsewhere _ => none

/-- What else an operation needs: only contiguous loops are coalesced, a built-in
type has a contiguous loop, and the trees stay as they are when other memory
changes. -/
def Admissible (state : State) : Action → Prop
  | .coalesce _ old _ => old.loop.IsContig
  | .createStruct blocks _ => ∀ block ∈ blocks, block.isBasic = true →
      ∃ count element, block.tree.loop = .leaf (.contig count) element
  | .elsewhere memory => ∀ tree ∈ state.trees, ∀ place,
      tree.base ≤ place → place < tree.base + tree.size → memory place = state.memory place
  | .createBasic _ _ _ | .create _ _ _ _ | .dup _ _ | .free _ => True

/-- The operation can be asked for: the trees that it copies are in use, and the
block that it gets is apart from all others. -/
structure Enabled (state : State) (action : Action) : Prop where
  inUse : ∀ tree ∈ action.sources, tree ∈ state.trees
  fresh : ∀ block ∈ action.requested abi, ∀ tree ∈ state.trees, Arena.Apart block tree.block
  admissible : action.Admissible state

/-- The size of the new tree fits an `int`. -/
def Fits : Action → Prop
  | .createBasic shape _ _ => shape.ownRoom abi < 2 ^ 31
  | .create shape _ old _ => shape.ownRoom abi + old.loop.size abi < 2 ^ 31
  | .createStruct blocks _ =>
    (partsLoop (blocks.map StructBlock.part)).size abi < 2 ^ 31
  | .coalesce _ _ _ | .dup _ _ | .free _ | .elsewhere _ => True

/-- No tree with a struct in it is copied, and the new size fits an `int`. -/
structure Safe (_ : State) (action : Action) : Prop where
  structFree : ∀ tree ∈ action.sources, tree.loop.StructFree
  fits : action.Fits abi

end Action

/-- No tree is deeper. -/
def State.depth (state : State) : Nat :=
  (state.trees.map fun tree => tree.loop.depth).foldr max 0

/-- The memory with one more tree. -/
def State.add
    (state : State)
    (base : Int)
    (loop : Loop)
    (made : Memory × Int) : State where
  memory := made.1
  trees := ⟨base, made.2, loop⟩ :: state.trees

/-- The operations. -/
def step (state : State) : Action → Option State
  | .createBasic shape element newLoop =>
    (createLoop abi state.depth state.memory shape element none newLoop).map
      (state.add newLoop (.leaf shape element))
  | .create shape element old newLoop =>
    (createLoop abi state.depth state.memory shape element
      (some (old.base, old.size)) newLoop).map
      (state.add newLoop (.inner shape element old.loop))
  | .coalesce factor old newLoop =>
    (createCoalesced abi state.depth state.memory factor old.base old.size
      newLoop).map fun memory =>
      state.add newLoop (old.loop.multiplied factor) (memory, old.size)
  | .createStruct blocks newLoop =>
    (createStruct abi state.depth state.memory (blocks.map StructBlock.member)
      newLoop).map
      (state.add newLoop (partsLoop (blocks.map StructBlock.part)))
  | .dup old newLoop =>
    (dataloopDup abi state.depth state.memory old.base old.size newLoop).map
      fun memory => state.add newLoop old.loop (memory, old.size)
  | .free old => some { state with trees := state.trees.eraseIdx old }
  | .elsewhere memory => some { state with memory := memory }

/-- The runs begin with no tree. -/
def system : TransitionSystem State Action where
  initial := fun state => state.trees = []
  enabled := Action.Enabled abi
  step := step abi

/-- The tree is packed in its block. -/
structure Tree.Kept (memory : Memory) (tree : Tree) : Prop where
  size_eq : tree.size = tree.loop.size abi
  packed : Packed abi memory 0 tree.loop tree.base

/-- All trees are packed, in blocks that are apart. -/
structure Orderly (state : State) : Prop where
  kept : ∀ tree ∈ state.trees, tree.Kept abi state.memory
  apart : state.trees.Pairwise fun first second =>
    Arena.Apart first.block second.block

theorem Tree.Kept.unchanged
    {memory other : Memory} {tree : Tree}
    (kept : tree.Kept abi memory)
    {base : Int} {size : Nat}
    (same : Unchanged memory other base size)
    (apart : Arena.Apart ⟨base, size⟩ tree.block) :
    tree.Kept abi other := by
  have size_eq := kept.size_eq
  refine ⟨size_eq, kept.packed.unchanged abi (same.mirrors ?_)⟩
  simp only [Arena.Apart, Arena.Block.finish, Tree.block] at apart
  omega

section

variable {state next : State}

variable (orderly : Orderly abi state)

section

include orderly

/-- A new tree in a block of its own. -/
theorem Orderly.add
    {loop : Loop} {memory : Memory} {newLoop : Int}
    (packed : Packed abi memory 0 loop newLoop)
    (same : Unchanged state.memory memory newLoop (loop.size abi))
    (fresh : ∀ tree ∈ state.trees, Arena.Apart ⟨newLoop, loop.size abi⟩ tree.block) :
    Orderly abi (state.add newLoop loop (memory, loop.size abi)) := by
  refine ⟨?_, List.Pairwise.cons fresh orderly.apart⟩
  rw [State.add, forall_mem_cons]
  exact ⟨⟨rfl, packed⟩, fun tree member =>
    (orderly.kept tree member).unchanged abi same (fresh tree member)⟩

theorem Orderly.elsewhere
    {memory : Memory}
    (same : ∀ tree ∈ state.trees, ∀ place,
      tree.base ≤ place → place < tree.base + tree.size → memory place = state.memory place) :
    Orderly abi { state with memory := memory } := by
  refine ⟨fun tree member => ?_, orderly.apart⟩
  have kept := orderly.kept tree member
  have size_eq := kept.size_eq
  refine ⟨size_eq, kept.packed.unchanged abi fun distance bound => ?_⟩
  exact same tree member _ (by omega) (by omega)

theorem Orderly.free
    (old : Nat) :
    Orderly abi { state with trees := state.trees.eraseIdx old } :=
  ⟨fun tree member => orderly.kept tree (mem_of_mem_eraseIdx member),
    orderly.apart.sublist (eraseIdx_sublist _ _)⟩

end

theorem State.depth_le {tree : Tree} (member : tree ∈ state.trees) :
    tree.loop.depth ≤ state.depth :=
  le_max_of_le' 0 (mem_map_of_mem member) le_rfl

theorem leafSz_eq {shape : Shape} (fits : shape.ownRoom abi < 2 ^ 31) :
    toInt (ownSz abi shape.kind shape.allocCount) = (shape.ownRoom abi : Int) := by
  rw [ownSz_eq abi fits, toInt_natCast fits]

theorem innerSz_eq
    {shape : Shape} {size : Nat}
    (fits : shape.ownRoom abi + size < 2 ^ 31) :
    toInt (ownSz abi shape.kind shape.allocCount + size) =
      ((shape.ownRoom abi + size : Nat) : Int) := by
  rw [ownSz_eq abi (by omega), ← Nat.cast_add, toInt_natCast fits]

/-- The members of a struct are its parts when the recorded sizes are right. -/
theorem members_eq
    {blocks : List StructBlock}
    (sizes : ∀ block ∈ blocks, block.tree.size = block.tree.loop.size abi) :
    blocks.map StructBlock.member = (blocks.map StructBlock.part).map (Part.member abi) := by
  rw [map_map]
  refine map_congr_left fun block member => ?_
  rw [StructBlock.member, sizes block member]
  rfl

/-- The tree of a built-in type has no arrays. -/
theorem size_contigLeaf (count : Nat) (element : Element) :
    (Loop.leaf (.contig count) element).size abi = abi.loopRoom := by
  change abi.loopRoom + abi.arrayRoom 0 _ + abi.arrayRoom 0 _ = _
  rw [abi.arrayRoom_zero, abi.arrayRoom_zero]
  rfl

include orderly in
theorem Orderly.createStruct
    {blocks : List StructBlock} {newLoop : Int}
    (enabled : Action.Enabled abi state (.createStruct blocks newLoop))
    (safe : Action.Safe abi state (.createStruct blocks newLoop))
    (stepped : step abi state (.createStruct blocks newLoop) = some next) :
    Orderly abi next := by
  set parts := blocks.map StructBlock.part with parts_eq
  have fits : (partsLoop parts).size abi < 2 ^ 31 := safe.fits
  have inUse (block : StructBlock) (member : block ∈ blocks) :
      block.tree ∈ state.trees :=
    enabled.inUse block.tree (mem_map_of_mem member)
  have kept (block : StructBlock) (member : block ∈ blocks) :=
    orderly.kept block.tree (inUse block member)
  have members := members_eq abi fun block member => (kept block member).size_eq
  have basics : ∀ part ∈ parts, part.isBasic = true → part.loop.size abi = abi.loopRoom := by
    rw [parts_eq, forall_mem_map]
    intro block member isBasic
    obtain ⟨count, element, loop_eq⟩ := enabled.admissible block member isBasic
    change block.tree.loop.size abi = _
    rw [loop_eq, size_contigLeaf]
  have size_eq := structSz_eq abi fits basics
  rw [← members, parts_eq, length_map, ← parts_eq] at size_eq
  have fresh := enabled.fresh _ rfl
  simp only [size_eq] at fresh
  have copyable : ∀ part ∈ parts,
      part.Copyable abi state.depth state.memory newLoop ((partsLoop parts).size abi) := by
    rw [parts_eq, forall_mem_map]
    intro block member
    have separate := fresh block.tree (inUse block member)
    have source := (kept block member).size_eq
    refine ⟨safe.structFree _ (mem_map_of_mem member),
      State.depth_le (inUse block member), (kept block member).packed, ?_⟩
    simp only [Arena.Apart, Arena.Block.finish, Tree.block, source] at separate
    exact separate
  obtain ⟨other, created, packed, same⟩ := createStruct_packed abi fits basics copyable
  rw [step, members, created] at stepped
  obtain rfl := Option.some.inj stepped
  exact orderly.add abi packed same fresh

include orderly in
/-- An operation that copies no struct keeps all trees packed. -/
theorem Orderly.step
    {action : Action}
    (enabled : action.Enabled abi state)
    (safe : action.Safe abi state)
    (stepped : Dataloop.step abi state action = some next) :
    Orderly abi next := by
  cases action with
  | createBasic shape element newLoop =>
    have fits : shape.ownRoom abi < 2 ^ 31 := safe.fits
    have fresh := enabled.fresh _ rfl
    simp only [leafSz_eq abi fits] at fresh
    obtain ⟨other, created, packed, same⟩ :=
      createLoop_leaf abi state.depth state.memory fits element newLoop
    rw [Dataloop.step, created] at stepped
    obtain rfl := Option.some.inj stepped
    exact orderly.add abi packed same fresh
  | create shape element old newLoop =>
    have fits : shape.ownRoom abi + old.loop.size abi < 2 ^ 31 := safe.fits
    have inUse := enabled.inUse old mem_cons_self
    have kept := orderly.kept old inUse
    have fresh := enabled.fresh _ rfl
    rw [kept.size_eq] at fresh
    simp only [innerSz_eq abi fits] at fresh
    have apart := fresh old inUse
    simp only [Arena.Apart, Arena.Block.finish, Tree.block, kept.size_eq] at apart
    obtain ⟨other, created, packed, same⟩ := createLoop_inner abi fits
      (safe.structFree old mem_cons_self) (State.depth_le inUse) kept.packed
      element apart
    rw [Dataloop.step, kept.size_eq, created] at stepped
    obtain rfl := Option.some.inj stepped
    exact orderly.add abi packed same fresh
  | coalesce factor old newLoop =>
    have inUse := enabled.inUse old mem_cons_self
    have kept := orderly.kept old inUse
    have fresh := enabled.fresh _ rfl
    obtain ⟨other, created, packed, same⟩ := createCoalesced_packed abi
      enabled.admissible (safe.structFree old mem_cons_self)
      (State.depth_le inUse) kept.packed factor newLoop
    rw [Dataloop.step, kept.size_eq, created] at stepped
    obtain rfl := Option.some.inj stepped
    rw [kept.size_eq, ← Loop.size_multiplied abi factor] at fresh
    rw [← Loop.size_multiplied abi factor] at same ⊢
    exact orderly.add abi packed same fresh
  | createStruct blocks newLoop => exact orderly.createStruct abi enabled safe stepped
  | dup old newLoop =>
    have inUse := enabled.inUse old mem_cons_self
    have kept := orderly.kept old inUse
    have fresh := enabled.fresh _ rfl
    rw [kept.size_eq] at fresh
    obtain ⟨other, copied, packed, same⟩ := dataloopCopy_packed abi
      (safe.structFree old mem_cons_self) (State.depth_le inUse) kept.packed
      newLoop
    rw [Dataloop.step, dataloopDup, kept.size_eq, copied] at stepped
    obtain rfl := Option.some.inj stepped
    exact orderly.add abi packed same fresh
  | free old =>
    obtain rfl := Option.some.inj stepped
    exact orderly.free abi old
  | elsewhere memory =>
    obtain rfl := Option.some.inj stepped
    exact orderly.elsewhere abi enabled.admissible

theorem orderly_inductive :
    ((system abi).restrict (Action.Safe abi)).Inductive (Orderly abi) where
  initial := by
    intro state empty
    refine ⟨?_, ?_⟩
    · rw [empty]
      exact fun _ member => absurd member not_mem_nil
    · rw [empty]
      exact List.Pairwise.nil
  step := fun _ _ _ orderly enabled stepped =>
    orderly.step abi enabled.1 enabled.2 stepped

end

/-- In a run that copies no struct and whose sizes fit an `int`, every tree in use is
self-contained in a block of the recorded size and denotes the bytes that the calls
describe, whatever has been freed or written elsewhere since. -/
theorem selfContained_of_structFree_sources
    {state : State}
    (reachable : ((system abi).restrict (Action.Safe abi)).Reachable state)
    {tree : Tree}
    (inUse : tree ∈ state.trees) :
    SelfContained abi state.memory tree.base tree.size ∧
      Denotes abi state.memory tree.base tree.loop.bytes := by
  have kept := ((orderly_inductive abi).reachable reachable).kept tree inUse
  rw [kept.size_eq]
  exact ⟨kept.packed.selfContained abi, tree.loop.depth, kept.packed.bytes abi le_rfl⟩

section

/-- A machine with pointers of four bytes. -/
def ilp32 : Abi where
  sizeofDataloop := 40
  sizeofPointer := 4
  sizeofCount := 4
  sizeofOffset := 4
  alignSz := 8
  dataloop_pos := by decide
  pointer_pos := by decide
  count_pos := by decide
  offset_pos := by decide
  align_pos := by decide

/-- An element of four bytes. -/
def fourBytes : Element where
  elSize := 4
  elExtent := 4
  elType := 1

/-- The memory before any tree is made. -/
def noTrees : State where
  memory := fun _ => none
  trees := []

/-- A tree of one element. -/
def oneElement : Tree where
  base := 1000
  size := 40
  loop := .leaf (.contig 1) fourBytes

/-- A tree that has been copied stays as it is when its original is freed and the
memory of the original is used for something else. -/
theorem copyOfFreed_selfContained :
    ∃ state, ((system ilp32).restrict (Action.Safe ilp32)).Reachable state ∧
      ∃ tree ∈ state.trees, tree.base = 2000 ∧ state.memory 1000 = none ∧
        SelfContained ilp32 state.memory tree.base tree.size ∧
        Denotes ilp32 state.memory tree.base [0, 1, 2, 3] := by
  have start : ((system ilp32).restrict (Action.Safe ilp32)).Reachable noTrees := .initial rfl
  obtain ⟨one, made, oneTrees⟩ : ∃ one,
      step ilp32 noTrees (.createBasic (.contig 1) fourBytes 1000) = some one ∧
        one.trees = [oneElement] := ⟨_, rfl, rfl⟩
  have noSources (tree : Tree) (member : tree ∈ ([] : List Tree)) : False := not_mem_nil member
  have oneReached := start.step (Action.createBasic (.contig 1) fourBytes 1000)
    ⟨⟨fun tree member => (noSources tree member).elim,
      fun _ _ tree member => (noSources tree member).elim, trivial⟩,
      fun tree member => (noSources tree member).elim, show 40 < 2 ^ 31 by decide⟩ made
  have inUse : oneElement ∈ one.trees := by
    rw [oneTrees]
    exact mem_cons_self
  have kept := ((orderly_inductive ilp32).reachable oneReached).kept oneElement inUse
  obtain ⟨memory, copied, -⟩ := dataloopCopy_packed ilp32
    (show oneElement.loop.StructFree from trivial) (State.depth_le inUse) kept.packed
    2000
  have duplicated : step ilp32 one (.dup oneElement 2000) =
      some (one.add 2000 oneElement.loop (memory, 40)) := by
    rw [step, dataloopDup]
    exact congrArg _ copied
  have copyReached := oneReached.step (Action.dup oneElement 2000)
    ⟨⟨by simpa [Action.sources] using inUse, by
        rw [oneTrees]
        simp [Action.requested, Arena.Apart, Arena.Block.finish, Tree.block, oneElement],
      trivial⟩, by simp [Action.sources, oneElement, Loop.StructFree], trivial⟩ duplicated
  have freed := copyReached.step (Action.free 1)
    ⟨⟨fun tree member => (noSources tree member).elim, by rintro _ ⟨⟩, trivial⟩,
      fun tree member => (noSources tree member).elim, trivial⟩ rfl
  have trees : (one.add 2000 oneElement.loop (memory, 40)).trees.eraseIdx 1 =
      [⟨2000, 40, oneElement.loop⟩] := by
    rw [State.add, oneTrees]
    rfl
  have reached := freed.step
    (Action.elsewhere fun place => if 2000 ≤ place then memory place else none)
    ⟨⟨fun tree member => (noSources tree member).elim, by rintro _ ⟨⟩, by
        intro tree member place above below
        simp only [trees, mem_singleton] at member
        subst member
        exact if_pos above⟩,
      fun tree member => (noSources tree member).elim, trivial⟩ rfl
  refine ⟨_, reached, ⟨2000, 40, oneElement.loop⟩, ?_, rfl, rfl, ?_⟩
  · simp only [trees, mem_singleton]
  · exact selfContained_of_structFree_sources ilp32 reached (by simp only [trees, mem_singleton])

/-- A block of a struct that holds one element. -/
def elementBlock (offset : Int) : StructBlock where
  tree := oneElement
  isBasic := true
  blocksize := 1
  offset := offset
  elExtent := 4

/-- A struct of two elements. -/
def twoElements : Tree where
  base := 2000
  size := 152
  loop := partsLoop [(elementBlock 0).part, (elementBlock 8).part]

set_option maxRecDepth 8000 in
/-- The copy of a struct, whose last pointer leads into the block of the original. -/
theorem dup_twoElements :
    ∃ one two copied, step ilp32 noTrees (.createBasic (.contig 1) fourBytes 1000) = some one ∧
      one.trees = [oneElement] ∧
      step ilp32 one (.createStruct [elementBlock 0, elementBlock 8] 2000) = some two ∧
      two.trees = [twoElements, oneElement] ∧ step ilp32 two (.dup twoElements 3000) = some copied ∧
      (⟨3000, 152, twoElements.loop⟩ : Tree) ∈ copied.trees ∧
      copied.memory.dataloopAt 3000 = some {
        isFinal := false
        params := .struct 2 3040 3048 3056 2064
        element := structElement } :=
  ⟨_, _, _, rfl, rfl, rfl, rfl, rfl, mem_cons_self, rfl⟩

/-- The copy of a struct is not self-contained. -/
theorem dupOfStruct_not_selfContained :
    ∃ state, (system ilp32).Reachable state ∧
      ∃ tree ∈ state.trees, ¬ SelfContained ilp32 state.memory tree.base tree.size := by
  obtain ⟨one, two, copied, made, oneTrees, joined, twoTrees, duplicated, member,
    record⟩ := dup_twoElements
  have noSources (tree : Tree) (member : tree ∈ ([] : List Tree)) : False := not_mem_nil member
  have start : (system ilp32).Reachable noTrees := .initial rfl
  have oneReached := start.step (Action.createBasic (.contig 1) fourBytes 1000)
    ⟨fun tree member => (noSources tree member).elim,
      fun _ _ tree member => (noSources tree member).elim, trivial⟩ made
  have twoReached := oneReached.step
    (Action.createStruct [elementBlock 0, elementBlock 8] 2000)
    ⟨by
      rw [oneTrees]
      simp [Action.sources, elementBlock],
    by
      rw [oneTrees]
      intro block requested
      obtain rfl := Option.some.inj requested
      rw [forall_mem_singleton]
      exact .inr (by decide),
    by
      intro block member _
      simp only [mem_cons, not_mem_nil, or_false] at member
      rcases member with rfl | rfl <;> exact ⟨1, fourBytes, rfl⟩⟩ joined
  have copyReached := twoReached.step (Action.dup twoElements 3000)
    ⟨by
      rw [twoTrees]
      simp [Action.sources],
    by
      rw [twoTrees]
      simp [Action.requested, Arena.Apart, Arena.Block.finish, Tree.block, oneElement, twoElements],
    trivial⟩ duplicated
  refine ⟨copied, copyReached, _, member, ?_⟩
  rintro ⟨fuel, regions, read, inside, -⟩
  have extents := mem_regionsAt ilp32 read record ⟨2064, 8⟩ (by
    simp [LoopParams.arrayRegions, ilp32])
  have bounds := (inside _ extents).1
  exact absurd bounds (by decide)

end

end Mpich.Dataloop
