import Mathlib.Data.List.Basic
import Mathlib.Order.Basic

/-!
# Graph topologies

`MPI_Graph_create` checks its arrays against the size of the old communicator and stores
them at the processes of the new one, where the other calls trust what is stored. The edges
are ranks of the old communicator, and `MPI_Graph_neighbors` writes all neighbors.
-/

namespace Mpich.Topo

open List

/-- The errors, with the values in their messages. -/
inductive GraphError
  | argneg (nnodes : Int)
  | topotoolarge (nnodes commSize : Int)
  | indexneg (i : Nat) (value : Int)
  | indexnonmonotone (i : Nat) (value next : Int)
  | edgeoutrange (i : Nat) (edge commSize : Int)
  | nulledge (i j : Nat)
  | rank (rank nnodes : Int)
  | argrange (name : String) (max value : Int)

/-- A graph topology; the arrays are as long as they were allocated. -/
structure Graph where
  nnodes : Int
  nedges : Int
  index : List Int
  edges : List Int

/-- What a process gets: the ranks in the old communicator, and the topology. -/
structure NewComm where
  group : List Nat
  topology : Graph

/-- The arguments of `MPI_Graph_create`. -/
structure GraphArgs where
  nnodes : Int
  index : Nat → Int
  edges : Nat → Int
  reorder : Bool

namespace GraphArgs

variable (args : GraphArgs)

/-- `index[nnodes-1]` -/
def nedges : Int :=
  if args.nnodes > 0 then args.index (args.nnodes.toNat - 1) else 0

/-- The first loop of the checks. In this and the next one later errors replace earlier
ones. -/
def checkIndex : Option GraphError :=
  (range args.nnodes.toNat).reverse.findSome? fun i =>
    if i + 1 < args.nnodes.toNat ∧ args.index i > args.index (i + 1) then
      some (.indexnonmonotone i (args.index i) (args.index (i + 1)))
    else if args.index i < 0 then some (.indexneg i (args.index i))
    else none

def checkEdges
    (commSize : Nat) : Option GraphError :=
  (range args.nedges.toNat).reverse.findSome? fun i =>
    if args.edges i > commSize ∨ args.edges i < 0 then
      some (.edgeoutrange i (args.edges i) commSize)
    else none

/-- The last loop, from the node `i` and the edge `j`. -/
def checkNulledge : Nat → Nat → Nat → Option GraphError
  | 0, _, _ => none
  | left + 1, i, j =>
    match (range' j ((args.index i).toNat - j)).find? fun j => args.edges j = i with
    | some j => some (.nulledge i j)
    | none => checkNulledge left (i + 1) (max j (args.index i).toNat)

def check
    (commSize : Nat) : Option GraphError :=
  if args.nnodes < 0 then some (.argneg args.nnodes)
  else if args.nnodes > commSize then some (.topotoolarge args.nnodes commSize)
  else (args.checkEdges commSize).or
    (args.checkIndex.or (args.checkNulledge args.nnodes.toNat 0 0))

/-- `MPIR_Graph_map` -/
def graphMap
    (rank : Nat) : Option Nat :=
  if rank < args.nnodes then some rank else none

/-- The processes of the new communicator. Those of `MPI_Comm_split` have their ranks as
keys. -/
def group
    (commSize : Nat) : List Nat :=
  if args.reorder then (range commSize).filterMap args.graphMap else range args.nnodes.toNat

/-- What `MPIR_Graph_create` puts at a process. -/
def stored : Graph where
  nnodes := args.nnodes
  nedges := args.nedges
  index := (range args.nnodes.toNat).map args.index
  edges := (range args.nedges.toNat).map args.edges

/-- `MPI_Graph_create` at a process. -/
def graphCreate
    (commSize rank : Nat) : Except GraphError (Option NewComm) :=
  match args.check commSize with
  | some error => .error error
  | none =>
    if rank ∈ args.group commSize then
      .ok (some ⟨args.group commSize, args.stored⟩)
    else .ok none

end GraphArgs

namespace Graph

variable (graph : Graph)

/-- `MPI_Graph_neighbors_count`; in this and what follows, `none` is a place outside of a
stored array. -/
def neighborsCount
    (rank : Int) : Option (Except GraphError Int) :=
  if rank < 0 ∨ rank ≥ graph.nnodes then some (.error (.rank rank graph.nnodes))
  else if rank = 0 then graph.index[rank.toNat]?.map .ok
  else do
    let atRank ← graph.index[rank.toNat]?
    let before ← graph.index[rank.toNat - 1]?
    return .ok (atRank - before)

/-- `is` -/
def is
    (rank : Int) : Option Int :=
  if rank = 0 then some 0 else graph.index[rank.toNat - 1]?

/-- `MPI_Graph_neighbors`: what is written to the buffer, whose length is not read. -/
def neighbors
    (rank _maxneighbors : Int) : Option (Except GraphError (List Int)) :=
  if rank < 0 ∨ rank ≥ graph.nnodes then some (.error (.rank rank graph.nnodes))
  else do
    let is ← graph.is rank
    let ie ← graph.index[rank.toNat]?
    let written ← (range' is.toNat (ie - is).toNat).mapM fun i => graph.edges[i]?
    return .ok written

/-- `MPI_Graph_get` -/
def get
    (maxindex maxedges : Int) : Option (Except GraphError (List Int × List Int)) :=
  if graph.nnodes > maxindex then some (.error (.argrange "maxindex" maxindex graph.nnodes))
  else if graph.nedges > maxedges then
    some (.error (.argrange "maxedges" maxedges graph.nedges))
  else do
    let index ← (range graph.nnodes.toNat).mapM fun i => graph.index[i]?
    let edges ← (range graph.nedges.toNat).mapM fun i => graph.edges[i]?
    return .ok (index, edges)

end Graph

namespace GraphArgs

variable (args : GraphArgs)

/-- The place of the first edge of a node. -/
def start
    (i : Nat) : Int :=
  if i = 0 then 0 else args.index (i - 1)

/-- The neighbors of a node. -/
def entries
    (i : Nat) : List Int :=
  (range' (args.start i).toNat (args.index i - args.start i).toNat).map args.edges

/-- The calls at a process of the new communicator give the graph. A neighbor is below what
all edges are below, and other than the node. -/
structure Serves
    (graph : Graph) : Prop where
  counts : ∀ i < args.nnodes.toNat,
    graph.neighborsCount i = some (.ok (args.entries i).length)
  gives : ∀ i < args.nnodes.toNat, ∀ maxneighbors,
    graph.neighbors i maxneighbors = some (.ok (args.entries i))
  names : ∀ i < args.nnodes.toNat, ∀ neighbor ∈ args.entries i, 0 ≤ neighbor ∧ neighbor ≠ i ∧
    ∀ bound, (∀ j < args.nedges.toNat, args.edges j < bound) → neighbor < bound
  arrays : ∀ maxindex maxedges, args.nnodes ≤ maxindex ∧ args.nedges ≤ maxedges →
    graph.get maxindex maxedges = some (.ok
      ((range args.nnodes.toNat).map args.index, (range args.nedges.toNat).map args.edges))
  refuses : ∀ maxindex maxedges, ¬ (args.nnodes ≤ maxindex ∧ args.nedges ≤ maxedges) →
    ∃ error, graph.get maxindex maxedges = some (.error error)

/-- The first processes get a communicator with the graph, and no other process gets one. -/
def Correct
    (commSize : Nat) : Prop :=
  ∀ rank < commSize,
    if rank < args.nnodes then
      ∃ comm, args.graphCreate commSize rank = .ok (some comm) ∧
        comm.group = range args.nnodes.toNat ∧ args.Serves comm.topology
    else args.graphCreate commSize rank = .ok none

/-- What the checks establish. -/
structure Valid
    (commSize : Nat) : Prop where
  nodes : 0 ≤ args.nnodes ∧ args.nnodes ≤ commSize
  nonneg : ∀ i < args.nnodes.toNat, 0 ≤ args.index i
  mono : ∀ i, i + 1 < args.nnodes.toNat → args.index i ≤ args.index (i + 1)
  edges : ∀ j < args.nedges.toNat, 0 ≤ args.edges j

variable {args} {commSize : Nat}

theorem valid_of_check
    (accepted : args.check commSize = none) :
    args.Valid commSize ∧ args.checkNulledge args.nnodes.toNat 0 0 = none := by
  unfold check at accepted
  split_ifs at accepted with negative large
  simp only [Option.or_eq_none_iff, checkEdges, checkIndex, findSome?_eq_none_iff, mem_reverse,
    mem_range, ite_eq_right_iff, reduceCtorEq, imp_false] at accepted
  obtain ⟨edges, index, nulledge⟩ := accepted
  refine ⟨⟨⟨by omega, by omega⟩, fun i less => ?_, fun i less => ?_, fun j less => ?_⟩, nulledge⟩
  · have checked := index i less
    split_ifs at checked
    omega
  · have checked := index i (by omega)
    split_ifs at checked
    omega
  · have checked := edges j less
    omega

section

variable (valid : args.Valid commSize) {i : Nat} (less : i < args.nnodes.toNat)

include valid

include less in
theorem Valid.start_le :
    0 ≤ args.start i ∧ args.start i ≤ args.index i := by
  unfold start
  cases i with
  | zero => exact ⟨Int.le_refl 0, valid.nonneg 0 less⟩
  | succ i => exact ⟨valid.nonneg i (by omega), valid.mono i less⟩

theorem Valid.index_le
    {i k : Nat}
    (le : i ≤ k)
    (less : k < args.nnodes.toNat) :
    args.index i ≤ args.index k := by
  induction le with
  | refl => exact Int.le_refl _
  | step _ ih => exact Int.le_trans (ih (by omega)) (valid.mono _ less)

include less in
theorem Valid.index_le_nedges :
    args.index i ≤ args.nedges := by
  unfold nedges
  rw [if_pos (by omega)]
  exact valid.index_le (by omega) (by omega)

/-- The nodes before `i` have been looked at, and `j` is where its edges begin. -/
theorem Valid.edges_ne
    {left i j : Nat}
    (atStart : j = args.start i)
    (ends : i + left = args.nnodes.toNat)
    (accepted : args.checkNulledge left i j = none)
    {k e : Nat}
    (le : i ≤ k)
    (less : k < args.nnodes.toNat)
    (begins : args.start k ≤ e)
    (inside : e < args.index k) :
    args.edges e ≠ k := by
  induction left generalizing i j with
  | zero => omega
  | succ left ih =>
    unfold checkNulledge at accepted
    cases found : (range' j ((args.index i).toNat - j)).find? fun j => args.edges j = i with
    | some place => rw [found] at accepted; cases accepted
    | none =>
      rw [found] at accepted
      rcases Nat.lt_or_eq_of_le le with above | rfl
      · have bounds := valid.start_le (show i < args.nnodes.toNat by omega)
        exact ih (by unfold start; rw [if_neg i.succ_ne_zero, Nat.add_sub_cancel]; omega)
          (by omega) accepted above
      · exact of_decide_eq_false (Bool.not_eq_true _ ▸ find?_eq_none.mp found e
          (mem_range'_1.mpr (by omega)))

include less in
/-- The places of the neighbors of a node. -/
theorem Valid.place_lt :
    ∀ j ∈ range' (args.start i).toNat (args.index i - args.start i).toNat,
      args.start i ≤ j ∧ j < args.index i ∧ j < args.nedges.toNat := by
  have bounds := valid.start_le less
  have ends := valid.index_le_nedges less
  intro j member
  rw [mem_range'_1] at member
  omega

include less in
theorem Valid.length_entries :
    ((args.entries i).length : Int) = args.index i - args.start i := by
  have bounds := valid.start_le less
  unfold entries
  rw [length_map, length_range']
  omega

theorem Valid.group_eq : args.group commSize = range args.nnodes.toNat := by
  have mapped : ∀ size : Nat,
      (range size).filterMap args.graphMap = range (min size args.nnodes.toNat) := by
    intro size
    induction size with
    | zero => rfl
    | succ size ih =>
      rw [range_succ, filterMap_append, ih, filterMap_cons, filterMap_nil, graphMap]
      split_ifs with less
      · rw [Nat.min_eq_left (by omega), Nat.min_eq_left (by omega), range_succ]
      · rw [Nat.min_eq_right (by omega), Nat.min_eq_right (by omega), append_nil]
  unfold group
  split_ifs
  · rw [mapped, Nat.min_eq_right (by have := valid.nodes.2; omega)]
  · rfl

end

theorem mapM_stored
    {values : Nat → Int} {count : Nat} {places : List Nat}
    (inside : ∀ i ∈ places, i < count) :
    places.mapM (fun i => ((range count).map values)[i]?) = some (places.map values) := by
  induction places with
  | nil => rfl
  | cons i places ih =>
    obtain ⟨first, others⟩ := forall_mem_cons.mp inside
    rw [mapM_cons, ih others, getElem?_map, getElem?_range first]
    rfl

theorem stored_index
    {i : Nat}
    (less : i < args.nnodes.toNat) :
    args.stored.index[i]? = some (args.index i) := by
  unfold stored
  rw [getElem?_map, getElem?_range less]
  rfl

theorem stored_start
    {i : Nat}
    (less : i < args.nnodes.toNat) :
    args.stored.is i = some (args.start i) := by
  unfold Graph.is start
  cases i with
  | zero => rfl
  | succ i =>
    rw [if_neg (by omega), if_neg i.succ_ne_zero]
    exact stored_index (by omega)

theorem Valid.serves
    (valid : args.Valid commSize)
    (nulledge : args.checkNulledge args.nnodes.toNat 0 0 = none) :
    args.Serves args.stored := by
  have inRange : ∀ i < args.nnodes.toNat, ¬ ((i : Int) < 0 ∨ i ≥ args.stored.nnodes) := by
    intro i less
    change ¬ ((i : Int) < 0 ∨ i ≥ args.nnodes)
    omega
  constructor
  case counts =>
    intro i less
    have before := stored_start less
    rw [valid.length_entries less, Graph.neighborsCount, if_neg (inRange i less),
      Int.toNat_natCast, stored_index less]
    unfold Graph.is at before
    split_ifs at before ⊢
    · rw [← Option.some.inj before, Int.sub_zero]
      rfl
    · rw [Int.toNat_natCast] at before
      rw [before]
      rfl
  case gives =>
    intro i less maxneighbors
    have inside := valid.place_lt less
    rw [Graph.neighbors, if_neg (inRange i less), Int.toNat_natCast, stored_start less,
      stored_index less]
    change (mapM (fun j => args.stored.edges[j]?) _).bind _ = _
    rw [stored, mapM_stored fun j member => (inside j member).2.2]
    rfl
  case names =>
    intro i less neighbor member
    obtain ⟨j, isPlace, rfl⟩ := mem_map.mp member
    obtain ⟨begins, ends, inside⟩ := valid.place_lt less j isPlace
    exact ⟨valid.edges j inside,
      valid.edges_ne rfl (Nat.zero_add _) nulledge i.zero_le less begins ends,
      fun bound below => below j inside⟩
  case arrays =>
    rintro maxindex maxedges ⟨indexFits, edgesFit⟩
    unfold Graph.get stored
    dsimp only
    rw [if_neg (Int.not_lt.mpr indexFits), if_neg (Int.not_lt.mpr edgesFit),
      mapM_stored fun _ => mem_range.mp, mapM_stored fun _ => mem_range.mp]
    rfl
  case refuses =>
    intro maxindex maxedges tooSmall
    unfold Graph.get stored
    dsimp only
    split_ifs with few many
    · exact ⟨_, rfl⟩
    · exact ⟨_, rfl⟩
    · exact absurd ⟨Int.not_lt.mp few, Int.not_lt.mp many⟩ tooSmall

/-- The edge of the first of two nodes names the third process. -/
def outside : GraphArgs where
  nnodes := 2
  index := fun _ => 1
  edges := fun _ => 2
  reorder := false

end GraphArgs

end Mpich.Topo
