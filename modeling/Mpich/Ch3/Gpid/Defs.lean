import Mathlib.Data.Fintype.Basic
import Mathlib.Data.List.Pairwise

/-!
# Global process ids

A global process id is a pair: the number of a process group and a rank in it.
The routines of `mpid_vc.c` and `ch3u_port.c` that make these pairs for a
communicator, find the virtual connection a pair is meant for, and bring the
process groups a process does not know to it.

A process knows its process groups as a list, with the group of its own
`MPI_COMM_WORLD` in front. What is sent of a group is its id and its size; the
connection information that goes with them has no part in the pairs.
-/

namespace Mpich.Ch3.Gpid

/-- The id string of a process group, without the null character. -/
abbrev Id :=
  List Char

/-- The value of a `char`, which is signed. -/
def charValue (char : Char) : Int :=
  if char.toNat < 128 then char.toNat else char.toNat - 256

/-- `MPIDI_PG_IdToNum`: every step keeps the lower 27 bits. -/
def idToNum (id : Id) : Nat :=
  id.foldl (fun pgid char =>
    ((pgid + (charValue char - charValue ' ')) % 134217728).toNat) 0

/-- An `MPIDI_PG_t`: its id, and the `lpid` of each entry of its `vct`. -/
structure Group where
  id : Id
  lpids : List Nat

/-- An `MPIDI_VC_t`, as the entry of the table of a communicator. -/
structure VC where
  pg : Group
  pgRank : Nat
  lpid : Nat

/-- `MPIDI_PG_list` and `lpid_counter` of one process. -/
structure Known where
  groups : List Group
  lpidCounter : Nat

/-- The loop of `MPID_GPID_GetAllInComm`: the pairs it writes, `singlePG`, and
whether it goes through to the end. -/
def getAllFrom : List VC → Int → Bool → List (Nat × Nat) × Bool × Bool
  | [], _, singlePG => ([], singlePG, true)
  | vc :: rest, lastPGID, singlePG =>
    let pgid := idToNum vc.pg.id
    let singlePG :=
      if lastPGID ≠ pgid ∧ lastPGID ≠ -1 then false else singlePG
    if vc.pgRank ≠ vc.lpid then ([(pgid, vc.pgRank)], singlePG, false)
    else
      let result := getAllFrom rest pgid singlePG
      ((pgid, vc.pgRank) :: result.1, result.2)

/-- `MPID_GPID_GetAllInComm`. -/
def getAllInComm (vcr : List VC) : List (Nat × Nat) × Bool × Bool :=
  getAllFrom vcr (-1) true

/-- `MPID_GPID_ToLpidArray`: what it writes to `lpid`, and whether it returns
without an error. -/
def toLpidArray (groups : List Group) : List (Nat × Nat) → List Int × Bool
  | [] => ([], true)
  | (number, rank) :: rest =>
    match groups.find? fun pg => idToNum pg.id = number with
    | none => ([-1], false)
    | some pg =>
      match pg.lpids[rank]? with
      | none => ([-1], false)
      | some lpid =>
        let result := toLpidArray groups rest
        ((lpid : Int) :: result.1, result.2)

/-- `MPIDI_PG_Create`: new connections have the next numbers. -/
def pgCreate
    (known : Known)
    (vctSz : Nat)
    (id : Id) : Known where
  groups := known.groups ++ [⟨id, (List.range vctSz).map fun rank => known.lpidCounter + rank⟩]
  lpidCounter := known.lpidCounter + vctSz

/-- `MPIDI_PG_Create_from_string`, for the description of a group. -/
def pgCreateFromString
    (known : Known)
    (group : Group) : Known :=
  if known.groups.any fun pg => pg.id = group.id then known
  else pgCreate known group.lpids.length group.id

/-- A communicator of the root, with the table of its connections. -/
structure Comm where
  localSize : Nat
  vcr : List VC

/-- The loop of `ExtractLocalPGInfo`, which fills `local_translation` and
collects the process groups. The result is `none` where it reads or writes
outside an array. -/
def extractFrom (vcr : List VC) :
    Nat → Nat → List (Option (Nat × Nat)) → List Group →
      Option (List (Option (Nat × Nat)) × List Group)
  | 0, _, localTranslation, pgList => some (localTranslation, pgList)
  | remaining + 1, i, localTranslation, pgList =>
    match vcr[i]? with
    | none => none
    | some vc =>
      let pgIndex := pgList.findIdx fun pg => pg.id = vc.pg.id
      let pgList :=
        if pgIndex < pgList.length then pgList else pgList ++ [vc.pg]
      if i < localTranslation.length then
        extractFrom vcr remaining (i + 1)
          (localTranslation.set i (some (pgIndex, vc.pgRank))) pgList
      else none

/-- `ExtractLocalPGInfo`. -/
def extractLocalPGInfo
    (comm : Comm)
    (localTranslation : List (Option (Nat × Nat))) :
    Option (List (Option (Nat × Nat)) × List Group) :=
  extractFrom comm.vcr comm.localSize 0 localTranslation []

/-- `MPID_PG_BCast` over the processes of a communicator. `local_translation`
has as many entries as the communicator has processes. -/
def pgBCast
    {processes : Nat}
    (peer : Comm)
    (root : Fin processes)
    (known : Fin processes → Known) : Option (Fin processes → Known) :=
  match extractLocalPGInfo peer (List.replicate processes none) with
  | none => none
  | some (_, pgList) =>
    some fun rank =>
      if rank = root then known rank
      else pgList.foldl pgCreateFromString (known rank)

/-- The test at the start of `MPID_PG_ForwardPGInfo`: the process knows a group
with the number of each pair. -/
def allFound
    (groups : List Group)
    (gpids : List (Nat × Nat)) : Bool :=
  gpids.all fun gpid =>
    groups.head?.any (fun pg => idToNum pg.id = gpid.1) ||
      groups.any fun pg => idToNum pg.id = gpid.1

/-- `MPID_PG_ForwardPGInfo` at all processes of a communicator. -/
def forwardPGInfo
    {processes : Nat}
    (peer : Comm)
    (gpids : List (Nat × Nat))
    (root : Fin processes)
    (known : Fin processes → Known) : Option (Fin processes → Known) :=
  if ∀ rank, allFound (known rank).groups gpids then some known
  else pgBCast peer root known

/-- A process of the universe: the id of its group and its rank there. -/
abbrev Process :=
  Id × Nat

/-- The pair of a process. -/
def gpid (process : Process) : Nat × Nat :=
  (idToNum process.1, process.2)

/-- The process that a connection leads to. -/
def VC.process (vc : VC) : Process :=
  (vc.pg.id, vc.pgRank)

/-- The connection to the process has this number. -/
def HasLpid
    (groups : List Group)
    (process : Process)
    (lpid : Int) : Prop :=
  ∃ group ∈ groups, group.id = process.1 ∧
    ∃ found, group.lpids[process.2]? = some found ∧ lpid = found

/-- Every pair is mapped to the connection to its process. -/
def Translates
    (groups : List Group)
    (processes : List Process)
    (result : List Int × Bool) : Prop :=
  result.2 = true ∧ List.Forall₂ (HasLpid groups) processes result.1

/-- What a process knows is in order: its groups have different ids and the
sizes they have everywhere, and no two connections have the same number. -/
structure Known.Wf
    (size : Id → Nat)
    (known : Known) : Prop where
  nonempty : known.groups ≠ []
  ids : (known.groups.map Group.id).Nodup
  sized : ∀ group ∈ known.groups, group.lpids.length = size group.id
  lpids : (known.groups.flatMap Group.lpids).Nodup
  below : ∀ group ∈ known.groups, ∀ lpid ∈ group.lpids, lpid < known.lpidCounter

/-- The connection is an entry of a group that the process knows. -/
def VC.Of
    (known : Known)
    (vc : VC) : Prop :=
  vc.pg ∈ known.groups ∧ vc.pg.lpids[vc.pgRank]? = some vc.lpid

/-- One process makes the pairs of a communicator, another one reads them. Both
know the groups of the members. -/
structure Exchange where
  size : Id → Nat
  maker : Known
  reader : Known
  vcr : List VC
  makerWf : maker.Wf size
  readerWf : reader.Wf size
  ofMaker : ∀ vc ∈ vcr, vc.Of maker
  atReader : ∀ vc ∈ vcr, ∃ group ∈ reader.groups, group.id = vc.pg.id

/-- The pair of every member is written, and the reader maps it to its own
connection to that member. -/
def Exchange.Identifies (exchange : Exchange) : Prop :=
  (getAllInComm exchange.vcr).1 = exchange.vcr.map (fun vc => gpid vc.process) ∧
    Translates exchange.reader.groups (exchange.vcr.map VC.process)
      (toLpidArray exchange.reader.groups (getAllInComm exchange.vcr).1)

/-- The processes of a communicator bring the groups of some processes to each
other; the root takes them from a peer communicator. -/
structure Forwarding where
  size : Id → Nat
  localSize : Nat
  known : Fin localSize → Known
  root : Fin localSize
  peer : Comm
  members : List Process
  wf : ∀ rank, (known rank).Wf size
  ofRoot : ∀ vc ∈ peer.vcr, vc.Of (known root)
  ranks : ∀ member ∈ members, member.2 < size member.1

/-- No array is left, and every process maps the pair of every member to its
connection to that member. -/
def Forwarding.Succeeds (forwarding : Forwarding) : Prop :=
  ∃ after, forwardPGInfo forwarding.peer (forwarding.members.map gpid)
        forwarding.root forwarding.known = some after ∧
      ∀ rank, Translates (after rank).groups forwarding.members
        (toLpidArray (after rank).groups (forwarding.members.map gpid))

/-- The first of the ids with the number of the process's group is the id of
its group. -/
def Recognised
    (ids : List Id)
    (process : Process) : Prop :=
  ids.find? (fun id => idToNum id = idToNum process.1) = some process.1

/-- No member but the last has a rank in its group that differs from its number
at the maker, and the reader recognises every member. -/
def Exchange.Clear (exchange : Exchange) : Prop :=
  (∀ vc ∈ exchange.vcr.dropLast, vc.pgRank = vc.lpid) ∧ ∀ vc ∈ exchange.vcr,
      Recognised (exchange.reader.groups.map Group.id) vc.process

/-- Some process does not know a group with the number of some pair. -/
def Forwarding.Needed (forwarding : Forwarding) : Prop :=
  ∃ rank, allFound (forwarding.known rank).groups (forwarding.members.map gpid) = false

instance (forwarding : Forwarding) : Decidable forwarding.Needed :=
  inferInstanceAs (Decidable (∃ _, _))

/-- The ids a process finds in its list: those of the groups it knows and, if
groups are broadcast and it is not the root, behind them those of the peer
communicator. -/
def Forwarding.seen
    (forwarding : Forwarding)
    (rank : Fin forwarding.localSize) : List Id :=
  (forwarding.known rank).groups.map Group.id ++ if forwarding.Needed ∧ rank ≠ forwarding.root then
      (forwarding.peer.vcr.take forwarding.peer.localSize).map fun vc => vc.pg.id
    else []

/-- If groups are broadcast, `local_size` of the peer communicator is neither
above that of the communicator served nor above the size of the table that it
indexes; and every process recognises every member. -/
def Forwarding.Clear (forwarding : Forwarding) : Prop :=
  (forwarding.Needed → forwarding.peer.localSize ≤ forwarding.localSize ∧
      forwarding.peer.localSize ≤ forwarding.peer.vcr.length) ∧
    ∀ rank, ∀ member ∈ forwarding.members, Recognised (forwarding.seen rank) member

end Mpich.Ch3.Gpid

/-!
## Pairs and connections

`MPID_GPID_ToLpidArray` stops at the first group whose number is the one in the
pair. The number is not the id, so this is the right group only when no other
group in front of it has the same number. `MPID_GPID_GetAllInComm` writes the
pair of a member and goes on to the next one only when the rank of the member
in its group is its number at the process, which is so in `MPI_COMM_WORLD` and
hardly ever in another group.
-/

namespace Mpich.Ch3.Gpid

open List

theorem recognised_iff
    {groups : List Group}
    {process : Process} :
    Recognised (groups.map Group.id) process ↔
      ∃ group, groups.find? (fun pg => idToNum pg.id = idToNum process.1) =
          some group ∧ group.id = process.1 := by
  unfold Recognised
  rw [find?_map, Option.map_eq_some_iff]
  exact Iff.rfl

/-- Two groups with an equal connection number are one group. -/
theorem Known.Wf.group_unique
    {size : Id → Nat} {known : Known}
    (wf : known.Wf size)
    {first second : Group}
    (isFirst : first ∈ known.groups)
    (isSecond : second ∈ known.groups)
    {lpid : Nat}
    (inFirst : lpid ∈ first.lpids)
    (inSecond : lpid ∈ second.lpids) :
    first = second := by
  by_contra different
  have apart := (nodup_flatMap.1 wf.lpids).2
  have symmetric : Std.Symm (Function.onFun List.Disjoint Group.lpids) :=
    ⟨fun _ _ disjoint => disjoint.symm⟩
  exact apart.forall isFirst isSecond different inFirst inSecond

/-- A process maps pairs to the right connections exactly when it recognises
the processes. -/
theorem translates_iff
    {size : Id → Nat} {known : Known}
    (wf : known.Wf size)
    (processes : List Process)
    (ranks : ∀ process ∈ processes, process.2 < size process.1) :
    Translates known.groups processes (toLpidArray known.groups (processes.map gpid)) ↔
      ∀ process ∈ processes, Recognised (known.groups.map Group.id) process := by
  induction processes with
  | nil => exact ⟨fun _ _ impossible => absurd impossible not_mem_nil,
      fun _ => ⟨rfl, .nil⟩⟩
  | cons process rest ih =>
    rw [forall_mem_cons] at ranks ⊢
    have tail := ih ranks.2
    rw [recognised_iff, ← tail]
    simp only [map_cons, gpid, toLpidArray]
    cases isFound : known.groups.find?
        fun pg => idToNum pg.id = idToNum process.1 with
    | none =>
      constructor
      · rintro ⟨impossible, _⟩
        exact absurd impossible Bool.false_ne_true
      · rintro ⟨⟨group, impossible, _⟩, _⟩
        exact absurd impossible (Option.some_ne_none group).symm
    | some group =>
      have isKnown : group ∈ known.groups := mem_of_find?_eq_some isFound
      simp only [Option.some.injEq, exists_eq_left']
      cases isLpid : group.lpids[process.2]? with
      | none =>
        constructor
        · rintro ⟨impossible, _⟩
          exact absurd impossible Bool.false_ne_true
        · rintro ⟨sameId, _⟩
          have short := List.getElem?_eq_none_iff.1 isLpid
          rw [wf.sized group isKnown, sameId] at short
          omega
      | some lpid =>
        constructor
        · rintro ⟨ends, all⟩
          cases all with
          | cons first others =>
            obtain ⟨right, isRight, rightId, found, isFoundLpid, same⟩ := first
            have sameLpid : lpid = found := Int.ofNat.inj same
            rw [← sameLpid] at isFoundLpid
            have sameGroup := wf.group_unique isKnown isRight
              (mem_of_getElem? isLpid)
              (mem_of_getElem? isFoundLpid)
            exact ⟨sameGroup ▸ rightId, ends, others⟩
        · rintro ⟨sameId, ends, others⟩
          exact ⟨ends, .cons ⟨group, isKnown, sameId, lpid, isLpid, rfl⟩ others⟩

/-- The pair of every member is written exactly when no member but the last
ends the loop. -/
theorem getAllFrom_iff
    (vcr : List VC)
    (lastPGID : Int)
    (singlePG : Bool) :
    (getAllFrom vcr lastPGID singlePG).1 = vcr.map (fun vc => gpid vc.process) ↔
      ∀ vc ∈ vcr.dropLast, vc.pgRank = vc.lpid := by
  induction vcr generalizing lastPGID singlePG with
  | nil => simp [getAllFrom]
  | cons vc rest ih =>
    simp only [getAllFrom]
    split
    case isTrue differs =>
      cases rest with
      | nil => simp [gpid, VC.process]
      | cons second others =>
        constructor
        · intro lengths
          have := congrArg length lengths
          simp at this
        · intro same
          exact absurd (same vc mem_cons_self) differs
    case isFalse same =>
      have same := not_not.1 same
      simp only [map_cons, gpid, VC.process, List.cons.injEq, true_and]
      refine (ih _ _).trans ?_
      cases rest with
      | nil => simp
      | cons second others =>
        rw [dropLast_cons_cons, forall_mem_cons]
        exact ⟨fun all => ⟨same, all⟩, fun all => all.2⟩

/-- The pairs of a communicator identify its members at another process exactly
when the exchange is clear. -/
theorem identifies_iff (exchange : Exchange) :
    exchange.Identifies ↔ exchange.Clear := by
  have written := getAllFrom_iff exchange.vcr (-1) true
  have ranks : ∀ process ∈ exchange.vcr.map VC.process, process.2 < exchange.size process.1 := by
    intro process isMember
    obtain ⟨vc, inComm, rfl⟩ := mem_map.1 isMember
    obtain ⟨isKnown, isLpid⟩ := exchange.ofMaker vc inComm
    have inRange := (List.getElem?_eq_some_iff.1 isLpid).1
    rwa [exchange.makerWf.sized vc.pg isKnown] at inRange
  have mapped := translates_iff exchange.readerWf _ ranks
  rw [forall_mem_map, map_map] at mapped
  unfold Exchange.Identifies Exchange.Clear
  rw [← written, ← mapped]
  constructor
  · rintro ⟨filled, translated⟩
    refine ⟨filled, ?_⟩
    rw [filled] at translated
    exact translated
  · rintro ⟨filled, translated⟩
    refine ⟨filled, ?_⟩
    rw [getAllInComm, filled]
    exact translated

end Mpich.Ch3.Gpid
