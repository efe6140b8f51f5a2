import Mpich.Ch3.Gpid.Defs

/-!
# Process groups from a peer communicator

`MPID_PG_ForwardPGInfo` looks for numbers, not for ids, and when some process
misses a number the root broadcasts the groups of a peer communicator. What a
process knows afterwards is what it knew and, behind it, the groups of that
communicator. The array that `ExtractLocalPGInfo` fills has an entry for each
process of the communicator served, and gets one for each process of the peer
communicator.
-/

namespace Mpich.Ch3.Gpid

open List Option

/-- A second occurrence of an element is never found. -/
theorem find?_append_of_mem
    {α : Type*} {front : List α} {element : α}
    (isThere : element ∈ front)
    (back : List α)
    (test : α → Bool) :
    (front ++ element :: back).find? test = (front ++ back).find? test := by
  rw [find?_append, find?_append]
  cases passes : test element with
  | false => rw [find?_cons_of_neg (by rw [passes]; exact Bool.false_ne_true)]
  | true =>
    obtain ⟨found, isFound⟩ := isSome_iff_exists.1 (find?_isSome.2 ⟨element, isThere, passes⟩)
    rw [isFound, some_or, some_or]

/-- The groups collected, when the loop stays inside its arrays: they are found
by their numbers as the groups of the connections are. -/
theorem extractFrom_some
    (vcr : List VC)
    (remaining i : Nat)
    (localTranslation : List (Option (Nat × Nat)))
    (pgList : List Group)
    (inTranslation : i + remaining ≤ localTranslation.length)
    (inTable : i + remaining ≤ vcr.length) :
    ∃ written groups, extractFrom vcr remaining i localTranslation pgList = some (written, groups) ∧
        (∀ test, (groups.map Group.id).find? test = (pgList.map Group.id ++
            ((vcr.drop i).take remaining).map fun vc => vc.pg.id).find? test) ∧
        ∀ group ∈ groups, group ∈ pgList ∨ ∃ vc ∈ vcr, vc.pg = group := by
  induction remaining generalizing i localTranslation pgList with
  | zero =>
    refine ⟨localTranslation, pgList, rfl, fun test => ?_, fun group isGroup => .inl isGroup⟩
    rw [take_zero, map_nil, append_nil]
  | succ remaining ih =>
    obtain ⟨vc, isVc⟩ : ∃ vc, vcr[i]? = some vc :=
      ⟨vcr[i], getElem?_eq_getElem (by omega)⟩
    have dropped : vcr.drop i = vc :: vcr.drop (i + 1) := by
      rw [drop_eq_getElem_cons (by omega)]
      rw [getElem?_eq_getElem (by omega), Option.some.injEq] at isVc
      rw [isVc]
    simp only [extractFrom, isVc]
    rw [if_pos (show i < localTranslation.length by omega)]
    generalize isIndex : (pgList.findIdx fun pg => pg.id = vc.pg.id) = pgIndex
    generalize isList : (if pgIndex < pgList.length then pgList
      else pgList ++ [vc.pg]) = longer
    obtain ⟨written, groups, runs, finds, origin⟩ :=
      ih (i + 1)
        (localTranslation.set i (some (pgIndex, vc.pgRank))) longer
        (by rw [length_set]; omega) (by omega)
    refine ⟨written, groups, runs, fun test => ?_, fun group isGroup => ?_⟩
    · rw [finds, dropped, take_succ_cons, map_cons, ← isList]
      split
      case isTrue isThere =>
        rw [← isIndex, findIdx_lt_length] at isThere
        obtain ⟨pg, isPg, sameId⟩ := isThere
        have isId : vc.pg.id ∈ pgList.map Group.id := mem_map.2 ⟨pg, isPg, of_decide_eq_true sameId⟩
        rw [find?_append_of_mem isId]
      case isFalse isNew =>
        rw [map_append, append_assoc]
        rfl
    · rcases origin group isGroup with inLonger | inTable
      · rw [← isList] at inLonger
        split at inLonger
        case isTrue => exact .inl inLonger
        case isFalse =>
          rcases mem_append.1 inLonger with isOld | isNew
          · exact .inl isOld
          · rw [mem_singleton] at isNew
            exact .inr ⟨vc, mem_of_getElem? isVc, isNew.symm⟩
      · exact .inr inTable

/-- The loop leaves one of its arrays when it has too few entries. -/
theorem extractFrom_none
    (vcr : List VC)
    (remaining i : Nat)
    (localTranslation : List (Option (Nat × Nat)))
    (pgList : List Group)
    (some : 0 < remaining)
    (tooLong : localTranslation.length < i + remaining ∨ vcr.length < i + remaining) :
    extractFrom vcr remaining i localTranslation pgList = none := by
  induction remaining generalizing i localTranslation pgList with
  | zero => exact absurd some (Nat.lt_irrefl 0)
  | succ remaining ih =>
    simp only [extractFrom]
    split
    case h_1 => rfl
    case h_2 vc isVc =>
      have inTable := (List.getElem?_eq_some_iff.1 isVc).1
      split
      case isTrue inTranslation =>
        apply ih
        · omega
        · rw [length_set]
          omega
      case isFalse => rfl

/-- A group that is created is new. -/
theorem Known.Wf.pgCreateFromString
    {size : Id → Nat} {known : Known}
    (wf : known.Wf size)
    {group : Group}
    (sized : group.lpids.length = size group.id) :
    (pgCreateFromString known group).Wf size := by
  unfold Gpid.pgCreateFromString
  split
  case isTrue isKnown => exact wf
  case isFalse isNew =>
    have notThere : group.id ∉ known.groups.map Group.id := by
      intro isThere
      obtain ⟨pg, isPg, sameId⟩ := mem_map.1 isThere
      exact isNew (any_eq_true.2 ⟨pg, isPg, decide_eq_true sameId⟩)
    unfold pgCreate
    constructor
    case nonempty => simp
    case ids =>
      rw [map_append]
      exact nodup_append.2 ⟨wf.ids, nodup_singleton _, by
        intro id isOld other isOther same
        rw [map_singleton, mem_singleton] at isOther
        exact notThere (isOther ▸ same ▸ isOld)⟩
    case sized =>
      intro pg isPg
      rcases mem_append.1 isPg with isOld | isAdded
      · exact wf.sized pg isOld
      · rw [mem_singleton] at isAdded
        rw [isAdded, length_map, length_range]
        exact sized
    case lpids =>
      rw [flatMap_append, flatMap_singleton]
      refine nodup_append.2 ⟨wf.lpids, ?_, ?_⟩
      · exact nodup_range.map fun _ _ same => Nat.add_left_cancel same
      · intro lpid isOld other isNew
        obtain ⟨pg, isPg, isLpid⟩ := mem_flatMap.1 isOld
        obtain ⟨rank, _, rfl⟩ := mem_map.1 isNew
        have := wf.below pg isPg lpid isLpid
        omega
    case below =>
      intro pg isPg lpid isLpid
      rcases mem_append.1 isPg with isOld | isAdded
      · exact Nat.lt_add_right _ (wf.below pg isOld lpid isLpid)
      · rw [mem_singleton] at isAdded
        rw [isAdded] at isLpid
        obtain ⟨rank, inRange, rfl⟩ := mem_map.1 isLpid
        exact Nat.add_lt_add_left (mem_range.1 inRange) _

/-- A group with an id that is known is not created, any other one is put
behind the list. -/
theorem find?_pgCreateFromString
    (known : Known)
    (group : Group)
    (back : List Id)
    (test : Id → Bool) :
    ((pgCreateFromString known group).groups.map Group.id ++ back).find? test =
      (known.groups.map Group.id ++ group.id :: back).find? test := by
  unfold pgCreateFromString
  split
  case isTrue isKnown =>
    obtain ⟨pg, isPg, sameId⟩ := any_eq_true.1 isKnown
    have isId : group.id ∈ known.groups.map Group.id :=
      mem_map.2 ⟨pg, isPg, of_decide_eq_true sameId⟩
    rw [find?_append_of_mem isId]
  case isFalse isNew => simp [pgCreate]

/-- Groups that arrive one after the other. -/
theorem foldl_pgCreateFromString
    {size : Id → Nat} {known : Known}
    (wf : known.Wf size)
    (groups : List Group)
    (sized : ∀ group ∈ groups, group.lpids.length = size group.id) :
    (groups.foldl pgCreateFromString known).Wf size ∧
      ∀ test, ((groups.foldl pgCreateFromString known).groups.map Group.id).find? test =
        (known.groups.map Group.id ++ groups.map Group.id).find? test := by
  induction groups generalizing known with
  | nil => exact ⟨wf, fun test => by rw [map_nil, append_nil]; rfl⟩
  | cons group rest ih =>
    rw [forall_mem_cons] at sized
    obtain ⟨wfAfter, finds⟩ := ih (wf.pgCreateFromString sized.1) sized.2
    refine ⟨wfAfter, fun test => ?_⟩
    rw [foldl_cons, finds, find?_pgCreateFromString, map_cons]

theorem recognised_congr
    {first second : List Id}
    (finds : ∀ test, first.find? test = second.find? test)
    (process : Process) :
    Recognised first process ↔ Recognised second process := by
  unfold Recognised
  rw [finds]

/-- What holds of all members at all processes is what each process can
translate. -/
theorem Forwarding.translates_iff
    (forwarding : Forwarding)
    {after : Fin forwarding.localSize → Known}
    (wf : ∀ rank, (after rank).Wf forwarding.size)
    (finds : ∀ rank test, ((after rank).groups.map Group.id).find? test =
      (forwarding.seen rank).find? test) :
    (∀ rank, Translates (after rank).groups forwarding.members
        (toLpidArray (after rank).groups (forwarding.members.map gpid))) ↔
      ∀ rank, ∀ member ∈ forwarding.members, Recognised (forwarding.seen rank) member := by
  refine forall_congr' fun rank => ?_
  rw [Gpid.translates_iff (wf rank) forwarding.members forwarding.ranks]
  exact forall₂_congr fun member _ => recognised_congr (finds rank) member

/-- Nobody leaves an array and every process can translate every pair exactly
when the forwarding is clear. -/
theorem succeeds_iff (forwarding : Forwarding) :
    forwarding.Succeeds ↔ forwarding.Clear := by
  have test : (∀ rank, allFound (forwarding.known rank).groups
      (forwarding.members.map gpid) = true) ↔ ¬ forwarding.Needed := by
    simp only [Forwarding.Needed, not_exists, Bool.not_eq_false]
  unfold Forwarding.Succeeds Forwarding.Clear forwardPGInfo
  by_cases needed : forwarding.Needed
  case neg =>
    have seen (rank : Fin forwarding.localSize) : forwarding.seen rank =
        (forwarding.known rank).groups.map Group.id := by
      rw [Forwarding.seen, if_neg fun both => needed both.1, append_nil]
    rw [if_pos (test.2 needed)]
    simp only [Option.some.injEq, exists_eq_left', needed, false_implies, true_and]
    exact forwarding.translates_iff forwarding.wf fun rank _ => by rw [seen]
  case pos =>
    rw [if_neg fun all => test.1 all needed]
    unfold pgBCast extractLocalPGInfo
    by_cases bounds : forwarding.peer.localSize ≤ forwarding.localSize ∧
      forwarding.peer.localSize ≤ forwarding.peer.vcr.length
    case neg =>
      have length : (replicate forwarding.localSize
          (none : Option (Nat × Nat))).length = forwarding.localSize :=
        length_replicate
      rw [extractFrom_none _ _ _ _ _ (by omega) (by rw [length]; omega)]
      constructor
      · rintro ⟨after, impossible, _⟩
        exact absurd impossible (some_ne_none after).symm
      · rintro ⟨inside, _⟩
        exact absurd (inside needed) bounds
    case pos =>
      obtain ⟨written, groups, runs, finds, origin⟩ :=
        extractFrom_some forwarding.peer.vcr forwarding.peer.localSize 0
          (replicate forwarding.localSize none) []
          (by rw [length_replicate]; omega) (by omega)
      have sized : ∀ group ∈ groups, group.lpids.length = forwarding.size group.id := by
        intro group isGroup
        rcases origin group isGroup with impossible | ⟨vc, inPeer, rfl⟩
        · exact absurd impossible not_mem_nil
        · exact (forwarding.wf forwarding.root).sized vc.pg (forwarding.ofRoot vc inPeer).1
      rw [runs]
      simp only [Option.some.injEq, exists_eq_left', needed, true_implies,
        bounds, and_self, true_and]
      apply forwarding.translates_iff
      · intro rank
        split
        case isTrue => exact forwarding.wf rank
        case isFalse =>
          exact (foldl_pgCreateFromString (forwarding.wf rank) groups sized).1
      · intro rank test
        unfold Forwarding.seen
        split
        case isTrue isRoot => rw [if_neg fun both => both.2 isRoot, append_nil]
        case isFalse notRoot =>
          rw [if_pos ⟨needed, notRoot⟩,
            (foldl_pgCreateFromString (forwarding.wf rank) groups sized).2,
            find?_append, finds, ← find?_append]
          rfl

/-- Global process ids identify processes exactly when the exchange and the
forwarding are clear. -/
theorem gpids_identify_iff
    (exchange : Exchange)
    (forwarding : Forwarding) :
    (exchange.Identifies ∧ forwarding.Succeeds) ↔ (exchange.Clear ∧ forwarding.Clear) := by
  rw [identifies_iff, succeeds_iff]

/-- A group "a" of three processes and a group "b" of one. -/
def twoGroups : Known where
  groups := [⟨['a'], [0, 1, 2]⟩, ⟨['b'], [3]⟩]
  lpidCounter := 4

/-- A process that knows the group "a" only. -/
def oneGroup : Known where
  groups := [⟨['a'], [0, 1, 2]⟩]
  lpidCounter := 3

def groupSize (id : Id) : Nat :=
  if id = ['a'] then 3 else 1

theorem twoGroups_wf : twoGroups.Wf groupSize where
  nonempty := by decide
  ids := by decide
  sized := by decide
  lpids := by decide
  below := by decide

theorem oneGroup_wf : oneGroup.Wf groupSize where
  nonempty := by decide
  ids := by decide
  sized := by decide
  lpids := by decide
  below := by decide

/-- Two members of "a" and the one of "b". -/
def mixedTable : List VC :=
  [⟨⟨['b'], [3]⟩, 0, 3⟩, ⟨⟨['a'], [0, 1, 2]⟩, 0, 0⟩, ⟨⟨['a'], [0, 1, 2]⟩, 1, 1⟩]

theorem mixedTable_ofTwoGroups :
    ∀ vc ∈ mixedTable, vc.Of twoGroups := by
  simp [mixedTable, VC.Of, twoGroups]

/-- A communicator whose first member belongs to the second group. -/
def mixedExchange : Exchange where
  size := groupSize
  maker := twoGroups
  reader := twoGroups
  vcr := mixedTable
  makerWf := twoGroups_wf
  readerWf := twoGroups_wf
  ofMaker := mixedTable_ofTwoGroups
  atReader := by simp [mixedTable, twoGroups]

/-- A communicator of two processes, one of which does not know "b", and a peer
communicator of three processes. -/
def widePeer : Forwarding where
  size := groupSize
  localSize := 2
  known := fun rank => if rank = 0 then twoGroups else oneGroup
  root := 0
  peer := ⟨3, mixedTable⟩
  members := [(['b'], 0)]
  wf := fun rank => by
    split
    case isTrue => exact twoGroups_wf
    case isFalse => exact oneGroup_wf
  ofRoot := mixedTable_ofTwoGroups
  ranks := by decide

/-- The loop that makes the pairs ends at the first member, and the array of
two entries gets three. -/
theorem gpids_not_identify :
    ¬ mixedExchange.Identifies ∧ ¬ widePeer.Succeeds := by
  constructor
  · rintro ⟨filled, _⟩
    exact absurd filled (by decide)
  · rintro ⟨after, runs, _⟩
    exact absurd runs (some_ne_none after).symm

end Mpich.Ch3.Gpid
