import Mpich.Pmi.Requests
import Mpich.Pmi.SpawnBlocks

/-!
# Iterating over a space

The server finds the pair of an index from the pair that it has found last, if that one
is not behind it. Every change of the space forgets the place. The client sends what its
buffer `cmd` holds, in which its request has not been written.
-/

namespace Mpich.Pmi

open List SortedAssoc

/-- `PMIKVSpace`, with `lastByIdx` as the list from that pair on. -/
structure Space where
  pairs : Pairs
  lastIdx : Int
  lastByIdx : Pairs

/-- The `PMIKVSpace`s in their list, with their names. -/
abbrev Spaces := List (List Char × Space)

/-- `for (; j-- > 0 && p; p = p->nextPair)` -/
def walk : Int → Pairs → Pairs
  | _, [] => []
  | j, pair :: rest => if j > 0 then walk (j - 1) rest else pair :: rest

/-- The two loops of `fPMI_Handle_getbyidx`. -/
def Space.seek (kvs : Space) (j : Int) : Pairs :=
  if kvs.lastIdx ≥ 0 ∧ j ≥ kvs.lastIdx then walk (j - kvs.lastIdx) kvs.lastByIdx
  else walk j kvs.pairs

def foundReply (jNext : Int) (pair : List Char × List Char) : List Char :=
  snprintf maxLine ("cmd=getbyidx_results rc=0 nextidx=".toList ++ showInt jNext ++
    " key=".toList ++ pair.1 ++ " val=".toList ++ pair.2 ++ "\n".toList)

def noMoreReply : List Char :=
  "cmd=getbyidx_results rc=-1 reason=no_more_keyvals\n".toList

/-- `fPMI_Handle_getbyidx` -/
def handleGetbyidx (tab : KeyvalTab) (spaces : Spaces) : Spaces × List Char :=
  let kvsname := (getval "kvsname".toList maxKvsName tab).1
  match find spaces kvsname with
  | some kvs =>
    let j := atoi (getval "idx".toList 8 tab).1
    match kvs.seek j with
    | pair :: rest =>
      (modify kvsname (fun _ => ⟨kvs.pairs, j, pair :: rest⟩) spaces, foundReply (j + 1) pair)
    | [] => (modify kvsname (fun _ => ⟨kvs.pairs, -1, []⟩) spaces, noMoreReply)
  | none =>
    (spaces, snprintf maxLine ("cmd=getbyidx_results rc=-1 reason=kvs_".toList ++ kvsname ++
      "_not_found\n".toList))

/-- What the clients ask for. The name of a new space has not been used. -/
inductive Request
  | create (kvsname : List Char)
  | destroy (kvsname : List Char)
  | put (kvsname key val : List Char)
  | getbyidx (tab : KeyvalTab)

/-- `fPMIKVSAllocate`, `PMIKVSFree`, `fPMIKVSAddPair` and `fPMI_Handle_getbyidx` -/
def handle (spaces : Spaces) : Request → Spaces
  | .create kvsname =>
    (insert kvsname (kvsname, ⟨[], -1, []⟩) spaces).getD spaces
  | .destroy kvsname => spaces.eraseP (·.1 = kvsname)
  | .put kvsname key val =>
    modify kvsname (fun kvs =>
      match addPair kvs.pairs key val with
      | none => kvs
      | some pairs => ⟨pairs, -1, []⟩) spaces
  | .getbyidx tab => (handleGetbyidx tab spaces).1

theorem walk_eq_drop (j : Int) (pairs : Pairs) : walk j pairs = pairs.drop j.toNat := by
  induction pairs generalizing j with
  | nil => rw [walk, drop_nil]
  | cons pair rest ih =>
    rw [walk]
    split
    · rw [ih, show j.toNat = (j - 1).toNat + 1 by omega, drop_succ_cons]
    · rw [Int.toNat_of_nonpos (by omega), drop_zero]

/-- The place that is remembered is that of its index. The keys are words and in order. -/
structure Space.Consistent (kvs : Space) : Prop where
  sorted : Sorted kvs.pairs
  words : ∀ pair ∈ kvs.pairs, pair.1 ≠ [] ∧ Word maxKeyLen pair.1 ∧ Word maxValLen pair.2
  place : 0 ≤ kvs.lastIdx → kvs.lastByIdx = kvs.pairs.drop kvs.lastIdx.toNat

theorem Space.Consistent.seek {kvs : Space} (consistent : kvs.Consistent) (j : Int) :
    kvs.seek j = kvs.pairs.drop j.toNat := by
  unfold Space.seek
  rw [walk_eq_drop, walk_eq_drop]
  split
  case isTrue ahead =>
    rw [consistent.place ahead.1, drop_drop]
    congr 1
    omega
  case isFalse => rfl

/-- The keys and values that are put fit. -/
def Request.Fits : Request → Prop
  | .put _ key val => key ≠ [] ∧ Word maxKeyLen key ∧ Word maxValLen val
  | _ => True

/-- The state of the server between two requests. -/
structure Consistent (spaces : Spaces) : Prop where
  sorted : Sorted spaces
  each : ∀ entry ∈ spaces, entry.2.Consistent

variable {spaces : Spaces} {kvsname : List Char} {kvs : Space}

section

variable (consistent : Consistent spaces)

include consistent

theorem Consistent.modify (change : Space → Space)
    (keeps : ∀ kvs : Space, kvs.Consistent → (change kvs).Consistent) :
    Consistent (modify kvsname change spaces) := by
  refine ⟨sorted_modify consistent.sorted, fun entry member => ?_⟩
  rcases mem_modify member with isOld | ⟨old, isOld, isChanged⟩
  · exact consistent.each entry isOld
  · rw [isChanged]
    exact keeps old.2 (consistent.each old isOld)

theorem Consistent.found
    (isFound : find spaces kvsname = some kvs) : kvs.Consistent :=
  consistent.each _ ((find_eq_some consistent.sorted).mp isFound)

theorem Consistent.handleGetbyidx (tab : KeyvalTab) :
    Consistent (handleGetbyidx tab spaces).1 := by
  unfold Pmi.handleGetbyidx
  dsimp only
  cases isFound : find spaces (getval "kvsname".toList maxKvsName tab).1 with
  | none => exact consistent
  | some kvs =>
    have isConsistent := consistent.found isFound
    dsimp only
    cases sought : kvs.seek (atoi (getval "idx".toList 8 tab).1) with
    | nil =>
      exact consistent.modify _ fun _ _ => ⟨isConsistent.sorted, isConsistent.words, nofun⟩
    | cons pair rest =>
      refine consistent.modify _ fun _ _ => ⟨isConsistent.sorted, isConsistent.words, ?_⟩
      intro _
      exact sought.symm.trans (isConsistent.seek _)

/-- One request. -/
theorem Consistent.handle {request : Request}
    (fits : request.Fits) : Consistent (handle spaces request) := by
  cases request with
  | create kvsname =>
    simp only [Pmi.handle]
    cases inserted : insert kvsname (kvsname, (⟨[], -1, []⟩ : Space)) spaces with
    | none => exact consistent
    | some later =>
      rw [Option.getD_some]
      refine ⟨sorted_of_insert consistent.sorted inserted, fun entry member => ?_⟩
      rcases (mem_of_insert inserted entry).mp member with rfl | isOld
      · exact ⟨.nil, nofun, nofun⟩
      · exact consistent.each entry isOld
  | destroy kvsname =>
    exact ⟨consistent.sorted.sublist eraseP_sublist,
      fun entry member => consistent.each entry (mem_of_mem_eraseP member)⟩
  | put kvsname key val =>
    obtain ⟨nonempty, isKey, isVal⟩ := fits
    refine consistent.modify _ fun kvs isConsistent => ?_
    cases added : addPair kvs.pairs key val with
    | none => exact isConsistent
    | some pairs =>
      have inserted : insert key (key, val) kvs.pairs = some pairs := by
        rw [← added, addPair, strncpy_fst isKey.short, strncpy_fst isVal.short]
      refine ⟨sorted_of_insert isConsistent.sorted inserted, fun pair member => ?_, nofun⟩
      rcases (mem_of_insert inserted pair).mp member with rfl | isOld
      · exact ⟨nonempty, isKey, isVal⟩
      · exact isConsistent.words pair isOld
  | getbyidx tab => exact consistent.handleGetbyidx tab

/-- Every run. -/
theorem Consistent.foldl {requests : List Request}
    (fit : ∀ request ∈ requests, request.Fits) :
    Consistent (requests.foldl Pmi.handle spaces) := by
  induction requests generalizing spaces with
  | nil => exact consistent
  | cons request requests ih =>
    exact ih (consistent.handle (fit request mem_cons_self)) fun other member =>
      fit other (mem_cons_of_mem _ member)

/-- The request that `PMII_iter` writes into `buf`. -/
def iterRequest (kvsname : List Char) (idx : Int) : List Char :=
  snprintf maxLine ("cmd=getbyidx kvsname=".toList ++ kvsname ++ " idx=".toList ++
    showInt idx ++ "\n".toList)

section

variable (other : KeyvalTab → Spaces → Option (Spaces × List Char))

/-- The answer to a line, if there is one. Other commands are not written out. -/
def answerLine (line : List Char) (spaces : Spaces) : Option (Spaces × List Char) :=
  let tab := (parseKeyvals (cString line)).2
  if line = [] then none
  else if getCommand tab = "getbyidx".toList then some (handleGetbyidx tab spaces)
  else other tab spaces

/-- What `PMII_iter` returns, with `next_idx`, `key` and `val`. -/
structure Iterated where
  rc : Int
  nextIdx : Int
  key : List Char
  val : List Char

/-- `PMII_iter`. `cmd` is what the buffer of this name holds when it begins; nothing is
written into it. -/
def pmiiIter (cmd : List Char) (nextIdx : Int) (spaces : Spaces) :
    Option (Spaces × Iterated) :=
  (answerLine other (writeline cmd) spaces).map fun (spaces, recvbuf) =>
    let (err, tab) := checkResponse recvbuf "getbyidx_results".toList false
    (spaces, if err ≠ 0 then ⟨err, nextIdx, [], []⟩
      else if atoi (getval "rc".toList maxLine tab).1 = 0 then
        ⟨0, atoi (getval "nextidx".toList maxLine tab).1,
          (getval "key".toList maxKeyLen tab).1, (getval "val".toList maxValLen tab).1⟩
      else if (getval "reason".toList maxLine tab).1 = "no_more_keyvals".toList then
        ⟨0, nextIdx, [], []⟩
      else ⟨pmiFail, nextIdx, [], []⟩)

/-- `PMI_KVS_Iter_first`, and then `PMI_KVS_Iter_next` until the key is empty. Other
requests are handled before each call. -/
def iterate (cmds : Nat → List Char) (between : Nat → List Request) :
    Nat → Nat → Int → Spaces → Option Pairs
  | 0, _, _, _ => none
  | rounds + 1, call, nextIdx, spaces =>
    (pmiiIter other (cmds call) nextIdx ((between call).foldl handle spaces)).bind
      fun (spaces, iterated) =>
        if iterated.rc ≠ 0 then none
        else if iterated.key = [] then some []
        else
          (iterate cmds between rounds (call + 1) iterated.nextIdx spaces).map
            ((iterated.key, iterated.val) :: ·)

end

/-- The reply for an index. -/
def reply (pairs : Pairs) (j : Nat) : List Char :=
  match pairs[j]? with
  | some pair => foundReply (j + 1 : Nat) pair
  | none => noMoreReply

/-- The table of a request for an index. -/
def byidxTab (kvsname : List Char) (j : Nat) : KeyvalTab :=
  [("cmd".toList, "getbyidx".toList), ("kvsname".toList, kvsname), ("idx".toList, showInt j)]

omit consistent in
theorem word_showInt {j digits : Nat} (positive : 0 < digits) (few : j < 10 ^ digits) :
    Word (digits + 1) (showInt j) where
  unbroken := ⟨not_mem_showInt (by decide) (by decide), not_mem_showInt (by decide) (by decide)⟩
  nulFree := not_mem_showInt (by decide) (by decide)
  short := Nat.lt_succ_of_le ((Nat.length_toDigits_le_iff (by decide) positive).mpr few)

omit consistent in
theorem atoi_index {j size : Nat} {tab : KeyvalTab} {key : List Char}
    (got : (getval key size tab).1 = showInt j) (few : j < 10 ^ 8) :
    atoi (getval key size tab).1 = j := by
  rw [got]
  exact atoi_showInt ⟨by omega, by omega⟩

/-- The reply is the one for the index, and the place is the only change. -/
theorem handleGetbyidx_eq
    (isFound : find spaces kvsname = some kvs)
    (isName : Word maxKvsName kvsname) {j : Nat} (few : j < 10 ^ 7) :
    (handleGetbyidx (byidxTab kvsname j) spaces).2 = reply kvs.pairs j := by
  have gotName : (getval "kvsname".toList maxKvsName (byidxTab kvsname j)).1 = kvsname :=
    strncpy_fst isName.short
  have gotIdx : (getval "idx".toList 8 (byidxTab kvsname j)).1 = showInt j :=
    strncpy_fst (word_showInt (by decide) few).short
  unfold handleGetbyidx
  rw [gotName, atoi_index gotIdx (by omega)]
  simp only [isFound, (consistent.found isFound).seek, Int.toNat_natCast, reply]
  rw [← head?_drop]
  cases kvs.pairs.drop j <;> rfl

/-- The pairs of this space stay. -/
def Request.Spares (kvsname : List Char) : Request → Prop
  | .create other | .destroy other => kvsname ≠ other
  | .put _ _ _ => False
  | .getbyidx _ => True

/-- The pairs of a space. -/
def pairsOf (spaces : Spaces) (kvsname : List Char) : Option Pairs :=
  (find spaces kvsname).map (·.pairs)

omit consistent in
theorem pairsOf_handleGetbyidx (tab : KeyvalTab) :
    pairsOf (handleGetbyidx tab spaces).1 kvsname = pairsOf spaces kvsname := by
  unfold handleGetbyidx
  dsimp only
  cases isFound : find spaces (getval "kvsname".toList maxKvsName tab).1 with
  | none => rfl
  | some kvs =>
    have same (place : Space) (isSame : place.pairs = kvs.pairs) :
        pairsOf (modify (getval "kvsname".toList maxKvsName tab).1
          (fun _ => place) spaces) kvsname = pairsOf spaces kvsname := by
      unfold pairsOf
      by_cases isName : kvsname = (getval "kvsname".toList maxKvsName tab).1
      · rw [isName, find_modify_self, isFound]
        exact congrArg some isSame
      · rw [find_modify_of_ne isName]
    dsimp only
    cases kvs.seek (atoi (getval "idx".toList 8 tab).1) with
    | nil => exact same _ rfl
    | cons pair rest => exact same _ rfl

theorem pairsOf_handle {request : Request}
    (spares : request.Spares kvsname) :
    pairsOf (handle spaces request) kvsname = pairsOf spaces kvsname := by
  cases request with
  | create other =>
    simp only [handle]
    cases inserted : insert other (other, (⟨[], -1, []⟩ : Space)) spaces with
    | none => rfl
    | some later =>
      exact congrArg _ (find_insert_of_ne consistent.sorted inserted spares)
  | destroy other =>
    refine congrArg _ (Option.ext fun kvs => ?_)
    change find (spaces.eraseP _) kvsname = _ ↔ _
    rw [find_eq_some (consistent.sorted.sublist eraseP_sublist), find_eq_some consistent.sorted]
    exact mem_eraseP_of_neg (by simpa [Request.Spares] using spares)
  | put _ _ _ => exact spares.elim
  | getbyidx tab => exact pairsOf_handleGetbyidx tab

theorem pairsOf_foldl {requests : List Request}
    (spare : ∀ request ∈ requests, request.Spares kvsname) :
    Consistent (requests.foldl handle spaces) ∧
      pairsOf (requests.foldl handle spaces) kvsname = pairsOf spaces kvsname := by
  induction requests generalizing spaces with
  | nil => exact ⟨consistent, rfl⟩
  | cons request requests ih =>
    have spares := spare request mem_cons_self
    have fits : request.Fits := by
      cases request <;> trivial
    obtain ⟨isConsistent, same⟩ := ih (consistent.handle fits) fun other member =>
      spare other (mem_cons_of_mem _ member)
    exact ⟨isConsistent, same.trans (pairsOf_handle consistent spares)⟩

end

theorem checkResponse_lineOf {pairs : KeyvalTab}
    (fits : ∀ pair ∈ ("cmd".toList, "getbyidx_results".toList) :: pairs, PairFits pair) :
    checkResponse (lineOf (("cmd".toList, "getbyidx_results".toList) :: pairs) ++ ['\n'])
        "getbyidx_results".toList false =
      (0, ("cmd".toList, "getbyidx_results".toList) :: pairs) := by
  unfold checkResponse
  rw [if_neg (concat_ne_nil _ _), parseKeyvals_lineOf (cons_ne_nil _ _) fits]
  rfl

theorem iterRequest_eq (isName : Word maxKvsName kvsname) {j : Nat} (few : j < 10 ^ 7) :
    iterRequest kvsname j = lineOf (byidxTab kvsname j) ++ ['\n'] ∧
      (∀ pair ∈ byidxTab kvsname j, PairFits pair) ∧ IsLine (lineOf (byidxTab kvsname j)) := by
  have isIdx := word_showInt (by decide) few
  have isCmd : Word 9 "getbyidx".toList := ⟨by decide, by decide, by decide⟩
  have fits : ∀ pair ∈ byidxTab kvsname j, PairFits pair := by
    simp only [byidxTab, forall_mem_cons]
    exact ⟨isCmd.pairFits (by decide) (by decide), isName.pairFits (by decide) (by decide),
      isIdx.pairFits (by decide) (by decide), nofun⟩
  have short : (lineOf (byidxTab kvsname j)).length + 1 < maxLine := by
    have nameShort := isName.short
    have idxShort := isIdx.short
    unfold maxKvsName at nameShort
    unfold lineOf byidxTab pairsText maxLine
    simp
    omega
  have isText : "cmd=getbyidx kvsname=".toList ++ kvsname ++ " idx=".toList ++ showInt j ++
      "\n".toList = lineOf (byidxTab kvsname j) ++ ['\n'] := by
    unfold lineOf byidxTab pairsText
    simp
  exact ⟨snprintf_lineOf isText short, fits, isLine_lineOf fits short⟩

/-- The table of a reply with a pair. -/
def foundTab (jNext : Int) (pair : List Char × List Char) : KeyvalTab :=
  [("cmd".toList, "getbyidx_results".toList), ("rc".toList, "0".toList),
    ("nextidx".toList, showInt jNext), ("key".toList, pair.1), ("val".toList, pair.2)]

theorem foundReply_eq {pair : List Char × List Char} {jNext : Nat} (few : jNext < 10 ^ 8)
    (isKey : Word maxKeyLen pair.1) (isVal : Word maxValLen pair.2) :
    foundReply jNext pair = lineOf (foundTab jNext pair) ++ ['\n'] ∧
      ∀ other ∈ foundTab jNext pair, PairFits other := by
  have isNext := word_showInt (by decide) few
  have isCmd : Word 17 "getbyidx_results".toList := ⟨by decide, by decide, by decide⟩
  have isRc : Word 2 "0".toList := ⟨by decide, by decide, by decide⟩
  constructor
  · have isText : "cmd=getbyidx_results rc=0 nextidx=".toList ++ showInt jNext ++
        " key=".toList ++ pair.1 ++ " val=".toList ++ pair.2 ++ "\n".toList =
          lineOf (foundTab jNext pair) ++ ['\n'] := by
      unfold lineOf foundTab pairsText
      simp
    have keyShort := isKey.short
    have valShort := isVal.short
    have nextShort := isNext.short
    unfold maxKeyLen at keyShort
    unfold maxValLen at valShort
    apply snprintf_lineOf isText
    unfold lineOf foundTab pairsText maxLine
    simp
    omega
  · simp only [foundTab, forall_mem_cons]
    exact ⟨isCmd.pairFits (by decide) (by decide), isRc.pairFits (by decide) (by decide),
      isNext.pairFits (by decide) (by decide), isKey.pairFits (by decide) (by decide),
      isVal.pairFits (by decide) (by decide), nofun⟩

variable (other : KeyvalTab → Spaces → Option (Spaces × List Char))

include other in
/-- The client reads the pair, or that there is none. -/
theorem pmiiIter_eq
    (consistent : Consistent spaces) (isFound : find spaces kvsname = some kvs)
    (isName : Word maxKvsName kvsname) {j : Nat} (few : j < 10 ^ 7) :
    pmiiIter other (iterRequest kvsname j) j spaces =
      some ((handleGetbyidx (byidxTab kvsname j) spaces).1, match kvs.pairs[j]? with
        | some pair => ⟨0, (j + 1 : Nat), pair.1, pair.2⟩
        | none => ⟨0, j, [], []⟩) := by
  obtain ⟨isRequest, fits, isLine⟩ := iterRequest_eq isName few
  have answered : answerLine other (writeline (iterRequest kvsname j)) spaces =
      some (handleGetbyidx (byidxTab kvsname j) spaces) := by
    rw [isRequest, writeline_of_isLine isLine, answerLine,
      @parseKeyvals_lineOf (byidxTab kvsname j) (cons_ne_nil _ _) fits, if_neg (concat_ne_nil _ _)]
    exact if_pos rfl
  have isReply := handleGetbyidx_eq consistent isFound isName few
  rw [pmiiIter, answered, Option.map_some]
  dsimp only
  rw [isReply, reply]
  cases isPair : kvs.pairs[j]? with
  | none => rfl
  | some pair =>
    obtain ⟨-, isKey, isVal⟩ := (consistent.found isFound).words pair (mem_of_getElem? isPair)
    obtain ⟨isText, fitsReply⟩ := @foundReply_eq pair (j + 1) (by omega) isKey isVal
    have gotKey : (getval "key".toList maxKeyLen (foundTab (j + 1 : Nat) pair)).1 = pair.1 :=
      strncpy_fst isKey.short
    have gotVal : (getval "val".toList maxValLen (foundTab (j + 1 : Nat) pair)).1 = pair.2 :=
      strncpy_fst isVal.short
    have checked : checkResponse (foundReply (j + 1 : Nat) pair)
        "getbyidx_results".toList false = (0, foundTab (j + 1 : Nat) pair) := by
      rw [isText]
      exact checkResponse_lineOf fitsReply
    have isNext := @atoi_index (j + 1) maxLine (foundTab (j + 1 : Nat) pair) "nextidx".toList
      (strncpy_fst ((word_showInt (by decide) (show j + 1 < 10 ^ 8 by omega)).short.trans
        (by decide))) (by omega)
    dsimp only
    rw [checked]
    dsimp only
    rw [gotKey, gotVal, isNext]
    rfl

include other in
/-- The calls from one index on. -/
theorem iterate_from
    (isName : Word maxKvsName kvsname) {pairs : Pairs} (few : pairs.length < 10 ^ 7)
    {between : Nat → List Request}
    (spare : ∀ call, ∀ request ∈ between call, request.Spares kvsname)
    (consistent : Consistent spaces) (isPairs : pairsOf spaces kvsname = some pairs)
    {rest : Pairs} {call : Nat} (reached : call ≤ pairs.length)
    (isRest : pairs.drop call = rest) :
    iterate other (fun call => iterRequest kvsname call) between (rest.length + 1) call call
      spaces = some rest := by
  induction rest generalizing call spaces with
  | nil =>
    obtain ⟨isConsistent, same⟩ := pairsOf_foldl consistent (spare call)
    obtain ⟨kvs, isFound, rfl⟩ := Option.map_eq_some_iff.mp (same.trans isPairs)
    have isNone : kvs.pairs[call]? = none := getElem?_eq_none (drop_eq_nil_iff.mp isRest)
    rw [length_nil, iterate, pmiiIter_eq other isConsistent isFound isName (by omega), isNone]
    rfl
  | cons pair rest ih =>
    obtain ⟨isConsistent, same⟩ := pairsOf_foldl consistent (spare call)
    obtain ⟨kvs, isFound, rfl⟩ := Option.map_eq_some_iff.mp (same.trans isPairs)
    have isSome : kvs.pairs[call]? = some pair := by
      rw [← head?_drop, isRest]
      rfl
    have inside := (List.getElem?_eq_some_iff.mp isSome).1
    have later := ih (isConsistent.handleGetbyidx (byidxTab kvsname call))
      ((pairsOf_handleGetbyidx _).trans (same.trans isPairs)) inside
      (show kvs.pairs.drop (call + 1) = rest by rw [← drop_drop, isRest]; rfl)
    have nonempty := ((isConsistent.found isFound).words pair (mem_of_getElem? isSome)).1
    rw [length_cons, iterate, pmiiIter_eq other isConsistent isFound isName (by omega), isSome]
    exact (if_neg nonempty).trans (congrArg _ later)

/-- In every run, the replies are those of the space as it is, in the order of its keys.
A client whose buffers hold its requests gets all pairs when nothing is put. -/
theorem iterate_eq
    (other : KeyvalTab → Spaces → Option (Spaces × List Char))
    {requests : List Request}
    (fit : ∀ request ∈ requests, request.Fits)
    {kvsname : List Char} {kvs : Space}
    (isFound : find (requests.foldl handle []) kvsname = some kvs)
    (isName : Word maxKvsName kvsname)
    (few : kvs.pairs.length < 10 ^ 7)
    {between : Nat → List Request}
    (spare : ∀ call, ∀ request ∈ between call, request.Spares kvsname) :
    Sorted kvs.pairs ∧
      (∀ j < 10 ^ 7, (handleGetbyidx (byidxTab kvsname j) (requests.foldl handle [])).2 =
        reply kvs.pairs j) ∧
      iterate other (fun call => iterRequest kvsname call) between (kvs.pairs.length + 1) 0 0
        (requests.foldl handle []) = some kvs.pairs := by
  have consistent : Consistent (requests.foldl handle []) := by
    exact Consistent.foldl ⟨.nil, nofun⟩ fit
  exact ⟨(consistent.found isFound).sorted, fun j => handleGetbyidx_eq consistent isFound isName,
    iterate_from other isName few spare consistent (congrArg _ isFound) (Nat.zero_le _) rfl⟩

/-- Two pairs are put and then asked for. -/
theorem iterate_two :
    find ([Request.create ['k'], .put ['k'] ['b'] ['2'],
        .put ['k'] ['a'] ['1']].foldl handle []) ['k'] =
      some ⟨[(['a'], ['1']), (['b'], ['2'])], -1, []⟩ ∧
    iterate (fun _ _ => none) (fun call => iterRequest ['k'] call) (fun _ => []) 3 0 0
        ([Request.create ['k'], .put ['k'] ['b'] ['2'], .put ['k'] ['a'] ['1']].foldl handle []) =
      some [(['a'], ['1']), (['b'], ['2'])] := by
  have isFound : find ([Request.create ['k'], .put ['k'] ['b'] ['2'],
      .put ['k'] ['a'] ['1']].foldl handle []) ['k'] =
        some ⟨[(['a'], ['1']), (['b'], ['2'])], -1, []⟩ := rfl
  refine ⟨isFound, (@iterate_eq (fun _ _ => none) _ ?_ _ _ isFound
    ⟨by decide, by decide, by decide⟩ (by decide) (fun _ => []) nofun).2.2⟩
  simp only [forall_mem_cons]
  exact ⟨trivial, ⟨by decide, ⟨by decide, by decide, by decide⟩, by decide, by decide,
    by decide⟩, ⟨by decide, ⟨by decide, by decide, by decide⟩, by decide, by decide,
    by decide⟩, nofun⟩

/-- The buffer holds no line, and none is sent. -/
theorem iterate_emptyBuffer :
    iterate (fun _ _ => none) (fun _ => []) (fun _ => []) 3 0 0
        ([Request.create ['k'], .put ['k'] ['a'] ['1']].foldl handle []) ≠
      some [(['a'], ['1'])] := by
  decide

end Mpich.Pmi
