import Mpich.Pmi.Requests

/-!
# What is put is what is got

The clients of a server put and get pairs. Every call is answered from what the calls
before it have put, the first put of a key is the one that counts, and all lines are read
whole.
-/

namespace Mpich.Pmi

open List Function SortedAssoc

/-- The spaces with what is stored in them. -/
abbrev Store := List Char → Option (List Char → Option (List Char))

namespace Store

/-- A key that is new gets its value. -/
def after
    (store : Store) : Call → Store
  | .put kvsname key value =>
    match store kvsname with
    | none => store
    | some pairs =>
      match pairs key with
      | some _ => store
      | none => update store kvsname (some (update pairs key (some value)))
  | .get _ _ _ => store

/-- What a call returns: a put succeeds if its key is new in a space that exists, and a get
returns the value if there is one and the buffer is large enough. -/
def Answers
    (store : Store)
    (result : Result) : Call → Prop
  | .put kvsname key _ =>
    result.rc = 0 ↔ ∃ pairs, store kvsname = some pairs ∧ pairs key = none
  | .get kvsname key length =>
    match (store kvsname).bind (· key) with
    | none => result.rc ≠ 0
    | some value => value.length < length → result = ⟨0, some value⟩

variable {store : Store} {pairs : List Char → Option (List Char)}
  {kvsname key value old : List Char}

theorem after_of_missing (isMissing : store kvsname = none) :
    store.after (.put kvsname key value) = store := by
  unfold after
  simp only [isMissing]

theorem after_of_old
    (isSpace : store kvsname = some pairs)
    (isOld : pairs key = some old) :
    store.after (.put kvsname key value) = store := by
  unfold after
  simp only [isSpace, isOld]

theorem after_of_new
    (isSpace : store kvsname = some pairs)
    (isNew : pairs key = none) :
    store.after (.put kvsname key value) =
      update store kvsname (some (update pairs key (some value))) := by
  unfold after
  simp only [isSpace, isNew]

end Store

/-- The strings of a call have no blanks, newlines and NULs and are shorter than what the
server advertises. -/
def Call.Valid : Call → Prop
  | .put kvsname key value =>
    Word maxKvsName kvsname ∧ Word maxKeyLen key ∧ Word maxValLen value
  | .get kvsname key _ => Word maxKvsName kvsname ∧ Word maxKeyLen key

/-- What is stored in the spaces of a server. -/
def contents
    (spaces : KVSpaces) : Store :=
  fun kvsname => (findSpace spaces kvsname).map findKey

/-- The spaces are in the order of their names, the pairs of each in the order of their
keys, and the values are such that they can be put. -/
structure Stored
    (spaces : KVSpaces) : Prop where
  sorted : Sorted spaces
  pairsSorted : ∀ space ∈ spaces, Sorted space.2
  areWords : ∀ space ∈ spaces, ∀ pair ∈ space.2, Word maxValLen pair.2

/-- A request and its answer are lines that are read whole. -/
def Answered.Whole
    {Other : Type*}
    (answered : Answered Other) : Prop :=
  ∃ request reply, IsLine request ∧ IsLine reply ∧
    answered.sent = request ++ ['\n'] ∧ answered.received = request ++ ['\n'] ∧
    answered.written = [reply ++ ['\n']] ∧ answered.recvbuf = reply ++ ['\n']

section

variable {ι Other : Type*} [DecidableEq ι] (handlers : Handlers Other) (size : Nat)

/-- The calls of the clients one after the other, with what has been put before: every call
is answered from it, and the server stores it. -/
def AllAnswered : List (ι × Call) → Store → Server Other → (ι → Link) → Prop
  | [], _, _, _ => True
  | (client, call) :: rest, store, server, link =>
    ∃ answered, exchange handlers size call.request server (link client) = some answered ∧
      answered.Whole ∧ store.Answers (call.result answered.recvbuf) call ∧
      contents answered.server.kvSpaces = store.after call ∧
      AllAnswered rest (store.after call) answered.server (update link client answered.link)

end

variable {Other : Type*} {handlers : Handlers Other} {size : Nat}
  {kvsname key value message front back : List Char}

/-- A put fails whose answer says so, whatever stands behind the first word of the
message. -/
theorem checkResponse_fails
    (isFront : Word 500 front)
    (nulFree : nul ∉ back)
    (ends : Ends (back ++ ['\n'])) :
    (checkResponse (putReply (-1) (front ++ back) ++ ['\n']) "put_result".toList true).1 ≠ 0 := by
  have fits : ∀ pair ∈ [("cmd".toList, "put_result".toList), ("rc".toList, showInt (-1)),
      ("msg".toList, front)], PairFits pair := by
    intro pair member
    have isResult : Word 11 "put_result".toList := ⟨by decide, by decide, by decide⟩
    have isNumber : Word 3 (showInt (-1)) := ⟨by decide, by decide, by decide⟩
    rcases mem_cons.mp member with rfl | member
    · exact isResult.pairFits (by decide) (by decide)
    rcases mem_cons.mp member with rfl | member
    · exact isNumber.pairFits (by decide) (by decide)
    · rw [mem_singleton.mp member]
      exact isFront.pairFits (by decide) (by decide)
  have isText : ' ' :: (putReply (-1) (front ++ back) ++ ['\n']) =
      pairsText [("cmd".toList, "put_result".toList), ("rc".toList, showInt (-1)),
        ("msg".toList, front)] ++ (back ++ ['\n']) := by
    unfold putReply
    rw [← cons_append, cons_lineOf]
    simp [pairsText]
  have isString : cString (putReply (-1) (front ++ back) ++ ['\n']) =
      putReply (-1) (front ++ back) ++ ['\n'] := by
    apply cString_lineOf
    intro pair isPair
    rcases mem_cons.mp isPair with rfl | isPair
    · exact ⟨by decide, by decide⟩
    rcases mem_cons.mp isPair with rfl | isPair
    · exact ⟨by decide, by decide⟩
    · rw [mem_singleton.mp isPair]
      refine ⟨show nul ∉ "msg".toList by decide, ?_⟩
      rw [mem_append]
      rintro (inFront | inBack)
      · exact isFront.nulFree inFront
      · exact nulFree inBack
  obtain ⟨fuel, isParsed⟩ := parseKeyvals_pairs _ fits ends isText
  obtain ⟨more, isMore⟩ := parseLoop_grows (fuel + 1) (back ++ ['\n'])
    [("cmd".toList, "put_result".toList), ("rc".toList, showInt (-1)), ("msg".toList, front)]
  unfold checkResponse
  rw [if_neg (concat_ne_nil _ _), isString, isParsed]
  generalize parseLoop (fuel + 1) (back ++ ['\n']) _ = parsed at isMore ⊢
  obtain ⟨err, tab⟩ := parsed
  obtain rfl : tab = _ := isMore
  dsimp only
  obtain rfl | isErr := eq_or_ne err 0
  · have gotRc : getval "rc".toList maxLine ([("cmd".toList, "put_result".toList),
        ("rc".toList, showInt (-1)), ("msg".toList, front)] ++ more) = ("-1".toList, true) := rfl
    exact show pmiFail ≠ 0 by decide
  · rw [if_pos isErr]
    exact isErr

/-- A get is told whether there is a value, and the value. -/
theorem result_get
    {rc : Int}
    (fits : ∀ pair ∈ getReplyTab rc message value, PairFits pair)
    (isRc : rc = 0 ∨ rc = -1)
    (length : Nat) :
    Call.result (lineOf (getReplyTab rc message value) ++ ['\n']) (.get kvsname key length) =
      if rc = 0 then ⟨0, some (strncpy value length).1⟩ else ⟨-1, none⟩ := by
  have isChecked : checkResponse (lineOf (getReplyTab rc message value) ++ ['\n'])
      "get_result".toList false = (0, getReplyTab rc message value) := by
    unfold checkResponse
    have nonempty : getReplyTab rc message value ≠ [] := cons_ne_nil _ _
    rw [if_neg (concat_ne_nil _ _), parseKeyvals_lineOf nonempty fits]
    have gotCmd : getval "cmd".toList maxLine (getReplyTab rc message value) =
        ("get_result".toList, true) := rfl
    dsimp only
    rw [if_neg fun differs => differs rfl, gotCmd, if_neg (by decide), if_neg (by decide),
      if_neg (fun both => Bool.false_ne_true both.1)]
  have gotValue : getval "value".toList length (getReplyTab rc message value) =
      strncpy value length := rfl
  have gotRc : getval "rc".toList maxLine (getReplyTab rc message value) =
      strncpy (showInt rc) maxLine := rfl
  unfold Call.result
  rw [isChecked]
  dsimp only
  rw [if_neg fun differs => differs rfl, gotValue, gotRc]
  rcases isRc with rfl | rfl
  · exact if_pos (by decide)
  · exact if_neg (by decide)

variable {server : Server Other} {link : Link} {call : Call}

theorem Stored.word
    (stored : Stored server.kvSpaces)
    {pairs : Pairs}
    (isSpace : findSpace server.kvSpaces kvsname = some pairs)
    (isFound : findKey pairs key = some value) :
    Word maxValLen value := by
  have member := (find_eq_some stored.sorted).mp isSpace
  have inPairs := (find_eq_some (stored.pairsSorted _ member)).mp isFound
  exact stored.areWords _ member _ inPairs

theorem get_answered
    {length : Nat}
    (sizePositive : 0 < size)
    (stored : Stored server.kvSpaces)
    (idle : link.Idle size)
    (isName : Word maxKvsName kvsname)
    (isKey : Word maxKeyLen key) :
    ∃ answered, exchange handlers size (getRequest kvsname key) server link = some answered ∧
      answered.Whole ∧ answered.server = server ∧ answered.link.Idle size ∧
      (contents server.kvSpaces).Answers
        (Call.result answered.recvbuf (.get kvsname key length)) (.get kvsname key length) := by
  obtain ⟨isRequest, short⟩ := getRequest_eq isName isKey
  have requestLine := isLine_lineOf (getTab_fits isName isKey) short
  obtain ⟨rc, message, val, isHandled, fits, isLine, isAnswer⟩ :=
    handleGet_eq isName isKey server fun pairs value => stored.word
  have dispatched : ∀ client, dispatch handlers size
      (parseKeyvals (cString (lineOf (getTab kvsname key) ++ ['\n']))).2 server client =
        some ⟨server, client, [lineOf (getReplyTab rc message val) ++ ['\n']]⟩ := by
    intro client
    rw [parseKeyvals_lineOf getTab_nonempty (getTab_fits isName isKey)]
    have isCommand : getCommand (getTab kvsname key) = "get".toList := rfl
    unfold dispatch
    dsimp only
    rw [isCommand, if_neg (by decide), if_pos rfl, isHandled, map_singleton,
      writeline_of_isLine isLine]
  obtain ⟨later, isAnswered, laterIdle⟩ :=
    exchange_of_line sizePositive idle requestLine isLine dispatched
  rw [isRequest]
  refine ⟨_, isAnswered, ⟨_, _, requestLine, isLine, rfl, rfl, rfl, rfl⟩, rfl, laterIdle, ?_⟩
  have isContents : (contents server.kvSpaces kvsname).bind (· key) =
      (findSpace server.kvSpaces kvsname).bind (findKey · key) := by
    unfold contents
    rw [Option.bind_map]
    rfl
  unfold Store.Answers
  dsimp only
  rw [isContents]
  cases isFound : (findSpace server.kvSpaces kvsname).bind (findKey · key) with
  | none =>
    rw [isFound] at isAnswer
    obtain rfl : rc = -1 := isAnswer
    rw [result_get fits (.inr rfl), if_neg (by decide)]
    exact show (-1 : Int) ≠ 0 by decide
  | some stored =>
    rw [isFound] at isAnswer
    obtain ⟨rfl, rfl⟩ := isAnswer
    intro large
    rw [result_get fits (.inl rfl), if_pos rfl, strncpy_fst large]

variable {spaces : KVSpaces}

/-- A space with other pairs in it. -/
theorem Stored.modify
    (stored : Stored spaces)
    {pairs : Pairs}
    (sorted : Sorted pairs)
    (areWords : ∀ pair ∈ pairs, Word maxValLen pair.2) :
    Stored (SortedAssoc.modify kvsname (fun _ => pairs) spaces) := by
  have cases_mem : ∀ space ∈ SortedAssoc.modify kvsname (fun _ => pairs) spaces,
      space ∈ spaces ∨ space.2 = pairs := by
    intro space member
    rcases mem_modify member with old | ⟨_, _, isNew⟩
    · exact .inl old
    · exact .inr isNew
  refine ⟨sorted_modify stored.sorted, fun space member => ?_, fun space member => ?_⟩
  · rcases cases_mem space member with old | isNew
    · exact stored.pairsSorted space old
    · rw [isNew]
      exact sorted
  · rcases cases_mem space member with old | isNew
    · exact stored.areWords space old
    · rw [isNew]
      exact areWords

/-- A new space is put where its name belongs. -/
theorem insertSpace_eq
    (isNew : ∀ space ∈ spaces, space.1 ≠ kvsname) :
    SortedAssoc.insert kvsname (kvsname, []) spaces = some (insertSpace kvsname spaces) := by
  induction spaces with
  | nil => rfl
  | cons space rest ih =>
    unfold SortedAssoc.insert insertSpace
    rw [if_neg (isNew space mem_cons_self), ih fun other member =>
      isNew other (mem_cons_of_mem _ member)]
    split_ifs
    · rfl
    · rfl

/-- A space that has been allocated under a new name is empty. -/
theorem Stored.insertSpace
    (stored : Stored spaces)
    (isNew : ∀ space ∈ spaces, space.1 ≠ kvsname) :
    Stored (insertSpace kvsname spaces) := by
  have isInserted := insertSpace_eq isNew
  refine ⟨sorted_of_insert stored.sorted isInserted, fun space member => ?_, fun space member => ?_⟩
  · rcases (mem_of_insert isInserted space).mp member with rfl | old
    · exact List.Pairwise.nil
    · exact stored.pairsSorted space old
  · rcases (mem_of_insert isInserted space).mp member with rfl | old
    · exact fun pair inEmpty => absurd inEmpty not_mem_nil
    · exact stored.areWords space old

theorem put_answered
    (sizePositive : 0 < size)
    (stored : Stored server.kvSpaces)
    (idle : link.Idle size)
    (isName : Word maxKvsName kvsname)
    (isKey : Word maxKeyLen key)
    (isValue : Word maxValLen value) :
    ∃ answered, exchange handlers size (putRequest kvsname key value) server link = some answered ∧
      answered.Whole ∧ Stored answered.server.kvSpaces ∧ answered.link.Idle size ∧
      contents answered.server.kvSpaces =
        (contents server.kvSpaces).after (.put kvsname key value) ∧
      (contents server.kvSpaces).Answers
        (Call.result answered.recvbuf (.put kvsname key value)) (.put kvsname key value) := by
  obtain ⟨isRequest, short⟩ := putRequest_eq isName isKey isValue
  have requestLine := isLine_lineOf (putTab_fits isName isKey isValue) short
  obtain ⟨later, rc, message, isHandled, isLine, isAnswer⟩ :=
    handlePut_eq isName isKey isValue server
  have dispatched : ∀ client, dispatch handlers size
      (parseKeyvals (cString (lineOf (putTab kvsname key value) ++ ['\n']))).2 server client =
        some ⟨later, client, [putReply rc message ++ ['\n']]⟩ := by
    intro client
    rw [parseKeyvals_lineOf putTab_nonempty (putTab_fits isName isKey isValue)]
    have isCommand : getCommand (putTab kvsname key value) = "put".toList := rfl
    unfold dispatch
    dsimp only
    rw [isCommand, if_pos rfl, isHandled, map_singleton, writeline_of_isLine isLine]
  obtain ⟨linkLater, isAnswered, laterIdle⟩ :=
    exchange_of_line sizePositive idle requestLine isLine dispatched
  rw [isRequest]
  refine ⟨_, isAnswered, ⟨_, _, requestLine, isLine, rfl, rfl, rfl, rfl⟩, ?_⟩
  have isContents : contents server.kvSpaces kvsname =
      (findSpace server.kvSpaces kvsname).map findKey := rfl
  unfold Store.Answers
  dsimp only
  cases isSpace : findSpace server.kvSpaces kvsname with
  | none =>
    rw [isSpace] at isAnswer isContents
    obtain ⟨rfl, rfl, rfl⟩ := isAnswer
    have fails := @checkResponse_fails _ [] (word_not_found isName
      (⟨by decide, by decide, by decide⟩ : Word 5 "kvs_".toList)) not_mem_nil
      (by rintro char ⟨⟩; rfl)
    rw [append_nil] at fails
    refine ⟨stored, laterIdle, (Store.after_of_missing isContents).symm, ?_⟩
    rw [isContents]
    exact iff_of_false fails (by rintro ⟨_, ⟨⟩, _⟩)
  | some pairs =>
    rw [isSpace] at isAnswer isContents
    dsimp only at isAnswer
    have member := (find_eq_some stored.sorted).mp isSpace
    have sorted := stored.pairsSorted _ member
    rw [isContents]
    cases isAdded : SortedAssoc.insert key (key, value) pairs with
    | none =>
      rw [isAdded] at isAnswer
      obtain ⟨rfl, rfl, rfl⟩ := isAnswer
      obtain ⟨old, isOld⟩ := Option.ne_none_iff_exists'.mp ((insert_eq_none sorted _).mp isAdded)
      have isFound : findKey pairs key = some old := isOld
      have fails := @checkResponse_fails "duplicate_key".toList (' ' :: key)
        ⟨by decide, by decide, by decide⟩
        (by rw [mem_cons, not_or]; exact ⟨by decide, isKey.nulFree⟩)
        (by rintro char ⟨⟩; rfl)
      refine ⟨stored, laterIdle, (Store.after_of_old isContents isFound).symm,
        iff_of_false fails ?_⟩
      rintro ⟨_, ⟨⟩, isNone⟩
      rw [isFound] at isNone
      cases isNone
    | some pairsLater =>
      rw [isAdded] at isAnswer
      obtain ⟨rfl, rfl, rfl⟩ := isAnswer
      have succeeds : (checkResponse (putReply 0 "success".toList ++ ['\n'])
          "put_result".toList true).1 = 0 := by decide
      have isNew : findKey pairs key = none := by
        by_contra present
        rw [(insert_eq_none sorted _).mpr present] at isAdded
        cases isAdded
      refine ⟨stored.modify (sorted_of_insert sorted isAdded) ?_, laterIdle, ?_,
        iff_of_true succeeds ⟨_, rfl, isNew⟩⟩
      · intro pair inLater
        rcases (mem_of_insert isAdded pair).mp inLater with rfl | old
        · exact isValue
        · exact stored.areWords _ member pair old
      · rw [Store.after_of_new isContents isNew]
        have isLater : findKey pairsLater = update (findKey pairs) key (some value) := by
          funext other
          obtain rfl | differs := eq_or_ne other key
          · rw [update_self]
            exact find_insert_self sorted isAdded
          · rw [update_of_ne differs]
            exact find_insert_of_ne sorted isAdded differs
        rw [← isLater]
        funext name
        unfold contents findSpace
        obtain rfl | differs := eq_or_ne name kvsname
        · rw [update_self, find_modify_self,
            show find server.kvSpaces name = some pairs from isSpace]
          rfl
        · rw [update_of_ne differs, find_modify_of_ne differs]

/-- Every call is answered. -/
theorem call_answered
    (sizePositive : 0 < size)
    (stored : Stored server.kvSpaces)
    (idle : link.Idle size)
    (valid : call.Valid) :
    ∃ answered, exchange handlers size call.request server link = some answered ∧
      answered.Whole ∧ Stored answered.server.kvSpaces ∧ answered.link.Idle size ∧
      contents answered.server.kvSpaces = (contents server.kvSpaces).after call ∧
      (contents server.kvSpaces).Answers (call.result answered.recvbuf) call := by
  cases call with
  | put kvsname key value =>
    exact put_answered sizePositive stored idle valid.1 valid.2.1 valid.2.2
  | get kvsname key length =>
    obtain ⟨answered, isAnswered, whole, same, laterIdle, answers⟩ :=
      get_answered sizePositive stored idle valid.1 valid.2
    refine ⟨answered, isAnswered, whole, ?_, laterIdle, ?_, answers⟩
    · rw [same]
      exact stored
    · rw [same]
      rfl

/-- A server with one space, and no commands but those that are written out. -/
def oneSpace : Server Unit where
  kvSpaces := insertSpace (allocatedName 1 0) []
  pid := 1
  kvsnum := 1
  nWorlds := 1
  groups := []
  worlds := []
  other := ()

/-- A client that has nothing to read and whose requests arrive in pieces. -/
def quiet : Link where
  client := ⟨⟨[], ⟨[], fun index => index⟩⟩, none⟩
  replies := ⟨[], ⟨[], fun _ => 2⟩⟩

end Mpich.Pmi
