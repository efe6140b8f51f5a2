import Mpich.Pmi.Cut

/-!
# Requests and answers

A line of keys and values is read as it was written. A request that is a line is read whole
by the server, and its answer by the client.
-/

namespace Mpich.Pmi

open List

/-- A text without blanks, newlines and NULs that is shorter than a bound. -/
structure Word
    (bound : Nat)
    (text : List Char) : Prop where
  unbroken : Unbroken text
  nulFree : nul ∉ text
  short : text.length < bound

/-- Pairs in a line, with a blank between them. -/
def lineOf
    (pairs : KeyvalTab) : List Char :=
  (pairsText pairs).tail

variable {pairs : KeyvalTab} {line rest : List Char}

theorem cons_lineOf {pair : List Char × List Char} :
    ' ' :: lineOf (pair :: pairs) = pairsText (pair :: pairs) := rfl

/-- A character that is in no string of the pairs is not in their line. -/
theorem not_mem_lineOf
    {char : Char}
    (notMark : char ≠ ' ' ∧ char ≠ '=')
    (notPairs : ∀ pair ∈ pairs, char ∉ pair.1 ∧ char ∉ pair.2) :
    char ∉ lineOf pairs := by
  intro member
  have inText : char ∈ pairsText pairs := mem_of_mem_tail member
  obtain ⟨pair, isPair, inPair⟩ := mem_flatMap.mp inText
  obtain ⟨notKey, notValue⟩ := notPairs pair isPair
  simp [notMark.1, notMark.2, notKey, notValue] at inPair

theorem isLine_lineOf
    (fits : ∀ pair ∈ pairs, PairFits pair)
    (short : (lineOf pairs).length + 1 < maxLine) :
    IsLine (lineOf pairs) :=
  ⟨not_mem_lineOf (by decide) fun pair member =>
    ⟨(fits pair member).keyUnbroken.2, (fits pair member).valueUnbroken.2⟩, short⟩

theorem cString_lineOf (nulFree : ∀ pair ∈ pairs, nul ∉ pair.1 ∧ nul ∉ pair.2) :
    cString (lineOf pairs ++ ['\n']) = lineOf pairs ++ ['\n'] := by
  apply cString_of_nulFree
  rw [mem_append]
  rintro (member | member)
  · exact not_mem_lineOf (by decide) nulFree member
  · exact absurd member (by decide)

/-- A line of pairs is read as it was written. -/
theorem parseKeyvals_lineOf
    (nonempty : pairs ≠ [])
    (fits : ∀ pair ∈ pairs, PairFits pair) :
    parseKeyvals (cString (lineOf pairs ++ ['\n'])) = (0, pairs) := by
  rw [cString_lineOf fun pair member => (fits pair member).nulFree]
  obtain ⟨pair, others, rfl⟩ := exists_cons_of_ne_nil nonempty
  obtain ⟨fuel, isParsed⟩ := parseKeyvals_pairs (pair :: others) fits
    (show Ends ['\n'] by rintro char ⟨⟩; rfl)
    (show ' ' :: (lineOf (pair :: others) ++ ['\n']) = _ by
      rw [← cons_append, cons_lineOf])
  rw [isParsed]
  rfl

/-- A line that is short enough is written whole. -/
theorem snprintf_lineOf {text : List Char} (isText : text = lineOf pairs ++ ['\n'])
    (short : (lineOf pairs).length + 1 < maxLine) :
    snprintf maxLine text = lineOf pairs ++ ['\n'] := by
  rw [isText, snprintf_of_fits]
  rw [length_append, length_singleton]
  exact short

variable {Other : Type*} {handlers : Handlers Other} {size : Nat} {server later : Server Other}
  {link : Link} {request reply : List Char}

/-- Nothing is on the way. -/
structure Link.Idle
    (link : Link)
    (size : Nat) : Prop where
  noRequest : link.client.reader.text = []
  noReply : link.replies.text = []
  requestSmall : link.client.reader.buffered.length < size
  replySmall : link.replies.buffered.length < 1023

theorem text_receive
    (reader : Reader)
    (text : List Char) :
    (reader.receive text).text = reader.text ++ text :=
  (append_assoc _ _ _).symm

theorem writeline_of_isLine (isLine : IsLine line) :
    writeline (line ++ ['\n']) = line ++ ['\n'] := by
  obtain ⟨_, fits⟩ := isLine
  unfold writeline
  rw [if_neg (by rw [length_append, length_singleton]; omega), if_neg]
  rw [getLast?_concat]
  exact fun differs => differs rfl

/-- A line and its answer are read whole. -/
theorem exchange_of_line
    (sizePositive : 0 < size)
    (idle : link.Idle size)
    (isRequest : IsLine request)
    (isReply : IsLine reply)
    (dispatched : ∀ client, dispatch handlers size
      (parseKeyvals (cString (request ++ ['\n']))).2 server client =
        some ⟨later, client, [reply ++ ['\n']]⟩) :
    ∃ linkLater, exchange handlers size (request ++ ['\n']) server link =
        some ⟨request ++ ['\n'], request ++ ['\n'], [reply ++ ['\n']], reply ++ ['\n'], later,
          linkLater⟩ ∧
      linkLater.Idle size := by
  have isSent : (link.client.reader.receive (request ++ ['\n'])).text = request ++ '\n' :: [] := by
    rw [text_receive, idle.noRequest, nil_append]
  have isWritten : (link.replies.receive [reply ++ ['\n']].flatten).text = reply ++ '\n' :: [] := by
    rw [text_receive, idle.noReply, nil_append, flatten_singleton]
  obtain ⟨server', isRead, noText, small⟩ := Reader.readLine_of_text sizePositive isSent
    isRequest.1 (Nat.lt_sub_of_add_lt isRequest.2) idle.requestSmall
  obtain ⟨client', isAnswer, noAnswer, answerSmall⟩ := Reader.readLine_of_text
    (show 0 < 1023 by decide) isWritten isReply.1 (Nat.lt_sub_of_add_lt isReply.2)
    idle.replySmall
  refine ⟨⟨⟨server', link.client.spawning⟩, client'⟩, ?_, noText, noAnswer, small, answerSmall⟩
  unfold exchange handleInput
  dsimp only
  rw [writeline_of_isLine isRequest, isRead]
  rw [if_neg (concat_ne_nil _ _), dispatched, Option.map_some, isAnswer]

end Mpich.Pmi

/-!
## Put and get requests

The requests and the answers fit in a line, and the handlers find in them the strings that
have been written.
-/

namespace Mpich.Pmi

open List SortedAssoc

variable {Other : Type*}

variable {bound : Nat} {kvsname key value message front : List Char}

/-- A key of the protocol. -/
def KeyFits
    (key : List Char) : Prop :=
  key ≠ [] ∧ key.length < 32 ∧ Unbroken key ∧ '=' ∉ key ∧ nul ∉ key

instance (key : List Char) : Decidable (KeyFits key) :=
  inferInstanceAs (Decidable (_ ∧ _))

theorem Word.pairFits
    (word : Word bound value)
    (isKey : KeyFits key)
    (isBound : bound ≤ 1024) :
    PairFits (key, value) where
  keyNonempty := isKey.1
  keyShort := isKey.2.1
  keyUnbroken := isKey.2.2.1
  noEquals := isKey.2.2.2.1
  valueShort := lt_of_lt_of_le word.short isBound
  valueUnbroken := word.unbroken
  nulFree := ⟨isKey.2.2.2.2, word.nulFree⟩

/-- The table of a put request. -/
def putTab
    (kvsname key value : List Char) : KeyvalTab :=
  [("cmd".toList, "put".toList), ("kvsname".toList, kvsname), ("key".toList, key),
    ("value".toList, value)]

theorem putTab_nonempty :
    putTab kvsname key value ≠ [] := cons_ne_nil _ _

section

variable (isName : Word maxKvsName kvsname)

include isName

variable (isKey : Word maxKeyLen key)

include isKey in
theorem putTab_fits
    (isValue : Word maxValLen value) :
    ∀ pair ∈ putTab kvsname key value, PairFits pair := by
  have isPut : Word 4 "put".toList := ⟨by decide, by decide, by decide⟩
  simp only [putTab, forall_mem_cons]
  exact ⟨isPut.pairFits (by decide) (by decide), isName.pairFits (by decide) (by decide),
    isKey.pairFits (by decide) (by decide), isValue.pairFits (by decide) (by decide), nofun⟩

include isKey in
theorem putRequest_eq
    (isValue : Word maxValLen value) :
    putRequest kvsname key value = lineOf (putTab kvsname key value) ++ ['\n'] ∧
      (lineOf (putTab kvsname key value)).length + 1 < maxLine := by
  have isText : "cmd=put kvsname=".toList ++ kvsname ++ " key=".toList ++ key ++
      " value=".toList ++ value ++ "\n".toList = lineOf (putTab kvsname key value) ++ ['\n'] := by
    unfold lineOf putTab pairsText
    simp
  have isShort : (lineOf (putTab kvsname key value)).length + 1 < maxLine := by
    have nameShort := isName.short
    have keyShort := isKey.short
    have valueShort := isValue.short
    unfold maxKvsName at nameShort
    unfold maxKeyLen at keyShort
    unfold maxValLen at valueShort
    unfold lineOf putTab pairsText maxLine
    simp
    omega
  exact ⟨snprintf_lineOf isText isShort, isShort⟩

/-- The answer to a put request, without its newline. -/
def putReply
    (rc : Int)
    (message : List Char) : List Char :=
  lineOf [("cmd".toList, "put_result".toList), ("rc".toList, showInt rc), ("msg".toList, message)]

omit isName in
theorem putReply_eq
    {rc : Int}
    (isRc : rc = 0 ∨ rc = -1)
    (noNewline : '\n' ∉ message)
    (short : message.length < 500) :
    snprintf maxLine ("cmd=put_result rc=".toList ++ showInt rc ++ " msg=".toList ++
        message ++ "\n".toList) = putReply rc message ++ ['\n'] ∧
      IsLine (putReply rc message) := by
  have isText : "cmd=put_result rc=".toList ++ showInt rc ++ " msg=".toList ++
      message ++ "\n".toList = putReply rc message ++ ['\n'] := by
    unfold putReply lineOf pairsText
    simp
  have rcShort : (showInt rc).length ≤ 2 := by
    rcases isRc with rfl | rfl
    · decide
    · decide
  have rcLine : '\n' ∉ showInt rc := by
    rcases isRc with rfl | rfl
    · decide
    · decide
  have isShort : (putReply rc message).length + 1 < maxLine := by
    unfold putReply lineOf pairsText maxLine
    simp
    omega
  refine ⟨snprintf_lineOf isText isShort, ?_, isShort⟩
  · apply not_mem_lineOf (by decide)
    intro pair member
    rcases mem_cons.mp member with rfl | member
    · exact ⟨by decide, by decide⟩
    rcases mem_cons.mp member with rfl | member
    · exact ⟨show '\n' ∉ "rc".toList by decide, rcLine⟩
    · rw [mem_singleton.mp member]
      exact ⟨show '\n' ∉ "msg".toList by decide, noNewline⟩

include isKey in
/-- What a put request does to the server, and its answer. -/
theorem handlePut_eq
    (isValue : Word maxValLen value)
    (server : Server Other) :
    ∃ later rc message, handlePut (putTab kvsname key value) server =
        (later, [putReply rc message ++ ['\n']]) ∧ IsLine (putReply rc message) ∧
      match findSpace server.kvSpaces kvsname with
      | none => later = server ∧ rc = -1 ∧
          message = "kvs_".toList ++ kvsname ++ "_not_found".toList
      | some pairs =>
        match insert key (key, value) pairs with
        | none => later = server ∧ rc = -1 ∧ message = "duplicate_key ".toList ++ key
        | some pairsLater => rc = 0 ∧ message = "success".toList ∧ later =
            { server with kvSpaces :=
              SortedAssoc.modify kvsname (fun _ => pairsLater) server.kvSpaces } := by
  have gotName : (getval "kvsname".toList maxKvsName (putTab kvsname key value)).1 = kvsname :=
    strncpy_fst isName.short
  have gotKey : (getval "key".toList maxKeyLen (putTab kvsname key value)).1 = key :=
    strncpy_fst isKey.short
  have gotValue : (getval "value".toList maxValLen (putTab kvsname key value)).1 = value :=
    strncpy_fst isValue.short
  have nameShort := isName.short
  have keyShort := isKey.short
  unfold maxKvsName at nameShort
  unfold maxKeyLen at keyShort
  unfold handlePut
  rw [gotName, gotKey, gotValue]
  dsimp only
  cases findSpace server.kvSpaces kvsname with
  | none =>
    have isMessage : snprintf maxLine ("kvs_".toList ++ kvsname ++ "_not_found".toList) =
        "kvs_".toList ++ kvsname ++ "_not_found".toList := by
      apply snprintf_of_fits
      unfold maxLine
      simp
      omega
    obtain ⟨isReply, isLine⟩ := @putReply_eq
      ("kvs_".toList ++ kvsname ++ "_not_found".toList) (-1) (.inr rfl)
      (by simp [isName.unbroken.2]) (by simp; omega)
    refine ⟨server, -1, _, ?_, isLine, rfl, rfl, rfl⟩
    rw [isMessage, isReply]
  | some pairs =>
    dsimp only
    have isAdded : addPair pairs key value = insert key (key, value) pairs := by
      unfold addPair
      rw [strncpy_fst isKey.short, strncpy_fst isValue.short]
    rw [isAdded]
    cases insert key (key, value) pairs with
    | none =>
      have isMessage : snprintf maxLine ("duplicate_key ".toList ++ key) =
          "duplicate_key ".toList ++ key := by
        apply snprintf_of_fits
        unfold maxLine
        simp
        omega
      obtain ⟨isReply, isLine⟩ := @putReply_eq ("duplicate_key ".toList ++ key) (-1)
        (.inr rfl) (by simp [isKey.unbroken.2]) (by simp; omega)
      refine ⟨server, -1, _, ?_, isLine, rfl, rfl, rfl⟩
      rw [isMessage, isReply]
    | some pairsLater =>
      obtain ⟨isReply, isLine⟩ := @putReply_eq "success".toList 0 (.inl rfl) (by decide) (by decide)
      refine ⟨_, 0, _, ?_, isLine, rfl, rfl, rfl⟩
      rw [show (strncpy "success".toList maxLine).1 = "success".toList by decide, isReply]

/-- The table of a get request. -/
def getTab
    (kvsname key : List Char) : KeyvalTab :=
  [("cmd".toList, "get".toList), ("kvsname".toList, kvsname), ("key".toList, key)]

omit isName in
theorem getTab_nonempty :
    getTab kvsname key ≠ [] := cons_ne_nil _ _

include isKey in
theorem getTab_fits :
    ∀ pair ∈ getTab kvsname key, PairFits pair := by
  have isGet : Word 4 "get".toList := ⟨by decide, by decide, by decide⟩
  simp only [getTab, forall_mem_cons]
  exact ⟨isGet.pairFits (by decide) (by decide), isName.pairFits (by decide) (by decide),
    isKey.pairFits (by decide) (by decide), nofun⟩

include isKey in
theorem getRequest_eq :
    getRequest kvsname key = lineOf (getTab kvsname key) ++ ['\n'] ∧
      (lineOf (getTab kvsname key)).length + 1 < maxLine := by
  have isText : "cmd=get kvsname=".toList ++ kvsname ++ " key=".toList ++ key ++
      "\n".toList = lineOf (getTab kvsname key) ++ ['\n'] := by
    unfold lineOf getTab pairsText
    simp
  have isShort : (lineOf (getTab kvsname key)).length + 1 < maxLine := by
    have nameShort := isName.short
    have keyShort := isKey.short
    unfold maxKvsName at nameShort
    unfold maxKeyLen at keyShort
    unfold lineOf getTab pairsText maxLine
    simp
    omega
  exact ⟨snprintf_lineOf isText isShort, isShort⟩

/-- The table of the answer to a get request. -/
def getReplyTab
    (rc : Int)
    (message value : List Char) : KeyvalTab :=
  [("cmd".toList, "get_result".toList), ("rc".toList, showInt rc), ("msg".toList, message),
    ("value".toList, value)]

omit isName in
theorem getReply_eq
    {rc : Int}
    (isRc : rc = 0 ∨ rc = -1)
    (isMessage : Word 500 message)
    (isValue : Word maxValLen value) :
    snprintf maxLine ("cmd=get_result rc=".toList ++ showInt rc ++ " msg=".toList ++
        message ++ " value=".toList ++ value ++ "\n".toList) =
        lineOf (getReplyTab rc message value) ++ ['\n'] ∧
      (∀ pair ∈ getReplyTab rc message value, PairFits pair) ∧
      IsLine (lineOf (getReplyTab rc message value)) := by
  have isText : "cmd=get_result rc=".toList ++ showInt rc ++ " msg=".toList ++
      message ++ " value=".toList ++ value ++ "\n".toList =
        lineOf (getReplyTab rc message value) ++ ['\n'] := by
    unfold lineOf getReplyTab pairsText
    simp
  have isNumber : Word 3 (showInt rc) := by
    rcases isRc with rfl | rfl
    · exact ⟨by decide, by decide, by decide⟩
    · exact ⟨by decide, by decide, by decide⟩
  have isShort : (lineOf (getReplyTab rc message value)).length + 1 < maxLine := by
    have numberShort := isNumber.short
    have messageShort := isMessage.short
    have valueShort := isValue.short
    unfold maxValLen at valueShort
    unfold lineOf getReplyTab pairsText maxLine
    simp
    omega
  have fits : ∀ pair ∈ getReplyTab rc message value, PairFits pair := by
    have isResult : Word 11 "get_result".toList := ⟨by decide, by decide, by decide⟩
    simp only [getReplyTab, forall_mem_cons]
    exact ⟨isResult.pairFits (by decide) (by decide),
      isNumber.pairFits (by decide) (by decide), isMessage.pairFits (by decide) (by decide),
      isValue.pairFits (by decide) (by decide), nofun⟩
  exact ⟨snprintf_lineOf isText isShort, fits, isLine_lineOf fits isShort⟩

theorem word_not_found
    (isFront : Word 5 front) :
    Word 500 (front ++ kvsname ++ "_not_found".toList) := by
  have nameShort := isName.short
  have frontShort := isFront.short
  unfold maxKvsName at nameShort
  refine ⟨⟨?_, ?_⟩, ?_, ?_⟩
  · simp [isName.unbroken.1, isFront.unbroken.1]
  · simp [isName.unbroken.2, isFront.unbroken.2]
  · rw [mem_append, mem_append]
    rintro ((inFront | inName) | inEnd)
    · exact isFront.nulFree inFront
    · exact isName.nulFree inName
    · exact absurd inEnd (by decide)
  · simp
    omega

include isKey in
/-- The answer to a get request. -/
theorem handleGet_eq
    (server : Server Other)
    (areWords : ∀ pairs value, findSpace server.kvSpaces kvsname = some pairs →
      findKey pairs key = some value → Word maxValLen value) :
    ∃ rc message value, handleGet (getTab kvsname key) server =
        (server, [lineOf (getReplyTab rc message value) ++ ['\n']]) ∧
      (∀ pair ∈ getReplyTab rc message value, PairFits pair) ∧
      IsLine (lineOf (getReplyTab rc message value)) ∧
      match (findSpace server.kvSpaces kvsname).bind (findKey · key) with
      | none => rc = -1
      | some val => rc = 0 ∧ value = val := by
  have gotName : (getval "kvsname".toList maxKvsName (getTab kvsname key)).1 = kvsname :=
    strncpy_fst isName.short
  have gotKey : (getval "key".toList maxLine (getTab kvsname key)).1 = key :=
    strncpy_fst (lt_trans isKey.short (by decide))
  have isUnknown : Word maxValLen "unknown".toList := ⟨by decide, by decide, by decide⟩
  have copied : (strncpy "unknown".toList maxLine).1 = "unknown".toList := by decide
  unfold handleGet
  rw [gotName, gotKey]
  dsimp only
  cases isSpace : findSpace server.kvSpaces kvsname with
  | none =>
    have isMessage :=
      word_not_found isName (⟨by decide, by decide, by decide⟩ : Word 5 "kvs_".toList)
    obtain ⟨isReply, fits, isLine⟩ := getReply_eq (.inr rfl) isMessage isUnknown
    refine ⟨-1, _, _, ?_, fits, isLine, rfl⟩
    rw [snprintf_of_fits (lt_trans isMessage.short (by decide)), copied, isReply]
  | some pairs =>
    cases isFound : findKey pairs key with
    | none =>
      have isMessage :=
        word_not_found isName (⟨by decide, by decide, by decide⟩ : Word 5 "key_".toList)
      obtain ⟨isReply, fits, isLine⟩ := getReply_eq (.inr rfl) isMessage isUnknown
      refine ⟨-1, _, _, ?_, fits, isLine, ?_⟩
      · dsimp only
        rw [isFound, snprintf_of_fits (lt_trans isMessage.short (by decide)), copied, isReply]
      · rw [Option.bind_some, isFound]
    | some value =>
      have isValue := areWords pairs value isSpace isFound
      have isMessage : Word 500 "success".toList := ⟨by decide, by decide, by decide⟩
      obtain ⟨isReply, fits, isLine⟩ := getReply_eq (.inl rfl) isMessage isValue
      refine ⟨0, _, _, ?_, fits, isLine, ?_⟩
      · dsimp only
        rw [isFound, show (strncpy "success".toList maxLine).1 = "success".toList by decide]
        dsimp only
        rw [strncpy_fst (lt_trans isValue.short (by decide)), isReply]
      · rw [Option.bind_some, isFound]
        exact ⟨rfl, rfl⟩

end

end Mpich.Pmi
