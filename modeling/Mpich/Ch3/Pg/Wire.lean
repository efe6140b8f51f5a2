import Mpich.Ch3.Pg.Writer

/-!
# Process group descriptions survive the wire

A description that the writer had memory for is the id, the size and the
connection strings of the group, each with a null character behind it. A process
that does not know the group makes it from this text, finds in it the string of
every rank, and describes it by the same text again; so the text is the same
behind any number of processes.

Two things are changed on the way on purpose. The names of shared-memory queues
are cut off when the strings are read from the KVS space, and a group whose id
begins with `singinit_kvs` is described with a new id.
-/

namespace Mpich.Ch3.Pg

open Buffer NulText List Option

/-- Cutting adds no null character. -/
theorem nul_notMem_cutShmHost
    {string : List Char}
    (nulFree : nul ∉ string) :
    nul ∉ cutShmHost string := by
  induction string with
  | nil => exact nulFree
  | cons first rest ih =>
    rw [mem_cons, not_or] at nulFree
    unfold cutShmHost
    split
    · rw [mem_singleton]
      exact nulFree.1
    · rw [mem_cons, not_or]
      exact ⟨nulFree.1, ih nulFree.2⟩

/-- Cutting does not make a string longer. -/
theorem length_cutShmHost_le (string : List Char) :
    (cutShmHost string).length ≤ string.length := by
  induction string with
  | nil => exact le_refl 0
  | cons first rest ih =>
    unfold cutShmHost
    split
    · simp
    · simp only [length_cons]
      omega

section

variable {id : List Char} {size : Nat} {strings : Nat → List Char}

/-- The strings of a description, in rank order. -/
def stringsOf (strings : Nat → List Char) (size : Nat) : List (List Char) :=
  (List.range size).map strings

/-- The group that a description stands for. -/
def described
    (id : List Char)
    (size : Nat)
    (strings : Nat → List Char) : ProcessGroup where
  id := id
  size := size
  conn := .strings (stringsOf strings size)
    ((description id size strings size).length + 1)

theorem description_eq
    (id : List Char)
    (size : Nat)
    (strings : Nat → List Char) :
    description id size strings size =
      id ++ nul :: (decimal size ++ nul :: terminated (stringsOf strings size)) := by
  unfold description stringsOf
  rw [terminated_cons, terminated_cons]

variable
    (idNulFree : nul ∉ id)
    (nulFree : ∀ rank < size, nul ∉ strings rank)
    (total : (description id size strings size).length + 1 < 2147483648)
    (inInt : size < 2147483648)
    (notSingleton : ¬"singinit_kvs".toList <+: id)

include idNulFree nulFree total in
/-- Reading a description yields the size and the strings. -/
theorem connFromString_description :
    connFromString (description id size strings size) =
      some (size, (described id size strings).conn) := by
  have fields : ∀ field ∈ stringsOf strings size, nul ∉ field := by
    intro field member
    obtain ⟨rank, inside, rfl⟩ := mem_map.mp member
    exact nulFree rank (mem_range.mp inside)
  have count : (stringsOf strings size).length = size := by
    simp [stringsOf]
  have read := readFields_terminated fields []
  rw [append_nil, count] at read
  have sized : intSize ((description id size strings size).length -
      ([] : List Char).length + 1) = some ((description id size strings size).length + 1) := by
    exact if_pos total
  unfold connFromString
  rw [description_eq, readField_append idNulFree]
  simp only [readField_append (nul_notMem_decimal size), atoi_decimal,
    Int.toNat_natCast, read, ← description_eq, sized]
  rfl

include idNulFree nulFree total in
/-- A process that does not know the group makes it from the description. -/
theorem createFromString_new
    {groups : List ProcessGroup}
    (unknown : ∀ pg ∈ groups, pg.id ≠ id) :
    createFromString groups (description id size strings size) =
      some ⟨described id size strings, true, groups ++ [described id size strings]⟩ := by
  have notFound : groups.find? (fun pg => pg.id == id) = none := by
    rw [find?_eq_none]
    intro pg member
    simpa using unknown pg member
  have read : readField (description id size strings size) =
      some (id, decimal size ++ nul :: terminated (stringsOf strings size)) := by
    rw [description_eq, readField_append idNulFree]
  simp only [createFromString, read, notFound, connFromString_description idNulFree nulFree total]
  rfl

include idNulFree in
/-- A process that knows a group with this id takes that one. -/
theorem createFromString_known
    {groups : List ProcessGroup} {existing : ProcessGroup}
    (known : groups.find? (fun pg => pg.id == id) = some existing) :
    createFromString groups (description id size strings size) =
      some ⟨existing, false, groups⟩ := by
  have read : readField (description id size strings size) =
      some (id, decimal size ++ nul :: terminated (stringsOf strings size)) := by
    rw [description_eq, readField_append idNulFree]
  simp only [createFromString, read, known]

/-- The group made from a description has the string of every rank. -/
theorem getConnInfo_described
    {rank : Nat}
    (inside : rank < size)
    (short : (strings rank).length < maxKvsValueLen) :
    getConnInfo (described id size strings) rank maxKvsValueLen = some (strings rank) := by
  simp [getConnInfo, described, stringsOf, inside, strncpy, short]

variable {junk : Nat → Char} {pmiId : List Char}

/-- The strings are written behind the text where there is room for them. -/
theorem appendStrings_eq
    {values : List (List Char)} {text string : List Char}
    (holds : text <+: string)
    (room : (text ++ terminated values).length ≤ string.length) :
    ∃ written, appendStrings values string text.length =
        some (written, (text ++ terminated values).length) ∧
      text ++ terminated values <+: written := by
  induction values generalizing text string with
  | nil =>
    rw [terminated_nil, append_nil]
    exact ⟨string, rfl, holds⟩
  | cons value rest ih =>
    have split : text ++ terminated (value :: rest) =
        text ++ (value ++ [nul]) ++ terminated rest := by
      simp [terminated]
    rw [split] at room ⊢
    obtain ⟨written, stored, kept, length⟩ :=
      @store_behind _ _ (value ++ [nul]) holds (by
        rw [length_append, length_append] at room
        omega)
    have position : text.length + value.length + 1 = (text ++ (value ++ [nul])).length := by
      simp only [length_append, length_singleton]
      omega
    simp only [appendStrings, stored, position]
    exact ih kept (by omega)

include inInt in
/-- A number that an `int` holds has few enough digits. -/
theorem snprintfD_twenty :
    snprintfD 20 size = decimal size ++ [nul] := by
  have digits : (decimal size).length ≤ 10 :=
    (Nat.length_toDigits_le_iff (by decide) (by decide)).mpr
      (lt_trans inInt (by decide))
  unfold snprintfD
  rw [take_of_length_le (by omega)]

include inInt notSingleton in
/-- The group made from a description is described by the same text, within
the length that was saved with it. -/
theorem connToString_described :
    ∃ written, connToString junk pmiId id size (stringsOf strings size)
          ((description id size strings size).length + 1) =
        some (written, (description id size strings size).length) ∧
      description id size strings size <+: written := by
  have sameId : currentId pmiId id = id := if_neg notSingleton
  have all : (stringsOf strings size).take size = stringsOf strings size := by
    apply take_of_length_le
    simp [stringsOf]
  have split : description id size strings size =
      (id ++ [nul]) ++ (decimal size ++ [nul]) ++ terminated (stringsOf strings size) := by
    simp [description_eq]
  generalize isText : description id size strings size = text at split ⊢
  have length := congrArg length split
  rw [length_append, length_append] at length
  have idLength : (id ++ [nul]).length = id.length + 1 := by simp
  have blank := @length_malloc junk (text.length + 1)
  have nilLength : ([] : List Char).length = 0 := rfl
  obtain ⟨first, firstStored, firstKept, firstLength⟩ :=
    @store_behind [] (malloc junk (text.length + 1)) (id ++ [nul]) nil_prefix (by omega)
  rw [nil_append] at firstKept
  rw [nilLength] at firstStored
  obtain ⟨second, secondStored, secondKept, secondLength⟩ :=
    @store_behind _ _ (decimal size ++ [nul]) firstKept (by omega)
  rw [idLength] at secondStored
  obtain ⟨written, appended, kept⟩ :=
    @appendStrings_eq (stringsOf strings size) _ second secondKept (by
      rw [← split]
      omega)
  rw [← split] at appended kept
  rw [length_append, idLength] at appended
  refine ⟨written, ?_, kept⟩
  have noError : ¬text.length + 1 < text.length := by omega
  simp only [connToString, sameId, all, bind_eq_bind, bind_some,
    firstStored, secondStored, snprintfD_twenty inInt, appended, if_neg noError]

include inInt notSingleton in
/-- What is sent on for a group made from a description. -/
theorem toText_described :
    toText junk pmiId (described id size strings) = some (description id size strings size) := by
  obtain ⟨written, appended, rest, rfl⟩ :=
    @connToString_described id size strings inInt notSingleton junk pmiId
  simp only [toText, described, appended, map_some, take_left]

/-- The receiver does not know the group, or knows it as it was described. -/
def Receiver.Agrees
    (receiver : Receiver)
    (pg : ProcessGroup) : Prop :=
  ∀ known ∈ receiver.groups, known.id = pg.id → known = pg

include idNulFree nulFree total inInt notSingleton in
/-- One process sends the text on that it has received. -/
theorem forward_description
    {receiver : Receiver}
    (agrees : receiver.Agrees (described id size strings)) :
    receiver.forward (description id size strings size) =
      some (description id size strings size) := by
  cases found : receiver.groups.find? (fun pg => pg.id == id) with
  | none =>
    have unknown : ∀ pg ∈ receiver.groups, pg.id ≠ id := by
      intro pg member
      simpa using find?_eq_none.mp found pg member
    simp only [Receiver.forward, createFromString_new idNulFree nulFree total unknown]
    exact toText_described inInt notSingleton
  | some existing =>
    have sameId : existing.id = id := by
      simpa using find?_some found
    have same := agrees existing (mem_of_find?_eq_some found) sameId
    simp only [Receiver.forward, createFromString_known idNulFree found, same]
    exact toText_described inInt notSingleton

include idNulFree nulFree total inInt notSingleton in
/-- Any number of processes send the text on that the first has received. -/
theorem forwardThrough_description
    {receivers : List Receiver}
    (agree : ∀ receiver ∈ receivers, receiver.Agrees (described id size strings)) :
    forwardThrough receivers (description id size strings size) =
      some (description id size strings size) := by
  induction receivers with
  | nil => rfl
  | cons receiver rest ih =>
    rw [forall_mem_cons] at agree
    simp only [forwardThrough, forward_description idNulFree nulFree total
      inInt notSingleton agree.1]
    exact ih agree.2

end

/-- What a description goes through: its writer, a process that does not know
the group, a process that knows it, and any number of processes that send it
on. The group at its end has the string of every rank, and is described by the
same text, within the length that was saved for this. -/
structure Survives
    (junk : Nat → Char)
    (id : List Char)
    (pgSize : Nat)
    (value : Nat → List Char) : Prop where
  written : ∃ memory, connToStringKVS junk id pgSize value =
      some (memory, (description id pgSize (sentValue value) pgSize).length) ∧
    description id pgSize (sentValue value) pgSize <+: memory
  created : ∀ groups : List ProcessGroup, (∀ pg ∈ groups, pg.id ≠ id) →
    createFromString groups (description id pgSize (sentValue value) pgSize) =
      some ⟨described id pgSize (sentValue value), true,
        groups ++ [described id pgSize (sentValue value)]⟩
  found : ∀ (groups : List ProcessGroup) (existing : ProcessGroup),
    groups.find? (fun pg => pg.id == id) = some existing →
    createFromString groups (description id pgSize (sentValue value) pgSize) =
      some ⟨existing, false, groups⟩
  connInfo : ∀ rank < pgSize,
    getConnInfo (described id pgSize (sentValue value)) rank maxKvsValueLen =
      some (sentValue value rank)
  rewritten : ¬"singinit_kvs".toList <+: id → ∀ (scratch : Nat → Char)
      (pmiId : List Char), ∃ memory,
    connToString scratch pmiId id pgSize (stringsOf (sentValue value) pgSize)
        ((description id pgSize (sentValue value) pgSize).length + 1) =
      some (memory, (description id pgSize (sentValue value) pgSize).length) ∧
    description id pgSize (sentValue value) pgSize <+: memory
  forwarded : ¬"singinit_kvs".toList <+: id → ∀ receivers : List Receiver,
    (∀ receiver ∈ receivers, receiver.Agrees (described id pgSize (sentValue value))) →
    forwardThrough receivers (description id pgSize (sentValue value) pgSize) =
      some (description id pgSize (sentValue value) pgSize)

/-- The description of a group survives the wire when the memory for it is large
enough at every moment. -/
theorem description_survives
    (junk : Nat → Char)
    (id : List Char)
    (pgSize : Nat)
    (value : Nat → List Char)
    (idNulFree : nul ∉ id)
    (valueNulFree : ∀ rank < pgSize, nul ∉ value rank)
    (valueShort : ∀ rank < pgSize, (value rank).length < maxKvsValueLen)
    (fits : Fits id pgSize value)
    (total :
      (description id pgSize (sentValue value) pgSize).length + 1 < 2147483648) :
    Survives junk id pgSize value := by
  have inInt : pgSize < 2147483648 := by
    have estimateLt := fits.estimate_lt
    unfold estimate at estimateLt
    omega
  have nulFree : ∀ rank < pgSize, nul ∉ sentValue value rank := by
    intro rank inside
    exact nul_notMem_cutShmHost (valueNulFree rank inside)
  refine ⟨connToStringKVS_spec.1 fits, ?_, ?_, ?_, ?_, ?_⟩
  · intro groups unknown
    exact createFromString_new idNulFree nulFree total unknown
  · intro groups existing known
    exact createFromString_known idNulFree known
  · intro rank inside
    apply getConnInfo_described inside
    exact lt_of_le_of_lt (length_cutShmHost_le (value rank)) (valueShort rank inside)
  · intro notSingleton scratch pmiId
    exact connToString_described inInt notSingleton
  · intro notSingleton receivers agree
    exact forwardThrough_description idNulFree nulFree total inInt notSingleton agree

/-- Memory is large enough for a group of one process with short strings. -/
theorem fits_one
    {id : List Char} {value : Nat → List Char}
    (short : id.length + (sentValue value 0).length < 100) :
    Fits id 1 value := by
  have digits : (decimal 1).length = 1 := by decide
  have start := length_description_zero id 1 (sentValue value)
  have length := length_description_succ id 1 (sentValue value) 0
  refine ⟨by decide, ?_, ?_⟩
  · unfold estimate
    omega
  · intro rank inside
    obtain rfl : rank = 0 := by omega
    left
    unfold estimate
    omega

/-- A business card that names a shared-memory queue. -/
def sharedMemoryCard : List Char :=
  "tcp#host$shm_host#n1$".toList

/-- The description of a group with such a card survives. -/
theorem survives_sharedMemoryCard :
    Survives (fun _ => 'x') "kvs_1".toList 1 (fun _ => sharedMemoryCard) :=
  description_survives (fun _ => 'x') "kvs_1".toList 1 (fun _ => sharedMemoryCard)
    (by decide)
    (fun _ _ => show nul ∉ sharedMemoryCard by decide)
    (fun _ _ => show sharedMemoryCard.length < maxKvsValueLen by decide)
    (fits_one (by decide)) (by decide)

/-- Its text does not have the string of the rank: the queue's name is cut
off. -/
theorem text_of_sharedMemoryCard :
    ∃ text, toText (fun _ => 'x') []
        ⟨"kvs_1".toList, 1, .kvs fun _ => sharedMemoryCard⟩ = some text ∧
      text ≠ description "kvs_1".toList 1 (fun _ => sharedMemoryCard) 1 := by
  have fits : Fits "kvs_1".toList 1 (fun _ => sharedMemoryCard) := fits_one (by decide)
  obtain ⟨memory, written, rest, rfl⟩ := (@connToStringKVS_spec _ _ _ (fun _ => 'x')).1 fits
  refine ⟨description "kvs_1".toList 1
    (sentValue fun _ => sharedMemoryCard) 1, ?_, ?_⟩
  · simp only [toText, written, map_some, take_left]
  · decide

end Mpich.Ch3.Pg
