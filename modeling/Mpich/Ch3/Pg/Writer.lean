import Mpich.Foundation.NulText
import Mpich.Foundation.Tabulate

/-!
# Process group descriptions

The routines of `mpidi_pg.c` that write the description of a process group as a
text and make a process group from such a text. Memory is the list of its characters,
and `none` is the result of a routine that writes or reads outside the memory it has,
computes a size that does not fit in an `int`, or returns an error.

`connToStringKVS` estimates the memory it needs, and allocates more when a
string would not fit into the estimate. The estimate itself is never changed,
so every later string makes it allocate again, from the same base and for the
length of that string. `Fits` says when this is enough.
-/

namespace Mpich.Ch3.Pg

open Buffer NulText

/-- `MPIDI_MAX_KVS_VALUE_LEN`. -/
def maxKvsValueLen : Nat := 4096

/-- A size that an `int` holds. -/
def intSize (size : Nat) : Option Nat :=
  if size < 2147483648 then some size else none

/-- What `MPIU_Malloc` answers; `junk` is what the memory holds by chance. -/
def malloc (junk : Nat → Char) (size : Nat) : List Char :=
  (List.range size).map junk

/-- What `MPIU_Realloc` answers. -/
def realloc
    (junk : Nat → Char)
    (memory : List Char)
    (size : Nat) : List Char :=
  memory.take size ++ malloc junk (size - memory.length)

/-- What `MPIU_Snprintf` writes for `"%d"`. -/
def snprintfD (limit number : Nat) : List Char :=
  (decimal number).take (limit - 1) ++ [nul]

/-- The connection string without the names of shared-memory queues:
`strstr( buf, "$shm_host" )` is cut off behind its first character. -/
def cutShmHost : List Char → List Char
  | [] => []
  | first :: rest =>
    if "$shm_host".toList <+: first :: rest then [first]
    else first :: cutShmHost rest

/-- The loop of `connToStringKVS`, for the ranks from `i` on. -/
def appendValues
    (junk : Nat → Char)
    (curSlen pgSize : Nat)
    (value : Nat → List Char) :
    Nat → Nat → List Char → Nat → Option (List Char × Nat)
  | 0, _, string, len => some (string, len)
  | remaining + 1, i, string, len =>
    let buf := cutShmHost (value i)
    let vallen := buf.length
    if curSlen ≤ len + vallen + 1 then
      match intSize (curSlen + (pgSize - i) * (vallen + 1)) with
      | none => none
      | some size =>
        match store (realloc junk string size) len (buf ++ [nul]) with
        | none => none
        | some written =>
          appendValues junk curSlen pgSize value remaining (i + 1) written (len + vallen + 1)
    else
      match store string len (buf ++ [nul]) with
      | none => none
      | some written =>
        appendValues junk curSlen pgSize value remaining (i + 1) written (len + vallen + 1)

/-- `connToStringKVS`: the memory and how much of it is the text. -/
def connToStringKVS
    (junk : Nat → Char)
    (id : List Char)
    (pgSize : Nat)
    (value : Nat → List Char) : Option (List Char × Nat) := do
  let curSlen ← intSize (10 + pgSize * 128)
  let string ← store (malloc junk curSlen) 0 (id.take curSlen)
  let string ← store string (id.take curSlen).length [nul]
  let len := (id.take curSlen).length + 1
  let string ← store string len (snprintfD curSlen pgSize)
  appendValues junk curSlen pgSize value pgSize 0 string (len + (snprintfD curSlen pgSize).length)

/-- The `connData` of a process group. -/
inductive ConnData where
  /-- The group of the calling process: the values in the KVS space. -/
  | kvs (value : Nat → List Char)
  /-- Any other group: an `MPIDI_ConnInfo`. -/
  | strings (connStrings : List (List Char)) (toStringLen : Nat)

/-- An `MPIDI_PG_t`. -/
structure ProcessGroup where
  id : List Char
  size : Nat
  conn : ConnData

/-- `connFromString`: the size and the connection information of the group. -/
def connFromString (text : List Char) : Option (Nat × ConnData) :=
  match readField text with
  | none => none
  | some (_, behindId) =>
    match readField behindId with
    | none => none
    | some (number, behindSize) =>
      match readFields (atoi number).toNat behindSize with
      | none => none
      | some (connStrings, behind) =>
        match intSize (text.length - behind.length + 1) with
        | none => none
        | some toStringLen =>
          some ((atoi number).toNat, .strings connStrings toStringLen)

/-- What `MPIDI_PG_Create_from_string` answers: the group, the flag that says
whether it is new, and the groups that are known afterwards. -/
structure Created where
  pg : ProcessGroup
  isNew : Bool
  groups : List ProcessGroup

/-- `MPIDI_PG_Create_from_string`. -/
def createFromString
    (groups : List ProcessGroup)
    (text : List Char) : Option Created :=
  match readField text with
  | none => none
  | some (id, _) =>
    match groups.find? (fun pg => pg.id == id) with
    | some existing => some ⟨existing, false, groups⟩
    | none =>
      match connFromString text with
      | none => none
      | some (size, conn) =>
        some ⟨⟨id, size, conn⟩, true, groups ++ [⟨id, size, conn⟩]⟩

/-- `MPIU_Strncpy`: the string that the destination then holds. -/
def strncpy (source : List Char) (limit : Nat) : List Char :=
  if source.length < limit then source else source.take (limit - 1)

/-- `getConnInfo` and `getConnInfoKVS`. -/
def getConnInfo
    (pg : ProcessGroup)
    (rank bufsize : Nat) : Option (List Char) :=
  match pg.conn with
  | .kvs value => some (value rank)
  | .strings connStrings _ =>
    (connStrings[rank]?).map fun string => strncpy string bufsize

/-- The `pg->id` that `connToString` writes: one that begins with
`"singinit_kvs"` is replaced by what `PMI_Get_id` answers. -/
def currentId (pmiId id : List Char) : List Char :=
  if "singinit_kvs".toList <+: id then pmiId else id

/-- The strings of a group, one behind the other. -/
def appendStrings : List (List Char) → List Char → Nat → Option (List Char × Nat)
  | [], string, len => some (string, len)
  | value :: rest, string, len =>
    match store string len (value ++ [nul]) with
    | none => none
    | some written => appendStrings rest written (len + value.length + 1)

/-- `connToString`; `PMI_Get_id` answers `pmiId`. -/
def connToString
    (junk : Nat → Char)
    (pmiId : List Char)
    (id : List Char)
    (size : Nat)
    (connStrings : List (List Char))
    (toStringLen : Nat) : Option (List Char × Nat) := do
  let pgId := currentId pmiId id
  let string ← store (malloc junk toStringLen) 0 (pgId ++ [nul])
  let string ← store string (pgId.length + 1) (snprintfD 20 size)
  let (string, len) ← appendStrings (connStrings.take size) string
    (pgId.length + 1 + (snprintfD 20 size).length)
  if toStringLen < len then none else some (string, len)

/-- `MPIDI_PG_To_string`: the text that a process sends to describe a group. -/
def toText
    (junk : Nat → Char)
    (pmiId : List Char)
    (pg : ProcessGroup) : Option (List Char) :=
  match pg.conn with
  | .kvs value =>
    (connToStringKVS junk pg.id pg.size value).map fun answer =>
      answer.1.take answer.2
  | .strings connStrings toStringLen =>
    (connToString junk pmiId pg.id pg.size connStrings toStringLen).map
      fun answer => answer.1.take answer.2

/-- A process on the way of a description. -/
structure Receiver where
  groups : List ProcessGroup
  junk : Nat → Char
  pmiId : List Char

/-- Receive a description and send it on. -/
def Receiver.forward
    (receiver : Receiver)
    (text : List Char) : Option (List Char) :=
  match createFromString receiver.groups text with
  | none => none
  | some created => toText receiver.junk receiver.pmiId created.pg

/-- Send a description through several processes. -/
def forwardThrough :
    List Receiver → List Char → Option (List Char)
  | [], text => some text
  | receiver :: rest, text =>
    match receiver.forward text with
    | none => none
    | some sent => forwardThrough rest sent

open List Option

section

variable {junk : Nat → Char} {text memory : List Char}

@[simp] theorem length_malloc (size : Nat) :
    (malloc junk size).length = size := by
  simp [malloc]

/-- Writing behind the text extends it. -/
theorem store_behind
    {cells : List Char}
    (holds : text <+: memory)
    (within : text.length + cells.length ≤ memory.length) :
    ∃ written, store memory text.length cells = some written ∧
      text ++ cells <+: written ∧ written.length = memory.length := by
  obtain ⟨rest, rfl⟩ := holds
  refine ⟨_, store_of_le within, ?_, length_overwrite within⟩
  unfold overwrite
  rw [take_left]
  exact prefix_append _ _

/-- Writing behind the text beyond the memory is not defined. -/
theorem store_outside
    {offset : Nat} {cells : List Char}
    (outside : memory.length < offset + cells.length) :
    store memory offset cells = none :=
  if_neg (not_le.mpr outside)

/-- Reallocated memory has the size asked for. -/
theorem length_realloc (size : Nat) :
    (realloc junk memory size).length = size := by
  simp only [realloc, length_append, length_take, length_malloc]
  omega

/-- Reallocated memory starts with the text when there is room for it. -/
theorem prefix_realloc
    {size : Nat}
    (holds : text <+: memory)
    (room : text.length ≤ size) :
    text <+: realloc junk memory size := by
  obtain ⟨rest, rfl⟩ := holds
  unfold realloc
  rw [take_append, take_of_length_le room, append_assoc]
  exact prefix_append _ _

end

/-- The description of a group up to the string of rank `count - 1`. -/
def description
    (id : List Char)
    (size : Nat)
    (strings : Nat → List Char)
    (count : Nat) : List Char :=
  terminated (id :: decimal size :: (List.range count).map strings)

/-- The connection string of a rank as it is sent. -/
def sentValue (value : Nat → List Char) (rank : Nat) : List Char :=
  cutShmHost (value rank)

section

variable
    (id : List Char)
    (size : Nat)
    (strings : Nat → List Char)

include id size strings

theorem description_succ (count : Nat) :
    description id size strings (count + 1) =
      description id size strings count ++ (strings count ++ [nul]) := by
  unfold description
  rw [range_succ, map_append, ← cons_append, ← cons_append, terminated_append]
  simp [terminated]

theorem length_description_succ (count : Nat) :
    (description id size strings (count + 1)).length =
      (description id size strings count).length + (strings count).length + 1 := by
  rw [description_succ, length_append, length_append]
  rfl

theorem length_description_zero :
    (description id size strings 0).length = id.length + 1 + ((decimal size).length + 1) := by
  simp [description, terminated]
  omega

end

section

variable
  (id : List Char) (pgSize : Nat) (value : Nat → List Char)

/-- The first estimate of the needed space. -/
def estimate (pgSize : Nat) : Nat :=
  10 + pgSize * 128

/-- The memory for the string of a rank is large enough: the text up to it is
shorter than the estimate, or fits into the memory that is allocated anew. -/
def RankFits (rank : Nat) : Prop :=
  let reached := (description id pgSize (sentValue value) (rank + 1)).length
  let allocated := estimate pgSize + (pgSize - rank) * ((sentValue value rank).length + 1)
  reached < estimate pgSize ∨ reached ≤ allocated ∧ allocated < 2147483648

/-- The memory is large enough at every moment. -/
structure Fits : Prop where
  estimate_lt : estimate pgSize < 2147483648
  header : id.length + 1 + ((decimal pgSize).length + 1) ≤ estimate pgSize
  ranks : ∀ rank < pgSize, RankFits id pgSize value rank

variable {id : List Char} {pgSize : Nat} {value : Nat → List Char}
  {junk : Nat → Char}

section

variable
    {remaining rank : Nat} {string : List Char}
    (holds : description id pgSize (sentValue value) rank <+: string)
    (memory : string.length = estimate pgSize ∨
      estimate pgSize ≤ (description id pgSize (sentValue value) rank).length)

include holds memory

/-- One string is written exactly when the memory for it is large enough. -/
theorem appendValues_succ :
    (¬RankFits id pgSize value rank ∧
      appendValues junk (estimate pgSize) pgSize value (remaining + 1) rank string
        (description id pgSize (sentValue value) rank).length = none) ∨
    RankFits id pgSize value rank ∧ ∃ written,
        description id pgSize (sentValue value) (rank + 1) <+: written ∧
        (written.length = estimate pgSize ∨ estimate pgSize ≤
          (description id pgSize (sentValue value) (rank + 1)).length) ∧
        appendValues junk (estimate pgSize) pgSize value (remaining + 1) rank
            string (description id pgSize (sentValue value) rank).length =
          appendValues junk (estimate pgSize) pgSize value remaining (rank + 1)
            written
            (description id pgSize (sentValue value) (rank + 1)).length := by
  have length := length_description_succ id pgSize (sentValue value) rank
  have extended := description_succ id pgSize (sentValue value) rank
  have cells : (sentValue value rank ++ [nul]).length = (sentValue value rank).length + 1 := by
    rw [length_append]
    rfl
  have unfolded : cutShmHost (value rank) = sentValue value rank := rfl
  unfold RankFits
  simp only [appendValues, unfolded, ← length]
  rcases lt_or_ge
    (description id pgSize (sentValue value) (rank + 1)).length
    (estimate pgSize) with small | large
  · right
    rw [if_neg (not_le.mpr small)]
    obtain ⟨written, stored, kept, sameLength⟩ :=
      @store_behind _ _ (sentValue value rank ++ [nul]) holds (by omega)
    rw [← extended] at kept
    simp only [stored]
    exact ⟨.inl small, written, kept, .inl (by omega), rfl⟩
  · rw [if_pos large]
    unfold intSize
    generalize estimate pgSize + (pgSize - rank) * ((sentValue value rank).length + 1) = size
    have allocated := @length_realloc junk string size
    rcases lt_or_ge size 2147483648 with inInt | tooLarge
    · rw [if_pos inInt]
      rcases lt_or_ge size
        (description id pgSize (sentValue value) (rank + 1)).length with
        short | room
      · left
        have outside : store (realloc junk string size)
            (description id pgSize (sentValue value) rank).length
            (sentValue value rank ++ [nul]) = none :=
          store_outside (by omega)
        simp only [outside]
        exact ⟨by omega, trivial⟩
      · right
        have enlarged := @prefix_realloc junk _ string size holds (by omega)
        obtain ⟨written, stored, kept, sameLength⟩ :=
          @store_behind _ _ (sentValue value rank ++ [nul]) enlarged (by omega)
        rw [← extended] at kept
        simp only [stored]
        exact ⟨.inr ⟨room, inInt⟩, written, kept, .inr large, rfl⟩
    · left
      rw [if_neg (by omega)]
      exact ⟨by omega, rfl⟩

/-- The loop ends exactly when the memory is large enough for all strings, and
the memory then starts with the description. -/
theorem appendValues_spec (total : rank + remaining = pgSize) :
    ((∀ later < pgSize, rank ≤ later → RankFits id pgSize value later) → ∃ written,
        appendValues junk (estimate pgSize) pgSize value remaining rank string
            (description id pgSize (sentValue value) rank).length =
          some (written, (description id pgSize (sentValue value) pgSize).length) ∧
        description id pgSize (sentValue value) pgSize <+: written) ∧
    ((appendValues junk (estimate pgSize) pgSize value remaining rank string
        (description id pgSize (sentValue value) rank).length).isSome →
      ∀ later < pgSize, rank ≤ later → RankFits id pgSize value later) := by
  induction remaining generalizing rank string with
  | zero =>
    have isLast : rank = pgSize := by omega
    subst isLast
    refine ⟨fun _ => ⟨string, rfl, holds⟩, ?_⟩
    omega
  | succ remaining ih =>
    rcases @appendValues_succ id pgSize value junk remaining rank string holds
      memory with ⟨short, failed⟩ | ⟨room, written, kept, grown, next⟩
    · refine ⟨?_, ?_⟩
      · intro fits
        exact absurd (fits rank (by omega) (le_refl rank)) short
      · intro isSome
        rw [failed] at isSome
        cases isSome
    · rw [next]
      obtain ⟨succeeds, onlyIf⟩ := ih kept grown (by omega)
      refine ⟨?_, ?_⟩
      · intro fits
        apply succeeds
        intro later before behind
        exact fits later before (by omega)
      · intro isSome later before behind
        rcases lt_or_ge rank later with after | here
        · exact onlyIf isSome later before after
        · have same : later = rank := by omega
          exact same ▸ room

end

/-- A number has no more digits than the estimate has room for. -/
theorem length_decimal_lt_estimate (pgSize : Nat) :
    (decimal pgSize).length < estimate pgSize := by
  have digits : (decimal pgSize).length ≤ pgSize + 1 :=
    (Nat.length_toDigits_le_iff (by decide) (Nat.succ_pos pgSize)).mpr
      (lt_of_lt_of_le (Nat.lt_pow_self (by decide))
        (Nat.pow_le_pow_right (by decide) (Nat.le_succ pgSize)))
  unfold estimate
  omega

theorem snprintfD_estimate (pgSize : Nat) :
    snprintfD (estimate pgSize) pgSize = decimal pgSize ++ [nul] := by
  have digits := length_decimal_lt_estimate pgSize
  unfold snprintfD
  rw [take_of_length_le (by omega)]

/-- With room for the id and the size, the loop starts behind them. -/
theorem connToStringKVS_eq_appendValues
    (inInt : estimate pgSize < 2147483648)
    (room : id.length + 1 + ((decimal pgSize).length + 1) ≤ estimate pgSize) :
    ∃ string, description id pgSize (sentValue value) 0 <+: string ∧
      string.length = estimate pgSize ∧ connToStringKVS junk id pgSize value =
        appendValues junk (estimate pgSize) pgSize value pgSize 0 string
          (description id pgSize (sentValue value) 0).length := by
  have start : description id pgSize (sentValue value) 0 =
      id ++ [nul] ++ (decimal pgSize ++ [nul]) := by
    simp [description, terminated]
  have size : intSize (10 + pgSize * 128) = some (estimate pgSize) :=
    if_pos inInt
  have whole : id.take (estimate pgSize) = id := take_of_length_le (by omega)
  have blank := @length_malloc junk (estimate pgSize)
  have nulLength : [nul].length = 1 := rfl
  have nilLength : ([] : List Char).length = 0 := rfl
  obtain ⟨first, firstStored, firstKept, firstLength⟩ :=
    @store_behind [] (malloc junk (estimate pgSize)) id nil_prefix (by omega)
  rw [nil_append] at firstKept
  obtain ⟨second, secondStored, secondKept, secondLength⟩ :=
    @store_behind _ _ [nul] firstKept (by omega)
  obtain ⟨third, thirdStored, thirdKept, thirdLength⟩ :=
    @store_behind _ _ (decimal pgSize ++ [nul]) secondKept (by
      rw [length_append, length_append]
      omega)
  rw [← start] at thirdKept
  rw [length_append, nulLength] at thirdStored
  rw [nilLength] at firstStored
  refine ⟨third, thirdKept, by omega, ?_⟩
  simp only [connToStringKVS, size, bind_eq_bind, bind_some,
    whole, firstStored, secondStored, snprintfD_estimate, thirdStored]
  rw [start]
  simp only [length_append, nulLength]

/-- A write that is defined lies inside the memory. -/
theorem store_eq_some
    {memory cells written : List Char} {offset : Nat}
    (stored : store memory offset cells = some written) :
    offset + cells.length ≤ memory.length ∧ written.length = memory.length := by
  unfold store at stored
  split at stored
  case isTrue within =>
    cases stored
    exact ⟨within, length_overwrite within⟩
  case isFalse => cases stored

/-- A writer that stays inside its memory had room for the id and the size. -/
theorem room_of_isSome
    (isSome : (connToStringKVS junk id pgSize value).isSome) :
    estimate pgSize < 2147483648 ∧
      id.length + 1 + ((decimal pgSize).length + 1) ≤ estimate pgSize := by
  obtain ⟨answer, found⟩ := isSome_iff_exists.mp isSome
  simp only [connToStringKVS, bind_eq_bind, bind_eq_some_iff] at found
  obtain ⟨curSlen, sized, first, firstStored, second, secondStored, third, thirdStored, -⟩ := found
  unfold intSize at sized
  split at sized
  case isFalse => cases sized
  case isTrue inInt =>
    cases sized
    have sameEstimate : 10 + pgSize * 128 = estimate pgSize := rfl
    rw [sameEstimate] at firstStored secondStored thirdStored inInt
    rw [snprintfD_estimate] at thirdStored
    have firstLength := (store_eq_some firstStored).2
    obtain ⟨secondRoom, secondLength⟩ := store_eq_some secondStored
    have thirdRoom := (store_eq_some thirdStored).1
    rw [length_malloc] at firstLength
    rw [length_take, length_append, length_singleton] at thirdRoom
    omega

/-- `connToStringKVS` stays inside its memory exactly when the memory is large
enough at every moment, and then yields the description. -/
theorem connToStringKVS_spec :
    (Fits id pgSize value → ∃ written, connToStringKVS junk id pgSize value =
          some (written, (description id pgSize (sentValue value) pgSize).length) ∧
        description id pgSize (sentValue value) pgSize <+: written) ∧
    ((connToStringKVS junk id pgSize value).isSome → Fits id pgSize value) := by
  constructor
  · intro fits
    obtain ⟨string, kept, length, started⟩ :=
      @connToStringKVS_eq_appendValues id pgSize value junk fits.estimate_lt fits.header
    rw [started]
    apply (appendValues_spec kept (.inl length) (Nat.zero_add pgSize)).1
    intro later before _
    exact fits.ranks later before
  · intro isSome
    obtain ⟨inInt, room⟩ := room_of_isSome isSome
    obtain ⟨string, kept, length, started⟩ :=
      @connToStringKVS_eq_appendValues id pgSize value junk inInt room
    rw [started] at isSome
    refine ⟨inInt, room, ?_⟩
    intro rank before
    exact (appendValues_spec kept (.inl length) (Nat.zero_add pgSize)).2
      isSome rank before (Nat.zero_le rank)

end

end Mpich.Ch3.Pg
