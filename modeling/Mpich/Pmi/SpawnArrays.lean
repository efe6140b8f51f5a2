import Mpich.Pmi.Cut

/-!
# The arrays of the spawn handler

Whatever a client sends, the lines of a block are the pieces into which its text is cut,
and the handler stays within its arrays unless a value comes before any key, or more
arguments are counted than there are places.
-/

namespace Mpich.Pmi

open List Option SortedAssoc

/-- The first line of a text, up to a newline or as long as there is room. -/
def cutLine : Nat → List Char → List Char × List Char
  | 0, text => ([], text)
  | _ + 1, [] => ([], [])
  | room + 1, char :: rest =>
    if char = '\n' then ([char], rest)
    else (char :: (cutLine room rest).1, (cutLine room rest).2)

/-- The lines of a text as they are read into `inbuf`. -/
def cutLines : Nat → List Char → List (List Char)
  | 0, _ => []
  | _ + 1, [] => []
  | fuel + 1, char :: rest =>
    (cutLine (maxLine - 1) (char :: rest)).1 ::
      cutLines fuel (cutLine (maxLine - 1) (char :: rest)).2

/-- What the lines of a block do, one after the other. -/
def actLines : List SpawnLine → SpawnVars → SpawnEnd
  | [], vars => .done vars
  | line :: rest, vars =>
    match line.act vars with
    | .more vars => actLines rest vars
    | ended => ended

variable {Other : Type*} {handlers : Handlers Other} {size room fuel : Nat}
  {reader : Reader} {server : Server Other} {client : Client} {vars : SpawnVars}
  {text : List Char}

/-- What is read depends on the text only. -/
theorem Reader.readLine_eq
    (sizePositive : 0 < size)
    (small : reader.buffered.length < size) :
    ∃ later, reader.readLine size room = ((cutLine room reader.text).1, later) ∧
      later.text = (cutLine room reader.text).2 ∧ later.buffered.length < size := by
  induction room generalizing reader with
  | zero => exact ⟨reader, rfl, rfl, small⟩
  | succ room ih =>
    cases isText : reader.text with
    | nil =>
      obtain ⟨isBuffered, isUnread⟩ := append_eq_nil_iff.mp isText
      have noNext : reader.next size = none := by
        unfold next Socket.read
        rw [isBuffered, isUnread]
        dsimp only
        rw [take_nil]
      refine ⟨reader, ?_, isText, small⟩
      unfold readLine
      rw [noNext]
      rfl
    | cons char rest =>
      obtain ⟨between, isNext, isRest, betweenSmall⟩ := next_of_text sizePositive isText small
      unfold readLine cutLine
      rw [isNext]
      dsimp only
      split_ifs with isEnd
      · exact ⟨between, rfl, isRest, betweenSmall⟩
      · obtain ⟨later, isLine, isLater, laterSmall⟩ := ih betweenSmall
        rw [isRest] at isLine isLater
        refine ⟨later, ?_, isLater, laterSmall⟩
        rw [isLine]

theorem length_cutLine
    (room : Nat)
    (text : List Char) :
    (cutLine room text).1.length + (cutLine room text).2.length = text.length := by
  induction room generalizing text with
  | zero => exact zero_add _
  | succ room ih =>
    cases text with
    | nil => rfl
    | cons char rest =>
      have ofRest := ih rest
      unfold cutLine
      split_ifs
      · exact add_comm _ _
      · rw [length_cons, length_cons, Nat.succ_add, ofRest]

theorem cutLine_nonempty
    (char : Char)
    (rest : List Char) :
    (cutLine (room + 1) (char :: rest)).1 ≠ [] := by
  unfold cutLine
  split_ifs
  · exact cons_ne_nil _ _
  · exact cons_ne_nil _ _

/-- The handler does what the lines do into which the text is cut. -/
theorem spawnLoop_eq
    (sizePositive : 0 < size)
    (small : reader.buffered.length < size)
    (enough : reader.text.length < fuel) :
    (spawnLoop size fuel reader vars).1 =
        actLines ((cutLines fuel reader.text).map SpawnLine.of) vars ∧
      (spawnLoop size fuel reader vars).2.buffered.length < size := by
  induction fuel generalizing reader vars with
  | zero => exact absurd enough (Nat.not_lt_zero _)
  | succ fuel ih =>
    obtain ⟨later, isRead, isRest, laterSmall⟩ :=
      @Reader.readLine_eq size (maxLine - 1) reader sizePositive small
    unfold spawnLoop
    rw [isRead]
    dsimp only
    cases isText : reader.text with
    | nil => exact ⟨rfl, laterSmall⟩
    | cons char rest =>
      have nonempty : (cutLine (maxLine - 1) (char :: rest)).1 ≠ [] :=
        @cutLine_nonempty (maxLine - 2) char rest
      have lengths := length_cutLine (maxLine - 1) (char :: rest)
      rw [isText] at isRest enough
      rw [if_neg nonempty]
      unfold cutLines
      rw [map_cons, spawnLine_eq]
      unfold actLines
      cases (SpawnLine.of (cutLine (maxLine - 1) (char :: rest)).1).act vars with
      | more next =>
        rw [← isRest]
        apply ih laterSmall
        have positive := length_pos_of_ne_nil nonempty
        rw [isRest]
        omega
      | done next => exact ⟨rfl, laterSmall⟩
      | malformed next => exact ⟨rfl, laterSmall⟩
      | fault => exact ⟨rfl, laterSmall⟩

/-- The number of the last info key. -/
def lastInfo
    (before : List SpawnPart) : Option Int :=
  (before.filterMap fun
    | .infoKey number _ => some number
    | _ => none).getLast?

/-- The number of the arguments. -/
def countedArgs
    (before : List SpawnPart) : Int :=
  ((before.filterMap fun
    | .argcnt number => some number
    | _ => none).getLast?).getD 0

/-- A value comes before any key. -/
def SpawnPart.Unset
    (before : List SpawnPart) : SpawnPart → Prop
  | preputVal _ => ∀ key, preputKey key ∉ before
  | infoVal number _ => number = -1 ∧ lastInfo before = none
  | _ => False

/-- A part after which the next line is read. -/
def SpawnPart.Accepted
    (before : List SpawnPart) : SpawnPart → Prop
  | arg number _ => 1 ≤ number ∧ number ≤ maxArgs
  | infoVal number _ => lastInfo before = some number
  | unrecognized => False
  | _ => True

/-- In lines that come after some others a value comes before any key, or more arguments
are counted at the end than there are places for. -/
def Misuses
    (before : List SpawnPart) : List SpawnLine → Prop
  | [] => (maxArgs : Int) < countedArgs before
  | .endcmd :: _ => (maxArgs : Int) < countedArgs before
  | .malformed :: _ => False
  | .blank :: rest => Misuses before rest
  | .part said :: rest =>
    said.Unset before ∨ said.Accepted before ∧ Misuses (before ++ [said]) rest

/-- The variables keep what the lines have said. -/
structure Tracks
    (before : List SpawnPart)
    (vars : SpawnVars) : Prop where
  key : vars.key = none ↔ ∀ key, .preputKey key ∉ before
  infoKey : vars.curInfoKey = none ↔ lastInfo before = none
  infoIdx : vars.curInfoIdx = (lastInfo before).getD (-1)
  nArgs : vars.app.nArgs = countedArgs before

variable {before : List SpawnPart} {said : SpawnPart} {later : SpawnVars}

theorem App.nArgs_infoKey
    (app : App)
    (key val : List Char) :
    (app.infoKey key val).nArgs = app.nArgs := by
  unfold App.infoKey
  split_ifs
  · rfl
  · rfl
  · rfl
  · rfl
  · rfl
  · rfl

@[simp] theorem lastInfo_append
    (before : List SpawnPart)
    (said : SpawnPart) :
    lastInfo (before ++ [said]) = match said with
      | .infoKey number _ => some number
      | _ => lastInfo before := by
  unfold lastInfo
  cases said <;> simp

@[simp] theorem countedArgs_append
    (before : List SpawnPart)
    (said : SpawnPart) :
    countedArgs (before ++ [said]) = match said with
      | .argcnt number => number
      | _ => countedArgs before := by
  unfold countedArgs
  cases said <;> simp

theorem Tracks.initial
    (nProcess : Int)
    (pairs : Pairs) :
    Tracks [] (.initial nProcess pairs) where
  key := iff_of_true rfl fun _ => not_mem_nil
  infoKey := iff_of_true rfl rfl
  infoIdx := rfl
  nArgs := rfl

/-- A part that is accepted is kept track of. -/
theorem Tracks.act
    (tracks : Tracks before vars)
    (acted : said.act vars = .more later) :
    Tracks (before ++ [said]) later := by
  obtain ⟨isKey, isInfoKey, isInfoIdx, isArgs⟩ := tracks
  cases said with
  | unrecognized => cases acted
  | arg number value =>
    rw [SpawnPart.act] at acted
    split_ifs at acted
    cases acted
    exact ⟨by simpa using isKey, by simpa using isInfoKey, by simpa using isInfoIdx,
      by simpa using isArgs⟩
  | preputVal val =>
    rw [SpawnPart.act] at acted
    split at acted
    · cases acted
    · cases acted
      exact ⟨by simpa using isKey, by simpa using isInfoKey, by simpa using isInfoIdx,
        by simpa using isArgs⟩
  | infoVal number val =>
    rw [SpawnPart.act] at acted
    split_ifs at acted
    split at acted
    · cases acted
    · cases acted
      exact ⟨by simpa using isKey, by simpa using isInfoKey, by simpa using isInfoIdx,
        by simpa [App.nArgs_infoKey] using isArgs⟩
  | preputKey key =>
    cases acted
    refine ⟨iff_of_false (some_ne_none _) fun unset => ?_, by simpa using isInfoKey,
      by simpa using isInfoIdx, by simpa using isArgs⟩
    exact unset key (mem_append_right _ mem_cons_self)
  | infoKey number key =>
    cases acted
    exact ⟨by simpa using isKey, by simp, by simp, by simpa using isArgs⟩
  | argcnt number =>
    cases acted
    exact ⟨by simpa using isKey, by simpa using isInfoKey, by simpa using isInfoIdx, by simp⟩
  | _ =>
    cases acted
    exact ⟨by simpa using isKey, by simpa using isInfoKey, by simpa using isInfoIdx,
      by simpa using isArgs⟩

theorem SpawnVars.finished_eq_none :
    vars.finished = none ↔ (maxArgs : Int) < vars.app.nArgs := by
  unfold SpawnVars.finished
  split_ifs with isNone fits
  · exact iff_of_false nofun (by omega)
  · exact iff_of_false nofun (by omega)
  · exact iff_of_true rfl (by omega)

/-- What a part does is decided by the parts before it. -/
theorem Tracks.act_cases
    (tracks : Tracks before vars)
    (said : SpawnPart) :
    match said.act vars with
    | .more _ => ¬ said.Unset before ∧ said.Accepted before
    | .done _ => False
    | .malformed _ => ¬ said.Unset before ∧ ¬ said.Accepted before
    | .fault => said.Unset before := by
  obtain ⟨isKey, isInfoKey, isInfoIdx, isArgs⟩ := tracks
  cases said with
  | arg number value =>
    rw [SpawnPart.act]
    split_ifs with isOut
    · refine ⟨not_false, fun accepted => ?_⟩
      obtain ⟨lower, upper⟩ : 1 ≤ number ∧ number ≤ (maxArgs : Int) := accepted
      omega
    · exact ⟨not_false, show 1 ≤ number ∧ number ≤ (maxArgs : Int) by omega⟩
  | preputVal val =>
    rw [SpawnPart.act]
    cases isSet : vars.key with
    | none => exact isKey.mp isSet
    | some key =>
      refine ⟨fun unset => ?_, trivial⟩
      rw [isKey.mpr unset] at isSet
      cases isSet
  | infoVal number val =>
    rw [SpawnPart.act, isInfoIdx]
    unfold SpawnPart.Unset SpawnPart.Accepted
    cases isLast : lastInfo before with
    | none =>
      rw [isInfoKey.mpr isLast]
      split_ifs with differs
      · exact ⟨fun unset => differs unset.1, nofun⟩
      · exact ⟨not_not.mp differs, rfl⟩
    | some last =>
      obtain ⟨key, isSet⟩ : ∃ key, vars.curInfoKey = some key := by
        apply ne_none_iff_exists'.mp
        intro isUnset
        rw [isInfoKey.mp isUnset] at isLast
        cases isLast
      rw [isSet]
      split_ifs with differs
      · exact ⟨fun unset => (nomatch unset.2), fun same => differs (Option.some.inj same).symm⟩
      · exact ⟨fun unset => (nomatch unset.2), congrArg some (not_not.mp differs).symm⟩
  | unrecognized => exact ⟨not_false, not_false⟩
  | _ => exact ⟨not_false, trivial⟩

/-- The handler uses what is not there exactly when the lines make it do so. -/
theorem Tracks.endSpawn_eq_none
    {lines : List SpawnLine} {spawning : Spawning}
    (tracks : Tracks before vars) :
    endSpawn handlers server spawning (actLines lines vars) = none ↔ Misuses before lines := by
  induction lines generalizing before vars with
  | nil =>
    unfold actLines Misuses
    rw [← tracks.nArgs, ← SpawnVars.finished_eq_none]
    exact map_eq_none_iff
  | cons line rest ih =>
    unfold actLines Misuses
    cases line with
    | blank => exact ih tracks
    | endcmd =>
      rw [← tracks.nArgs, ← SpawnVars.finished_eq_none]
      exact map_eq_none_iff
    | malformed => exact iff_of_false (some_ne_none _) not_false
    | part said =>
      have decided := tracks.act_cases said
      change endSpawn handlers server spawning
        (match said.act vars with
          | .more vars => actLines rest vars
          | ended => ended) = none ↔ _
      cases isEnd : said.act vars with
      | more later =>
        rw [isEnd] at decided
        rw [ih (tracks.act isEnd)]
        exact ⟨fun misuses => .inr ⟨decided.2, misuses⟩, fun either =>
          (either.resolve_left decided.1).2⟩
      | done later =>
        rw [isEnd] at decided
        exact decided.elim
      | malformed later =>
        rw [isEnd] at decided
        refine iff_of_false (some_ne_none _) ?_
        rintro (unset | ⟨accepted, _⟩)
        · exact decided.1 unset
        · exact decided.2 accepted
      | fault =>
        rw [isEnd] at decided
        exact iff_of_true rfl (.inl decided)

/-- The lines of a block in the text that follows. -/
def blockLines
    (text : List Char) : List SpawnLine :=
  (cutLines (text.length + 1) text).map .of

theorem findSpace_insertSpace
    (kvsname : List Char)
    (spaces : KVSpaces) :
    findSpace (insertSpace kvsname spaces) kvsname ≠ none := by
  induction spaces with
  | nil =>
    rw [insertSpace, findSpace, find_cons_self]
    exact some_ne_none _
  | cons space rest ih =>
    unfold insertSpace
    split_ifs with isBefore
    · rw [findSpace, find_cons_self]
      exact some_ne_none _
    · unfold findSpace find
      split_ifs
      · exact some_ne_none _
      · exact ih

/-- The space of the spawn that is in progress has not been destroyed. -/
def SpaceKept
    (server : Server Other)
    (client : Client) : Prop :=
  ∀ spawning ∈ client.spawning, findSpace server.kvSpaces spawning.kvs ≠ none

theorem SpaceKept.startSpawn (isKept : SpaceKept server client) :
    findSpace (startSpawn server client.spawning).1.kvSpaces
      (startSpawn server client.spawning).2.kvs ≠ none := by
  cases isSpawning : client.spawning with
  | none => exact findSpace_insertSpace _ _
  | some spawning => exact isKept spawning isSpawning

/-- Whatever is sent, the handler stays within its arrays unless the lines of the block
misuse them. -/
theorem handleSpawn_eq_none
    (sizePositive : 0 < size)
    (small : client.reader.buffered.length < size)
    (isKept : SpaceKept server client) :
    (handleSpawn handlers size server client = none ↔ Misuses [] (blockLines client.reader.text)) ∧
      ∀ handled ∈ handleSpawn handlers size server client,
        handled.client.reader.buffered.length < size := by
  have isFound := isKept.startSpawn
  unfold handleSpawn
  generalize startSpawn server client.spawning = started at isFound
  obtain ⟨server, spawning⟩ := started
  obtain ⟨pairs, isPairs⟩ := ne_none_iff_exists'.mp isFound
  have isVars : spawnVars server spawning = some (.initial spawning.world.nProcess pairs) :=
    congrArg (Option.map _) isPairs
  obtain ⟨isEnd, laterSmall⟩ := @spawnLoop_eq size _ client.reader
    (.initial spawning.world.nProcess pairs) sizePositive small (Nat.lt_succ_self _)
  dsimp only
  rw [isVars, bind_some, map_eq_none_iff, isEnd]
  refine ⟨(Tracks.initial _ _).endSpawn_eq_none, ?_⟩
  rintro handled isHandled
  obtain ⟨effect, _, rfl⟩ := map_eq_some_iff.mp isHandled
  exact laterSmall

/-- The first line of a text is a spawn command, and the lines behind it misuse the
arrays. -/
def InputMisuses
    (text : List Char) : Prop :=
  getCommand (parseKeyvals (cString (cutLine (maxLine - 1) text).1)).2 = "spawn".toList ∧
    Misuses [] (blockLines (cutLine (maxLine - 1) text).2)

theorem handleInput_eq_none
    (sizePositive : 0 < size)
    (small : client.reader.buffered.length < size)
    (isKept : SpaceKept server client) :
    (handleInput handlers size server client = none ↔ InputMisuses client.reader.text) ∧
      ∀ handled ∈ handleInput handlers size server client,
        handled.client.reader.buffered.length < size := by
  obtain ⟨later, isRead, isRest, laterSmall⟩ :=
    @Reader.readLine_eq size (maxLine - 1) client.reader sizePositive small
  unfold handleInput InputMisuses
  rw [isRead]
  dsimp only
  split_ifs with isEmpty
  · rw [isEmpty]
    refine ⟨iff_of_false nofun (fun misuses => absurd misuses.1 (by decide)), ?_⟩
    rintro handled ⟨⟩
    exact laterSmall
  · generalize isTab : (parseKeyvals (cString (cutLine (maxLine - 1) client.reader.text).1)).2 = tab
    obtain isSpawn | notSpawn := eq_or_ne (getCommand tab) "spawn".toList
    · have isDispatch : dispatch handlers size tab server { client with reader := later } =
          handleSpawn handlers size server { client with reader := later } := by
        unfold dispatch
        rw [isSpawn]
        rfl
      obtain ⟨isMisuse, isSmall⟩ := @handleSpawn_eq_none _ handlers size server
        { client with reader := later } sizePositive laterSmall isKept
      rw [isDispatch, isMisuse, ← isRest]
      exact ⟨⟨fun misuses => ⟨isSpawn, misuses⟩, fun both => both.2⟩, isSmall⟩
    · obtain ⟨server', written, isDispatch⟩ := dispatch_of_not_spawn handlers server notSpawn
      rw [isDispatch]
      refine ⟨iff_of_false nofun (fun misuses => notSpawn misuses.1), ?_⟩
      rintro handled ⟨⟩
      exact laterSmall

section

variable (handlers : Handlers Other) (size : Nat)

/-- Every call of `PMIServHandleInput` stays within the arrays. -/
def StaysWithin : Nat → Server Other → Client → Prop
  | 0, _, _ => True
  | calls + 1, server, client =>
    ∃ handled, handleInput handlers size server client = some handled ∧
      StaysWithin calls handled.server handled.client

/-- What holds of the server and of what the client has sent at every call. -/
def AtEachCall
    (holds : Server Other → Client → Prop) : Nat → Server Other → Client → Prop
  | 0, _, _ => True
  | calls + 1, server, client =>
    holds server client ∧ ∀ handled ∈ handleInput handlers size server client,
      AtEachCall holds calls handled.server handled.client

end

/-- The calls stay within the arrays exactly when no lines misuse them. -/
theorem staysWithin_iff
    {calls : Nat}
    (sizePositive : 0 < size)
    (small : client.reader.buffered.length < size)
    (areKept : AtEachCall handlers size SpaceKept calls server client) :
    StaysWithin handlers size calls server client ↔
      AtEachCall handlers size (fun _ client => ¬ InputMisuses client.reader.text) calls
        server client := by
  induction calls generalizing server client with
  | zero => exact Iff.rfl
  | succ calls ih =>
    obtain ⟨isKept, laterKept⟩ := areKept
    obtain ⟨isNone, laterSmall⟩ :=
      @handleInput_eq_none _ handlers _ server _ sizePositive small isKept
    unfold StaysWithin AtEachCall
    rw [← isNone]
    cases isHandled : handleInput handlers size server client with
    | none => exact iff_of_false nofun (fun both => both.1 rfl)
    | some handled =>
      have recursion := ih (laterSmall handled isHandled) (laterKept handled isHandled)
      constructor
      · rintro ⟨_, ⟨⟩, staysWithin⟩
        refine ⟨nofun, ?_⟩
        rintro _ ⟨⟩
        exact recursion.mp staysWithin
      · rintro ⟨_, others⟩
        exact ⟨handled, rfl, recursion.mpr (others handled rfl)⟩

end Mpich.Pmi
