import Mpich.Pmi.SpawnBlocks
import Mpich.Pmi.Stored

/-!
# Spawn requests arrive as they are made

A call whose blocks all fit makes the server build its world, and a call whose first block
does not fit leaves the server as it was. A call that gives up between two blocks leaves
the apps of the first ones in the world of the next call.
-/

namespace Mpich.Pmi

open List Option SortedAssoc

variable {pairs : Pairs} {preput : List (List Char × List Char)}

/-- A pair within the lengths of the server. -/
def PairShort
    (pair : List Char × List Char) : Prop :=
  pair.1.length < maxKeyLen ∧ pair.2.length < maxValLen

theorem addPair_of_short
    {pair : List Char × List Char}
    (short : PairShort pair) :
    addPair pairs pair.1 pair.2 = insert pair.1 pair pairs := by
  unfold addPair
  rw [strncpy_fst short.1, strncpy_fst short.2]

section

variable (short : ∀ pair ∈ preput, PairShort pair)

include short

/-- New pairs are all put. -/
theorem putAll_of_new
    (distinct : (preput.map Prod.fst).Nodup)
    (sorted : Sorted pairs)
    (areNew : ∀ pair ∈ preput, find pairs pair.1 = none) :
    Sorted (putAll pairs preput) ∧ (putAll pairs preput).Perm (pairs ++ preput) := by
  induction preput generalizing pairs with
  | nil => exact ⟨sorted, by rw [append_nil]; exact .refl _⟩
  | cons pair rest ih =>
    rw [map_cons, nodup_cons] at distinct
    have isAdded := @addPair_of_short pairs pair (short pair mem_cons_self)
    cases isInserted : insert pair.1 pair pairs with
    | none =>
      have isThere := (insert_eq_none sorted pair).mp isInserted
      exact absurd (areNew pair mem_cons_self) isThere
    | some later =>
      have isLater : putAll pairs (pair :: rest) = putAll later rest := by
        unfold putAll
        rw [foldl_cons, isAdded, isInserted]
        rfl
      obtain ⟨laterSorted, isPerm⟩ := ih
        (fun other member => short other (mem_cons_of_mem _ member)) distinct.2
        (sorted_of_insert sorted isInserted) fun other member => by
          rw [find_insert_of_ne sorted isInserted fun same =>
            distinct.1 (same ▸ mem_map_of_mem member)]
          exact areNew other (mem_cons_of_mem _ member)
      rw [isLater]
      refine ⟨laterSorted, isPerm.trans ?_⟩
      exact ((perm_of_insert isInserted).append_right rest).trans perm_middle.symm

/-- Pairs whose keys are there are not put again. -/
theorem putAll_of_found
    (sorted : Sorted pairs)
    (found : ∀ pair ∈ preput, find pairs pair.1 ≠ none) :
    putAll pairs preput = pairs := by
  induction preput with
  | nil => rfl
  | cons pair rest ih =>
    have isRefused := (insert_eq_none sorted pair).mpr (found pair mem_cons_self)
    unfold putAll
    rw [foldl_cons, addPair_of_short (short pair mem_cons_self), isRefused]
    exact ih
      (fun other member => short other (mem_cons_of_mem _ member))
      fun other member => found other (mem_cons_of_mem _ member)

/-- The pairs of a call are put once, by its first block. -/
theorem putAll_putAll
    (distinct : (preput.map Prod.fst).Nodup) :
    putAll (putAll [] preput) preput = putAll [] preput ∧ (putAll [] preput).Perm preput := by
  obtain ⟨sorted, isPerm⟩ := putAll_of_new short distinct List.Pairwise.nil fun _ _ => rfl
  refine ⟨putAll_of_found short sorted fun pair member => ?_, isPerm⟩
  have isFound := (find_eq_some sorted).mpr (isPerm.mem_iff.mpr member)
  rw [isFound]
  exact some_ne_none _

end

theorem decimal_injective
    {number other : Nat}
    (same : NulText.decimal number = NulText.decimal other) :
    number = other := by
  have isNumber := NulText.atoi_decimal number
  rw [same, NulText.atoi_decimal other] at isNumber
  exact Int.ofNat.inj isNumber.symm

/-- Spaces that are allocated one after the other have different names. -/
theorem allocatedName_injective
    {pid number other : Nat}
    (pidInt : pid < 2 ^ 31)
    (numberInt : number < 2 ^ 31)
    (otherInt : other < 2 ^ 31)
    (same : allocatedName pid number = allocatedName pid other) :
    number = other := by
  have short (value : Nat) (isInt : value < 2 ^ 31) : (NulText.decimal value).length ≤ 10 := by
    apply (Nat.length_toDigits_le_iff (by decide) (by decide)).mpr
    omega
  have isName (value : Nat) (isInt : value < 2 ^ 31) : allocatedName pid value =
      ("kvs_".toList ++ NulText.decimal pid ++ "_".toList) ++ NulText.decimal value := by
    have shortPid := short pid pidInt
    have shortValue := short value isInt
    apply snprintf_of_fits
    unfold maxKvsName
    simp
    omega
  rw [isName number numberInt, isName other otherInt] at same
  exact decimal_injective (append_cancel_left same)

variable {Other : Type*} {handlers : Handlers Other} {size : Nat}
  {server now later : Server Other} {spawning : Spawning} {call : SpawnCall}
  {command : SpawnCommand} {kvsname : List Char} {count : Nat}

/-- The worlds are known by their names, and no space has a name that is still to be
allocated. -/
structure Server.Ready
    (server : Server Other) : Prop where
  pidInt : server.pid < 2 ^ 31
  sorted : Sorted server.kvSpaces
  fresh : ∀ number, server.kvsnum ≤ number → number < 2 ^ 31 →
    allocatedName server.pid number ∉ server.kvSpaces.map Prod.fst

/-- The world with the first apps of a call. -/
def SpawnCall.partWorld
    (call : SpawnCall)
    (count worldNum : Nat) : World where
  apps := (call.commands.take count).mapIdx SpawnCommand.app
  nProcess := ((call.commands.take count).map SpawnCommand.maxprocs).sum.bmod (2 ^ 32)
  nApps := count
  worldNum := worldNum

/-- Some commands of a call have been handled since the state in which it was made. -/
structure Progress
    (call : SpawnCall)
    (server : Server Other)
    (kvsname : List Char)
    (count : Nat)
    (now : Server Other)
    (spawning : Spawning) : Prop where
  isSpawning : spawning = ⟨call.partWorld count server.nWorlds, kvsname⟩
  isServer : now = { server with
    kvSpaces := now.kvSpaces
    kvsnum := server.kvsnum + 1
    nWorlds := server.nWorlds + 1 }
  names : now.kvSpaces.map Prod.fst = (insertSpace kvsname server.kvSpaces).map Prod.fst
  pairs : ∃ pairs, findSpace now.kvSpaces kvsname = some pairs ∧
    putAll pairs call.preput = putAll [] call.preput
  others : ∀ other, other ≠ kvsname → findSpace now.kvSpaces other = findSpace server.kvSpaces other

/-- Nothing has been handled when the world and its space are there. -/
theorem Progress.zero
    (call : SpawnCall)
    (ready : server.Ready)
    (room : server.kvsnum < 2 ^ 31) :
    Progress call server (allocatedName server.pid server.kvsnum) 0
      (startSpawn server none).1 (startSpawn server none).2 := by
  have notThere := ready.fresh server.kvsnum (le_refl _) room
  have isInserted := @insertSpace_eq (allocatedName server.pid server.kvsnum) server.kvSpaces
    fun space member same => notThere (same ▸ mem_map_of_mem member)
  refine ⟨rfl, rfl, rfl, ⟨[], ?_, rfl⟩, fun other differs => ?_⟩
  · exact find_insert_self ready.sorted isInserted
  · exact find_insert_of_ne ready.sorted isInserted differs

theorem partWorld_succ
    (isCommand : call.commands[count]? = some command)
    (worldNum : Nat) :
    call.partWorld (count + 1) worldNum =
      { apps := (call.partWorld count worldNum).apps ++ [command.app count]
        nProcess := ((call.partWorld count worldNum).nProcess + command.maxprocs).bmod (2 ^ 32)
        nApps := (call.partWorld count worldNum).nApps + 1
        worldNum := worldNum } := by
  obtain ⟨isPlace, _⟩ := List.getElem?_eq_some_iff.mp isCommand
  have isLength : (call.commands.take count).length = count := by
    rw [length_take]
    omega
  unfold SpawnCall.partWorld
  rw [take_add_one, isCommand, toList_some, mapIdx_concat, isLength,
    map_append, sum_append, map_singleton, sum_singleton, Int.bmod_add_bmod]

/-- What the spawner of the server says of a world. -/
def Handlers.spawned
    (handlers : Handlers Other)
    (world : World) : Int :=
  match handlers.userSpawner with
  | some userSpawner => userSpawner world
  | none => 1

/-- What the server does with the block of the next command. -/
theorem Progress.block
    (progress : Progress call server kvsname count now spawning)
    (valid : call.Valid)
    (isCommand : call.commands[count]? = some command)
    (fits : (call.blockText count command).length < maxLine) :
    ∃ spaces, Progress call server kvsname (count + 1) { now with kvSpaces := spaces }
        ⟨call.partWorld (count + 1) server.nWorlds, kvsname⟩ ∧
      findSpace spaces kvsname = some (putAll [] call.preput) ∧
      blockEffect handlers (call.lines count command) now (some spawning) =
        if count + 1 = call.commands.length then
          some ({ now with
            kvSpaces := spaces
            groups := now.groups ++
              [((call.partWorld (count + 1) server.nWorlds).nProcess, kvsname)]
            worlds := now.worlds ++ [call.partWorld (count + 1) server.nWorlds] }, none,
            [writeline (snprintf maxLine ("cmd=spawn_result rc=".toList ++
              showInt (handlers.spawned (call.partWorld (count + 1) server.nWorlds)) ++
                "\n".toList))])
        else
          some ({ now with kvSpaces := spaces },
            some ⟨call.partWorld (count + 1) server.nWorlds, kvsname⟩, []) := by
  obtain ⟨rfl, isServer, names, ⟨pairs, isFound, isPut⟩, others⟩ := progress
  obtain ⟨isPlace, _⟩ := List.getElem?_eq_some_iff.mp isCommand
  have validCommand := valid.commands command (mem_of_getElem? isCommand)
  obtain ⟨putTwice, _⟩ := putAll_putAll (fun pair member => (valid.preput pair member).2.2)
    valid.distinct
  obtain ⟨last, isLast, isApp, isProcesses, isPairs, isTotal, isNumber⟩ :=
    spawnLines_block valid validCommand isPlace fits
      (call.partWorld count server.nWorlds).nProcess pairs
  rw [isPut] at isPairs
  have isStored : findSpace (modify kvsname (fun _ => last.pairs) now.kvSpaces)
      kvsname = some last.pairs :=
    (find_modify_self _).trans (congrArg (Option.map _) isFound)
  refine ⟨modify kvsname (fun _ => last.pairs) now.kvSpaces, ?_,
    isStored.trans (congrArg some isPairs), ?_⟩
  · refine ⟨rfl, ?_, ?_, ⟨last.pairs, isStored, ?_⟩, fun other differs => ?_⟩
    · exact congrArg (fun server : Server Other => { server with
        kvSpaces := modify kvsname (fun _ => last.pairs) now.kvSpaces }) isServer
    · exact (fst_modify _ _ _).trans names
    · rw [isPairs, putTwice]
    · exact (find_modify_of_ne differs _).trans (others other differs)
  · have isVars : spawnVars now ⟨call.partWorld count server.nWorlds, kvsname⟩ =
        some (.initial (call.partWorld count server.nWorlds).nProcess pairs) :=
      congrArg (Option.map _) isFound
    have isWorld := partWorld_succ isCommand server.nWorlds
    rw [← isProcesses] at isWorld
    have isEffect : blockEffect handlers (call.lines count command) now
        (some ⟨call.partWorld count server.nWorlds, kvsname⟩) =
          (endSpawn handlers now ⟨call.partWorld count server.nWorlds, kvsname⟩
            (.done last)).map fun effect =>
              (effect.1, effect.2.1, effect.2.2.map writeline) := by
      unfold blockEffect startSpawn
      dsimp only
      rw [isVars, bind_some, isLast, bind_some]
    have isEnd : endSpawn handlers now ⟨call.partWorld count server.nWorlds, kvsname⟩
        (.done last) = some (finishSpawn handlers now
          ⟨call.partWorld count server.nWorlds, kvsname⟩ last (command.app count)) := by
      change last.finished.map _ = _
      rw [isApp]
      rfl
    rw [isEffect, isEnd, map_some, isWorld]
    unfold finishSpawn
    split_ifs with isEnd isLength
    · rfl
    · omega
    · omega
    · rfl

/-- The server when all commands of a call have been handled. -/
structure Finished
    (call : SpawnCall)
    (server : Server Other)
    (kvsname : List Char)
    (later : Server Other) : Prop where
  isServer : later = { server with
    kvSpaces := later.kvSpaces
    kvsnum := server.kvsnum + 1
    nWorlds := server.nWorlds + 1
    groups := server.groups ++
      [((call.partWorld call.commands.length server.nWorlds).nProcess, kvsname)]
    worlds := server.worlds ++ [call.partWorld call.commands.length server.nWorlds] }
  names : later.kvSpaces.map Prod.fst = (insertSpace kvsname server.kvSpaces).map Prod.fst
  pairs : findSpace later.kvSpaces kvsname = some (putAll [] call.preput)
  others : ∀ other, other ≠ kvsname →
    findSpace later.kvSpaces other = findSpace server.kvSpaces other

theorem serve_of_idle
    {client : Client}
    (idle : client.reader.text = [])
    (fuel : Nat)
    (server : Server Other) :
    serve handlers size fuel server client = some (server, client, []) := by
  cases fuel with
  | zero => rfl
  | succ fuel => exact if_pos (append_eq_nil_iff.mp idle).2

theorem blockEffect_started
    (block : List (List Char))
    (server : Server Other)
    (spawning : Option Spawning) :
    blockEffect handlers block server spawning =
      blockEffect handlers block (startSpawn server spawning).1
        (some (startSpawn server spawning).2) := by
  cases spawning with
  | none => rfl
  | some spawning => rfl

/-- The answer of the server to a call. -/
def Handlers.reply
    (handlers : Handlers Other)
    (world : World) : List Char :=
  writeline (snprintf maxLine ("cmd=spawn_result rc=".toList ++
    showInt (handlers.spawned world) ++ "\n".toList))

/-- The blocks that are still to be handled are handled one after the other. -/
theorem Progress.serve
    {rest : List SpawnCommand} {fuel : Nat} {client : Client}
    (valid : call.Valid)
    (fits : call.Fits)
    (sizePositive : 0 < size)
    (sizeSmall : size ≤ 7)
    (isRest : call.commands.drop count = rest)
    (nonempty : rest ≠ [])
    (isText : client.reader.text = (call.writeBlocks count rest).1.flatten)
    (small : client.reader.buffered.length < size)
    (enough : rest.length ≤ fuel)
    (progress : Progress call server kvsname count (startSpawn now client.spawning).1
      (startSpawn now client.spawning).2) :
    ∃ later reader, serve handlers size fuel now client = some (later, ⟨reader, none⟩,
          [handlers.reply (call.partWorld call.commands.length server.nWorlds)]) ∧
      reader.text = [] ∧ reader.buffered.length < size ∧ Finished call server kvsname later := by
  induction rest generalizing count now client fuel with
  | nil => exact absurd rfl nonempty
  | cons command rest ih =>
    obtain ⟨fuel, rfl⟩ := Nat.exists_eq_succ_of_ne_zero (ne_of_gt (Nat.zero_lt_of_lt enough))
    have isCommand : call.commands[count]? = some command := by
      rw [← add_zero count, ← getElem?_drop, isRest]
      rfl
    have isNext : call.commands.drop (count + 1) = rest := by
      rw [← tail_drop, isRest]
      rfl
    obtain ⟨isPlace, _⟩ := List.getElem?_eq_some_iff.mp isCommand
    have blockFits := fits count command isCommand
    have validCommand := valid.commands command (mem_of_getElem? isCommand)
    have isTextCommand : client.reader.text =
        (SpawnCall.blockCommand valid validCommand isPlace blockFits).text ++
          (call.writeBlocks (count + 1) rest).1.flatten := by
      rw [isText, SpawnCall.writeBlocks_cons blockFits, text_blockCommand, flatten_cons]
    have readable : client.reader.socket.unread ≠ [] := by
      intro isEmpty
      have isLength := congrArg length isTextCommand
      rw [text_blockCommand, SpawnCall.blockText_eq] at isLength
      unfold Reader.text at isLength
      rw [isEmpty] at isLength
      simp only [length_append, length_cons, length_nil] at isLength
      have isWord : "mcmd=spawn".toList.length = 10 := rfl
      omega
    obtain ⟨isEffect, areRest⟩ := @handleInput_of_text _ handlers size now client _
      (SpawnCall.blockCommand valid validCommand isPlace blockFits) sizePositive
      isTextCommand small
    have isBlock : (handleInput handlers size now client).map Handled.effect =
        blockEffect handlers (call.lines count command) (startSpawn now client.spawning).1
          (some (startSpawn now client.spawning).2) :=
      isEffect.trans (blockEffect_started _ _ _)
    obtain ⟨spaces, later, isPairs, isEnd⟩ :=
      @Progress.block _ handlers _ _ _ _ _ _ _ progress valid isCommand blockFits
    rw [isEnd] at isBlock
    unfold Mpich.Pmi.serve
    rw [if_neg readable]
    split_ifs at isBlock with isLast
    · obtain ⟨handled, isHandled, handledEffect⟩ := map_eq_some_iff.mp isBlock
      obtain ⟨isServer, effect⟩ := Prod.mk.inj handledEffect
      obtain ⟨isSpawning, isWritten⟩ := Prod.mk.inj effect
      obtain ⟨noText, laterSmall⟩ := areRest handled isHandled
      obtain rfl : rest = [] := by
        rw [← isNext, drop_eq_nil_iff]
        omega
      rw [isHandled, bind_some, serve_of_idle noText]
      refine ⟨handled.server, handled.client.reader, ?_, noText, laterSmall, ?_⟩
      · rw [← isLast, ← isSpawning, isWritten]
        rfl
      · refine ⟨?_, ?_, ?_, ?_⟩
        · rw [isServer, ← isLast]
          exact congrArg (fun base : Server Other => { base with
            groups := base.groups ++
              [((call.partWorld (count + 1) server.nWorlds).nProcess, kvsname)]
            worlds := base.worlds ++ [call.partWorld (count + 1) server.nWorlds] })
            later.isServer
        · rw [isServer]
          exact later.names
        · rw [isServer]
          exact isPairs
        · rw [isServer]
          exact later.others
    · obtain ⟨handled, isHandled, handledEffect⟩ := map_eq_some_iff.mp isBlock
      obtain ⟨isServer, effect⟩ := Prod.mk.inj handledEffect
      obtain ⟨isSpawning, isWritten⟩ := Prod.mk.inj effect
      obtain ⟨isLaterText, laterSmall⟩ := areRest handled isHandled
      rw [← isServer] at later
      have others : rest ≠ [] := by
        rintro rfl
        rw [drop_eq_nil_iff] at isNext
        omega
      obtain ⟨final, reader, isServed, rest⟩ := ih isNext others
        isLaterText laterSmall (Nat.le_of_succ_le_succ enough) (by
          rw [isSpawning]
          exact later)
      refine ⟨final, reader, ?_, rest⟩
      rw [isHandled, bind_some, isServed, map_some, isWritten]
      rfl

variable (finished : Finished call server (allocatedName server.pid server.kvsnum) later)

include finished in
/-- The name of the new space is not allocated again. -/
theorem Finished.ready
    (ready : server.Ready)
    (room : server.kvsnum < 2 ^ 31) :
    later.Ready := by
  have notThere := ready.fresh server.kvsnum (le_refl _) room
  have isInserted := @insertSpace_eq (allocatedName server.pid server.kvsnum) server.kvSpaces
    fun space member same => notThere (same ▸ mem_map_of_mem member)
  have isPid : later.pid = server.pid := by rw [finished.isServer]
  have isNumber : later.kvsnum = server.kvsnum + 1 := by rw [finished.isServer]
  refine ⟨?_, ?_, ?_⟩
  · rw [isPid]
    exact ready.pidInt
  · exact (sorted_of_insert ready.sorted isInserted).of_fst finished.names
  · rw [isPid, isNumber, finished.names]
    intro number isLater isInt member
    obtain ⟨space, isSpace, isName⟩ := mem_map.mp member
    rcases (mem_of_insert isInserted space).mp isSpace with rfl | old
    · have same := allocatedName_injective ready.pidInt room isInt isName
      omega
    · exact ready.fresh number (by omega) isInt (mem_map.mpr ⟨space, old, isName⟩)

include finished in
/-- What has been finished has arrived. -/
theorem Finished.arrived
    (valid : call.Valid)
    (total : IsInt call.total)
    (ready : server.Ready)
    (room : server.kvsnum < 2 ^ 31) :
    Arrived call server later := by
  have isTotal : (call.partWorld call.commands.length server.nWorlds).nProcess = call.total := by
    obtain ⟨lower, upper⟩ := total
    unfold SpawnCall.total at lower upper
    unfold SpawnCall.partWorld SpawnCall.total
    rw [take_length]
    apply Int.bmod_eq_of_le
    · omega
    · omega
  have isWorld : call.partWorld call.commands.length server.nWorlds =
      call.world server.nWorlds := by
    unfold SpawnCall.world
    rw [← isTotal]
    unfold SpawnCall.partWorld
    rw [take_length]
  obtain ⟨_, isPerm⟩ := putAll_putAll (fun pair member => (valid.preput pair member).2.2)
    valid.distinct
  refine ⟨?_, allocatedName server.pid server.kvsnum, putAll [] call.preput, ?_, ?_,
    finished.pairs, isPerm, finished.others⟩
  · rw [finished.isServer, isWorld]
  · rw [finished.isServer, isTotal]
  · cases isFound : findSpace server.kvSpaces (allocatedName server.pid server.kvsnum) with
    | none => rfl
    | some pairs =>
      have member := (find_eq_some ready.sorted).mp isFound
      exact absurd (mem_map_of_mem member) (ready.fresh server.kvsnum (le_refl _) room)

/-- An answer is a line that fits in a buffer, or there is none. -/
theorem reply_cases
    (handlers : Handlers Other)
    (world : World) :
    handlers.reply world = [] ∨ ∃ line, handlers.reply world = line ++ '\n' :: [] ∧
      '\n' ∉ line ∧ line.length < maxLine - 1 := by
  have noNewline : '\n' ∉ "cmd=spawn_result rc=".toList ++ showInt (handlers.spawned world) := by
    rw [mem_append]
    rintro (inName | inNumber)
    · exact absurd inName (by decide)
    · exact not_mem_showInt (by decide) (by decide) inNumber
  unfold Handlers.reply
  generalize "cmd=spawn_result rc=".toList ++ showInt (handlers.spawned world) = line at *
  by_cases fits : line.length + 1 < maxLine
  · right
    refine ⟨line, ?_, noNewline, by omega⟩
    rw [show "\n".toList = ['\n'] from rfl, snprintf_of_fits]
    · exact writeline_of_isLine ⟨noNewline, fits⟩
    · rw [length_append]
      exact fits
  · left
    have isCut : snprintf maxLine (line ++ "\n".toList) = line.take (maxLine - 1) := by
      unfold snprintf
      rw [take_append_of_le_length (by omega)]
    have isEnd : (line.take (maxLine - 1)).getLast? ≠ some '\n' := by
      intro isNewline
      exact noNewline (mem_of_mem_take (mem_of_getLast? isNewline))
    unfold writeline
    rw [isCut, if_neg, if_pos isEnd]
    rw [length_take]
    omega

/-- Between two calls nothing is on the way and no spawn is in progress. -/
structure Between
    (size : Nat)
    (server : Server Other)
    (link : Link) : Prop where
  ready : server.Ready
  idle : link.Idle size
  notSpawning : link.client.spawning = none

variable {link : Link}

/-- A line that has come is read whole, and nothing is read when none has come. -/
theorem readLine_reply
    {reader : Reader} {reply : List Char}
    (noText : reader.text = [])
    (small : reader.buffered.length < 1023)
    (isReply : reply = [] ∨ ∃ line, reply = line ++ '\n' :: [] ∧ '\n' ∉ line ∧
      line.length < maxLine - 1) :
    ∃ later, (reader.receive reply).readLine 1023 (maxLine - 1) = (reply, later) ∧
      later.text = [] ∧ later.buffered.length < 1023 := by
  have isText : (reader.receive reply).text = reply := by
    rw [text_receive, noText, nil_append]
  rcases isReply with rfl | ⟨line, rfl, noNewline, fits⟩
  · obtain ⟨later, isRead, isRest, laterSmall⟩ := @Reader.readLine_eq 1023 (maxLine - 1)
      (reader.receive []) (by decide) small
    rw [isText] at isRead isRest
    exact ⟨later, isRead, isRest, laterSmall⟩
  · exact Reader.readLine_of_text (by decide) isText noNewline fits small

/-- A call whose blocks all fit arrives. -/
theorem spawnMultiple_of_fits
    (sizePositive : 0 < size)
    (sizeSmall : size ≤ 7)
    (valid : call.Valid)
    (fits : call.Fits)
    (total : IsInt call.total)
    (nonempty : call.commands ≠ [])
    (between : Between size server link)
    (room : server.kvsnum < 2 ^ 31) :
    ∃ done, spawnMultiple handlers size call server link = some done ∧
      Arrived call server done.server ∧ Between size done.server done.link ∧
      done.server.kvsnum = server.kvsnum + 1 := by
  obtain ⟨ready, idle, notSpawning⟩ := between
  obtain ⟨areWritten, areLong⟩ := SpawnCall.writeBlocks_of_fits fits drop_zero
  have isText : (link.client.reader.receive
      (call.writeBlocks 0 call.commands).1.flatten).text =
        (call.writeBlocks 0 call.commands).1.flatten := by
    rw [text_receive, idle.noRequest, nil_append]
  have started := Progress.zero call ready room
  rw [← notSpawning] at started
  obtain ⟨later, reader, isServed, noText, readerSmall, finished⟩ :=
    @Progress.serve _ handlers size server _ call _ 0 _
      (link.client.reader.receive (call.writeBlocks 0 call.commands).1.flatten).text.length
      { link.client with
        reader := link.client.reader.receive (call.writeBlocks 0 call.commands).1.flatten }
      valid fits sizePositive sizeSmall drop_zero nonempty isText idle.requestSmall
      (by rw [isText]; exact areLong) started
  obtain ⟨replies, isRead, noReply, replySmall⟩ := readLine_reply idle.noReply idle.replySmall
    (reply_cases handlers (call.partWorld call.commands.length server.nWorlds))
  have arrived := finished.arrived valid total ready room
  have isNumber : later.kvsnum = server.kvsnum + 1 := by rw [finished.isServer]
  have laterBetween : Between size later ⟨⟨reader, none⟩, replies⟩ :=
    ⟨finished.ready ready room, ⟨noText, noReply, readerSmall, replySmall⟩, rfl⟩
  unfold spawnMultiple
  dsimp only
  rw [isServed, map_some, areWritten, if_neg (not_not.mpr rfl)]
  rw [flatten_singleton, isRead]
  split_ifs
  · exact ⟨_, rfl, arrived, laterBetween, isNumber⟩
  · exact ⟨_, rfl, arrived, laterBetween, isNumber⟩

/-- A call that writes nothing leaves everything as it was. -/
theorem spawnMultiple_of_nothing
    {isDone : Bool}
    (isNothing : call.writeBlocks 0 call.commands = ([], isDone))
    (between : Between size server link) :
    ∃ done, spawnMultiple handlers size call server link = some done ∧
      done.outcome = (if isDone then .waiting else .returned pmiFail) ∧
      done.server = server ∧ Between size done.server done.link := by
  obtain ⟨ready, idle, notSpawning⟩ := between
  have noRequest : (link.client.reader.receive []).text = [] := by
    rw [text_receive, idle.noRequest]
    rfl
  have noReply : (link.replies.receive []).text = [] := by
    rw [text_receive, idle.noReply]
    rfl
  obtain ⟨replies, isRead, noLater, laterSmall⟩ :=
    readLine_reply idle.noReply idle.replySmall (.inl rfl)
  unfold spawnMultiple
  rw [isNothing]
  dsimp only
  rw [flatten_nil, serve_of_idle noRequest, map_some]
  rw [flatten_nil]
  cases isDone with
  | false =>
    exact ⟨_, rfl, rfl, rfl, ready, ⟨noRequest, noReply, idle.requestSmall, idle.replySmall⟩,
      notSpawning⟩
  | true =>
    rw [if_neg (not_not.mpr rfl), isRead]
    exact ⟨_, rfl, rfl, rfl, ready, ⟨noRequest, noLater, idle.requestSmall, laterSmall⟩,
      notSpawning⟩

/-- What a call may be for what it asks for to arrive: its blocks all fit and its processes
can be counted, or its first block does not fit. -/
def SpawnCall.Meets
    (call : SpawnCall) : Prop :=
  call.Fits ∧ IsInt call.total ∨ call.FailsAtOnce

/-- One call after the other. -/
theorem spawnsArrive_of_meets
    {calls : List SpawnCall}
    (sizePositive : 0 < size)
    (sizeSmall : size ≤ 7)
    (valid : ∀ call ∈ calls, call.Valid)
    (meets : ∀ call ∈ calls, call.Meets)
    (between : Between size server link)
    (room : server.kvsnum + calls.length ≤ 2 ^ 31) :
    SpawnsArrive handlers size calls server link := by
  induction calls generalizing server link with
  | nil => exact trivial
  | cons call rest ih =>
    have validRest := fun other member => valid other (mem_cons_of_mem call member)
    have meetsRest := fun other member => meets other (mem_cons_of_mem call member)
    rw [length_cons] at room
    rcases meets call mem_cons_self with ⟨fits, total⟩ | fails
    · obtain isEmpty | nonempty := eq_or_ne call.commands []
      · have isNothing : call.writeBlocks 0 call.commands = ([], true) := by rw [isEmpty]; rfl
        obtain ⟨done, isDone, isOutcome, _⟩ :=
          @spawnMultiple_of_nothing _ handlers _ _ _ _ _ isNothing between
        refine ⟨done, isDone, fun isReturned => ?_, absurd fits, fun notWaiting => ?_⟩
        · rw [isReturned] at isOutcome
          cases isOutcome
        · exact absurd isOutcome notWaiting
      · obtain ⟨done, isDone, arrived, laterBetween, isNumber⟩ :=
          @spawnMultiple_of_fits _ handlers _ _ _ _ sizePositive sizeSmall
            (valid call mem_cons_self) fits total nonempty between (by omega)
        refine ⟨done, isDone, fun _ => arrived, absurd fits, fun _ => ?_⟩
        apply ih validRest meetsRest laterBetween
        omega
    · obtain ⟨done, isDone, isOutcome, isServer, laterBetween⟩ :=
        @spawnMultiple_of_nothing _ handlers _ _ _ _ _
          (SpawnCall.writeBlocks_of_fails fails) between
      refine ⟨done, isDone, fun isReturned => ?_, fun _ => ⟨isOutcome, isServer⟩, fun _ => ?_⟩
      · rw [isReturned] at isOutcome
        cases isOutcome
      · apply ih validRest meetsRest laterBetween
        rw [isServer]
        omega

/-- A server with nothing in it. -/
def emptyServer : Server Unit where
  kvSpaces := []
  pid := 1
  kvsnum := 0
  nWorlds := 1
  groups := []
  worlds := []
  other := ()

/-- A spawner that always succeeds. -/
def willing : Handlers Unit where
  userSpawner := some fun _ => 0
  other := fun _ => none

def emptyLink : Link where
  client := ⟨⟨[], ⟨[], fun _ => maxLine⟩⟩, none⟩
  replies := ⟨[], ⟨[], fun _ => maxLine⟩⟩

/-- One command. -/
def spawnOne : SpawnCall where
  commands := [⟨"c".toList, [], 1, []⟩]
  preput := []

/-- Two commands, of which the second one has a name that does not fit in a line. -/
def spawnTwo : SpawnCall where
  commands := [⟨"a".toList, [], 1, []⟩, ⟨replicate 1000 'b', [], 1, []⟩]
  preput := []

theorem valid_spawnOne :
    spawnOne.Valid where
  count := by
    unfold IsInt
    decide
  commands := by
    intro command member
    rw [mem_singleton.mp member]
    exact ⟨⟨by decide, by decide⟩, nofun, ⟨by decide, by decide⟩, nofun⟩
  preput := nofun
  distinct := nodup_nil

theorem fits_spawnOne :
    spawnOne.Fits := by
  intro spawncnt command isCommand
  cases spawncnt with
  | zero =>
    obtain rfl := Option.some.inj isCommand
    decide
  | succ spawncnt => cases isCommand

theorem between_empty :
    Between 7 emptyServer emptyLink where
  ready := ⟨by decide, List.Pairwise.nil, fun _ _ _ => not_mem_nil⟩
  idle := ⟨rfl, rfl, by decide, by decide⟩
  notSpawning := rfl

/-- The first call gives up before its second block, and the second one is told that it has
succeeded when a world of two apps has been built. -/
theorem spawnTwo_spawnOne :
    ((spawnMultiple willing 7 spawnTwo emptyServer emptyLink).bind fun done =>
      (spawnMultiple willing 7 spawnOne done.server done.link).map fun last =>
        (done.outcome, last.outcome, done.server.worlds.length,
          last.server.worlds.map World.nApps)) =
      some (.returned pmiFail, .returned 0, 0, [2]) := by decide +kernel

theorem valid_spawnTwo :
    spawnTwo.Valid where
  count := by
    unfold IsInt
    decide
  commands := by
    intro command member
    have longText : IsText (replicate 1000 'b') :=
      ⟨fun isNul => absurd (eq_of_mem_replicate isNul) (by decide),
        fun isNewline => absurd (eq_of_mem_replicate isNewline) (by decide)⟩
    rcases mem_cons.mp member with rfl | member
    · exact ⟨⟨by decide, by decide⟩, nofun, ⟨by decide, by decide⟩, nofun⟩
    · rw [mem_singleton.mp member]
      exact ⟨longText, nofun, ⟨by decide, by decide⟩, nofun⟩
  preput := nofun
  distinct := nodup_nil

end Mpich.Pmi
