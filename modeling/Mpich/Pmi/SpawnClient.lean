import Mpich.Pmi.Cut

/-!
# Spawning

A client writes one block for each command of a spawn call, and waits for the answer when
all of them are written. A block that does not fit in a line buffer ends the call.
-/

namespace Mpich.Pmi

/-- What `PMI_Spawn_multiple` is given for one command. -/
structure SpawnCommand where
  cmd : List Char
  argv : List (List Char)
  maxprocs : Int
  info : List (List Char × List Char)

/-- A call of `PMI_Spawn_multiple`. -/
structure SpawnCall where
  commands : List SpawnCommand
  preput : List (List Char × List Char)

namespace SpawnCall

/-- The text with which `buf` starts. -/
def start
    (command : SpawnCommand) : List Char :=
  "mcmd=spawn\nnprocs=".toList ++ showInt command.maxprocs ++ "\nexecname=".toList ++
    command.cmd ++ "\n".toList

/-- The texts of a key and a value with their number. -/
def keyvalTexts
    (keyName valName : List Char)
    (number : Nat)
    (pair : List Char × List Char) : List (List Char) :=
  [keyName ++ showInt number ++ "=".toList ++ pair.1 ++ "\n".toList,
    valName ++ showInt number ++ "=".toList ++ pair.2 ++ "\n".toList]

/-- The texts that are appended to `buf`, in their order. -/
def pieces
    (call : SpawnCall)
    (spawncnt : Nat)
    (command : SpawnCommand) : List (List Char) :=
  ["totspawns=".toList ++ showInt call.commands.length ++ "\nspawnssofar=".toList ++
    showInt (spawncnt + 1) ++ "\n".toList] ++
  command.argv.mapIdx (fun number value =>
    "arg".toList ++ showInt (number + 1) ++ "=".toList ++ value ++ "\n".toList) ++
  ["argcnt=".toList ++ showInt command.argv.length ++ "\n".toList] ++
  ["preput_num=".toList ++ showInt call.preput.length ++ "\n".toList] ++
  (call.preput.mapIdx (keyvalTexts "preput_key_".toList "preput_val_".toList)).flatten ++
  ["info_num=".toList ++ showInt command.info.length ++ "\n".toList] ++
  (command.info.mapIdx (keyvalTexts "info_key_".toList "info_val_".toList)).flatten ++
  ["endcmd\n".toList]

/-- `buf` when it is written; `none` when something does not fit in it. -/
def buf
    (call : SpawnCall)
    (spawncnt : Nat)
    (command : SpawnCommand) : Option (List Char) :=
  (call.pieces spawncnt command).foldlM
    (fun buf piece => strnapp buf (snprintf maxLine piece) maxLine)
    (snprintf maxLine (start command))

/-- The loop of `PMI_Spawn_multiple`: what is written, and whether all commands are. -/
def writeBlocks
    (call : SpawnCall) : Nat → List SpawnCommand → List (List Char) × Bool
  | _, [] => ([], true)
  | spawncnt, command :: rest =>
    match call.buf spawncnt command with
    | none => ([], false)
    | some buf =>
      (writeline buf :: (call.writeBlocks (spawncnt + 1) rest).1,
        (call.writeBlocks (spawncnt + 1) rest).2)

end SpawnCall

/-- How a call ends: it returns a value, or it waits for an answer that does not come. -/
inductive SpawnOutcome
  | returned (rc : Int)
  | waiting
  deriving DecidableEq

/-- What is left behind by a call. -/
structure SpawnDone (Other : Type*) where
  outcome : SpawnOutcome
  server : Server Other
  link : Link

/-- What `PMI_Spawn_multiple` makes of the line that it has read. -/
def spawnResult
    (recvbuf : List Char) : Int :=
  let tab := (parseKeyvals (cString recvbuf)).2
  if (getval "cmd".toList maxLine tab).1 ≠ "spawn_result".toList then -1
  else if atoi (getval "rc".toList maxLine tab).1 ≠ 0 then -1
  else 0

section

variable {Other : Type*} (handlers : Handlers Other) (size : Nat)

/-- The event loop as long as there is something to read, with all that it writes. -/
def serve : Nat → Server Other → Client → Option (Server Other × Client × List (List Char))
  | 0, server, client => some (server, client, [])
  | fuel + 1, server, client =>
    if client.reader.socket.unread = [] then some (server, client, [])
    else
      (handleInput handlers size server client).bind fun handled =>
        (serve fuel handled.server handled.client).map fun (server, client, written) =>
          (server, client, handled.written ++ written)

/-- `PMI_Spawn_multiple`, and what the server does meanwhile; `none` if the server misuses
its memory. A line that does not end has not come to its end yet. -/
def spawnMultiple
    (call : SpawnCall)
    (server : Server Other)
    (link : Link) : Option (SpawnDone Other) :=
  let (blocks, isDone) := call.writeBlocks 0 call.commands
  let client := { link.client with reader := link.client.reader.receive blocks.flatten }
  (serve handlers size client.reader.text.length server client).map
    fun (server, client, written) =>
      let replies := link.replies.receive written.flatten
      if ¬ isDone then ⟨.returned pmiFail, server, ⟨client, replies⟩⟩
      else
        let (recvbuf, replies) := replies.readLine 1023 (maxLine - 1)
        if '\n' ∉ recvbuf ∧ recvbuf.length < maxLine - 1 then
          ⟨.waiting, server, ⟨client, replies⟩⟩
        else ⟨.returned (spawnResult recvbuf), server, ⟨client, replies⟩⟩

end

namespace SpawnCall

/-- The text of a block. -/
def blockText
    (call : SpawnCall)
    (spawncnt : Nat)
    (command : SpawnCommand) : List Char :=
  start command ++ (call.pieces spawncnt command).flatten

/-- The text of each command fits in a line buffer. -/
def Fits
    (call : SpawnCall) : Prop :=
  ∀ spawncnt command, call.commands[spawncnt]? = some command →
    (call.blockText spawncnt command).length < maxLine

/-- The text of the first command does not fit. -/
def FailsAtOnce
    (call : SpawnCall) : Prop :=
  ∃ command, call.commands[0]? = some command ∧ maxLine ≤ (call.blockText 0 command).length

/-- The number of processes. -/
def total
    (call : SpawnCall) : Int :=
  (call.commands.map SpawnCommand.maxprocs).sum

end SpawnCall

/-- A C string in a line. -/
def IsText
    (text : List Char) : Prop :=
  nul ∉ text ∧ '\n' ∉ text

/-- A number that an `int` holds. -/
def IsInt
    (number : Int) : Prop :=
  -2 ^ 31 ≤ number ∧ number < 2 ^ 31

/-- The strings are without newlines, and the keys and values are within the lengths of
the server. -/
structure SpawnCommand.Valid
    (command : SpawnCommand) : Prop where
  cmd : IsText command.cmd
  argv : ∀ arg ∈ command.argv, IsText arg
  maxprocs : IsInt command.maxprocs
  info : ∀ pair ∈ command.info, IsText pair.1 ∧ IsText pair.2 ∧
    pair.1.length < maxInfoKey ∧ pair.2.length < maxInfoVal

structure SpawnCall.Valid
    (call : SpawnCall) : Prop where
  count : IsInt call.commands.length
  commands : ∀ command ∈ call.commands, command.Valid
  preput : ∀ pair ∈ call.preput, IsText pair.1 ∧ IsText pair.2 ∧
    pair.1.length < maxKeyLen ∧ pair.2.length < maxValLen
  distinct : (call.preput.map Prod.fst).Nodup

/-- The app of a command, to which each of its info pairs has been applied. -/
def SpawnCommand.app
    (appNum : Nat)
    (command : SpawnCommand) : App :=
  command.info.foldl (fun app pair => app.infoKey pair.1 pair.2)
    { App.initial with
      myAppNum := appNum
      exename := some command.cmd
      args := command.argv.map some
      nArgs := command.argv.length
      nProcess := command.maxprocs }

/-- The world of a call. -/
def SpawnCall.world
    (call : SpawnCall)
    (worldNum : Nat) : World where
  apps := call.commands.mapIdx SpawnCommand.app
  nProcess := call.total
  nApps := call.commands.length
  worldNum := worldNum

variable {Other : Type*}

/-- The server has built exactly the world of a call, with a new key-value space for it
that holds exactly the preput pairs. -/
structure Arrived
    (call : SpawnCall)
    (server later : Server Other) : Prop where
  worlds : later.worlds = server.worlds ++ [call.world server.nWorlds]
  space : ∃ kvsname pairs, later.groups = server.groups ++ [(call.total, kvsname)] ∧
    findSpace server.kvSpaces kvsname = none ∧
    findSpace later.kvSpaces kvsname = some pairs ∧ pairs.Perm call.preput ∧
    ∀ other, other ≠ kvsname → findSpace later.kvSpaces other = findSpace server.kvSpaces other

/-- The calls of a client one after the other: what has succeeded has arrived, and a call
whose text does not fit fails and leaves the server as it was. -/
def SpawnsArrive
    (handlers : Handlers Other)
    (size : Nat) : List SpawnCall → Server Other → Link → Prop
  | [], _, _ => True
  | call :: rest, server, link =>
    ∃ done, spawnMultiple handlers size call server link = some done ∧
      (done.outcome = .returned 0 → Arrived call server done.server) ∧
      (¬ call.Fits → done.outcome = .returned pmiFail ∧ done.server = server) ∧
      (done.outcome ≠ .waiting → SpawnsArrive handlers size rest done.server done.link)

end Mpich.Pmi

/-!
## The text of a spawn call

The block of a command is written when its text fits in a line buffer. Its lines are names
with values, up to the line `endcmd`.
-/

namespace Mpich.Pmi

open List

theorem map_mapIdx
    {Input Middle Output : Type*}
    (number : Nat → Input → Middle)
    (change : Middle → Output)
    (inputs : List Input) :
    (inputs.mapIdx number).map change =
      inputs.mapIdx fun index input => change (number index input) := by
  rw [mapIdx_eq_zipIdx_map, mapIdx_eq_zipIdx_map, map_map]
  rfl

/-- Texts that are appended to a text that fits. -/
theorem foldlM_strnapp
    {dest : List Char} {pieces : List (List Char)}
    (fits : dest.length < maxLine)
    (destNonempty : dest ≠ [])
    (nonempty : ∀ piece ∈ pieces, piece ≠ []) :
    pieces.foldlM (fun buf piece => strnapp buf (snprintf maxLine piece) maxLine) dest =
      if (dest ++ pieces.flatten).length < maxLine then some (dest ++ pieces.flatten)
      else none := by
  induction pieces generalizing dest with
  | nil =>
    rw [flatten_nil, append_nil, if_pos fits]
    rfl
  | cons piece rest ih =>
    have destPositive := length_pos_of_ne_nil destNonempty
    have piecePositive := length_pos_of_ne_nil (nonempty piece mem_cons_self)
    rw [foldlM_cons, flatten_cons, ← append_assoc]
    by_cases pieceFits : dest.length + piece.length < maxLine
    · have isCopied : snprintf maxLine piece = piece := snprintf_of_fits (by omega)
      have isAppended : strnapp dest piece maxLine = some (dest ++ piece) :=
        if_pos ⟨by omega, pieceFits⟩
      rw [isCopied, isAppended, Option.bind_eq_bind, Option.bind_some]
      refine ih ?_ ?_ fun other member =>
        nonempty other (mem_cons_of_mem _ member)
      · rw [length_append]
        exact pieceFits
      · exact append_ne_nil_of_left_ne_nil destNonempty _
    · have isRefused : strnapp dest (snprintf maxLine piece) maxLine = none := by
        apply if_neg
        rintro ⟨_, less⟩
        unfold snprintf at less
        rw [length_take] at less
        omega
      rw [isRefused, if_neg]
      · rfl
      · rw [length_append, length_append]
        omega

namespace SpawnCall

variable {call : SpawnCall} {spawncnt : Nat} {command : SpawnCommand}

theorem keyvalTexts_nonempty
    {keyName valName piece : List Char} {number : Nat}
    {pair : List Char × List Char}
    (member : piece ∈ keyvalTexts keyName valName number pair) :
    piece ≠ [] := by
  rcases mem_cons.mp member with rfl | member
  · exact append_ne_nil_of_right_ne_nil _ (by decide)
  · rw [mem_singleton.mp member]
    exact append_ne_nil_of_right_ne_nil _ (by decide)

theorem pieces_nonempty :
    ∀ piece ∈ call.pieces spawncnt command, piece ≠ [] := by
  intro piece member
  unfold pieces at member
  simp only [mem_append, mem_singleton, mem_flatten, mem_mapIdx] at member
  rcases member with ((((((rfl | ⟨_, _, rfl⟩) | rfl) | rfl) | ⟨_, ⟨_, _, rfl⟩, inTexts⟩) |
    rfl) | ⟨_, ⟨_, _, rfl⟩, inTexts⟩) | rfl
  · exact append_ne_nil_of_right_ne_nil _ (by decide)
  · exact append_ne_nil_of_right_ne_nil _ (by decide)
  · exact append_ne_nil_of_right_ne_nil _ (by decide)
  · exact append_ne_nil_of_right_ne_nil _ (by decide)
  · exact keyvalTexts_nonempty inTexts
  · exact append_ne_nil_of_right_ne_nil _ (by decide)
  · exact keyvalTexts_nonempty inTexts
  · decide

/-- A block is written when its text fits. -/
theorem buf_eq :
    call.buf spawncnt command = if (call.blockText spawncnt command).length < maxLine then
        some (call.blockText spawncnt command)
      else none := by
  have startNonempty : start command ≠ [] := append_ne_nil_of_right_ne_nil _ (by decide)
  unfold buf blockText
  by_cases startFits : (start command).length < maxLine
  · rw [snprintf_of_fits startFits]
    exact foldlM_strnapp startFits startNonempty pieces_nonempty
  · obtain ⟨piece, others, isPieces⟩ : ∃ piece others,
        call.pieces spawncnt command = piece :: others := ⟨_, _, rfl⟩
    have isFull : (snprintf maxLine (start command)).length = maxLine - 1 := by
      unfold snprintf
      rw [length_take]
      omega
    have isRefused (src : List Char) :
        strnapp (snprintf maxLine (start command)) src maxLine = none := by
      apply if_neg
      rintro ⟨room, _⟩
      omega
    rw [isPieces, foldlM_cons, isRefused, if_neg]
    · rfl
    · rw [length_append]
      omega

/-- The names and values of the lines of a block. -/
def fields
    (call : SpawnCall)
    (spawncnt : Nat)
    (command : SpawnCommand) : List (List Char × List Char) :=
  [("nprocs".toList, showInt command.maxprocs), ("execname".toList, command.cmd),
    ("totspawns".toList, showInt call.commands.length),
    ("spawnssofar".toList, showInt (spawncnt + 1))] ++
  command.argv.mapIdx (fun number value => ("arg".toList ++ showInt (number + 1), value)) ++
  [("argcnt".toList, showInt command.argv.length),
    ("preput_num".toList, showInt call.preput.length)] ++
  (call.preput.mapIdx fun number pair =>
    [("preput_key_".toList ++ showInt number, pair.1),
      ("preput_val_".toList ++ showInt number, pair.2)]).flatten ++
  [("info_num".toList, showInt command.info.length)] ++
  (command.info.mapIdx fun number pair =>
    [("info_key_".toList ++ showInt number, pair.1),
      ("info_val_".toList ++ showInt number, pair.2)]).flatten

/-- The lines of a block behind its first one. -/
def lines
    (call : SpawnCall)
    (spawncnt : Nat)
    (command : SpawnCommand) : List (List Char) :=
  (call.fields spawncnt command).map (fun field => field.1 ++ '=' :: field.2) ++ ["endcmd".toList]

theorem blockText_eq :
    call.blockText spawncnt command =
      "mcmd=spawn".toList ++ '\n' :: (call.lines spawncnt command).flatMap (· ++ ['\n']) := by
  have isPairs (keyName valName : List Char) (pairs : List (List Char × List Char)) :
      ((pairs.mapIdx fun number pair =>
        [(keyName ++ showInt number, pair.1), (valName ++ showInt number, pair.2)]).flatten.map
          fun field => field.1 ++ '=' :: field.2).flatMap (· ++ ['\n']) =
        ((pairs.mapIdx (keyvalTexts keyName valName)).flatten).flatten := by
    rw [flatMap_def, map_map, map_flatten, map_mapIdx]
    congr 3
    funext number pair
    simp [keyvalTexts]
  have isArgs : ((command.argv.mapIdx fun number value =>
      ("arg".toList ++ showInt (number + 1), value)).map
        fun field => field.1 ++ '=' :: field.2).flatMap (· ++ ['\n']) =
      (command.argv.mapIdx fun number value =>
        "arg".toList ++ showInt (number + 1) ++ "=".toList ++ value ++ "\n".toList).flatten := by
    rw [flatMap_def, map_map, map_mapIdx]
    congr 2
    funext number value
    simp
  unfold blockText start pieces lines fields
  simp only [map_append, flatMap_append, flatten_append, isPairs, isArgs]
  simp

variable (fits : (call.blockText spawncnt command).length < maxLine)

include fits in
theorem writeline_blockText :
    writeline (call.blockText spawncnt command) = call.blockText spawncnt command := by
  obtain ⟨front, isEnd⟩ : ∃ front, call.blockText spawncnt command = front ++ ['\n'] := by
    rw [blockText_eq]
    unfold lines
    rw [flatMap_append, flatMap_singleton, ← cons_append, ← append_assoc, ← append_assoc]
    exact ⟨_, rfl⟩
  unfold writeline
  rw [if_neg (by omega), if_neg]
  rw [isEnd, getLast?_concat]
  exact fun differs => differs rfl

include fits in
/-- A block that fits is written as it is. -/
theorem writeBlocks_cons
    (rest : List SpawnCommand) :
    call.writeBlocks spawncnt (command :: rest) =
      (call.blockText spawncnt command :: (call.writeBlocks (spawncnt + 1) rest).1,
        (call.writeBlocks (spawncnt + 1) rest).2) := by
  rw [writeBlocks, buf_eq, if_pos fits]
  dsimp only
  rw [writeline_blockText fits]

/-- All blocks are written when all fit. -/
theorem writeBlocks_of_fits
    (fits : call.Fits)
    {rest : List SpawnCommand}
    (isRest : call.commands.drop spawncnt = rest) :
    (call.writeBlocks spawncnt rest).2 = true ∧
      rest.length ≤ (call.writeBlocks spawncnt rest).1.flatten.length := by
  induction rest generalizing spawncnt with
  | nil => exact ⟨rfl, Nat.zero_le _⟩
  | cons command rest ih =>
    have isCommand : call.commands[spawncnt]? = some command := by
      rw [← Nat.add_zero spawncnt, ← getElem?_drop, isRest]
      rfl
    have isNext : call.commands.drop (spawncnt + 1) = rest := by
      rw [← tail_drop, isRest]
      rfl
    obtain ⟨areWritten, areLong⟩ := ih isNext
    rw [writeBlocks_cons (fits spawncnt command isCommand), flatten_cons,
      length_append, blockText_eq, length_append, length_cons]
    refine ⟨areWritten, ?_⟩
    rw [length_cons]
    omega

/-- Nothing is written when the first block does not fit. -/
theorem writeBlocks_of_fails (fails : call.FailsAtOnce) :
    call.writeBlocks 0 call.commands = ([], false) := by
  obtain ⟨command, isCommand, long⟩ := fails
  obtain ⟨rest, isCommands⟩ : ∃ rest, call.commands = command :: rest := by
    cases isCommands : call.commands with
    | nil =>
      rw [isCommands] at isCommand
      cases isCommand
    | cons first rest =>
      rw [isCommands] at isCommand
      obtain rfl := Option.some.inj isCommand
      exact ⟨rest, rfl⟩
  rw [isCommands, writeBlocks, buf_eq, if_neg (by omega)]

end Mpich.Pmi.SpawnCall
