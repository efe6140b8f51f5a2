import Mpich.Pmi.Spawn

/-!
# The server and the client

`PMIServHandleInput` reads a line of a client and calls the handler of its command. The
handlers that look up and store pairs and the one that spawns are written out, the other
handlers, which read nothing more, are a parameter. A client writes a line and waits for
the line that the server writes.
-/

namespace Mpich.Pmi

/-- `MAXPMICMD` -/
def maxPmiCmd : Nat := 256

/-- `ProcessWorld` -/
structure World where
  apps : List App
  nProcess : Int
  nApps : Nat
  worldNum : Nat
  deriving DecidableEq

/-- `spawnWorld` with its apps and `spawnKVS` -/
structure Spawning where
  world : World
  kvs : List Char
  deriving DecidableEq

/-- The server: `pmimaster`, `nWorlds`, the groups that have been set up with their
processes and spaces, the worlds that have been given to the spawner, and what the other
handlers use. -/
structure Server (Other : Type*) where
  kvSpaces : KVSpaces
  pid : Nat
  kvsnum : Nat
  nWorlds : Nat
  groups : List (Int × List Char)
  worlds : List World
  other : Other

/-- `userSpawner`, if there is one, and the handlers of the other commands, with the lines
that they write. -/
structure Handlers (Other : Type*) where
  userSpawner : Option (World → Int)
  other : List Char → Option (KeyvalTab → Server Other → Server Other × List (List Char))

/-- `%d` -/
def showInt : Int → List Char
  | .ofNat number => NulText.decimal number
  | .negSucc number => '-' :: NulText.decimal (number + 1)

/-- `PMIU_writeline`: what is written. -/
def writeline
    (buf : List Char) : List Char :=
  if buf.length > maxLine then []
  else if buf.getLast? ≠ some '\n' then []
  else buf

section

variable {Other : Type*}

/-- `fPMI_Handle_put` -/
def handlePut
    (tab : KeyvalTab)
    (server : Server Other) : Server Other × List (List Char) :=
  let kvsname := (getval "kvsname".toList maxKvsName tab).1
  let result (rc : Int) (message : List Char) : List Char :=
    snprintf maxLine ("cmd=put_result rc=".toList ++ showInt rc ++ " msg=".toList ++
      message ++ "\n".toList)
  match findSpace server.kvSpaces kvsname with
  | some pairs =>
    let key := (getval "key".toList maxKeyLen tab).1
    let val := (getval "value".toList maxValLen tab).1
    match addPair pairs key val with
    | none => (server, [result (-1) (snprintf maxLine ("duplicate_key ".toList ++ key))])
    | some later =>
      ({ server with
        kvSpaces := SortedAssoc.modify kvsname (fun _ => later) server.kvSpaces },
        [result 0 (strncpy "success".toList maxLine).1])
  | none =>
    (server, [result (-1)
      (snprintf maxLine ("kvs_".toList ++ kvsname ++ "_not_found".toList))])

/-- `fPMI_Handle_get` -/
def handleGet
    (tab : KeyvalTab)
    (server : Server Other) : Server Other × List (List Char) :=
  let kvsname := (getval "kvsname".toList maxKvsName tab).1
  let result (rc : Int) (message value : List Char) : List Char :=
    snprintf maxLine ("cmd=get_result rc=".toList ++ showInt rc ++ " msg=".toList ++
      message ++ " value=".toList ++ value ++ "\n".toList)
  match findSpace server.kvSpaces kvsname with
  | some pairs =>
    let key := (getval "key".toList maxLine tab).1
    match findKey pairs key with
    | some val =>
      (server, [result 0 (strncpy "success".toList maxLine).1 (strncpy val maxLine).1])
    | none =>
      (server, [result (-1)
        (snprintf maxLine ("key_".toList ++ kvsname ++ "_not_found".toList))
        (strncpy "unknown".toList maxLine).1])
  | none =>
    (server, [result (-1)
      (snprintf maxLine ("kvs_".toList ++ kvsname ++ "_not_found".toList))
      (strncpy "unknown".toList maxLine).1])

/-- The world and the space of a spawn command, new ones if none is in progress. -/
def startSpawn
    (server : Server Other) : Option Spawning → Server Other × Spawning
  | some spawning => (server, spawning)
  | none =>
    let kvsname := allocatedName server.pid server.kvsnum
    ({ server with
      kvSpaces := insertSpace kvsname server.kvSpaces
      kvsnum := server.kvsnum + 1
      nWorlds := server.nWorlds + 1 },
      ⟨⟨[], 0, 0, server.nWorlds⟩, kvsname⟩)

/-- The end of `fPMI_Handle_spawn`: the app is in the world, and the world is spawned when
all of its apps are there. -/
def finishSpawn
    (handlers : Handlers Other)
    (server : Server Other)
    (spawning : Spawning)
    (vars : SpawnVars)
    (app : App) : Server Other × Option Spawning × List (List Char) :=
  let world : World :=
    { spawning.world with
      apps := spawning.world.apps ++ [app]
      nProcess := vars.nProcess
      nApps := spawning.world.nApps + 1 }
  let server : Server Other :=
    { server with
      kvSpaces := SortedAssoc.modify spawning.kvs (fun _ => vars.pairs) server.kvSpaces }
  if vars.totspawns = vars.spawnnum then
    let rc := match handlers.userSpawner with
      | some userSpawner => userSpawner world
      | none => 1
    ({ server with
      groups := server.groups ++ [(world.nProcess, spawning.kvs)]
      worlds := server.worlds ++ [world] }, none,
      [snprintf maxLine ("cmd=spawn_result rc=".toList ++ showInt rc ++ "\n".toList)])
  else (server, some ⟨world, spawning.kvs⟩, [])

/-- What the lines of a block do; `none` if an array is used of which nothing is set, or
beyond its end, or if the space of the world is gone. -/
def endSpawn
    (handlers : Handlers Other)
    (server : Server Other)
    (spawning : Spawning) :
    SpawnEnd → Option (Server Other × Option Spawning × List (List Char))
  | .done vars | .more vars =>
    vars.finished.map (finishSpawn handlers server spawning vars)
  | .malformed vars =>
    some ({ server with
        kvSpaces := SortedAssoc.modify spawning.kvs (fun _ => vars.pairs) server.kvSpaces },
      some ⟨{ spawning.world with
          apps := spawning.world.apps ++ [vars.app]
          nProcess := vars.nProcess }, spawning.kvs⟩, [])
  | .fault => none

/-- The variables when the first line of a block is read. -/
def spawnVars
    (server : Server Other)
    (spawning : Spawning) : Option SpawnVars :=
  (findSpace server.kvSpaces spawning.kvs).map (.initial spawning.world.nProcess)

/-- A client as the server keeps it: `PMIProcess`. -/
structure Client where
  reader : Reader
  spawning : Option Spawning

/-- What is left behind when a command has been handled. -/
structure Handled (Other : Type*) where
  server : Server Other
  client : Client
  written : List (List Char)

/-- `fPMI_Handle_spawn` -/
def handleSpawn
    (handlers : Handlers Other)
    (size : Nat)
    (server : Server Other)
    (client : Client) : Option (Handled Other) :=
  let (server, spawning) := startSpawn server client.spawning
  (spawnVars server spawning).bind fun vars =>
    let (ended, reader) := spawnLoop size (client.reader.text.length + 1) client.reader vars
    (endSpawn handlers server spawning ended).map fun (server, spawning, replies) =>
      ⟨server, ⟨reader, spawning⟩, replies.map writeline⟩

/-- `PMIGetCommand` -/
def getCommand
    (tab : KeyvalTab) : List Char :=
  let (cmd, isFound) := getval "cmd".toList maxPmiCmd tab
  if isFound then cmd else (getval "mcmd".toList maxPmiCmd tab).1

/-- The handler of a command is called. -/
def dispatch
    (handlers : Handlers Other)
    (size : Nat)
    (tab : KeyvalTab)
    (server : Server Other)
    (client : Client) : Option (Handled Other) :=
  let cmd := getCommand tab
  if cmd = "put".toList then
    let (server, replies) := handlePut tab server
    some ⟨server, client, replies.map writeline⟩
  else if cmd = "get".toList then
    let (server, replies) := handleGet tab server
    some ⟨server, client, replies.map writeline⟩
  else if cmd = "spawn".toList then handleSpawn handlers size server client
  else
    match handlers.other cmd with
    | some handler =>
      let (server, replies) := handler tab server
      some ⟨server, client, replies.map writeline⟩
    | none => some ⟨server, client, []⟩

/-- `PMIServHandleInput`; nothing is read when the client is gone, and the connection is
closed. -/
def handleInput
    (handlers : Handlers Other)
    (size : Nat)
    (server : Server Other)
    (client : Client) : Option (Handled Other) :=
  let (inbuf, reader) := client.reader.readLine size (maxLine - 1)
  if inbuf = [] then some ⟨server, { client with reader := reader }, []⟩
  else
    dispatch handlers size (parseKeyvals (cString inbuf)).2 server
      { client with reader := reader }

end

end Mpich.Pmi

namespace Mpich.Pmi

/-- `PMI_FAIL` -/
def pmiFail : Int := -1

/-- More has been sent. -/
def Reader.receive
    (reader : Reader)
    (text : List Char) : Reader :=
  { reader with socket := { reader.socket with unread := reader.socket.unread ++ text } }

/-- A connection: the client as the server keeps it, and what the client reads. -/
structure Link where
  client : Client
  replies : Reader

/-- What has been sent and read when a request has been answered. -/
structure Answered (Other : Type*) where
  sent : List Char
  received : List Char
  written : List (List Char)
  recvbuf : List Char
  server : Server Other
  link : Link

section

variable {Other : Type*} (handlers : Handlers Other) (size : Nat)

/-- The request is written, the server handles it, and the client reads a line, of which
`MAX_READLINE` less one characters are asked for in a read. -/
def exchange
    (request : List Char)
    (server : Server Other)
    (link : Link) : Option (Answered Other) :=
  let sent := writeline request
  let client := { link.client with reader := link.client.reader.receive sent }
  (handleInput handlers size server client).map fun handled =>
    let (recvbuf, replies) :=
      (link.replies.receive handled.written.flatten).readLine 1023 (maxLine - 1)
    { sent := sent
      received := (client.reader.readLine size (maxLine - 1)).1
      written := handled.written
      recvbuf := recvbuf
      server := handled.server
      link := ⟨handled.client, replies⟩ }

/-- What `GetResponse` returns, with the table. -/
def checkResponse
    (recvbuf expectedCmd : List Char)
    (checkRc : Bool) : Int × KeyvalTab :=
  if recvbuf = [] then (pmiFail, [])
  else
    let (err, tab) := parseKeyvals (cString recvbuf)
    if err ≠ 0 then (err, tab)
    else
      let (cmdName, isFound) := getval "cmd".toList maxLine tab
      if ¬ isFound then (pmiFail, tab)
      else if expectedCmd ≠ cmdName then (pmiFail, tab)
      else
        let (rc, isFound) := getval "rc".toList maxLine tab
        if checkRc ∧ isFound ∧ rc ≠ "0".toList then (pmiFail, tab) else (err, tab)

/-- What a call returns, and the value that it has got. -/
structure Result where
  rc : Int
  value : Option (List Char)
  deriving DecidableEq

/-- `buf` of `PMI_KVS_Put` -/
def putRequest
    (kvsname key value : List Char) : List Char :=
  snprintf maxLine ("cmd=put kvsname=".toList ++ kvsname ++ " key=".toList ++ key ++
    " value=".toList ++ value ++ "\n".toList)

/-- `buf` of `PMI_KVS_Get` -/
def getRequest
    (kvsname key : List Char) : List Char :=
  snprintf maxLine ("cmd=get kvsname=".toList ++ kvsname ++ " key=".toList ++ key ++ "\n".toList)

/-- A call of `PMI_KVS_Put` or of `PMI_KVS_Get`, with the length of its buffer. -/
inductive Call
  | put (kvsname key value : List Char)
  | get (kvsname key : List Char) (length : Nat)

namespace Call

def request : Call → List Char
  | .put kvsname key value => putRequest kvsname key value
  | .get kvsname key _ => getRequest kvsname key

/-- What `PMI_KVS_Put` and `PMI_KVS_Get` make of the line that they have read. -/
def result
    (recvbuf : List Char) : Call → Result
  | .put _ _ _ => ⟨(checkResponse recvbuf "put_result".toList true).1, none⟩
  | .get _ _ length =>
    let (err, tab) := checkResponse recvbuf "get_result".toList false
    if err ≠ 0 then ⟨err, none⟩
    else if NulText.atoi (getval "rc".toList maxLine tab).1 = 0 then
      ⟨0, some (getval "value".toList length tab).1⟩
    else ⟨-1, none⟩

end Call

end

end Mpich.Pmi
