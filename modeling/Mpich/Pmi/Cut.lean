import Mpich.Pmi.Server

/-!
# Commands in pieces

The event loop calls `PMIServHandleInput` as long as the socket is readable. What is asked
for in a read is the size of a pointer less one, so that what is left over in the buffer
is shorter than any command.
-/

namespace Mpich.Pmi

open List Option

/-- The size of a pointer, which is what `sizeof(readbuf)` is. -/
inductive DataModel
  | ilp32
  | lp64

/-- `sizeof(readbuf)-1` -/
def DataModel.readSize : DataModel → Nat
  | .ilp32 => 4 - 1
  | .lp64 => 8 - 1

/-- A line that is shorter than `PMIU_MAXLINE` with its newline. -/
def IsLine
    (line : List Char) : Prop :=
  '\n' ∉ line ∧ line.length + 1 < maxLine

/-- The command of a line. -/
def lineCommand
    (line : List Char) : List Char :=
  getCommand (parseKeyvals (cString (line ++ ['\n']))).2

/-- The names of `pmiCommands` -/
def pmiCommands : List (List Char) :=
  ["barrier_in", "finalize", "abort", "create_kvs", "destroy_kvs", "put", "get",
    "get_my_kvsname", "init", "get_maxes", "getbyidx", "initack", "spawn",
    "get_universe_size", "get_appnum"].map String.toList

/-- The lines of a block up to `endcmd`, and nothing else in them. -/
def spawnLines : List (List Char) → SpawnVars → Option SpawnVars
  | [], _ => none
  | line :: rest, vars =>
    match spawnLine (line ++ ['\n']) vars with
    | .more vars => spawnLines rest vars
    | .done vars => if rest = [] then some vars else none
    | .malformed _ => none
    | .fault => none

/-- The first line of a command: the name of a command is in front. -/
structure FirstLine where
  start : List Char
  name : List Char
  others : List Char
  isStart : start = "cmd=".toList ∨ start = "mcmd=".toList
  named : 3 ≤ name.length
  isLine : IsLine (start ++ name ++ others)

def FirstLine.line
    (first : FirstLine) : List Char :=
  first.start ++ first.name ++ first.others

/-- A command of one line, or a spawn command with its block. -/
inductive Command
  | single
      (first : FirstLine)
      (notSpawn : lineCommand first.line ≠ "spawn".toList)
  | spawn
      (first : FirstLine)
      (block : List (List Char))
      (isSpawn : lineCommand first.line = "spawn".toList)
      (isLine : ∀ line ∈ block, IsLine line)
      (accepted : ∀ nProcess pairs, ∃ vars app,
        spawnLines block (.initial nProcess pairs) = some vars ∧ vars.finished = some app)

namespace Command

/-- What the client sends. -/
def text : Command → List Char
  | .single first _ => first.line ++ ['\n']
  | .spawn first block _ _ _ => first.line ++ ['\n'] ++ block.flatMap (· ++ ['\n'])

def first : Command → FirstLine
  | .single first _ => first
  | .spawn first _ _ _ _ => first

theorem newline_mem (command : Command) :
    '\n' ∈ command.text := by
  cases command with
  | single first _ => exact mem_append_right _ mem_cons_self
  | spawn first block _ _ _ =>
    exact mem_append_left _ (mem_append_right _ mem_cons_self)

end Command

section

variable {Other : Type*} (handlers : Handlers Other) (size : Nat)

/-- The event loop calls `PMIServHandleInput` when the socket is readable. -/
def eventLoop : Nat → Server Other → Client → List (Handled Other)
  | 0, _, _ => []
  | fuel + 1, server, client =>
    if client.reader.socket.unread = [] then []
    else
      match handleInput handlers size server client with
      | none => []
      | some handled => handled :: eventLoop fuel handled.server handled.client

/-- The effect of a command: the server, the spawn in progress and what is written. -/
def Handled.effect
    (handled : Handled Other) : Server Other × Option Spawning × List (List Char) :=
  (handled.server, handled.client.spawning, handled.written)

/-- A command that arrives alone and in one piece. -/
def alone
    (command : Command)
    (server : Server Other)
    (spawning : Option Spawning) : Option (Handled Other) :=
  handleInput handlers size server ⟨⟨[], command.text, fun _ => maxLine⟩, spawning⟩

/-- Each command is handled by one call, in order, with the effect that it has alone; then
the buffer holds no line, and what comes next are the commands behind it. Nothing is said
of what follows a command that misuses memory alone. -/
def ServedInOrder : List Command → Server Other → Client → List (Handled Other) → Prop
  | [], _, client, handled => client.reader.text = [] ∧ handled = []
  | command :: rest, server, client, handled =>
    match alone handlers size command server client.spawning with
    | none => handled = []
    | some once => ∃ now later, handled = now :: later ∧ now.effect = once.effect ∧
        '\n' ∉ now.client.reader.buffered ∧ now.client.reader.text = rest.flatMap Command.text ∧
        ServedInOrder rest now.server now.client later

end

variable {Other : Type*} {handlers : Handlers Other} {size : Nat} {server : Server Other}
  {client : Client} {command : Command} {reader : Reader} {line rest : List Char}

theorem spawnLoop_of_text
    {block : List (List Char)} {vars last : SpawnVars} {fuel : Nat}
    (sizePositive : 0 < size)
    (isText : reader.text = block.flatMap (· ++ ['\n']) ++ rest)
    (isLine : ∀ line ∈ block, IsLine line)
    (small : reader.buffered.length < size)
    (ended : spawnLines block vars = some last)
    (enough : block.length ≤ fuel) :
    ∃ later, spawnLoop size fuel reader vars = (.done last, later) ∧ later.text = rest ∧
      later.buffered.length < size := by
  induction block generalizing reader vars fuel with
  | nil => cases ended
  | cons line block ih =>
    obtain ⟨fuel, rfl⟩ := Nat.exists_eq_succ_of_ne_zero (Nat.ne_of_gt (Nat.zero_lt_of_lt enough))
    obtain ⟨noNewline, fits⟩ := isLine line mem_cons_self
    have isFirst : reader.text = line ++ '\n' :: (block.flatMap (· ++ ['\n']) ++ rest) := by
      rw [isText, flatMap_cons]
      simp
    obtain ⟨between, isRead, isRest, betweenSmall⟩ := Reader.readLine_of_text sizePositive
      isFirst noNewline (Nat.lt_sub_of_add_lt fits) small
    unfold spawnLines at ended
    rw [spawnLoop, isRead]
    dsimp only
    rw [if_neg (concat_ne_nil _ _)]
    cases isEnd : spawnLine (line ++ ['\n']) vars with
    | more next =>
      rw [isEnd] at ended
      exact ih isRest
        (fun other member => isLine other (mem_cons_of_mem _ member)) betweenSmall
        ended (Nat.le_of_succ_le_succ enough)
    | done next =>
      rw [isEnd] at ended
      split_ifs at ended with isLast
      cases ended
      subst isLast
      exact ⟨between, rfl, isRest, betweenSmall⟩
    | malformed next =>
      rw [isEnd] at ended
      cases ended
    | fault =>
      rw [isEnd] at ended
      cases ended

/-- What the lines of a block do, when they are taken for what they are. -/
def blockEffect
    (handlers : Handlers Other)
    (block : List (List Char))
    (server : Server Other)
    (spawning : Option Spawning) :
    Option (Server Other × Option Spawning × List (List Char)) :=
  let (server, spawning) := startSpawn server spawning
  (spawnVars server spawning).bind fun vars =>
    (spawnLines block vars).bind fun last =>
      (endSpawn handlers server spawning (.done last)).map fun (server, spawning, replies) =>
        (server, spawning, replies.map writeline)

/-- What a command does, when its text is taken for what it is. -/
def Command.effect
    (handlers : Handlers Other)
    (server : Server Other)
    (spawning : Option Spawning) :
    Command → Option (Server Other × Option Spawning × List (List Char))
  | .single first _ =>
    (dispatch handlers 0 (parseKeyvals (cString (first.line ++ ['\n']))).2 server
      ⟨⟨[], ⟨[], fun _ => 0⟩⟩, spawning⟩).map Handled.effect
  | .spawn _ block _ _ _ => blockEffect handlers block server spawning

/-- A spawn block is read as far as it goes. -/
theorem handleSpawn_of_text
    {block : List (List Char)}
    (sizePositive : 0 < size)
    (isText : client.reader.text = block.flatMap (· ++ ['\n']) ++ rest)
    (isLine : ∀ line ∈ block, IsLine line)
    (small : client.reader.buffered.length < size)
    (accepted : ∀ nProcess pairs, ∃ vars app,
      spawnLines block (.initial nProcess pairs) = some vars ∧ vars.finished = some app) :
    (handleSpawn handlers size server client).map Handled.effect =
        blockEffect handlers block server client.spawning ∧
      ∀ handled ∈ handleSpawn handlers size server client,
        handled.client.reader.text = rest ∧ handled.client.reader.buffered.length < size := by
  have enough : block.length ≤ client.reader.text.length + 1 := by
    have atLeast : 1 * block.length ≤ (block.flatMap (· ++ ['\n'])).length := by
      apply mul_length_le_flatMap
      simp
    rw [isText, length_append]
    omega
  unfold handleSpawn blockEffect
  generalize startSpawn server client.spawning = started
  obtain ⟨server, spawning⟩ := started
  dsimp only
  cases isVars : spawnVars server spawning with
  | none => exact ⟨rfl, nofun⟩
  | some vars =>
    obtain ⟨pairs, _, rfl⟩ := map_eq_some_iff.mp isVars
    obtain ⟨last, app, ended, isApp⟩ := accepted spawning.world.nProcess pairs
    obtain ⟨later, isLoop, isRest, laterSmall⟩ :=
      spawnLoop_of_text sizePositive isText isLine small ended enough
    rw [bind_some, bind_some, isLoop, ended]
    rw [bind_some]
    have isEnd : endSpawn handlers server spawning (.done last) =
        some (finishSpawn handlers server spawning last app) := by
      change last.finished.map _ = _
      rw [isApp]
      rfl
    rw [isEnd]
    refine ⟨rfl, ?_⟩
    rintro handled ⟨⟩
    exact ⟨isRest, laterSmall⟩

/-- Only a spawn command reads further lines. -/
theorem dispatch_of_not_spawn
    (handlers : Handlers Other)
    (server : Server Other)
    {tab : KeyvalTab}
    (notSpawn : getCommand tab ≠ "spawn".toList) :
    ∃ later written, ∀ size client,
      dispatch handlers size tab server client = some ⟨later, client, written⟩ := by
  unfold dispatch
  dsimp only
  split_ifs
  · exact ⟨_, _, fun _ _ => rfl⟩
  · exact ⟨_, _, fun _ _ => rfl⟩
  · cases handlers.other (getCommand tab) with
    | none => exact ⟨_, _, fun _ _ => rfl⟩
    | some handler => exact ⟨_, _, fun _ _ => rfl⟩

/-- A command does what it is, and is read as far as it goes. -/
theorem handleInput_of_text
    (command : Command)
    (sizePositive : 0 < size)
    (isText : client.reader.text = command.text ++ rest)
    (small : client.reader.buffered.length < size) :
    (handleInput handlers size server client).map Handled.effect =
        command.effect handlers server client.spawning ∧
      ∀ handled ∈ handleInput handlers size server client,
        handled.client.reader.text = rest ∧ handled.client.reader.buffered.length < size := by
  obtain ⟨block, isBlock, isFirst⟩ : ∃ block, command.text = command.first.line ++ '\n' :: block ∧
      client.reader.text = command.first.line ++ '\n' :: (block ++ rest) := by
    rw [isText]
    cases command with
    | single first _ => exact ⟨[], by simp [Command.text, Command.first]⟩
    | spawn first block _ _ _ =>
      exact ⟨block.flatMap (· ++ ['\n']), by simp [Command.text, Command.first]⟩
  obtain ⟨noNewline, fits⟩ : IsLine command.first.line := command.first.isLine
  obtain ⟨between, isRead, isRest, betweenSmall⟩ := Reader.readLine_of_text sizePositive
    isFirst noNewline (Nat.lt_sub_of_add_lt fits) small
  unfold handleInput
  rw [isRead]
  dsimp only
  rw [if_neg (concat_ne_nil _ _)]
  cases command with
  | single first notSpawn =>
    obtain ⟨later, written, isDispatch⟩ := dispatch_of_not_spawn handlers server notSpawn
    change (dispatch handlers size _ server _).map _ = (dispatch handlers 0 _ server _).map _ ∧ _
    rw [Command.first, isDispatch, isDispatch]
    refine ⟨rfl, ?_⟩
    rintro handled ⟨⟩
    obtain rfl : block = [] := by simpa [Command.text, Command.first] using isBlock
    exact ⟨isRest, betweenSmall⟩
  | spawn first block isSpawn isLine accepted =>
    have isDispatch : dispatch handlers size (parseKeyvals (cString (first.line ++ ['\n']))).2
        server ⟨between, client.spawning⟩ =
          handleSpawn handlers size server ⟨between, client.spawning⟩ := by
      have isCommand : getCommand (parseKeyvals (cString (first.line ++ ['\n']))).2 =
          "spawn".toList := isSpawn
      unfold dispatch
      rw [isCommand]
      rfl
    obtain rfl : _ = block.flatMap (· ++ ['\n']) := by
      simpa [Command.text, Command.first] using isBlock.symm
    rw [Command.first, isDispatch]
    exact handleSpawn_of_text sizePositive isRest isLine betweenSmall accepted

/-- What is left over in the buffer is shorter than a command. -/
theorem noNewline_of_small
    (commands : List Command)
    (isText : reader.text = commands.flatMap Command.text)
    (small : reader.buffered.length < 7) :
    '\n' ∉ reader.buffered := by
  cases commands with
  | nil =>
    have isNil : reader.buffered = [] := (append_eq_nil_iff.mp isText).1
    rw [isNil]
    exact not_mem_nil
  | cons command rest =>
    have noNewline : '\n' ∉ command.first.line := command.first.isLine.1
    have long : 7 ≤ command.first.line.length := by
      have named := command.first.named
      unfold FirstLine.line
      rcases command.first.isStart with isStart | isStart
      · rw [isStart]
        simp
        omega
      · rw [isStart]
        simp
        omega
    have isFirst : ∃ others, reader.text = command.first.line ++ others := by
      rw [isText, flatMap_cons]
      cases command with
      | single first _ => exact ⟨_, by simp only [Command.text, Command.first, append_assoc]; rfl⟩
      | spawn first block _ _ _ =>
        exact ⟨_, by simp only [Command.text, Command.first, append_assoc]; rfl⟩
    obtain ⟨others, isFirst⟩ := isFirst
    have isTake := congrArg (take reader.buffered.length) isFirst
    rw [Reader.text, take_left, take_append_of_le_length (by omega)] at isTake
    intro member
    rw [isTake] at member
    exact noNewline (mem_of_mem_take member)

theorem DataModel.readSize_bounds (model : DataModel) :
    0 < model.readSize ∧ model.readSize ≤ 7 := by
  cases model with
  | ilp32 => decide
  | lp64 => decide

end Mpich.Pmi
