import Mathlib.Algebra.Ring.Int.Defs
import Mathlib.Data.List.DropRight
import Mpich.Pmi.Keyvals

/-!
# Lines and spawn blocks

A line is read from a buffer that is filled again when it is empty; the lines do not
depend on where the reads cut the text. A spawn command goes on with one line for each
part of it, up to the line `endcmd`.
-/

namespace Mpich.Pmi

open List

/-- `PMIU_MAXLINE` -/
def maxLine : Nat := 1024

/-- The other end of a connection: what it has sent, and how many characters besides the
first one the coming reads find. -/
structure Socket where
  unread : List Char
  cuts : Nat → Nat

/-- `read` -/
def Socket.read
    (socket : Socket)
    (size : Nat) : List Char × Socket :=
  let count := min size (socket.cuts 0 + 1)
  (socket.unread.take count, ⟨socket.unread.drop count, fun index => socket.cuts (index + 1)⟩)

/-- A connection with the characters from `nextChar` to `endChar`. -/
structure Reader where
  buffered : List Char
  socket : Socket

namespace Reader

/-- What is still to be read. -/
def text
    (reader : Reader) : List Char :=
  reader.buffered ++ reader.socket.unread

/-- The next character, from the buffer or after a read. -/
def next
    (size : Nat)
    (reader : Reader) : Option (Char × Reader) :=
  match reader.buffered with
  | char :: rest => some (char, { reader with buffered := rest })
  | [] =>
    match reader.socket.read size with
    | (char :: rest, socket) => some (char, ⟨rest, socket⟩)
    | ([], _) => none

/-- `PMIU_readline` and `PMIUBufferedReadLine`, where `size` is what is asked for in a read
and `room` is what is left of the length of the line. -/
def readLine
    (size : Nat) : Nat → Reader → List Char × Reader
  | 0, reader => ([], reader)
  | room + 1, reader =>
    match reader.next size with
    | none => ([], reader)
    | some (char, reader) =>
      if char = '\n' then ([char], reader)
      else
        let (line, reader) := reader.readLine size room
        (char :: line, reader)

variable {size room : Nat} {reader : Reader} {char : Char} {line rest : List Char}

/-- The next character is the first one of the text, and a buffer that has been filled
holds less than what was asked for. -/
theorem next_of_text
    (sizePositive : 0 < size)
    (isText : reader.text = char :: rest)
    (small : reader.buffered.length < size) :
    ∃ later, reader.next size = some (char, later) ∧ later.text = rest ∧
      later.buffered.length < size := by
  obtain ⟨buffered, socket⟩ := reader
  cases buffered with
  | cons first others =>
    obtain ⟨rfl, rfl⟩ := List.cons.inj isText
    exact ⟨_, rfl, rfl, Nat.lt_of_succ_lt small⟩
  | nil =>
    change socket.unread = char :: rest at isText
    obtain ⟨count, isCount⟩ : ∃ count, min size (socket.cuts 0 + 1) = count + 1 :=
      ⟨min size (socket.cuts 0 + 1) - 1, by omega⟩
    refine ⟨⟨rest.take count, ⟨rest.drop count, fun index => socket.cuts (index + 1)⟩⟩,
      ?_, take_append_drop count rest, ?_⟩
    · unfold next Socket.read
      dsimp only
      rw [isCount, isText, take_succ_cons, drop_succ_cons]
    · dsimp only
      rw [length_take]
      omega

/-- A line that fits is read whole, however it is cut. -/
theorem readLine_of_text
    (sizePositive : 0 < size)
    (isText : reader.text = line ++ '\n' :: rest)
    (noNewline : '\n' ∉ line)
    (fits : line.length < room)
    (small : reader.buffered.length < size) :
    ∃ later, reader.readLine size room = (line ++ ['\n'], later) ∧ later.text = rest ∧
      later.buffered.length < size := by
  induction line generalizing reader room with
  | nil =>
    obtain ⟨later, isNext, isRest, laterSmall⟩ := next_of_text sizePositive isText small
    obtain ⟨room, rfl⟩ := Nat.exists_eq_succ_of_ne_zero (Nat.ne_of_gt fits)
    refine ⟨later, ?_, isRest, laterSmall⟩
    rw [readLine, isNext]
    exact if_pos rfl
  | cons first line ih =>
    obtain ⟨between, isNext, isRest, betweenSmall⟩ := next_of_text sizePositive isText small
    obtain ⟨room, rfl⟩ := Nat.exists_eq_succ_of_ne_zero (Nat.ne_of_gt (Nat.zero_lt_of_lt fits))
    obtain ⟨notFirst, notLine⟩ := not_or.mp (mem_cons.not.mp noNewline)
    obtain ⟨later, isLine, isLater, laterSmall⟩ := ih isRest notLine
      (Nat.lt_of_succ_lt_succ fits) betweenSmall
    refine ⟨later, ?_, isLater, laterSmall⟩
    rw [readLine, isNext]
    dsimp only
    rw [if_neg (Ne.symm notFirst), isLine]
    rfl

end Mpich.Pmi.Reader

namespace Mpich.Pmi

/-- `PMI_MAX_ARGS` -/
def maxArgs : Nat := 256

/-- `PMI_MAX_INFO_KEY` -/
def maxInfoKey : Nat := 256

/-- `PMI_MAX_INFO_VAL` -/
def maxInfoVal : Nat := 1025

/-- `ProcessApp`, as far as a spawn command sets it; `soft` is the text that is parsed. -/
structure App where
  myAppNum : Int
  exename : Option (List Char)
  arch : Option (List Char)
  path : Option (List Char)
  wdir : Option (List Char)
  hostname : Option (List Char)
  soft : Option (List Char)
  args : List (Option (List Char))
  nArgs : Int
  nProcess : Int
  deriving DecidableEq

/-- A new `ProcessApp` -/
def App.initial : App where
  myAppNum := 0
  exename := none
  arch := none
  path := none
  wdir := none
  hostname := none
  soft := none
  args := []
  nArgs := 0
  nProcess := 0

/-- `fPMIInfoKey` -/
def App.infoKey
    (app : App)
    (key val : List Char) : App :=
  if key = "host".toList then { app with hostname := some val }
  else if key = "arch".toList then { app with arch := some val }
  else if key = "wdir".toList then { app with wdir := some val }
  else if key = "path".toList then { app with path := some val }
  else if key = "soft".toList then { app with soft := some val }
  else app

/-- What the lines of a block change: the new app, `nProcess` of the world, the pairs of
its space, and the variables of `fPMI_Handle_spawn`. Arrays of which nothing is set are
`none`. -/
structure SpawnVars where
  app : App
  nProcess : Int
  pairs : Pairs
  args : Nat → Option (List Char)
  key : Option (List Char)
  totspawns : Int
  spawnnum : Int
  curInfoKey : Option (List Char)
  curInfoIdx : Int

/-- The variables at the start of a block. -/
def SpawnVars.initial
    (nProcess : Int)
    (pairs : Pairs) : SpawnVars where
  app := .initial
  nProcess := nProcess
  pairs := pairs
  args := fun _ => none
  key := none
  totspawns := 0
  spawnnum := 0
  curInfoKey := none
  curInfoIdx := -1

/-- How a line is left: the next line is read, the block ends, the handler returns in the
middle of it, or an array is used of which nothing is set. -/
inductive SpawnEnd
  | more (vars : SpawnVars)
  | done (vars : SpawnVars)
  | malformed (vars : SpawnVars)
  | fault

/-- `isascii` and `isspace` -/
def isSpace
    (char : Char) : Bool :=
  char = ' ' || (9 ≤ char.toNat && char.toNat ≤ 13)

/-- `atoi`, with a `long` of 64 bits and an `int` of 32 bits. -/
def atoi
    (text : List Char) : Int :=
  (max (-2 ^ 63) (min (2 ^ 63 - 1) (NulText.atoi (text.dropWhile isSpace)))).bmod (2 ^ 32)

/-- `strncmp` of a word with the start of a text is zero. -/
def startsWith
    (word text : List Char) : Bool :=
  text.take word.length = word

/-- The part of a block with the name `cmdPtr` and the value `valPtr`. -/
def subcommand
    (cmdPtr valPtr : List Char)
    (vars : SpawnVars) : SpawnEnd :=
  if cmdPtr = "nprocs".toList then
    .more { vars with
      app := { vars.app with nProcess := atoi valPtr }
      nProcess := (vars.nProcess + atoi valPtr).bmod (2 ^ 32) }
  else if cmdPtr = "execname".toList then
    .more { vars with app := { vars.app with exename := some valPtr } }
  else if cmdPtr = "totspawns".toList then
    .more { vars with totspawns := atoi valPtr }
  else if cmdPtr = "spawnssofar".toList then
    .more { vars with
      spawnnum := atoi valPtr
      app := { vars.app with myAppNum := atoi valPtr - 1 } }
  else if cmdPtr = "argcnt".toList then
    .more { vars with app := { vars.app with nArgs := atoi valPtr } }
  else if startsWith "arg".toList cmdPtr then
    let argnum := atoi (cmdPtr.drop 3) - 1
    if argnum < 0 ∨ (maxArgs : Int) ≤ argnum then .malformed vars
    else .more { vars with args := Function.update vars.args argnum.toNat (some valPtr) }
  else if cmdPtr = "preput_num".toList then .more vars
  else if startsWith "preput_key_".toList cmdPtr then
    .more { vars with key := some (strncpy valPtr maxKeyLen).1 }
  else if startsWith "preput_val_".toList cmdPtr then
    match vars.key with
    | none => .fault
    | some key => .more { vars with pairs := (addPair vars.pairs key valPtr).getD vars.pairs }
  else if cmdPtr = "info_num".toList then .more vars
  else if startsWith "info_key_".toList cmdPtr then
    .more { vars with
      curInfoIdx := atoi (cmdPtr.drop 9)
      curInfoKey := some (strncpy valPtr maxInfoKey).1 }
  else if startsWith "info_val_".toList cmdPtr then
    if atoi (cmdPtr.drop 9) ≠ vars.curInfoIdx then .malformed vars
    else
      match vars.curInfoKey with
      | none => .fault
      | some key =>
        .more { vars with app := vars.app.infoKey key (strncpy valPtr maxInfoVal).1 }
  else .malformed vars

/-- One line of a block. -/
def spawnLine
    (inbuf : List Char)
    (vars : SpawnVars) : SpawnEnd :=
  match (cString inbuf).dropWhile isSpace with
  | [] => .more vars
  | first :: others =>
    match others.dropWhile (· ≠ '=') with
    | [] =>
      if (first :: others).rdropWhile isSpace = "endcmd".toList then .done vars
      else .malformed vars
    | _ :: value =>
      subcommand (first :: others.takeWhile (· ≠ '=')) (value.takeWhile (· ≠ '\n')) vars

/-- The loop of `fPMI_Handle_spawn`, which reads at least a character in every round. -/
def spawnLoop
    (size : Nat) : Nat → Reader → SpawnVars → SpawnEnd × Reader
  | 0, reader, vars => (.done vars, reader)
  | fuel + 1, reader, vars =>
    let (inbuf, reader) := reader.readLine size (maxLine - 1)
    if inbuf = [] then (.done vars, reader)
    else
      match spawnLine inbuf vars with
      | .more vars => spawnLoop size fuel reader vars
      | ended => (ended, reader)

/-- The arguments of the app are taken from the array; `none` if they are looked for
beyond its end. -/
def SpawnVars.finished
    (vars : SpawnVars) : Option App :=
  if vars.app.nArgs ≤ 0 then some vars.app
  else if vars.app.nArgs ≤ maxArgs then
    some { vars.app with args := (List.range vars.app.nArgs.toNat).map vars.args }
  else none

end Mpich.Pmi

/-!
## The parts of a spawn block

A line of a spawn block is blank, the end of the block, malformed, or a part of the command
with a name and a value. What the handler does with a line depends only on which of these
it is.
-/

namespace Mpich.Pmi

open List

/-- What the name and the value of a line say. -/
inductive SpawnPart
  | nprocs (number : Int)
  | execname (exename : List Char)
  | totspawns (number : Int)
  | spawnssofar (number : Int)
  | argcnt (number : Int)
  | arg (number : Int) (value : List Char)
  | preputNum
  | preputKey (key : List Char)
  | preputVal (val : List Char)
  | infoNum
  | infoKey (number : Int) (key : List Char)
  | infoVal (number : Int) (val : List Char)
  | unrecognized
  deriving DecidableEq

namespace SpawnPart

/-- The part with a name and a value. -/
def ofNamed
    (cmdPtr valPtr : List Char) : SpawnPart :=
  if cmdPtr = "nprocs".toList then .nprocs (atoi valPtr)
  else if cmdPtr = "execname".toList then .execname valPtr
  else if cmdPtr = "totspawns".toList then .totspawns (atoi valPtr)
  else if cmdPtr = "spawnssofar".toList then .spawnssofar (atoi valPtr)
  else if cmdPtr = "argcnt".toList then .argcnt (atoi valPtr)
  else if startsWith "arg".toList cmdPtr then .arg (atoi (cmdPtr.drop 3)) valPtr
  else if cmdPtr = "preput_num".toList then .preputNum
  else if startsWith "preput_key_".toList cmdPtr then
    .preputKey (strncpy valPtr maxKeyLen).1
  else if startsWith "preput_val_".toList cmdPtr then .preputVal valPtr
  else if cmdPtr = "info_num".toList then .infoNum
  else if startsWith "info_key_".toList cmdPtr then
    .infoKey (atoi (cmdPtr.drop 9)) (strncpy valPtr maxInfoKey).1
  else if startsWith "info_val_".toList cmdPtr then
    .infoVal (atoi (cmdPtr.drop 9)) (strncpy valPtr maxInfoVal).1
  else .unrecognized

/-- What a part does. -/
def act
    (vars : SpawnVars) : SpawnPart → SpawnEnd
  | nprocs number =>
    .more { vars with
      app := { vars.app with nProcess := number }
      nProcess := (vars.nProcess + number).bmod (2 ^ 32) }
  | execname exename => .more { vars with app := { vars.app with exename := some exename } }
  | totspawns number => .more { vars with totspawns := number }
  | spawnssofar number =>
    .more { vars with
      spawnnum := number
      app := { vars.app with myAppNum := number - 1 } }
  | argcnt number => .more { vars with app := { vars.app with nArgs := number } }
  | arg number value =>
    if number - 1 < 0 ∨ (maxArgs : Int) ≤ number - 1 then .malformed vars
    else .more { vars with
      args := Function.update vars.args (number - 1).toNat (some value) }
  | preputNum => .more vars
  | preputKey key => .more { vars with key := some key }
  | preputVal val =>
    match vars.key with
    | none => .fault
    | some key => .more { vars with pairs := (addPair vars.pairs key val).getD vars.pairs }
  | infoNum => .more vars
  | infoKey number key => .more { vars with curInfoIdx := number, curInfoKey := some key }
  | infoVal number val =>
    if number ≠ vars.curInfoIdx then .malformed vars
    else
      match vars.curInfoKey with
      | none => .fault
      | some key => .more { vars with app := vars.app.infoKey key val }
  | unrecognized => .malformed vars

end SpawnPart

theorem subcommand_eq
    (cmdPtr valPtr : List Char)
    (vars : SpawnVars) :
    subcommand cmdPtr valPtr vars = (SpawnPart.ofNamed cmdPtr valPtr).act vars := by
  unfold subcommand SpawnPart.ofNamed
  simp only [apply_ite (SpawnPart.act vars)]
  rfl

/-- What a line of a block is. -/
inductive SpawnLine
  | blank
  | endcmd
  | malformed
  | part (said : SpawnPart)
  deriving DecidableEq

namespace SpawnLine

def of
    (inbuf : List Char) : SpawnLine :=
  match (cString inbuf).dropWhile isSpace with
  | [] => blank
  | first :: others =>
    match others.dropWhile (· ≠ '=') with
    | [] =>
      if (first :: others).rdropWhile isSpace = "endcmd".toList then endcmd
      else malformed
    | _ :: value =>
      part (.ofNamed (first :: others.takeWhile (· ≠ '=')) (value.takeWhile (· ≠ '\n')))

def act
    (vars : SpawnVars) : SpawnLine → SpawnEnd
  | blank => .more vars
  | endcmd => .done vars
  | malformed => .malformed vars
  | part said => said.act vars

end SpawnLine

theorem spawnLine_eq
    (inbuf : List Char)
    (vars : SpawnVars) :
    spawnLine inbuf vars = (SpawnLine.of inbuf).act vars := by
  unfold spawnLine SpawnLine.of
  cases (cString inbuf).dropWhile isSpace with
  | nil => rfl
  | cons first others =>
    dsimp only
    cases others.dropWhile (· ≠ '=') with
    | nil =>
      rw [apply_ite (SpawnLine.act vars)]
      rfl
    | cons equals value => exact subcommand_eq _ _ _

namespace SpawnLine

/-- A name that is read as it is written: a blank does not stand in front of it, and
there is no equals sign behind its first character. -/
structure IsName
    (name : List Char) : Prop where
  notBlank : ∀ first ∈ name.head?, isSpace first = false
  nonempty : name ≠ []
  noEquals : '=' ∉ name
  nulFree : nul ∉ name

/-- A name and a value are read as they are written. -/
theorem of_named
    {name value : List Char}
    (isName : IsName name)
    (nulFree : nul ∉ value)
    (noNewline : '\n' ∉ value) :
    of (name ++ '=' :: value ++ ['\n']) = part (.ofNamed name value) := by
  obtain ⟨first, others, rfl⟩ := exists_cons_of_ne_nil isName.nonempty
  have isString : cString (first :: others ++ '=' :: value ++ ['\n']) =
      first :: others ++ '=' :: value ++ ['\n'] := by
    apply cString_of_nulFree
    intro member
    rcases mem_append.mp member with member | inEnd
    · rcases mem_append.mp member with inName | member
      · exact isName.nulFree inName
      rcases mem_cons.mp member with inEquals | inValue
      · exact absurd inEquals (by decide)
      · exact nulFree inValue
    · exact absurd inEnd (by decide)
  have isStart : (first :: others ++ '=' :: value ++ ['\n']).dropWhile isSpace =
      first :: (others ++ '=' :: (value ++ ['\n'])) := by
    rw [cons_append, cons_append, dropWhile_cons_of_neg
      (by rw [isName.notBlank first rfl]; exact Bool.false_ne_true), append_assoc]
    rfl
  have othersChars : ∀ char ∈ others, decide (char ≠ '=') = true := by
    intro char member
    apply decide_eq_true
    rintro rfl
    exact isName.noEquals (mem_cons_of_mem _ member)
  have valueChars : ∀ char ∈ value, decide (char ≠ '\n') = true := by
    intro char member
    apply decide_eq_true
    rintro rfl
    exact noNewline member
  obtain ⟨isOthers, afterOthers⟩ := takeWhile_append_ends othersChars
    (show ∀ char ∈ ('=' :: (value ++ ['\n'])).head?, decide (char ≠ '=') = false by
      rintro char ⟨⟩
      rfl)
  obtain ⟨isValue, _⟩ := takeWhile_append_ends valueChars
    (show ∀ char ∈ ['\n'].head?, decide (char ≠ '\n') = false by
      rintro char ⟨⟩
      rfl)
  unfold of
  rw [isString, isStart]
  dsimp only
  rw [afterOthers, isOthers]
  dsimp only
  rw [isValue]

theorem of_endcmd :
    of ("endcmd".toList ++ ['\n']) = endcmd := by decide

end SpawnLine

end Mpich.Pmi
