import Mpich.Pmi.SpawnArrays
import Mpich.Pmi.SpawnClient

/-!
# The blocks of a spawn call

The server reads the lines of a block as the parts that the client has written, and makes
the app of the command out of them.
-/

namespace Mpich.Pmi

open List Function Option

variable {number : Int}

variable {char : Char}

theorem mem_showInt
    (member : char ∈ showInt number) :
    char.isDigit = true ∨ char = '-' := by
  cases number with
  | ofNat number => exact .inl (NulText.decimal_isDigit member)
  | negSucc number =>
    rcases mem_cons.mp member with isMinus | isDigit
    · exact .inr isMinus
    · exact .inl (NulText.decimal_isDigit isDigit)

theorem not_mem_showInt
    (notDigit : char.isDigit = false)
    (notMinus : char ≠ '-') :
    char ∉ showInt number := by
  intro member
  rcases mem_showInt member with isDigit | isMinus
  · rw [notDigit] at isDigit
    cases isDigit
  · exact notMinus isMinus

theorem showInt_nonempty (number : Int) :
    showInt number ≠ [] := by
  cases number with
  | ofNat number => exact Nat.toDigits_ne_nil
  | negSucc number => exact cons_ne_nil _ _

theorem isText_showInt (number : Int) :
    IsText (showInt number) :=
  ⟨not_mem_showInt (by decide) (by decide), not_mem_showInt (by decide) (by decide)⟩

theorem isSpace_of_isDigit
    (isDigit : char.isDigit = true) :
    isSpace char = false := by
  simp only [Char.isDigit, Bool.and_eq_true, decide_eq_true_eq, ge_iff_le,
    UInt32.le_iff_toNat_le] at isDigit
  obtain ⟨lower, _⟩ := isDigit
  change 48 ≤ char.toNat at lower
  have notBlank : char ≠ ' ' := by
    rintro rfl
    exact absurd lower (by decide)
  unfold isSpace
  rw [decide_eq_false notBlank, Bool.false_or, Bool.and_eq_false_iff]
  exact .inr (decide_eq_false (by omega))

theorem isSpace_of_showInt
    (member : char ∈ showInt number) :
    isSpace char = false := by
  rcases mem_showInt member with isDigit | rfl
  · exact isSpace_of_isDigit isDigit
  · decide

/-- A number that fits is read as it was written. -/
theorem atoi_showInt (isInt : IsInt number) :
    atoi (showInt number) = number := by
  have noSpace : (showInt number).dropWhile isSpace = showInt number := by
    obtain ⟨first, rest, isCons⟩ := exists_cons_of_ne_nil (showInt_nonempty number)
    have isFirst : first ∈ showInt number := by
      rw [isCons]
      exact mem_cons_self
    rw [isCons, dropWhile_cons_of_neg]
    rw [isSpace_of_showInt isFirst]
    exact Bool.false_ne_true
  have isRead : NulText.atoi (showInt number) = number := by
    cases number with
    | ofNat number => exact NulText.atoi_decimal number
    | negSucc number =>
      change -((NulText.leadingDigits (NulText.decimal (number + 1)) : Nat) : Int) = _
      rw [NulText.leadingDigits_decimal]
      rfl
  obtain ⟨lower, upper⟩ := isInt
  unfold atoi
  rw [noSpace, isRead]
  have isMin : min (2 ^ 63 - 1) number = number := by omega
  have isMax : max (-2 ^ 63) number = number := by omega
  rw [isMin, isMax]
  apply Int.bmod_eq_of_le
  · omega
  · omega

/-- A name and a value that are read as they are written. -/
structure FieldFits
    (field : List Char × List Char) : Prop where
  isName : SpawnLine.IsName field.1
  named : 3 ≤ field.1.length
  isLine : '\n' ∉ field.1
  isText : IsText field.2

/-- The parts one after the other. -/
def actAll
    (parts : List SpawnPart)
    (vars : SpawnVars) : Option SpawnVars :=
  parts.foldlM (fun vars said =>
    match said.act vars with
    | .more later => some later
    | _ => none) vars

theorem actAll_append
    (parts others : List SpawnPart)
    (vars : SpawnVars) :
    actAll (parts ++ others) vars = (actAll parts vars).bind (actAll others) :=
  foldlM_append

theorem actAll_cons
    {said : SpawnPart} {parts : List SpawnPart} {vars later : SpawnVars}
    (acted : said.act vars = .more later) :
    actAll (said :: parts) vars = actAll parts later := by
  unfold actAll
  rw [foldlM_cons, acted]
  rfl

theorem spawnLines_of_fields
    {fields : List (List Char × List Char)} {vars last : SpawnVars}
    (fits : ∀ field ∈ fields, FieldFits field)
    (acted : actAll (fields.map fun field => .ofNamed field.1 field.2) vars = some last) :
    spawnLines (fields.map (fun field => field.1 ++ '=' :: field.2) ++ ["endcmd".toList])
      vars = some last := by
  induction fields generalizing vars with
  | nil =>
    obtain rfl : vars = last := Option.some.inj acted
    rfl
  | cons field rest ih =>
    have fitsField := fits field mem_cons_self
    have isLine : spawnLine (field.1 ++ '=' :: field.2 ++ ['\n']) vars =
        SpawnPart.act vars (.ofNamed field.1 field.2) := by
      rw [spawnLine_eq, SpawnLine.of_named fitsField.isName fitsField.isText.1 fitsField.isText.2]
      rfl
    rw [map_cons, cons_append, spawnLines, isLine]
    unfold actAll at acted
    rw [map_cons, foldlM_cons] at acted
    cases isEnd : SpawnPart.act vars (.ofNamed field.1 field.2) with
    | more later =>
      rw [isEnd] at acted
      exact ih (fun other member =>
        fits other (mem_cons_of_mem _ member)) acted
    | done later =>
      rw [isEnd] at acted
      cases acted
    | malformed later =>
      rw [isEnd] at acted
      cases acted
    | fault =>
      rw [isEnd] at acted
      cases acted

/-- The pairs are put one after the other, and a key that is there keeps its value. -/
def putAll
    (pairs : Pairs)
    (preput : List (List Char × List Char)) : Pairs :=
  preput.foldl (fun pairs pair => (addPair pairs pair.1 pair.2).getD pairs) pairs

variable {args : List (List Char)}

/-- The arguments get their places. -/
theorem actAll_args
    {start : Nat} {vars : SpawnVars}
    (fits : start + args.length ≤ maxArgs) :
    ∃ array, actAll (args.mapIdx fun number value =>
        .arg ((start + number + 1 : Nat) : Int) value) vars = some { vars with args := array } ∧
      (∀ place, place < start → array place = vars.args place) ∧
      ∀ place value, args[place]? = some value → array (start + place) = some value := by
  induction args generalizing start vars with
  | nil => exact ⟨vars.args, rfl, fun _ _ => rfl, nofun⟩
  | cons first rest ih =>
    rw [length_cons] at fits
    have acted : (SpawnPart.arg ((start + 0 + 1 : Nat) : Int) first).act vars =
        .more { vars with args := update vars.args start (some first) } := by
      rw [SpawnPart.act, if_neg (by omega)]
      have isPlace : (((start + 0 + 1 : Nat) : Int) - 1).toNat = start := by omega
      rw [isPlace]
    obtain ⟨array, isArray, isKept, isPut⟩ :=
      @ih (start + 1)
        { vars with args := update vars.args start (some first) } (by omega)
    refine ⟨array, ?_, ?_, ?_⟩
    · rw [mapIdx_cons, actAll_cons acted]
      simp only [show ∀ number, start + (number + 1) + 1 = start + 1 + number + 1 by omega]
      exact isArray
    · intro place isBefore
      rw [isKept place (Nat.lt_succ_of_lt isBefore)]
      exact update_of_ne (ne_of_lt isBefore) _ _
    · intro place value isValue
      cases place with
      | zero =>
        obtain rfl := Option.some.inj isValue
        rw [add_zero, isKept start (Nat.lt_succ_self _)]
        exact update_self _ _ _
      | succ place =>
        rw [← isPut place value isValue]
        congr 1
        omega

/-- The pairs are put. -/
theorem actAll_preput
    (preput : List (List Char × List Char))
    (vars : SpawnVars) :
    ∃ key, actAll (preput.flatMap fun pair => [.preputKey pair.1, .preputVal pair.2]) vars =
      some { vars with key := key, pairs := putAll vars.pairs preput } := by
  induction preput generalizing vars with
  | nil => exact ⟨vars.key, rfl⟩
  | cons pair rest ih =>
    obtain ⟨key, isRest⟩ := ih { vars with
      key := some pair.1
      pairs := (addPair vars.pairs pair.1 pair.2).getD vars.pairs }
    exact ⟨key, isRest⟩

/-- The info pairs are applied. -/
theorem actAll_info
    (info : List (List Char × List Char))
    (number : Nat → Int)
    (vars : SpawnVars) :
    ∃ index key, actAll (info.mapIdx fun place pair =>
        [.infoKey (number place) pair.1, .infoVal (number place) pair.2]).flatten vars =
      some { vars with
        curInfoIdx := index
        curInfoKey := key
        app := info.foldl (fun app pair => app.infoKey pair.1 pair.2) vars.app } := by
  induction info generalizing number vars with
  | nil => exact ⟨vars.curInfoIdx, vars.curInfoKey, rfl⟩
  | cons pair rest ih =>
    obtain ⟨index, key, isRest⟩ := ih (fun place => number (place + 1))
      { vars with
        curInfoIdx := number 0
        curInfoKey := some pair.1
        app := vars.app.infoKey pair.1 pair.2 }
    refine ⟨index, key, ?_⟩
    rw [mapIdx_cons, flatten_cons, cons_append, cons_append,
      nil_append, actAll_cons rfl, actAll_cons]
    · exact isRest
    · rw [SpawnPart.act, if_neg (fun differs => differs rfl)]

/-- The parts of a block. -/
def SpawnCall.parts
    (call : SpawnCall)
    (spawncnt : Nat)
    (command : SpawnCommand) : List SpawnPart :=
  [.nprocs command.maxprocs, .execname command.cmd, .totspawns call.commands.length,
    .spawnssofar (spawncnt + 1)] ++
  command.argv.mapIdx (fun number value => .arg ((0 + number + 1 : Nat) : Int) value) ++
  [.argcnt command.argv.length, .preputNum] ++
  (call.preput.flatMap fun pair => [.preputKey pair.1, .preputVal pair.2]) ++
  [.infoNum] ++
  (command.info.mapIdx fun number pair =>
    [.infoKey (atoi (showInt number)) pair.1, .infoVal (atoi (showInt number)) pair.2]).flatten

variable {call : SpawnCall} {spawncnt : Nat} {command : SpawnCommand}

theorem App.infoKey_args
    (app : App)
    (args : List (Option (List Char)))
    (key val : List Char) :
    ({ app with args := args } : App).infoKey key val =
      { app.infoKey key val with args := args } := by
  unfold App.infoKey
  split_ifs
  · rfl
  · rfl
  · rfl
  · rfl
  · rfl
  · rfl

/-- The info pairs have nothing to do with the arguments. -/
theorem foldl_infoKey
    (info : List (List Char × List Char))
    (app : App)
    (args : List (Option (List Char))) :
    info.foldl (fun app pair => app.infoKey pair.1 pair.2) { app with args := args } =
        { info.foldl (fun app pair => app.infoKey pair.1 pair.2) app with args := args } ∧
      (info.foldl (fun app pair => app.infoKey pair.1 pair.2) app).nArgs = app.nArgs := by
  induction info generalizing app with
  | nil => exact ⟨rfl, rfl⟩
  | cons pair rest ih =>
    obtain ⟨isRest, isCount⟩ := ih (app.infoKey pair.1 pair.2)
    rw [foldl_cons, foldl_cons, App.infoKey_args, isRest, isCount]
    exact ⟨rfl, App.nArgs_infoKey _ _ _⟩

/-- The arguments are taken from their places. -/
theorem map_range_args
    {array : Nat → Option (List Char)}
    (isPut : ∀ place value, args[place]? = some value → array place = some value) :
    (List.range args.length).map array = args.map some := by
  apply ext_getElem?
  intro place
  rw [getElem?_map, getElem?_map]
  by_cases isPlace : place < args.length
  · have isValue := getElem?_eq_getElem isPlace
    rw [getElem?_range isPlace, isValue, map_some, map_some, isPut place _ isValue]
  · rw [getElem?_eq_none (by rw [length_range]; omega), getElem?_eq_none (by omega)]
    rfl

theorem finished_of_args
    {vars : SpawnVars}
    (isCount : vars.app.nArgs = args.length)
    (fewArgs : args.length ≤ maxArgs)
    (noArgs : vars.app.args = [])
    (isPut : ∀ place value, args[place]? = some value → vars.args place = some value) :
    vars.finished = some { vars.app with args := args.map some } := by
  unfold SpawnVars.finished
  rw [isCount, Int.toNat_natCast, map_range_args isPut]
  split_ifs with isNone
  · have isNil : args = [] := length_eq_zero_iff.mp (by omega)
    rw [isNil, map_nil, ← noArgs]
  · rfl
  · omega

/-- The variables after the first four lines of a block. -/
def SpawnCall.startedVars
    (call : SpawnCall)
    (spawncnt : Nat)
    (command : SpawnCommand)
    (nProcess : Int)
    (pairs : Pairs) : SpawnVars :=
  { SpawnVars.initial nProcess pairs with
    app := { App.initial with
      myAppNum := (spawncnt : Int) + 1 - 1
      exename := some command.cmd
      nProcess := command.maxprocs }
    nProcess := (nProcess + command.maxprocs).bmod (2 ^ 32)
    totspawns := call.commands.length
    spawnnum := spawncnt + 1 }

/-- The app that a block makes, and what it does to the world and to the space. -/
theorem actAll_parts
    (fewArgs : command.argv.length ≤ maxArgs)
    (nProcess : Int)
    (pairs : Pairs) :
    ∃ last, actAll (call.parts spawncnt command) (.initial nProcess pairs) = some last ∧
      last.finished = some (command.app spawncnt) ∧
      last.nProcess = (nProcess + command.maxprocs).bmod (2 ^ 32) ∧
      last.pairs = putAll pairs call.preput ∧
      last.totspawns = call.commands.length ∧ last.spawnnum = spawncnt + 1 := by
  have isStarted : actAll [.nprocs command.maxprocs, .execname command.cmd,
      .totspawns call.commands.length, .spawnssofar (spawncnt + 1)]
      (.initial nProcess pairs) = some (call.startedVars spawncnt command nProcess pairs) := rfl
  generalize isVars : call.startedVars spawncnt command nProcess pairs = vars at isStarted
  obtain ⟨array, isArgs, _, isPut⟩ := @actAll_args command.argv 0 vars
    ((zero_add _).trans_le fewArgs)
  have isCounted : actAll [.argcnt command.argv.length, .preputNum]
      { vars with args := array } = some { vars with
        args := array
        app := { vars.app with nArgs := command.argv.length } } := rfl
  generalize isCountedVars : ({ vars with
    args := array
    app := { vars.app with nArgs := command.argv.length } } : SpawnVars) = counted
    at isCounted
  obtain ⟨key, isPreput⟩ := actAll_preput call.preput counted
  have isInfoNum (vars : SpawnVars) : actAll [.infoNum] vars = some vars := rfl
  obtain ⟨index, infoKey, isInfo⟩ := actAll_info command.info
    (fun number => atoi (showInt number))
    { counted with key := key, pairs := putAll counted.pairs call.preput }
  have isAll : actAll (call.parts spawncnt command) (.initial nProcess pairs) =
      actAll (command.info.mapIdx fun number pair =>
        [.infoKey (atoi (showInt number)) pair.1, .infoVal (atoi (showInt number)) pair.2]).flatten
        { counted with key := key, pairs := putAll counted.pairs call.preput } := by
    unfold SpawnCall.parts
    rw [actAll_append, actAll_append, actAll_append, actAll_append, actAll_append, isStarted,
      bind_some, isArgs, bind_some, isCounted, bind_some, isPreput, bind_some, isInfoNum, bind_some]
  refine ⟨_, isAll.trans isInfo, ?_, ?_, ?_, ?_, ?_⟩
  · obtain ⟨isFold, isCount⟩ := foldl_infoKey command.info counted.app (command.argv.map some)
    have isApp : command.app spawncnt = { command.info.foldl
        (fun app pair => app.infoKey pair.1 pair.2) counted.app with
          args := command.argv.map some } := by
      rw [← isFold]
      unfold SpawnCommand.app
      congr 1
      subst isCountedVars isVars
      unfold SpawnCall.startedVars
      rw [show (spawncnt : Int) + 1 - 1 = spawncnt by omega]
    have noArgs := congrArg App.args (foldl_infoKey command.info counted.app counted.app.args).1
    rw [isApp]
    apply finished_of_args
    · rw [isCount]
      subst isCountedVars
      rfl
    · exact fewArgs
    · refine noArgs.trans ?_
      subst isCountedVars isVars
      rfl
    · intro place value isValue
      subst isCountedVars
      rw [← isPut place value isValue, zero_add]
  · subst isCountedVars isVars
    rfl
  · subst isCountedVars isVars
    rfl
  · subst isCountedVars isVars
    rfl
  · subst isCountedVars isVars
    rfl

theorem startsWith_append (word text : List Char) :
    startsWith word (word ++ text) = true := by
  unfold startsWith
  rw [take_left]
  exact decide_eq_true rfl

/-- A numbered argument is not taken for their count. -/
theorem ofNamed_arg
    {number : Nat}
    (isInt : IsInt (number + 1))
    (value : List Char) :
    SpawnPart.ofNamed ("arg".toList ++ showInt (number + 1)) value =
      .arg ((0 + number + 1 : Nat) : Int) value := by
  obtain ⟨first, rest, isCons⟩ := exists_cons_of_ne_nil (showInt_nonempty (number + 1))
  have notCount : "arg".toList ++ showInt (number + 1) ≠ "argcnt".toList := by
    rw [isCons]
    intro same
    have isFirst : first = 'c' := by
      have tails := congrArg (drop 3) same
      exact (List.cons.inj tails).1
    have member : first ∈ showInt (number + 1) := by
      rw [isCons]
      exact mem_cons_self
    rw [isFirst] at member
    exact not_mem_showInt (by decide) (by decide) member
  have isNumber : ((0 + number + 1 : Nat) : Int) = number + 1 := by omega
  unfold SpawnPart.ofNamed
  rw [if_neg (by exact nofun), if_neg (by exact nofun), if_neg (by exact nofun),
    if_neg (by exact nofun), if_neg notCount, if_pos (startsWith_append _ _)]
  rw [show ("arg".toList ++ showInt (number + 1)).drop 3 = showInt (number + 1) from rfl,
    atoi_showInt isInt, isNumber]

theorem ofNamed_preputKey
    {key : List Char}
    (fits : key.length < maxKeyLen) :
    SpawnPart.ofNamed ("preput_key_".toList ++ showInt number) key = .preputKey key :=
  congrArg SpawnPart.preputKey (strncpy_fst fits)

theorem ofNamed_infoKey
    {key : List Char}
    (fits : key.length < maxInfoKey) :
    SpawnPart.ofNamed ("info_key_".toList ++ showInt number) key =
      .infoKey (atoi (showInt number)) key :=
  congrArg (SpawnPart.infoKey (atoi (showInt number))) (strncpy_fst fits)

theorem ofNamed_infoVal
    {val : List Char}
    (fits : val.length < maxInfoVal) :
    SpawnPart.ofNamed ("info_val_".toList ++ showInt number) val =
      .infoVal (atoi (showInt number)) val :=
  congrArg (SpawnPart.infoVal (atoi (showInt number))) (strncpy_fst fits)

theorem flatMap_eq_mapIdx
    {Input Output : Type*}
    (write : Input → List Output)
    (inputs : List Input) :
    inputs.flatMap write = (inputs.mapIdx fun _ input => write input).flatten := by
  rw [flatMap_def]
  congr 1
  apply ext_getElem?
  intro index
  rw [getElem?_map, getElem?_mapIdx]

/-- The lines of a block are read as its parts. -/
theorem map_ofNamed_fields
    (valid : call.Valid)
    (validCommand : command.Valid)
    (fewArgs : command.argv.length ≤ maxArgs)
    (isCommand : spawncnt < call.commands.length) :
    (call.fields spawncnt command).map (fun field => SpawnPart.ofNamed field.1 field.2) =
      call.parts spawncnt command := by
  have fewArgs' : command.argv.length ≤ 256 := fewArgs
  have isArgCount : IsInt command.argv.length := by
    unfold IsInt
    omega
  have isSoFar : IsInt (spawncnt + 1) := by
    have upper := valid.count.2
    unfold IsInt
    omega
  have isStart : [("nprocs".toList, showInt command.maxprocs), ("execname".toList, command.cmd),
      ("totspawns".toList, showInt call.commands.length),
      ("spawnssofar".toList, showInt (spawncnt + 1))].map
        (fun field => SpawnPart.ofNamed field.1 field.2) =
      [.nprocs command.maxprocs, .execname command.cmd, .totspawns call.commands.length,
        .spawnssofar (spawncnt + 1)] := by
    change [SpawnPart.nprocs (atoi _), .execname _, .totspawns (atoi _), .spawnssofar (atoi _)] = _
    rw [atoi_showInt validCommand.maxprocs, atoi_showInt valid.count, atoi_showInt isSoFar]
  have areArgs : (command.argv.mapIdx fun number value =>
      ("arg".toList ++ showInt (number + 1), value)).map
        (fun field => SpawnPart.ofNamed field.1 field.2) =
      command.argv.mapIdx fun number value => .arg ((0 + number + 1 : Nat) : Int) value := by
    rw [map_mapIdx]
    apply mapIdx_eq_mapIdx_iff.mpr
    intro number isNumber
    apply ofNamed_arg
    unfold IsInt
    omega
  have isCounted : [("argcnt".toList, showInt command.argv.length),
      ("preput_num".toList, showInt call.preput.length)].map
        (fun field => SpawnPart.ofNamed field.1 field.2) =
      [.argcnt command.argv.length, .preputNum] := by
    change [SpawnPart.argcnt (atoi _), .preputNum] = _
    rw [atoi_showInt isArgCount]
  have arePreput : (call.preput.mapIdx fun number pair =>
      [("preput_key_".toList ++ showInt number, pair.1),
        ("preput_val_".toList ++ showInt number, pair.2)]).flatten.map
        (fun field => SpawnPart.ofNamed field.1 field.2) =
      call.preput.flatMap fun pair => [.preputKey pair.1, .preputVal pair.2] := by
    rw [map_flatten, map_mapIdx, flatMap_eq_mapIdx]
    congr 1
    apply mapIdx_eq_mapIdx_iff.mpr
    intro number isNumber
    obtain ⟨_, _, keyFits, _⟩ := valid.preput _ (getElem_mem isNumber)
    rw [map_cons, map_cons, map_nil, ofNamed_preputKey keyFits]
    rfl
  have areInfo : (command.info.mapIdx fun number pair =>
      [("info_key_".toList ++ showInt number, pair.1),
        ("info_val_".toList ++ showInt number, pair.2)]).flatten.map
        (fun field => SpawnPart.ofNamed field.1 field.2) =
      (command.info.mapIdx fun number pair =>
        [.infoKey (atoi (showInt number)) pair.1,
          .infoVal (atoi (showInt number)) pair.2]).flatten := by
    rw [map_flatten, map_mapIdx]
    congr 1
    apply mapIdx_eq_mapIdx_iff.mpr
    intro number isNumber
    obtain ⟨_, _, keyFits, valFits⟩ := validCommand.info _ (getElem_mem isNumber)
    rw [map_cons, map_cons, map_nil, ofNamed_infoKey keyFits, ofNamed_infoVal valFits]
  unfold SpawnCall.fields SpawnCall.parts
  rw [map_append, map_append, map_append, map_append, map_append,
    isStart, areArgs, isCounted, arePreput, areInfo]
  rfl

/-- The names that are read as they are written. -/
def IsFieldName
    (name : List Char) : Prop :=
  SpawnLine.IsName name ∧ 3 ≤ name.length ∧ '\n' ∉ name

variable {name : List Char}

theorem IsFieldName.fits
    {value : List Char}
    (isName : IsFieldName name)
    (isText : IsText value) :
    FieldFits (name, value) :=
  ⟨isName.1, isName.2.1, isName.2.2, isText⟩

/-- A name with a number behind it. -/
theorem IsFieldName.numbered
    (isName : IsFieldName name)
    (number : Int) :
    IsFieldName (name ++ showInt number) := by
  obtain ⟨isName, named, isLine⟩ := isName
  obtain ⟨first, others, rfl⟩ := exists_cons_of_ne_nil isName.nonempty
  refine ⟨⟨isName.notBlank, cons_ne_nil _ _, ?_, ?_⟩, ?_, ?_⟩
  · rw [mem_append]
    rintro (inName | inNumber)
    · exact isName.noEquals inName
    · exact not_mem_showInt (by decide) (by decide) inNumber
  · rw [mem_append]
    rintro (inName | inNumber)
    · exact isName.nulFree inName
    · exact not_mem_showInt (by decide) (by decide) inNumber
  · rw [length_append]
    omega
  · rw [mem_append]
    rintro (inName | inNumber)
    · exact isLine inName
    · exact not_mem_showInt (by decide) (by decide) inNumber

/-- The names that a client writes, without their numbers. -/
def spawnNames : List (List Char) :=
  ["nprocs", "execname", "totspawns", "spawnssofar", "arg", "argcnt", "preput_num",
    "preput_key_", "preput_val_", "info_num", "info_key_", "info_val_"].map String.toList

theorem isFieldName_of_mem
    (member : name ∈ spawnNames) :
    IsFieldName name := by
  have all : ('=' ∉ name ∧ nul ∉ name ∧ '\n' ∉ name) ∧
      3 ≤ name.length ∧ name.head?.map isSpace = some false := by
    simp only [spawnNames, map_cons, map_nil, mem_cons, not_mem_nil, or_false] at member
    rcases member with rfl | rfl | rfl | rfl | rfl | rfl | rfl | rfl | rfl | rfl | rfl | rfl <;>
      decide
  obtain ⟨⟨noEquals, nulFree, noNewline⟩, named, headNotBlank⟩ := all
  have notBlank : ∀ first ∈ name.head?, isSpace first = false := by
    intro first isFirst
    rw [mem_def.mp isFirst, map_some, Option.some.injEq] at headNotBlank
    exact headNotBlank
  exact ⟨⟨notBlank, ne_nil_of_length_pos (by omega), noEquals, nulFree⟩, named, noNewline⟩

theorem keyval_fits
    {keyName valName : List Char} {number : Nat}
    {pair field : List Char × List Char}
    (isKeyName : keyName ∈ spawnNames)
    (isValName : valName ∈ spawnNames)
    (isText : IsText pair.1 ∧ IsText pair.2)
    (member : field ∈ [(keyName ++ showInt number, pair.1), (valName ++ showInt number, pair.2)]) :
    FieldFits field := by
  rcases mem_cons.mp member with rfl | member
  · exact ((isFieldName_of_mem isKeyName).numbered _).fits isText.1
  · rw [mem_singleton.mp member]
    exact ((isFieldName_of_mem isValName).numbered _).fits isText.2

section

variable
    (valid : call.Valid)
    (validCommand : command.Valid)

include valid validCommand

theorem fields_fit :
    ∀ field ∈ call.fields spawncnt command, FieldFits field := by
  intro field member
  unfold SpawnCall.fields at member
  simp only [mem_append, mem_cons, not_mem_nil, or_false, mem_flatten, mem_mapIdx] at member
  rcases member with ((((((rfl | rfl | rfl | rfl) | ⟨_, isArg, rfl⟩) | rfl | rfl) |
    ⟨_, ⟨_, isPair, rfl⟩, inPair⟩) | rfl) | ⟨_, ⟨_, isPair, rfl⟩, inPair⟩)
  · exact (isFieldName_of_mem (by decide)).fits (isText_showInt _)
  · exact (isFieldName_of_mem (by decide)).fits validCommand.cmd
  · exact (isFieldName_of_mem (by decide)).fits (isText_showInt _)
  · exact (isFieldName_of_mem (by decide)).fits (isText_showInt _)
  · exact ((isFieldName_of_mem (by decide)).numbered _).fits
      (validCommand.argv _ (getElem_mem isArg))
  · exact (isFieldName_of_mem (by decide)).fits (isText_showInt _)
  · exact (isFieldName_of_mem (by decide)).fits (isText_showInt _)
  · obtain ⟨keyText, valText, _⟩ := valid.preput _ (getElem_mem isPair)
    exact keyval_fits (by decide) (by decide) ⟨keyText, valText⟩ inPair
  · exact (isFieldName_of_mem (by decide)).fits (isText_showInt _)
  · obtain ⟨keyText, valText, _⟩ := validCommand.info _ (getElem_mem isPair)
    exact keyval_fits (by decide) (by decide) ⟨keyText, valText⟩ inPair

variable (fits : (call.blockText spawncnt command).length < maxLine)

include fits in
/-- A block that fits has places for all arguments. -/
theorem fewArgs_of_fits :
    command.argv.length ≤ maxArgs := by
  have areLong : 5 * (call.fields spawncnt command).length ≤ ((call.fields spawncnt command).flatMap
        fun field => field.1 ++ '=' :: field.2 ++ ['\n']).length := by
    apply mul_length_le_flatMap
    intro field member
    have named := (fields_fit valid validCommand field member).named
    simp
    omega
  have isText : ((call.fields spawncnt command).flatMap
      fun field => field.1 ++ '=' :: field.2 ++ ['\n']).length ≤
        (call.blockText spawncnt command).length := by
    rw [SpawnCall.blockText_eq]
    unfold SpawnCall.lines
    rw [flatMap_append, flatMap_map]
    simp only [length_append, length_cons]
    omega
  have areArgs : command.argv.length ≤ (call.fields spawncnt command).length := by
    unfold SpawnCall.fields
    simp only [length_append, length_mapIdx]
    omega
  unfold maxLine at fits
  unfold maxArgs
  omega

/-- What the lines of a block make of the variables. -/
theorem spawnLines_block
    (isCommand : spawncnt < call.commands.length)
    (fits : (call.blockText spawncnt command).length < maxLine)
    (nProcess : Int)
    (pairs : Pairs) :
    ∃ last, spawnLines (call.lines spawncnt command) (.initial nProcess pairs) = some last ∧
      last.finished = some (command.app spawncnt) ∧
      last.nProcess = (nProcess + command.maxprocs).bmod (2 ^ 32) ∧
      last.pairs = putAll pairs call.preput ∧
      last.totspawns = call.commands.length ∧ last.spawnnum = spawncnt + 1 := by
  have fewArgs := fewArgs_of_fits valid validCommand fits
  obtain ⟨last, acted, isLast⟩ := @actAll_parts call spawncnt command fewArgs nProcess pairs
  refine ⟨last, ?_, isLast⟩
  apply spawnLines_of_fields (fields_fit valid validCommand)
  rw [map_ofNamed_fields valid validCommand fewArgs isCommand]
  exact acted

include fits in
theorem lines_isLine :
    ∀ line ∈ call.lines spawncnt command, IsLine line := by
  intro line member
  constructor
  · unfold SpawnCall.lines at member
    rcases mem_append.mp member with inFields | isEnd
    · obtain ⟨field, isField, rfl⟩ := mem_map.mp inFields
      have isFit := fields_fit valid validCommand field isField
      intro isNewline
      rcases mem_append.mp isNewline with inName | isNewline
      · exact isFit.isLine inName
      rcases mem_cons.mp isNewline with isEquals | inValue
      · exact absurd isEquals (by decide)
      · exact isFit.isText.2 inValue
    · rw [mem_singleton.mp isEnd]
      decide
  · obtain ⟨before, behind, isLines⟩ := append_of_mem member
    rw [SpawnCall.blockText_eq, isLines, flatMap_append, flatMap_cons] at fits
    simp only [length_append, length_cons] at fits
    omega

end

/-- The block as the server takes it. -/
def SpawnCall.blockCommand
    (valid : call.Valid)
    (validCommand : command.Valid)
    (isCommand : spawncnt < call.commands.length)
    (fits : (call.blockText spawncnt command).length < maxLine) : Command :=
  .spawn
    ⟨"mcmd=".toList, "spawn".toList, [], .inr rfl, by decide, by
      unfold IsLine
      decide⟩
    (call.lines spawncnt command) (by decide) (lines_isLine valid validCommand fits)
    (by
      intro nProcess pairs
      obtain ⟨last, isLast, isApp, _⟩ :=
        spawnLines_block valid validCommand isCommand fits nProcess pairs
      exact ⟨last, _, isLast, isApp⟩)

theorem text_blockCommand
    (valid : call.Valid)
    (validCommand : command.Valid)
    (isCommand : spawncnt < call.commands.length)
    (fits : (call.blockText spawncnt command).length < maxLine) :
    (SpawnCall.blockCommand valid validCommand isCommand fits).text =
      call.blockText spawncnt command := by
  rw [SpawnCall.blockText_eq]
  unfold SpawnCall.blockCommand Command.text FirstLine.line
  simp

end Mpich.Pmi
