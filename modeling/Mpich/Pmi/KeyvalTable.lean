import Mpich.Pmi.Keyvals

/-!
# The table of keys and values

`PMIU_keyval_tab` has 64 entries, and no check stands in front of a store. The
scanner reads a line item for item, so that a line is what its items and the text behind
them are. A key that does not fit is cut, and is then not found.
-/

namespace Mpich.Pmi

open List

/-- The rounds of `PMIU_parse_keyvals` on the real table: `none` when a store lies outside
its 64 entries or behind a value's array, and when the rounds do not suffice. -/
def parseRounds : Nat → List Char → KeyvalTab → Option (Int × KeyvalTab)
  | 0, _, _ => none
  | rounds + 1, st, tab =>
    match st.dropWhile (· = ' ') with
    | [] => some (0, tab)
    | first :: others =>
      if first = '=' then some (-1, tab)
      else if first = '\n' then some (0, tab)
      else
        match (first :: others).dropWhile isKeyChar with
        | [] => some (-1, tab)
        | delimiter :: value =>
          if delimiter ≠ '=' then some (-1, tab)
          else
            let offset := (value.takeWhile isValueChar).length
            if tab.length < 64 ∧ offset < 1024 then
              let tab := tab ++ [((strncpy ((first :: others).takeWhile isKeyChar) 32).1,
                (strncpy value 1024).1.take offset)]
              match value.dropWhile isValueChar with
              | [] => some (0, tab)
              | stop :: rest =>
                if stop = ' ' then parseRounds rounds (stop :: rest) tab
                else some (0, tab)
            else none

/-- Items stand in front of the rest of the text. -/
inductive Front : List Char → KeyvalTab → List Char → Prop
  | nil {st : List Char} : Front st [] st
  | blank {st rest : List Char} {items : KeyvalTab} (front : Front st items rest) :
      Front (' ' :: st) items rest
  | item {key value text rest : List Char} {items : KeyvalTab}
      (nonempty : key ≠ [])
      (keyChars : ∀ char ∈ key, isKeyChar char = true)
      (valueChars : ∀ char ∈ value, isValueChar char = true)
      (ends : Ends text)
      (front : Front text items rest) :
      Front (key ++ '=' :: (value ++ text)) ((key, value) :: items) rest

/-- The text is a list of items. -/
def IsList (st : List Char) (items : KeyvalTab) : Prop :=
  ∃ rest, Front st items rest ∧ (rest = [] ∨ rest.head? = some '\n')

/-- The line is parsed within the table, and then its items are found. -/
def ParsedExactly (st : List Char) : Prop :=
  ∃ rc tab, parseRounds (st.length + 1) st [] = some (rc, tab) ∧
    (∀ entry ∈ tab, entry.1.length < 32 ∧ entry.2.length < 1024) ∧
    (rc = 0 ↔ ∃ items, IsList st items) ∧ ∀ items, IsList st items → ∀ keystr vallen,
      (∀ item ∈ items, item.2.length < vallen) → getval keystr vallen tab =
          match items.find? (·.1 = keystr) with
          | some (_, value) => (value, true)
          | none => ([], false)

/-- The entry of an item. -/
def stored (item : List Char × List Char) : List Char × List Char :=
  (item.1.take 31, item.2)

section

variable {rounds : Nat} {st rest key value : List Char} {tab items : KeyvalTab}

theorem parseRounds_item
    (nonempty : key ≠ [])
    (keyChars : ∀ char ∈ key, isKeyChar char = true)
    (valueChars : ∀ char ∈ value, isValueChar char = true)
    (ends : Ends rest) :
    parseRounds (rounds + 2) (key ++ '=' :: (value ++ rest)) tab =
      if tab.length < 64 ∧ value.length < 1024 then
        parseRounds (rounds + 1) rest (tab ++ [stored (key, value)])
      else none := by
  obtain ⟨first, others, rfl⟩ := exists_cons_of_ne_nil nonempty
  have isFirst := keyChars first mem_cons_self
  unfold isKeyChar isValueChar at isFirst
  simp only [Bool.and_eq_true, decide_eq_true_eq] at isFirst
  obtain ⟨⟨notBlank, notNewline⟩, notEquals⟩ := isFirst
  have isStart : (first :: others ++ '=' :: (value ++ rest)).dropWhile (· = ' ') =
      first :: (others ++ '=' :: (value ++ rest)) := by
    rw [cons_append, dropWhile_cons_of_neg (by simpa using notBlank)]
  obtain ⟨isKey, afterKey⟩ := takeWhile_append_ends keyChars
    (show ∀ char ∈ ('=' :: (value ++ rest)).head?, isKeyChar char = false by
      rintro char ⟨⟩
      rfl)
  obtain ⟨isValue, afterValue⟩ := takeWhile_append_ends valueChars ends
  rw [parseRounds, isStart]
  dsimp only
  rw [if_neg notEquals, if_neg notNewline, ← cons_append, afterKey, isKey]
  dsimp only
  rw [if_neg fun differs => differs rfl, isValue, afterValue]
  split
  case isFalse => rfl
  case isTrue room =>
    have isCopied : (strncpy (value ++ rest) 1024).1.take value.length = value := by
      unfold strncpy
      rw [take_take, take_append_of_le_length (by omega), take_of_length_le (by omega)]
    rw [isCopied]
    cases rest with
    | nil => rfl
    | cons stop more =>
      have isEnd : isValueChar stop = false := ends stop rfl
      obtain rfl | rfl : stop = ' ' ∨ stop = '\n' := by
        simpa [isValueChar, or_iff_not_imp_left] using isEnd
      · rfl
      · rfl

theorem Front.short (front : Front st items rest) :
    2 * items.length + rest.length ≤ st.length ∧
      ∀ item ∈ items, item.1.length < st.length ∧ item.2.length < st.length := by
  induction front with
  | nil => simp
  | blank front ih =>
    rw [length_cons]
    refine ⟨by omega, fun item member => ?_⟩
    have := ih.2 item member
    omega
  | item nonempty keyChars valueChars ends front ih =>
    have := length_pos_iff.mpr nonempty
    simp only [length_append, length_cons, forall_mem_cons]
    refine ⟨by omega, ⟨by omega, by omega⟩, fun item member => ?_⟩
    have := ih.2 item member
    omega

/-- The items in front are put into the table as far as it goes. -/
theorem parseRounds_front (front : Front st items rest) (short : st.length < 1024)
    (inTable : tab.length ≤ 64) :
    parseRounds (rounds + items.length + 1) st tab = if tab.length + items.length ≤ 64 then
        parseRounds (rounds + 1) rest (tab ++ items.map stored)
      else none := by
  induction front generalizing tab with
  | nil => simp [inTable]
  | blank front ih =>
    rw [← ih (Nat.lt_of_succ_lt short) inTable]
    rfl
  | @item key value text rest items nonempty keyChars valueChars ends front ih =>
    simp only [length_append, length_cons] at short
    rw [length_cons, ← add_assoc rounds, parseRounds_item nonempty keyChars valueChars ends]
    by_cases room : tab.length < 64
    · rw [if_pos ⟨room, by omega⟩, ih (by omega) (by rw [length_append]; exact room), map_cons,
        append_assoc, length_append, length_singleton, add_assoc tab.length, add_comm 1]
      rfl
    · rw [if_neg fun both => room both.1, if_neg (by omega)]

/-- A line is its items and an end, or something that is not parsed. -/
theorem exists_front (st : List Char) :
    ∃ items rest, Front st items rest ∧ ((rest = [] ∨ rest.head? = some '\n') ∨
        ∀ rounds tab, parseRounds (rounds + 1) rest tab = some (-1, tab)) := by
  induction isLength : st.length using Nat.strong_induction_on generalizing st with
  | _ length ih =>
    subst isLength
    match st with
    | [] => exact ⟨[], [], .nil, .inl (.inl rfl)⟩
    | first :: others =>
      by_cases blank : first = ' '
      · subst blank
        obtain ⟨items, rest, front, ending⟩ := ih _ (Nat.lt_succ_self _) others rfl
        exact ⟨items, rest, .blank front, ending⟩
      by_cases newline : first = '\n'
      · exact ⟨[], _, .nil, .inl (.inr (congrArg some newline))⟩
      have isStart : (first :: others).dropWhile (· = ' ') = first :: others :=
        dropWhile_cons_of_neg (by simpa using blank)
      by_cases equals : first = '='
      · refine ⟨[], _, .nil, .inr fun rounds tab => ?_⟩
        rw [parseRounds, isStart]
        exact if_pos equals
      have parts := @takeWhile_append_dropWhile _ isKeyChar (first :: others)
      cases afterKey : (first :: others).dropWhile isKeyChar with
      | nil =>
        refine ⟨[], _, .nil, .inr fun rounds tab => ?_⟩
        rw [parseRounds, isStart]
        dsimp only
        rw [if_neg equals, if_neg newline, afterKey]
      | cons delimiter behind =>
        by_cases isEquals : delimiter = '='
        case neg =>
          refine ⟨[], _, .nil, .inr fun rounds tab => ?_⟩
          rw [parseRounds, isStart]
          dsimp only
          rw [if_neg equals, if_neg newline, afterKey]
          exact if_pos isEquals
        case pos =>
          rw [afterKey, isEquals, ← @takeWhile_append_dropWhile _ isValueChar behind] at parts
          have shorter := congrArg List.length parts
          rw [length_append, length_cons, length_append] at shorter
          obtain ⟨items, rest, front, ending⟩ := ih (behind.dropWhile isValueChar).length
            (by omega) _ rfl
          have nonempty : (first :: others).takeWhile isKeyChar ≠ [] := by
            rw [takeWhile_cons_of_pos (by simp [isKeyChar, isValueChar, *])]
            exact cons_ne_nil _ _
          have ends : Ends (behind.dropWhile isValueChar) := by
            intro char isHead
            have stopped := head?_dropWhile_not isValueChar behind
            rw [Option.mem_def.mp isHead] at stopped
            simpa using stopped
          have whole := Front.item nonempty (fun char => mem_takeWhile_imp)
            (fun char => @mem_takeWhile_imp _ _ behind char) ends front
          rw [parts] at whole
          exact ⟨_, rest, whole, ending⟩

/-- A list that fits is parsed in all its rounds. -/
theorem parseRounds_isList (isList : IsList st items) (short : st.length < 1024)
    (few : items.length ≤ 64) :
    parseRounds (st.length + 1) st [] = some (0, items.map stored) := by
  obtain ⟨rest, front, ending⟩ := isList
  have ⟨enough, _⟩ := front.short
  obtain ⟨rounds, isRounds⟩ := Nat.exists_eq_add_of_le' (show items.length ≤ st.length by omega)
  rw [isRounds, parseRounds_front front short (Nat.zero_le _),
    if_pos (by rwa [length_nil, zero_add]), nil_append]
  rcases ending with rfl | newline
  · rfl
  · obtain ⟨others, rfl⟩ := head?_eq_some_iff.mp newline
    rfl

/-- The table is large enough for every line with so few items, and every item of a
list is found when the keys fit. -/
theorem parsedExactly_iff (line : List Char) (short : line.length < 1024) :
    ParsedExactly (cString line) ↔
      (∀ items rest, Front (cString line) items rest → items.length ≤ 64) ∧
        ∀ items, IsList (cString line) items → ∀ item ∈ items, item.1.length < 32 := by
  replace short := (takeWhile_sublist (· ≠ nul)).length_le.trans_lt short
  change (cString line).length < 1024 at short
  generalize cString line = st at short ⊢
  constructor
  · rintro ⟨rc, tab, parsed, entries, -, found⟩
    have few : ∀ items rest, Front st items rest → items.length ≤ 64 := by
      intro items rest front
      by_contra many
      have ⟨enough, _⟩ := front.short
      obtain ⟨rounds, isRounds⟩ := Nat.exists_eq_add_of_le' (show items.length ≤ st.length by omega)
      rw [isRounds, parseRounds_front front short (Nat.zero_le _),
        if_neg (by rwa [length_nil, zero_add])] at parsed
      cases parsed
    refine ⟨few, fun items isList item member => ?_⟩
    obtain ⟨rest, front, ending⟩ := isList
    have value := found items ⟨rest, front, ending⟩ item.1 st.length
      fun other isOther => (front.short.2 other isOther).2
    by_contra long
    have hasKey : (items.find? fun other => decide (other.1 = item.1)).isSome := by
      rw [find?_isSome]
      exact ⟨item, member, decide_eq_true rfl⟩
    obtain ⟨⟨key, val⟩, isFound⟩ := Option.isSome_iff_exists.mp hasKey
    have notFound : tab.find? (·.1 = item.1) = none := by
      rw [find?_eq_none]
      intro entry isEntry same
      have := (entries entry isEntry).1
      exact long (of_decide_eq_true same ▸ this)
    rw [isFound, getval, notFound] at value
    cases value
  · rintro ⟨few, keysFit⟩
    obtain ⟨items, rest, front, ending⟩ := exists_front st
    have inTable := few items rest front
    have ⟨enough, valuesFit⟩ := front.short
    obtain ⟨rounds, isRounds⟩ := Nat.exists_eq_add_of_le' (show items.length ≤ st.length by omega)
    have entries : ∀ entry ∈ items.map stored, entry.1.length < 32 ∧ entry.2.length < 1024 := by
      rw [forall_mem_map]
      intro item member
      exact ⟨Nat.lt_succ_of_le (length_take_le 31 item.1), (valuesFit item member).2.trans short⟩
    have isParsed : ∀ others, IsList st others →
        parseRounds (st.length + 1) st [] = some (0, others) := by
      rintro others ⟨behind, isFront, isEnd⟩
      rw [parseRounds_isList ⟨behind, isFront, isEnd⟩ short (few _ _ isFront)]
      have unchanged : others.map stored = others.map id := by
        apply map_congr_left
        intro item member
        rw [stored, take_of_length_le (Nat.le_of_lt_succ
          (keysFit others ⟨behind, isFront, isEnd⟩ item member))]
        rfl
      rw [unchanged, map_id]
    have parsed : ∃ rc, parseRounds (st.length + 1) st [] =
        some (rc, items.map stored) ∧ (rc = 0 ↔ ∃ items, IsList st items) := by
      rcases ending with isEnd | malformed
      · have isList : IsList st items := ⟨rest, front, isEnd⟩
        exact ⟨0, parseRounds_isList isList short inTable, by simpa using ⟨_, isList⟩⟩
      · have rejected : parseRounds (st.length + 1) st [] = some (-1, items.map stored) := by
          rw [isRounds, parseRounds_front front short (Nat.zero_le _),
            if_pos (by rwa [length_nil, zero_add]), nil_append, malformed]
        refine ⟨-1, rejected, fun zero => absurd zero (by decide), ?_⟩
        rintro ⟨others, isList⟩
        rw [isParsed others isList] at rejected
        cases rejected
    obtain ⟨rc, isRc, returns⟩ := parsed
    refine ⟨rc, _, isRc, entries, returns, fun others isList keystr vallen fits => ?_⟩
    rw [isParsed others isList] at isRc
    obtain ⟨-, isTab⟩ := Prod.mk.inj (Option.some.inj isRc)
    rw [← isTab, getval]
    cases isFound : others.find? (·.1 = keystr) with
    | none => rfl
    | some item =>
      have fitsItem := fits item (mem_of_find?_eq_some isFound)
      exact Prod.ext (strncpy_fst fitsItem) (decide_eq_true fitsItem)

end

/-- A line that is shorter than a key may be. -/
theorem parsedExactly_short :
    ParsedExactly (cString "a=1 a= b=2".toList) := by
  apply (parsedExactly_iff "a=1 a= b=2".toList (by decide)).mpr
  have isShort : (cString "a=1 a= b=2".toList).length = 10 := by decide
  constructor
  · intro items rest front
    have ⟨enough, _⟩ := front.short
    omega
  · rintro items ⟨rest, front, -⟩ item member
    have ⟨keyFits, _⟩ := front.short.2 item member
    omega

/-- The key is cut. -/
theorem not_parsedExactly_longKey :
    ¬ ParsedExactly (cString (replicate 32 'k' ++ ['='])) := by
  rintro ⟨rc, tab, parsed, -, -, found⟩
  have front : Front (replicate 32 'k' ++ '=' :: ([] ++ [])) [(replicate 32 'k', [])] [] :=
    .item (by decide) (fun _ member => eq_of_mem_replicate member ▸ by decide) nofun
      (by rintro char ⟨⟩) .nil
  have isList : IsList (cString (replicate 32 'k' ++ ['='])) [(replicate 32 'k', [])] :=
    ⟨[], front, .inl rfl⟩
  have isTab : some ((0 : Int), [(replicate 31 'k', [])]) = some (rc, tab) :=
    (show _ = _ by decide).trans parsed
  obtain ⟨-, rfl⟩ := Prod.mk.inj (Option.some.inj isTab)
  have value := found _ isList (replicate 32 'k') 1 (by decide)
  revert value
  decide

end Mpich.Pmi
