import Mathlib.Data.String.Basic
import Mpich.Foundation.NulText
import Mpich.Foundation.SortedAssoc

/-!
# Keys and values in a line

The strings of a line `key=value key=value` are kept in a table, from which
`PMIU_getval` copies them. The text of a C string is what stands in front of its NUL.
-/

namespace Mpich.Pmi

open List

/-- The null character. -/
def nul : Char := Char.ofNat 0

/-- The C string at the start of an array. -/
def cString
    (text : List Char) : List Char :=
  text.takeWhile (· ≠ nul)

/-- `MPIU_Strncpy`: the copy, and whether all of the string is in it. -/
def strncpy
    (src : List Char)
    (size : Nat) : List Char × Bool :=
  (src.take (size - 1), decide (src.length < size))

/-- `MPIU_Snprintf`, whose result is not negative. -/
def snprintf
    (size : Nat)
    (text : List Char) : List Char :=
  text.take (size - 1)

/-- `MPIU_Strnapp` -/
def strnapp
    (dest src : List Char)
    (size : Nat) : Option (List Char) :=
  if dest.length + 1 < size ∧ dest.length + src.length < size then some (dest ++ src)
  else none

variable {text : List Char}

theorem cString_of_nulFree
    (nulFree : nul ∉ text) :
    cString text = text := by
  apply takeWhile_eq_self_iff.mpr
  intro char member
  simpa using fun (same : char = nul) => nulFree (same ▸ member)

theorem strncpy_fst
    {src : List Char} {size : Nat}
    (fits : src.length < size) :
    (strncpy src size).1 = src :=
  take_of_length_le (Nat.le_sub_one_of_lt fits)

theorem snprintf_of_fits
    {size : Nat}
    (fits : text.length < size) :
    snprintf size text = text :=
  take_of_length_le (Nat.le_sub_one_of_lt fits)

/-- Parts that are not short make up a text that is not short. -/
theorem mul_length_le_flatMap
    {Part : Type*} {least : Nat} {write : Part → List Char} {parts : List Part}
    (each : ∀ part ∈ parts, least ≤ (write part).length) :
    least * parts.length ≤ (parts.flatMap write).length := by
  induction parts with
  | nil => exact Nat.zero_le _
  | cons part parts ih =>
    have isFirst := each part mem_cons_self
    have areOthers := ih fun other member =>
      each other (mem_cons_of_mem _ member)
    rw [flatMap_cons, length_append, length_cons, Nat.mul_succ]
    omega

/-- `PMIU_keyval_tab` up to `PMIU_keyval_tab_idx` -/
abbrev KeyvalTab := List (List Char × List Char)

/-- A character that ends neither a key nor a value. -/
def isValueChar
    (char : Char) : Bool :=
  char ≠ ' ' && char ≠ '\n'

def isKeyChar
    (char : Char) : Bool :=
  isValueChar char && char ≠ '='

/-- One round of `PMIU_parse_keyvals` for each key, with what it returns. -/
def parseLoop : Nat → List Char → KeyvalTab → Int × KeyvalTab
  | 0, _, tab => (0, tab)
  | fuel + 1, st, tab =>
    match st.dropWhile (· = ' ') with
    | [] => (0, tab)
    | first :: others =>
      if first = '=' then (-1, tab)
      else if first = '\n' then (0, tab)
      else
        match (first :: others).dropWhile isKeyChar with
        | [] => (-1, tab)
        | delimiter :: value =>
          if delimiter ≠ '=' then (-1, tab)
          else
            let val := value.takeWhile isValueChar
            let tab := tab ++ [((strncpy ((first :: others).takeWhile isKeyChar) 32).1,
              (strncpy value 1024).1.take val.length)]
            match value.dropWhile isValueChar with
            | [] => (0, tab)
            | stop :: rest =>
              if stop = ' ' then parseLoop fuel (stop :: rest) tab else (0, tab)

/-- `PMIU_parse_keyvals`; every round but the last one uses up a character. -/
def parseKeyvals
    (st : List Char) : Int × KeyvalTab :=
  parseLoop (st.length + 1) st []

/-- `PMIU_getval`: what is copied, and whether the key is found and its value fits. -/
def getval
    (keystr : List Char)
    (vallen : Nat)
    (tab : KeyvalTab) : List Char × Bool :=
  match tab.find? (·.1 = keystr) with
  | some (_, value) => strncpy value vallen
  | none => ([], false)

variable {fuel vallen : Nat} {st key value rest : List Char} {tab : KeyvalTab} {char : Char}

/-- A text without blanks and newlines. -/
def Unbroken
    (text : List Char) : Prop :=
  ' ' ∉ text ∧ '\n' ∉ text

instance (text : List Char) : Decidable (Unbroken text) :=
  inferInstanceAs (Decidable (_ ∧ _))

theorem Unbroken.isValueChar
    (unbroken : Unbroken text) :
    ∀ char ∈ text, isValueChar char = true := by
  intro char member
  unfold Pmi.isValueChar
  have notBlank : char ≠ ' ' := fun same => unbroken.1 (same ▸ member)
  have notNewline : char ≠ '\n' := fun same => unbroken.2 (same ▸ member)
  simp [notBlank, notNewline]

/-- What stands behind a value. -/
def Ends
    (rest : List Char) : Prop :=
  ∀ char ∈ rest.head?, isValueChar char = false

theorem takeWhile_append_ends
    {test : Char → Bool}
    (all : ∀ char ∈ text, test char = true)
    (ends : ∀ char ∈ rest.head?, test char = false) :
    (text ++ rest).takeWhile test = text ∧ (text ++ rest).dropWhile test = rest := by
  rw [takeWhile_append_of_pos all, dropWhile_append_of_pos all]
  cases rest with
  | nil => exact ⟨append_nil text, rfl⟩
  | cons first others =>
    have isEnd := ends first rfl
    rw [takeWhile_cons_of_neg (by rw [isEnd]; exact Bool.false_ne_true),
      dropWhile_cons_of_neg (by rw [isEnd]; exact Bool.false_ne_true)]
    exact ⟨append_nil text, rfl⟩

theorem parseLoop_blank :
    parseLoop fuel (' ' :: st) tab = parseLoop fuel st tab := by
  cases fuel with
  | zero => rfl
  | succ fuel => rfl

/-- A key with its value is put into the table. -/
theorem parseLoop_pair
    (keyNonempty : key ≠ [])
    (keyShort : key.length < 32)
    (keyUnbroken : Unbroken key)
    (noEquals : '=' ∉ key)
    (valueShort : value.length < 1024)
    (valueUnbroken : Unbroken value)
    (ends : Ends rest) :
    parseLoop (fuel + 2) (key ++ '=' :: (value ++ rest)) tab =
      parseLoop (fuel + 1) rest (tab ++ [(key, value)]) := by
  obtain ⟨first, others, rfl⟩ := exists_cons_of_ne_nil keyNonempty
  have keyChars : ∀ char ∈ first :: others, isKeyChar char = true := by
    intro char member
    unfold isKeyChar
    have notEquals : char ≠ '=' := fun same => noEquals (same ▸ member)
    simp [keyUnbroken.isValueChar char member, notEquals]
  have notBlank : first ≠ ' ' := fun same => keyUnbroken.1 (same ▸ mem_cons_self)
  have notNewline : first ≠ '\n' := fun same => keyUnbroken.2 (same ▸ mem_cons_self)
  have notEquals : first ≠ '=' := fun same => noEquals (same ▸ mem_cons_self)
  have isStart : (first :: others ++ '=' :: (value ++ rest)).dropWhile (· = ' ') =
      first :: (others ++ '=' :: (value ++ rest)) := by
    rw [cons_append, dropWhile_cons_of_neg (by simpa using notBlank)]
  obtain ⟨isKey, afterKey⟩ := takeWhile_append_ends keyChars
    (show ∀ char ∈ ('=' :: (value ++ rest)).head?, isKeyChar char = false by
      rintro char ⟨⟩
      rfl)
  obtain ⟨isValue, afterValue⟩ := takeWhile_append_ends valueUnbroken.isValueChar ends
  rw [parseLoop, isStart]
  dsimp only
  rw [if_neg notEquals, if_neg notNewline, ← cons_append, afterKey, isKey]
  have isCopied : (strncpy (value ++ rest) 1024).1.take value.length = value := by
    unfold strncpy
    rw [take_take, take_append_of_le_length (by omega), take_of_length_le (by omega)]
  dsimp only
  rw [if_neg fun differs => differs rfl, isValue, afterValue, strncpy_fst keyShort, isCopied]
  cases rest with
  | nil => rfl
  | cons stop more =>
    have isEnd : isValueChar stop = false := ends stop rfl
    obtain rfl | rfl : stop = ' ' ∨ stop = '\n' := by
      by_contra neither
      obtain ⟨notBlank, notNewline⟩ := not_or.mp neither
      simp [isValueChar, notBlank, notNewline] at isEnd
    · rfl
    · rfl

/-- What is in the table stays there. -/
theorem parseLoop_grows
    (fuel : Nat)
    (st : List Char)
    (tab : KeyvalTab) :
    ∃ more, (parseLoop fuel st tab).2 = tab ++ more := by
  induction fuel generalizing st tab with
  | zero => exact ⟨[], (append_nil tab).symm⟩
  | succ fuel ih =>
    unfold parseLoop
    split
    · exact ⟨[], (append_nil tab).symm⟩
    split_ifs
    · exact ⟨[], (append_nil tab).symm⟩
    · exact ⟨[], (append_nil tab).symm⟩
    split
    · exact ⟨[], (append_nil tab).symm⟩
    split_ifs
    · exact ⟨[], (append_nil tab).symm⟩
    split
    · exact ⟨_, rfl⟩
    split_ifs
    · obtain ⟨more, isMore⟩ := ih _ _
      exact ⟨_, isMore.trans (append_assoc _ _ _)⟩
    · exact ⟨_, rfl⟩

/-- A key and a value that are read as they are written. -/
structure PairFits
    (pair : List Char × List Char) : Prop where
  keyNonempty : pair.1 ≠ []
  keyShort : pair.1.length < 32
  keyUnbroken : Unbroken pair.1
  noEquals : '=' ∉ pair.1
  valueShort : pair.2.length < 1024
  valueUnbroken : Unbroken pair.2
  nulFree : nul ∉ pair.1 ∧ nul ∉ pair.2

/-- Pairs as they are written, each with a blank in front. -/
def pairsText
    (pairs : KeyvalTab) : List Char :=
  pairs.flatMap fun pair => ' ' :: pair.1 ++ '=' :: pair.2

theorem parseLoop_pairs
    (pairs : KeyvalTab)
    (fits : ∀ pair ∈ pairs, PairFits pair)
    (ends : Ends rest) :
    parseLoop (fuel + pairs.length + 1) (pairsText pairs ++ rest) tab =
      parseLoop (fuel + 1) rest (tab ++ pairs) := by
  induction pairs generalizing tab with
  | nil => rw [append_nil]; rfl
  | cons pair pairs ih =>
    have fitsPair := fits pair mem_cons_self
    have isText : pairsText (pair :: pairs) ++ rest =
        ' ' :: (pair.1 ++ '=' :: (pair.2 ++ (pairsText pairs ++ rest))) := by
      unfold pairsText
      simp
    have endsPair : Ends (pairsText pairs ++ rest) := by
      cases pairs with
      | nil => exact ends
      | cons next others =>
        rintro char ⟨⟩
        rfl
    rw [isText, parseLoop_blank, length_cons, show fuel + (pairs.length + 1) + 1 =
      fuel + pairs.length + 2 by omega, parseLoop_pair fitsPair.keyNonempty
      fitsPair.keyShort fitsPair.keyUnbroken fitsPair.noEquals fitsPair.valueShort
      fitsPair.valueUnbroken endsPair, ih fun other member =>
        fits other (mem_cons_of_mem _ member), append_assoc]
    rfl

/-- The pairs at the start of a line. -/
theorem parseKeyvals_pairs
    (pairs : KeyvalTab)
    (fits : ∀ pair ∈ pairs, PairFits pair)
    (ends : Ends rest)
    (isText : ' ' :: st = pairsText pairs ++ rest) :
    ∃ fuel, parseKeyvals st = parseLoop (fuel + 1) rest pairs := by
  have long : 2 * pairs.length ≤ (pairsText pairs).length := by
    apply mul_length_le_flatMap
    simp
    omega
  have isLength := congrArg length isText
  rw [length_cons, length_append] at isLength
  obtain ⟨fuel, isFuel⟩ := Nat.exists_eq_add_of_le' (show pairs.length ≤ st.length by omega)
  refine ⟨fuel, ?_⟩
  unfold parseKeyvals
  rw [← parseLoop_blank, isText, isFuel, parseLoop_pairs pairs fits ends, nil_append]

end Mpich.Pmi

/-!
## Key-value spaces

The server keeps the spaces in the order of their names, and the pairs of a space in the
order of their keys.
-/

namespace Mpich.Pmi

open SortedAssoc

/-- `MAXKEYLEN` of the server -/
def maxKeyLen : Nat := 64

/-- `MAXVALLEN` of the server -/
def maxValLen : Nat := 256

/-- `MAXKVSNAME` -/
def maxKvsName : Nat := 256

/-- The `PMIKVPair`s of a space, in their list. -/
abbrev Pairs := List (List Char × List Char)

/-- The `PMIKVSpace`s in their list, with their names. -/
abbrev KVSpaces := List (List Char × Pairs)

/-- `fPMIKVSFindKey`, before the value is copied. -/
def findKey
    (pairs : Pairs)
    (key : List Char) : Option (List Char) :=
  find pairs key

/-- `fPMIKVSAddPair`; `none` for a duplicate. -/
def addPair
    (pairs : Pairs)
    (key val : List Char) : Option Pairs :=
  insert key ((strncpy key maxKeyLen).1, (strncpy val maxValLen).1) pairs

/-- `fPMIKVSFindSpace` -/
def findSpace
    (spaces : KVSpaces)
    (kvsname : List Char) : Option Pairs :=
  find spaces kvsname

/-- The name that `fPMIKVSAllocate` makes. -/
def allocatedName
    (pid kvsnum : Nat) : List Char :=
  snprintf maxKvsName ("kvs_".toList ++ NulText.decimal pid ++ "_".toList ++ NulText.decimal kvsnum)

/-- The list of spaces with a new one, in front of the first that has a later name. -/
def insertSpace
    (kvsname : List Char) : KVSpaces → KVSpaces
  | [] => [(kvsname, [])]
  | space :: rest =>
    if kvsname < space.1 then (kvsname, []) :: space :: rest
    else space :: insertSpace kvsname rest

end Mpich.Pmi
