import Mathlib.Data.List.Basic
import Mathlib.Data.List.TakeWhile

/-!
# Text with null characters

A C string ends at its first null character. A list of strings is written by
writing each of them with the null character behind it, and read again by
reading one string after the other. Numbers are written and read as `%d` and
`atoi` do.
-/

namespace Mpich.NulText

open List

/-- The null character. -/
def nul : Char :=
  Char.ofNat 0

/-- The strings, each with a null character behind it. -/
def terminated (fields : List (List Char)) : List Char :=
  fields.flatMap (fun field => field ++ [nul])

/-- The string at the start of the text and what follows its null character;
`none` when the text ends first. -/
def readField : List Char → Option (List Char × List Char)
  | [] => none
  | first :: rest =>
    if first = nul then some ([], rest)
    else (readField rest).map fun read => (first :: read.1, read.2)

/-- Read several strings. -/
def readFields : Nat → List Char → Option (List (List Char) × List Char)
  | 0, text => some ([], text)
  | count + 1, text =>
    match readField text with
    | none => none
    | some (field, rest) =>
      (readFields count rest).map fun read => (field :: read.1, read.2)

/-- What `%d` writes for a number that is not negative. -/
def decimal (number : Nat) : List Char :=
  Nat.toDigits 10 number

/-- The number that the digits at the start of a text make up. -/
def leadingDigits (text : List Char) : Nat :=
  Nat.ofDigitChars 10 (text.takeWhile Char.isDigit) 0

/-- `atoi` -/
def atoi (text : List Char) : Int :=
  match text.dropWhile Char.isWhitespace with
  | [] => 0
  | first :: rest =>
    if first = '-' then -(leadingDigits rest)
    else if first = '+' then leadingDigits rest
    else leadingDigits (first :: rest)

@[simp] theorem terminated_nil : terminated [] = [] := rfl

theorem terminated_cons (field : List Char) (fields : List (List Char)) :
    terminated (field :: fields) = field ++ nul :: terminated fields := by
  simp [terminated]

theorem terminated_append (left right : List (List Char)) :
    terminated (left ++ right) = terminated left ++ terminated right :=
  flatMap_append

/-- Reading a string yields what was written. -/
theorem readField_append
    {field : List Char}
    (nulFree : nul ∉ field)
    (rest : List Char) :
    readField (field ++ nul :: rest) = some (field, rest) := by
  induction field with
  | nil => simp [readField]
  | cons first others ih =>
    rw [mem_cons, not_or] at nulFree
    rw [cons_append, readField, if_neg (Ne.symm nulFree.1), ih nulFree.2]
    rfl

/-- Reading as many strings as were written yields them. -/
theorem readFields_terminated
    {fields : List (List Char)}
    (nulFree : ∀ field ∈ fields, nul ∉ field)
    (rest : List Char) :
    readFields fields.length (terminated fields ++ rest) = some (fields, rest) := by
  induction fields with
  | nil => rfl
  | cons field others ih =>
    rw [forall_mem_cons] at nulFree
    rw [terminated_cons, append_assoc, cons_append,
      length_cons, readFields, readField_append nulFree.1]
    simp only [ih nulFree.2, Option.map_some]

theorem decimal_isDigit
    {number : Nat} {digit : Char}
    (member : digit ∈ decimal number) :
    digit.isDigit = true :=
  Nat.isDigit_of_mem_toDigits (by decide) (by decide) member

/-- A number is written without a null character. -/
theorem nul_notMem_decimal (number : Nat) : nul ∉ decimal number := by
  intro member
  have digit := decimal_isDigit member
  revert digit
  decide

/-- A number is made up of its digits. -/
theorem leadingDigits_decimal (number : Nat) :
    leadingDigits (decimal number) = number := by
  have whole : (decimal number).takeWhile Char.isDigit = decimal number :=
    takeWhile_eq_self_iff.mpr fun digit member => decimal_isDigit member
  unfold leadingDigits
  rw [whole]
  exact Nat.ofDigitChars_ten_toDigits

/-- Reading a number yields the one that was written. -/
theorem atoi_decimal (number : Nat) : atoi (decimal number) = number := by
  have digits := leadingDigits_decimal number
  cases written : decimal number with
  | nil => exact absurd written Nat.toDigits_ne_nil
  | cons first rest =>
    have isDigit : first.isDigit = true := @decimal_isDigit number first (by simp [written])
    have notSpace : first.isWhitespace = false := by
      cases space : first.isWhitespace with
      | false => rfl
      | true =>
        simp only [Char.isWhitespace, Bool.or_eq_true, decide_eq_true_eq] at space
        rcases space with ((rfl | rfl) | rfl) | rfl <;>
          simp at isDigit
    have notMinus : first ≠ '-' := by
      rintro rfl
      simp at isDigit
    have notPlus : first ≠ '+' := by
      rintro rfl
      simp at isDigit
    rw [written] at digits
    simp only [atoi, dropWhile_cons, notSpace, Bool.false_eq_true, if_false,
      if_neg notMinus, if_neg notPlus, digits]

end Mpich.NulText
