import Mpich.Pmi.SpawnBlocks

/-!
# Key and value strings

`argstr.c`: `MPIU_Str_add_string_arg`, `MPIU_Str_add_binary_arg` and
`MPIU_Str_add_int_arg` append `key#value$` to a buffer, and the functions
`MPIU_Str_get_*_arg` search the buffer for a key and read the value behind it.
A key or a value is written between quotes when it holds a separator or a
delimiter or starts with a quote; quotes inside are escaped.

A string is the list of its characters in front of the null character, and a
pointer into a string is what is left of the string from there.
-/

namespace Mpich.Util.Argstr

/-- The two sets of token characters of `mpimem.h`. The second one is chosen by
`USE_HUMAN_READABLE_TOKENS`. -/
inductive TokenChars
  | standard
  | humanReadable
  deriving DecidableEq, Repr

/-- `MPIU_STR_SEPAR_CHAR` -/
def TokenChars.separ : TokenChars → Char
  | .standard => '$'
  | .humanReadable => ' '

/-- `MPIU_STR_DELIM_CHAR` -/
def TokenChars.delim : TokenChars → Char
  | .standard => '#'
  | .humanReadable => '='

/-- `MPIU_STR_QUOTE_CHAR` -/
def quoteChar : Char := '"'

/-- `MPIU_STR_ESCAPE_CHAR` -/
def escapeChar : Char := '\\'

/-- The error codes `MPIU_STR_FAIL` and `MPIU_STR_NOMEM`. -/
inductive StrError
  | fail
  | nomem
  deriving DecidableEq, Repr

/-- What a function that reads a value comes to. A value that does not fit is
cut off. -/
inductive Fetched (α : Type*)
  | success (value : α)
  | truncated (value : α)
  | fail
  /-- The pointer runs over the end of the string. -/
  | overrun
  deriving DecidableEq, Repr

variable (chars : TokenChars)

/-- `first_token`; `none` is a null pointer. -/
def firstToken (str : List Char) : Option (List Char) :=
  match str.dropWhile (fun char => decide (char = chars.separ)) with
  | [] => none
  | first :: rest => some (first :: rest)

/-- The loop of `next_token` over a quoted string, behind its first quote. -/
def skipQuoted : List Char → Option (List Char)
  | [] => none
  | '"' :: rest => some rest
  | '\\' :: '"' :: rest => skipQuoted rest
  | _ :: rest => skipQuoted rest

/-- The characters of a literal token. -/
def isLiteral (char : Char) : Bool :=
  decide (char ≠ chars.separ ∧ char ≠ chars.delim)

/-- `next_token` -/
def nextToken (str : List Char) : Option (List Char) :=
  match firstToken chars str with
  | none => none
  | some [] => none
  | some (first :: rest) =>
    if first = quoteChar then
      (skipQuoted rest).bind (firstToken chars)
    else if first = chars.delim then
      firstToken chars rest
    else
      firstToken chars ((first :: rest).dropWhile (isLiteral chars))

/-- `compare_token` for a quoted token, behind its first quote: whether it
returns 0. An escaped quote ends the comparison like the last quote does when the
string ends there. -/
def compareQuoted : List Char → List Char → Bool
  | [], _ => false
  | '"' :: _, str => str.isEmpty
  | '\\' :: '"' :: token, str =>
    match str with
    | [] => true
    | char :: str => if char = '"' then compareQuoted token str else false
  | first :: token, str =>
    match str with
    | [] => false
    | char :: str => if char = first then compareQuoted token str else false

/-- `compare_token` for a literal: whether it returns 0. -/
def compareLiteral : List Char → List Char → Bool
  | [], str => str.isEmpty
  | first :: _, [] => decide (first = chars.delim ∨ first = chars.separ)
  | first :: token, char :: str =>
    if first = char ∧ first ≠ chars.delim ∧ first ≠ chars.separ then
      compareLiteral token str
    else
      false

/-- Whether `compare_token` returns 0. The sign of its other results is used
nowhere. -/
def compareToken (token : Option (List Char)) (str : List Char) : Bool :=
  match token with
  | none => false
  | some [] => compareLiteral chars [] str
  | some (first :: rest) =>
    if first = quoteChar then
      compareQuoted rest str
    else if first = chars.delim then
      decide (str = [chars.delim])
    else
      compareLiteral chars (first :: rest) str

/-- The loop of `token_copy` over a quoted string, behind its first quote, when
these characters have been copied. -/
def copyQuoted : List Char → List Char → Nat → Fetched (List Char)
  | copied, _, 0 => .truncated copied.dropLast
  | _, [], _ + 1 => .overrun
  | copied, '"' :: _, _ + 1 => .success copied
  | copied, '\\' :: '"' :: token, maxlen + 1 =>
    copyQuoted (copied ++ ['"']) token maxlen
  | copied, first :: token, maxlen + 1 =>
    copyQuoted (copied ++ [first]) token maxlen

/-- `token_copy` -/
def tokenCopy (token : List Char) (maxlen : Nat) : Fetched (List Char) :=
  if maxlen < 1 then
    .fail
  else if maxlen = 1 then
    .success []
  else
    match firstToken chars token with
    | none => .success []
    | some [] => .success []
    | some (first :: rest) =>
      if first = chars.delim then
        .success [chars.delim]
      else if first = quoteChar then
        copyQuoted [] rest maxlen
      else
        let literal := (first :: rest).takeWhile (isLiteral chars)
        if literal.length < maxlen then
          .success literal
        else
          .truncated (literal.take (maxlen - 1))

/-- A hexadecimal digit of `%02X`. -/
def hexDigit (digit : Nat) : Char :=
  if digit < 10 then
    Char.ofNat ('0'.toNat + digit)
  else
    Char.ofNat ('A'.toNat + (digit - 10))

/-- `%02X` -/
def hexPair (byte : UInt8) : List Char :=
  [hexDigit (byte.toNat / 16), hexDigit (byte.toNat % 16)]

/-- The value of a hexadecimal digit. -/
def hexValue (char : Char) : Option Nat :=
  if '0' ≤ char ∧ char ≤ '9' then
    some (char.toNat - '0'.toNat)
  else if 'A' ≤ char ∧ char ≤ 'F' then
    some (char.toNat - 'A'.toNat + 10)
  else if 'a' ≤ char ∧ char ≤ 'f' then
    some (char.toNat - 'a'.toNat + 10)
  else
    none

/-- `sscanf` of two characters with `%X`: blanks and a sign in front of a digit
are passed over. `none` when there is no number, and the variable keeps its
value. -/
def scanHex (first second : Char) : Option Int :=
  match hexValue first, hexValue second with
  | some high, some low => some (16 * high + low)
  | some digit, none =>
    if first = '0' ∧ (second = 'x' ∨ second = 'X') then
      none
    else
      some digit
  | none, some digit =>
    if first.isWhitespace ∨ first = '+' then
      some digit
    else if first = '-' then
      some (-digit)
    else
      none
  | none, none => none

/-- The loop of `encode_buffer`. A pair that does not fit leaves less room than
the caller needs. -/
def encodeLoop : Int → List UInt8 → Option (List Char)
  | _, [] => some []
  | destLength, byte :: src =>
    if destLength = 0 then
      none
    else
      (encodeLoop (destLength - 2) src).map fun dest => hexPair byte ++ dest

/-- `encode_buffer`: what is written and `num_encoded`; `none` is
`MPIU_STR_TRUNCATED`. -/
def encodeBuffer (destLength : Int) (src : List UInt8) :
    Option (List Char × Nat) :=
  match src with
  | [] =>
    if 2 < destLength then
      some ([quoteChar, quoteChar], 0)
    else
      none
  | first :: rest =>
    (encodeLoop destLength (first :: rest)).map fun dest =>
      (dest, (first :: rest).length)

/-- The loop of `decode_buffer`, with the content of `value`: the bytes and the
pointer at the end. `none` when it runs over the end of the string. -/
def decodeLoop : Int → List Char → Nat → Option (List UInt8 × List Char)
  | _, str, 0 => some ([], str)
  | _, [], _ + 1 => some ([], [])
  | _, [first], _ + 1 =>
    if first = chars.separ ∨ first = quoteChar then
      some ([], [first])
    else
      none
  | value, first :: second :: str, length + 1 =>
    if first = chars.separ ∨ first = quoteChar then
      some ([], first :: second :: str)
    else
      let value := (scanHex first second).getD value
      (decodeLoop value str length).map fun decoded =>
        (UInt8.ofNat (value % 256).toNat :: decoded.1, decoded.2)

/-- The characters at which `decode_buffer` stops. -/
def endsBytes : List Char → Bool
  | [] => true
  | first :: _ => decide (first = chars.separ ∨ first = quoteChar)

/-- `decode_buffer`. The variable `value` is not initialized. -/
def decodeBuffer (value : Int) (str : List Char) (length : Nat) :
    Fetched (List UInt8) :=
  if length < 1 then
    if str = [] then
      .success []
    else
      .truncated []
  else
    let start := if str.head? = some quoteChar then str.tail else str
    match decodeLoop chars value start length with
    | none => .overrun
    | some (bytes, rest) =>
      if bytes.length = length ∧ endsBytes chars rest = false then
        .truncated bytes
      else
        .success bytes

/-- The search that the functions `MPIU_Str_get_*_arg` make: the token behind the
first `flag` with a delimiter. Each round goes on to the next token. -/
def searchArg (flag : List Char) :
    Nat → Option (List Char) → Option (List Char)
  | 0, _ => none
  | _ + 1, none => none
  | fuel + 1, some str =>
    if compareToken chars (some str) flag = true then
      let next := nextToken chars str
      if compareToken chars next [chars.delim] = true then
        next.bind (nextToken chars)
      else
        searchArg flag fuel next
    else
      searchArg flag fuel (nextToken chars str)

/-- A token takes at least one character. -/
def findArg (str flag : List Char) : Option (List Char) :=
  searchArg chars flag (str.length + 1) (firstToken chars str)

/-- `MPIU_Str_get_string_arg` -/
def getStringArg (str flag : List Char) (maxlen : Nat) : Fetched (List Char) :=
  if maxlen < 1 then
    .fail
  else
    match findArg chars str flag with
    | none => .fail
    | some token => tokenCopy chars token maxlen

/-- `MPIU_Str_get_binary_arg` -/
def getBinaryArg (value : Int) (str flag : List Char) (maxlen : Nat) :
    Fetched (List UInt8) :=
  if maxlen < 1 then
    .fail
  else
    match findArg chars str flag with
    | none => .fail
    | some token => decodeBuffer chars value token maxlen

/-- `MPIU_Str_get_int_arg` -/
def getIntArg (str flag : List Char) : Fetched Int :=
  match getStringArg chars str flag 12 with
  | .success text => .success (Pmi.atoi text)
  | .truncated text => .truncated (Pmi.atoi text)
  | .fail => .fail
  | .overrun => .overrun

/-- A buffer that is being filled: the characters in front of `*str_ptr`, and
`*maxlen_ptr`. -/
structure ArgBuffer where
  text : List Char
  maxlen : Int
  deriving DecidableEq, Repr

/-- The string is put between quotes. -/
def NeedsQuotes (text : List Char) : Prop :=
  chars.separ ∈ text ∨ chars.delim ∈ text ∨ text.head? = some quoteChar

instance (text : List Char) : Decidable (NeedsQuotes chars text) :=
  inferInstanceAs (Decidable (_ ∨ _ ∨ _))

/-- The loop of `quoted_printf` and the last quote. -/
def quotedLoop : Nat → List Char → List Char
  | 0, _ => []
  | _ + 1, [] => [quoteChar]
  | maxlen + 1, char :: val =>
    if char = quoteChar then
      match maxlen with
      | 0 => [escapeChar]
      | maxlen + 1 => escapeChar :: quoteChar :: quotedLoop maxlen val
    else
      char :: quotedLoop maxlen val

/-- `quoted_printf`: the characters it counts. -/
def quotedPrintf (maxlen : Nat) (val : List Char) : List Char :=
  match maxlen with
  | 0 => []
  | maxlen + 1 => quoteChar :: quotedLoop maxlen val

/-- Add the key and the delimiter. -/
def addFlag (buffer : ArgBuffer) (flag : List Char) :
    Except StrError ArgBuffer :=
  let written :=
    if NeedsQuotes chars flag then
      quotedPrintf buffer.maxlen.toNat flag
    else
      flag
  if buffer.maxlen - written.length < 1 then
    .error .nomem
  else
    .ok {
      text := buffer.text ++ written ++ [chars.delim]
      maxlen := buffer.maxlen - written.length - 1 }

/-- Add a value that takes so many characters of what has been written, and the
separator. -/
def addValue (buffer : ArgBuffer) (written : List Char) (numChars : Nat) :
    Except StrError ArgBuffer :=
  if buffer.maxlen - numChars < 2 then
    .error .nomem
  else
    .ok {
      text := buffer.text ++ written.take numChars ++ [chars.separ]
      maxlen := buffer.maxlen - numChars - 1 }

/-- `MPIU_Str_add_string_arg`. What a call that fails leaves in the buffer is not
modelled. -/
def addStringArg (buffer : ArgBuffer) (flag val : List Char) :
    Except StrError ArgBuffer :=
  if buffer.maxlen < 1 then
    .error .fail
  else
    (addFlag chars buffer flag).bind fun buffer =>
      let written :=
        if NeedsQuotes chars val then
          quotedPrintf buffer.maxlen.toNat val
        else if val = [] then
          [quoteChar, quoteChar]
        else
          val
      addValue chars buffer written written.length

/-- `MPIU_Str_add_int_arg` -/
def addIntArg (buffer : ArgBuffer) (flag : List Char) (val : Int) :
    Except StrError ArgBuffer :=
  addStringArg chars buffer flag ((Pmi.showInt val).take 11)

/-- `MPIU_Str_add_binary_arg` -/
def addBinaryArg (buffer : ArgBuffer) (flag : List Char) (bytes : List UInt8) :
    Except StrError ArgBuffer :=
  if buffer.maxlen < 1 then
    .error .fail
  else
    (addFlag chars buffer flag).bind fun buffer =>
      match encodeBuffer buffer.maxlen bytes with
      | none => .error .nomem
      | some (written, numEncoded) => addValue chars buffer written (numEncoded * 2)

/-- A value that can be added. -/
inductive Value
  | string (text : List Char)
  | binary (bytes : List UInt8)
  | int (number : { number : Int // Pmi.IsInt number })
  deriving DecidableEq

/-- A key with its value. -/
structure Arg where
  key : List Char
  value : Value
  deriving DecidableEq

/-- Add an argument with the function for its value. -/
def addArg (buffer : ArgBuffer) (arg : Arg) : Except StrError ArgBuffer :=
  match arg.value with
  | .string text => addStringArg chars buffer arg.key text
  | .binary bytes => addBinaryArg chars buffer arg.key bytes
  | .int number => addIntArg chars buffer arg.key number.1

/-- Add arguments one after another. -/
def addArgs (buffer : ArgBuffer) (args : List Arg) :
    Except StrError ArgBuffer :=
  args.foldlM (addArg chars) buffer

/-- The function for the value of an argument, given room for it, returns exactly
that value, whatever an uninitialized variable holds. -/
def ReadsBack (str : List Char) (arg : Arg) : Prop :=
  match arg.value with
  | .string text => ∀ maxlen, text.length < maxlen →
      getStringArg chars str arg.key maxlen = .success text
  | .binary bytes => ∀ value maxlen, 1 ≤ maxlen → bytes.length ≤ maxlen →
      getBinaryArg chars value str arg.key maxlen = .success bytes
  | .int number => getIntArg chars str arg.key = .success number.1

end Mpich.Util.Argstr
