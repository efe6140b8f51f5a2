import Mpich.Util.Argstr.Tokens

/-!
# What is added is read back

A buffer that is large enough holds, for each argument, the token of its key, the
delimiter, the token of its value and a separator. The search for a key goes from
token to token; `PassedBy` says that it does not stop at an argument in front of
the one it looks for, and then the value behind the key is read as it was added.
-/

namespace Mpich.Util.Argstr

open List Option

variable (chars : TokenChars)

/-- The token of a key. -/
def keyToken (key : List Char) : List Char :=
  if NeedsQuotes chars key then quoted key else key

/-- The token of a value that is a string. -/
def stringToken (text : List Char) : List Char :=
  if NeedsQuotes chars text ∨ text = [] then quoted text else text

/-- The content of the token of a value. -/
def Value.content : Value → List Char
  | .string text => text
  | .binary bytes => bytes.flatMap hexPair
  | .int number => Pmi.showInt number.1

/-- The token of a value. -/
def Value.token : Value → List Char
  | .string text => stringToken chars text
  | .binary bytes => bytes.flatMap hexPair
  | .int number => stringToken chars (Pmi.showInt number.1)

/-- What is added for an argument. -/
def Arg.text (arg : Arg) : List Char :=
  keyToken chars arg.key ++ chars.delim ::
    (arg.value.token chars ++ [chars.separ])

/-- The search for this key does not stop at an argument that is followed by this
key token: the key is not taken for the key of the argument, the delimiter is not
taken for the key with a value that looks like a delimiter behind it, and the
value is not taken for the key with a key that looks like a delimiter behind
it. -/
def PassedBy (key : List Char) (arg next : Arg) : Prop :=
  ¬ (NeedsQuotes chars arg.key ∧ key ++ ['"'] <+: arg.key) ∧
    ¬ (key = [chars.delim] ∧ Matches chars arg.value.content [chars.delim]) ∧
    ¬ (Matches chars arg.value.content key ∧ Matches chars next.key [chars.delim])

instance (key : List Char) (arg next : Arg) :
    Decidable (PassedBy chars key arg next) :=
  inferInstanceAs (Decidable (_ ∧ _ ∧ _))

/-- The arguments are kept apart. -/
structure Legible (args : List Arg) : Prop where
  named : ∀ arg ∈ args, arg.key ≠ []
  keyCloses : ∀ arg ∈ args, NeedsQuotes chars arg.key → Closes arg.key
  valueCloses : ∀ arg ∈ args, ∀ text, arg.value = .string text →
    NeedsQuotes chars text → Closes text
  notEmpty : ∀ arg ∈ args, arg.value ≠ .binary []
  passedBy : ∀ before arg after, args = before ++ arg :: after →
    List.IsChain (PassedBy chars arg.key) (before ++ [arg])

variable {chars}

theorem quotedLoop_eq
    (text : List Char)
    {maxlen : Nat}
    (fits : (escaped text).length < maxlen) :
    quotedLoop maxlen text = escaped text ++ ['"'] := by
  obtain ⟨room, rfl⟩ := Nat.exists_eq_add_of_lt fits
  clear fits
  induction text with
  | nil => simp [quotedLoop, quoteChar]
  | cons char text ih =>
    by_cases isQuote : char = '"'
    · subst isQuote
      rw [escaped_quote, length_cons, length_cons, show (escaped text).length + 1 + 1 + room + 1 =
          ((escaped text).length + room + 1) + 1 + 1 by omega,
        quotedLoop, if_pos (by rfl)]
      rw [ih]
      rfl
    · rw [escaped_cons isQuote, length_cons, show (escaped text).length + 1 + room + 1 =
          ((escaped text).length + room + 1) + 1 by omega,
        quotedLoop, if_neg (by exact isQuote), ih]
      rfl

theorem quotedPrintf_eq
    (text : List Char)
    {maxlen : Nat}
    (fits : (quoted text).length ≤ maxlen) :
    quotedPrintf maxlen text = quoted text := by
  have length_eq : (quoted text).length = (escaped text).length + 2 := by
    simp [quoted]
  obtain ⟨room, rfl⟩ : ∃ room, maxlen = room + 1 := ⟨maxlen - 1, by omega⟩
  rw [quotedPrintf, quotedLoop_eq text (by omega)]
  rfl

/-- The key and the delimiter are added. -/
theorem addFlag_eq
    (buffer : ArgBuffer)
    {key : List Char}
    (fits : (keyToken chars key).length < buffer.maxlen) :
    addFlag chars buffer key = .ok {
      text := buffer.text ++ keyToken chars key ++ [chars.delim]
      maxlen := buffer.maxlen - (keyToken chars key).length - 1 } := by
  have written : (if NeedsQuotes chars key then
      quotedPrintf buffer.maxlen.toNat key else key) = keyToken chars key := by
    unfold keyToken at fits ⊢
    by_cases needs : NeedsQuotes chars key
    · rw [if_pos needs] at fits
      rw [if_pos needs, if_pos needs, quotedPrintf_eq key (by omega)]
    · rw [if_neg needs, if_neg needs]
  unfold addFlag
  simp only [written]
  rw [if_neg (by omega)]

/-- A value that is a string is added. -/
theorem addStringArg_eq
    (buffer : ArgBuffer)
    {key text : List Char}
    (fits : (keyToken chars key).length + (stringToken chars text).length + 2 < buffer.maxlen) :
    addStringArg chars buffer key text = .ok {
      text := buffer.text ++ (keyToken chars key ++ chars.delim ::
        (stringToken chars text ++ [chars.separ]))
      maxlen := buffer.maxlen -
        ((keyToken chars key).length + (stringToken chars text).length +
          2) } := by
  rw [addStringArg, if_neg (by omega), addFlag_eq buffer (by omega)]
  simp only [Except.bind]
  have written : (if NeedsQuotes chars text then
        quotedPrintf (buffer.maxlen - (keyToken chars key).length - 1).toNat text
      else if text = [] then [quoteChar, quoteChar] else text) =
      stringToken chars text := by
    unfold stringToken at fits ⊢
    by_cases needs : NeedsQuotes chars text
    · rw [if_pos (.inl needs)] at fits
      rw [if_pos needs, if_pos (.inl needs), quotedPrintf_eq text (by omega)]
    · rw [if_neg needs]
      by_cases isEmpty : text = []
      · rw [if_pos isEmpty, if_pos (.inr isEmpty), isEmpty]
        rfl
      · rw [if_neg isEmpty, if_neg (by simp [needs, isEmpty])]
  rw [written, addValue]
  simp only
  rw [if_neg (by omega), take_length]
  congr 1
  simp only [append_assoc, cons_append, nil_append, ArgBuffer.mk.injEq, true_and]
  omega

theorem encodeLoop_eq
    (bytes : List UInt8)
    {destLength : Int}
    (fits : 2 * bytes.length ≤ destLength) :
    encodeLoop destLength bytes = some (bytes.flatMap hexPair) := by
  induction bytes generalizing destLength with
  | nil => rfl
  | cons byte bytes ih =>
    rw [length_cons] at fits
    rw [encodeLoop, if_neg (by omega), ih (by omega), map_some, flatMap_cons]

theorem length_hexPairs (bytes : List UInt8) :
    (bytes.flatMap hexPair).length = 2 * bytes.length := by
  induction bytes with
  | nil => rfl
  | cons byte bytes ih =>
    rw [flatMap_cons, length_append, ih, length_cons, hexPair]
    simp only [length_cons, length_nil]
    omega

/-- Bytes are added. -/
theorem addBinaryArg_eq
    (buffer : ArgBuffer)
    {key : List Char} {bytes : List UInt8}
    (notEmpty : bytes ≠ [])
    (fits : (keyToken chars key).length + (bytes.flatMap hexPair).length + 2 < buffer.maxlen) :
    addBinaryArg chars buffer key bytes = .ok {
      text := buffer.text ++ (keyToken chars key ++ chars.delim ::
        (bytes.flatMap hexPair ++ [chars.separ]))
      maxlen := buffer.maxlen -
        ((keyToken chars key).length + (bytes.flatMap hexPair).length +
          2) } := by
  rw [addBinaryArg, if_neg (by omega), addFlag_eq buffer (by omega)]
  simp only [Except.bind]
  have length_eq := length_hexPairs bytes
  have encoded : encodeBuffer
      (buffer.maxlen - (keyToken chars key).length - 1) bytes =
        some (bytes.flatMap hexPair, bytes.length) := by
    cases bytes with
    | nil => exact absurd rfl notEmpty
    | cons byte bytes => rw [encodeBuffer, encodeLoop_eq _ (by omega), map_some]
  rw [encoded]
  simp only [addValue]
  have take_eq : bytes.length * 2 = (bytes.flatMap hexPair).length := by omega
  rw [take_eq, if_neg (by omega), take_length]
  congr 1
  simp only [append_assoc, cons_append, nil_append, ArgBuffer.mk.injEq, true_and]
  omega

theorem Arg.text_length
    (chars : TokenChars)
    (arg : Arg) :
    (arg.text chars).length =
      (keyToken chars arg.key).length + (arg.value.token chars).length + 2 := by
  simp only [Arg.text, length_append, length_cons, length_nil]
  omega

theorem length_showInt
    {number : Int}
    (isInt : Pmi.IsInt number) :
    (Pmi.showInt number).length ≤ 11 := by
  obtain ⟨lower, upper⟩ := isInt
  have short : ∀ size : Nat, size ≤ 2 ^ 31 → (NulText.decimal size).length ≤ 10 := by
    intro size bounded
    apply (Nat.length_toDigits_le_iff (by omega) (by omega)).mpr
    omega
  cases number with
  | ofNat number =>
    rw [Int.ofNat_eq_natCast] at upper
    have fits := short number (by omega)
    simp only [Pmi.showInt]
    omega
  | negSucc number =>
    have fits := short (number + 1) (by omega)
    simp only [Pmi.showInt, length_cons]
    omega

/-- An argument is added. -/
theorem addArg_eq
    (buffer : ArgBuffer)
    {arg : Arg}
    (notEmpty : arg.value ≠ .binary [])
    (fits : (arg.text chars).length < buffer.maxlen) :
    addArg chars buffer arg = .ok {
      text := buffer.text ++ arg.text chars
      maxlen := buffer.maxlen - (arg.text chars).length } := by
  rw [arg.text_length] at fits ⊢
  unfold addArg Arg.text
  cases value_eq : arg.value with
  | string text =>
    rw [value_eq] at fits
    simp only [Value.token] at fits ⊢
    rw [addStringArg_eq buffer (by omega)]
    rfl
  | binary bytes =>
    rw [value_eq] at fits notEmpty
    simp only [Value.token] at fits ⊢
    rw [addBinaryArg_eq buffer (fun isEmpty => notEmpty (by rw [isEmpty])) (by omega)]
    rfl
  | int number =>
    rw [value_eq] at fits
    simp only [Value.token] at fits ⊢
    rw [addIntArg, take_of_length_le (length_showInt number.2), addStringArg_eq buffer (by omega)]
    rfl

variable {args : List Arg}

/-- The arguments are added one after another. -/
theorem addArgs_eq
    (buffer : ArgBuffer)
    (notEmpty : ∀ arg ∈ args, arg.value ≠ .binary [])
    (fits : (args.flatMap (Arg.text chars)).length < buffer.maxlen) :
    addArgs chars buffer args = .ok {
      text := buffer.text ++ args.flatMap (Arg.text chars)
      maxlen := buffer.maxlen - (args.flatMap (Arg.text chars)).length } := by
  induction args generalizing buffer with
  | nil => simp [addArgs, pure, Except.pure]
  | cons arg args ih =>
    rw [forall_mem_cons] at notEmpty
    rw [flatMap_cons, length_append] at fits ⊢
    rw [addArgs, foldlM_cons, addArg_eq buffer notEmpty.1 (by omega)]
    change addArgs chars _ args = _
    rw [ih _ notEmpty.2 (by simp only; omega)]
    rw [append_assoc]
    congr 2
    simp only
    omega

theorem isToken_keyToken
    {key : List Char}
    (named : key ≠ [])
    (closes : NeedsQuotes chars key → Closes key) :
    IsToken chars (keyToken chars key) key := by
  unfold keyToken
  by_cases needs : NeedsQuotes chars key
  · rw [if_pos needs]
    exact isToken_quoted (closes needs) (.inl needs)
  · rw [if_neg needs]
    exact isToken_literal needs named

theorem isToken_stringToken
    {text : List Char}
    (closes : NeedsQuotes chars text → Closes text) :
    IsToken chars (stringToken chars text) text := by
  unfold stringToken
  by_cases needs : NeedsQuotes chars text
  · rw [if_pos (.inl needs)]
    exact isToken_quoted (closes needs) (.inl needs)
  · by_cases isEmpty : text = []
    · rw [if_pos (.inr isEmpty)]
      exact isToken_quoted (by simp [Closes, isEmpty]) (.inr isEmpty)
    · rw [if_neg (by simp [needs, isEmpty])]
      exact isToken_literal needs isEmpty

theorem showInt_noQuotes
    (chars : TokenChars)
    (number : Int) :
    ¬ NeedsQuotes chars (Pmi.showInt number) := by
  rintro (hasSepar | hasDelim | startsQuote)
  · cases chars <;> exact Pmi.not_mem_showInt (by decide) (by decide) hasSepar
  · cases chars <;> exact Pmi.not_mem_showInt (by decide) (by decide) hasDelim
  · exact @Pmi.not_mem_showInt _ '"' (by decide) (by decide) (mem_of_head? startsQuote)

/-- The digits of `%02X`. -/
theorem mem_hexPair
    {byte : UInt8} {char : Char}
    (member : char ∈ hexPair byte) :
    ∃ digit, digit < 16 ∧ char = hexDigit digit := by
  have bounded := byte.toNat_lt
  simp only [hexPair, mem_cons, not_mem_nil, or_false] at member
  rcases member with high | low
  · exact ⟨_, by omega, high⟩
  · exact ⟨_, by omega, low⟩

theorem hexDigit_plain :
    ∀ digit < 16, hexDigit digit ≠ '$' ∧ hexDigit digit ≠ '#' ∧
      hexDigit digit ≠ ' ' ∧ hexDigit digit ≠ '=' ∧ hexDigit digit ≠ '"' := by
  decide

theorem hexDigit_ne
    (chars : TokenChars)
    {digit : Nat}
    (bounded : digit < 16) :
    hexDigit digit ≠ chars.separ ∧ hexDigit digit ≠ chars.delim ∧ hexDigit digit ≠ quoteChar := by
  obtain ⟨dollar, hash, blank, equals, quote⟩ := hexDigit_plain digit bounded
  cases chars with
  | standard => exact ⟨dollar, hash, quote⟩
  | humanReadable => exact ⟨blank, equals, quote⟩

theorem hexPairs_noQuotes
    (chars : TokenChars)
    (bytes : List UInt8) :
    ¬ NeedsQuotes chars (bytes.flatMap hexPair) := by
  have plain : ∀ char ∈ bytes.flatMap hexPair,
      char ≠ chars.separ ∧ char ≠ chars.delim ∧ char ≠ quoteChar := by
    intro char member
    obtain ⟨byte, -, inPair⟩ := mem_flatMap.mp member
    obtain ⟨digit, bounded, rfl⟩ := mem_hexPair inPair
    exact hexDigit_ne chars bounded
  rintro (hasSepar | hasDelim | startsQuote)
  · exact (plain _ hasSepar).1 rfl
  · exact (plain _ hasDelim).2.1 rfl
  · exact (plain _ (mem_of_head? startsQuote)).2.2 rfl

/-- The value of an argument is a token. -/
theorem isToken_value
    {value : Value}
    (closes : ∀ text, value = .string text → NeedsQuotes chars text → Closes text)
    (notEmpty : value ≠ .binary []) :
    IsToken chars (value.token chars) value.content := by
  cases value with
  | string text => exact isToken_stringToken (closes text rfl)
  | binary bytes =>
    apply isToken_literal (hexPairs_noQuotes chars bytes)
    intro isEmpty
    have length_eq := length_hexPairs bytes
    rw [isEmpty, length_nil] at length_eq
    have noBytes : bytes = [] := eq_nil_of_length_eq_zero (by omega)
    exact notEmpty (by rw [noBytes])
  | int number =>
    exact isToken_stringToken (fun needs => absurd needs (showInt_noQuotes chars number.1))

theorem scanHex_digits :
    ∀ high < 16, ∀ low < 16,
      scanHex (hexDigit high) (hexDigit low) = some (16 * high + low : Int) := by
  decide

theorem scanHex_hexPair (byte : UInt8) :
    scanHex (hexDigit (byte.toNat / 16)) (hexDigit (byte.toNat % 16)) =
      some (byte.toNat : Int) := by
  have bounded := byte.toNat_lt
  rw [scanHex_digits _ (by omega) _ (by omega)]
  congr 1
  omega

/-- The loop of `decode_buffer` reads what `encode_buffer` wrote. -/
theorem decodeLoop_hexPairs
    (bytes : List UInt8)
    (rest : List Char)
    (value : Int)
    {length : Nat}
    (fits : bytes.length ≤ length) :
    decodeLoop chars value (bytes.flatMap hexPair ++ chars.separ :: rest) length =
      some (bytes, chars.separ :: rest) := by
  induction bytes generalizing value length with
  | nil =>
    cases length with
    | zero => rfl
    | succ length =>
      cases rest with
      | nil => simp [decodeLoop]
      | cons next rest => simp [decodeLoop]
  | cons byte bytes ih =>
    obtain ⟨room, rfl⟩ : ∃ room, length = room + 1 :=
      ⟨length - 1, by rw [length_cons] at fits; omega⟩
    rw [length_cons] at fits
    have bounded := byte.toNat_lt
    obtain ⟨notSepar, -, notQuote⟩ := hexDigit_ne chars (show byte.toNat / 16 < 16 by omega)
    have byte_eq : UInt8.ofNat ((byte.toNat : Int) % 256).toNat = byte := by
      rw [show ((byte.toNat : Int) % 256).toNat = byte.toNat by omega]
      exact UInt8.ofNat_toNat
    simp only [flatMap_cons, hexPair, cons_append, nil_append, decodeLoop]
    rw [if_neg (by simp [notSepar, notQuote]), scanHex_hexPair, getD_some]
    have continues := ih (byte.toNat : Int) (show bytes.length ≤ room by omega)
    rw [continues, map_some, byte_eq]

/-- Bytes are decoded as they were encoded. -/
theorem decodeBuffer_hexPairs
    {bytes : List UInt8}
    (notEmpty : bytes ≠ [])
    (rest : List Char)
    (value : Int)
    {length : Nat}
    (fits : bytes.length ≤ length) :
    decodeBuffer chars value (bytes.flatMap hexPair ++ chars.separ :: rest) length =
      .success bytes := by
  have positive : 0 < bytes.length := length_pos_of_ne_nil notEmpty
  have start_eq : (bytes.flatMap hexPair ++ chars.separ :: rest).head? ≠ some quoteChar := by
    cases bytes with
    | nil => exact absurd rfl notEmpty
    | cons byte bytes =>
      have bounded := byte.toNat_lt
      obtain ⟨-, -, notQuote⟩ := hexDigit_ne chars (show byte.toNat / 16 < 16 by omega)
      simpa [hexPair] using notQuote
  rw [decodeBuffer, if_neg (by omega)]
  simp only
  rw [if_neg start_eq, decodeLoop_hexPairs bytes rest value fits]
  simp [endsBytes]

theorem separ_not_literal (chars : TokenChars) :
    isLiteral chars chars.separ = false := by
  simp [isLiteral]

theorem delim_not_literal (chars : TokenChars) :
    isLiteral chars chars.delim = false := by
  simp [isLiteral]

/-- The search goes on to the next token. -/
theorem searchArg_next
    {str flag : List Char}
    (goesOn : ¬ (compareToken chars (some str) flag = true ∧
      compareToken chars (nextToken chars str) [chars.delim] = true))
    (fuel : Nat) :
    searchArg chars flag (fuel + 1) (some str) =
      searchArg chars flag fuel (nextToken chars str) := by
  rw [searchArg]
  by_cases isFlag : compareToken chars (some str) flag = true
  · rw [if_pos isFlag]
    rw [if_neg (fun isDelim => goesOn ⟨isFlag, isDelim⟩)]
  · rw [if_neg isFlag]

variable {arg : Arg}

section

variable
    (key : IsToken chars (keyToken chars arg.key) arg.key)
    (value : IsToken chars (arg.value.token chars) arg.value.content)

include key value

/-- The search passes an argument by. -/
theorem searchArg_passedBy
    {flag rest : List Char}
    (notKey : ¬ Matches chars arg.key flag)
    (notDelim : ¬ (flag = [chars.delim] ∧ Matches chars arg.value.content [chars.delim]))
    (notValue : ¬ (Matches chars arg.value.content flag ∧
      compareToken chars (firstToken chars rest) [chars.delim] = true))
    (fuel : Nat) :
    searchArg chars flag (fuel + 3) (some (arg.text chars ++ rest)) =
      searchArg chars flag fuel (firstToken chars rest) := by
  have text_eq : arg.text chars ++ rest = keyToken chars arg.key ++ chars.delim ::
        (arg.value.token chars ++ chars.separ :: rest) := by
    simp [Arg.text]
  have afterKey := key.nextToken_eq chars.delim
    (arg.value.token chars ++ chars.separ :: rest) (delim_not_literal chars)
  rw [firstToken_of_ne (delim_ne_separ chars)] at afterKey
  have afterDelim := @nextToken_delim chars (arg.value.token chars ++ chars.separ :: rest)
  rw [value.firstToken_eq] at afterDelim
  have afterValue := value.nextToken_eq chars.separ rest (separ_not_literal chars)
  rw [firstToken_separ] at afterValue
  rw [text_eq, searchArg_next, afterKey, searchArg_next, afterDelim, searchArg_next, afterValue]
  · rw [value.compareToken_iff _ _ _ (separ_not_literal chars), afterValue]
    exact notValue
  · rw [compareToken_delim, afterDelim, value.compareToken_iff _ _ _ (separ_not_literal chars)]
    exact notDelim
  · rw [key.compareToken_iff _ _ _ (delim_not_literal chars)]
    exact fun both => notKey both.1

/-- The search stops at an argument with the key it looks for. -/
theorem searchArg_found
    (rest : List Char)
    (fuel : Nat) :
    searchArg chars arg.key (fuel + 1) (some (arg.text chars ++ rest)) =
      some (arg.value.token chars ++ chars.separ :: rest) := by
  have text_eq : arg.text chars ++ rest = keyToken chars arg.key ++ chars.delim ::
        (arg.value.token chars ++ chars.separ :: rest) := by
    simp [Arg.text]
  have isKey := (key.compareToken_iff chars.delim
    (arg.value.token chars ++ chars.separ :: rest) arg.key
    (delim_not_literal chars)).mpr (.inl rfl)
  have afterKey := key.nextToken_eq chars.delim
    (arg.value.token chars ++ chars.separ :: rest) (delim_not_literal chars)
  rw [firstToken_of_ne (delim_ne_separ chars)] at afterKey
  have isDelim := (@compareToken_delim chars
    (arg.value.token chars ++ chars.separ :: rest) [chars.delim]).mpr rfl
  rw [text_eq, searchArg, if_pos isKey]
  simp only [afterKey]
  rw [if_pos isDelim, bind_some, nextToken_delim, value.firstToken_eq]

end

/-- The search goes to the argument with the key. Induction on the arguments in
front of it. -/
theorem searchArg_args
    (before after : List Arg)
    (keys : ∀ other ∈ before ++ [arg], IsToken chars (keyToken chars other.key) other.key)
    (values : ∀ other ∈ before ++ [arg],
      IsToken chars (other.value.token chars) other.value.content)
    (distinct : ∀ other ∈ before, other.key ≠ arg.key)
    (passedBy : List.IsChain (PassedBy chars arg.key) (before ++ [arg]))
    {fuel : Nat}
    (enough : 3 * before.length < fuel) :
    searchArg chars arg.key fuel
        (firstToken chars ((before ++ arg :: after).flatMap (Arg.text chars))) =
      some (arg.value.token chars ++ chars.separ ::
        after.flatMap (Arg.text chars)) := by
  have opens : ∀ other ∈ before ++ [arg], ∀ rest,
      firstToken chars (other.text chars ++ rest) = some (other.text chars ++ rest) := by
    intro other member rest
    have opensKey := (keys other member).firstToken_eq
    simp only [Arg.text, append_assoc]
    exact opensKey _
  induction before generalizing fuel with
  | nil =>
    obtain ⟨fuel, rfl⟩ : ∃ count, fuel = count + 1 := ⟨fuel - 1, by omega⟩
    rw [nil_append, flatMap_cons, opens arg (by simp),
      searchArg_found (keys arg (by simp)) (values arg (by simp))]
  | cons other before ih =>
    rw [length_cons] at enough
    obtain ⟨fuel, rfl⟩ : ∃ count, fuel = count + 3 := ⟨fuel - 3, by omega⟩
    obtain ⟨next, tail, next_eq⟩ : ∃ next tail, before ++ [arg] = next :: tail :=
      exists_cons_of_ne_nil (by simp)
    rw [cons_append, next_eq, isChain_cons_cons, ← next_eq]
      at passedBy
    obtain ⟨⟨notPrefix, notDelim, notValue⟩, passedByRest⟩ := passedBy
    have rest_eq : ∃ others, before ++ arg :: after = next :: others := by
      refine ⟨tail ++ after, ?_⟩
      rw [← cons_append, ← next_eq]
      simp
    obtain ⟨others, rest_eq⟩ := rest_eq
    have nextMember : next ∈ other :: before ++ [arg] := by
      rw [cons_append, next_eq]
      simp
    have nextDelim : compareToken chars (firstToken chars
        ((before ++ arg :: after).flatMap (Arg.text chars)))
          [chars.delim] = true ↔ Matches chars next.key [chars.delim] := by
      rw [rest_eq, flatMap_cons, opens next nextMember]
      simp only [Arg.text, append_assoc, cons_append]
      exact (keys next nextMember).compareToken_iff _ _ _ (delim_not_literal chars)
    rw [cons_append, flatMap_cons, opens other (by simp),
      searchArg_passedBy (keys other (by simp)) (values other (by simp))]
    · exact ih
        (fun entry member => keys entry (mem_cons_of_mem _ member))
        (fun entry member => values entry (mem_cons_of_mem _ member))
        (fun entry member => distinct entry (mem_cons_of_mem _ member))
        passedByRest (by omega)
        (fun entry member => opens entry (mem_cons_of_mem _ member))
    · rintro (same | escaped)
      · exact distinct other mem_cons_self same.symm
      · exact notPrefix escaped
    · exact notDelim
    · rw [nextDelim]
      exact notValue

theorem keyToken_ne_nil
    {key : List Char}
    (named : key ≠ []) :
    keyToken chars key ≠ [] := by
  unfold keyToken
  split
  · simp [quoted]
  · exact named

/-- Every argument takes three characters at least. -/
theorem length_args
    (named : ∀ arg ∈ args, arg.key ≠ []) :
    3 * args.length ≤ (args.flatMap (Arg.text chars)).length := by
  induction args with
  | nil => simp
  | cons arg args ih =>
    rw [forall_mem_cons] at named
    have others := ih named.2
    have keyLength : 0 < (keyToken chars arg.key).length :=
      length_pos_of_ne_nil (keyToken_ne_nil named.1)
    have text_length := arg.text_length chars
    rw [flatMap_cons, length_append, length_cons]
    omega

/-- The token that the search for a key comes to. -/
theorem findArg_args
    (distinct : (args.map Arg.key).Nodup)
    (legible : Legible chars args)
    (member : arg ∈ args) :
    ∃ rest, findArg chars (args.flatMap (Arg.text chars)) arg.key =
      some (arg.value.token chars ++ chars.separ :: rest) := by
  obtain ⟨before, after, args_eq⟩ := append_of_mem member
  have inArgs : ∀ other ∈ before ++ [arg], other ∈ args := by
    intro other inFront
    rw [args_eq]
    rcases mem_append.mp inFront with isBefore | isArg
    · exact mem_append_left _ isBefore
    · rw [mem_singleton.mp isArg]
      exact mem_append_right _ mem_cons_self
  have otherKeys : ∀ other ∈ before, other.key ≠ arg.key := by
    intro other inFront
    rw [args_eq, map_append, nodup_append] at distinct
    exact distinct.2.2 _ (mem_map_of_mem inFront) _ (mem_map_of_mem mem_cons_self)
  have enough := @length_args chars args legible.named
  refine ⟨after.flatMap (Arg.text chars), ?_⟩
  rw [findArg, args_eq]
  apply searchArg_args before after
  · intro other inFront
    have isArg := inArgs other inFront
    exact isToken_keyToken (legible.named other isArg) (legible.keyCloses other isArg)
  · intro other inFront
    have isArg := inArgs other inFront
    exact isToken_value (legible.valueCloses other isArg) (legible.notEmpty other isArg)
  · exact otherKeys
  · exact legible.passedBy before arg after args_eq
  · rw [args_eq, length_append] at enough
    omega

/-- The value behind a key is read as it was added. -/
theorem readsBack_of_findArg
    {str rest : List Char}
    (isToken : IsToken chars (arg.value.token chars) arg.value.content)
    (notEmpty : arg.value ≠ .binary [])
    (found : findArg chars str arg.key = some (arg.value.token chars ++ chars.separ :: rest)) :
    ReadsBack chars str arg := by
  have copies : ∀ maxlen, arg.value.content.length < maxlen →
      getStringArg chars str arg.key maxlen = .success arg.value.content := by
    intro maxlen fits
    rw [getStringArg, if_neg (by omega), found]
    exact isToken.tokenCopy_eq _ rest maxlen (separ_not_literal chars) fits
  unfold ReadsBack
  cases value_eq : arg.value with
  | string text =>
    rw [value_eq] at copies
    exact copies
  | binary bytes =>
    intro value maxlen positive fits
    rw [value_eq] at found notEmpty
    rw [getBinaryArg, if_neg (by omega), found]
    exact decodeBuffer_hexPairs (fun isEmpty => notEmpty (by rw [isEmpty])) rest value fits
  | int number =>
    rw [value_eq] at copies
    have short := length_showInt number.2
    simp only [Value.content] at copies
    simp only [getIntArg]
    rw [copies 12 (by omega)]
    simp only [Pmi.atoi_showInt number.2]

/-- Arguments that are kept apart are read back from a buffer that is large
enough. -/
theorem getArg_of_addArgs
    (chars : TokenChars)
    {args : List Arg}
    (distinct : (args.map Arg.key).Nodup)
    (legible : Legible chars args)
    {maxlen : Int}
    (enough : (args.flatMap (Arg.text chars)).length < maxlen) :
    ∃ buffer, addArgs chars { text := [], maxlen := maxlen } args = .ok buffer ∧
        ∀ arg ∈ args, ReadsBack chars buffer.text arg := by
  refine ⟨_, addArgs_eq _ legible.notEmpty enough, ?_⟩
  intro arg member
  obtain ⟨rest, found⟩ := findArg_args distinct legible member
  apply readsBack_of_findArg _ (legible.notEmpty arg member)
  · rw [nil_append]
    exact found
  · exact isToken_value (legible.valueCloses arg member) (legible.notEmpty arg member)

/-- Three arguments with separators, delimiters, quotes and escapes in them. -/
def sampleArgs : List Arg := [
  { key := "a$b".toList, value := .string "#1 is \\\"$\"".toList },
  { key := "#".toList, value := .int ⟨-7, by constructor <;> decide⟩ },
  { key := "raw".toList, value := .binary [0, 255] }]

theorem sampleArgs_legible : Legible .standard sampleArgs where
  named := by decide
  keyCloses := by decide
  valueCloses := by
    intro arg member text value_eq _
    simp only [sampleArgs, mem_cons, not_mem_nil, or_false] at member
    rcases member with rfl | rfl | rfl
    · cases value_eq
      decide
    · cases value_eq
    · cases value_eq
  notEmpty := by decide
  passedBy := by
    intro before arg after args_eq
    match before, args_eq with
    | [], _ => exact .singleton _
    | [first], args_eq =>
      obtain ⟨rfl, rfl, -⟩ := args_eq
      decide
    | [first, second], args_eq =>
      obtain ⟨rfl, rfl, rfl, -⟩ := args_eq
      decide
    | first :: second :: third :: others, args_eq => simp [sampleArgs] at args_eq

theorem sampleArgs_readBack :
    ∃ buffer, addArgs .standard { text := [], maxlen := 64 } sampleArgs = .ok buffer ∧
        ∀ arg ∈ sampleArgs, ReadsBack .standard buffer.text arg :=
  getArg_of_addArgs .standard (by decide) sampleArgs_legible (by decide)

/-- An empty byte string is written as two quotes that are not counted, and the
separator takes their place. -/
theorem binaryArg_lost :
    ¬ ∀ (chars : TokenChars) (args : List Arg), (args.map Arg.key).Nodup →
      ∀ maxlen : Int, (args.flatMap (Arg.text chars)).length < maxlen → ∃ buffer,
          addArgs chars { text := [], maxlen := maxlen } args = .ok buffer ∧
            ∀ arg ∈ args, ReadsBack chars buffer.text arg := by
  intro readBack
  obtain ⟨buffer, added, reads⟩ := readBack .standard
    [{ key := ['k'], value := .binary [] }] (by decide) 64 (by decide)
  injection added with buffer_eq
  subst buffer_eq
  have read := reads _ mem_cons_self 0 1 (by decide) (by decide)
  exact absurd read (by decide)

end Mpich.Util.Argstr
