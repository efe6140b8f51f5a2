import Mpich.Util.Argstr.Defs

/-!
# Tokens are read as they were written

A token stands for its content. `IsToken` collects what the reading functions do
at a token: they step over it, compare its content and copy its content. It holds
of every literal and of every quoted string whose content does not end with the
escape character: behind that one the last quote would be taken for an escaped
one. The comparison has one flaw that the statements show: a quoted string also
equals each part of its content that ends in front of a quote.
-/

namespace Mpich.Util.Argstr

open List

/-- The content of a quoted string, with its quotes escaped. -/
def escaped (text : List Char) : List Char :=
  text.flatMap fun char => if char = '"' then ['\\', '"'] else [char]

/-- A quoted string. -/
def quoted (text : List Char) : List Char :=
  '"' :: escaped text ++ ['"']

/-- The last quote does not stand behind an escape character. -/
def Closes (text : List Char) : Prop :=
  text.getLast? ≠ some '\\'

instance (text : List Char) : Decidable (Closes text) :=
  inferInstanceAs (Decidable (_ ≠ _))

@[simp] theorem escaped_nil : escaped [] = [] := rfl

theorem escaped_quote (text : List Char) :
    escaped ('"' :: text) = '\\' :: '"' :: escaped text := rfl

variable {char : Char}

theorem escaped_cons
    (notQuote : char ≠ '"')
    (text : List Char) :
    escaped (char :: text) = char :: escaped text := by
  simp [escaped, notQuote]

/-- What follows a character that is not escaped, up to the last quote, does not
make it an escape. -/
def Harmless (char : Char) (tail : List Char) : Prop :=
  char ≠ '"' ∧ (char = '\\' → tail.head? ≠ some '"')

variable {text : List Char}

theorem Closes.tail (closes : Closes (char :: text)) :
    Closes text := by
  cases text with
  | nil => simp [Closes]
  | cons next text => simpa [Closes] using closes

theorem harmless_escaped
    (notQuote : char ≠ '"')
    (notLast : char = '\\' → text ≠ [])
    (rest : List Char) :
    Harmless char (escaped text ++ '"' :: rest) := by
  refine ⟨notQuote, ?_⟩
  rintro rfl
  cases text with
  | nil => exact absurd rfl (notLast rfl)
  | cons next text =>
    by_cases nextQuote : next = '"'
    · subst nextQuote
      simp [escaped_quote]
    · simp [escaped_cons nextQuote, nextQuote]

theorem Closes.harmless
    (closes : Closes (char :: text))
    (notQuote : char ≠ '"')
    (rest : List Char) :
    Harmless char (escaped text ++ '"' :: rest) := by
  apply harmless_escaped notQuote
  rintro rfl rfl
  exact closes rfl

/-- The content of a quoted string one character after the other. -/
theorem Closes.induction
    {motive : (text : List Char) → Closes text → Prop}
    (nil : ∀ closes, motive [] closes)
    (quote : ∀ text closes tailCloses, motive text tailCloses → motive ('"' :: text) closes)
    (other : ∀ char text closes tailCloses, char ≠ '"' →
      (∀ rest, Harmless char (escaped text ++ '"' :: rest)) →
        motive text tailCloses → motive (char :: text) closes)
    (text : List Char)
    (closes : Closes text) :
    motive text closes := by
  induction text with
  | nil => exact nil closes
  | cons char text ih =>
    by_cases isQuote : char = '"'
    · subst isQuote
      exact quote text closes closes.tail (ih closes.tail)
    · exact other char text closes closes.tail isQuote (closes.harmless isQuote) (ih closes.tail)

variable {tail : List Char}

theorem skipQuoted_harmless
    (harmless : Harmless char tail) :
    skipQuoted (char :: tail) = skipQuoted tail := by
  obtain ⟨notQuote, notEscape⟩ := harmless
  rw [skipQuoted]
  · exact notQuote
  · rintro rest rfl rfl
    exact notEscape rfl rfl

theorem skipQuoted_escaped
    (closes : Closes text)
    (rest : List Char) :
    skipQuoted (escaped text ++ '"' :: rest) = some rest := by
  induction text, closes using Closes.induction with
  | nil => rfl
  | quote text _ _ ih => exact ih
  | other char text _ _ notQuote harmless ih =>
    rw [escaped_cons notQuote, cons_append, skipQuoted_harmless (harmless rest), ih]

theorem compareQuoted_harmless
    (harmless : Harmless char tail)
    (str : List Char) :
    compareQuoted (char :: tail) str = match str with
      | [] => false
      | next :: str => if next = char then compareQuoted tail str else false := by
  obtain ⟨notQuote, notEscape⟩ := harmless
  have notEscaped : ∀ rest, char = '\\' → tail = '"' :: rest → False := by
    rintro rest rfl rfl
    exact notEscape rfl rfl
  cases str with
  | nil => rw [compareQuoted.eq_5 _ _ notQuote notEscaped]
  | cons next str => rw [compareQuoted.eq_6 _ _ _ _ notQuote notEscaped]

/-- The comparison with a quoted string also ends at an escaped quote. -/
theorem compareQuoted_escaped
    (closes : Closes text)
    (rest str : List Char) :
    compareQuoted (escaped text ++ '"' :: rest) str = true ↔
      str = text ∨ str ++ ['"'] <+: text := by
  induction text, closes using Closes.induction generalizing str with
  | nil => simp [compareQuoted]
  | quote text _ _ ih =>
    cases str with
    | nil => simp [escaped_quote, compareQuoted]
    | cons next str =>
      by_cases same : next = '"'
      · subst same
        simpa [escaped_quote, compareQuoted, cons_prefix_cons] using ih str
      · simp [escaped_quote, compareQuoted, cons_prefix_cons, same]
  | other char text _ _ notQuote harmless ih =>
    rw [escaped_cons notQuote, cons_append, compareQuoted_harmless (harmless rest)]
    cases str with
    | nil => simp [cons_prefix_cons, Ne.symm notQuote]
    | cons next str =>
      by_cases same : next = char
      · subst same
        simpa [cons_prefix_cons] using ih str
      · simp [cons_prefix_cons, same]

theorem copyQuoted_harmless
    (harmless : Harmless char tail)
    (copied : List Char)
    (maxlen : Nat) :
    copyQuoted copied (char :: tail) (maxlen + 1) = copyQuoted (copied ++ [char]) tail maxlen := by
  obtain ⟨notQuote, notEscape⟩ := harmless
  rw [copyQuoted.eq_5]
  · exact notQuote
  · rintro rest rfl rfl
    exact notEscape rfl rfl

variable {maxlen : Nat}

theorem copyQuoted_escaped
    (closes : Closes text)
    (copied rest : List Char)
    (fits : text.length < maxlen) :
    copyQuoted copied (escaped text ++ '"' :: rest) maxlen = .success (copied ++ text) := by
  obtain ⟨room, rfl⟩ := Nat.exists_eq_add_of_lt fits
  clear fits
  induction text, closes using Closes.induction generalizing copied with
  | nil => simp [copyQuoted]
  | quote text _ _ ih =>
    rw [escaped_quote, length_cons,
      show text.length + 1 + room + 1 = (text.length + room + 1) + 1 by omega,
      cons_append, cons_append, copyQuoted, ih, append_assoc, singleton_append]
  | other char text _ _ notQuote harmless ih =>
    rw [escaped_cons notQuote, cons_append, length_cons,
      show text.length + 1 + room + 1 = (text.length + room + 1) + 1 by omega,
      copyQuoted_harmless (harmless rest), ih, append_assoc, singleton_append]

section

variable {chars : TokenChars}

theorem delim_ne_separ (chars : TokenChars) : chars.delim ≠ chars.separ := by
  cases chars <;> decide

theorem separ_ne_quote (chars : TokenChars) : chars.separ ≠ quoteChar := by
  cases chars <;> decide

theorem delim_ne_quote (chars : TokenChars) : chars.delim ≠ quoteChar := by
  cases chars <;> decide

/-- A string that equals this content for `compare_token`. -/
def Matches (chars : TokenChars) (content sought : List Char) : Prop :=
  sought = content ∨ NeedsQuotes chars content ∧ sought ++ ['"'] <+: content

instance (content sought : List Char) :
    Decidable (Matches chars content sought) :=
  inferInstanceAs (Decidable (_ ∨ _ ∧ _))

theorem firstToken_of_ne
    {first : Char}
    (notSepar : first ≠ chars.separ)
    (rest : List Char) :
    firstToken chars (first :: rest) = some (first :: rest) := by
  simp [firstToken, notSepar]

theorem firstToken_separ (rest : List Char) :
    firstToken chars (chars.separ :: rest) = firstToken chars rest := by
  simp [firstToken]

/-- The reading functions at a token with this content. -/
structure IsToken
    (chars : TokenChars)
    (token content : List Char) : Prop where
  firstToken_eq : ∀ rest, firstToken chars (token ++ rest) = some (token ++ rest)
  nextToken_eq : ∀ first rest, isLiteral chars first = false →
    nextToken chars (token ++ first :: rest) = firstToken chars (first :: rest)
  compareToken_iff : ∀ first rest sought, isLiteral chars first = false →
    (compareToken chars (some (token ++ first :: rest)) sought = true ↔
      Matches chars content sought)
  tokenCopy_eq : ∀ first rest maxlen, isLiteral chars first = false →
    content.length < maxlen → tokenCopy chars (token ++ first :: rest) maxlen = .success content

theorem firstToken_quoted (text rest : List Char) :
    firstToken chars (quoted text ++ rest) = some (quoted text ++ rest) :=
  firstToken_of_ne (separ_ne_quote chars).symm _

theorem quoted_append (text rest : List Char) :
    quoted text ++ rest = '"' :: (escaped text ++ '"' :: rest) := by
  simp [quoted]

variable {text : List Char}

theorem nextToken_quoted
    (closes : Closes text)
    (rest : List Char) :
    nextToken chars (quoted text ++ rest) = firstToken chars rest := by
  rw [nextToken, firstToken_quoted, quoted_append]
  simp only
  rw [if_pos (by rfl), skipQuoted_escaped closes, Option.bind_some]

theorem tokenCopy_of_quoted
    (text rest : List Char)
    (several : 1 < maxlen) :
    tokenCopy chars (quoted text ++ rest) maxlen =
      copyQuoted [] (escaped text ++ '"' :: rest) maxlen := by
  have notDelim : '"' ≠ chars.delim := (delim_ne_quote chars).symm
  rw [tokenCopy, if_neg (by omega), if_neg (by omega), firstToken_quoted, quoted_append]
  simp only
  rw [if_neg notDelim, if_pos (by rfl)]

theorem tokenCopy_quoted
    (closes : Closes text)
    (rest : List Char)
    (fits : text.length < maxlen) :
    tokenCopy chars (quoted text ++ rest) maxlen = .success text := by
  by_cases single : maxlen = 1
  · have isEmpty : text = [] := eq_nil_of_length_eq_zero (by omega)
    rw [tokenCopy, if_neg (by omega), if_pos single, isEmpty]
  · rw [tokenCopy_of_quoted text rest (by omega), copyQuoted_escaped closes _ _ fits, nil_append]

/-- A quoted string is a token. -/
theorem isToken_quoted
    (closes : Closes text)
    (needsQuotes : NeedsQuotes chars text ∨ text = []) :
    IsToken chars (quoted text) text := by
  refine ⟨firstToken_quoted text, fun first rest _ => nextToken_quoted closes (first :: rest),
    ?_, fun first rest maxlen _ => tokenCopy_quoted closes (first :: rest)⟩
  intro first rest sought _
  rw [quoted_append, compareToken, if_pos (by rfl), compareQuoted_escaped closes]
  unfold Matches
  rcases needsQuotes with needs | rfl
  · simp [needs]
  · simp

theorem compareLiteral_append
    (literal : ∀ char ∈ text, isLiteral chars char = true)
    {first : Char}
    (ends : isLiteral chars first = false)
    (rest sought : List Char) :
    compareLiteral chars (text ++ first :: rest) sought = true ↔ sought = text := by
  have stops : first = chars.delim ∨ first = chars.separ := by
    by_contra neither
    rw [not_or] at neither
    rw [isLiteral, decide_eq_false_iff_not] at ends
    exact ends ⟨neither.2, neither.1⟩
  induction text generalizing sought with
  | nil =>
    cases sought with
    | nil => simpa [compareLiteral] using stops
    | cons next sought =>
      rw [nil_append, compareLiteral, if_neg]
      · simp
      · rintro ⟨-, notDelim, notSepar⟩
        exact stops.elim notDelim notSepar
  | cons char text ih =>
    rw [forall_mem_cons] at literal
    obtain ⟨notSepar, notDelim⟩ := of_decide_eq_true literal.1
    cases sought with
    | nil => simp [compareLiteral, notSepar, notDelim]
    | cons next sought =>
      by_cases same : char = next
      · subst same
        rw [cons_append, compareLiteral, if_pos ⟨rfl, notDelim, notSepar⟩, cons_inj_right]
        exact ih literal.2 sought
      · rw [cons_append, compareLiteral, if_neg (fun both => same both.1)]
        simp [Ne.symm same]

/-- A string that needs no quotes is a token. -/
theorem isToken_literal
    (noQuotes : ¬ NeedsQuotes chars text)
    (named : text ≠ []) :
    IsToken chars text text := by
  obtain ⟨char, tail, text_eq⟩ := exists_cons_of_ne_nil named
  have literal : ∀ char ∈ text, isLiteral chars char = true := by
    intro char member
    refine decide_eq_true ⟨?_, ?_⟩
    · rintro rfl
      exact noQuotes (.inl member)
    · rintro rfl
      exact noQuotes (.inr (.inl member))
  have headLiteral := literal char (by rw [text_eq]; exact mem_cons_self)
  obtain ⟨notSepar, notDelim⟩ := of_decide_eq_true headLiteral
  have notQuote : char ≠ quoteChar := by
    rintro rfl
    exact noQuotes (.inr (.inr (by rw [text_eq]; rfl)))
  have opens : ∀ rest, firstToken chars (text ++ rest) = some (text ++ rest) := by
    intro rest
    rw [text_eq]
    exact firstToken_of_ne notSepar _
  refine ⟨opens, ?_, ?_, ?_⟩
  · intro first rest ends
    have skipped : (text ++ first :: rest).dropWhile (isLiteral chars) = first :: rest := by
      rw [dropWhile_append_of_pos literal, dropWhile_cons_of_neg (by simp [ends])]
    rw [nextToken, opens, text_eq]
    simp only [cons_append]
    rw [if_neg notQuote, if_neg notDelim, ← cons_append, ← text_eq, skipped]
  · intro first rest sought ends
    have compared := compareLiteral_append literal ends rest sought
    rw [text_eq, cons_append] at compared ⊢
    rw [compareToken, if_neg notQuote, if_neg notDelim, compared, ← text_eq]
    simp [Matches, noQuotes]
  · intro first rest maxlen ends fits
    have taken : (text ++ first :: rest).takeWhile (isLiteral chars) = text := by
      rw [takeWhile_append_of_pos literal, takeWhile_cons_of_neg (by simp [ends]), append_nil]
    have positive : 0 < text.length := length_pos_of_ne_nil named
    rw [tokenCopy, if_neg (by omega), if_neg (by omega), opens]
    rw [text_eq, cons_append] at taken ⊢
    simp only
    rw [if_neg notDelim, if_neg notQuote, taken, ← text_eq, if_pos fits]

/-- At the delimiter. -/
theorem nextToken_delim (rest : List Char) :
    nextToken chars (chars.delim :: rest) = firstToken chars rest := by
  rw [nextToken, firstToken_of_ne (delim_ne_separ chars)]
  simp only
  rw [if_neg (delim_ne_quote chars), if_true]

theorem compareToken_delim (rest sought : List Char) :
    compareToken chars (some (chars.delim :: rest)) sought = true ↔ sought = [chars.delim] := by
  rw [compareToken, if_neg (delim_ne_quote chars), if_pos rfl, decide_eq_true_iff]

end

end Mpich.Util.Argstr
