import Mpich.Util.Argstr.RoundTrip

/-!
# A list of strings is read back

`MPIU_Str_add_string` adds strings to a buffer and `MPIU_Str_get_string` takes them
out again. A string is written between quotes when it holds a separator, a quote or
a delimiter. When such a string ends with the escape character, the last quote is
taken for an escaped one.
-/

namespace Mpich.Util.Argstr

open List

variable (chars : TokenChars)

/-- The characters for which `MPIU_Str_add_string` writes quotes. -/
def HasMark (text : List Char) : Prop :=
  chars.separ ∈ text ∨ quoteChar ∈ text ∨ chars.delim ∈ text

instance (text : List Char) : Decidable (HasMark chars text) :=
  inferInstanceAs (Decidable (_ ∨ _ ∨ _))

/-- `MPIU_Str_add_string`. When `MPIU_Snprintf` needs more room than there is, the
pointer goes on behind the end of the buffer. -/
def addString (buffer : ArgBuffer) (val : List Char) : Fetched ArgBuffer :=
  if HasMark chars val then
    let written := quotedPrintf buffer.maxlen.toNat val
    if written.length = buffer.maxlen then
      .fail
    else if written.length < buffer.maxlen - 1 then
      .success {
        text := buffer.text ++ (written ++ [chars.separ])
        maxlen := buffer.maxlen - (written.length + 1) }
    else
      .success {
        text := buffer.text ++ written
        maxlen := buffer.maxlen - written.length }
  else
    let written := if val = [] then [quoteChar, quoteChar] else val ++ [chars.separ]
    if written.length = buffer.maxlen then
      .fail
    else if buffer.maxlen < written.length then
      .overrun
    else
      .success {
        text := buffer.text ++ written
        maxlen := buffer.maxlen - written.length }

/-- Add strings one after another. -/
def addStrings : ArgBuffer → List (List Char) → Fetched ArgBuffer
  | buffer, [] => .success buffer
  | buffer, val :: vals =>
    match addString chars buffer val with
    | .success buffer => addStrings buffer vals
    | failed => failed

/-- `MPIU_Str_get_string`: the string with the new `*str_ptr`. Behind the last token
it succeeds without a string. -/
def getString (str : Option (List Char)) (maxlen : Nat) :
    Fetched (Option (List Char × Option (List Char))) :=
  if maxlen < 1 then
    .success none
  else
    match str.bind (firstToken chars) with
    | none => .success none
    | some token =>
      match tokenCopy chars token maxlen with
      | .success val => .success (some (val, nextToken chars token))
      | .truncated val => .truncated (some (val, str))
      | .fail => .fail
      | .overrun => .overrun

/-- The calls of `MPIU_Str_get_string` return these strings and then the end. -/
def Returns (maxlen : Nat) : Option (List Char) → List (List Char) → Prop
  | str, [] => getString chars str maxlen = .success none
  | str, val :: vals => ∃ next,
    getString chars str maxlen = .success (some (val, next)) ∧ Returns maxlen next vals

/-- What is written for a string. -/
def listToken (text : List Char) : List Char :=
  if HasMark chars text then
    quoted text ++ [chars.separ]
  else if text = [] then
    quoted []
  else
    text ++ [chars.separ]

variable {chars}

variable {text : List Char}

theorem addString_eq
    (buffer : ArgBuffer)
    (fits : (listToken chars text).length < buffer.maxlen) :
    addString chars buffer text = .success {
      text := buffer.text ++ listToken chars text
      maxlen := buffer.maxlen - (listToken chars text).length } := by
  unfold listToken at fits ⊢
  rw [addString]
  by_cases marked : HasMark chars text
  · rw [if_pos marked, length_append, length_singleton] at fits
    rw [if_pos marked, if_pos marked, quotedPrintf_eq text (by omega)]
    simp only
    rw [if_neg (by omega), if_pos (by omega), length_append, length_singleton]
    rfl
  · rw [if_neg marked] at fits
    have written : (if text = [] then [quoteChar, quoteChar] else text ++ [chars.separ]) =
        if text = [] then quoted [] else text ++ [chars.separ] := rfl
    rw [if_neg marked, if_neg marked, written]
    simp only
    rw [if_neg (by omega), if_neg (by omega)]

theorem addStrings_eq
    (buffer : ArgBuffer)
    {texts : List (List Char)}
    (fits : (texts.flatMap (listToken chars)).length < buffer.maxlen) :
    ∃ maxlen, addStrings chars buffer texts = .success {
      text := buffer.text ++ texts.flatMap (listToken chars)
      maxlen := maxlen } := by
  induction texts generalizing buffer with
  | nil => exact ⟨buffer.maxlen, by simp [addStrings]⟩
  | cons text texts ih =>
    rw [flatMap_cons, length_append] at fits
    rw [addStrings, addString_eq buffer (by omega), flatMap_cons, ← append_assoc]
    exact ih _ (by simp only; omega)

variable {maxlen : Nat}

/-- What has been copied stays in front. -/
theorem copyQuoted_prefix
    {copied token result : List Char}
    (copies : copyQuoted copied token maxlen = .success result) :
    copied <+: result := by
  induction copied, token, maxlen using copyQuoted.induct with
  | case1 => simp [copyQuoted] at copies
  | case2 => simp [copyQuoted] at copies
  | case3 copied =>
    obtain rfl : copied = result := by simpa [copyQuoted] using copies
    exact prefix_rfl
  | case4 copied token maxlen ih =>
    rw [copyQuoted] at copies
    exact (prefix_append _ _).trans (ih copies)
  | case5 copied first token maxlen notQuote notEscaped ih =>
    rw [copyQuoted.eq_5 _ _ _ _ notQuote notEscaped] at copies
    exact (prefix_append _ _).trans (ih copies)

/-- The last quote behind an escape character is copied. -/
theorem copyQuoted_not_closes
    (notCloses : ¬ Closes text)
    (copied rest : List Char)
    (maxlen : Nat) :
    copyQuoted copied (escaped text ++ '"' :: rest) maxlen ≠ .success (copied ++ text) := by
  induction text generalizing copied maxlen with
  | nil => exact absurd (by simp [Closes]) notCloses
  | cons char text ih =>
    have later (isLong : text ≠ []) : ¬ Closes text := by
      obtain ⟨next, tail, rfl⟩ := exists_cons_of_ne_nil isLong
      simpa [Closes] using notCloses
    cases maxlen with
    | zero => simp [copyQuoted]
    | succ maxlen =>
      by_cases isQuote : char = '"'
      · subst isQuote
        have isLong : text ≠ [] := by
          rintro rfl
          exact notCloses (by simp [Closes])
        rw [escaped_quote, cons_append, cons_append, copyQuoted]
        simpa using ih (later isLong) (copied ++ ['"']) maxlen
      · rw [escaped_cons isQuote, cons_append]
        by_cases isLast : char = '\\' ∧ text = []
        · obtain ⟨rfl, rfl⟩ := isLast
          intro copies
          rw [escaped_nil, nil_append, copyQuoted] at copies
          simpa using copyQuoted_prefix copies
        · have notLast : char = '\\' → text ≠ [] := fun isEscape isEmpty =>
            isLast ⟨isEscape, isEmpty⟩
          rw [copyQuoted_harmless (harmless_escaped isQuote notLast rest)]
          by_cases isLong : text = []
          · subst isLong
            exact absurd (by simpa [Closes] using notLast) notCloses
          · simpa using ih (later isLong) (copied ++ [char]) maxlen

/-- What has been written for a string is read, whatever follows. -/
theorem read_listToken
    (closes : HasMark chars text → Closes text)
    (rest : List Char)
    (fits : text.length < maxlen) :
    firstToken chars (listToken chars text ++ rest) = some (listToken chars text ++ rest) ∧
      tokenCopy chars (listToken chars text ++ rest) maxlen = .success text ∧
      nextToken chars (listToken chars text ++ rest) = firstToken chars rest := by
  unfold listToken
  by_cases marked : HasMark chars text
  · rw [if_pos marked, append_assoc, singleton_append, nextToken_quoted (closes marked)]
    exact ⟨firstToken_quoted .., tokenCopy_quoted (closes marked) _ fits, firstToken_separ rest⟩
  · rw [if_neg marked]
    by_cases isEmpty : text = []
    · have emptyCloses : Closes [] := by simp [Closes]
      subst isEmpty
      rw [if_pos rfl]
      exact ⟨firstToken_quoted .., tokenCopy_quoted emptyCloses rest fits,
        nextToken_quoted emptyCloses rest⟩
    · have noQuotes : ¬ NeedsQuotes chars text := fun needs =>
        marked (needs.imp_right (Or.symm ∘ Or.imp_right mem_of_head?))
      have isToken := isToken_literal noQuotes isEmpty
      rw [if_neg isEmpty, append_assoc, singleton_append,
        isToken.nextToken_eq _ rest (separ_not_literal chars)]
      exact ⟨isToken.firstToken_eq _,
        isToken.tokenCopy_eq _ rest maxlen (separ_not_literal chars) fits, firstToken_separ rest⟩

theorem firstToken_firstToken (str : List Char) :
    (firstToken chars str).bind (firstToken chars) = firstToken chars str := by
  unfold firstToken
  cases isRest : str.dropWhile (fun char => decide (char = chars.separ)) with
  | nil => rfl
  | cons first rest =>
    have stops := head?_dropWhile_not (fun char => decide (char = chars.separ)) str
    rw [isRest] at stops
    simp only [head?_cons, Option.bind_some] at stops ⊢
    rw [dropWhile_cons_of_neg (by simpa using stops)]

/-- Reading gives back the strings exactly if the quoted ones close. -/
theorem returns_iff
    (texts : List (List Char))
    (fits : ∀ text ∈ texts, text.length < maxlen)
    {str : Option (List Char)}
    (isStart : str.bind (firstToken chars) = firstToken chars (texts.flatMap (listToken chars))) :
    Returns chars maxlen str texts ↔ ∀ text ∈ texts, HasMark chars text → Closes text := by
  induction texts generalizing str with
  | nil =>
    have ends : getString chars str maxlen = .success none := by
      rw [getString, isStart]
      simp [firstToken]
    simpa [Returns] using ends
  | cons text texts ih =>
    rw [forall_mem_cons] at fits ⊢
    rw [flatMap_cons] at isStart
    by_cases closes : HasMark chars text → Closes text
    · obtain ⟨isToken, copied, next⟩ :=
        read_listToken closes (texts.flatMap (listToken chars)) fits.1
      have got : getString chars str maxlen =
          .success (some (text, firstToken chars (texts.flatMap (listToken chars)))) := by
        rw [getString, if_neg (by omega), isStart, isToken]
        simp only
        rw [copied, next]
      have later := ih fits.2 (firstToken_firstToken (texts.flatMap (listToken chars)))
      rw [Returns, and_iff_right closes, ← later]
      simp [got]
    · refine iff_of_false (fun returns => ?_) (fun all => closes all.1)
      obtain ⟨next, got, _⟩ := returns
      obtain ⟨marked, notCloses⟩ := Classical.not_imp.mp closes
      have isLong : 0 < text.length := length_pos_of_ne_nil fun isEmpty =>
        notCloses (by simp [Closes, isEmpty])
      have copied := copyQuoted_not_closes notCloses []
        (chars.separ :: texts.flatMap (listToken chars)) maxlen
      rw [listToken, if_pos marked, append_assoc, singleton_append, firstToken_quoted] at isStart
      rw [getString, if_neg (by omega), isStart] at got
      simp only at got
      rw [tokenCopy_of_quoted text _ (by omega)] at got
      split at got
      next val isVal =>
        obtain ⟨rfl, _⟩ : val = text ∧ _ := by simpa using got
        exact copied isVal
      all_goals simp at got

/-- A list of strings in a buffer that is large enough comes back exactly if each
string that is written between quotes does not end with the escape character. -/
theorem roundTrip_iff
    (chars : TokenChars)
    (texts : List (List Char))
    (size : Int)
    (large : (texts.flatMap (listToken chars)).length < size)
    (maxlen : Nat)
    (fits : ∀ text ∈ texts, text.length < maxlen) :
    (∃ buffer, addStrings chars { text := [], maxlen := size } texts = .success buffer ∧
        Returns chars maxlen (some buffer.text) texts) ↔
      ∀ text ∈ texts, HasMark chars text → Closes text := by
  obtain ⟨room, added⟩ := addStrings_eq { text := [], maxlen := size } large
  rw [added]
  simp only [Fetched.success.injEq, exists_eq_left']
  exact returns_iff texts fits rfl

theorem roundTrip_iff_sample :
    (∃ buffer, addStrings .standard { text := [], maxlen := 9 } [[], ['#']] = .success buffer ∧
        Returns .standard 2 (some buffer.text) [[], ['#']]) ↔
      ∀ text ∈ [[], ['#']], HasMark .standard text → Closes text :=
  roundTrip_iff .standard [[], ['#']] 9 (by decide) 2 (by decide)

/-- Two characters, a delimiter and an escape, do not come back. -/
theorem escape_lost :
    ¬ ∀ (chars : TokenChars) (texts : List (List Char)), ∃ large : Int, ∀ size ≥ large,
      ∀ maxlen, (∀ text ∈ texts, text.length < maxlen) → ∃ buffer,
        addStrings chars { text := [], maxlen := size } texts = .success buffer ∧
          Returns chars maxlen (some buffer.text) texts := by
  intro returns
  obtain ⟨large, isLarge⟩ := returns .standard [['#', '\\']]
  obtain ⟨buffer, added, next, got, _⟩ := isLarge (max large 6) (le_max_left _ _) 3 (by decide)
  obtain ⟨room, fills⟩ := @addStrings_eq .standard { text := [], maxlen := max large 6 }
    [['#', '\\']] (lt_of_lt_of_le (by decide) (le_max_right large 6))
  rw [fills] at added
  obtain rfl := Fetched.success.inj added
  have read : getString .standard (some "\"#\\\"$".toList) 3 =
      .truncated (some (['#', '"'], some "\"#\\\"$".toList)) := by decide
  exact absurd (read.symm.trans got) (by simp)

end Mpich.Util.Argstr
