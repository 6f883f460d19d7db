/-
  Texts that hold strings between double quotes, and a reader of them.

  Inside a string a backslash takes the next character with it, so whether a quote
  closes the string depends on the run of backslashes before it: it does if their
  number is even (`foldl_escapes_iff`).  A text can therefore be read back from between
  two quotes exactly if each quote in it stands after an odd run and no odd run ends it
  (`closes_iff`).

  A longer text is made of pieces, some of them in quotes.  Reading it gives just these
  exactly if each of them can be read back by itself (`readStrings_eq_iff`): the first
  that cannot ends somewhere else.
-/
import Mathlib.Algebra.Ring.Parity
import Mathlib.Data.List.DropRight

namespace DivisorCheck.Text

/-! ### Reading a string -/

/-- Does a character take the next one with it?  The flag tells whether it is itself taken. -/
def escapes (taken : Bool) (c : Char) : Bool := !taken && c == '\\'

/-- Reads a string up to the quote that closes it: the text in it, as it stands there, and what comes
after the quote.  The flag tells whether a backslash takes the first character with it. -/
def readQuoted : Bool → List Char → Option (List Char × List Char)
  | _, [] => none
  | taken, c :: rest =>
    if taken = false ∧ c = '"' then some ([], rest)
    else (readQuoted (escapes taken c) rest).map (Prod.map (c :: ·) id)

/-- The text can stand before a closing quote: no quote of its own closes the string, and the closing
one is not taken. -/
def Closes : Bool → List Char → Prop
  | taken, [] => taken = false
  | taken, c :: text => ¬ (taken = false ∧ c = '"') ∧ Closes (escapes taken c) text

theorem readQuoted_sound {taken : Bool} {cs text rest : List Char}
    (h : readQuoted taken cs = some (text, rest)) : cs = text ++ '"' :: rest := by
  induction cs generalizing taken text with
  | nil => cases h
  | cons c cs ih =>
    unfold readQuoted at h
    split at h
    · rename_i hclose
      cases h
      rw [hclose.2, List.nil_append]
    · obtain ⟨⟨text', rest'⟩, hread, heq⟩ := Option.map_eq_some_iff.1 h
      cases heq
      rw [ih hread]
      rfl

theorem readQuoted_eq_iff {taken : Bool} {text rest : List Char} :
    readQuoted taken (text ++ '"' :: rest) = some (text, rest) ↔ Closes taken text := by
  induction text generalizing taken with
  | nil => cases taken <;> simp [readQuoted, Closes]
  | cons c text ih =>
    rw [List.cons_append, readQuoted, Closes, ← ih]
    split
    · rename_i hclose
      simp [hclose]
    · rename_i hopen
      simp [hopen, Prod.ext_iff]

/-- A text without quotes changes only whether the character after it is taken. -/
theorem closes_append_iff {taken : Bool} {front text : List Char} (hfront : '"' ∉ front) :
    Closes taken (front ++ text) ↔ Closes (front.foldl escapes taken) text := by
  induction front generalizing taken with
  | nil => rfl
  | cons c front ih =>
    rw [List.mem_cons, not_or] at hfront
    rw [List.cons_append, Closes, ih hfront.2, List.foldl_cons]
    exact and_iff_right fun h => hfront.1 h.2.symm

/-! ### Runs of backslashes -/

/-- A text meets a condition at each of its quotes, with what stands before it, and at its end. -/
theorem forall_quote_cons_iff {c : Char} {text : List Char} {P : List Char → Prop} :
    (∀ front back, c :: text = front ++ '"' :: back → P front) ↔
      (c = '"' → P []) ∧ ∀ front back, text = front ++ '"' :: back → P (c :: front) := by
  constructor
  · intro h
    refine ⟨?_, fun front back htext => h _ back (by rw [htext, List.cons_append])⟩
    rintro rfl
    exact h [] text rfl
  · rintro ⟨hfirst, hrest⟩ front back heq
    cases front with
    | nil => exact hfirst (List.cons.inj heq).1
    | cons d front =>
      obtain ⟨rfl, htext⟩ := List.cons.inj heq
      exact hrest front back htext

theorem closes_iff_foldl {taken : Bool} {text : List Char} :
    Closes taken text ↔
      (∀ front back, text = front ++ '"' :: back → front.foldl escapes taken = true) ∧
        text.foldl escapes taken = false := by
  induction text generalizing taken with
  | nil => simp [Closes]
  | cons c text ih =>
    rw [forall_quote_cons_iff, Closes, ih]
    simp only [List.foldl_cons, List.foldl_nil, and_assoc]
    refine and_congr_left' ?_
    cases taken <;> simp

/-- The number of backslashes at the end. -/
def endingBackslashes (cs : List Char) : Nat := (cs.rtakeWhile (· == '\\')).length

/-- After a text the next character is taken exactly if an odd number of backslashes ends it. -/
theorem foldl_escapes_iff (cs : List Char) :
    cs.foldl escapes false = true ↔ Odd (endingBackslashes cs) := by
  induction cs using List.reverseRecOn with
  | nil => simp [endingBackslashes]
  | append_singleton cs c ih =>
    rw [List.foldl_append, List.foldl_cons, List.foldl_nil, endingBackslashes,
      List.rtakeWhile_concat]
    by_cases hc : c = '\\'
    · rw [if_pos (by simpa using hc), List.length_append, List.length_singleton, Nat.odd_add_one,
        ← endingBackslashes, ← ih]
      simp [escapes, hc]
    · rw [if_neg (by simpa using hc)]
      simp [escapes, hc]

theorem foldl_escapes_eq_false_iff (cs : List Char) :
    cs.foldl escapes false = false ↔ Even (endingBackslashes cs) := by
  rw [← Nat.not_odd_iff_even, ← foldl_escapes_iff, Bool.not_eq_true]

/-- Each quote stands after an odd number of backslashes, and an even number ends the text. -/
def QuotesEscaped (text : List Char) : Prop :=
  (∀ front back, text = front ++ '"' :: back → Odd (endingBackslashes front)) ∧
    Even (endingBackslashes text)

/-- Each quote stands after an even number of backslashes, and an even number ends the text. -/
def RunsEven (text : List Char) : Prop :=
  (∀ front back, text = front ++ '"' :: back → Even (endingBackslashes front)) ∧
    Even (endingBackslashes text)

/-- A text can be read back from between two quotes exactly if its own quotes are escaped. -/
theorem closes_iff {text : List Char} : Closes false text ↔ QuotesEscaped text := by
  simp only [closes_iff_foldl, foldl_escapes_iff, foldl_escapes_eq_false_iff, QuotesEscaped]

theorem endingBackslashes_eq_zero {cs : List Char} (h : '\\' ∉ cs) : endingBackslashes cs = 0 := by
  rw [endingBackslashes, List.length_eq_zero_iff, List.rtakeWhile_eq_nil_iff]
  intro hcs hlast
  exact h (beq_iff_eq.1 hlast ▸ List.getLast_mem hcs)

/-- Without backslashes all runs are empty. -/
theorem runsEven_of_notMem {text : List Char} (h : '\\' ∉ text) : RunsEven text := by
  refine ⟨fun front back htext => ?_, ?_⟩
  · rw [endingBackslashes_eq_zero fun hmem => h (htext ▸ List.mem_append_left _ hmem)]
    exact Even.zero
  · rw [endingBackslashes_eq_zero h]
    exact Even.zero

/-! ### Reading all strings -/

/-- A piece of a text: characters as they are, or characters between quotes. -/
inductive Piece where
  | plain (cs : List Char)
  | inQuotes (cs : List Char)

namespace Piece

/-- The text of a piece. -/
def text : Piece → List Char
  | plain cs => cs
  | inQuotes cs => '"' :: cs ++ ['"']

/-- The string in a piece. -/
def string? : Piece → Option (List Char)
  | plain _ => none
  | inQuotes cs => some cs

/-- Characters as they are hold no quote. -/
def IsApart : Piece → Prop
  | plain cs => '"' ∉ cs
  | inQuotes _ => True

end Piece

/-- Reads all strings of a text; none if the last is not closed. -/
def readStrings (cs : List Char) : Option (List (List Char)) :=
  match cs with
  | [] => some []
  | c :: rest =>
    if c = '"' then
      match _h : readQuoted false rest with
      | none => none
      | some (text, after) => (readStrings after).map (text :: ·)
    else readStrings rest
termination_by cs.length
decreasing_by
  · have hlength := congrArg List.length (readQuoted_sound _h)
    simp only [List.length_append, List.length_cons] at hlength ⊢
    omega
  · simp

theorem readStrings_append {front rest : List Char} (hfront : '"' ∉ front) :
    readStrings (front ++ rest) = readStrings rest := by
  induction front with
  | nil => rfl
  | cons c front ih =>
    rw [List.mem_cons, not_or] at hfront
    rw [List.cons_append, readStrings, if_neg (Ne.symm hfront.1), ih hfront.2]

/-- A string is read as it was written, together with what comes after it, exactly if its text can be
read back. -/
theorem readStrings_quote_iff {text rest : List Char} {more : List (List Char)} :
    readStrings ('"' :: text ++ '"' :: rest) = some (text :: more) ↔
      Closes false text ∧ readStrings rest = some more := by
  rw [List.cons_append, readStrings, if_pos rfl]
  constructor
  · intro h
    split at h
    · cases h
    · rename_i found after hread
      obtain ⟨strings, hafter, heq⟩ := Option.map_eq_some_iff.1 h
      cases heq
      -- Both ways of splitting the text begin alike, so they end alike.
      have hrest : rest = after :=
        (List.cons.inj (List.append_cancel_left (readQuoted_sound hread))).2
      subst hrest
      exact ⟨readQuoted_eq_iff.1 hread, hafter⟩
  · rintro ⟨hcloses, hrest⟩
    rw [readQuoted_eq_iff.2 hcloses]
    simp [hrest]

/-- **Reading a text made of pieces.**  The strings read are those written exactly if each of them can
be read back by itself. -/
theorem readStrings_eq_iff {pieces : List Piece} (hapart : ∀ piece ∈ pieces, piece.IsApart) :
    readStrings (pieces.flatMap Piece.text) = some (pieces.filterMap Piece.string?) ↔
      ∀ text ∈ pieces.filterMap Piece.string?, Closes false text := by
  induction pieces with
  | nil => simp [readStrings]
  | cons piece pieces ih =>
    rw [List.forall_mem_cons] at hapart
    rw [List.flatMap_cons]
    cases piece with
    | plain cs =>
      have hstrings : (Piece.plain cs :: pieces).filterMap Piece.string? =
        pieces.filterMap Piece.string? := List.filterMap_cons_none rfl
      rw [hstrings, Piece.text, readStrings_append hapart.1, ih hapart.2]
    | inQuotes cs =>
      have hstrings : (Piece.inQuotes cs :: pieces).filterMap Piece.string? =
        cs :: pieces.filterMap Piece.string? := List.filterMap_cons_some rfl
      rw [hstrings, List.forall_mem_cons, ← ih hapart.2, Piece.text, List.append_assoc,
        List.singleton_append, readStrings_quote_iff]

end DivisorCheck.Text
