/-
  What specifications and comments say about suppressions.

  A specification is cut at its first colon, which ends the identifier, and at its
  last, after which a line may stand (`Suppression.Specifies`).  A last part of
  nothing but digit forms is taken for a line; where it is no decimal numeral, or
  one with too many digits, the specification cannot be read at all
  (`Suppression.IsUnreadableSpec`).  Every other text specifies one suppression
  (`ofSpec_eq_ok_iff`, `ofSpec_eq_error_iff`).

  A comment gives the three parts apart (`SuppressionComment.Means`); what comments
  give ends with the first of them whose line cannot be read (`mem_load_iff`).
-/
import DivisorCheck.Suppression
import DivisorCheck.Proofs.Text.Numerals

namespace DivisorCheck

open DivisorCheck.Text

/-! ### Cutting at a character -/

namespace Text

theorem splitOn_of_not_mem {sep : Char} {cs : List Char} (h : sep ∉ cs) : splitOn sep cs = [cs] := by
  induction cs with
  | nil => rfl
  | cons c cs ih =>
    obtain ⟨hc, hrest⟩ := List.ne_and_not_mem_of_not_mem_cons h
    rw [splitOn, if_neg (Ne.symm hc), ih hrest]

/-- A text is cut on either side of an occurrence on its own. -/
theorem splitOn_append_cons (sep : Char) (front back : List Char) :
    splitOn sep (front ++ sep :: back) = splitOn sep front ++ splitOn sep back := by
  induction front with
  | nil => simp [splitOn]
  | cons c front ih =>
    obtain ⟨part, parts, hparts⟩ := List.exists_cons_of_ne_nil (splitOn_ne_nil sep front)
    by_cases hc : c = sep
    · simp [splitOn, hc, ih]
    · simp [splitOn, hc, ih, hparts]

/-- A text that has a character is cut at its last occurrence. -/
theorem exists_last_of_mem {sep : Char} {cs : List Char} (h : sep ∈ cs) :
    ∃ front last, cs = front ++ sep :: last ∧ sep ∉ last := by
  obtain ⟨back, front, hsplit, hback⟩ := List.eq_append_cons_of_mem (List.mem_reverse.2 h)
  refine ⟨front.reverse, back.reverse, ?_, fun hmem => hback (List.mem_reverse.1 hmem)⟩
  rw [← List.reverse_reverse cs, hsplit]
  simp

end Text

/-! ### Specifications -/

namespace Suppression

/-- The text ends in a colon and digit forms, which are taken for a line. -/
def EndsInLine (pattern : List Char) : Prop :=
  ∃ file line, pattern = file ++ ':' :: line ∧ line ≠ [] ∧ ∀ c ∈ line, isDigitForm c = true

/-- The suppression that a specification means: `id`, `id:pattern` or `id:file:line`. -/
inductive Specifies : List Char → Suppression → Prop where
  | everywhere {errorId : List Char} (hid : ':' ∉ errorId) :
    Specifies errorId ⟨String.ofList errorId, .everywhere⟩
  | inFiles {errorId pattern : List Char} (hid : ':' ∉ errorId) (hline : ¬ EndsInLine pattern) :
    Specifies (errorId ++ ':' :: pattern) ⟨String.ofList errorId, .inFiles (String.ofList pattern)⟩
  | atLine {errorId file line : List Char} {digits : List Nat} (hid : ':' ∉ errorId)
    (hne : line ≠ []) (hdigits : decimalDigits? line = some digits)
    (hcount : line.length ≤ digitLimit) :
    Specifies (errorId ++ ':' :: (file ++ ':' :: line))
      ⟨String.ofList errorId, .atLine (String.ofList file) (Nat.ofDigits 10 digits.reverse : Nat)⟩

/-- The specification ends in digit forms that are no line: one of them is no decimal digit, or
there are too many. -/
def IsUnreadableSpec (spec : List Char) : Prop :=
  ∃ errorId file line, spec = errorId ++ ':' :: (file ++ ':' :: line) ∧ ':' ∉ errorId ∧
    line ≠ [] ∧ (∀ c ∈ line, isDigitForm c = true) ∧
    (decimalDigits? line = none ∨ digitLimit < line.length)

theorem looksNumeric_iff {cs : List Char} :
    looksNumeric cs = true ↔ cs ≠ [] ∧ ∀ c ∈ cs, isDigitForm c = true := by
  simp [looksNumeric]

/-- Digit forms are no colons. -/
theorem colon_not_mem {cs : List Char} (h : ∀ c ∈ cs, isDigitForm c = true) : ':' ∉ cs :=
  fun hmem => (isPlain_of_isDigitForm (h _ hmem)).2.1 rfl

theorem ofSpec_of_not_mem {errorId : List Char} (hid : ':' ∉ errorId) :
    ofSpec (String.ofList errorId) = .ok ⟨String.ofList errorId, .everywhere⟩ := by
  rw [ofSpec, String.toList_ofList, splitOn_of_not_mem hid]

theorem ofSpec_of_pattern {errorId pattern : List Char} (hid : ':' ∉ errorId)
    (hpattern : ':' ∉ pattern) :
    ofSpec (String.ofList (errorId ++ ':' :: pattern)) =
      .ok ⟨String.ofList errorId, .inFiles (String.ofList pattern)⟩ := by
  rw [ofSpec, String.toList_ofList, splitOn_append_cons, splitOn_of_not_mem hid,
    splitOn_of_not_mem hpattern]
  rfl

/-- With two colons or more, the part after the last is a line if it looks like one. -/
theorem ofSpec_of_line {errorId file line : List Char} (hid : ':' ∉ errorId) (hline : ':' ∉ line) :
    ofSpec (String.ofList (errorId ++ ':' :: (file ++ ':' :: line))) =
      if looksNumeric line then
        (readDecimal (String.ofList line)).map fun n =>
          ⟨String.ofList errorId, .atLine (String.ofList file) n⟩
      else .ok ⟨String.ofList errorId, .inFiles (String.ofList (file ++ ':' :: line))⟩ := by
  have hparts : splitOn ':' (errorId ++ ':' :: (file ++ ':' :: line)) =
      errorId :: (splitOn ':' file ++ [line]) := by
    rw [splitOn_append_cons, splitOn_append_cons, splitOn_of_not_mem hid, splitOn_of_not_mem hline]
    rfl
  have hwhole : joinWith ':' (splitOn ':' file ++ [line]) = file ++ ':' :: line := by
    rw [← splitOn_of_not_mem hline, ← splitOn_append_cons, joinWith_splitOn]
  have hlength : 2 ≤ (splitOn ':' file ++ [line]).length := by
    have := List.length_pos_iff.2 (splitOn_ne_nil ':' file)
    rw [List.length_append, List.length_singleton]
    omega
  rw [ofSpec, String.toList_ofList, hparts]
  -- With two parts after the identifier, only the last way of reading is left.
  split
  · rename_i heq
    cases heq
  · rename_i heq
    exact absurd (List.cons.inj heq).2 (by simp)
  · rename_i heq
    obtain ⟨rfl, rfl⟩ := List.cons.inj heq
    simp only [List.getLast?_concat, Option.getD_some, List.dropLast_concat, joinWith_splitOn,
      hwhole, hlength, true_and]
    split
    · cases readDecimal (String.ofList line) <;> rfl
    · rfl

/-- A specification is read as what it means. -/
theorem ofSpec_of_specifies {spec : List Char} {s : Suppression} (h : Specifies spec s) :
    ofSpec (String.ofList spec) = .ok s := by
  cases h with
  | everywhere hid => exact ofSpec_of_not_mem hid
  | @inFiles errorId pattern hid hline =>
    by_cases hcolon : ':' ∈ pattern
    · obtain ⟨file, line, rfl, hlast⟩ := exists_last_of_mem hcolon
      rw [ofSpec_of_line hid hlast, if_neg]
      intro hnumeric
      obtain ⟨hne, hforms⟩ := looksNumeric_iff.1 hnumeric
      exact hline ⟨file, line, rfl, hne, hforms⟩
    · exact ofSpec_of_pattern hid hcolon
  | @atLine errorId file line digits hid hne hdigits hcount =>
    have hforms : ∀ c ∈ line, isDigitForm c = true := fun c hc => by
      rw [isDigitForm, isSome_of_decimalDigits? hdigits c hc, Bool.true_or]
    rw [ofSpec_of_line hid (colon_not_mem hforms), if_pos (looksNumeric_iff.2 ⟨hne, hforms⟩),
      readDecimal_of_forms hne hforms, hdigits]
    simp only [if_pos hcount]
    rfl

theorem ofSpec_of_isUnreadableSpec {spec : List Char} (h : IsUnreadableSpec spec) :
    ∃ e, ofSpec (String.ofList spec) = .error e := by
  obtain ⟨errorId, file, line, rfl, hid, hne, hforms, hbad⟩ := h
  rw [ofSpec_of_line hid (colon_not_mem hforms), if_pos (looksNumeric_iff.2 ⟨hne, hforms⟩),
    readDecimal_of_forms hne hforms]
  cases hdigits : decimalDigits? line with
  | none => exact ⟨_, rfl⟩
  | some digits =>
    have hlong : ¬ line.length ≤ digitLimit := by
      rcases hbad with hnone | hlong
      · rw [hnone] at hdigits
        cases hdigits
      · exact Nat.not_le_of_lt hlong
    simp only [if_neg hlong]
    exact ⟨_, rfl⟩

/-- Every text specifies a suppression or ends in digit forms that are no line. -/
theorem specifies_or_isUnreadableSpec (spec : List Char) :
    (∃ s, Specifies spec s) ∨ IsUnreadableSpec spec := by
  by_cases hcolon : ':' ∈ spec
  · obtain ⟨errorId, pattern, rfl, hid⟩ := List.eq_append_cons_of_mem hcolon
    by_cases hline : EndsInLine pattern
    · obtain ⟨file, line, rfl, hne, hforms⟩ := hline
      cases hdigits : decimalDigits? line with
      | none => exact .inr ⟨errorId, file, line, rfl, hid, hne, hforms, .inl hdigits⟩
      | some digits =>
        by_cases hcount : line.length ≤ digitLimit
        · exact .inl ⟨_, .atLine hid hne hdigits hcount⟩
        · exact .inr ⟨errorId, file, line, rfl, hid, hne, hforms, .inr (Nat.lt_of_not_le hcount)⟩
    · exact .inl ⟨_, .inFiles hid hline⟩
  · exact .inl ⟨_, .everywhere hcolon⟩

theorem ofSpec_eq_ok_iff {spec : String} {s : Suppression} :
    ofSpec spec = .ok s ↔ Specifies spec.toList s := by
  rw [← String.ofList_toList (s := spec)]
  generalize spec.toList = cs
  rw [String.toList_ofList]
  refine ⟨fun h => ?_, ofSpec_of_specifies⟩
  rcases specifies_or_isUnreadableSpec cs with ⟨s', hs'⟩ | hbad
  · have hsame : s' = s := by simpa [ofSpec_of_specifies hs'] using h
    exact hsame ▸ hs'
  · obtain ⟨e, he⟩ := ofSpec_of_isUnreadableSpec hbad
    rw [he] at h
    cases h

theorem ofSpec_eq_error_iff {spec : String} :
    (∃ e, ofSpec spec = .error e) ↔ IsUnreadableSpec spec.toList := by
  rw [← String.ofList_toList (s := spec)]
  generalize spec.toList = cs
  rw [String.toList_ofList]
  refine ⟨fun ⟨e, he⟩ => ?_, ofSpec_of_isUnreadableSpec⟩
  rcases specifies_or_isUnreadableSpec cs with ⟨s, hs⟩ | hbad
  · rw [ofSpec_of_specifies hs] at he
    cases he
  · exact hbad

end Suppression

/-! ### Comments -/

/-- The line that a comment names, where it names one. -/
inductive LineRef.Names : LineRef → Int → Prop where
  | number {n : Int} (hn : n ≠ 0) : Names (.number n) n
  | text {s : String} {n : Int} (hs : s ≠ "") (hread : readDecimal s = .ok n) : Names (.text s) n

namespace SuppressionComment

/-- The comment names no line: there is none, or it is zero or empty. -/
def NamesNoLine (c : SuppressionComment) : Prop :=
  c.line = none ∨ c.line = some (.number 0) ∨ c.line = some (.text "")

/-- The suppression that a comment means.  One without a file holds everywhere, whatever its line,
and one without a line in the whole of its file. -/
inductive Means : SuppressionComment → Suppression → Prop where
  | everywhere {c : SuppressionComment} {errorId : String} (hid : c.errorId = some errorId)
    (hne : errorId ≠ "") (hfile : c.file = none ∨ c.file = some "") :
    Means c ⟨errorId, .everywhere⟩
  | inFiles {c : SuppressionComment} {errorId file : String} (hid : c.errorId = some errorId)
    (hne : errorId ≠ "") (hfile : c.file = some file) (hfne : file ≠ "") (hline : c.NamesNoLine) :
    Means c ⟨errorId, .inFiles file⟩
  | atLine {c : SuppressionComment} {errorId file : String} {ref : LineRef} {n : Int}
    (hid : c.errorId = some errorId) (hne : errorId ≠ "") (hfile : c.file = some file)
    (hfne : file ≠ "") (hline : c.line = some ref) (hn : ref.Names n) :
    Means c ⟨errorId, .atLine file n⟩

/-- The comment has an identifier and a file, but a line that is no numeral. -/
def IsUnreadable (c : SuppressionComment) : Prop :=
  ∃ errorId file text, c.errorId = some errorId ∧ errorId ≠ "" ∧ c.file = some file ∧ file ≠ "" ∧
    c.line = some (.text text) ∧ text ≠ "" ∧ ∃ e, readDecimal text = .error e

end SuppressionComment

namespace Suppression

theorem lineOf?_of_names {ref : LineRef} {n : Int} (h : ref.Names n) :
    lineOf? (some ref) = .ok (some n) := by
  cases h with
  | number hn => simp [lineOf?, hn]
  | text hs hread => simp [lineOf?, hs, hread, Except.map]

theorem ofComment?_of_means {c : SuppressionComment} {s : Suppression} (h : c.Means s) :
    ofComment? c = .ok (some s) := by
  cases h with
  | everywhere hid hne hfile =>
    have hempty : c.file.getD "" = "" := by rcases hfile with h | h <;> rw [h] <;> rfl
    simp [ofComment?, hid, hne, hempty]
  | inFiles hid hne hfile hfne hline =>
    have hnone : lineOf? c.line = .ok none := by
      rcases hline with h | h | h <;> rw [h] <;> rfl
    simp [ofComment?, hid, hne, hfile, hfne, hnone]
  | atLine hid hne hfile hfne hline hn =>
    simp [ofComment?, hid, hne, hfile, hfne, hline, lineOf?_of_names hn]

/-- The line of a comment is read as none, as the one that it names, or not at all. -/
theorem lineOf?_cases (line : Option LineRef) :
    (lineOf? line = .ok none ∧ (line = none ∨ line = some (.number 0) ∨ line = some (.text ""))) ∨
    (∃ ref n, line = some ref ∧ ref.Names n) ∨
    (∃ text e, line = some (.text text) ∧ text ≠ "" ∧ readDecimal text = .error e ∧
      lineOf? line = .error e) := by
  match line with
  | none => exact .inl ⟨rfl, .inl rfl⟩
  | some (.number n) =>
    by_cases hn : n = 0
    · exact .inl ⟨by rw [lineOf?, if_pos hn], .inr (.inl (by rw [hn]))⟩
    · exact .inr (.inl ⟨_, n, rfl, .number hn⟩)
  | some (.text text) =>
    by_cases htext : text = ""
    · exact .inl ⟨by rw [htext]; rfl, .inr (.inr (by rw [htext]))⟩
    · cases hread : readDecimal text with
      | ok n => exact .inr (.inl ⟨_, n, rfl, .text htext hread⟩)
      | error e =>
        refine .inr (.inr ⟨text, e, rfl, htext, hread, ?_⟩)
        simp [lineOf?, htext, hread, Except.map]

/-- A comment gives nothing, a suppression that it means, or an error. -/
theorem ofComment?_cases (c : SuppressionComment) :
    ofComment? c = .ok none ∨ (∃ s, c.Means s) ∨
      (c.IsUnreadable ∧ ∃ e, ofComment? c = .error e) := by
  have hnoId (h : c.errorId = none ∨ c.errorId = some "") : ofComment? c = .ok none := by
    rcases h with h | h <;> simp [ofComment?, h]
  cases hid : c.errorId with
  | none => exact .inl (hnoId (.inl hid))
  | some errorId =>
    by_cases hne : errorId = ""
    · exact .inl (hnoId (.inr (by rw [hid, hne])))
    refine .inr ?_
    cases hfile : c.file with
    | none => exact .inl ⟨_, .everywhere hid hne (.inl hfile)⟩
    | some file =>
      by_cases hfne : file = ""
      · exact .inl ⟨_, .everywhere hid hne (.inr (by rw [hfile, hfne]))⟩
      rcases lineOf?_cases c.line with ⟨-, hline⟩ | ⟨ref, n, hline, hn⟩ |
        ⟨text, e, hline, htext, hread, herror⟩
      · exact .inl ⟨_, .inFiles hid hne hfile hfne hline⟩
      · exact .inl ⟨_, .atLine hid hne hfile hfne hline hn⟩
      · refine .inr ⟨⟨errorId, file, text, hid, hne, hfile, hfne, hline, htext, e, hread⟩, e, ?_⟩
        simp [ofComment?, hid, hne, hfile, hfne, herror]

theorem ofComment?_eq_some_iff {c : SuppressionComment} {s : Suppression} :
    ofComment? c = .ok (some s) ↔ c.Means s := by
  refine ⟨fun h => ?_, ofComment?_of_means⟩
  rcases ofComment?_cases c with hnone | ⟨s', hs'⟩ | ⟨-, e, he⟩
  · rw [hnone] at h
    cases h
  · have hsame : s' = s := by simpa [ofComment?_of_means hs'] using h
    exact hsame ▸ hs'
  · rw [he] at h
    cases h

theorem ofComment?_eq_error_iff {c : SuppressionComment} :
    (∃ e, ofComment? c = .error e) ↔ c.IsUnreadable := by
  constructor
  · rintro ⟨e, he⟩
    rcases ofComment?_cases c with hnone | ⟨s, hs⟩ | ⟨hbad, -⟩
    · rw [hnone] at he
      cases he
    · rw [ofComment?_of_means hs] at he
      cases he
    · exact hbad
  · rintro ⟨errorId, file, text, hid, hne, hfile, hfne, hline, htext, e, hread⟩
    refine ⟨e, ?_⟩
    simp [ofComment?, lineOf?, hid, hne, hfile, hfne, hline, htext, hread, Except.map]

end Suppression

namespace Suppressions

/-- **Comments add what they mean,** up to the first of them that cannot be read. -/
theorem mem_load_iff {ss : Suppressions} {comments : List SuppressionComment} {s : Suppression} :
    s ∈ (ss.load comments).1 ↔
      s ∈ ss ∨ ∃ front c back, comments = front ++ c :: back ∧
        (∀ b ∈ front, ¬ b.IsUnreadable) ∧ c.Means s := by
  induction comments generalizing ss with
  | nil => simp [load]
  | cons c rest ih =>
    cases hc : Suppression.ofComment? c with
    | error e =>
      have hbad : c.IsUnreadable := Suppression.ofComment?_eq_error_iff.1 ⟨e, hc⟩
      have hstop : (ss.load (c :: rest)).1 = ss := by rw [load, hc]
      rw [hstop]
      -- No comment can give `s`: this one means nothing, and it stands before all others.
      refine ⟨.inl, ?_⟩
      rintro (h | ⟨front, b, back, hsplit, hread, hb⟩)
      · exact h
      · cases front with
        | nil =>
          obtain ⟨rfl, -⟩ := List.cons.inj hsplit
          rw [Suppression.ofComment?_of_means hb] at hc
          cases hc
        | cons a front =>
          obtain ⟨rfl, -⟩ := List.cons.inj hsplit
          exact absurd hbad (hread _ (List.mem_cons_self ..))
    | ok found =>
      have hgood : ¬ c.IsUnreadable := by
        rw [← Suppression.ofComment?_eq_error_iff]
        rintro ⟨e, he⟩
        rw [hc] at he
        cases he
      have hfound : s ∈ found.toList ↔ c.Means s := by
        rw [← Suppression.ofComment?_eq_some_iff, hc, Option.mem_toList]
        simp
      have hgo : (ss.load (c :: rest)).1 = (load (ss ++ found.toList) rest).1 := by rw [load, hc]
      rw [hgo, ih, List.mem_append, hfound, or_assoc]
      refine or_congr_right ⟨?_, ?_⟩
      · rintro (h | ⟨front, b, back, rfl, hread, hb⟩)
        · exact ⟨[], c, rest, rfl, fun b hb => absurd hb List.not_mem_nil, h⟩
        · exact ⟨c :: front, b, back, rfl, List.forall_mem_cons.2 ⟨hgood, hread⟩, hb⟩
      · rintro ⟨front, b, back, hsplit, hread, hb⟩
        cases front with
        | nil =>
          obtain ⟨rfl, -⟩ := List.cons.inj hsplit
          exact .inl hb
        | cons a front =>
          obtain ⟨rfl, rfl⟩ := List.cons.inj hsplit
          exact .inr ⟨front, b, back, rfl, (List.forall_mem_cons.1 hread).2, hb⟩

end Suppressions

end DivisorCheck
