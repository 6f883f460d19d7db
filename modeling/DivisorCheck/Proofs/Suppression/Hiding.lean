/-
  Which findings the suppressions from all sources hide.

  Sources add suppressions one after the other, and one that cannot be read adds
  only what came before the fault.  What is in force in the end is what the sources
  give each by itself (`mem_ofSources_iff`), so their order does not matter.

  A pattern should cover the files that it names: by their whole name, by the last
  steps of their path, or as a glob (`SuppressionScope.Reaches`).  It also covers
  those whose name merely ends with it in the middle of a step
  (`SuppressionScope.Overreaches`), and nothing else: `hide_ofSources` is the exact
  statement.
-/
import DivisorCheck.Proofs.Suppression.Spelling

namespace DivisorCheck

open DivisorCheck.Text

/-! ### What a suppression covers -/

/-- The boundary between the two parts of a path is one between its steps. -/
def IsBetweenSteps (front back : List Char) : Prop :=
  front = [] ∨ front.getLast? = some '/' ∨ back.head? = some '/'

namespace SuppressionScope

/-- The place lies where the suppression holds: anywhere, at the line or the one after it, or in a
file that the pattern names. -/
def Reaches : SuppressionScope → Location → Prop
  | everywhere, _ => True
  | atLine file line, l => l.file = file ∧ (line = l.line ∨ line = l.line - 1)
  | inFiles pattern, l =>
    pattern = l.file ∨
    (∃ front, l.file.toList = front ++ pattern.toList ∧ IsBetweenSteps front pattern.toList) ∨
    globMatches pattern l.file = true

/-- The name of the file ends with the pattern, which starts in the middle of a step. -/
def Overreaches : SuppressionScope → Location → Prop
  | inFiles pattern, l =>
    ∃ front, l.file.toList = front ++ pattern.toList ∧ ¬ IsBetweenSteps front pattern.toList
  | _, _ => False

theorem covers_iff (scope : SuppressionScope) (l : Location) :
    scope.covers l = true ↔ scope.Reaches l ∨ scope.Overreaches l := by
  cases scope with
  | everywhere => simp [covers, Reaches]
  | atLine file line =>
    simp only [covers, Reaches, Overreaches, or_false, Bool.and_eq_true, Bool.or_eq_true,
      beq_iff_eq]
    exact and_congr_left' eq_comm
  | inFiles pattern =>
    simp only [covers, coversFile, Reaches, Overreaches, Bool.or_eq_true, List.isSuffixOf_iff_suffix]
    constructor
    · rintro (⟨front, hfront⟩ | hglob)
      · by_cases hstep : IsBetweenSteps front pattern.toList
        · exact .inl (.inr (.inl ⟨front, hfront.symm, hstep⟩))
        · exact .inr ⟨front, hfront.symm, hstep⟩
      · exact .inl (.inr (.inr hglob))
    · rintro ((rfl | ⟨front, hfront, -⟩ | hglob) | ⟨front, hfront, -⟩)
      · exact .inl List.suffix_rfl
      · exact .inl ⟨front, hfront.symm⟩
      · exact .inr hglob
      · exact .inl ⟨front, hfront.symm⟩

end SuppressionScope

/-! ### Sources -/

/-- Where suppressions come from: the comments of a program, a specification, or an identifier with
or without a pattern for files. -/
inductive SuppressionSource where
  | comments (comments : List SuppressionComment)
  | spec (spec : String)
  | inFiles (errorId pattern : String)
  | everywhere (errorId : String)

namespace SuppressionSource

/-- The suppressions in force once a source has added its own, as far as it can be read. -/
def addTo (ss : Suppressions) : SuppressionSource → Suppressions
  | comments cs => (ss.load cs).1
  | spec text => (ss.addSpec text).toOption.getD ss
  | inFiles errorId pattern => ss ++ [⟨errorId, .inFiles pattern⟩]
  | everywhere errorId => ss ++ [⟨errorId, .everywhere⟩]

/-- The source gives the suppression.  Comments give what they mean up to the first of them that
cannot be read. -/
inductive Gives : SuppressionSource → Suppression → Prop where
  | comment {front back : List SuppressionComment} {c : SuppressionComment} {s : Suppression}
    (hread : ∀ b ∈ front, ¬ b.IsUnreadable) (h : c.Means s) :
    Gives (.comments (front ++ c :: back)) s
  | spec {text : String} {s : Suppression} (h : Suppression.Specifies text.toList s) :
    Gives (.spec text) s
  | inFiles (errorId pattern : String) :
    Gives (.inFiles errorId pattern) ⟨errorId, .inFiles pattern⟩
  | everywhere (errorId : String) : Gives (.everywhere errorId) ⟨errorId, .everywhere⟩

theorem mem_addTo_iff {ss : Suppressions} {source : SuppressionSource} {s : Suppression} :
    s ∈ source.addTo ss ↔ s ∈ ss ∨ source.Gives s := by
  cases source with
  | comments cs =>
    rw [addTo, Suppressions.mem_load_iff]
    refine or_congr_right ⟨?_, ?_⟩
    · rintro ⟨front, c, back, rfl, hread, h⟩
      exact .comment hread h
    · rintro (⟨hread, h⟩ | _)
      exact ⟨_, _, _, rfl, hread, h⟩
  | spec text =>
    have hgives : (SuppressionSource.spec text).Gives s ↔ Suppression.ofSpec text = .ok s := by
      rw [Suppression.ofSpec_eq_ok_iff]
      exact ⟨fun h => by cases h; assumption, .spec⟩
    rw [hgives, addTo, Suppressions.addSpec]
    cases Suppression.ofSpec text with
    | error e => simp [Except.map, Except.toOption]
    | ok found => simp [Except.map, Except.toOption, eq_comm]
  | inFiles errorId pattern =>
    rw [addTo, List.mem_append, List.mem_singleton]
    exact or_congr_right ⟨fun h => h ▸ .inFiles errorId pattern, fun h => by cases h; rfl⟩
  | everywhere errorId =>
    rw [addTo, List.mem_append, List.mem_singleton]
    exact or_congr_right ⟨fun h => h ▸ .everywhere errorId, fun h => by cases h; rfl⟩

end SuppressionSource

namespace Suppressions

/-- The suppressions in force once all sources have added their own. -/
def ofSources (sources : List SuppressionSource) : Suppressions :=
  sources.foldl (fun ss source => source.addTo ss) []

theorem mem_foldl_addTo_iff {sources : List SuppressionSource} {ss : Suppressions}
    {s : Suppression} :
    s ∈ sources.foldl (fun ss source => source.addTo ss) ss ↔
      s ∈ ss ∨ ∃ source ∈ sources, source.Gives s := by
  induction sources generalizing ss with
  | nil => simp
  | cons source sources ih =>
    rw [List.foldl_cons, ih, SuppressionSource.mem_addTo_iff]
    simp [or_assoc]

/-- What is in force is what the sources give, each by itself. -/
theorem mem_ofSources_iff {sources : List SuppressionSource} {s : Suppression} :
    s ∈ ofSources sources ↔ ∃ source ∈ sources, source.Gives s := by
  rw [ofSources, mem_foldl_addTo_iff]
  simp

/-- **What suppressions hide.**  A finding is hidden exactly if some source gives a suppression that
has its identifier, or `*`, and reaches its place, or whose pattern ends the name of its file in the
middle of a step.  The order of the sources does not matter.  A specification adds nothing exactly if
it ends in digit forms that are no line. -/
theorem hide_ofSources (sources : List SuppressionSource) (errorId : String) (l : Location) :
    ((ofSources sources).hide errorId l = true ↔
      ∃ source ∈ sources, ∃ s, source.Gives s ∧ (s.errorId = errorId ∨ s.errorId = "*") ∧
        (s.scope.Reaches l ∨ s.scope.Overreaches l)) ∧
    (∀ others, others.Perm sources →
      (ofSources others).hide errorId l = (ofSources sources).hide errorId l) ∧
    ∀ (ss : Suppressions) (spec : String),
      (∃ e, ss.addSpec spec = .error e) ↔ Suppression.IsUnreadableSpec spec.toList := by
  have hhide (sources : List SuppressionSource) : (ofSources sources).hide errorId l = true ↔
      ∃ source ∈ sources, ∃ s, source.Gives s ∧ (s.errorId = errorId ∨ s.errorId = "*") ∧
        (s.scope.Reaches l ∨ s.scope.Overreaches l) := by
    simp only [hide_iff, mem_ofSources_iff, SuppressionScope.covers_iff]
    constructor
    · rintro ⟨s, ⟨source, hsource, hs⟩, h⟩
      exact ⟨source, hsource, s, hs, h⟩
    · rintro ⟨source, hsource, s, hs, h⟩
      exact ⟨s, ⟨source, hsource, hs⟩, h⟩
  refine ⟨hhide sources, fun others hperm => ?_, fun ss spec => ?_⟩
  · rw [Bool.eq_iff_iff, hhide others, hhide sources]
    simp only [hperm.mem_iff]
  · rw [← Suppression.ofSpec_eq_error_iff, addSpec]
    cases Suppression.ofSpec spec <;> simp [Except.map]

/-- A comment above a division and a pattern for other files, in either order. -/
theorem hide_ofSources_lineAbove :
    (ofSources [.spec "divide-by-zero:src/a.c:9", .inFiles "*" "legacy/*.c"]).hide
      "divide-by-zero" ⟨"src/a.c", 10, 5⟩ = true ∧
    (ofSources [.inFiles "*" "legacy/*.c", .spec "divide-by-zero:src/a.c:9"]).hide
      "divide-by-zero" ⟨"src/a.c", 10, 5⟩ = true := by
  obtain ⟨hhide, horder, -⟩ := hide_ofSources
    [.spec "divide-by-zero:src/a.c:9", .inFiles "*" "legacy/*.c"] "divide-by-zero"
    ⟨"src/a.c", 10, 5⟩
  have hspec : Suppression.Specifies "divide-by-zero:src/a.c:9".toList
      ⟨"divide-by-zero", .atLine "src/a.c" 9⟩ := Suppression.ofSpec_eq_ok_iff.1 (by decide)
  have hfirst := hhide.2 ⟨_, List.mem_cons_self .., _, .spec hspec, .inl rfl,
    .inl ⟨rfl, .inr rfl⟩⟩
  exact ⟨hfirst, (horder _ (List.Perm.swap ..)).trans hfirst⟩

/-- **A pattern hides more than it names:** `a.c` hides findings in `data.c`, which it names neither
by its path nor as a glob.  And there are specifications that cannot be read. -/
theorem pattern_overreaches :
    (¬ ∀ sources errorId l, (ofSources sources).hide errorId l = true ↔
      ∃ source ∈ sources, ∃ s, source.Gives s ∧ (s.errorId = errorId ∨ s.errorId = "*") ∧
        s.scope.Reaches l) ∧
    ¬ ∀ (ss : Suppressions) (spec : String), ∃ added, ss.addSpec spec = .ok added := by
  constructor
  · intro hclaim
    obtain ⟨source, hsource, s, hs, -, hreach⟩ :=
      (hclaim [.inFiles "divide-by-zero" "a.c"] "divide-by-zero" ⟨"data.c", 1, 0⟩).1 (by decide)
    rw [List.mem_singleton.1 hsource] at hs
    cases hs
    rcases hreach with hsame | ⟨front, hfront, hstep⟩ | hglob
    · exact absurd hsame (by decide)
    · have hdata : "data.c".toList = "dat".toList ++ "a.c".toList := by decide
      have : "dat".toList = front := List.append_cancel_right (hdata.symm.trans hfront)
      exact absurd hstep (by rw [← this]; unfold IsBetweenSteps; decide)
    · exact absurd hglob (by decide)
  · intro hclaim
    obtain ⟨added, hadded⟩ := hclaim [] "divide-by-zero:a.c:²"
    have hfails : Suppressions.addSpec [] "divide-by-zero:a.c:²" =
        .error (.notInteger "²") := by decide
    rw [hfails] at hadded
    cases hadded

end Suppressions

end DivisorCheck
