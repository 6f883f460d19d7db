/-
  The labels of a drawing, read back as the quoted strings that they are.

  A drawing is a text made of pieces (`drawing_eq_pieces`), the labels and the colours
  being those in quotes.  Whether a label is read back from where it stands depends on
  its backslashes alone.  Those of blocks and edges have their quotes put after
  backslashes of their own, so all runs of backslashes that stand before a quote or at
  the end must be even (`closes_blockLabelText_iff`, `closes_edgeLabelText_iff`); the
  title is written as it is and must have its quotes escaped already (`closes_iff`).
-/
import DivisorCheck.Flow.Drawing
import DivisorCheck.Proofs.Text.QuotedStrings

namespace DivisorCheck.FlowGraph

open DivisorCheck.Text

/-! ### Escaping -/

theorem escapeQuotes_cons (c : Char) (text : List Char) :
    escapeQuotes (c :: text) = (if c = '"' then ['\\', '"'] else [c]) ++ escapeQuotes text := rfl

theorem escapeLines_cons (c : Char) (text : List Char) :
    escapeLines (c :: text) = (if c = '\n' then ['\\', 'n'] else [c]) ++ escapeLines text := rfl

/-- Quotes that are put after a backslash do not close a string unless another takes the first. -/
theorem closes_escapeQuotes_iff {taken : Bool} {text : List Char} :
    Closes taken (escapeQuotes text) ↔
      (∀ front back, text = front ++ '"' :: back → front.foldl escapes taken = false) ∧
        text.foldl escapes taken = false := by
  induction text generalizing taken with
  | nil => simp [escapeQuotes, Closes]
  | cons c text ih =>
    rw [forall_quote_cons_iff, escapeQuotes_cons]
    by_cases hc : c = '"'
    · subst hc
      cases taken <;> simp [Closes, escapes, ih]
    · simp [hc, Closes, ih]

/-- Line feeds that are written by a letter close strings as little as line feeds do. -/
theorem closes_escapeLines_iff {taken : Bool} {text : List Char} :
    Closes taken (escapeLines text) ↔ Closes taken text := by
  induction text generalizing taken with
  | nil => rfl
  | cons c text ih =>
    rw [escapeLines_cons]
    by_cases hc : c = '\n'
    · subst hc
      cases taken <;> simp [Closes, escapes, ih]
    · simp [hc, Closes, ih]

/-! ### Labels -/

theorem quote_notMem_repr (n : Nat) : '"' ∉ n.repr.toList := by
  rw [Nat.toList_repr]
  intro h
  exact absurd (Nat.isDigit_of_mem_toDigits (by decide) (by decide) h) (by decide)

theorem quote_notMem_intRepr (id : Int) : '"' ∉ id.repr.toList := by
  cases id with
  | ofNat n => exact quote_notMem_repr n
  | negSucc n =>
    rw [Int.repr, String.toList_append, List.mem_append, not_or]
    exact ⟨by decide, quote_notMem_repr (n + 1)⟩

/-- The label of a block is read back exactly if the runs of backslashes in it are even. -/
theorem closes_blockLabelText_iff (p : Program) (n : Block) :
    Closes false (blockLabelText p n) ↔ RunsEven (blockLabel p n).toList := by
  have hfront : '"' ∉ ("BB" ++ toString n.id ++ "\\n").toList := by
    simp [quote_notMem_intRepr]
  -- The letter after the backslash is taken, so what follows starts afresh.
  have hstart : ("BB" ++ toString n.id ++ "\\n").toList.foldl escapes false = false := by
    rw [String.toList_append, List.foldl_append]
    simp [escapes]
  rw [blockLabelText, closes_append_iff hfront, hstart, closes_escapeLines_iff,
    closes_escapeQuotes_iff]
  simp only [foldl_escapes_eq_false_iff, RunsEven]

/-- The label of an edge is read back exactly if the runs of backslashes in it are even. -/
theorem closes_edgeLabelText_iff (e : Edge) :
    Closes false (edgeLabelText e) ↔ RunsEven (edgeLabel e).toList := by
  rw [edgeLabelText, closes_escapeQuotes_iff]
  simp only [foldl_escapes_eq_false_iff, RunsEven]

/-! ### Pieces of a drawing -/

/-- The colour that fills a block that stands out. -/
def fillColour? : BlockKind → Option String
  | .entry => some "#ccffcc"
  | .exit => some "#ffcccc"
  | .unreachable => some "#dddddd"
  | _ => none

/-- The pieces of the style of a block. -/
def stylePieces (kind : BlockKind) : List Piece :=
  match fillColour? kind with
  | some colour => [.plain ", style=filled, fillcolor=".toList, .inQuotes colour.toList]
  | none => []

/-- The pieces of the line of a block. -/
def blockPieces (p : Program) (n : Block) : List Piece :=
  [.plain ("  BB" ++ toString n.id ++ " [label=").toList, .inQuotes (blockLabelText p n)]
    ++ stylePieces n.kind ++ [.plain "];".toList]

/-- The pieces of the line of an edge. -/
def edgePieces (g : FlowGraph) (e : Edge) : List Piece :=
  [.plain ("  BB" ++ toString (g.block e.src).id ++ " -> BB" ++ toString (g.block e.dst).id
      ++ " [label=").toList,
    .inQuotes (edgeLabelText e), .plain (edgeStyle e.kind ++ "];").toList]

/-- The pieces of the line of the title, if there is one to show. -/
def titlePieces : Option String → List (List Piece)
  | none => []
  | some title =>
    if title.isEmpty then []
    else [[.plain "  label=".toList, .inQuotes title.toList, .plain ";".toList]]

/-- The pieces of all lines but the first. -/
def linePieces (g : FlowGraph) (p : Program) (title : Option String) : List (List Piece) :=
  titlePieces title
    ++ [[.plain "  node [shape=box, fontname=monospace, fontsize=10];".toList]]
    ++ g.nodes.map (fun b => blockPieces p (g.block b))
    ++ g.listedEdges.map g.edgePieces
    ++ [[.plain ['\x7d']]]

/-- The pieces of a drawing. -/
def drawingPieces (g : FlowGraph) (p : Program) (title : Option String) : List Piece :=
  .plain "digraph CFG \x7b".toList :: (g.linePieces p title).flatMap (.plain ['\n'] :: ·)

/-- The title as a string, if there is one to show. -/
def titleStrings : Option String → List (List Char)
  | none => []
  | some title => if title.isEmpty then [] else [title.toList]

/-- The label of a block and its colour. -/
def blockStrings (p : Program) (n : Block) : List (List Char) :=
  blockLabelText p n :: (fillColour? n.kind).toList.map String.toList

/-- The strings of a drawing in order. -/
def drawnStrings (g : FlowGraph) (p : Program) (title : Option String) : List (List Char) :=
  titleStrings title ++ g.nodes.flatMap (fun b => blockStrings p (g.block b))
    ++ g.listedEdges.map edgeLabelText

theorem blockLine_eq_pieces (p : Program) (n : Block) :
    (blockLine p n).toList = (blockPieces p n).flatMap Piece.text := by
  have hstyle : (blockStyle n.kind).toList = (stylePieces n.kind).flatMap Piece.text := by
    cases n.kind <;> rfl
  simp [blockLine, blockPieces, Piece.text, hstyle]

theorem edgeLine_eq_pieces (g : FlowGraph) (e : Edge) :
    (g.edgeLine e).toList = (g.edgePieces e).flatMap Piece.text := by
  simp [edgeLine, edgePieces, Piece.text]

theorem titleLines_eq_pieces (title : Option String) :
    (titleLines title).map String.toList = (titlePieces title).map (·.flatMap Piece.text) := by
  cases title with
  | none => rfl
  | some title =>
    rw [titleLines, titlePieces]
    split
    · rfl
    · simp [Piece.text]

theorem intercalate_cons (sep line : List Char) (lines : List (List Char)) :
    sep.intercalate (line :: lines) = line ++ lines.flatMap (sep ++ ·) := by
  induction lines generalizing line with
  | nil => simp
  | cons next lines ih =>
    rw [List.intercalate_cons_cons, ih, List.flatMap_cons, List.append_assoc, List.append_assoc]

/-- A drawing is made of its pieces. -/
theorem drawing_eq_pieces (g : FlowGraph) (p : Program) (title : Option String) :
    (g.drawing p title).toList = (g.drawingPieces p title).flatMap Piece.text := by
  have hlines : (titleLines title ++ ["  node [shape=box, fontname=monospace, fontsize=10];"]
      ++ g.nodes.map (fun b => blockLine p (g.block b)) ++ g.listedEdges.map g.edgeLine
      ++ ["\x7d"]).map String.toList = (g.linePieces p title).map (·.flatMap Piece.text) := by
    simp only [linePieces, List.map_append, titleLines_eq_pieces, List.map_map, Function.comp_def,
      blockLine_eq_pieces, edgeLine_eq_pieces]
    rfl
  rw [drawing, String.toList_intercalate, List.append_assoc, List.append_assoc, List.append_assoc,
    List.append_assoc, List.singleton_append, List.map_cons, intercalate_cons]
  simp only [← List.append_assoc, hlines]
  rw [drawingPieces, List.flatMap_cons, List.flatMap_assoc, List.flatMap_map]
  rfl

theorem strings_drawingPieces (g : FlowGraph) (p : Program) (title : Option String) :
    (g.drawingPieces p title).filterMap Piece.string? = g.drawnStrings p title := by
  have htitle : (titlePieces title).flatMap (·.filterMap Piece.string?) = titleStrings title := by
    cases title with
    | none => rfl
    | some title =>
      rw [titlePieces, titleStrings]
      split <;> rfl
  have hblock (n : Block) : (blockPieces p n).filterMap Piece.string? = blockStrings p n := by
    rw [blockPieces, blockStrings]
    cases n.kind <;> rfl
  have hedge (e : Edge) : (g.edgePieces e).filterMap Piece.string? = [edgeLabelText e] := rfl
  rw [drawingPieces, List.filterMap_cons_none rfl, List.filterMap_flatMap]
  change (g.linePieces p title).flatMap (fun line => line.filterMap Piece.string?) = _
  have hplain (cs : List Char) : [Piece.plain cs].filterMap Piece.string? = [] := rfl
  simp only [linePieces, drawnStrings, List.flatMap_append, htitle, List.flatMap_map, hblock, hedge,
    List.flatMap_singleton, hplain, List.append_nil, ← List.map_eq_flatMap]

/-- All quotes of a drawing are those around its strings or stand inside them. -/
theorem isApart_drawingPieces (g : FlowGraph) (p : Program) (title : Option String) :
    ∀ piece ∈ g.drawingPieces p title, piece.IsApart := by
  have htitle : ∀ line ∈ titlePieces title, ∀ piece ∈ line, piece.IsApart := by
    cases title with
    | none => simp [titlePieces]
    | some title =>
      rw [titlePieces]
      split <;> simp [Piece.IsApart]
  have hblock (n : Block) : ∀ piece ∈ blockPieces p n, piece.IsApart := by
    have hstyle : ∀ piece ∈ stylePieces n.kind, piece.IsApart := by
      cases n.kind <;> simp [stylePieces, fillColour?, Piece.IsApart]
    simp only [blockPieces, List.forall_mem_append, List.forall_mem_cons]
    refine ⟨⟨⟨?_, trivial, nofun⟩, hstyle⟩, ?_, nofun⟩
    · simp [Piece.IsApart, quote_notMem_intRepr]
    · simp [Piece.IsApart]
  have hedge (e : Edge) : ∀ piece ∈ g.edgePieces e, piece.IsApart := by
    have hstyle : '"' ∉ (edgeStyle e.kind).toList := by
      cases e.kind <;> decide
    simp only [edgePieces, List.forall_mem_cons]
    refine ⟨?_, trivial, ?_, nofun⟩
    · simp [Piece.IsApart, quote_notMem_intRepr]
    · simp [Piece.IsApart, hstyle]
  have hline : ∀ line ∈ g.linePieces p title, ∀ piece ∈ line, piece.IsApart := by
    simp only [linePieces, List.forall_mem_append, List.forall_mem_map, List.forall_mem_singleton]
    exact ⟨⟨⟨⟨htitle, by simp [Piece.IsApart]⟩, fun b _ => hblock _⟩, fun e _ => hedge e⟩,
      by simp [Piece.IsApart]⟩
  intro piece hpiece
  rcases List.mem_cons.1 hpiece with rfl | hpiece
  · simp [Piece.IsApart]
  · obtain ⟨line, hmem, hpiece⟩ := List.mem_flatMap.1 hpiece
    rcases List.mem_cons.1 hpiece with rfl | hpiece
    · simp [Piece.IsApart]
    · exact hline line hmem piece hpiece

/-! ### The drawing as a whole -/

/-- The strings of a drawing can all be read back by themselves exactly if its labels allow it. -/
theorem closes_drawnStrings_iff (g : FlowGraph) (p : Program) (title : Option String) :
    (∀ text ∈ g.drawnStrings p title, Closes false text) ↔
      (∀ t, title = some t → QuotesEscaped t.toList) ∧
      (∀ b ∈ g.nodes, RunsEven (blockLabel p (g.block b)).toList) ∧
      ∀ e ∈ g.listedEdges, RunsEven (edgeLabel e).toList := by
  have htitle : (∀ text ∈ titleStrings title, Closes false text) ↔
      ∀ t, title = some t → QuotesEscaped t.toList := by
    cases title with
    | none => simp [titleStrings]
    | some title =>
      rw [titleStrings]
      split
      · rename_i hempty
        simp only [Option.some.injEq, forall_eq', String.isEmpty_iff.1 hempty, ← closes_iff]
        simp [Closes]
      · simp [closes_iff]
  have hblock (n : Block) : (∀ text ∈ blockStrings p n, Closes false text) ↔
      RunsEven (blockLabel p n).toList := by
    rw [blockStrings, List.forall_mem_cons, closes_blockLabelText_iff]
    refine and_iff_left ?_
    cases n.kind <;> simp [fillColour?, Closes, escapes]
  rw [drawnStrings, List.forall_mem_append, List.forall_mem_append, htitle, List.forall_mem_flatMap,
    List.forall_mem_map, and_assoc]
  simp only [hblock, closes_edgeLabelText_iff]

/-- A reader of a drawing finds its strings exactly if its labels allow it. -/
theorem readStrings_drawing_iff (g : FlowGraph) (p : Program) (title : Option String) :
    readStrings (g.drawing p title).toList = some (g.drawnStrings p title) ↔
      (∀ t, title = some t → QuotesEscaped t.toList) ∧
      (∀ b ∈ g.nodes, RunsEven (blockLabel p (g.block b)).toList) ∧
      ∀ e ∈ g.listedEdges, RunsEven (edgeLabel e).toList := by
  rw [drawing_eq_pieces, ← closes_drawnStrings_iff, ← strings_drawingPieces]
  exact readStrings_eq_iff (g.isApart_drawingPieces p title)

/-- **Which labels are read back.**  Read from its opening quote, the label of a block or an edge ends
at the closing quote exactly if all runs of backslashes in it that stand before a quote or at the end
are even, and the title exactly if its quotes are escaped already.  A reader of a whole drawing finds
the strings that it was made of exactly if this holds of all its labels. -/
theorem drawing_strings (g : FlowGraph) (p : Program) (title : Option String) :
    (∀ n after, readQuoted false (blockLabelText p n ++ '"' :: after) =
        some (blockLabelText p n, after) ↔ RunsEven (blockLabel p n).toList) ∧
    (∀ e after, readQuoted false (edgeLabelText e ++ '"' :: after) =
        some (edgeLabelText e, after) ↔ RunsEven (edgeLabel e).toList) ∧
    (∀ t after, readQuoted false (t ++ '"' :: after) = some (t, after) ↔ QuotesEscaped t) ∧
    (readStrings (g.drawing p title).toList = some (g.drawnStrings p title) ↔
      (∀ t, title = some t → QuotesEscaped t.toList) ∧
      (∀ b ∈ g.nodes, RunsEven (blockLabel p (g.block b)).toList) ∧
      ∀ e ∈ g.listedEdges, RunsEven (edgeLabel e).toList) := by
  refine ⟨fun n after => ?_, fun e after => ?_, fun t after => ?_, ?_⟩
  · rw [readQuoted_eq_iff, closes_blockLabelText_iff]
  · rw [readQuoted_eq_iff, closes_edgeLabelText_iff]
  · rw [readQuoted_eq_iff, closes_iff]
  · exact g.readStrings_drawing_iff p title

/-- The call `puts("%d")` in one block. -/
def callOfPuts : Program where
  tokens := #[
    { text := "puts", file := "a.c", line := 1 },
    { text := "(", file := "a.c", line := 1 },
    { text := "\"%d\"", file := "a.c", line := 1 },
    { text := ")", file := "a.c", line := 1 }]

/-- The graph with the call between entry and exit. -/
def graphOfPuts : FlowGraph where
  blocks := #[{ id := 0, kind := .entry }, { id := 1, kind := .exit },
    { id := 2, tokens := [0, 1, 2, 3] }]
  edges := #[{ src := 0, dst := 2 }, { src := 2, dst := 1 }]
  nodes := [0, 1, 2]
  listed := [0, 1]

/-- A string literal without backslashes is read back. -/
theorem drawing_strings_callOfPuts :
    readStrings (graphOfPuts.drawing callOfPuts (some "main")).toList =
      some ["main".toList, "BB0\\n[entry]".toList, "#ccffcc".toList, "BB1\\n[exit]".toList,
        "#ffcccc".toList, "BB2\\na.c:1 puts ( \\\"%d\\\" )".toList, "fall-through".toList,
        "fall-through".toList] := by
  obtain ⟨-, -, -, hdrawing⟩ := drawing_strings graphOfPuts callOfPuts (some "main")
  refine (hdrawing.2 ⟨?_, ?_, ?_⟩).trans (by decide)
  · rintro t ⟨⟩
    exact closes_iff.1 (by simp [Closes, escapes])
  · exact fun b hb => runsEven_of_notMem (by revert b; decide)
  · exact fun e he => runsEven_of_notMem (by revert e; decide)

/-- **Labels end early.**  A token that is the string literal of `a"b` ends the label of its block, and
the character literal of a quote that of its case; a quote in the title ends the title. -/
theorem labels_endEarly :
    (¬ ∀ p n after, readQuoted false (blockLabelText p n ++ '"' :: after) =
      some (blockLabelText p n, after)) ∧
    (¬ ∀ e after, readQuoted false (edgeLabelText e ++ '"' :: after) =
      some (edgeLabelText e, after)) ∧
    ¬ ∀ (g : FlowGraph) p title, readStrings (g.drawing p title).toList =
      some (g.drawnStrings p title) := by
  refine ⟨fun hclaim => ?_, fun hclaim => ?_, fun hclaim => ?_⟩
  · have hread := hclaim { tokens := #[{ text := "\"a\\\"b\"" }] } { id := 2, tokens := [0] } []
    revert hread
    decide
  · have hread := hclaim { src := 0, dst := 1, kind := .switchCase, label := some "'\\\"'" } []
    revert hread
    decide
  · obtain ⟨htitle, -⟩ := (readStrings_drawing_iff graphOfPuts callOfPuts (some "a\"b")).1
      (hclaim _ _ _)
    have hcloses := closes_iff.2 (htitle _ rfl)
    simp [Closes, escapes] at hcloses

end DivisorCheck.FlowGraph
