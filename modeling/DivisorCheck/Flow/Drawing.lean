/-
  Drawings: a control-flow graph in the DOT language.

  Blocks and edges become quoted labels.  Inside those of blocks and edges a
  double quote is written after a backslash; the title is written as it is.
-/
import DivisorCheck.Flow.Graph

namespace DivisorCheck.FlowGraph

/-- The most tokens that the label of a block shows. -/
def labelTokens : Nat := 6

/-- The label of a block: where it starts and its first tokens, or its kind if it has none. -/
def blockLabel (p : Program) (n : Block) : String :=
  match n.tokens with
  | [] => "[" ++ n.kind.name ++ "]"
  | first :: _ =>
    let shown := " ".intercalate ((n.tokens.take labelTokens).map p.text)
    let shown := if n.tokens.length > labelTokens then shown ++ " …" else shown
    let tok := p.token first
    if tok.file.isEmpty ∨ tok.line = 0 then shown
    else tok.file ++ ":" ++ toString tok.line ++ " " ++ shown

/-- Writes each double quote after a backslash. -/
def escapeQuotes (cs : List Char) : List Char :=
  cs.flatMap (fun c => if c = '"' then ['\\', '"'] else [c])

/-- Writes each line feed as a backslash and the letter. -/
def escapeLines (cs : List Char) : List Char :=
  cs.flatMap (fun c => if c = '\n' then ['\\', 'n'] else [c])

/-- The label of a block between the quotes. -/
def blockLabelText (p : Program) (n : Block) : List Char :=
  ("BB" ++ toString n.id ++ "\\n").toList
    ++ escapeLines (escapeQuotes (blockLabel p n).toList)

/-- The label of an edge: its kind, and the text of the case that it leads to. -/
def edgeLabel (e : Edge) : String :=
  match e.label with
  | some label => if label.isEmpty then e.kind.name else e.kind.name ++ ": " ++ label
  | none => e.kind.name

/-- The label of an edge between the quotes. -/
def edgeLabelText (e : Edge) : List Char := escapeQuotes (edgeLabel e).toList

/-- The colour of a block that stands out. -/
def blockStyle : BlockKind → String
  | .entry => ", style=filled, fillcolor=\"#ccffcc\""
  | .exit => ", style=filled, fillcolor=\"#ffcccc\""
  | .unreachable => ", style=filled, fillcolor=\"#dddddd\""
  | _ => ""

/-- The style of an edge that stands out. -/
def edgeStyle : EdgeKind → String
  | .branchTrue => ", color=green, fontcolor=green"
  | .branchFalse => ", color=red, fontcolor=red"
  | .backEdge => ", style=dashed, color=blue, fontcolor=blue"
  | .breakOut | .continueLoop | .exception => ", style=dotted"
  | _ => ""

/-- The line of a block. -/
def blockLine (p : Program) (n : Block) : String :=
  "  BB" ++ toString n.id ++ " [label=\"" ++ String.ofList (blockLabelText p n) ++ "\""
    ++ blockStyle n.kind ++ "];"

/-- The line of an edge. -/
def edgeLine (g : FlowGraph) (e : Edge) : String :=
  "  BB" ++ toString (g.block e.src).id ++ " -> BB" ++ toString (g.block e.dst).id
    ++ " [label=\"" ++ String.ofList (edgeLabelText e) ++ "\"" ++ edgeStyle e.kind ++ "];"

/-- The line of the title, if there is one to show. -/
def titleLines : Option String → List String
  | none => []
  | some title => if title.isEmpty then [] else ["  label=\"" ++ title ++ "\";"]

/-- The drawing of a graph. -/
def drawing (g : FlowGraph) (p : Program) (title : Option String) : String :=
  "\n".intercalate (
    ["digraph CFG \x7b"] ++ titleLines title
      ++ ["  node [shape=box, fontname=monospace, fontsize=10];"]
      ++ g.nodes.map (fun b => blockLine p (g.block b))
      ++ g.listedEdges.map g.edgeLine
      ++ ["\x7d"])

end DivisorCheck.FlowGraph
