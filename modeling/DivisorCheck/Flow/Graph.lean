/-
  `FlowGraph` — the control-flow graph of one function body.

  Its nodes are basic blocks, stretches of tokens that run from first to last,
  and its edges say how control passes from the end of one block to the start of
  another.  Blocks and edges are kept in two arrays and referred to by position.
  Apart from that the graph registers blocks and edges in two lists, and each
  block lists the edges that leave and enter it: a graph put together by hand may
  register only part of what it holds, or wire an edge on one side only, and
  `FlowGraph.check` finds such faults.
-/
import DivisorCheck.Program
import DivisorCheck.Text.Quoted

namespace DivisorCheck

/-! ### Edges -/

/-- How control passes along an edge. -/
inductive EdgeKind where
  | fallThrough
  | branchTrue
  | branchFalse
  | backEdge
  | breakOut
  | continueLoop
  | returnOut
  | goto
  | switchCase
  | switchDefault
  | exception
deriving DecidableEq, Repr, Inhabited

/-- All kinds of edges. -/
def EdgeKind.all : List EdgeKind :=
  [fallThrough, branchTrue, branchFalse, backEdge, breakOut, continueLoop, returnOut, goto,
    switchCase, switchDefault, exception]

/-- The name of a kind of edge. -/
def EdgeKind.name : EdgeKind → String
  | fallThrough => "fall-through"
  | branchTrue => "branch-true"
  | branchFalse => "branch-false"
  | backEdge => "back-edge"
  | breakOut => "break"
  | continueLoop => "continue"
  | returnOut => "return"
  | goto => "goto"
  | switchCase => "switch-case"
  | switchDefault => "switch-default"
  | exception => "exception"

/-- The kind of edge with a given name. -/
def EdgeKind.ofName? (s : String) : Option EdgeKind := EdgeKind.all.find? (·.name == s)

/-- The position of a block in its graph. -/
abbrev BlockId := Nat

/-- The position of an edge in its graph. -/
abbrev EdgeId := Nat

/-- An edge. -/
structure Edge where
  src : BlockId
  dst : BlockId
  kind : EdgeKind := .fallThrough
  /-- the text of a case label -/
  label : Option String := none
  /-- the token at the top of a case label -/
  value : Option TokenId := none
deriving Inhabited, DecidableEq

/-! ### Blocks -/

/-- What part of a function a block plays. -/
inductive BlockKind where
  | entry
  | exit
  | body
  | unreachable
  | label
  | returning
  | ifCondition
  | ifTrue
  | ifFalse
  | ifMerge
  | loopCondition
  | loopBody
  | loopAfter
  | forInit
  | forStep
  | forRange
  | switchDispatch
  | switchAfter
  | caseLabel
  | defaultLabel
  | tryBody
  | catchBody
  | tryAfter
  | other (name : String)
deriving DecidableEq, Repr, Inhabited

/-- The name of a kind of block. -/
def BlockKind.name : BlockKind → String
  | entry => "entry"
  | exit => "exit"
  | body => "body"
  | unreachable => "unreachable"
  | label => "label"
  | returning => "return"
  | ifCondition => "if-cond"
  | ifTrue => "if-true"
  | ifFalse => "if-false"
  | ifMerge => "if-merge"
  | loopCondition => "loop-cond"
  | loopBody => "loop-body"
  | loopAfter => "loop-after"
  | forInit => "for-init"
  | forStep => "for-incr"
  | forRange => "for-range"
  | switchDispatch => "switch-dispatch"
  | switchAfter => "switch-after"
  | caseLabel => "case"
  | defaultLabel => "default"
  | tryBody => "try"
  | catchBody => "catch"
  | tryAfter => "try-after"
  | other s => s

/-- The kinds of blocks that look different in a drawing. -/
def BlockKind.ofName (s : String) : BlockKind :=
  match s with
  | "entry" => entry
  | "exit" => exit
  | "unreachable" => unreachable
  | s => other s

/-- A basic block. -/
structure Block where
  /-- the number by which reports refer to the block -/
  id : Int
  kind : BlockKind := .body
  tokens : List TokenId := []
  succs : List EdgeId := []
  preds : List EdgeId := []
deriving Inhabited

/-! ### Graphs -/

/-- The control-flow graph of a function body. -/
structure FlowGraph where
  /-- the name of the function -/
  name : Option String := none
  blocks : Array Block
  edges : Array Edge := #[]
  /-- the registered blocks -/
  nodes : List BlockId
  /-- the registered edges -/
  listed : List EdgeId := []
  entry : BlockId := 0
  exit : BlockId := 1
  /-- the number that the next new block receives -/
  nextId : Nat := 2
  /-- which block holds a token, as of the first question after a block was registered -/
  owners : Option (List (TokenId × BlockId)) := none
deriving Inhabited

namespace FlowGraph

/-- The graph with an entry and an exit, both without tokens, and nothing between them. -/
def init (name : Option String) : FlowGraph where
  name
  blocks := #[{ id := 0, kind := .entry }, { id := 1, kind := .exit }]
  nodes := [0, 1]

/-- The block at a position. -/
def block (g : FlowGraph) (b : BlockId) : Block := g.blocks.getD b { id := 0 }

/-- The edge at a position. -/
def edge (g : FlowGraph) (e : EdgeId) : Edge := g.edges.getD e { src := 0, dst := 0 }

/-- Changes the block at a position. -/
def modifyBlock (g : FlowGraph) (b : BlockId) (f : Block → Block) : FlowGraph :=
  { g with blocks := g.blocks.modify b f }

/-- The edges that leave a block. -/
def succEdges (g : FlowGraph) (b : BlockId) : List Edge := (g.block b).succs.map g.edge

/-- The edges that enter a block. -/
def predEdges (g : FlowGraph) (b : BlockId) : List Edge := (g.block b).preds.map g.edge

/-- The blocks that control may pass to from a block. -/
def succBlocks (g : FlowGraph) (b : BlockId) : List BlockId := (g.succEdges b).map (·.dst)

/-- The blocks that control may come from. -/
def predBlocks (g : FlowGraph) (b : BlockId) : List BlockId := (g.predEdges b).map (·.src)

/-- The registered edges. -/
def listedEdges (g : FlowGraph) : List Edge := g.listed.map g.edge

/-- All tokens of registered blocks. -/
def tokens (g : FlowGraph) : List TokenId := g.nodes.flatMap (fun b => (g.block b).tokens)

/-! ### Building -/

/-- Holds a block without registering it. -/
def hold (g : FlowGraph) (b : Block) : BlockId × FlowGraph :=
  (g.blocks.size, { g with blocks := g.blocks.push b })

/-- Registers a block that the graph holds. -/
def register (g : FlowGraph) (b : BlockId) : FlowGraph :=
  { g with nodes := g.nodes ++ [b], owners := none }

/-- Adds a block with the next number. -/
def newBlock (g : FlowGraph) (kind : BlockKind) (tokens : List TokenId := []) :
    BlockId × FlowGraph :=
  let (b, g) := g.hold { id := g.nextId, kind, tokens }
  (b, { g.register b with nextId := g.nextId + 1 })

/-- Holds an edge without wiring it. -/
def holdEdge (g : FlowGraph) (e : Edge) : EdgeId × FlowGraph :=
  (g.edges.size, { g with edges := g.edges.push e })

/-- Registers an edge that the graph holds. -/
def list (g : FlowGraph) (e : EdgeId) : FlowGraph := { g with listed := g.listed ++ [e] }

/-- Lets an edge leave a block. -/
def wireSucc (g : FlowGraph) (b : BlockId) (e : EdgeId) : FlowGraph :=
  g.modifyBlock b (fun n => { n with succs := n.succs ++ [e] })

/-- Lets an edge enter a block. -/
def wirePred (g : FlowGraph) (b : BlockId) (e : EdgeId) : FlowGraph :=
  g.modifyBlock b (fun n => { n with preds := n.preds ++ [e] })

/-- Adds an edge, registered and wired on both sides. -/
def addEdge (g : FlowGraph) (e : Edge) : EdgeId × FlowGraph :=
  let (i, g) := g.holdEdge e
  (i, ((g.list i).wireSucc e.src i).wirePred e.dst i)

/-- Adds tokens at the end of a block. -/
def appendTokens (g : FlowGraph) (b : BlockId) (ts : List TokenId) : FlowGraph :=
  g.modifyBlock b (fun n => { n with tokens := n.tokens ++ ts })

/-- Changes the part that a block plays. -/
def setKind (g : FlowGraph) (b : BlockId) (kind : BlockKind) : FlowGraph :=
  g.modifyBlock b (fun n => { n with kind })

/-! ### Faults -/

/-- What may be wrong with a graph, blocks being given by their numbers. -/
inductive Fault where
  | entryMissing
  | exitMissing
  | blockTwice
  | duplicateIds
  | edgeLeaves (src dst : Int)
  | edgeUnwired (src dst : Int)
  | straySuccessor (block : Int)
  | strayPredecessor (block : Int)
deriving DecidableEq, Repr

/-- The text of the fault. -/
def Fault.message : Fault → String
  | entryMissing => "entry block is not part of the graph"
  | exitMissing => "exit block is not part of the graph"
  | blockTwice => "a block is registered twice"
  | duplicateIds => "duplicate block ids"
  | edgeLeaves src dst => "edge BB" ++ toString src ++ " -> BB" ++ toString dst ++ " leaves the graph"
  | edgeUnwired src dst =>
    "edge BB" ++ toString src ++ " -> BB" ++ toString dst ++ " is not wired into its blocks"
  | straySuccessor b => "BB" ++ toString b ++ " has a stray successor edge"
  | strayPredecessor b => "BB" ++ toString b ++ " has a stray predecessor edge"

/-- The fault of one registered edge. -/
def edgeFault? (g : FlowGraph) (i : EdgeId) : Option Fault :=
  let e := g.edge i
  let src := (g.block e.src).id
  let dst := (g.block e.dst).id
  if e.src ∉ g.nodes ∨ e.dst ∉ g.nodes then some (.edgeLeaves src dst)
  else if i ∉ (g.block e.src).succs ∨ i ∉ (g.block e.dst).preds then some (.edgeUnwired src dst)
  else none

/-- The fault of the edge lists of one registered block. -/
def blockFault? (g : FlowGraph) (b : BlockId) : Option Fault :=
  let n := g.block b
  if n.succs.any (fun i => i ∉ g.listed ∨ (g.edge i).src ≠ b) then some (.straySuccessor n.id)
  else if n.preds.any (fun i => i ∉ g.listed ∨ (g.edge i).dst ≠ b) then
    some (.strayPredecessor n.id)
  else none

/-- The first fault of a graph: first of its blocks, then of its edges, then of the edge lists of
its blocks. -/
def fault? (g : FlowGraph) : Option Fault :=
  if g.entry ∉ g.nodes then some .entryMissing
  else if g.exit ∉ g.nodes then some .exitMissing
  else if ¬ g.nodes.Nodup then some .blockTwice
  else if ¬ (g.nodes.map (fun b => (g.block b).id)).Nodup then some .duplicateIds
  else (g.listed.findSome? g.edgeFault?).or (g.nodes.findSome? g.blockFault?)

/-- Accepts a graph without faults. -/
def check (g : FlowGraph) : Except Fault Unit :=
  match g.fault? with
  | some f => .error f
  | none => .ok ()

/-! ### Text -/

/-- An edge in a listing. -/
def edgeText (g : FlowGraph) (i : EdgeId) : String :=
  let e := g.edge i
  "CFGEdge(BB" ++ toString (g.block e.src).id ++ " -> BB" ++ toString (g.block e.dst).id
    ++ ", kind=" ++ Text.quoted e.kind.name ++ ")"

/-- A block in a listing. -/
def blockText (g : FlowGraph) (b : BlockId) : String :=
  let n := g.block b
  "CFGNode(id=" ++ toString n.id ++ ", kind=" ++ Text.quoted n.kind.name
    ++ ", ntokens=" ++ toString n.tokens.length ++ ")"

/-- What to call a function without a name. -/
def unknownName : String := "<unknown>"

/-- A graph in a listing. -/
def text (g : FlowGraph) : String :=
  "CFG(function=" ++ Text.quoted (nameOr g.name unknownName) ++ ", nodes="
    ++ toString g.nodes.length ++ ", edges=" ++ toString g.listed.length ++ ")"

/-- One block of the summary. -/
def summaryLine (g : FlowGraph) (b : BlockId) : String :=
  let n := g.block b
  let succs := (g.succEdges b).map (fun e =>
    "BB" ++ toString (g.block e.dst).id ++ "(" ++ e.kind.name ++ ")")
  let preds := (g.predEdges b).map (fun e => "BB" ++ toString (g.block e.src).id)
  "  BB" ++ toString n.id ++ " [" ++ n.kind.name ++ "] tokens=" ++ toString n.tokens.length
    ++ "  succ=[" ++ ", ".intercalate succs ++ "]  pred=[" ++ ", ".intercalate preds ++ "]"

/-- The blocks of a graph with their edges, one to a line. -/
def summary (g : FlowGraph) : String :=
  "\n".intercalate (g.text :: g.nodes.map g.summaryLine)

end FlowGraph

end DivisorCheck
