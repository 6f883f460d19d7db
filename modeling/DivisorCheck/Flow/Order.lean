/-
  Reachability and visiting order of a control-flow graph.

  `reachable` is a search with an explicit stack, `reversePostorder` a depth-first
  search that lists each block once everything reachable through it that was not
  listed before has been.  Read backwards, that list has a block before those it
  leads to, save along edges that close a circle.
-/
import DivisorCheck.Flow.Graph

namespace DivisorCheck.FlowGraph

variable (g : FlowGraph)

/-! ### Tokens -/

/-- Each token of a registered block with that block, the last one first. -/
def ownerList : List (TokenId × BlockId) :=
  (g.nodes.flatMap (fun b => (g.block b).tokens.map (fun t => (t, b)))).reverse

/-- The block that holds a token, and the graph with the answers to all such questions in store. -/
def ownerOf (t : TokenId) : Option BlockId × FlowGraph :=
  let owners := g.owners.getD g.ownerList
  ((owners.find? (fun o => o.1 == t)).map (·.2), { g with owners := some owners })

/-! ### Reachability -/

/-- Searches on from the blocks on the stack; `seen` are those searched before. -/
def reachFrom : Nat → List BlockId → List BlockId → List BlockId
  | 0, _, seen => seen
  | _ + 1, [], seen => seen
  | fuel + 1, b :: stack, seen =>
    if b ∈ seen then reachFrom fuel stack seen
    else reachFrom fuel (g.succBlocks b ++ stack) (b :: seen)

/-- The most blocks that a search can take from its stack: the start, and the end of each wire. -/
def wireCount : Nat := g.blocks.foldl (fun n b => n + b.succs.length) 1

/-- The blocks that control may reach from a block, itself included. -/
def reachable (b : BlockId) : List BlockId := g.reachFrom (g.wireCount + 1) [b] []

/-! ### Depth-first order -/

/-- How far a depth-first search has come. -/
structure Search where
  visited : List BlockId
  /-- the blocks done with, the last one first -/
  finished : List BlockId
deriving Repr

/-- Visits what a new block leads to, and then lists the block; `depth` bounds the path to it. -/
def visit : Nat → BlockId → Search → Search
  | 0, _, s => s
  | depth + 1, b, s =>
    let s := (g.succBlocks b).foldl
      (fun s c => if c ∈ s.visited then s else visit depth c { s with visited := c :: s.visited }) s
    { s with finished := b :: s.finished }

/-- The depth-first search from the entry. -/
def search : Search := g.visit (g.blocks.size + 1) g.entry ⟨[g.entry], []⟩

/-- The blocks reachable from the entry in reverse postorder, then the other registered ones in the
order of their registration. -/
def reversePostorder : List BlockId :=
  let s := g.search
  s.finished ++ g.nodes.filter (· ∉ s.visited)

end DivisorCheck.FlowGraph
