/-
  Dominators: the blocks that lie on every path from the entry to a block.

  Every block starts with all blocks as its dominators, the entry with itself
  alone, and passes in reverse postorder take away what a predecessor does not
  share, until a pass changes nothing.  Whether one block is among the dominators
  of another changes at most once, which bounds the number of passes.
-/
import DivisorCheck.Flow.Order

namespace DivisorCheck.FlowGraph

/-- The dominators found so far of every block that has any. -/
abbrev DominatorTable := List (BlockId × List BlockId)

/-- The entry of a block in a table. -/
def dominatorsIn? (b : BlockId) (table : DominatorTable) : Option (List BlockId) :=
  (table.find? (·.1 == b)).map (·.2)

/-- Are two lists of blocks the same set? -/
def sameBlocks (a b : List BlockId) : Bool := a.all (· ∈ b) && b.all (· ∈ a)

variable (g : FlowGraph)

/-- The table to start from. -/
def startDominators : DominatorTable :=
  (g.entry, [g.entry]) ::
    (g.nodes.eraseDups.filter (· ≠ g.entry)).map (fun b => (b, g.nodes.eraseDups))

/-- The entries of the blocks listed; the error is the first that has none. -/
def dominatorsOf (table : DominatorTable) : List BlockId → Except BlockId (List (List BlockId))
  | [] => .ok []
  | b :: rest =>
    match dominatorsIn? b table with
    | none => .error b
    | some d => (dominatorsOf table rest).map (d :: ·)

/-- What all the lists have in common, with `b` added. -/
def commonWith (b : BlockId) : List (List BlockId) → List BlockId
  | [] => [b]
  | d :: rest =>
    let common := d.filter (fun x => rest.all (x ∈ ·))
    if b ∈ common then common else b :: common

/-- Recomputes one entry, noting whether it has changed. -/
def dominatorStep (state : DominatorTable × Bool) (b : BlockId) :
    Except BlockId (DominatorTable × Bool) :=
  if b = g.entry then .ok state
  else
    match dominatorsOf state.1 (g.predBlocks b) with
    | .error e => .error e
    | .ok ds =>
      let new := commonWith b ds
      match dominatorsIn? b state.1 with
      | none => .error b
      | some old =>
        if sameBlocks new old then .ok state
        else .ok (state.1.map (fun e => if e.1 = b then (b, new) else e), true)

/-- Repeats passes over the blocks in the given order until one changes nothing. -/
def dominatorPasses (order : List BlockId) :
    Nat → DominatorTable → Except BlockId DominatorTable
  | 0, table => .ok table
  | fuel + 1, table =>
    match order.foldlM g.dominatorStep (table, false) with
    | .error e => .error e
    | .ok (table, changed) => if changed then dominatorPasses order fuel table else .ok table

/-- The dominators of every registered block.  In a graph with faults a block that is not
registered may turn up, which is the error. -/
def dominators : Except BlockId DominatorTable :=
  let n := g.blocks.size + 1
  g.dominatorPasses g.reversePostorder (n * n + 1) g.startDominators

/-- The registered edges that lead to a dominator of where they start. -/
def backEdges : Except BlockId (List EdgeId) :=
  g.dominators.map (fun table => g.listed.filter (fun i =>
    let e := g.edge i
    e.dst ∈ (dominatorsIn? e.src table).getD []))

end DivisorCheck.FlowGraph
