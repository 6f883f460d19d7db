/-
  How the analysed program runs through a control-flow graph.

  A block runs its top-level expressions in order, and the value of the last one
  says which edges control may take: those that stand for a decision want a value
  that agrees with it, the others are open.  An exception leaves a block along an
  edge of its own kind, with the state as it was when it was raised.

  `FlowGraph.Reaches` is what this comes to for a whole function: the states in
  which control may stand before a block, however long it took to get there.
-/
import DivisorCheck.Analysis
import DivisorCheck.Proofs.Execution.Expr
import DivisorCheck.Proofs.Expr.WellFormed

namespace DivisorCheck

namespace EvalContext

variable (cx : EvalContext)

/-- Runs one top-level expression of a block.  A bare declaration gives its variable any value. -/
def execRoot (root : TokenId) : Run Int :=
  if cx.program.isBareDeclaration root then do
    Run.change (cx.program.trackedVar? root).toList
    Run.any
  else cx.exec (cx.program.expr root) .operator

/-- Runs top-level expressions in order and gives the value of the last one, or the given value if
there is none. -/
def execRoots : List TokenId → Int → Run Int
  | [], n => pure n
  | root :: roots, _ => do
    let n ← cx.execRoot root
    execRoots roots n

/-- Runs a block. -/
def execBlock (ts : List TokenId) : Run Int := do
  let n ← Run.any
  cx.execRoots (cx.program.expressionRoots ts) n

variable {cx}

/-- The value of a sequence is that of its last expression, which has run last. -/
theorem execRoots_value_last {roots : List TokenId} {root : TokenId} {m n : Int} {σ σ' : State}
    (hlast : roots.getLast? = some root) (h : cx.execRoots roots m σ (.value n σ')) :
    ∃ σ₁, cx.execRoot root σ₁ (.value n σ') := by
  induction roots generalizing m σ with
  | nil => cases hlast
  | cons first roots ih =>
    obtain ⟨k, σ₁, hfirst, hrest⟩ := Run.bind_value_iff.1 h
    cases roots with
    | nil =>
      cases hlast
      cases hrest
      exact ⟨σ, hfirst⟩
    | cons second roots =>
      refine ih ?_ hrest
      rwa [List.getLast?_cons_cons] at hlast

/-- A block with a single expression runs like it. -/
theorem execBlock_of_exec {ts : List TokenId} {root : TokenId} {σ : State} {o : Outcome Int}
    (hroots : cx.program.expressionRoots ts = [root])
    (hbare : cx.program.isBareDeclaration root = false)
    (h : cx.exec (cx.program.expr root) .operator σ o) : cx.execBlock ts σ o := by
  refine .value ⟨0, rfl⟩ ?_
  show cx.execRoots (cx.program.expressionRoots ts) 0 σ o
  rw [hroots, execRoots, execRoot, if_neg (by simp [hbare])]
  simp only [execRoots, Run.bind_pure]
  exact h

end EvalContext

/-- May control take the edge when the block that it leaves has ended with the value? -/
def Edge.Admits (p : Program) (e : Edge) (n : Int) : Prop :=
  match e.kind with
  | .branchTrue => n ≠ 0
  | .branchFalse => n = 0
  | .switchCase => ∀ k, e.value.bind p.integerLiteral? = some k → n = k
  | _ => True

/-- The tokens of the expressions that hang from some roots. -/
def Program.treeTokens (p : Program) (roots : List TokenId) : List TokenId :=
  roots.flatMap fun root => (p.expr root).tokens

namespace FlowGraph

/-- Runs a block of the graph. -/
def execBlock (p : Program) (g : FlowGraph) (settings : Settings) (b : BlockId) : Run Int :=
  (g.evalContext p settings).execBlock (g.block b).tokens

/-- The states in which control may stand before a block.  What the entry may find is what the
contract of the function says about its parameters. -/
inductive Reaches (p : Program) (g : FlowGraph) (settings : Settings)
    (params : List VariableId) : BlockId → State → Prop where
  | entry {σ : State} :
    (g.entryStore p settings params).Describes σ → Reaches p g settings params g.entry σ
  | edge {b : BlockId} {σ σ' : State} {n : Int} {e : Edge} :
    Reaches p g settings params b σ → g.execBlock p settings b σ (.value n σ') →
      e ∈ g.succEdges b → e.Admits p n → Reaches p g settings params e.dst σ'
  | exception {b : BlockId} {σ σ' : State} {e : Edge} :
    Reaches p g settings params b σ → g.execBlock p settings b σ (.raised σ') →
      e ∈ g.succEdges b → e.kind = .exception → Reaches p g settings params e.dst σ'

/-! ### Graphs of parsed bodies -/

/-- The tokens of the expressions of a block. -/
def treeTokens (p : Program) (g : FlowGraph) (b : BlockId) : List TokenId :=
  p.treeTokens (p.expressionRoots (g.block b).tokens)

/-- What the graph of a parsed body keeps to: no way leads back to the entry, the expressions of the
blocks are well-formed and share no token, and a block that control leaves by a decision ends with
the condition of it. -/
structure WellFormed (p : Program) (g : FlowGraph) : Prop where
  entry : g.predEdges g.entry = []
  trees : ∀ b ∈ g.nodes, ∀ root ∈ p.expressionRoots (g.block b).tokens,
    (p.expr root).WellFormed p
  apart : (g.nodes.flatMap (g.treeTokens p)).Nodup
  condition : ∀ b ∈ g.nodes, ∀ e ∈ g.succEdges b,
    e.kind = .branchTrue ∨ e.kind = .branchFalse ∨ e.kind = .switchCase →
      p.conditionRoot? (g.block b).tokens = (p.expressionRoots (g.block b).tokens).getLast?
  /-- the labels of a `switch` are not converted -/
  label : ∀ b ∈ g.nodes, ∀ e ∈ g.succEdges b, e.kind = .switchCase →
    ∀ t ∈ e.value, p.isCast t = false
  /-- a block that exceptions may leave holds all that its expressions assign -/
  guarded : ∀ b ∈ g.nodes, ∀ e ∈ g.succEdges b, e.kind = .exception →
    ∀ t ∈ g.treeTokens p b, t ∈ (g.block b).tokens

instance (p : Program) (g : FlowGraph) : Decidable (g.WellFormed p) :=
  decidable_of_iff (g.predEdges g.entry = [] ∧
    (∀ b ∈ g.nodes, ∀ root ∈ p.expressionRoots (g.block b).tokens, (p.expr root).WellFormed p) ∧
    (g.nodes.flatMap (g.treeTokens p)).Nodup ∧
    (∀ b ∈ g.nodes, ∀ e ∈ g.succEdges b,
      e.kind = .branchTrue ∨ e.kind = .branchFalse ∨ e.kind = .switchCase →
        p.conditionRoot? (g.block b).tokens = (p.expressionRoots (g.block b).tokens).getLast?) ∧
    (∀ b ∈ g.nodes, ∀ e ∈ g.succEdges b, e.kind = .switchCase →
      ∀ t ∈ e.value, p.isCast t = false) ∧
    (∀ b ∈ g.nodes, ∀ e ∈ g.succEdges b, e.kind = .exception →
      ∀ t ∈ g.treeTokens p b, t ∈ (g.block b).tokens))
    ⟨fun ⟨h₁, h₂, h₃, h₄, h₅, h₆⟩ => ⟨h₁, h₂, h₃, h₄, h₅, h₆⟩,
      fun ⟨h₁, h₂, h₃, h₄, h₅, h₆⟩ => ⟨h₁, h₂, h₃, h₄, h₅, h₆⟩⟩

end FlowGraph

end DivisorCheck
