/-
  `FlowGraph.analyze` — which divisors of a function may be zero.

  The worklist iteration finds the store before and after every block: a block
  evaluates its top-level expressions, and an edge narrows by the decision that
  it stands for.  Then every block is evaluated once more on the store that was
  found before it, and this time the tags of tokens are kept, in one table for
  the whole function.
-/
import DivisorCheck.Analysis.Error
import DivisorCheck.Analysis.Fixpoint
import DivisorCheck.Expr.Evaluation

namespace DivisorCheck

/-- What the analysis of a function has found. -/
structure AnalysisResult where
  annotations : Annotations
  /-- the division tokens, in the order of their first evaluation -/
  sites : List TokenId
  /-- the stores before and after the blocks -/
  progress : Progress

/-- The tag of a token; `top` if it was never evaluated. -/
def AnalysisResult.tagOf (r : AnalysisResult) (t : TokenId) : Tag :=
  (r.annotations.get? t).getD .top

/-- How many seconds have passed when the clock is looked at after a number of iterations. -/
abbrev Clock := Nat → Nat

/-- The clock that stands still. -/
def Clock.still : Clock := fun _ => 0

namespace FlowGraph

variable (p : Program) (g : FlowGraph) (settings : Settings)

/-- The variables of the function that may be written without being named. -/
def escaped : List VarId := p.escaped g.tokens

/-- How the blocks of the function are evaluated. -/
def evalContext : EvalContext where
  program := p
  escaped := g.escaped p
  useFlowValues := settings.useFlowValues

/-- What a contract says about one parameter, put into the store at entry.  References and arrays
are not tracked, and a parameter that cannot be makes the body unreachable. -/
def assume (contract : List (String × Tag)) (s : Store) (v : VariableId) : Store :=
  let param := p.varAt v
  if param.isReference || param.isArray then s
  else
    let varId := match param.nameToken with
      | some t => (p.token t).varId
      | none => 0
    match Json.field? (p.textOf param.nameToken) contract with
    | none => s
    | some tag =>
      if varId = 0 then s
      else if tag = .bottom then .unreachable
      else s.set varId tag

/-- The store at entry: parameters are unknown, save as their contract says. -/
def entryStore (params : List VariableId) : Store :=
  let contract := settings.contract (nameOr g.name anonymousName)
  if contract.isEmpty then .top else params.foldl (assume p contract) .top

/-- The store after a block, given the store before it. -/
def transfer (b : BlockId) (s : Store) : Store :=
  let ts := (g.block b).tokens
  if s.isUnreachable || ts.isEmpty then s
  else ((g.evalContext p settings).evalBlock ts { store := s }).store

/-- What arrives along an edge, given the store after its source.  An exception may have been thrown
before any of the writes of the block. -/
def along (e : Edge) (s : Store) : Store :=
  let ts := (g.block e.src).tokens
  match e.kind with
  | .branchTrue => (p.exprOf (p.conditionRoot? ts)).narrowBy p (g.escaped p) true s
  | .branchFalse => (p.exprOf (p.conditionRoot? ts)).narrowBy p (g.escaped p) false s
  | .switchCase => (p.exprOf (p.conditionRoot? ts)).narrowByCase p (p.exprOf e.value) s
  | .exception => s.havoc (p.assigned ts)
  | _ => s

/-- The iteration for the function. -/
def problem (params : List VariableId) : FlowProblem where
  graph := g
  entryStore := g.entryStore p settings params
  transfer := g.transfer p settings
  along := g.along p

/-- Evaluates every block on the store before it, keeping the tags. -/
def annotateAll (order : List BlockId) (progress : Progress) : EvalState :=
  order.foldl (fun st b =>
    (g.evalContext p settings).evalBlock (g.block b).tokens
      { st with store := progress.storeBefore b }) {}

/-- Analyses a function. -/
def analyze (params : List VariableId) (clock : Clock := .still) :
    Except AnalysisError AnalysisResult :=
  match g.check with
  | .error fault => .error ⟨g.name, .badGraph fault⟩
  | .ok () =>
    let order := g.reversePostorder
    let fp := g.problem p settings params
    let isLate := fun n => settings.timeout.any (·.exceededBy (clock n))
    match fp.run isLate settings.maxIterations.toNat (.start order) with
    | .error (.outOfIterations n) => .error ⟨g.name, .tooManyIterations n⟩
    | .error (.outOfTime n) =>
      .error ⟨g.name, .tooSlow (settings.timeout.getD (.whole 0)) n⟩
    | .ok progress =>
      let st := g.annotateAll p settings order progress
      .ok { annotations := st.annotations, sites := st.sites.toList.eraseDups, progress }

end FlowGraph

/-- The parameters of a function. -/
def Program.paramsOf (p : Program) (f : FunctionId) : List VariableId :=
  (p.function f).params.map (·.2)

end DivisorCheck
