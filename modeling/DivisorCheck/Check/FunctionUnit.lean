/-
  `FunctionUnit` — a function body as a unit of analysis.

  Bodies are analysed one by one and apart from each other.  A body without usable
  graph, or whose analysis does not settle, fails on its own; only a body whose
  tokens end where a statement is due, or run in a circle, defeats the check of
  the whole program.

  Time is not in the hands of the analysis.  How it passes is given for each unit,
  and a unit that takes longer than the settings allow fails as well.
-/
import DivisorCheck.Analysis
import DivisorCheck.Log

namespace DivisorCheck

/-- Why the check of a whole program was given up. -/
inductive CheckFailure where
  | missingStatement
  | endless
deriving DecidableEq, Repr

/-- The text of the failure. -/
def CheckFailure.message : CheckFailure → String
  | missingStatement => "'NoneType' object has no attribute 'next'"
  | endless => "maximum recursion depth exceeded"

/-- How reports class the failure. -/
def CheckFailure.reason : CheckFailure → String
  | missingStatement => "AttributeError"
  | endless => "RecursionError"

/-- What an error in a body means: the failure of that body, or of the check of the whole program. -/
def BodyError.blame (function : Option String) : BodyError → Except CheckFailure AnalysisError
  | malformed fault place => .ok ⟨function, .badBody fault place⟩
  | missingStatement => .error .missingStatement
  | endless => .error .endless

/-- A function with a body, and the graph of the body unless it has none. -/
structure FunctionUnit where
  function : FunctionId
  scope : ScopeId
  /-- the opening brace of the body -/
  first : TokenId
  /-- its closing brace -/
  last : TokenId
  graph : Except AnalysisError FlowGraph

namespace Program

variable (p : Program)

/-- The unit of a function, if it has a body. -/
def unitOf? (f : FunctionId) : Except CheckFailure (Option FunctionUnit) :=
  match p.functionScope? f with
  | none => .ok none
  | some scope =>
    match (p.scope scope).bodyStart, (p.scope scope).bodyEnd with
    | some first, some last =>
      let name := (p.function f).name
      let unit := fun graph => some { function := f, scope, first, last, graph }
      match FlowGraph.ofBody p name first last with
      | .ok g => .ok (unit (.ok g))
      | .error e => (e.blame name).map (fun fault => unit (.error fault))
    | _, _ => .ok none

/-- The units of the given functions. -/
def unitsOf : List FunctionId → Except CheckFailure (List FunctionUnit)
  | [] => .ok []
  | f :: rest =>
    match p.unitOf? f with
    | .error e => .error e
    | .ok unit =>
      match unitsOf rest with
      | .error e => .error e
      | .ok units => .ok (unit.toList ++ units)

/-- The units of a program, in the order of its functions. -/
def units : Except CheckFailure (List FunctionUnit) := p.unitsOf p.functionIds

/-- The tokens from one to another along the chain, both included. -/
def through (first last : TokenId) : List TokenId := go p.tokens.size (some first)
where
  go : Nat → Option TokenId → List TokenId
    | 0, _ => []
    | _ + 1, none => []
    | fuel + 1, some t => t :: if t = last then [] else go fuel (p.token t).next

end Program

/-- How time passes during the analysis of each function's body. -/
abbrev Timing := FunctionId → Clock

/-- No time passes. -/
def Timing.still : Timing := fun _ => .still

namespace FunctionUnit

variable (p : Program) (u : FunctionUnit)

/-- The name of the function for reports. -/
def name : String := nameOr (p.function u.function).name anonymousName

/-- The tokens of the body, braces included. -/
def bodyTokens : List TokenId := p.through u.first u.last

/-- Analyses the body. -/
def analyze (settings : Settings) (timing : Timing := .still) :
    Except AnalysisError AnalysisResult :=
  match u.graph with
  | .error e => .error e
  | .ok g => g.analyze p settings (p.paramsOf u.function) (timing u.function)

/-- What the log tells about the analysis of the body, given its outcome. -/
def log (outcome : Except AnalysisError AnalysisResult) : List LogEntry :=
  match u.graph with
  | .error _ => []
  | .ok g =>
    let name := u.name p
    let started := match g.check with
      | .error _ => []
      | .ok () => [⟨.debug, .iteration, name ++ ": " ++ toString g.nodes.length ++ " blocks, "
          ++ toString g.listed.length ++ " edges, " ++ toString (g.escaped p).length
          ++ " escaped variables"⟩]
    let ended := match outcome with
      | .error e => ⟨.info, .checking, name ++ ": analysis failed: " ++ e.message⟩
      | .ok r => ⟨.debug, .iteration, name ++ ": fixpoint after " ++ toString r.progress.iterations
          ++ " iterations, " ++ toString r.progress.updates ++ " store updates"⟩
    started ++ [ended]

end FunctionUnit

/-- A unit with the outcome of its analysis. -/
structure UnitOutcome where
  unit : FunctionUnit
  outcome : Except AnalysisError AnalysisResult

namespace UnitOutcome

/-- Why the unit was not analysed, if it was not. -/
def error? (u : UnitOutcome) : Option AnalysisError :=
  match u.outcome with
  | .error e => some e
  | .ok _ => none

/-- Was the unit not analysed? -/
def failed (u : UnitOutcome) : Bool := u.error?.isSome

/-- What the analysis of the unit found, if it was analysed. -/
def result? (u : UnitOutcome) : Option AnalysisResult :=
  match u.outcome with
  | .error _ => none
  | .ok r => some r

end UnitOutcome

/-- Analyses units. -/
def Program.analyzeUnits (p : Program) (settings : Settings) (us : List FunctionUnit)
    (timing : Timing := .still) : List UnitOutcome :=
  us.map (fun u => ⟨u, u.analyze p settings timing⟩)

end DivisorCheck
