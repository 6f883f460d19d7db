/-
  Divisions outside all analysed bodies: in initial values of globals, in lambdas.

  A division token is covered if the analysis of some body has left a tag on it,
  or if it lies in a body that failed, for which nothing is reported.  The
  expression around every other one is evaluated on its own, knowing nothing.
-/
import DivisorCheck.Check.FunctionUnit

namespace DivisorCheck

/-- The tokens that a unit accounts for. -/
def UnitOutcome.covered (p : Program) (u : UnitOutcome) : List TokenId :=
  match u.outcome with
  | .error _ => u.unit.bodyTokens p
  | .ok r => r.annotations.tokens

namespace Program

variable (p : Program)

/-- The division tokens that no unit accounts for. -/
def outsideDivisions (us : List UnitOutcome) : List TokenId :=
  let covered := us.flatMap (·.covered p)
  p.tokenIds.filter (fun t => t ∉ covered && p.isDivision t)

/-- The expressions around those tokens, each once, in the order of their first ones. -/
def outsideRoots (us : List UnitOutcome) : List TokenId :=
  ((p.outsideDivisions us).map p.exprRoot).eraseDups

/-- An expression that was evaluated on its own. -/
structure OutsideExpr where
  root : TokenId
  annotations : Annotations

/-- The expressions around the divisions that no unit accounts for, evaluated. -/
def outsideExprs (settings : Settings) (us : List UnitOutcome) : List OutsideExpr :=
  (p.outsideRoots us).map (fun root =>
    ⟨root, (p.evalStandalone settings.useFlowValues root).annotations⟩)

/-- The tags that all those expressions leave, a later one winning. -/
def outsideTags (es : List OutsideExpr) : Annotations :=
  es.foldl (fun tags e => tags.union e.annotations) {}

/-- What the log tells about the evaluation of an expression on its own. -/
def OutsideExpr.log (e : OutsideExpr) : LogEntry :=
  let tok := p.token e.root
  ⟨.debug, .evaluation, "standalone expression at " ++ tok.file ++ ":" ++ toString tok.line ++ ": "
    ++ toString e.annotations.entries.length ++ " tokens annotated"⟩

end Program

end DivisorCheck
