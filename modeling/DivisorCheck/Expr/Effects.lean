/-
  Which variables evaluating an expression may change: those it assigns by name,
  those that a call may change through a reference parameter, and, where a call
  or a write through something other than a plain name occurs, all that escape.
-/
import DivisorCheck.Expr
import DivisorCheck.Program.Tracking

namespace DivisorCheck.Expr

variable (p : Program)

/-- The variable that an expression names, if it is tracked. -/
def trackedVar? (e : Expr) : Option VarId := p.trackedVarOf? e.token?

/-- The variable that one argument of a call lends to a reference parameter.  If the parameter is
known, it must be a reference; if the function is not, the source must be one in which it could
be. -/
def lentVar? (call : TokenId) (function : Option FunctionId) (position : Int) (arg : Expr) :
    Option VarId :=
  match arg.trackedVar? p with
  | none => none
  | some v =>
    match function.bind (fun f => (p.function f).param? position) with
    | some param => if (p.varAt param).isReference then some v else none
    | none => if function.isNone && p.inReferenceSource call then some v else none

/-- The variables that a call may change through a reference parameter. -/
def lentVars : Expr → List VarId
  | absent => []
  | node t callee args =>
    let function := callee.token?.bind (fun c => (p.token c).function)
    let numbered := (args.commaParts p).zipIdx
    (numbered.filterMap (fun (arg, i) => lentVar? p t function (i + 1) arg)).eraseDups

/-- Is the top of the expression a write whose target is not a plainly named variable? -/
def writesIndirectly : Expr → Bool
  | absent => false
  | node t l _ =>
    (p.isAssignment t || p.isStep t) &&
      match l.stripCasts p with
      | absent => true
      | node target _ _ => (p.trackedVar? target).isNone && !p.namesPlainly target

/-- The variables that the operator at the top may change without naming them. -/
def spoiledAt (escaped : List VarId) : Expr → List VarId
  | absent => []
  | node t l r =>
    if p.isCall t && !p.isSizeQuery t then escaped ++ (node t l r).lentVars p
    else if (node t l r).writesIndirectly p then escaped
    else []

/-- The variables that evaluating the expression may change. -/
def clobbered (escaped : List VarId) (e : Expr) : List VarId :=
  (p.assigned e.tokens ++ e.subterms.flatMap (spoiledAt p escaped)).eraseDups

end DivisorCheck.Expr
