/-
  The top of an expression, and the top-level expressions of a stretch of tokens.
-/
import DivisorCheck.Program.Tracking

namespace DivisorCheck.Program

variable (p : Program)

/-- Climbs from a token to one without parent, or to the first token met twice; `seen` are the
tokens met before. -/
def climb (seen : List TokenId) : Nat → TokenId → TokenId
  | 0, t => t
  | fuel + 1, t =>
    match (p.token t).parent with
    | none => t
    | some q => if t ∈ seen then t else climb (t :: seen) fuel q

/-- The top of the expression that a token belongs to. -/
def exprRoot (t : TokenId) : TokenId := p.climb [] (p.tokens.size + 1) t

/-- The most steps that a climb within a stretch of tokens takes. -/
def climbLimit : Nat := 10000

/-- Climbs from a token for as long as the parent is one of the members, for a limited number of
steps. -/
def climbWithin (members : List TokenId) : Nat → TokenId → TokenId
  | 0, t => t
  | steps + 1, t =>
    match (p.token t).parent with
    | none => t
    | some q => if q ∈ members then climbWithin members steps q else t

/-- The root that one token of a stretch contributes.  A token of a lambda body has none, and one
without operands and parent has one only if it is a bare declaration, namely itself. -/
def rootAt (members : List TokenId) (t : TokenId) : Option TokenId :=
  let tok := p.token t
  if p.scopeKind t = "Lambda" then none
  else if tok.left.isNone ∧ tok.right.isNone ∧ tok.parent.isNone then
    if p.isBareDeclaration t then some t else none
  else some (p.climbWithin members climbLimit t)

/-- The top-level expressions of a stretch of tokens, in the order of their first tokens.  The
parent of such a root is absent or lies outside the stretch. -/
def expressionRoots (ts : List TokenId) : List TokenId := (ts.filterMap (p.rootAt ts)).eraseDups

/-- The last top-level expression of a stretch of tokens, declarations aside: what a branch that
the stretch ends with depends on. -/
def conditionRoot? (ts : List TokenId) : Option TokenId :=
  ((p.expressionRoots ts).filter (fun t => !p.isBareDeclaration t)).getLast?

end DivisorCheck.Program
