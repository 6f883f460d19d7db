/-
  `Expr` — the expression tree that hangs from a token.

  The operand links of a program may in principle run in circles; a tree is what
  they look like from one token.  `Program.expr` follows them to a depth that no
  chain of distinct tokens exceeds, so for links that do not run in circles the
  tree holds all of them.  Whatever walks over an expression recurses on this
  type.
-/
import DivisorCheck.Program.Operator
import DivisorCheck.Program.Literal

namespace DivisorCheck

/-- An expression: nothing at all, or a token with two operands that may be absent. -/
inductive Expr where
  | absent
  | node (token : TokenId) (left right : Expr)
deriving DecidableEq, Repr, Inhabited

/-- The expression below a token, to a limited depth. -/
def Program.exprWithin (p : Program) : Nat → Option TokenId → Expr
  | 0, _ => .absent
  | _ + 1, none => .absent
  | depth + 1, some t =>
    .node t (exprWithin p depth (p.token t).left) (exprWithin p depth (p.token t).right)

/-- The expression that hangs from a token, which may be missing. -/
def Program.exprOf (p : Program) (t : Option TokenId) : Expr := p.exprWithin (p.tokens.size + 1) t

/-- The expression that hangs from a token. -/
def Program.expr (p : Program) (t : TokenId) : Expr := p.exprOf (some t)

namespace Expr

/-- Is there no expression? -/
def isAbsent : Expr → Bool
  | absent => true
  | node .. => false

/-- The token at the top. -/
def token? : Expr → Option TokenId
  | absent => none
  | node t _ _ => some t

/-- Is it a single token? -/
def isLeaf : Expr → Bool
  | node _ absent absent => true
  | _ => false

/-- The tokens of an expression, each operator before its operands and those from left to right. -/
def tokens : Expr → List TokenId
  | absent => []
  | node t l r => t :: (l.tokens ++ r.tokens)

/-- The expression and all expressions within it, in the order of `tokens`. -/
def subterms : Expr → List Expr
  | absent => []
  | node t l r => node t l r :: (l.subterms ++ r.subterms)

/-- The expressions that a spine of commas joins, from left to right. -/
def commaParts (p : Program) : Expr → List Expr
  | absent => []
  | node t l r =>
    if p.text t = "," then l.commaParts p ++ r.commaParts p else [node t l r]

/-- The arguments of a call. -/
def arguments (p : Program) : Expr → List Expr
  | absent => []
  | node _ _ args => args.commaParts p

/-- The expression without the conversions around it. -/
def stripCasts (p : Program) : Expr → Expr
  | absent => absent
  | node t l r => if p.isCast t then l.stripCasts p else node t l r

end Expr

end DivisorCheck
