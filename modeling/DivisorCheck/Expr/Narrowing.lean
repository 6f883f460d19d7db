/-
  Narrowing: what taking a branch says about the store.

      condition            when it holds       when it does not
      x == 0, 0 == x       x is zero           x is nonZero
      x != 0, 0 != x       x is nonZero        x is zero
      x                    x is nonZero        x is zero
      !c                   c does not hold     c holds
      a && b               a and b hold        nothing
      a || b               nothing             neither holds

  The store given already has every effect of the condition.  What the first
  operand of `a && b` or `a || b` says was true before the second one ran, so it
  is dropped again for the variables that the second may change.  Every other
  condition says nothing.
-/
import DivisorCheck.Expr.Effects

namespace DivisorCheck.Expr

variable (p : Program)

/-- Is it a spelling of zero? -/
def isZeroLiteral : Expr → Bool
  | absent => false
  | node t _ _ => p.isZeroLiteral t

/-- What is compared with zero, if one side of a comparison is a spelling of zero. -/
def comparedWithZero? (l r : Expr) : Option Expr :=
  if (r.stripCasts p).isZeroLiteral p then some (l.stripCasts p)
  else if (l.stripCasts p).isZeroLiteral p then some (r.stripCasts p)
  else none

/-- Asserts that an expression is zero, or that it is not: a fact if it names a tracked variable. -/
def assertZero (e : Expr) (isZero : Bool) (s : Store) : Store :=
  match e.trackedVar? p with
  | some v => s.narrow v (if isZero then .zero else .nonZero)
  | none => s

/-- Takes back, for some variables, what has changed since `before`. -/
def restore (before : Store) (vs : List VarId) (s : Store) : Store :=
  vs.foldl (fun s v => s.set v (before.get v)) s

/-- Narrows a store by the outcome of a condition. -/
def narrowBy (escaped : List VarId) : Expr → Bool → Store → Store
  | absent, _, s => s
  | node t l r, holds, s =>
    let op := p.text t
    if p.isCast t then narrowBy escaped l holds s
    else if (op = "==" ∨ op = "!=") ∧ !l.isAbsent ∧ !r.isAbsent then
      match comparedWithZero? p l r with
      | some subject => subject.assertZero p ((op == "==") == holds) s
      | none => s
    else if op = "!" ∧ !l.isAbsent ∧ r.isAbsent then narrowBy escaped l (!holds) s
    else if (op = "&&" ∧ holds) ∨ (op = "||" ∧ !holds) then
      let narrowed := narrowBy escaped l holds s
      narrowBy escaped r holds (restore s (r.clobbered p escaped) narrowed)
    else if l.isAbsent ∧ r.isAbsent then (node t l r).assertZero p (!holds) s
    else s

/-- Narrows a store by the choice of a `case` label: the subject has its value. -/
def narrowByCase (subject label : Expr) (s : Store) : Store :=
  match (label.stripCasts p).token?.bind p.integerLiteral?, (subject.stripCasts p).trackedVar? p with
  | some n, some v => s.narrow v (.ofInt n)
  | _, _ => s

end DivisorCheck.Expr
