/-
  `Operation` — what the operator at the top of an expression does with its
  operands.

  Some tokens are told apart by their spelling, others by a mark of the front end
  or by which operands they have, so the questions overlap; `Program.operation`
  asks them in the order that decides.
-/
import DivisorCheck.Expr

namespace DivisorCheck

/-- What the top of an expression does with its operands. -/
inductive Operation where
  /-- a single token -/
  | leaf
  | cast
  | assignment
  | increment
  | sizeQuery
  | call
  /-- `c ? a : b`, the colon being at the top of the second operand -/
  | choice
  | shortCircuit
  | unary
  | comma
  | member
  /-- any other operator, which takes both operands from left to right -/
  | binary
deriving DecidableEq, Repr

/-- The operation of a token with the given operands. -/
def Program.operation (p : Program) (t : TokenId) (l r : Expr) : Operation :=
  let op := p.text t
  if l.isAbsent ∧ r.isAbsent then .leaf
  else if p.isCast t then .cast
  else if p.isAssignment t then .assignment
  else if p.isStep t then .increment
  else if p.isSizeQuery t then .sizeQuery
  else if p.isCall t then .call
  else if op = "?" then .choice
  else if op = "&&" ∨ op = "||" then .shortCircuit
  else if r.isAbsent then .unary
  else if op = "," then .comma
  else if p.isMemberAccess t then .member
  else .binary

end DivisorCheck
