/-
  What kind of operator a token is: the questions that evaluation and reporting
  ask about a token, answered from its text and its operands.
-/
import DivisorCheck.Program
import DivisorCheck.Text.Blank
import DivisorCheck.Text.FileName

namespace DivisorCheck.Program

open DivisorCheck.Text

/-- Plain and compound assignment. -/
def assignmentOperators : List String :=
  ["=", "+=", "-=", "*=", "/=", "%=", "&=", "|=", "^=", "<<=", ">>="]

/-- Comparisons. -/
def comparisonOperators : List String := ["==", "!=", "<", "<=", ">", ">="]

/-- Division and remainder. -/
def divisionOperators : List String := ["/", "%"]

/-- Division and remainder with assignment. -/
def divisionAssignments : List String := ["/=", "%="]

/-- Calls that look at their operand without evaluating it. -/
def sizeQueries : List String := ["sizeof", "alignof", "_Alignof"]

/-- The extensions of files in which a call may bind references. -/
def referenceExtensions : List String := [".cpp", ".cc", ".cxx", ".c++", ".hpp", ".hh", ".hxx"]

variable (p : Program) (t : TokenId)

/-- Both operands are there. -/
def isBinary : Bool := (p.token t).left.isSome && (p.token t).right.isSome

/-- Only the first operand is there. -/
def isUnary : Bool := (p.token t).left.isSome && (p.token t).right.isNone

/-- A conversion written in the source. -/
def isCast : Bool := (p.token t).isCast

/-- A comparison, by the front end's word or by its spelling. -/
def isComparison : Bool := (p.token t).isComparison || p.text t ∈ comparisonOperators

/-- An assignment, plain or compound, that has a target. -/
def isAssignment : Bool := p.text t ∈ assignmentOperators && (p.token t).left.isSome

/-- A compound assignment. -/
def isCompoundAssignment : Bool := p.text t ∈ assignmentOperators && p.text t != "="

/-- An increment or decrement. -/
def isStep : Bool := p.text t == "++" || p.text t == "--"

/-- Does the operand stand before the operator?  It does if the token just before is the operand
itself or closes a bracket. -/
def isPostfix : Bool :=
  match (p.token t).previous with
  | none => false
  | some q => some q == (p.token t).left || p.text q == ")" || p.text q == "]"

/-- `*e` -/
def isDereference : Bool := p.text t == "*" && p.isUnary t

/-- `&e` -/
def isAddressOf : Bool := p.text t == "&" && p.isUnary t

/-- `a[i]` -/
def isSubscript : Bool := p.text t == "["

/-- `a.m` and `a->m` -/
def isMemberAccess : Bool := p.text t == "." || p.text t == "->"

/-- A call: an opening bracket with a callee, which is not a conversion. -/
def isCall : Bool := p.text t == "(" && (p.token t).left.isSome && !p.isCast t

/-- A call of one of the words in `sizeQueries`. -/
def isSizeQuery : Bool := p.isCall t && p.textOf (p.token t).left ∈ sizeQueries

/-- A division or remainder, with or without assignment, that has a divisor. -/
def isDivision : Bool :=
  if p.text t ∈ divisionOperators then p.isBinary t
  else p.text t ∈ divisionAssignments && (p.token t).right.isSome

/-- Does the token have one of the named types, and no pointer to it? -/
def isIntegral (types : List String) : Bool :=
  match (p.token t).valueType with
  | none => false
  | some type => type.pointer == 0 && type.name ∈ types

/-- Does the token stand in a file in which a call may bind references? -/
def inReferenceSource : Bool :=
  String.ofList ((extension (p.token t).file.toList).map lowerChar) ∈ referenceExtensions

end DivisorCheck.Program
