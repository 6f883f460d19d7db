/-
  Arithmetic on tags: one function per operator of the analysed language, each
  the strongest answer that a four-element domain gives without looking at
  magnitudes and that is sound for integers of any size, save that quotients and
  remainders are never tracked.

      a        b        a + b, a - b   a * b     a / b, a % b
      zero     zero     zero           zero      top
      zero     nonZero  nonZero        zero      top
      nonZero  nonZero  top            nonZero   top
      zero     top      top            zero      top
      nonZero  top      top            top       top
      bottom   any      bottom         bottom    bottom

  Whatever an operator does not model is `unknown`: `top`, unless an operand is
  unreachable.
-/
import DivisorCheck.Tag

namespace DivisorCheck.Tag

/-- Sums, and differences too, which share the table. -/
def add : Tag → Tag → Tag
  | bottom, _ => bottom
  | _, bottom => bottom
  | zero, b => b
  | a, zero => a
  | _, _ => top

/-- Differences. -/
def subtract : Tag → Tag → Tag := add

/-- Products. -/
def multiply : Tag → Tag → Tag
  | bottom, _ => bottom
  | _, bottom => bottom
  | zero, _ => zero
  | _, zero => zero
  | nonZero, nonZero => nonZero
  | _, _ => top

/-- Quotients and remainders: never tracked. -/
def divide : Tag → Tag → Tag
  | bottom, _ => bottom
  | _, bottom => bottom
  | _, _ => top

/-- A number and its negative are zero together. -/
def negate (a : Tag) : Tag := a

/-- Logical negation: the answer is zero exactly when the operand is not. -/
def logicalNot : Tag → Tag
  | zero => nonZero
  | nonZero => zero
  | a => a

/-- Logical conjunction of two evaluated operands. -/
def logicalAnd : Tag → Tag → Tag
  | bottom, _ => bottom
  | _, bottom => bottom
  | zero, _ => zero
  | _, zero => zero
  | nonZero, nonZero => nonZero
  | _, _ => top

/-- Logical disjunction of two evaluated operands. -/
def logicalOr : Tag → Tag → Tag
  | bottom, _ => bottom
  | _, bottom => bottom
  | nonZero, _ => nonZero
  | _, nonZero => nonZero
  | zero, zero => zero
  | _, _ => top

/-- Conversions: zero survives every one of them, while a nonzero value may be cut down to zero. -/
def cast : Tag → Tag
  | zero => zero
  | bottom => bottom
  | _ => top

/-- The result of an operator that is not modelled. -/
def unknown (operands : List Tag) : Tag := if bottom ∈ operands then bottom else top

/-- The table of a binary arithmetic operator, by its spelling. -/
def binary? : String → Option (Tag → Tag → Tag)
  | "+" => some add
  | "-" => some subtract
  | "*" => some multiply
  | "/" | "%" => some divide
  | _ => none

end DivisorCheck.Tag
