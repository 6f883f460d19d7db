/-
  The text of an expression in a message: operators between or before their
  operands as in the source, conversions left out, and nothing below the thirtieth
  level.
-/
import DivisorCheck.Expr

namespace DivisorCheck.Program

/-- The depth to which messages show an expression. -/
def messageDepth : Nat := 30

/-- The text of the expression that hangs from a token, to a given depth. -/
def exprText (p : Program) : Nat → Option TokenId → String
  | 0, _ => ""
  | _ + 1, none => ""
  | depth + 1, some t =>
    let tok := p.token t
    let s := tok.text
    match tok.left, tok.right with
    | none, none => s
    | l, r =>
      let left := exprText p depth l
      let right := exprText p depth r
      if tok.isCast then left
      else if s = "(" then left ++ "(" ++ right ++ ")"
      else if s = "[" then left ++ "[" ++ right ++ "]"
      else if s = "." ∨ s = "::" then left ++ s ++ right
      else if r.isNone then
        if p.isStep t && p.isPostfix t then left ++ s else s ++ left
      else left ++ " " ++ s ++ " " ++ right

end DivisorCheck.Program
