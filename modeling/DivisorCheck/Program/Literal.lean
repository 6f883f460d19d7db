/-
  Literals and values: which number a token stands for, by its spelling or by
  what the front end has found out about it.
-/
import DivisorCheck.Program
import DivisorCheck.Text.Numeral

namespace DivisorCheck.Program

open DivisorCheck.Text DivisorCheck.Decimal

/-- The letters that may end an integer literal without changing its value. -/
def isSuffixLetter (c : Char) : Bool := c ∈ ['u', 'U', 'l', 'L', 'z', 'Z']

/-- An integer literal without digit separators and suffix, its letters lowered. -/
def bareLiteral (text : String) : List Char :=
  (((text.toList.filter (· ≠ '\'')).reverse.dropWhile isSuffixLetter).reverse).map lowerChar

/-- The value of a bare integer literal: hexadecimal, binary, octal or decimal, by how it starts. -/
def bareLiteralValue? (cs : List Char) : Option Int :=
  match cs with
  | [] => none
  | '0' :: 'x' :: digits => readInt? 16 (String.ofList digits)
  | '0' :: 'b' :: digits => readInt? 2 (String.ofList digits)
  | _ =>
    -- A point or an exponent makes it a floating-point literal.
    if '.' ∈ cs ∨ 'e' ∈ cs then none
    else match cs with
      | '0' :: c :: digits => readInt? 8 (String.ofList (c :: digits))
      | _ => readInt? 10 (String.ofList cs)

variable (p : Program)

/-- The value of an integer literal. -/
def integerLiteral? (t : TokenId) : Option Int :=
  let tok := p.token t
  if tok.isNumber && !tok.isFloat then bareLiteralValue? (bareLiteral tok.text) else none

/-- Is the token a spelling of zero? -/
def isZeroLiteral (t : TokenId) : Bool := p.integerLiteral? t == some 0

/-- The value of a truth literal. -/
def booleanLiteral? (t : TokenId) : Option Bool :=
  match p.text t with
  | "true" => some true
  | "false" => some false
  | _ => none

/-- The tag of a literal. -/
def literalTag? (t : TokenId) : Option Tag :=
  match p.integerLiteral? t with
  | some n => some (.ofInt n)
  | none => (p.booleanLiteral? t).map (fun b => if b then .nonZero else .zero)

/-! ### Values found by the front end -/

/-- A value that has no integer part because it is not finite. -/
structure NotFinite where
deriving DecidableEq, Repr

/-- The text of the error. -/
def NotFinite.message (_ : NotFinite) : String := "cannot convert float infinity to integer"

/-- The integer that a found value stands for; some values stand for none. -/
def flowInteger : Json.Value → Except NotFinite (Option Int)
  | .int n => .ok (some n)
  | .bool b => .ok (some (if b then 1 else 0))
  | .real (.infinite _) => .error {}
  | .real x => .ok x.truncate?
  | .string s => .ok (readDecimal s).toOption
  | .null | .list _ | .object _ => .ok none

/-- The integers known to be values of a token. -/
def knownIntegers (t : TokenId) : Except NotFinite (List Int) :=
  go (p.token t).values
where
  go : List FlowValue → Except NotFinite (List Int)
    | [] => .ok []
    | v :: rest =>
      if v.isKnown then do
        let n ← flowInteger v.value
        let ns ← go rest
        return n.toList ++ ns
      else go rest

/-- The one integer known to be the value of a token. -/
def knownInteger (t : TokenId) : Except NotFinite (Option Int) :=
  (p.knownIntegers t).map (fun ns =>
    match ns with
    | [] => none
    | n :: rest => if rest.all (· == n) then some n else none)

end DivisorCheck.Program
