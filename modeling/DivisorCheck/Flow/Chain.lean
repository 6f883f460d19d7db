/-
  Pieces of a function body as they stand in the chain of tokens: a statement up
  to its semicolon, what a pair of brackets holds, the parts of a loop header, the
  value of a case label.
-/
import DivisorCheck.Program.Roots

namespace DivisorCheck.Program

variable (p : Program)

/-- The token after a given one. -/
def nextOf (t : TokenId) : Option TokenId := (p.token t).next

/-- The partner of an opening bracket. -/
def partner? (t : TokenId) : Option TokenId :=
  if p.text t ∈ ["(", "[", "\x7b"] then (p.token t).link else none

/-- The tokens of one statement up to and including its semicolon, and what comes after it.  What
stands in brackets is passed over at once, semicolons included, and the statement ends at `limit`
at the latest. -/
def statementTokens (limit : TokenId) : Nat → Option TokenId → List TokenId × Option TokenId
  | 0, tok => ([], tok)
  | _ + 1, none => ([], none)
  | fuel + 1, some t =>
    if t = limit then ([], some t)
    else match p.partner? t with
      | some close =>
        let inner := p.between (p.nextOf t) (some close)
        let (rest, after) := statementTokens limit fuel (p.nextOf close)
        (t :: inner ++ close :: rest, after)
      | none =>
        if p.text t = ";" then ([t], p.nextOf t)
        else
          let (rest, after) := statementTokens limit fuel (p.nextOf t)
          (t :: rest, after)

/-- How much deeper in brackets the text is after a token. -/
def depthChange (t : TokenId) : Int :=
  if p.text t ∈ ["(", "[", "\x7b"] then 1
  else if p.text t ∈ [")", "]", "\x7d"] then -1
  else 0

/-- The parts of a loop header between the semicolons that stand in no brackets; there is always at
least one.  `depth` says how deep in brackets the tokens start. -/
def headerParts (depth : Int) : List TokenId → List TokenId × List (List TokenId)
  | [] => ([], [])
  | t :: rest =>
    let depth := depth + p.depthChange t
    let (part, parts) := headerParts depth rest
    if p.text t = ";" ∧ depth = 0 then ([], part :: parts) else (t :: part, parts)

/-- The tokens of a case label up to the colon that ends it, and where that search stops.  A colon
that belongs to a conditional expression is part of the label; `pending` counts such that have not
come yet. -/
def labelTokens (limit : TokenId) : Nat → Nat → Option TokenId → List TokenId × Option TokenId
  | 0, _, tok => ([], tok)
  | _ + 1, _, none => ([], none)
  | fuel + 1, pending, some t =>
    if t = limit then ([], some t)
    else if p.text t = ":" ∧ pending = 0 then ([], some t)
    else
      let pending :=
        if p.text t = "?" then pending + 1
        else if p.text t = ":" then pending - 1
        else pending
      let (rest, stop) := labelTokens limit fuel pending (p.nextOf t)
      (t :: rest, stop)

/-- The token at the top of the value of a case label.  A literal on its own belongs to no
expression and is its own top. -/
def labelValue? (ts : List TokenId) : Option TokenId :=
  match p.expressionRoots ts, ts with
  | [], [t] => some t
  | roots, _ => roots.getLast?

end DivisorCheck.Program
