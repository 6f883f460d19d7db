/-
  Which variables the analysis keeps facts about, and which tokens read, declare
  or write them.

  Only local scalars and parameters are tracked; what a reference, an array, a
  global or a member holds is never known.  A tracked variable `escapes` when
  something other than its name may write it: its address is taken, a reference
  is bound to it, or the body of a lambda mentions it.
-/
import DivisorCheck.Program.Operator

namespace DivisorCheck.Program

variable (p : Program)

/-- The variable that a token names, if facts are kept about it. -/
def trackedVar? (t : TokenId) : Option VarId :=
  let tok := p.token t
  if tok.varId = 0 then none
  else match p.varOf? t with
    | none => none
    | some v =>
      if v.isReference || v.isArray then none
      else if v.isLocal || v.isArgument then some tok.varId
      else none

/-- The tracked variable of a token that may be missing. -/
def trackedVarOf? (t : Option TokenId) : Option VarId := t.bind p.trackedVar?

/-- Does the token stand for a variable, in its own right, whose name says exactly what a write
changes?  It does unless the variable is a reference. -/
def namesPlainly (t : TokenId) : Bool :=
  let tok := p.token t
  tok.varId != 0 && tok.left.isNone && tok.right.isNone &&
    match p.varOf? t with
    | some v => !v.isReference
    | none => false

/-- The name in a declaration that gives no initial value. -/
def isBareDeclaration (t : TokenId) : Bool :=
  let tok := p.token t
  match p.varOf? t with
  | none => false
  | some v =>
    v.nameToken == some t && tok.parent.isNone
      && (p.textOf tok.next == ";" || p.textOf tok.next == ",")

/-- The token that names the variable on which an lvalue rests: `x` in `x`, `x.m`, `x[i]` and
`(T)x`.  The search goes down at most the given number of levels. -/
def baseWithin : Nat → Option TokenId → Option TokenId
  | 0, _ => none
  | _ + 1, none => none
  | steps + 1, some t =>
    if (p.token t).varId ≠ 0 then some t
    else if p.isMemberAccess t || p.isSubscript t || p.isCast t then
      baseWithin steps (p.token t).left
    else none

/-- The token that names the variable on which an lvalue rests. -/
def baseVariable? (t : Option TokenId) : Option TokenId := p.baseWithin 64 t

/-- The variables that one token lets escape. -/
def escapesAt (t : TokenId) : Option VarId :=
  let tok := p.token t
  if p.isAddressOf t then (p.baseVariable? tok.left).bind p.trackedVar?
  else if tok.text = "=" ∧ tok.left.isSome then
    match tok.left.bind p.varOf? with
    | some v => if v.isReference then (p.baseVariable? tok.right).bind p.trackedVar? else none
    | none => none
  else if p.scopeKind t = "Lambda" then p.trackedVar? t
  else none

/-- The variables that may be written without being named. -/
def escaped (ts : List TokenId) : List VarId := (ts.filterMap p.escapesAt).eraseDups

/-- The variable that one token writes: the target of an assignment, increment or decrement, or
what a declaration without initial value names. -/
def assignsAt (t : TokenId) : Option VarId :=
  if p.isAssignment t || p.isStep t then p.trackedVarOf? (p.token t).left
  else if p.isBareDeclaration t then p.trackedVar? t
  else none

/-- The variables that the tokens write by name. -/
def assigned (ts : List TokenId) : List VarId := (ts.filterMap p.assignsAt).eraseDups

end DivisorCheck.Program
