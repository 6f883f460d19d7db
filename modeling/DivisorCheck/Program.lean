/-
  `Program` — one configuration of a source file, as a front end hands it over:
  a chain of tokens with the expression trees drawn over it, and the variables,
  functions, scopes and suppression comments that the tokens speak of.

  Tokens refer to each other by position.  Three kinds of links run between them:
  `next` and `previous` along the text, `link` from a bracket to its partner, and
  `left`, `right` and `parent` within an expression.  Nothing is promised about
  the links; a reference that leads nowhere finds a blank token.
-/
import DivisorCheck.Store
import DivisorCheck.Json.Value

namespace DivisorCheck

/-- The position of a token in its program. -/
abbrev TokenId := Nat

/-- The position of a variable in its program. -/
abbrev VariableId := Nat

/-- The position of a function in its program. -/
abbrev FunctionId := Nat

/-- The position of a scope in its program. -/
abbrev ScopeId := Nat

/-- A declared variable. -/
structure Variable where
  /-- the number by which tokens refer to the variable; zero for none -/
  id : VarId := 0
  /-- the token that names the variable in its declaration -/
  nameToken : Option TokenId := none
  isLocal : Bool := false
  isArgument : Bool := false
  isReference : Bool := false
  isArray : Bool := false
deriving Inhabited

/-- The type that the front end gives to an expression. -/
structure ValueType where
  name : String
  /-- how many times it points -/
  pointer : Int := 0
deriving Inhabited, DecidableEq

/-- A value that the front end has found for an expression. -/
structure FlowValue where
  value : Json.Value
  /-- does it hold on every path? -/
  isKnown : Bool
deriving Inhabited

/-- A token with its links. -/
structure Token where
  text : String := ""
  file : String := ""
  line : Int := 0
  column : Int := 0
  next : Option TokenId := none
  previous : Option TokenId := none
  link : Option TokenId := none
  left : Option TokenId := none
  right : Option TokenId := none
  parent : Option TokenId := none
  isName : Bool := false
  isNumber : Bool := false
  isFloat : Bool := false
  isCast : Bool := false
  isComparison : Bool := false
  varId : VarId := 0
  var : Option VariableId := none
  /-- the function that a callee names -/
  function : Option FunctionId := none
  valueType : Option ValueType := none
  values : List FlowValue := []
  scope : Option ScopeId := none
deriving Inhabited

/-- A declared function. -/
structure Function where
  name : Option String := none
  /-- the token that names the function in its declaration -/
  definition : Option TokenId := none
  id : Option String := none
  /-- the parameters by position, the first being number one -/
  params : List (Int × VariableId) := []
deriving Inhabited

/-- A scope of the source. -/
structure Scope where
  kind : String := ""
  className : Option String := none
  function : Option FunctionId := none
  bodyStart : Option TokenId := none
  bodyEnd : Option TokenId := none
  functionId : Option String := none
deriving Inhabited

/-- The line number of a suppression comment, which may come as text. -/
inductive LineRef where
  | number (n : Int)
  | text (s : String)
deriving Inhabited

/-- A suppression comment. -/
structure SuppressionComment where
  errorId : Option String := none
  file : Option String := none
  line : Option LineRef := none
deriving Inhabited

/-- One configuration of a source file. -/
structure Program where
  tokens : Array Token := #[]
  vars : Array Variable := #[]
  functions : Array Function := #[]
  scopes : Array Scope := #[]
  suppressions : List SuppressionComment := []
deriving Inhabited

/-- Sets the parameter at a position, keeping the place of one that is there already. -/
def Function.setParam (f : Function) (position : Int) (v : VariableId) : Function :=
  if f.params.any (·.1 == position) then
    { f with params := f.params.map (fun p => if p.1 = position then (position, v) else p) }
  else { f with params := f.params ++ [(position, v)] }

/-- The parameter at a position. -/
def Function.param? (f : Function) (position : Int) : Option VariableId :=
  (f.params.find? (·.1 == position)).map (·.2)

/-- The name of a function for messages, with what to call one that has none. -/
def nameOr (name : Option String) (fallback : String) : String :=
  match name with
  | some s => if s.isEmpty then fallback else s
  | none => fallback

namespace Program

/-- The token at a position. -/
def token (p : Program) (t : TokenId) : Token := p.tokens.getD t {}

/-- The text of the token at a position. -/
def text (p : Program) (t : TokenId) : String := (p.token t).text

/-- The text of a token that may be missing; a missing one has none. -/
def textOf (p : Program) (t : Option TokenId) : String :=
  match t with
  | some t => p.text t
  | none => ""

/-- The variable at a position. -/
def varAt (p : Program) (v : VariableId) : Variable := p.vars.getD v {}

/-- The variable that a token names. -/
def varOf? (p : Program) (t : TokenId) : Option Variable := (p.token t).var.map p.varAt

/-- The function at a position. -/
def function (p : Program) (f : FunctionId) : Function := p.functions.getD f {}

/-- The scope at a position. -/
def scope (p : Program) (s : ScopeId) : Scope := p.scopes.getD s {}

/-- The kind of the scope that a token stands in. -/
def scopeKind (p : Program) (t : TokenId) : String :=
  match (p.token t).scope with
  | some s => (p.scope s).kind
  | none => ""

/-- All tokens, in order. -/
def tokenIds (p : Program) : List TokenId := List.range p.tokens.size

/-- All functions, in order. -/
def functionIds (p : Program) : List FunctionId := List.range p.functions.size

/-- The tokens from `start` on, along the chain, up to but not including `stop`.  A chain that
loops is followed for as many tokens as the program has. -/
def between (p : Program) (start : Option TokenId) (stop : Option TokenId) : List TokenId :=
  go p.tokens.size start
where
  go : Nat → Option TokenId → List TokenId
    | 0, _ => []
    | _ + 1, none => []
    | fuel + 1, some t => if some t = stop then [] else t :: go fuel (p.token t).next

end Program

end DivisorCheck
