/-
  Reading programs from JSON.

  A program is an object with the default file name of its tokens (`file`), its
  tokens (`toks`), variables (`vars`), functions (`funcs`), scopes (`scopes`) and
  suppression comments (`supps`); whatever is missing is empty.  Tokens refer to
  each other, and to the other things, by position.  Three links of a token need
  not be written: `next` and `previous` lead to its neighbours, and its parent is
  the token that has it for an operand, the last one if there are several.

  A dump file holds the programs of all configurations under the key `progs`.
-/
import DivisorCheck.Json.Reader
import DivisorCheck.Program

namespace DivisorCheck

open DivisorCheck.Json

/-- Has a value of flag letters the letter? -/
def hasFlag (v : Value) (letter : Char) : Bool :=
  match v.get "is" with
  | .string s => s.toList.contains letter
  | _ => false

/-- Reads a type: its name, or its name and how many times it points. -/
def ValueType.ofValue? : Value → Option ValueType
  | .string name => some { name }
  | .list (.string name :: rest) =>
    some { name, pointer := (rest.head?.bind Value.int?).getD 0 }
  | _ => none

/-- Reads a found value: the value and whether it is `known` or only possible. -/
def FlowValue.ofValue (v : Value) : FlowValue :=
  match v with
  | .list (value :: .string kind :: _) => { value, isKnown := kind == "known" }
  | .list (value :: _) => { value, isKnown := false }
  | _ => { value := .null, isKnown := false }

/-- Reads a variable. -/
def Variable.ofValue (v : Value) : Variable where
  id := (v.get "id").int?.getD 0
  nameToken := (v.get "name").nat?
  isLocal := hasFlag v 'l'
  isArgument := hasFlag v 'a'
  isReference := hasFlag v 'r'
  isArray := hasFlag v 'y'

/-- Reads a function. -/
def Function.ofValue (v : Value) : Function :=
  let f : Function := {
    name := (v.get "name").string?
    definition := (v.get "def").nat?
    id := (v.get "id").string? }
  (v.get "args").items.foldl (fun f arg =>
    match arg with
    | .list [.int position, .int index] => f.setParam position index.toNat
    | _ => f) f

/-- Reads a scope. -/
def Scope.ofValue (v : Value) : Scope where
  kind := (v.get "type").string?.getD ""
  className := (v.get "className").string?
  function := (v.get "fn").nat?
  bodyStart := (v.get "start").nat?
  bodyEnd := (v.get "end").nat?
  functionId := (v.get "functionId").string?

/-- Reads a suppression comment. -/
def SuppressionComment.ofValue (v : Value) : SuppressionComment where
  errorId := (v.get "id").string?
  file := (v.get "file").string?
  line := match v.get "line" with
    | .int n => some (.number n)
    | .bool b => some (.number (if b then 1 else 0))
    | .real x => some (.number (x.truncate?.getD 0))
    | .string s => some (.text s)
    | _ => none

/-- A link that may be written, may be written as missing, or may be left to `derived`. -/
def linkOf (v : Value) (key : String) (derived : Option TokenId) : Option TokenId :=
  match field? key v.fields with
  | some written => written.nat?
  | none => derived

/-- Reads the token at position `i` of `count`. -/
def Token.ofValue (file : String) (vars : Array Variable) (count i : Nat) (v : Value) : Token :=
  let var := (v.get "v").nat?
  { text := (v.get "s").string?.getD ""
    file := match field? "f" v.fields with
      | some f => f.string?.getD ""
      | none => file
    line := (v.get "l").int?.getD 0
    column := (v.get "c").int?.getD 0
    next := linkOf v "n" (if i + 1 < count then some (i + 1) else none)
    previous := linkOf v "r" (if i = 0 then none else some (i - 1))
    link := (v.get "k").nat?
    left := (v.get "a").nat?
    right := (v.get "b").nat?
    parent := none
    isName := hasFlag v 'n'
    isNumber := hasFlag v 'd'
    isFloat := hasFlag v 'f'
    isCast := hasFlag v 'c'
    isComparison := hasFlag v 'm'
    varId := match field? "i" v.fields with
      | some id => id.int?.getD 0
      | none => match var with
        | some x => (vars.getD x {}).id
        | none => 0
    var
    function := (v.get "fn").nat?
    valueType := ValueType.ofValue? (v.get "t")
    values := (v.get "vf").items.map FlowValue.ofValue
    scope := (v.get "sc").nat? }

/-- Makes a token the parent of one that may be missing. -/
def setParent (tokens : Array Token) (child : Option TokenId) (parent : Option TokenId) :
    Array Token :=
  match child with
  | some c => tokens.modify c (fun t => { t with parent })
  | none => tokens

/-- Reads a program. -/
def Program.ofValue (v : Value) : Program :=
  let file := (v.get "file").string?.getD "test.c"
  let vars := ((v.get "vars").items.map Variable.ofValue).toArray
  let raw := (v.get "toks").items.toArray
  let tokens := raw.mapIdx (Token.ofValue file vars raw.size)
  let derived := (List.range tokens.size).foldl (fun ts i =>
    let t := tokens.getD i {}
    setParent (setParent ts t.left (some i)) t.right (some i)) tokens
  let written := (List.range raw.size).foldl (fun ts i =>
    match field? "p" (raw.getD i .null).fields with
    | some parent => setParent ts (some i) parent.nat?
    | none => ts) derived
  { tokens := written
    vars
    functions := ((v.get "funcs").items.map Function.ofValue).toArray
    scopes := ((v.get "scopes").items.map Scope.ofValue).toArray
    suppressions := (v.get "supps").items.map SuppressionComment.ofValue }

/-- Reads the programs of a dump. -/
def Program.listOfValue (v : Value) : List Program := (v.get "progs").items.map Program.ofValue

/-- Reads the text of a dump file. -/
def Program.listOfText (text : String) : Except String (List Program) :=
  match Json.read text.toList with
  | .ok v => .ok (listOfValue v)
  | .error e => .error (e.fault.message ++ ": line " ++ toString (e.line text.toList))

end DivisorCheck
