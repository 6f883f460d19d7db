/-
  `Json.Value` — a value of JSON, of which settings, programs and evidence consist:
  the six kinds, with whole numbers of any size apart from fractions.

  The fields of an object are in the order of their first mention, and no name
  occurs twice in what the reader returns (`setField`).

  A value has two texts.  `inspect` is how a message shows it, strings in quotes;
  `text` differs from it only for a string on its own, which is written bare.
-/
import DivisorCheck.Decimal.Shortest
import DivisorCheck.Text.Quoted

namespace DivisorCheck.Json

open DivisorCheck.Text DivisorCheck.Decimal

/-- A value of JSON. -/
inductive Value where
  | null
  | bool (b : Bool)
  | int (n : Int)
  | real (x : Binary64)
  | string (s : String)
  | list (items : List Value)
  | object (fields : List (String × Value))
deriving Repr, Inhabited

namespace Value

/-- The name of the kind of a value, for messages. -/
def kindName : Value → String
  | null => "NoneType"
  | bool _ => "bool"
  | int _ => "int"
  | real _ => "float"
  | string _ => "str"
  | list _ => "list"
  | object _ => "dict"

/-- The text of a truth value. -/
def boolText (b : Bool) : String := if b then "True" else "False"

mutual
/-- The text of a value inside a message. -/
def inspect : Value → String
  | null => "None"
  | bool b => boolText b
  | int n => toString n
  | real x => x.text
  | string s => quoted s
  | list items => "[" ++ ", ".intercalate (inspectItems items) ++ "]"
  | object fields => "\x7b" ++ ", ".intercalate (inspectFields fields) ++ "\x7d"

/-- The texts of the items of a list. -/
def inspectItems : List Value → List String
  | [] => []
  | v :: rest => inspect v :: inspectItems rest

/-- The texts of the fields of an object. -/
def inspectFields : List (String × Value) → List String
  | [] => []
  | (k, v) :: rest => (quoted k ++ ": " ++ inspect v) :: inspectFields rest
end

/-- The text of a value on its own. -/
def text : Value → String
  | string s => s
  | v => v.inspect

end Value

/-- Gives a field of an object a value, in its place if it has one and at the end otherwise. -/
def setField {α : Type} (name : String) (value : α) : List (String × α) → List (String × α)
  | [] => [(name, value)]
  | (k, v) :: rest => if k = name then (k, value) :: rest else (k, v) :: setField name value rest

/-- The value of a field. -/
def field? {α : Type} (name : String) : List (String × α) → Option α
  | [] => none
  | (k, v) :: rest => if k = name then some v else field? name rest

namespace Value

/-- The value of a field; `null` if there is none, or if the value is no object. -/
def get (v : Value) (name : String) : Value :=
  match v with
  | object fields => (field? name fields).getD null
  | _ => null

/-- The integer that a value is. -/
def int? : Value → Option Int
  | int n => some n
  | _ => none

/-- The natural number that a value is. -/
def nat? : Value → Option Nat
  | int n => if 0 ≤ n then some n.toNat else none
  | _ => none

/-- The string that a value is. -/
def string? : Value → Option String
  | string s => some s
  | _ => none

/-- The items of a list; none of anything else. -/
def items : Value → List Value
  | list vs => vs
  | _ => []

/-- The fields of an object; none of anything else. -/
def fields : Value → List (String × Value)
  | object fs => fs
  | _ => []

end Value

end DivisorCheck.Json
