/-
  Reading settings from JSON and writing them back.

  A settings object holds any of six keys, and no other.  Numbers may be given as
  text.  What is read passes `Settings.validate`.
-/
import DivisorCheck.Json.Reader
import DivisorCheck.Settings

namespace DivisorCheck.Settings

open DivisorCheck.Decimal DivisorCheck.Text DivisorCheck.Json

/-- The keys of a settings object. -/
def knownKeys : List String :=
  ["max_iterations", "timeout_seconds", "integral_types", "use_valueflow", "parameter_contracts",
    "jobs"]

/-! ### Reading -/

/-- Reads an integer; a fraction loses its fractional part. -/
def integerOf : Value → Except SettingsError Int
  | .int n => .ok n
  | .bool b => .ok (if b then 1 else 0)
  | .real .nan => .error .integerFromNaN
  | .real x =>
    match x.truncate? with
    | some n => .ok n
    | none => .error .integerFromInfinity
  | .string s =>
    match readDecimal s with
    | .ok n => .ok n
    | .error e => .error (.badNumeral e)
  | v => .error (.notInteger v.kindName)

/-- Reads a number of seconds, which becomes a fraction. -/
def secondsOf : Value → Except SettingsError Seconds
  | .int n =>
    match Binary64.ofInt? n with
    | some x => .ok (.fraction x)
    | none => .error .secondsTooLarge
  | .bool b => .ok (.fraction (.ofRatio false (if b then 1 else 0) 1))
  | .real x => .ok (.fraction x)
  | .string s =>
    match readFraction s with
    | .ok x => .ok (.fraction x)
    | .error e => .error (.badNumeral e)
  | v => .error (.notNumber v.kindName)

/-- Reads a time limit; `null` is none. -/
def timeoutOf : Value → Except SettingsError (Option Seconds)
  | .null => .ok none
  | v => (secondsOf v).map some

/-- Reads whether known values are used. -/
def flowValuesOf : Value → Except SettingsError Bool
  | .bool b => .ok b
  | _ => .error .flowValuesNotBool

/-- The names in a list, if all items are names. -/
def namesOf? : List Value → Option (List String)
  | [] => some []
  | .string s :: rest => (namesOf? rest).map (s :: ·)
  | _ :: _ => none

/-- Reads type names, from a list or from the keys of an object. -/
def typesOf : Value → Except SettingsError (List String)
  | .list items =>
    match namesOf? items with
    | some names => .ok names
    | none => .error .typesNotNames
  | .object fields => .ok (fields.map (·.1))
  | .string _ => .error .typesNotNames
  | v => .error (.typesNotListed v.kindName)

/-- Reads the contract of one function. -/
def contractOf (function : String) :
    List (String × Value) → Except SettingsError (List (String × Tag))
  | [] => .ok []
  | (param, v) :: rest => do
    match Tag.ofValue v with
    | .error e => .error (.badTag function param e)
    | .ok tag => return (param, tag) :: (← contractOf function rest)

/-- Reads the contracts of functions. -/
def contractsOfFields : List (String × Value) → Except SettingsError Contracts
  | [] => .ok []
  | (function, .object params) :: rest => do
    let contract ← contractOf function params
    return (function, contract) :: (← contractsOfFields rest)
  | (function, _) :: _ => .error (.contractNotObject function)

/-- Reads the contracts of all functions. -/
def contractsOf : Value → Except SettingsError Contracts
  | .object fields => contractsOfFields fields
  | _ => .error .contractsNotObject

/-- Reads one key, which may be absent. -/
def readKey {α : Type} (fields : List (String × Value)) (key : String) (default : α)
    (read : Value → Except SettingsError α) : Except SettingsError α :=
  match field? key fields with
  | none => .ok default
  | some v => read v

/-- Keys in increasing order. -/
def sortKeys (keys : List String) : List String := keys.mergeSort (fun a b => !(b < a))

/-- Reads the fields of a settings object, all keys being known. -/
def ofFields (fields : List (String × Value)) : Except SettingsError Settings := do
  let maxIterations ← readKey fields "max_iterations" ({} : Settings).maxIterations integerOf
  let timeout ← readKey fields "timeout_seconds" ({} : Settings).timeout timeoutOf
  let jobs ← readKey fields "jobs" ({} : Settings).jobs integerOf
  let useFlowValues ← readKey fields "use_valueflow" ({} : Settings).useFlowValues flowValuesOf
  let integralTypes ← readKey fields "integral_types" ({} : Settings).integralTypes typesOf
  let contracts ← readKey fields "parameter_contracts" ({} : Settings).contracts contractsOf
  return { maxIterations, timeout, integralTypes, useFlowValues, contracts, jobs }

/-- Reads settings. -/
def ofValue (v : Value) : Except SettingsError Settings :=
  match v with
  | .object fields => do
    let unknown := (fields.map (·.1)).filter (· ∉ knownKeys)
    if unknown ≠ [] then .error (.unknownKeys (sortKeys unknown))
    else
      let settings ← ofFields fields
      let _ ← settings.validate
      return settings
  | v => .error (.notObject v.kindName)

/-- Reads line ends of all systems as line feeds. -/
def normalizeLines : List Char → List Char
  | [] => []
  | '\r' :: '\n' :: rest => '\n' :: normalizeLines rest
  | '\r' :: rest => '\n' :: normalizeLines rest
  | c :: rest => c :: normalizeLines rest

/-- Reads settings from the text of a file. -/
def ofText (path text : String) : Except SettingsError Settings :=
  let text := normalizeLines text.toList
  match Json.read text with
  | .error ⟨.longInteger count, _⟩ => .error (.numeralTooLong (.tooManyDigits count))
  | .error e => .error (.notJson path (e.line text) e.fault.message)
  | .ok v => ofValue v

/-! ### Writing -/

/-- A number of seconds as a value. -/
def secondsValue : Option Seconds → Value
  | none => .null
  | some (.whole n) => .int n
  | some (.fraction x) => .real x

/-- The settings object that reads back as the settings. -/
def toValue (s : Settings) : Value :=
  .object [
    ("max_iterations", .int s.maxIterations),
    ("timeout_seconds", secondsValue s.timeout),
    ("integral_types", .list (s.integralTypes.map .string)),
    ("use_valueflow", .bool s.useFlowValues),
    ("parameter_contracts", .object (s.contracts.map (fun (f, params) =>
      (f, .object (params.map (fun (param, tag) => (param, .string tag.name))))))),
    ("jobs", .int s.jobs)]

end DivisorCheck.Settings
