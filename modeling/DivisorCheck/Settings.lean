/-
  `Settings` — what the caller may choose about an analysis: how long it may
  take, which types count as integers, whether known values are used, what may be
  assumed about parameters, and how many functions to analyse at a time.
-/
import DivisorCheck.Tag.Reader
import DivisorCheck.Text.Numeral

namespace DivisorCheck

open DivisorCheck.Decimal DivisorCheck.Text

/-- A time limit, as a whole number or a fraction of seconds. -/
inductive Seconds where
  | whole (n : Int)
  | fraction (x : Binary64)
deriving DecidableEq, Repr

namespace Seconds

/-- The text of a time limit. -/
def text : Seconds → String
  | whole n => toString n
  | fraction x => x.text

/-- Is the limit zero or less? -/
def nonPositive : Seconds → Bool
  | whole n => n ≤ 0
  | fraction x => x.nonPositive

/-- Have more seconds passed than the limit allows? -/
def exceededBy : Seconds → Nat → Bool
  | whole n, elapsed => n < elapsed
  | fraction x, elapsed => x.exceededBy elapsed

end Seconds

/-- Assumptions about parameters by function and parameter name, in the order given. -/
abbrev Contracts := List (String × List (String × Tag))

/-- What the caller may choose about an analysis. -/
structure Settings where
  /-- the most blocks that are taken from the queue for one function -/
  maxIterations : Int := 100000
  /-- the most time that one function may take -/
  timeout : Option Seconds := none
  /-- the names of the types that count as integers -/
  integralTypes : List String := ["int", "long", "long long"]
  /-- whether known values stand in for tags that are `top` -/
  useFlowValues : Bool := false
  /-- what is assumed about parameters at entry -/
  contracts : Contracts := []
  /-- how many functions are analysed at a time -/
  jobs : Int := 1
deriving DecidableEq, Repr, Inhabited

/-- The names of integral types that a front end may give. -/
def knownIntegralTypes : List String :=
  ["bool", "char", "short", "wchar_t", "char16_t", "char32_t", "int", "long", "long long"]

/-! ### Errors -/

/-- Why settings cannot be used. -/
inductive SettingsError where
  | notObject (kind : String)
  | unknownKeys (keys : List String)
  | notInteger (kind : String)
  | notNumber (kind : String)
  | badNumeral (why : NumeralError)
  | integerFromNaN
  | flowValuesNotBool
  | typesNotNames
  | contractsNotObject
  | contractNotObject (function : String)
  | badTag (function parameter : String) (why : Tag.SpellingError)
  | iterationsNotPositive (given : Int)
  | timeoutNotPositive (given : Seconds)
  | jobsNotPositive (given : Int)
  | noTypes
  /-- a value that should list type names is of a kind that lists nothing -/
  | typesNotListed (kind : String)
  /-- an infinite number where an integer is due -/
  | integerFromInfinity
  /-- an integer too large for a number of seconds -/
  | secondsTooLarge
  /-- an integer with more digits than `digitLimit` in a file -/
  | numeralTooLong (why : NumeralError)
  /-- an integer that is refused, but has more digits than a message can show -/
  | numberNotShown
  /-- the file cannot be read, for the reason given -/
  | unreadable (path : String) (reason : String)
  /-- the file is no JSON -/
  | notJson (path : String) (line : Nat) (fault : String)

namespace SettingsError

/-- The text of the error. -/
def message : SettingsError → String
  | notObject kind => "configuration must be an object, got " ++ kind
  | unknownKeys keys => "unknown configuration key(s): " ++ ", ".intercalate keys
  | notInteger kind =>
    "invalid numeric setting: int() argument must be a string, a bytes-like object or a real number, not "
      ++ "'" ++ kind ++ "'"
  | notNumber kind =>
    "invalid numeric setting: float() argument must be a string or a real number, not '" ++ kind ++ "'"
  | badNumeral why => "invalid numeric setting: " ++ why.message
  | integerFromNaN => "invalid numeric setting: cannot convert float NaN to integer"
  | flowValuesNotBool => "use_valueflow must be true or false"
  | typesNotNames => "integral_types must be a list of type names"
  | contractsNotObject => "parameter_contracts must map function names to objects"
  | contractNotObject f => "parameter_contracts[" ++ quoted f ++ "] must be an object"
  | badTag f param why =>
    "parameter_contracts[" ++ quoted f ++ "][" ++ quoted param ++ "]: " ++ why.message
  | iterationsNotPositive n => "max_iterations must be positive, got " ++ toString n
  | timeoutNotPositive t => "timeout_seconds must be positive, got " ++ t.text
  | jobsNotPositive n => "jobs must be at least 1, got " ++ toString n
  | noTypes => "integral_types must not be empty"
  | typesNotListed kind => "'" ++ kind ++ "' object is not iterable"
  | integerFromInfinity => "cannot convert float infinity to integer"
  | secondsTooLarge => "int too large to convert to float"
  | numeralTooLong why => why.message
  | numberNotShown =>
    "Exceeds the limit (" ++ toString digitLimit ++ " digits) for integer string conversion; "
      ++ "use sys.set_int_max_str_digits() to increase the limit"
  | unreadable path reason => "cannot read configuration " ++ path ++ ": " ++ reason
  | notJson path line fault => path ++ ":" ++ toString line ++ ": invalid JSON: " ++ fault

/-- Is the error one that the command reports as bad settings?  The others come as a surprise. -/
def isExpected : SettingsError → Bool
  | typesNotListed _ | integerFromInfinity | secondsTooLarge | numeralTooLong _
  | numberNotShown => false
  | _ => true

/-- The error that shows an integer, if its digits can be shown. -/
def showing (n : Int) (e : SettingsError) : SettingsError :=
  if n.natAbs < Binary64.tenPow digitLimit then e else numberNotShown

/-- The error about a time limit that is not positive. -/
def ofTimeout : Seconds → SettingsError
  | .whole n => showing n (timeoutNotPositive (.whole n))
  | t => timeoutNotPositive t

end SettingsError

namespace Settings

/-! ### Queries -/

/-- What is assumed about the parameters of a function. -/
def contract (s : Settings) (function : String) : List (String × Tag) :=
  (Json.field? function s.contracts).getD []

/-- The error in settings with which no analysis can run. -/
def error? (s : Settings) : Option SettingsError :=
  if s.maxIterations < 1 then
    some (.showing s.maxIterations (.iterationsNotPositive s.maxIterations))
  else match s.timeout.filter Seconds.nonPositive with
    | some t => some (.ofTimeout t)
    | none =>
      if s.jobs < 1 then some (.showing s.jobs (.jobsNotPositive s.jobs))
      else if s.integralTypes.isEmpty then some .noTypes
      else none

/-- What looks wrong about settings without preventing an analysis. -/
def warnings (s : Settings) : List String :=
  (s.integralTypes.filter (· ∉ knownIntegralTypes)).map
      (fun name => "unknown integral type " ++ quoted name ++ " will never match")
    ++ s.contracts.flatMap (fun (f, params) =>
      (params.filter (fun e => e.2 = .bottom)).map (fun e =>
        "contract " ++ f ++ "(" ++ e.1 ++ ") is 'bottom': the body is treated as unreachable"))
    ++ if s.maxIterations < 100 then
        ["max_iterations=" ++ toString s.maxIterations ++ " will abort most functions"]
      else []

/-- Accepts settings with which an analysis can run, and warns. -/
def validate (s : Settings) : Except SettingsError (List String) :=
  match s.error? with
  | some e => .error e
  | none => .ok s.warnings

end Settings

end DivisorCheck
