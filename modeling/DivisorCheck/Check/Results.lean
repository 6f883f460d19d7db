/-
  `CheckResults` — the findings of any number of checks, with counts of what was
  looked at.

  Counts are kept by name, in the order of their first mention.  When results are
  put together, a number is added to what was there under its name, and anything
  else takes its place.
-/
import DivisorCheck.Finding

namespace DivisorCheck

open DivisorCheck.Json DivisorCheck.Decimal

/-! ### Numbers among counts -/

/-- A number: whole, or a fraction. -/
inductive StatNumber where
  | whole (n : Int)
  | fraction (x : Binary64)
deriving Repr, DecidableEq

/-- The number that a value stands for; truth counts as one. -/
def StatNumber.ofValue? : Value → Option StatNumber
  | .bool b => some (.whole (if b then 1 else 0))
  | .int n => some (.whole n)
  | .real x => some (.fraction x)
  | _ => none

/-- Why a number cannot be added to what is there. -/
inductive StatError where
  /-- text is there -/
  | ontoText (kind : String)
  /-- a list is there -/
  | ontoList (kind : String)
  /-- something else is there that cannot be added to -/
  | ontoOther (old kind : String)
  /-- a whole number too large for a fraction -/
  | tooLarge
deriving Repr, DecidableEq

/-- The text of the error. -/
def StatError.message : StatError → String
  | ontoText kind => "can only concatenate str (not \"" ++ kind ++ "\") to str"
  | ontoList kind => "'" ++ kind ++ "' object is not iterable"
  | ontoOther old kind => "unsupported operand type(s) for +=: '" ++ old ++ "' and '" ++ kind ++ "'"
  | tooLarge => "int too large to convert to float"

/-- The sum of two numbers; a fraction makes it a fraction. -/
def StatNumber.add : StatNumber → StatNumber → Except StatError Value
  | whole a, whole b => .ok (.int (a + b))
  | fraction a, fraction b => .ok (.real (a.add b))
  | whole a, fraction b =>
    match Binary64.ofInt? a with
    | some a => .ok (.real (a.add b))
    | none => .error .tooLarge
  | fraction a, whole b =>
    match Binary64.ofInt? b with
    | some b => .ok (.real (a.add b))
    | none => .error .tooLarge

/-- Adds a number to what is there. -/
def addStat (old new : Value) (number : StatNumber) : Except StatError Value :=
  match StatNumber.ofValue? old with
  | some n => n.add number
  | none =>
    match old with
    | .string _ => .error (.ontoText new.kindName)
    | .list _ => .error (.ontoList new.kindName)
    | _ => .error (.ontoOther old.kindName new.kindName)

/-! ### Results -/

/-- Counts by name. -/
abbrev Statistics := List (String × Value)

/-- Puts one count together with those that are there. -/
def mergeStat (stats : Statistics) (name : String) (new : Value) : Except StatError Statistics :=
  match StatNumber.ofValue? new, field? name stats with
  | some number, some old => (addStat old new number).map (fun sum => setField name sum stats)
  | _, _ => .ok (setField name new stats)

/-- Puts counts together, up to the first that does not go. -/
def mergeStats (stats : Statistics) : Statistics → Statistics × Option StatError
  | [] => (stats, none)
  | (name, new) :: rest =>
    match mergeStat stats name new with
    | .ok stats => mergeStats stats rest
    | .error e => (stats, some e)

/-- The findings of any number of checks, and counts of what was looked at. -/
structure CheckResults where
  findings : List Finding := []
  stats : Statistics := []
deriving Inhabited

namespace CheckResults

/-- Puts results together.  The findings are together even where the counts do not go. -/
def merge (a b : CheckResults) : CheckResults × Option StatError :=
  let (stats, error) := mergeStats a.stats b.stats
  ({ findings := a.findings ++ b.findings, stats }, error)

/-- The findings of a severity. -/
def withSeverity (r : CheckResults) (s : Severity) : List Finding :=
  r.findings.filter (·.severity == s)

/-- The findings in a file. -/
def inFile (r : CheckResults) (file : String) : List Finding :=
  r.findings.filter (·.location.file == file)

/-- The findings with an identifier. -/
def withId (r : CheckResults) (errorId : String) : List Finding :=
  r.findings.filter (·.errorId == errorId)

/-- A count by name, zero if there is none. -/
def stat (r : CheckResults) (name : String) : Value := (field? name r.stats).getD (.int 0)

/-- One sentence about the results. -/
def summary (r : CheckResults) : String :=
  "divide-by-zero check complete: " ++ toString r.findings.length ++ " diagnostics ("
    ++ toString (r.withSeverity .error).length ++ " errors) in " ++ (r.stat "functions").text
    ++ " functions, " ++ (r.stat "functions_failed").text ++ " unchecked"

end CheckResults

end DivisorCheck
