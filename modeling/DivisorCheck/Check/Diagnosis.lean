/-
  Findings from tags: applies the division rule to every division that was
  evaluated, in a body or outside, and words what it reports.

  A unit that failed gets one note, and its divisions are not reported by it.  No
  division is reported twice: the first unit to report it wins, and what lies
  outside comes last.
-/
import DivisorCheck.Check.Outside
import DivisorCheck.Division
import DivisorCheck.Expr.Text

namespace DivisorCheck

open DivisorCheck.Json

/-- The identifier of a division by zero. -/
def divisionId : String := "divide-by-zero"

/-- The identifier of a function that was not checked. -/
def uncheckedId : String := "divide-by-zero-unchecked"

/-- The identifier of a check that was given up. -/
def internalId : String := "divide-by-zero-internal"

/-- The name of the checker. -/
def checkerName : String := "divide-by-zero"

/-- The number of the weakness "divide by zero". -/
def divisionWeakness : Int := 369

/-- An event with the name of the function that it is in, empty outside all functions. -/
structure LocatedEvent where
  event : DivisionEvent
  function : String
deriving Repr, DecidableEq

/-- Of the events about one token keeps the first; `seen` are the tokens met before. -/
def firstPerToken (seen : List TokenId) : List LocatedEvent → List LocatedEvent
  | [] => []
  | e :: rest =>
    if e.event.token ∈ seen then firstPerToken seen rest
    else e :: firstPerToken (e.event.token :: seen) rest

namespace Program

variable (p : Program) (rule : DivisionRule)

/-- The events of a unit. -/
def unitEvents (u : UnitOutcome) : List LocatedEvent :=
  match u.outcome with
  | .error _ => []
  | .ok r => (r.sites.filterMap (rule.check p r.tagOf)).map (⟨·, u.unit.name p⟩)

/-- The events outside all units, given the tags there. -/
def outsideEvents (tags : Annotations) : List LocatedEvent :=
  let tagOf := fun t => (tags.get? t).getD .top
  (tags.tokens.filterMap (rule.check p tagOf)).map (⟨·, ""⟩)

/-- All events, no two about one token. -/
def events (us : List UnitOutcome) (tags : Annotations) : List LocatedEvent :=
  firstPerToken [] (us.flatMap (p.unitEvents rule) ++ p.outsideEvents rule tags)

/-! ### Wording -/

/-- The finding of an event. -/
def divisionFinding (e : LocatedEvent) : Finding :=
  let divisor := p.exprText messageDepth (some e.event.divisor)
  { errorId := divisionId
    message :=
      if e.event.isCertain then "Division by zero: divisor '" ++ divisor ++ "' is zero"
      else "Divisor '" ++ divisor ++ "' may be zero"
    severity := .error
    location := e.event.location
    confidence := if e.event.isCertain then .high else .medium
    cwe := divisionWeakness
    checker := checkerName
    evidence := [
      ("zeroness", .string e.event.tag.name),
      ("operator", .string e.event.operator),
      ("divisor", .string divisor),
      ("function", .string e.function)] }

/-- The note about a unit that failed.  It stands where the function is declared, or else where its
body starts. -/
def uncheckedFinding (u : FunctionUnit) (e : AnalysisError) : Finding :=
  let name := u.name p
  { errorId := uncheckedId
    message := "Function '" ++ name ++ "' was not checked for division by zero: " ++ e.message
    severity := .information
    location := p.locationOf ((p.function u.function).definition.getD u.first)
    confidence := .low
    checker := checkerName
    evidence := [("function", .string name), ("reason", .string e.reason)] }

/-- The notes about the units that failed. -/
def uncheckedFindings (us : List UnitOutcome) : List Finding :=
  us.filterMap (fun u => u.error?.map (p.uncheckedFinding u.unit))

/-- All findings, before suppression. -/
def diagnose (us : List UnitOutcome) (tags : Annotations) : List Finding :=
  p.uncheckedFindings us ++ (p.events rule us tags).map p.divisionFinding

end Program

/-- The finding about a check that was given up. -/
def internalFinding (e : CheckFailure) : Finding where
  errorId := internalId
  message := "Checker '" ++ checkerName ++ "' failed: " ++ e.message
  severity := .information
  checker := checkerName

end DivisorCheck
