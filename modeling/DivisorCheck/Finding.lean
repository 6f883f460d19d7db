/-
  `Finding` — something that the checker reports about a place in the source.

  A finding has an identifier by which it can be suppressed, a severity, and how
  confident the checker is of it.  The evidence is for programs that read the
  findings; two findings that differ in it alone count as the same.
-/
import DivisorCheck.Program

namespace DivisorCheck

/-- How bad a finding is. -/
inductive Severity where
  | error
  | warning
  | style
  | performance
  | portability
  | information
deriving DecidableEq, Repr, Inhabited

namespace Severity

/-- The name of a severity. -/
def name : Severity → String
  | error => "error"
  | warning => "warning"
  | style => "style"
  | performance => "performance"
  | portability => "portability"
  | information => "information"

/-- All severities. -/
def all : List Severity := [error, warning, style, performance, portability, information]

/-- The severity of a name. -/
def ofName? (s : String) : Option Severity := all.find? (·.name == s)

end Severity

/-- How certain a finding is: `high` if the division fails whenever it runs, `medium` if nothing
speaks against that it may, `low` if it is a guess. -/
inductive Confidence where
  | high
  | medium
  | low
deriving DecidableEq, Repr

namespace Confidence

/-- The name of a confidence. -/
def name : Confidence → String
  | high => "HIGH"
  | medium => "MEDIUM"
  | low => "LOW"

/-- The confidence of a name. -/
def ofName? (s : String) : Option Confidence := [high, medium, low].find? (·.name == s)

end Confidence

/-- A place in the source; a column of zero is unknown. -/
structure Location where
  file : String := ""
  line : Int := 0
  column : Int := 0
deriving DecidableEq, Repr, Inhabited

/-- The text of a place. -/
def Location.text (l : Location) : String :=
  l.file ++ ":" ++ toString l.line ++ if l.column = 0 then "" else ":" ++ toString l.column

/-- The place of a token. -/
def Program.locationOf (p : Program) (t : TokenId) : Location :=
  let tok := p.token t
  { file := tok.file, line := tok.line, column := tok.column }

/-- Facts about a finding for programs to read, by name. -/
abbrev Evidence := List (String × Json.Value)

/-- Something that the checker reports. -/
structure Finding where
  /-- by which the finding can be suppressed -/
  errorId : String
  message : String
  severity : Severity
  location : Location := {}
  confidence : Confidence := .medium
  /-- the number of the weakness in the common enumeration; zero for none -/
  cwe : Int := 0
  /-- which checker has found it -/
  checker : String := ""
  addon : String := "divzero"
  extra : String := ""
  evidence : Evidence := []
deriving Inhabited

namespace Finding

/-- Do two findings agree in everything but their evidence? -/
def sameAs (a b : Finding) : Bool :=
  a.errorId == b.errorId && a.message == b.message && a.severity == b.severity
    && a.location == b.location && a.confidence == b.confidence && a.cwe == b.cwe
    && a.checker == b.checker && a.addon == b.addon && a.extra == b.extra

end Finding

end DivisorCheck
