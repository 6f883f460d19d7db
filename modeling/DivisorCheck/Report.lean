/-
  The report for people: findings as blocks of lines, and a last line that counts
  them.

  A block has the message, the place, what is known of the divisor, and the
  finding in its classic form, so that tools which look for that still find it.
-/
import DivisorCheck.Finding.Line
import DivisorCheck.Report.Paint

namespace DivisorCheck.Report

open DivisorCheck.Json

/-- The colour of a severity. -/
def colourOf : Severity → Colour
  | .error => .red
  | .warning => .yellow
  | .style => .cyan
  | .performance => .magenta
  | .portability => .blue
  | .information => .white

/-- Is a value of the evidence worth a line?  Nothing, false, zero and what is empty are not. -/
def isWorthNoting : Value → Bool
  | .null => false
  | .bool b => b
  | .int n => n != 0
  | .real (.finite _ significand _) => significand != 0
  | .real _ => true
  | .string s => !s.isEmpty
  | .list items => !items.isEmpty
  | .object fields => !fields.isEmpty

/-- The text of some evidence that is worth a line. -/
def evidenceText? (f : Finding) (name : String) : Option String :=
  ((field? name f.evidence).filter isWorthNoting).map Value.text

/-- The lines of a finding. -/
def findingLines (colour : Bool) (f : Finding) : List String :=
  let head := paint colour .bold (colourOf f.severity) (f.severity.name ++ "[" ++ f.errorId ++ "]")
    ++ ": " ++ paint colour .bold (some .white) f.message
  let place :=
    if f.location.file.isEmpty then []
    else ["  " ++ paint colour .bold (some .blue) "-->" ++ " " ++ f.location.text]
  let note := fun text => "  = " ++ paint colour .bold (some .cyan) "note" ++ ": " ++ text
  let function := (evidenceText? f "function").map (fun name => note ("in function '" ++ name ++ "'"))
  let divisor := (evidenceText? f "zeroness").map (fun tag => note ("divisor is " ++ tag))
  let weakness :=
    if f.cwe = 0 then []
    else ["  = " ++ paint colour .underline (some .blue) ("CWE-" ++ toString f.cwe)
      ++ ": https://cwe.mitre.org/data/definitions/" ++ toString f.cwe ++ ".html"]
  let classic := paint colour .dark none f.classicLine
  head :: place ++ function.toList ++ divisor.toList ++ weakness ++ [classic]

/-- The severities of findings with how many there are of each, in the order of first mention. -/
def countBySeverity (fs : List Finding) : List (Severity × Nat) :=
  (fs.map (·.severity)).eraseDups.map (fun s => (s, (fs.filter (·.severity == s)).length))

/-- A number of findings of one severity; there is no plural of "information". -/
def countText (s : Severity) (n : Nat) : String :=
  toString n ++ " " ++ s.name ++ if n = 1 ∨ s = .information then "" else "s"

/-- The last line. -/
def summaryLine (fs : List Finding) : String :=
  match countBySeverity fs with
  | [] => "no divide-by-zero issues found"
  | counts => ", ".intercalate (counts.map (fun (s, n) => countText s n)) ++ " emitted"

/-- The whole report. -/
def text (colour : Bool) (fs : List Finding) : String :=
  String.join (fs.map (fun f => "\n".intercalate (findingLines colour f) ++ "\n\n"))
    ++ summaryLine fs ++ "\n"

end DivisorCheck.Report
