/-
  `Suppression` — which findings their reader does not want to see.

  A suppression names an identifier, or `*` for all, and where it holds:
  everywhere, in the files that a pattern covers, or at a line of one file, which
  includes the line after it so that a comment can stand above what it is about.

  Suppressions come from comments in the source and from specifications that the
  user gives, `id`, `id:pattern` or `id:file:line`.
-/
import DivisorCheck.Finding
import DivisorCheck.Text.Glob
import DivisorCheck.Text.Numeral
import DivisorCheck.Text.Parts

namespace DivisorCheck

open DivisorCheck.Text

/-- Where a suppression holds. -/
inductive SuppressionScope where
  | everywhere
  | inFiles (pattern : String)
  | atLine (file : String) (line : Int)
deriving DecidableEq, Repr

/-- A suppression. -/
structure Suppression where
  errorId : String
  scope : SuppressionScope
deriving DecidableEq, Repr

/-- Does a pattern cover a file?  It does if the file's name ends with it, or matches it as a
glob. -/
def coversFile (pattern file : String) : Bool :=
  pattern.toList.isSuffixOf file.toList || globMatches pattern file

/-- Does a place lie where a suppression holds? -/
def SuppressionScope.covers : SuppressionScope → Location → Bool
  | everywhere, _ => true
  | inFiles pattern, l => coversFile pattern l.file
  | atLine file line, l => file == l.file && (line == l.line || line == l.line - 1)

namespace Suppression

/-- Does the suppression name the identifier? -/
def names (s : Suppression) (errorId : String) : Bool := s.errorId == errorId || s.errorId == "*"

/-- Is a finding of this identifier at this place suppressed? -/
def hides (s : Suppression) (errorId : String) (l : Location) : Bool :=
  s.names errorId && s.scope.covers l

/-! ### Reading -/

/-- Is the text a number to look at: not empty, and nothing but digits of some form? -/
def looksNumeric (cs : List Char) : Bool := !cs.isEmpty && cs.all isDigitForm

/-- Reads a specification.  Colons may be part of the file's name; the last part is a line if it
looks like one and a file stands before it. -/
def ofSpec (spec : String) : Except NumeralError Suppression :=
  match splitOn ':' spec.toList with
  | [] => .ok ⟨"", .everywhere⟩
  | [errorId] => .ok ⟨String.ofList errorId, .everywhere⟩
  | errorId :: parts =>
    let last := parts.getLast?.getD []
    if 2 ≤ parts.length ∧ looksNumeric last then
      match readDecimal (String.ofList last) with
      | .ok line => .ok ⟨String.ofList errorId, .atLine (String.ofList (joinWith ':' parts.dropLast)) line⟩
      | .error e => .error e
    else .ok ⟨String.ofList errorId, .inFiles (String.ofList (joinWith ':' parts))⟩

/-- A line number of a comment; none if it is missing, zero or empty. -/
def lineOf? : Option LineRef → Except NumeralError (Option Int)
  | none => .ok none
  | some (.number n) => .ok (if n = 0 then none else some n)
  | some (.text s) => if s.isEmpty then .ok none else (readDecimal s).map some

/-- Reads a comment.  One without identifier suppresses nothing; one without file holds
everywhere, whatever its line, and one without line in all of its file. -/
def ofComment? (c : SuppressionComment) : Except NumeralError (Option Suppression) :=
  let errorId := c.errorId.getD ""
  let file := c.file.getD ""
  if errorId.isEmpty then .ok none
  else if file.isEmpty then .ok (some ⟨errorId, .everywhere⟩)
  else match lineOf? c.line with
    | .ok none => .ok (some ⟨errorId, .inFiles file⟩)
    | .ok (some line) => .ok (some ⟨errorId, .atLine file line⟩)
    | .error e => .error e

end Suppression

/-! ### All suppressions in force -/

/-- The suppressions in force, in the order in which they were given. -/
abbrev Suppressions := List Suppression

namespace Suppressions

/-- Is a finding of this identifier at this place suppressed? -/
def hide (ss : Suppressions) (errorId : String) (l : Location) : Bool :=
  ss.any (·.hides errorId l)

/-- The findings that are not suppressed. -/
def filter (ss : Suppressions) (fs : List Finding) : List Finding :=
  fs.filter (fun f => !ss.hide f.errorId f.location)

/-- Adds the suppression that a specification gives. -/
def addSpec (ss : Suppressions) (spec : String) : Except NumeralError Suppressions :=
  (Suppression.ofSpec spec).map (fun s => ss ++ [s])

/-- Adds the suppressions that specifications give. -/
def addSpecs (ss : Suppressions) (specs : List String) : Except NumeralError Suppressions :=
  specs.foldlM addSpec ss

/-- Adds the suppressions that comments give, up to the first that cannot be read. -/
def load (ss : Suppressions) : List SuppressionComment → Suppressions × Option NumeralError
  | [] => (ss, none)
  | c :: rest =>
    match Suppression.ofComment? c with
    | .error e => (ss, some e)
    | .ok found => load (ss ++ found.toList) rest

end Suppressions

/-- **A suppression in force hides exactly what it names**, where it holds. -/
theorem Suppressions.hide_iff (ss : Suppressions) (errorId : String) (l : Location) :
    ss.hide errorId l = true ↔
      ∃ s ∈ ss, (s.errorId = errorId ∨ s.errorId = "*") ∧ s.scope.covers l = true := by
  simp [hide, Suppression.hides, Suppression.names, List.any_eq_true]

end DivisorCheck
