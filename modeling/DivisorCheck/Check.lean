/-
  `Program.check` — checks a program for divisions by zero.

  The bodies of its functions are analysed, the divisions outside them are
  evaluated, and the rule is applied to all; this gives the findings before
  suppression.  A check that has to be given up gives a single finding instead,
  which is not suppressed.

  A session checks one program after the other.  The suppressions that a program
  brings stay in force for those after it.
-/
import DivisorCheck.Check.Diagnosis
import DivisorCheck.Check.Results
import DivisorCheck.Suppression

namespace DivisorCheck

open DivisorCheck.Text

/-! ### One program -/

/-- What the check of a program has established, before suppression. -/
structure Checked where
  units : List UnitOutcome
  outside : List Program.OutsideExpr
  findings : List Finding

/-- Checks a program. -/
def Program.check (p : Program) (settings : Settings) (timing : Timing := .still) :
    Except CheckFailure Checked :=
  match p.units with
  | .error e => .error e
  | .ok units =>
    let units := p.analyzeUnits settings units timing
    let outside := p.outsideExprs settings units
    let findings := p.diagnose ⟨settings.integralTypes⟩ units (Program.outsideTags outside)
    .ok { units, outside, findings }

namespace Checked

/-- How many units failed. -/
def failures (c : Checked) : Nat := (c.units.filter (·.failed)).length

/-- The counts of a check. -/
def stats (c : Checked) : Statistics := [
  ("functions", .int c.units.length),
  ("functions_failed", .int c.failures),
  ("standalone_expressions", .int c.outside.length)]

/-- What the log tells about a check. -/
def log (p : Program) (c : Checked) : List LogEntry :=
  c.units.flatMap (fun u => u.unit.log p u.outcome) ++ c.outside.map (·.log p)

end Checked

/-- The last entry of the log about a program. -/
def countEntry (functions failures findings : Nat) : LogEntry :=
  ⟨.info, .checking, toString functions ++ " functions analysed, " ++ toString failures
    ++ " unchecked, " ++ toString findings ++ " diagnostics"⟩

/-- The results for a program under given suppressions, with the log. -/
def Program.report (p : Program) (settings : Settings) (ss : Suppressions)
    (timing : Timing := .still) : CheckResults × List LogEntry :=
  match p.check settings timing with
  | .error e =>
    ({ findings := [internalFinding e] },
      [⟨.error, .checking, "checker '" ++ checkerName ++ "' failed"⟩, countEntry 0 0 1])
  | .ok c =>
    let findings := ss.filter c.findings
    ({ findings, stats := c.stats },
      c.log p ++ [countEntry c.units.length c.failures findings.length])

/-! ### One program after the other -/

/-- The state between two programs. -/
structure CheckSession where
  suppressions : Suppressions := []
  results : CheckResults := {}
  log : List LogEntry := []

namespace CheckSession

/-- Checks the next program.  A suppression comment that cannot be read ends the session. -/
def next (settings : Settings) (s : CheckSession) (p : Program) (timing : Timing := .still) :
    CheckSession × Option NumeralError :=
  match s.suppressions.load p.suppressions with
  | (suppressions, some e) => ({ s with suppressions }, some e)
  | (suppressions, none) =>
    let (results, log) := p.report settings suppressions timing
    -- The counts of a check are whole numbers, so they always go together.
    ({ suppressions, results := (s.results.merge results).1, log := s.log ++ log }, none)

/-- Checks programs up to the first that ends the session; `timings n` is how time passes for the
program at place `n`. -/
def run (settings : Settings) (s : CheckSession) (ps : List Program)
    (timings : Nat → Timing := fun _ => .still) : CheckSession × Option NumeralError :=
  match ps with
  | [] => (s, none)
  | p :: rest =>
    match s.next settings p (timings 0) with
    | (s, some e) => (s, some e)
    | (s, none) => run settings s rest (fun n => timings (n + 1))

end CheckSession

end DivisorCheck
