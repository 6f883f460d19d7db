/-
  `LogEntry` — what the checker tells about its own work, apart from its findings.

  Entries carry a level, and a run shows those from a level on that its user
  chooses.
-/
namespace DivisorCheck

/-- How much an entry matters. -/
inductive LogLevel where
  | debug
  | info
  | warning
  | error
deriving DecidableEq, Repr

namespace LogLevel

/-- The name of a level. -/
def name : LogLevel → String
  | debug => "DEBUG"
  | info => "INFO"
  | warning => "WARNING"
  | error => "ERROR"

/-- The levels from the least to the greatest. -/
def rank : LogLevel → Nat
  | debug => 0
  | info => 1
  | warning => 2
  | error => 3

/-- The least level that is shown when the user asked that many times for more. -/
def ofVerbosity : Nat → LogLevel
  | 0 => warning
  | 1 => info
  | _ => debug

end LogLevel

/-- Which part of the work an entry comes from. -/
inductive LogSource where
  | command
  | settings
  | checking
  | iteration
  | evaluation
deriving DecidableEq, Repr

/-- The name of a source. -/
def LogSource.name : LogSource → String
  | command => "divzero"
  | settings => "divzero.config"
  | checking => "divzero.checkers"
  | iteration => "divzero.dataflow_engine"
  | evaluation => "divzero.transfer"

/-- An entry of the log. -/
structure LogEntry where
  level : LogLevel
  source : LogSource
  text : String
deriving DecidableEq, Repr

/-- The entries from a level on. -/
def LogEntry.from (least : LogLevel) (log : List LogEntry) : List LogEntry :=
  log.filter (fun e => least.rank ≤ e.level.rank)

end DivisorCheck
