import DivisorCheck.Flow.Dominator
import DivisorCheck.Flow.Drawing
import DivisorCheck.Main
import DivisorCheck.Proofs.Store.Order
import DivisorCheck.Proofs.Analysis.Settling
import DivisorCheck.Proofs.Analysis.Guard
import DivisorCheck.Proofs.Execution.Expr
import DivisorCheck.Proofs.Execution.Effects
import DivisorCheck.Proofs.Expr.Narrowing
import DivisorCheck.Proofs.Expr.Frame
import DivisorCheck.Proofs.Expr.Soundness
import DivisorCheck.Proofs.Execution.Graph
import DivisorCheck.Proofs.Analysis.Soundness
import DivisorCheck.Proofs.Code.Behaviour
import DivisorCheck.Proofs.Code.Scanning
import DivisorCheck.Proofs.Flow.Path
import DivisorCheck.Proofs.Flow.Sketch
import DivisorCheck.Proofs.Flow.Growth
import DivisorCheck.Proofs.Flow.Reading
import DivisorCheck.Proofs.Flow.Switch
import DivisorCheck.Proofs.Flow.Kinds
import DivisorCheck.Proofs.Flow.Execution
import DivisorCheck.Proofs.Check.Findings
import DivisorCheck.Proofs.Program.Trees
import DivisorCheck.Proofs.Check.Unchecked
import DivisorCheck.Proofs.Check.Verdict
import DivisorCheck.Proofs.Check.Examined
import DivisorCheck.Proofs.Expr.Tagging
import DivisorCheck.Proofs.Expr.Reached
import DivisorCheck.Proofs.Expr.Coverage
import DivisorCheck.Proofs.Check.Units
import DivisorCheck.Proofs.Flow.Ending
import DivisorCheck.Proofs.Check.Isolation
import DivisorCheck.Proofs.Check.Session
import DivisorCheck.Proofs.Analysis.LastPass
import DivisorCheck.Proofs.Expr.Blocks
import DivisorCheck.Proofs.Expr.Unrun
import DivisorCheck.Proofs.Analysis.Dead
import DivisorCheck.Proofs.Flow.Board
import DivisorCheck.Proofs.Flow.Visit
import DivisorCheck.Proofs.Flow.Stage
import DivisorCheck.Proofs.Flow.Shape
import DivisorCheck.Proofs.Flow.Stretch
import DivisorCheck.Proofs.Flow.Keeping
import DivisorCheck.Proofs.Flow.Statements
import DivisorCheck.Proofs.Flow.Handlers
import DivisorCheck.Proofs.Flow.Built
import DivisorCheck.Proofs.Flow.WellBuilt
import DivisorCheck.Proofs.Flow.Visited
import DivisorCheck.Proofs.Analysis.Throwing
import DivisorCheck.Proofs.Expr.Writes
import DivisorCheck.Proofs.Store.Rank
import DivisorCheck.Proofs.Analysis.Convergence
import DivisorCheck.Proofs.Code.Grammar
import DivisorCheck.Proofs.Flow.Consuming
import DivisorCheck.Proofs.Code.Nesting
import DivisorCheck.Proofs.Flow.Shelving
import DivisorCheck.Proofs.Flow.Standing
import DivisorCheck.Proofs.Flow.Partition
import DivisorCheck.Proofs.Expr.Agreement
import DivisorCheck.Proofs.Analysis.Annotation
import DivisorCheck.Proofs.Expr.Aliases
import DivisorCheck.Proofs.Expr.Conversions
import DivisorCheck.Proofs.Expr.Side
import DivisorCheck.Proofs.Flow.Postorder
import DivisorCheck.Proofs.Flow.Dominance
import DivisorCheck.Proofs.Expr.Splitting
import DivisorCheck.Proofs.Analysis.LoopFree
import DivisorCheck.Proofs.Expr.Monotone
import DivisorCheck.Proofs.Text.Numerals
import DivisorCheck.Proofs.Program.Literals
import DivisorCheck.Proofs.Expr.Arguments
import DivisorCheck.Proofs.Expr.Machine
import DivisorCheck.Proofs.Suppression.Spelling
import DivisorCheck.Proofs.Suppression.Hiding
import DivisorCheck.Proofs.Decimal.Integers
import DivisorCheck.Proofs.Settings.Reading
import DivisorCheck.Proofs.Settings.RoundTrip
import DivisorCheck.Proofs.Text.QuotedStrings
import DivisorCheck.Proofs.Flow.Labels
import DivisorCheck.Proofs.Store.Lattice
import DivisorCheck.Proofs.Program.Roots
