/-
  Why a function could not be analysed.

  Either its body has no usable graph, or the analysis did not settle within its
  limits.  Nothing is claimed about the divisions of such a function.
-/
import DivisorCheck.Flow.Body
import DivisorCheck.Settings

namespace DivisorCheck

/-- What went wrong with a function. -/
inductive AnalysisFault where
  | badBody (fault : BodyFault) (place : Option Place)
  | badGraph (fault : FlowGraph.Fault)
  | tooManyIterations (iterations : Nat)
  | tooSlow (limit : Seconds) (iterations : Nat)
deriving DecidableEq, Repr

/-- A function that could not be analysed. -/
structure AnalysisError where
  /-- the name of the function, if it has one -/
  function : Option String
  fault : AnalysisFault
deriving DecidableEq, Repr

/-- What to call a function without a name while it is analysed. -/
def anonymousName : String := "<anonymous>"

namespace AnalysisError

/-- The text of the error. -/
def message (e : AnalysisError) : String :=
  let name := nameOr e.function anonymousName
  match e.fault with
  | .badBody fault place => Place.text place ++ ": " ++ fault.message
  | .badGraph fault => fault.message
  | .tooManyIterations n => name ++ ": no fixpoint after " ++ toString n ++ " iterations"
  | .tooSlow limit _ => name ++ ": analysis exceeded " ++ limit.text ++ "s"

/-- How reports class the error. -/
def reason (e : AnalysisError) : String :=
  match e.fault with
  | .badBody .. | .badGraph _ => "MalformedCFGError"
  | .tooManyIterations _ | .tooSlow .. => "AnalysisLimitExceeded"

/-- The name of the function for reports. -/
def functionName (e : AnalysisError) : String := nameOr e.function FlowGraph.unknownName

/-- The blocks taken from the queue before a limit was hit. -/
def iterations? (e : AnalysisError) : Option Nat :=
  match e.fault with
  | .tooManyIterations n | .tooSlow _ n => some n
  | .badBody .. | .badGraph _ => none

end AnalysisError

end DivisorCheck
