/-
  A finding on one line: as a JSON object, in the manner of compilers, and in the
  classic form with the place in brackets.
-/
import DivisorCheck.Finding
import DivisorCheck.Json.Escape

namespace DivisorCheck.Finding

open DivisorCheck.Json

/-- One field of an object. -/
def jsonField (name value : String) : String := escaped name ++ ": " ++ value

/-- The finding as a JSON object.  The weakness is left out if there is none. -/
def jsonLine (f : Finding) : String :=
  let fields := [
    jsonField "file" (escaped f.location.file),
    jsonField "linenr" (toString f.location.line),
    jsonField "column" (toString f.location.column),
    jsonField "severity" (escaped f.severity.name),
    jsonField "message" (escaped f.message),
    jsonField "addon" (escaped f.addon),
    jsonField "errorId" (escaped f.errorId),
    jsonField "extra" (escaped f.extra)]
  let cwe := if f.cwe = 0 then [] else [jsonField "cwe" (toString f.cwe)]
  "\x7b" ++ ", ".intercalate (fields ++ cwe) ++ "\x7d"

/-- The finding as compilers write theirs. -/
def compilerLine (f : Finding) : String :=
  f.location.text ++ ": " ++ f.severity.name ++ ": " ++ f.message ++ " [" ++ f.errorId ++ "]"

/-- The finding in the classic form. -/
def classicLine (f : Finding) : String :=
  "[" ++ f.location.file ++ ":" ++ toString f.location.line ++ "]: (" ++ f.severity.name ++ ") "
    ++ f.message ++ " [" ++ f.errorId ++ "]"

/-- All findings as JSON objects, one a line. -/
def jsonLines (fs : List Finding) : String := "\n".intercalate (fs.map jsonLine)

/-- All findings as compilers write theirs. -/
def compilerLines (fs : List Finding) : String := "\n".intercalate (fs.map compilerLine)

end DivisorCheck.Finding
