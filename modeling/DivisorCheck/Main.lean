/-
  The program: reads the files that a command line names, runs the command on
  them, and writes what comes of it.

  It measures no time: the clocks it gives stand still, and a time limit never
  ends an analysis here.
-/
import DivisorCheck.Command
import DivisorCheck.Program.Reader

namespace DivisorCheck.Main

open DivisorCheck.Command

/-- A file as it was found. -/
abbrev FoundFile := Except FileTrouble String

/-- Reads a file. -/
def readFound (path : String) : IO FoundFile := do
  try
    return .ok (← IO.FS.readFile path)
  catch e =>
    match e with
    | .noFileOrDirectory .. => return .error .notFound
    | .inappropriateType _ code _ =>
      return .error (if code = 20 then .notDirectory else .isDirectory)
    | e => return .error (.other (toString e))

/-- The surroundings of a command, given the current home directory and the files that were read. -/
def surroundings (home : Option String) (files : List (String × FoundFile)) : Surroundings where
  read := fun path => (files.lookup path).getD (.error .notFound)
  isFile := fun path =>
    match files.lookup path with
    | some (.ok _) => true
    | _ => false
  dumpReader := some (fun path =>
    match files.lookup path with
    | some (.ok text) => Program.listOfText text
    | _ => .error "cannot be read")
  home := fun user => if user.isEmpty then home else none

/-- The files that a request names, read. -/
def filesOf (home : Option String) (r : Request) : IO (List (String × FoundFile)) :=
  (r.config.toList ++ r.dumps).filterMapM (fun word => do
    match Text.expandHome (fun user => if user.isEmpty then home else none) word with
    | some path => return some (path, ← readFound path)
    | none => return none)

/-- Writes what a run is to write. -/
def writeOutput (out : Output) : IO Unit := do
  match out.file with
  | none => IO.print out.text
  | some path =>
    let steps := Text.stepsOf path.toList
    let parent := String.ofList (Text.pathOf (Text.rootOf path.toList) steps.dropLast)
    IO.FS.createDirAll parent
    IO.FS.writeFile path out.text

end DivisorCheck.Main

open DivisorCheck DivisorCheck.Command DivisorCheck.Main

/-- Runs the program. -/
def main (args : List String) : IO UInt32 := do
  match Request.ofArguments args with
  | .error ending =>
    match ending with
    | .version => IO.println versionText
    | .help => IO.println helpText
    | .misuse m => IO.eprintln ("divzero: error: " ++ m.message)
    return ending.exitCode.toUInt32
  | .ok request =>
    let home ← IO.getEnv "HOME"
    let files ← filesOf home request
    let outcome := run (surroundings home files) request
    for entry in outcome.log do
      IO.eprintln ("[" ++ entry.level.name ++ "] " ++ entry.source.name ++ ": " ++ entry.text)
    match outcome.output with
    | some out => writeOutput out
    | none => pure ()
    return outcome.exitCode.toUInt32
