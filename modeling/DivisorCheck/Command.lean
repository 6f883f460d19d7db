/-
  The command: checks the dump files that a request names, under the settings
  that it gives, and says what to write, what to log and how to exit.

  It asks its surroundings for files and does not touch them itself.  The exit
  code is 2 if something prevents the check, and otherwise 1 if there are
  findings; as an addon, where the findings are read by a program, it is 0.
-/
import DivisorCheck.Check
import DivisorCheck.Command.Request
import DivisorCheck.Report
import DivisorCheck.Settings.Reader

namespace DivisorCheck.Command

open DivisorCheck.Text

/-! ### Surroundings -/

/-- Why a file cannot be read. -/
inductive FileTrouble where
  | notFound
  | notDirectory
  | isDirectory
  /-- anything else, in the system's words -/
  | other (text : String)
deriving DecidableEq, Repr

/-- The trouble with a file, in words. -/
def FileTrouble.message (path : String) : FileTrouble → String
  | notFound => "[Errno 2] No such file or directory: " ++ quoted path
  | notDirectory => "[Errno 20] Not a directory: " ++ quoted path
  | isDirectory => "[Errno 21] Is a directory: " ++ quoted path
  | other text => text

/-- What the command may ask for. -/
structure Surroundings where
  /-- the text of a file -/
  read : String → Except FileTrouble String
  isFile : String → Bool
  /-- reads a dump file, if that can be done at all; an error comes in words -/
  dumpReader : Option (String → Except String (List Program))
  /-- the home directory of a user, the current one if no name is given -/
  home : String → Option String
  /-- how time passes for the programs of a dump file, by their places in it -/
  timings : String → Nat → Timing := fun _ _ => .still

/-! ### Steps -/

/-- What has happened so far. -/
structure Progress where
  log : List LogEntry := []
  /-- the dump files that were read -/
  parsed : List String := []

/-- A step of the command, which may put an end to it. -/
abbrev Step := ExceptT Unit (StateM Progress)

/-- Adds entries to the log. -/
def tell (entries : List LogEntry) : Step Unit :=
  modify (fun s => { s with log := s.log ++ entries })

/-- Adds an entry of the command itself to the log. -/
def say (level : LogLevel) (text : String) : Step Unit := tell [⟨level, .command, text⟩]

/-- Ends the command with an error. -/
def fail {α : Type} (text : String) : Step α := do
  say .error text
  throw ()

/-- Ends the command with an error that nothing provides for. -/
def crash {α : Type} (text : String) : Step α := fail ("Unhandled exception: " ++ text)

/-- Refuses settings. -/
def rejectSettings {α : Type} (e : SettingsError) : Step α :=
  if e.isExpected then fail e.message else crash e.message

variable (w : Surroundings) (r : Request)

/-- The path that a word of the command line means. -/
def pathOf (word : String) : Step String :=
  match expandHome w.home word with
  | some path => pure path
  | none => crash "Could not determine home directory."

/-- What the log tells about settings that were read from a file. -/
def loadedEntries (path : String) (s : Settings) : List LogEntry :=
  s.warnings.map (fun text => ⟨.warning, .settings, path ++ ": " ++ text⟩)
    ++ [⟨.info, .settings, "loaded configuration from " ++ path⟩]

/-- Reads settings from a file, and warns. -/
def loadSettings (word : String) : Step Settings := do
  let path ← pathOf w word
  match w.read path with
  | .error trouble => rejectSettings (.unreadable path (trouble.message path))
  | .ok text =>
    match Settings.ofText path text with
    | .error e => rejectSettings e
    | .ok settings =>
      tell (loadedEntries path settings)
      return settings

/-- Settings changed as the command line says. -/
def override (s : Settings) : Settings :=
  { s with
    maxIterations := r.maxIterations.getD s.maxIterations
    timeout := (r.timeout.map .fraction).or s.timeout
    useFlowValues := r.useFlowValues || s.useFlowValues
    jobs := r.jobs.getD s.jobs }

/-- The settings: those of a file, if one is named, changed as the command line says. -/
def settings : Step Settings := do
  let base ← match r.config.filter (!·.isEmpty) with
    | some word => loadSettings w word
    | none => pure {}
  let s := override r base
  match s.validate with
  | .error e => rejectSettings e
  | .ok warnings =>
    tell (warnings.map (fun text => ⟨.warning, .command, "configuration: " ++ text⟩))
    return s

/-- Checks one dump file. -/
def checkDump (reader : String → Except String (List Program)) (s : Settings)
    (session : CheckSession) (word : String) : Step CheckSession := do
  let path ← pathOf w word
  if !w.isFile path then fail ("dump file not found: " ++ path)
  say .info ("Parsing dump file: " ++ path)
  modify (fun st => { st with parsed := st.parsed ++ [path] })
  match reader path with
  | .error text => fail ("Failed to parse dump file " ++ path ++ ": " ++ text)
  | .ok programs =>
    let (session, error) := CheckSession.run s { session with log := [] } programs (w.timings path)
    tell session.log
    match error with
    | some e => crash e.message
    | none => return session

/-- The dump files to check.  As an addon the command also gets other files, and passes them over. -/
def dumpsToCheck : List String :=
  r.dumps.filter (fun f => !r.asAddon || ".dump".toList.isSuffixOf f.toList)

/-- Findings as a text of lines, empty if there are none. -/
def linesOf (lines : List Finding → String) (fs : List Finding) : String :=
  if fs.isEmpty then "" else lines fs ++ "\n"

/-- Findings in a format. -/
def outputText (format : OutputFormat) (fs : List Finding) : String :=
  match format with
  | .json => linesOf Finding.jsonLines fs
  | .gcc => linesOf Finding.compilerLines fs
  | .text => Report.text false fs

/-- What to write. -/
structure Output where
  /-- the file to write to; the standard output if there is none -/
  file : Option String
  text : String
deriving DecidableEq, Repr

/-- Runs the command up to what it writes and the exit code. -/
def steps : Step (Output × Nat) := do
  let s ← settings w r
  match Suppressions.addSpecs [] r.suppress with
  | .error e => crash e.message
  | .ok suppressions =>
    match w.dumpReader with
    | none =>
      fail ("cppcheckdata is not installed.  "
        ++ "Install cppcheck or add its addons directory to PYTHONPATH.")
    | some reader =>
      let session ← (dumpsToCheck r).foldlM (checkDump w reader s) { suppressions }
      let findings := session.results.findings
      say .info session.results.summary
      if r.asAddon then return ({ file := none, text := linesOf Finding.jsonLines findings }, 0)
      else
        let file ← match r.output.filter (· ≠ "-") with
          | some word => some <$> pathOf w word
          | none => pure none
        return ({ file, text := outputText r.format findings }, if findings.isEmpty then 0 else 1)

/-- What comes of a run. -/
structure Outcome where
  exitCode : Nat
  /-- what to write; nothing if the check was prevented -/
  output : Option Output
  /-- the log from the level on that was asked for -/
  log : List LogEntry
  parsed : List String

/-- Runs the command. -/
def run : Outcome :=
  let (result, progress) := (steps w r).run.run {}
  let log := LogEntry.from (.ofVerbosity r.verbosity) progress.log
  match result with
  | .ok (output, exitCode) => { exitCode, output := some output, log, parsed := progress.parsed }
  | .error () => { exitCode := 2, output := none, log, parsed := progress.parsed }

/-- The text that tells the version. -/
def versionText : String := "divzero 0.1.0"

/-- The text that tells the options. -/
def helpText : String :=
  "usage: divzero [options] DUMP [DUMP ...]\n\n"
    ++ "Flag integer divisions whose divisor is not proven nonzero.\n\noptions:\n"
    ++ "\n".intercalate (spellings.map (fun e => "  " ++ e.1))

/-- The exit code of a command line from which no request comes. -/
def Ending.exitCode : Ending → Nat
  | .help | .version => 0
  | .misuse _ => 2

end DivisorCheck.Command
