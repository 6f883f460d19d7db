/-
  `Request` — what a command line asks for.

  The words are read from left to right.  An option takes effect where it stands,
  so that help or the version are shown even if something later is wrong.  The
  dump files must stand together: plain words after an option that follows them
  are not recognised.
-/
import DivisorCheck.Command.Option
import DivisorCheck.Decimal.Fraction
import DivisorCheck.Text.Numeral

namespace DivisorCheck.Command

open DivisorCheck.Text DivisorCheck.Decimal

/-- How findings are written. -/
inductive OutputFormat where
  | json
  | gcc
  | text
deriving DecidableEq, Repr

namespace OutputFormat

/-- The name of a format. -/
def name : OutputFormat → String
  | json => "json"
  | gcc => "gcc"
  | text => "text"

/-- All formats. -/
def all : List OutputFormat := [json, gcc, text]

/-- The format of a name. -/
def ofName? (s : String) : Option OutputFormat := all.find? (·.name == s)

end OutputFormat

/-- What a command line asks for. -/
structure Request where
  dumps : List String := []
  /-- how often more log was asked for -/
  verbosity : Nat := 0
  format : OutputFormat := .text
  /-- is the command an addon, which answers one JSON object a line? -/
  asAddon : Bool := false
  output : Option String := none
  suppress : List String := []
  config : Option String := none
  maxIterations : Option Int := none
  timeout : Option Binary64 := none
  useFlowValues : Bool := false
  jobs : Option Int := none
deriving Repr, DecidableEq

/-- Why no request comes of a command line. -/
inductive Ending where
  | help
  | version
  | misuse (m : Misuse)
deriving Repr, DecidableEq

/-! ### Taking options -/

/-- The effect of an option without value. -/
def Request.setFlag (r : Request) : Flag → Except Ending Request
  | .help => .error .help
  | .version => .error .version
  | .verbose => .ok { r with verbosity := r.verbosity + 1 }
  | .addon => .ok { r with asAddon := true }
  | .flowValues => .ok { r with useFlowValues := true }

/-- The effect of several options without value. -/
def Request.setFlags (r : Request) (fs : List Flag) : Except Ending Request := fs.foldlM setFlag r

/-- Reads the value of an option as an integer. -/
def integerValue (o : ValueOption) (s : String) : Except Ending Int :=
  match readDecimal s with
  | .ok n => .ok n
  | .error _ => .error (.misuse (.badValue o "int" s))

/-- Reads the value of an option as a number. -/
def numberValue (o : ValueOption) (s : String) : Except Ending Binary64 :=
  match readFraction s with
  | .ok x => .ok x
  | .error _ => .error (.misuse (.badValue o "float" s))

/-- The effect of an option with its value. -/
def Request.setValue (r : Request) (o : ValueOption) (s : String) : Except Ending Request :=
  match o with
  | .format =>
    match OutputFormat.ofName? s with
    | some format => .ok { r with format }
    | none => .error (.misuse (.badChoice o s (OutputFormat.all.map (·.name))))
  | .output => .ok { r with output := some s }
  | .suppress => .ok { r with suppress := r.suppress ++ [s] }
  | .config => .ok { r with config := some s }
  | .maxIterations => (integerValue o s).map (fun n => { r with maxIterations := some n })
  | .timeout => (numberValue o s).map (fun x => { r with timeout := some x })
  | .jobs => (integerValue o s).map (fun n => { r with jobs := some n })

/-- What an option word asks for: flags, then perhaps an option with its value or with the value
still to come, and perhaps letters that are no options. -/
structure Asked where
  flags : List Flag := []
  value : Option (ValueOption × Option String) := none
  leftover : Option String := none

/-- What a short flag with more letters after it asks for. -/
def bundle (f : Flag) : List Char → Except Misuse Asked
  | [] => .error (.needlessValue f "")
  | c :: rest =>
    if c = '-' then .error (.needlessValue f (String.ofList (c :: rest)))
    else match optionOf? (String.ofList ['-', c]) with
      | none => .ok { flags := [f], leftover := some (String.ofList ('-' :: c :: rest)) }
      | some (.value v) =>
        let value := match rest with
          | [] => none
          | '=' :: text => some (String.ofList text)
          | text => some (String.ofList text)
        .ok { flags := [f], value := some (v, value) }
      | some (.flag g) =>
        match rest with
        | [] => .ok { flags := [f, g] }
        | '=' :: text => .error (.needlessValue g (String.ofList text))
        | _ => (bundle g rest).map (fun a => { a with flags := f :: a.flags })

/-- What an option word asks for. -/
def askedBy (name : OptionName) (isShort : Bool) (attached : Option Attached) :
    Except Misuse Asked :=
  match name, attached with
  | .value v, none => .ok { value := some (v, none) }
  | .value v, some a => .ok { value := some (v, some (String.ofList a.text)) }
  | .flag f, none => .ok { flags := [f] }
  | .flag f, some a =>
    if isShort && !a.afterEquals then bundle f a.text
    else .error (.needlessValue f (String.ofList a.text))

/-! ### Reading all words -/

/-- Where reading is with the dump files. -/
inductive DumpWords where
  | awaited
  | taking
  | taken
deriving DecidableEq, Repr

/-- What has been read. -/
structure Reading where
  request : Request := {}
  /-- an option whose value comes next, with the flags that take effect before it -/
  pending : Option (List Flag × ValueOption) := none
  dumps : DumpWords := .awaited
  /-- the words that were not recognised -/
  extras : List String := []

/-- Reads one word. -/
def Reading.step (r : Reading) (w : Word) : Except Ending Reading :=
  match r.pending, w with
  | some (flags, o), .plain s => do
    let request ← r.request.setFlags flags
    let request ← request.setValue o s
    return { r with request, pending := none }
  | some (_, o), _ => .error (.misuse (.noValue o))
  | none, .plain s =>
    if r.dumps = .taken then .ok { r with extras := r.extras ++ [s] }
    else .ok {
      r with
      dumps := .taking
      request := { r.request with dumps := r.request.dumps ++ [s] } }
  | none, .endMark =>
    if r.dumps = .taken then .ok { r with extras := r.extras ++ ["--"] } else .ok r
  | none, w => do
    let r := if r.dumps = .taking then { r with dumps := .taken } else r
    match w with
    | .option name isShort attached =>
      match askedBy name isShort attached with
      | .error m => .error (.misuse m)
      | .ok asked =>
        let r := { r with extras := r.extras ++ asked.leftover.toList }
        match asked.value with
        | some (o, none) => return { r with pending := some (asked.flags, o) }
        | some (o, some s) =>
          let request ← r.request.setFlags asked.flags
          return { r with request := (← request.setValue o s) }
        | none => return { r with request := (← r.request.setFlags asked.flags) }
    | .unknown s => return { r with extras := r.extras ++ [s] }
    | _ => return r

/-- What has been read, once there are no more words. -/
def Reading.finish (r : Reading) : Except Ending Request :=
  match r.pending with
  | some (_, o) => .error (.misuse (.noValue o))
  | none =>
    if r.dumps = .awaited then .error (.misuse .noDumps)
    else if r.extras ≠ [] then .error (.misuse (.unrecognized r.extras))
    else .ok r.request

/-- Reads a command line. -/
def Request.ofArguments (args : List String) : Except Ending Request :=
  match wordsOf args with
  | .error m => .error (.misuse m)
  | .ok words => do
    let r ← words.foldlM Reading.step {}
    r.finish

/-- What is wrong with a command line, in words. -/
def Misuse.message : Misuse → String
  | ambiguous given candidates =>
    "ambiguous option: " ++ given ++ " could match " ++ ", ".intercalate candidates
  | noValue o => "argument " ++ (OptionName.value o).label ++ ": expected one argument"
  | needlessValue f text =>
    "argument " ++ (OptionName.flag f).label ++ ": ignored explicit argument " ++ quoted text
  | badValue o kind text =>
    "argument " ++ (OptionName.value o).label ++ ": invalid " ++ kind ++ " value: " ++ quoted text
  | badChoice o text choices =>
    "argument " ++ (OptionName.value o).label ++ ": invalid choice: " ++ quoted text
      ++ " (choose from " ++ ", ".intercalate (choices.map quoted) ++ ")"
  | noDumps => "the following arguments are required: DUMP"
  | unrecognized words => "unrecognized arguments: " ++ " ".intercalate words

end DivisorCheck.Command
