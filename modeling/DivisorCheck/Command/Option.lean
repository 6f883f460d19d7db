/-
  The options of the command line, and how a word of it is recognised as one.

  A word that starts with a hyphen is an option if it is one of the spellings, or
  with an equals sign a spelling and a value.  A long spelling may be cut short as
  long as one option remains, and a short one may have more letters after it.
  Negative numbers, words with a blank and a hyphen on its own are no options, and
  neither is anything after two hyphens on their own.
-/
import DivisorCheck.Text.Digit
import DivisorCheck.Text.Parts

namespace DivisorCheck.Command

open DivisorCheck.Text

/-- An option that takes no value. -/
inductive Flag where
  | help
  | version
  | verbose
  | addon
  | flowValues
deriving DecidableEq, Repr

/-- An option that takes a value. -/
inductive ValueOption where
  | format
  | output
  | suppress
  | config
  | maxIterations
  | timeout
  | jobs
deriving DecidableEq, Repr

/-- An option. -/
inductive OptionName where
  | flag (f : Flag)
  | value (v : ValueOption)
deriving DecidableEq, Repr

/-- The spellings of the options. -/
def spellings : List (String × OptionName) := [
  ("-h", .flag .help),
  ("--help", .flag .help),
  ("--version", .flag .version),
  ("-v", .flag .verbose),
  ("--verbose", .flag .verbose),
  ("--format", .value .format),
  ("--cli", .flag .addon),
  ("-o", .value .output),
  ("--output", .value .output),
  ("--suppress", .value .suppress),
  ("--config", .value .config),
  ("--max-iterations", .value .maxIterations),
  ("--timeout", .value .timeout),
  ("--valueflow", .flag .flowValues),
  ("-j", .value .jobs),
  ("--jobs", .value .jobs)]

/-- The option of a spelling. -/
def optionOf? (s : String) : Option OptionName := spellings.lookup s

/-- All spellings of an option, for messages. -/
def OptionName.label (o : OptionName) : String :=
  "/".intercalate ((spellings.filter (·.2 == o)).map (·.1))

/-! ### Misuse -/

/-- What is wrong with a command line. -/
inductive Misuse where
  | ambiguous (given : String) (candidates : List String)
  | noValue (option : ValueOption)
  | needlessValue (flag : Flag) (text : String)
  | badValue (option : ValueOption) (kind text : String)
  | badChoice (option : ValueOption) (text : String) (choices : List String)
  | noDumps
  | unrecognized (words : List String)
deriving DecidableEq, Repr

/-! ### Words -/

/-- What is attached to an option in the same word, and whether an equals sign stands between. -/
structure Attached where
  text : List Char
  afterEquals : Bool
deriving DecidableEq, Repr

/-- A word of the command line. -/
inductive Word where
  | plain (s : String)
  /-- two hyphens on their own, the first time -/
  | endMark
  | option (name : OptionName) (isShort : Bool) (attached : Option Attached)
  | unknown (s : String)
deriving DecidableEq, Repr

/-- Is a spelling short: one hyphen and a letter? -/
def isShortSpelling (s : List Char) : Bool := s.drop 1 |>.head?.any (· != '-')

/-- What stands before and after the first equals sign. -/
def atEquals? (cs : List Char) : Option (List Char × List Char) :=
  if '=' ∈ cs then some (cs.takeWhile (· ≠ '='), (cs.dropWhile (· ≠ '=')).drop 1) else none

/-- The options that a word which is no spelling may stand for, with their spellings. -/
def candidates (cs : List Char) : List (String × Word) :=
  if isShortSpelling cs then
    (spellings.filter (fun e => e.1.toList = cs.take 2)).map (fun e =>
      (e.1, .option e.2 true (some ⟨cs.drop 2, false⟩)))
  else
    let front := cs.takeWhile (· ≠ '=')
    let attached := (atEquals? cs).map (fun e => ⟨e.2, true⟩)
    (spellings.filter (fun e => front.isPrefixOf e.1.toList)).map (fun e =>
      (e.1, .option e.2 false attached))

/-- Is it a hyphen with a decimal number after it, whole or with a point?  A line feed may follow. -/
def looksNegative : List Char → Bool
  | '-' :: cs =>
    let isDigit := fun c => (decimalDigit? c).isSome
    let body := if cs.getLast? = some '\n' then cs.dropLast else cs
    let fraction := body.dropWhile isDigit
    match fraction with
    | [] => !body.isEmpty
    | '.' :: places => !places.isEmpty && places.all isDigit
    | _ => false
  | _ => false

/-- Recognises a word that starts with a hyphen. -/
def hyphenWord (s : String) : Except Misuse Word :=
  let cs := s.toList
  match optionOf? s with
  | some name => .ok (.option name (isShortSpelling cs) none)
  | none =>
    if cs = ['-'] then .ok (.plain s)
    else
      let spelled := (atEquals? cs).bind (fun (front, value) =>
        (optionOf? (String.ofList front)).map (fun name =>
          Word.option name (isShortSpelling front) (some ⟨value, true⟩)))
      match spelled with
      | some word => .ok word
      | none =>
        match candidates cs with
        | [(_, word)] => .ok word
        | [] => .ok (if looksNegative cs || cs.contains ' ' then .plain s else .unknown s)
        | several => .error (.ambiguous s (several.map (·.1)))

/-- Recognises the words of a command line. -/
def wordsOf : List String → Except Misuse (List Word)
  | [] => .ok []
  | s :: rest =>
    if s = "--" then .ok (.endMark :: rest.map .plain)
    else do
      let word ← if s.toList.head? = some '-' then hyphenWord s else .ok (.plain s)
      return word :: (← wordsOf rest)

end DivisorCheck.Command
