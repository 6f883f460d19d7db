/-
  Reading JSON, strictly except for three words: `NaN`, `Infinity` and
  `-Infinity` are numbers too.

  The reader works on what is left of the text.  An error carries its cause and
  what was left at the fault, from which `SyntaxError.line` counts the line.
-/
import DivisorCheck.Json.Value
import DivisorCheck.Decimal.Fraction

namespace DivisorCheck.Json

open DivisorCheck.Decimal DivisorCheck.Text

/-- What is wrong with a text. -/
inductive SyntaxFault where
  | byteOrderMark
  | noValue
  | noPropertyName
  | noColon
  | noComma
  | extraData
  | openString
  | controlCharacter
  | badEscape
  | badCodeEscape
  /-- an integer with more digits than `digitLimit` -/
  | longInteger (count : Nat)
deriving DecidableEq, Repr

/-- The text of the fault. -/
def SyntaxFault.message : SyntaxFault → String
  | byteOrderMark => "Unexpected UTF-8 BOM (decode using utf-8-sig)"
  | noValue => "Expecting value"
  | noPropertyName => "Expecting property name enclosed in double quotes"
  | noColon => "Expecting ':' delimiter"
  | noComma => "Expecting ',' delimiter"
  | extraData => "Extra data"
  | openString => "Unterminated string starting at"
  | controlCharacter => "Invalid control character at"
  | badEscape => "Invalid \\escape"
  | badCodeEscape => "Invalid \\uXXXX escape"
  | longInteger count => (NumeralError.tooManyDigits count).message

/-- A fault, and what was left of the text where it lies. -/
structure SyntaxError where
  fault : SyntaxFault
  rest : List Char
deriving Repr

/-- The line of the fault in the text that was read, counted from one. -/
def SyntaxError.line (e : SyntaxError) (text : List Char) : Nat :=
  (text.take (text.length - e.rest.length)).count '\n' + 1

/-! ### Pieces -/

/-- Drops the white space of JSON. -/
def skipSpace (cs : List Char) : List Char :=
  cs.dropWhile (fun c => c = ' ' ∨ c = '\t' ∨ c = '\n' ∨ c = '\r')

/-- The value of a hexadecimal digit. -/
def hexValue? (c : Char) : Option Nat :=
  if '0' ≤ c ∧ c ≤ '9' then some (c.toNat - 48)
  else if 'a' ≤ c ∧ c ≤ 'f' then some (c.toNat - 87)
  else if 'A' ≤ c ∧ c ≤ 'F' then some (c.toNat - 55)
  else none

/-- The value of four hexadecimal digits, and what follows them. -/
def hexQuad? : List Char → Option (Nat × List Char)
  | a :: b :: c :: d :: rest => do
    let a ← hexValue? a
    let b ← hexValue? b
    let c ← hexValue? c
    let d ← hexValue? d
    some (((a * 16 + b) * 16 + c) * 16 + d, rest)
  | _ => none

/-- The character of a code point; half of a surrogate pair on its own has none and is replaced. -/
def charOf (n : Nat) : Char := if n.isValidChar then Char.ofNat n else '\ufffd'

/-- The character that an escape letter stands for. -/
def escapeLetter? : Char → Option Char
  | '"' => some '"'
  | '\\' => some '\\'
  | '/' => some '/'
  | 'b' => some '\x08'
  | 'f' => some '\x0c'
  | 'n' => some '\n'
  | 'r' => some '\r'
  | 't' => some '\t'
  | _ => none

/-- Reads a code escape, `cs` being what follows the letter `u`.  A high surrogate takes a low one
with it when that follows as an escape and is not the last thing in the text. -/
def codeEscape (cs : List Char) : Except SyntaxError (Char × List Char) :=
  if cs.length ≤ 4 then .error ⟨.badCodeEscape, 'u' :: cs⟩
  else match hexQuad? cs with
    | none => .error ⟨.badCodeEscape, 'u' :: cs⟩
    | some (high, rest) =>
      let alone := .ok (charOf high, rest)
      if 0xD800 ≤ high ∧ high < 0xDC00 ∧ 6 < rest.length then
        match rest with
        | '\\' :: 'u' :: rest' =>
          match hexQuad? rest' with
          | none => .error ⟨.badCodeEscape, 'u' :: rest'⟩
          | some (low, rest'') =>
            if 0xDC00 ≤ low ∧ low < 0xE000 then
              .ok (charOf (0x10000 + (high - 0xD800) * 0x400 + (low - 0xDC00)), rest'')
            else alone
        | _ => alone
      else alone

/-- Reads a string up to its closing quote.  `start` is the text from the opening quote on and
`done` holds the characters before `cs`, last first; `fuel` bounds the length. -/
def stringFrom (start : List Char) :
    Nat → List Char → List Char → Except SyntaxError (String × List Char)
  | 0, _, _ => .error ⟨.openString, start⟩
  | _ + 1, _, [] => .error ⟨.openString, start⟩
  | _ + 1, done, '"' :: rest => .ok (String.ofList done.reverse, rest)
  | _ + 1, _, '\\' :: [] => .error ⟨.openString, start⟩
  | fuel + 1, done, '\\' :: 'u' :: rest =>
    match codeEscape rest with
    | .error e => .error e
    | .ok (c, rest') => stringFrom start fuel (c :: done) rest'
  | fuel + 1, done, '\\' :: e :: rest =>
    match escapeLetter? e with
    | none => .error ⟨.badEscape, '\\' :: e :: rest⟩
    | some c => stringFrom start fuel (c :: done) rest
  | fuel + 1, done, c :: rest =>
    if c.toNat < 32 then .error ⟨.controlCharacter, c :: rest⟩
    else stringFrom start fuel (c :: done) rest

/-- Reads a string, `cs` being what follows its opening quote. -/
def readString (cs : List Char) : Except SyntaxError (String × List Char) :=
  stringFrom ('"' :: cs) (cs.length + 1) [] cs

/-- Splits the digits of ASCII off the front. -/
def splitDigits (cs : List Char) : List Char × List Char :=
  (cs.takeWhile Char.isDigit, cs.dropWhile Char.isDigit)

/-- The whole part of a number: zero alone, or digits that start with another one. -/
def wholePart? : List Char → Option (List Char × List Char)
  | '0' :: rest => some (['0'], rest)
  | cs =>
    match splitDigits cs with
    | ([], _) => none
    | parts => some parts

/-- The point and the digits after it, if both are there. -/
def fractionPart : List Char → List Char × List Char
  | '.' :: rest =>
    match splitDigits rest with
    | ([], _) => ([], '.' :: rest)
    | (digits, rest') => ('.' :: digits, rest')
  | cs => ([], cs)

/-- The exponent, if it has a digit. -/
def exponentPart : List Char → List Char × List Char
  | [] => ([], [])
  | e :: rest =>
    if e = 'e' ∨ e = 'E' then
      let (sign, rest') := match rest with
        | '+' :: r => (['+'], r)
        | '-' :: r => (['-'], r)
        | r => ([], r)
      match splitDigits rest' with
      | ([], _) => ([], e :: rest)
      | (digits, rest'') => (e :: sign ++ digits, rest'')
    else ([], e :: rest)

/-- Reads a number: an integer unless it has a fraction or an exponent. -/
def readNumber? (cs : List Char) : Option (Except SyntaxFault (Value × List Char)) :=
  let (negative, unsigned) := match cs with
    | '-' :: rest => (true, rest)
    | _ => (false, cs)
  match wholePart? unsigned with
  | none => none
  | some (whole, rest) =>
    let (fraction, rest) := fractionPart rest
    let (exponent, rest) := exponentPart rest
    if fraction = [] ∧ exponent = [] then
      let n : Int := digitsToNat whole
      if whole.length ≤ digitLimit then some (.ok (.int (if negative then -n else n), rest))
      else some (.error (.longInteger whole.length))
    else
      (readUnsigned? negative (whole ++ fraction ++ exponent)).map (fun x => .ok (.real x, rest))

/-- Reads one of the words that are values. -/
def readWord? : List Char → Option (Value × List Char)
  | 'n' :: 'u' :: 'l' :: 'l' :: rest => some (.null, rest)
  | 't' :: 'r' :: 'u' :: 'e' :: rest => some (.bool true, rest)
  | 'f' :: 'a' :: 'l' :: 's' :: 'e' :: rest => some (.bool false, rest)
  | 'N' :: 'a' :: 'N' :: rest => some (.real .nan, rest)
  | 'I' :: 'n' :: 'f' :: 'i' :: 'n' :: 'i' :: 't' :: 'y' :: rest =>
    some (.real (.infinite false), rest)
  | '-' :: 'I' :: 'n' :: 'f' :: 'i' :: 'n' :: 'i' :: 't' :: 'y' :: rest =>
    some (.real (.infinite true), rest)
  | _ => none

/-! ### Values -/

mutual
/-- Reads a value from the front of the text; `fuel` bounds the nesting. -/
def readValue : Nat → List Char → Except SyntaxError (Value × List Char)
  | 0, cs => .error ⟨.noValue, cs⟩
  | fuel + 1, cs =>
    match cs with
    | '"' :: rest => (readString rest).map (fun (s, rest) => (.string s, rest))
    | '[' :: rest =>
      match skipSpace rest with
      | ']' :: rest => .ok (.list [], rest)
      | rest => readItems fuel [] rest
    | '{' :: rest =>
      match skipSpace rest with
      | '}' :: rest => .ok (.object [], rest)
      | rest => readFields fuel [] rest
    | _ =>
      match ((readWord? cs).map .ok).orElse (fun _ => readNumber? cs) with
      | some (.ok found) => .ok found
      | some (.error fault) => .error ⟨fault, cs⟩
      | none => .error ⟨.noValue, cs⟩

/-- Reads the items of a list up to its closing bracket, `done` being those before, last first. -/
def readItems : Nat → List Value → List Char → Except SyntaxError (Value × List Char)
  | 0, _, cs => .error ⟨.noValue, cs⟩
  | fuel + 1, done, cs =>
    match readValue fuel cs with
    | .error e => .error e
    | .ok (v, rest) =>
      match skipSpace rest with
      | ']' :: rest => .ok (.list (v :: done).reverse, rest)
      | ',' :: rest => readItems fuel (v :: done) (skipSpace rest)
      | rest => .error ⟨.noComma, rest⟩

/-- Reads the fields of an object up to its closing brace, `done` being those before. -/
def readFields : Nat → List (String × Value) → List Char → Except SyntaxError (Value × List Char)
  | 0, _, cs => .error ⟨.noPropertyName, cs⟩
  | fuel + 1, done, cs =>
    match cs with
    | '"' :: rest =>
      match readString rest with
      | .error e => .error e
      | .ok (name, rest) =>
        match skipSpace rest with
        | ':' :: rest =>
          match readValue fuel (skipSpace rest) with
          | .error e => .error e
          | .ok (v, rest) =>
            match skipSpace rest with
            | '}' :: rest => .ok (.object (setField name v done), rest)
            | ',' :: rest => readFields fuel (setField name v done) (skipSpace rest)
            | rest => .error ⟨.noComma, rest⟩
        | rest => .error ⟨.noColon, rest⟩
    | _ => .error ⟨.noPropertyName, cs⟩
end

/-- Reads a text that holds one value. -/
def read (text : List Char) : Except SyntaxError Value :=
  match text with
  | '\ufeff' :: _ => .error ⟨.byteOrderMark, text⟩
  | _ =>
    match readValue (2 * text.length + 2) (skipSpace text) with
    | .error e => .error e
    | .ok (v, rest) =>
      match skipSpace rest with
      | [] => .ok v
      | rest => .error ⟨.extraData, rest⟩

end DivisorCheck.Json
