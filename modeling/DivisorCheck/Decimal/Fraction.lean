/-
  Reading decimal fractions: a sign, digits with an optional point, an optional
  exponent; or the words for infinity and not-a-number in letters of either case.

  Blanks may stand around the number, its digits may be those of any script, and
  an underscore may stand between two digits.
-/
import DivisorCheck.Decimal.Binary64
import DivisorCheck.Text.Numeral

namespace DivisorCheck.Decimal

open DivisorCheck.Text

/-- Replaces digits of all scripts by those of ASCII. -/
def asciiDigit (c : Char) : Char :=
  match decimalDigit? c with
  | some d => Nat.digitChar d
  | none => c

/-- Removes underscores, each of which must stand between two digits; `afterDigit` says whether the
last character was one. -/
def dropUnderscores? (afterDigit : Bool) : List Char → Option (List Char)
  | [] => some []
  | '_' :: c :: rest =>
    if afterDigit && c.isDigit then (dropUnderscores? true rest).map (c :: ·) else none
  | '_' :: [] => none
  | c :: rest => (dropUnderscores? c.isDigit rest).map (c :: ·)

/-- The value of a run of ASCII digits. -/
def digitsToNat (cs : List Char) : Nat := cs.foldl (fun n c => n * 10 + (c.toNat - '0'.toNat)) 0

/-- Reads the exponent part, which may be absent. -/
def readExponent? : List Char → Option Int
  | [] => some 0
  | e :: rest =>
    if e = 'e' ∨ e = 'E' then
      let (negative, cs) := splitSign rest
      if cs ≠ [] ∧ cs.all Char.isDigit then
        some (if negative then -(digitsToNat cs : Int) else digitsToNat cs)
      else none
    else none

/-- Reads an unsigned number in ASCII digits. -/
def readUnsigned? (negative : Bool) (cs : List Char) : Option Binary64 :=
  let word := String.ofList (cs.map Char.toLower)
  if word = "inf" ∨ word = "infinity" then some (.infinite negative)
  else if word = "nan" then some .nan
  else
    let whole := cs.takeWhile Char.isDigit
    let rest := cs.dropWhile Char.isDigit
    let (part, rest) := match rest with
      | '.' :: rest' => (rest'.takeWhile Char.isDigit, rest'.dropWhile Char.isDigit)
      | _ => ([], rest)
    if whole = [] ∧ part = [] then none
    else (readExponent? rest).map (fun e =>
      .ofScientific negative (digitsToNat (whole ++ part)) (e - part.length))

/-- Reads a decimal fraction. -/
def readFraction? (text : String) : Option Binary64 :=
  let cs := trimBy isSpace text.toList
  match dropUnderscores? false (cs.map asciiDigit) with
  | none => none
  | some cs =>
    let (negative, cs) := splitSign cs
    readUnsigned? negative cs

/-- Reads a decimal fraction, or says that the text is none. -/
def readFraction (text : String) : Except NumeralError Binary64 :=
  match readFraction? text with
  | some x => .ok x
  | none => .error (.notFraction text)

end DivisorCheck.Decimal
