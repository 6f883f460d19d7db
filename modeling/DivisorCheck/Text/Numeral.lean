/-
  Numerals: integers as people write them into settings, options and programs.

  A numeral may stand between blanks and carry a sign.  Its digits may be those
  of any script, and single underscores may stand between them.  In base 16, 8
  and 2 the marker of that base (`0x`, `0o`, `0b`) may come first, with one
  underscore after it.
-/
import DivisorCheck.Text.Blank
import DivisorCheck.Text.Digit
import DivisorCheck.Text.Quoted

namespace DivisorCheck.Text

/-- The value of a digit in bases up to 36: a decimal digit of any script, or a letter of ASCII. -/
def digitValue? (c : Char) : Option Nat :=
  match decimalDigit? c with
  | some d => some d
  | none =>
    if 'a' ≤ c ∧ c ≤ 'z' then some (c.toNat - 'a'.toNat + 10)
    else if 'A' ≤ c ∧ c ≤ 'Z' then some (c.toNat - 'A'.toNat + 10)
    else none

/-- The value of a digit of the given base. -/
def digitIn? (base : Nat) (c : Char) : Option Nat :=
  (digitValue? c).bind (fun d => if d < base then some d else none)

/-- Reads digits with single underscores between them, `value` being what came before; a digit
must come next. -/
def digitsValue? (base value : Nat) : List Char → Option Nat
  | [] => none
  | c :: rest =>
    match digitIn? base c with
    | none => none
    | some d =>
      match rest with
      | [] => some (value * base + d)
      | '_' :: rest' => digitsValue? base (value * base + d) rest'
      | c' :: rest' => digitsValue? base (value * base + d) (c' :: rest')

/-- The letter that marks a base. -/
def baseMark? : Nat → Option Char
  | 16 => some 'x'
  | 8 => some 'o'
  | 2 => some 'b'
  | _ => none

/-- Removes the marker of the base, with one underscore after it. -/
def dropBaseMark (base : Nat) : List Char → List Char
  | z :: m :: rest =>
    if decimalDigit? z = some 0 ∧ some m.toLower = baseMark? base then
      match rest with
      | '_' :: rest' => rest'
      | _ => rest
    else z :: m :: rest
  | cs => cs

/-- Splits a sign off; `true` for a minus. -/
def splitSign : List Char → Bool × List Char
  | '-' :: rest => (true, rest)
  | '+' :: rest => (false, rest)
  | cs => (false, cs)

/-- Reads an integer in the given base. -/
def readInt? (base : Nat) (text : String) : Option Int :=
  let (negative, cs) := splitSign (trimBy isSpace text.toList)
  (digitsValue? base 0 (dropBaseMark base cs)).map (fun n => if negative then -(n : Int) else n)

/-- Why a text is refused as a number. -/
inductive NumeralError where
  /-- not a decimal integer -/
  | notInteger (text : String)
  /-- a decimal integer with more digits than `digitLimit` -/
  | tooManyDigits (count : Nat)
  /-- not a decimal fraction -/
  | notFraction (text : String)
deriving DecidableEq, Repr

/-- The most digits that a decimal integer in settings may have. -/
def digitLimit : Nat := 4300

/-- The text of the error. -/
def NumeralError.message : NumeralError → String
  | notInteger text => "invalid literal for int() with base 10: " ++ quoted text
  | tooManyDigits count =>
    "Exceeds the limit (" ++ toString digitLimit ++ " digits) for integer string conversion: value has "
      ++ toString count ++ " digits; use sys.set_int_max_str_digits() to increase the limit"
  | notFraction text => "could not convert string to float: " ++ quoted text

/-- Reads a decimal integer of at most `digitLimit` digits. -/
def readDecimal (text : String) : Except NumeralError Int :=
  match readInt? 10 text with
  | none => .error (.notInteger text)
  | some n =>
    let count := (text.toList.filter (fun c => (decimalDigit? c).isSome)).length
    if count ≤ digitLimit then .ok n else .error (.tooManyDigits count)

end DivisorCheck.Text
