/-
  Quoted text: how a message shows a piece of text that came from outside.

  Single quotes enclose it, unless it holds a single quote and no double one.
  The quote in use and the backslash are written after a backslash, tab, line
  feed and carriage return by their letters, and every other character that is
  not printable by its code point, in as few as two, four or eight hexadecimal
  digits.
-/
import DivisorCheck.Text.Printable

namespace DivisorCheck.Text

/-- The last `width` hexadecimal digits of a number, in small letters. -/
def hexDigits (width n : Nat) : List Char :=
  ((List.range width).map (fun i => Nat.digitChar (n / Nat.pow 16 i % 16))).reverse

/-- The quote that encloses a text. -/
def quoteFor (cs : List Char) : Char := if '\'' ∈ cs ∧ '"' ∉ cs then '"' else '\''

/-- One character inside quotes. -/
def quoteChar (quote c : Char) : List Char :=
  if c = quote ∨ c = '\\' then ['\\', c]
  else if c = '\t' then ['\\', 't']
  else if c = '\n' then ['\\', 'n']
  else if c = '\r' then ['\\', 'r']
  else if isPrintable c then [c]
  else if c.toNat < 0x100 then '\\' :: 'x' :: hexDigits 2 c.toNat
  else if c.toNat < 0x10000 then '\\' :: 'u' :: hexDigits 4 c.toNat
  else '\\' :: 'U' :: hexDigits 8 c.toNat

/-- A text in quotes. -/
def quoted (s : String) : String :=
  let cs := s.toList
  let quote := quoteFor cs
  String.ofList (quote :: cs.flatMap (quoteChar quote) ++ [quote])

end DivisorCheck.Text
