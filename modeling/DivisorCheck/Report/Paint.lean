/-
  Colour on a terminal.

  A painted text starts with the code of its style, then that of its colour, and
  ends with the code that resets both.
-/
namespace DivisorCheck.Report

/-- A colour of a terminal. -/
inductive Colour where
  | red
  | yellow
  | blue
  | magenta
  | cyan
  | white
deriving DecidableEq, Repr

/-- The number of a colour. -/
def Colour.code : Colour → Nat
  | red => 31
  | yellow => 33
  | blue => 34
  | magenta => 35
  | cyan => 36
  | white => 97

/-- A style of a terminal. -/
inductive Style where
  | bold
  | dark
  | underline
deriving DecidableEq, Repr

/-- The number of a style. -/
def Style.code : Style → Nat
  | bold => 1
  | dark => 2
  | underline => 4

/-- The code that sets what a number stands for; zero resets everything. -/
def escapeCode (n : Nat) : String := "\x1b[" ++ toString n ++ "m"

/-- Paints a text, if colour is on. -/
def paint (on : Bool) (style : Style) (colour : Option Colour) (s : String) : String :=
  if on then
    let coloured := match colour with
      | some c => escapeCode c.code ++ s
      | none => s
    escapeCode style.code ++ coloured ++ escapeCode 0
  else s

end DivisorCheck.Report
