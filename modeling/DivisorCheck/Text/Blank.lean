/-
  Blank characters: the white space of Unicode, and the four information
  separators U+001C to U+001F which text trimming counts as white space too.
-/
namespace DivisorCheck.Text

/-- White space of Unicode; the information separators are not among it. -/
def isSpace (c : Char) : Bool :=
  let n := c.toNat
  (9 ≤ n && n ≤ 13) || n == 32 || n == 0x85 || n == 0xA0 || n == 0x1680
    || (0x2000 ≤ n && n ≤ 0x200A) || n == 0x2028 || n == 0x2029 || n == 0x202F
    || n == 0x205F || n == 0x3000

/-- What trimming removes: white space and the information separators. -/
def isBlank (c : Char) : Bool := isSpace c || (0x1C ≤ c.toNat && c.toNat ≤ 0x1F)

/-- Removes the characters that pass the test from both ends. -/
def trimBy (p : Char → Bool) (cs : List Char) : List Char :=
  ((cs.dropWhile p).reverse.dropWhile p).reverse

/-- Removes blanks from both ends. -/
def trim (s : String) : String := String.ofList (trimBy isBlank s.toList)

/-- The small form of a letter where that is a letter of ASCII: the capitals of ASCII, and the
kelvin sign.  Every other character stays, which no comparison with an ASCII word can notice. -/
def lowerChar (c : Char) : Char := if c = '\u212a' then 'k' else c.toLower

/-- Lowers each letter by `lowerChar`. -/
def lower (s : String) : String := String.ofList (s.toList.map lowerChar)

end DivisorCheck.Text
