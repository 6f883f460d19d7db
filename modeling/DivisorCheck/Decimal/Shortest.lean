/-
  The shortest decimal that reads back as a given double-precision number.

  The reals that round to a number form an interval around it, whose ends belong
  to it when the significand is even.  For one, two, … seventeen digits the two
  neighbours of the number on the decimal grid of that many digits are tried; the
  first grid with a point in the interval gives the digits, and of two such
  points the nearer.  Seventeen digits always suffice.

  `Binary64.text` writes the result: positionally when the leading digit stands
  for a power of ten from -4 to 15, and with an exponent of at least two digits
  otherwise.
-/
import DivisorCheck.Decimal.Binary64

namespace DivisorCheck.Decimal.Binary64

/-- A decimal `digits * 10 ^ scale`. -/
structure Point where
  digits : Nat
  scale : Int
deriving Repr

/-- `a * 10 ^ scale` and `b` as natural numbers over a common denominator, where `b` is given over
`2 ^ 1076`. -/
def onCommonScale (scale : Int) (a b : Nat) : Nat × Nat :=
  if 0 ≤ scale then (a * tenPow scale.toNat * twoPow 1076, b)
  else (a * twoPow 1076, b * tenPow (-scale).toNat)

/-- The interval of a positive number over `2 ^ 1076`: low end, the number, high end. -/
def interval (s : Nat) (e : Int) : Nat × Nat × Nat :=
  let unit := twoPow (e + 1074).toNat
  -- Below a power of two the next number is only half as far away.
  let low := if s = twoPow (precision - 1) ∧ e > leastExponent then 4 * s - 1 else 4 * s - 2
  (low * unit, 4 * s * unit, (4 * s + 2) * unit)

/-- Does the point round to the number `s * 2 ^ e`? -/
def isWithin (s : Nat) (e : Int) (p : Point) : Bool :=
  let (low, _, high) := interval s e
  let (x, low') := onCommonScale p.scale p.digits low
  let (_, high') := onCommonScale p.scale p.digits high
  if s % 2 = 0 then low' ≤ x && x ≤ high' else low' < x && x < high'

/-- The power of ten of the leading digit of a positive `value / 2 ^ 1076`. -/
def leadingPower (value : Nat) : Int :=
  -- The guess is at most one too small.
  let guess : Int := ((value.log2 : Int) - 1076) * 30103 / 100000
  let (next, v) := onCommonScale (guess + 1) 1 value
  if next ≤ v then guess + 1
  else
    let (here, v) := onCommonScale guess 1 value
    if here ≤ v then guess else guess - 1

/-- The point of `count` digits that stands for the number, if one does. -/
def pointOf? (s : Nat) (e : Int) (power : Int) (count : Nat) : Option Point :=
  let (_, value, _) := interval s e
  let scale := power - count + 1
  let (unit, v) := onCommonScale scale 1 value
  let below : Point := ⟨v / unit, scale⟩
  let above : Point := ⟨v / unit + 1, scale⟩
  match isWithin s e below, isWithin s e above with
  | true, false => some below
  | false, true => some above
  | false, false => none
  | true, true =>
    let twice := 2 * (v % unit)
    if twice < unit then some below
    else if twice > unit then some above
    else if below.digits % 2 = 0 then some below else some above

/-- The shortest point that reads back as the positive number `s * 2 ^ e`. -/
def shortest (s : Nat) (e : Int) : Point :=
  let (_, value, _) := interval s e
  let power := leadingPower value
  ((List.range 17).findSome? (fun i => pointOf? s e power (i + 1))).getD ⟨s, 0⟩

/-- Drops zeros at the end, counting them. -/
def dropZeros (digits : List Char) : List Char × Nat :=
  let zeros := (digits.reverse.takeWhile (· == '0')).length
  (digits.take (digits.length - zeros), zeros)

/-- A positive number as text. -/
def positiveText (s : Nat) (e : Int) : String :=
  let p := shortest s e
  let (digits, zeros) := dropZeros (toString p.digits).toList
  -- The digits stand for `0.d₁d₂… * 10 ^ point`.
  let point : Int := p.scale + zeros + digits.length
  let count : Int := digits.length
  if -4 < point ∧ point ≤ 16 then
    if point ≤ 0 then
      "0." ++ String.ofList (List.replicate (-point).toNat '0' ++ digits)
    else if point < count then
      String.ofList (digits.take point.toNat ++ '.' :: digits.drop point.toNat)
    else
      String.ofList (digits ++ List.replicate (point - count).toNat '0') ++ ".0"
  else
    let mantissa := match digits with
      | [d] => String.ofList [d]
      | d :: rest => String.ofList (d :: '.' :: rest)
      | [] => "0"
    let exponent := point - 1
    let magnitude := toString exponent.natAbs
    mantissa ++ (if exponent < 0 then "e-" else "e+")
      ++ (if magnitude.length < 2 then "0" ++ magnitude else magnitude)

/-- A number as text. -/
def text : Binary64 → String
  | nan => "nan"
  | infinite negative => if negative then "-inf" else "inf"
  | finite negative s e =>
    (if negative then "-" else "") ++ (if s = 0 then "0.0" else positiveText s e)

end DivisorCheck.Decimal.Binary64
