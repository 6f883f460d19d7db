/-
  `Binary64` — the double-precision numbers of IEEE 754, held exactly.

  A finite number is a sign, a significand below 2^53 and a power of two of at
  least -1074; the least power that fits the significand into 53 bits is the one
  in use, so a number other than a zero has one form.  Every operation here is
  exact arithmetic on natural numbers followed by one rounding to nearest, a tie
  going to the even significand (`ofRatio`).
-/
namespace DivisorCheck.Decimal

/-- A double-precision number. -/
inductive Binary64 where
  | nan
  | infinite (negative : Bool)
  /-- `significand * 2 ^ exponent`, negated if `negative` -/
  | finite (negative : Bool) (significand : Nat) (exponent : Int)
deriving DecidableEq, Repr, Inhabited

namespace Binary64

/-- The number of bits of a significand. -/
def precision : Nat := 53

/-- The least power of two that a number may have. -/
def leastExponent : Int := -1074

/-- The greatest power of two that a number may have. -/
def greatestExponent : Int := 971

/-- A power of two. -/
def twoPow (k : Nat) : Nat := Nat.pow 2 k

/-- A power of ten. -/
def tenPow (k : Nat) : Nat := Nat.pow 10 k

/-- Positive zero. -/
def zero : Binary64 := finite false 0 leastExponent

/-! ### Rounding -/

/-- The quotient `num / den` to the nearest integer, a tie to the even one. -/
def roundDiv (num den : Nat) : Nat :=
  let q := num / den
  let twice := 2 * (num % den)
  if twice < den then q
  else if twice > den then q + 1
  else if q % 2 = 0 then q else q + 1

/-- The power of two under which a positive quotient has a significand of full precision, but at
least `leastExponent`. -/
def exponentOf (num den : Nat) : Int :=
  let guess : Int := (num.log2 : Int) - den.log2 - precision
  -- The significand under `guess` lies between 2^52 and 2^54.
  let quotient := if 0 ≤ guess then num / (den * twoPow guess.toNat)
    else num * twoPow (-guess).toNat / den
  max leastExponent (if quotient < twoPow precision then guess else guess + 1)

/-- The number nearest to `num / den`, for a positive `den`. -/
def ofRatio (negative : Bool) (num den : Nat) : Binary64 :=
  if num = 0 then finite negative 0 leastExponent
  else
    let e := exponentOf num den
    let s :=
      if 0 ≤ e then roundDiv num (den * twoPow e.toNat)
      else roundDiv (num * twoPow (-e).toNat) den
    -- Rounding up may need one more bit, and then the last bit is zero.
    let (s, e) := if s = twoPow precision then (s / 2, e + 1) else (s, e)
    if e > greatestExponent then infinite negative else finite negative s e

/-- The number nearest to `digits * 10 ^ scale`.  Far beyond either end of the range no power of
ten is computed. -/
def ofScientific (negative : Bool) (digits : Nat) (scale : Int) : Binary64 :=
  -- The value has its leading digit at most this far to the left of the point.
  let magnitude : Int := scale + ((digits.log2 : Int) * 3) / 10 + 1
  if digits = 0 then finite negative 0 leastExponent
  else if magnitude > 400 then infinite negative
  else if magnitude < -400 - ((digits.log2 : Int) / 10) then finite negative 0 leastExponent
  else if 0 ≤ scale then ofRatio negative (digits * tenPow scale.toNat) 1
  else ofRatio negative digits (tenPow (-scale).toNat)

/-- The number nearest to an integer; `none` when the integer is beyond the greatest number. -/
def ofInt? (n : Int) : Option Binary64 :=
  match ofRatio (n < 0) n.natAbs 1 with
  | infinite _ => none
  | x => some x

/-! ### Comparison and arithmetic -/

/-- A finite number as an integer over a power of two, `numerator / 2 ^ k` with `k` given. -/
def scaled (negative : Bool) (s : Nat) (e : Int) (k : Nat) : Int :=
  let magnitude : Int := (s * twoPow (e + k).toNat : Nat)
  if negative then -magnitude else magnitude

/-- Is the number less than or equal to zero?  Not-a-number is not. -/
def nonPositive : Binary64 → Bool
  | nan => false
  | infinite negative => negative
  | finite negative s _ => negative || s == 0

/-- Is the natural number `n` greater than `x`?  Never if `x` is not a number. -/
def exceededBy (x : Binary64) (n : Nat) : Bool :=
  match x with
  | nan => false
  | infinite negative => negative
  | finite negative s e => decide (scaled negative s e 1074 < (n * twoPow 1074 : Nat))

/-- The sum, rounded once. -/
def add : Binary64 → Binary64 → Binary64
  | nan, _ => nan
  | _, nan => nan
  | infinite a, infinite b => if a = b then infinite a else nan
  | infinite a, _ => infinite a
  | _, infinite b => infinite b
  | finite na sa ea, finite nb sb eb =>
    let total := scaled na sa ea 1074 + scaled nb sb eb 1074
    -- An exact zero is negative only when both operands are.
    if total = 0 then finite (na && nb) 0 leastExponent
    else ofRatio (total < 0) total.natAbs (twoPow 1074)

/-- The integer part, toward zero; `none` for what is not finite. -/
def truncate? : Binary64 → Option Int
  | finite negative s e =>
    let magnitude : Int :=
      (if 0 ≤ e then s * twoPow e.toNat else s / twoPow (-e).toNat : Nat)
    some (if negative then -magnitude else magnitude)
  | _ => none

end Binary64

end DivisorCheck.Decimal
