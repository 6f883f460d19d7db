/-
  Which integers have a double-precision number near them.

  An integer with its leading bit at position `L` is rounded to a multiple of
  `2 ^ (L - 52)` (`exponentOf_one`).  Below `2 ^ 1023` that multiple is always a
  number and from `2 ^ 1024` on it never is; in between all depends on whether the
  significand is rounded up to 54 bits (`ofRatio_one_eq_infinite_iff`), which happens
  from half a unit below `2 ^ 1024` on (`roundsUpTo_iff`).
-/
import DivisorCheck.Decimal.Binary64
import Mathlib.Data.Nat.Log
import Mathlib.Tactic.Ring

namespace DivisorCheck.Decimal.Binary64

/-- Half a unit below `2 ^ (t + 54)`, the numbers there being multiples of `2 ^ (t + 1)`. -/
def halfUnitBelow (t : Nat) : Nat := (2 ^ 54 - 1) * twoPow t

/-- The least natural number that rounds beyond the greatest number: half a unit below
`2 ^ 1024`. -/
def leastOverflow : Nat := halfUnitBelow 970

theorem twoPow_pos (k : Nat) : 0 < twoPow k := Nat.two_pow_pos k

theorem tenPow_pos (k : Nat) : 0 < tenPow k := Nat.pow_pos (by decide)

theorem twoPow_add (j k : Nat) : twoPow (j + k) = twoPow j * twoPow k := Nat.pow_add 2 j k

theorem twoPow_le {j k : Nat} (h : j ≤ k) : twoPow j ≤ twoPow k :=
  Nat.pow_le_pow_right (by decide) h

/-- A quotient just below an even number is rounded up to it from half a unit below on. -/
theorem roundDiv_eq_iff {num half k : Nat} (hhalf : 0 < half) (hk : 0 < k)
    (hnum : num < 2 * k * (2 * half)) :
    roundDiv num (2 * half) = 2 * k ↔ (2 * k - 1) * (2 * half) + half ≤ num := by
  have hsplit := Nat.div_add_mod num (2 * half)
  have hrest := Nat.mod_lt num (show 0 < 2 * half by omega)
  have hquot : num / (2 * half) < 2 * k := (Nat.div_lt_iff_lt_mul (by omega)).2 hnum
  unfold roundDiv
  dsimp only
  generalize num / (2 * half) = q at *
  generalize num % (2 * half) = r at *
  rcases Nat.lt_or_eq_of_le (Nat.le_sub_one_of_lt hquot) with hlow | rfl
  · -- With a smaller quotient neither side holds.
    have hproduct : (q + 1) * (2 * half) ≤ (2 * k - 1) * (2 * half) :=
      Nat.mul_le_mul_right _ (by omega)
    have hnext : (q + 1) * (2 * half) = 2 * half * q + 2 * half := by ring
    refine iff_of_false ?_ (by omega)
    split
    · omega
    · split
      · omega
      · split <;> omega
  · have hodd : ¬ (2 * k - 1) % 2 = 0 := by omega
    rw [if_neg hodd, Nat.mul_comm (2 * k - 1)]
    constructor
    · intro h
      split at h <;> omega
    · intro h
      rw [if_neg (by omega)]
      split <;> omega

/-- An integer with its leading bit at position `L` is rounded to a multiple of `2 ^ (L - 52)`. -/
theorem exponentOf_one {num : Nat} (hnum : num ≠ 0) : exponentOf num 1 = (num.log2 : Int) - 52 := by
  have hlow : 2 ^ num.log2 ≤ num := Nat.log2_self_le hnum
  have hone : Nat.log2 1 = 0 := by decide
  unfold exponentOf precision leastExponent
  simp only [hone, twoPow, Nat.pow_eq, Nat.one_mul, Nat.div_one]
  generalize num.log2 = L at *
  have hquotient : ¬ (if (0 : Int) ≤ (L : Int) - (0 : Nat) - (53 : Nat) then
      num / 2 ^ ((L : Int) - (0 : Nat) - (53 : Nat)).toNat
      else num * 2 ^ (-((L : Int) - (0 : Nat) - (53 : Nat))).toNat) < 2 ^ 53 := by
    split
    · have hexp : ((L : Int) - (0 : Nat) - (53 : Nat)).toNat = L - 53 := by omega
      rw [hexp, Nat.not_lt, Nat.le_div_iff_mul_le (Nat.two_pow_pos _), ← Nat.pow_add]
      exact (Nat.pow_le_pow_right (by decide) (by omega)).trans hlow
    · have hexp : (-((L : Int) - (0 : Nat) - (53 : Nat))).toNat = 53 - L := by omega
      rw [hexp, Nat.not_lt]
      calc 2 ^ 53 = 2 ^ L * 2 ^ (53 - L) := by rw [← Nat.pow_add]; congr 1; omega
        _ ≤ num * 2 ^ (53 - L) := Nat.mul_le_mul_right _ hlow
  rw [if_neg hquotient]
  omega

theorem infinite_iff {negative b : Bool} {s : Nat} {e : Int} :
    (if e > greatestExponent then infinite negative else finite negative s e) = infinite b ↔
      negative = b ∧ greatestExponent < e := by
  split <;> simp [*]

/-- Rounded to 53 bits, the number reaches `2 ^ (t + 54)`: it does so from the start, or its leading
bit is the one below and all bits that are kept round up. -/
def RoundsUpTo (t num : Nat) : Prop :=
  t + 54 ≤ num.log2 ∨ num.log2 = t + 53 ∧ roundDiv num (twoPow (t + 1)) = twoPow 53

theorem roundsUpTo_iff {t num : Nat} (hnum : num ≠ 0) : RoundsUpTo t num ↔ halfUnitBelow t ≤ num := by
  have hlow : twoPow num.log2 ≤ num := Nat.log2_self_le hnum
  have hhigh : num < twoPow (num.log2 + 1) := Nat.lt_log2_self
  have hunit : twoPow (t + 1) = 2 * twoPow t := Nat.pow_succ'
  have hhalf : twoPow (t + 53) = 2 ^ 53 * twoPow t := by rw [Nat.add_comm, twoPow_add]; rfl
  have htop : twoPow (t + 54) = 2 ^ 54 * twoPow t := by rw [Nat.add_comm, twoPow_add]; rfl
  have hpos := twoPow_pos t
  unfold RoundsUpTo halfUnitBelow
  rcases Nat.lt_trichotomy num.log2 (t + 53) with hL | hL | hL
  · have hless : num < twoPow (t + 53) := hhigh.trans_le (twoPow_le hL)
    rw [hhalf] at hless
    exact iff_of_false (by omega) (by omega)
  · rw [hL, show t + 53 + 1 = t + 54 from rfl, htop] at hhigh
    have hround := roundDiv_eq_iff (k := 2 ^ 52) hpos (by decide)
      (show num < 2 * 2 ^ 52 * (2 * twoPow t) by omega)
    rw [hunit, show twoPow 53 = 2 * 2 ^ 52 from rfl, hround]
    omega
  · have hbeyond : twoPow (t + 54) ≤ num := (twoPow_le hL).trans hlow
    rw [htop] at hbeyond
    exact iff_of_true (.inl hL) (by omega)

/-- Rounding an integer overflows if its leading bit ends up too high. -/
theorem ofRatio_one_eq_infinite_iff {negative b : Bool} {num : Nat} (hnum : num ≠ 0) :
    ofRatio negative num 1 = infinite b ↔ negative = b ∧ RoundsUpTo 970 num := by
  unfold ofRatio precision RoundsUpTo
  rw [if_neg hnum, exponentOf_one hnum]
  simp only [Nat.one_mul]
  have htop : num.log2 = 970 + 53 → ((num.log2 : Int) - 52).toNat = 970 + 1 := by omega
  generalize num.log2 = L at *
  by_cases hlow : (0 : Int) ≤ (L : Int) - 52
  · rw [if_pos hlow]
    by_cases hbits : roundDiv num (twoPow ((L : Int) - 52).toNat) = twoPow 53
    · rw [if_pos hbits]
      dsimp only
      rw [infinite_iff, greatestExponent]
      refine and_congr_right' ⟨fun h => ?_, by omega⟩
      by_cases hL : L = 970 + 53
      · exact .inr ⟨hL, htop hL ▸ hbits⟩
      · exact .inl (by omega)
    · rw [if_neg hbits]
      dsimp only
      rw [infinite_iff, greatestExponent]
      refine and_congr_right' ⟨fun h => .inl (by omega), ?_⟩
      rintro (h | ⟨hL, hround⟩)
      · omega
      · rw [htop hL] at hbits
        exact absurd hround hbits
  · rw [if_neg hlow]
    have hnone : ¬ (970 + 54 ≤ L ∨ L = 970 + 53 ∧ roundDiv num (twoPow (970 + 1)) = twoPow 53) := by
      omega
    split
    all_goals
      rw [infinite_iff, greatestExponent]
      refine and_congr_right' (iff_of_false (by omega) hnone)

/-- **An integer is beyond all numbers** exactly from half a unit below `2 ^ 1024` on. -/
theorem ofInt?_eq_none_iff (n : Int) : ofInt? n = none ↔ leastOverflow ≤ n.natAbs := by
  by_cases hn : n = 0
  · subst hn
    have hpos : 0 < leastOverflow := Nat.mul_pos (by decide) (twoPow_pos _)
    exact iff_of_false (by decide) (Nat.not_le_of_lt hpos)
  have habs : n.natAbs ≠ 0 := Int.natAbs_ne_zero.2 hn
  rw [leastOverflow, ← roundsUpTo_iff habs, ofInt?]
  cases hx : ofRatio (n < 0) n.natAbs 1 with
  | infinite b => exact iff_of_true rfl ((ofRatio_one_eq_infinite_iff habs).1 hx).2
  | nan | finite =>
    refine iff_of_false (by simp) fun h => ?_
    rw [(ofRatio_one_eq_infinite_iff habs).2 ⟨rfl, h⟩] at hx
    cases hx

end DivisorCheck.Decimal.Binary64
