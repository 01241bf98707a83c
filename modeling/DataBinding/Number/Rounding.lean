import DataBinding.Number.Basic

set_option autoImplicit false

/-! # Rounding to the nearest number

A positive rational is rounded to the nearest double, a tie to the even mantissa. The exponent
comes first (`binade` is the floor of the binary logarithm), then the mantissa is one rounded
quotient. Ranks make carries harmless: a mantissa that rounds up to `2 ^ 53` has the rank of
the next power of two, and whatever is beyond the largest finite rank is infinity.
-/

namespace DataBinding

/-- The integer nearest to `num / den`, a tie going to the even one. -/
def roundHalfEven (num den : Nat) : Nat :=
  let q := num / den
  let r := num % den
  if 2 * r < den then q else if den < 2 * r then q + 1 else q + q % 2

/-- `num · 2 ^ (-e) / den`, rounded to an integer. -/
def roundScaled (num den : Nat) (e : Int) : Nat :=
  if 0 ≤ e then roundHalfEven num (den <<< e.toNat) else roundHalfEven (num <<< (-e).toNat) den

/-- The integer `e` with `2 ^ e ≤ num / den < 2 ^ (e + 1)`. -/
def binade (num den : Nat) : Int :=
  let e : Int := (num.log2 : Int) - (den.log2 : Int)
  let reached := if 0 ≤ e then den <<< e.toNat ≤ num else den ≤ num <<< (-e).toNat
  if reached then e else e - 1

namespace Number

/-- The rank of the double nearest to `num / den`. -/
def nearestRank (num den : Nat) : Nat :=
  if num = 0 then 0
  else
    let e := max (binade num den - 52) (-1074)
    min (((e + 1074).toNat <<< 52) + roundScaled num den e) infinityRank

/-- The double nearest to `± num / den`; a zero keeps its sign. -/
def ofRatio (negative : Bool) (num den : Nat) : Number := ofRank negative (nearestRank num den)

/-- The double nearest to `± digits · 10 ^ exponent`. Magnitudes that are beyond all doubles or
below half the smallest one are recognised by size, before any power is computed. -/
def ofDecimal (negative : Bool) (digits : Nat) (exponent : Int) : Number :=
  if digits = 0 then ofRank negative 0
  else if 400 < exponent then infinity negative
  else if (digits.log2 : Int) + 1 + 3 * exponent < -1100 then ofRank negative 0
  else if 0 ≤ exponent then ofRatio negative (digits * Nat.pow 10 exponent.toNat) 1
  else ofRatio negative digits (Nat.pow 10 (-exponent).toNat)

/-- The double nearest to an integer. -/
def ofInt (i : Int) : Number := ofRatio (i < 0) i.natAbs 1

/-- The double nearest to a natural number. -/
def ofNat (n : Nat) : Number := ofRatio false n 1

/-- A single-precision number, given by its 32 bits, as a double. Every single is a double. -/
def ofSingle (bits : UInt32) : Number :=
  let negative : Bool := 1 <<< 31 ≤ bits.toNat
  let rank := bits.toNat % (1 <<< 31)
  let biased := rank >>> 23
  let fraction := rank % (1 <<< 23)
  if biased = 255 then
    if fraction = 0 then infinity negative else nan
  else if biased = 0 then ofRatio negative fraction (1 <<< 149)
  else if 150 ≤ biased then ofRatio negative (((1 <<< 23) + fraction) <<< (biased - 150)) 1
  else ofRatio negative ((1 <<< 23) + fraction) (1 <<< (150 - biased))

end Number

/-- A rounded quotient is within half a unit of the exact one. -/
theorem roundHalfEven_bounds (num : Nat) {den : Nat} (h : 0 < den) :
    2 * num ≤ (2 * roundHalfEven num den + 1) * den ∧
      2 * roundHalfEven num den * den ≤ 2 * num + den := by
  have hdm := Nat.div_add_mod num den
  have hlt := Nat.mod_lt num h
  simp only [roundHalfEven]
  generalize num / den = q at *
  generalize num % den = r at *
  subst hdm
  have hq : 2 * q * den = 2 * (den * q) := by rw [Nat.mul_assoc, Nat.mul_comm q]
  split
  · rw [Nat.add_mul, hq]; omega
  · split
    · have : 2 * (q + 1) * den = 2 * (den * q) + 2 * den := by
        rw [Nat.mul_add, Nat.add_mul, hq]
      rw [Nat.add_mul, this]; omega
    · rcases Nat.mod_two_eq_zero_or_one q with h2 | h2
      · simp only [h2, Nat.add_zero, Nat.add_mul, hq, Nat.one_mul]; omega
      · simp only [h2, Nat.add_mul, Nat.mul_add, Nat.one_mul, Nat.mul_one]
        rw [hq]; omega

end DataBinding
