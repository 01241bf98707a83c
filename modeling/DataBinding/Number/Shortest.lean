import DataBinding.Number.Basic

set_option autoImplicit false

/-! # The shortest decimal that reads back

The reals that round to a finite double form an interval around it; its ends belong to it when
the mantissa is even. Among the decimals in the interval, `shortest` picks one with the fewest
digits, of those the nearest to the double, and of two equally near ones the larger.

Everything is exact: in units of a common power of ten the double and the ends of its interval
are integers, and so are the two neighbours of the double among the decimals with `n` digits.
-/

namespace DataBinding

/-- The decimal `digits · 10 ^ exponent`. -/
structure Decimal where
  digits : Nat
  exponent : Int
  deriving DecidableEq, Repr, Inhabited

/-- How many decimal digits `n` has; one for zero. -/
def digitCount (n : Nat) : Nat := if n < 10 then 1 else digitCount (n / 10) + 1

/-- The same decimal without trailing zeros in its digits. -/
def Decimal.strip (d : Decimal) : Decimal :=
  if d.digits = 0 then d
  else if d.digits % 10 = 0 then strip ⟨d.digits / 10, d.exponent + 1⟩
  else d
termination_by d.digits
decreasing_by omega

/-- A stretch of decimals around `value`, all in units of `10 ^ exponent`. -/
structure Interval where
  low : Nat
  value : Nat
  high : Nat
  closed : Bool
  exponent : Int

namespace Interval

/-- Whether `x` units lie in the interval. -/
def Holds (i : Interval) (x : Nat) : Prop :=
  if i.closed then i.low ≤ x ∧ x ≤ i.high else i.low < x ∧ x < i.high

instance (i : Interval) (x : Nat) : Decidable (i.Holds x) := by
  unfold Holds; exact inferInstance

/-- The nearest decimal of the interval whose digits end `drop` places before the unit, a tie
going up; `none` when the interval holds no such decimal. -/
def nearest? (i : Interval) (drop : Nat) : Option Decimal :=
  let unit := Nat.pow 10 drop
  let below := i.value / unit
  let down := below * unit
  let up := down + unit
  if i.Holds down ∧ (i.Holds up → i.value - down < up - i.value) then
    some ⟨below, i.exponent + drop⟩
  else if i.Holds up then some ⟨below + 1, i.exponent + drop⟩
  else none

/-- The first decimal found when `drop`, `drop - 1`, … places are left out; the value itself
when there is none. -/
def search (i : Interval) : Nat → Decimal
  | 0 => (i.nearest? 0).getD ⟨i.value, i.exponent⟩
  | drop + 1 =>
    match i.nearest? (drop + 1) with
    | some d => d
    | none => i.search drop

end Interval

namespace Number

/-- The reals that round to a finite double. In quarters of a unit in the last place the double
is four times its mantissa; the ends are two quarters away, and only one quarter below a power
of two, where the spacing changes. -/
def interval (n : Number) : Interval :=
  let m := n.mantissa
  let e := n.exponent - 2
  let low := 4 * m - if m = 1 <<< 52 ∧ 1 <<< 53 ≤ n.rank then 1 else 2
  let scale := if 0 ≤ e then 1 <<< e.toNat else Nat.pow 5 (-e).toNat
  { low := low * scale
    value := 4 * m * scale
    high := (4 * m + 2) * scale
    closed := m % 2 = 0
    exponent := min e 0 }

/-- The shortest decimal that reads back to the magnitude of a finite number other than zero. -/
def shortest (n : Number) : Decimal :=
  let i := n.interval
  (i.search (digitCount i.value - 1)).strip

end Number

end DataBinding
