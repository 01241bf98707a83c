import DataBinding.Number.Rounding
import DataBinding.Number.Shortest

set_option autoImplicit false

/-! # Writing a number

The digits of a number are those of its shortest decimal; a `Layout` says how they are set. A
number whose magnitude is in the layout's range is written positionally, and any other with a
power of ten.
-/

namespace DataBinding

/-- How the digits of a number are set. -/
structure Layout where
  /-- The least magnitude that is written positionally, and the next one that is not. -/
  least : Number
  limit : Number
  /-- What follows a number without digits behind the point. -/
  whole : String
  /-- The sign of a power of ten that is not negative. -/
  plus : String
  /-- Whether a negative zero shows its sign. -/
  signedZero : Bool
  infinity : String
  deriving Repr

namespace Layout

def zeros (n : Nat) : String := String.ofList (List.replicate n '0')

/-- `0.ds · 10 ^ e`, written out. -/
def positional (l : Layout) (ds : List Char) (e : Int) : String :=
  if e ≤ 0 then "0." ++ zeros (-e).toNat ++ String.ofList ds
  else if ds.length ≤ e.toNat then
    String.ofList ds ++ zeros (e.toNat - ds.length) ++ l.whole
  else String.ofList (ds.take e.toNat) ++ "." ++ String.ofList (ds.drop e.toNat)

/-- `0.ds · 10 ^ e` as a number with one digit before the point and a power of ten. -/
def scientific (l : Layout) (ds : List Char) (e : Int) : String :=
  let power := e - 1
  let sign := if power < 0 then "-" else l.plus
  let fraction := if ds.length ≤ 1 then "" else "." ++ String.ofList (ds.drop 1)
  String.ofList (ds.take 1) ++ fraction ++ "e" ++ sign ++ Nat.repr power.natAbs

/-- The magnitude of a finite number other than zero. -/
def magnitude (l : Layout) (n : Number) : String :=
  let ds := Nat.toDigits 10 n.shortest.digits
  let e := n.shortest.exponent + ds.length
  if l.limit.rank ≤ n.rank ∨ n.rank < l.least.rank then l.scientific ds e else l.positional ds e

/-- A number. -/
def write (l : Layout) (n : Number) : String :=
  if n.isNaN then "NaN"
  else if n.isZero then (if l.signedZero ∧ n.isNegative then "-0" else "0") ++ l.whole
  else
    let sign := if n.isNegative then "-" else ""
    sign ++ if n.isInfinite then l.infinity else l.magnitude n

end Layout

namespace Number

/-- Displayed numbers are positional from `10 ^ (-6)` to below `10 ^ 21`, whole numbers have no
point, and a power of ten always has a sign. -/
def displayed : Layout :=
  { least := ofDecimal false 1 (-6)
    limit := ofDecimal false 1 21
    whole := ""
    plus := "+"
    signedZero := false
    infinity := "Infinity" }

/-- Inspected numbers are positional from `10 ^ (-4)` to below `10 ^ 16`, whole numbers end in
`.0`, and the sign of a zero shows. -/
def inspected : Layout :=
  { least := ofDecimal false 1 (-4)
    limit := ofDecimal false 1 16
    whole := ".0"
    plus := ""
    signedZero := true
    infinity := "inf" }

/-- The text of a number. -/
def display (n : Number) : String := displayed.write n

/-- The text of a number for inspection. -/
def inspect (n : Number) : String := inspected.write n

end Number

end DataBinding
