import DataBinding.Number.Rounding
import DataBinding.Text.Blank

set_option autoImplicit false

/-! # Reading a number from text

Blanks at the ends do not count. The empty text is zero; `Infinity`, perhaps with a sign, is
infinite; otherwise the text must be a decimal numeral

    [sign] (digits [. [digits]] | . digits) [(e | E) [sign] digits]

which is rounded to the nearest double. Any other text is not a number. The reader of numerals
also knows some words, in any mixture of cases; a text that has one of them in it is refused
before it gets there, so that no other spelling of infinity is read. The digits of an exponent
that has reached `exponentCap` do not count any more, so a numeral with more digits than that can
lie far from its value.
-/

namespace DataBinding

/-- A decimal numeral: `± digits · 10 ^ exponent`. -/
structure Numeral where
  negative : Bool
  digits : Nat
  exponent : Int
  deriving DecidableEq, Repr

namespace Numeral

/-- The value of a decimal digit. -/
def digitValue (d : Char) : Nat := d.toNat - '0'.toNat

/-- The value of a run of decimal digits. A long run is cut in the middle, so that reading it
takes a few products of large integers and not one for each digit. -/
def digitsValue (ds : List Char) : Nat :=
  if ds.length < 64 then ds.foldl (fun a d => a * 10 + digitValue d) 0
  else
    let k := ds.length / 2
    digitsValue (ds.take k) * Nat.pow 10 (ds.length - k) + digitsValue (ds.drop k)
termination_by ds.length
decreasing_by all_goals simp only [List.length_take, List.length_drop]; omega

theorem foldl_digitValue (ds : List Char) (a : Nat) :
    ds.foldl (fun a d => a * 10 + digitValue d) a =
      a * Nat.pow 10 ds.length + ds.foldl (fun a d => a * 10 + digitValue d) 0 := by
  induction ds generalizing a with
  | nil => simp
  | cons d ds ih =>
    have hpow : Nat.pow 10 (d :: ds).length = Nat.pow 10 ds.length * 10 := rfl
    rw [List.foldl_cons, ih, List.foldl_cons, ih (0 * 10 + digitValue d), hpow]
    grind

/-- The value of a run of digits, read from the left. -/
theorem digitsValue_eq_foldl (ds : List Char) :
    digitsValue ds = ds.foldl (fun a d => a * 10 + digitValue d) 0 := by
  fun_induction digitsValue ds with
  | case1 => rfl
  | case2 ds _ k ihTake ihDrop =>
    rw [ihTake, ihDrop, ← List.length_drop, ← foldl_digitValue, ← List.foldl_append,
      List.take_append_drop]

/-- An optional sign, and what follows it. -/
def readSign : List Char → Bool × List Char
  | '-' :: cs => (true, cs)
  | '+' :: cs => (false, cs)
  | cs => (false, cs)

/-- An exponent that has reached this magnitude does not grow any further. -/
def exponentCap : Nat := 65536

/-- The magnitude of an exponent: the value of its digits up to the one at which it reaches
`exponentCap`. -/
def exponentValue (ds : List Char) : Nat :=
  ds.foldl (fun e d => if e < exponentCap then e * 10 + digitValue d else e) 0

/-- The exponent part that makes up the whole of `cs`: nothing, or a mark with an integer. -/
def readExponent : List Char → Option Int
  | [] => some 0
  | c :: cs =>
    if c = 'e' ∨ c = 'E' then
      let (negative, ds) := readSign cs
      if ds ≠ [] ∧ ds.all Char.isDigit then
        let v : Int := exponentValue ds
        some (if negative then -v else v)
      else none
    else none

/-- The digits behind the point, if there is a point, and what follows them. -/
def readFraction : List Char → List Char × List Char
  | '.' :: cs => (cs.takeWhile Char.isDigit, cs.dropWhile Char.isDigit)
  | cs => ([], cs)

/-- Reads a whole text as a numeral. -/
def read? (cs : List Char) : Option Numeral :=
  let (negative, body) := readSign cs
  let whole := body.takeWhile Char.isDigit
  let (fraction, rest) := readFraction (body.dropWhile Char.isDigit)
  if whole = [] ∧ fraction = [] then none
  else
    (readExponent rest).map fun e =>
      ⟨negative, digitsValue (whole ++ fraction), e - fraction.length⟩

/-- The double nearest to the numeral. -/
def toNumber (n : Numeral) : Number := Number.ofDecimal n.negative n.digits n.exponent

end Numeral

namespace Number

/-- The number that a word stands for, in small letters: infinity has a long and a short name. -/
def ofWord? (negative : Bool) (word : List Char) : Option Number :=
  if word = ['i', 'n', 'f'] ∨ word = ['i', 'n', 'f', 'i', 'n', 'i', 't', 'y'] then
    some (infinity negative)
  else if word = ['n', 'a', 'n'] then some nan
  else none

/-- Reads a whole text as a numeral or, behind an optional sign and in any mixture of cases, as a
word. -/
def parse? (cs : List Char) : Option Number :=
  match Numeral.read? cs with
  | some n => some n.toNumber
  | none =>
    let (negative, word) := Numeral.readSign cs
    ofWord? negative (word.map Char.toLower)

/-- Whether `word` stands somewhere in a text. -/
def holds (word : List Char) : List Char → Bool
  | [] => word.isEmpty
  | c :: cs => word.isPrefixOf (c :: cs) || holds word cs

/-- Whether a text has `inf` or `nan` in it, in any mixture of cases. -/
def isWordy (cs : List Char) : Bool :=
  let small := cs.map Char.toLower
  holds ['i', 'n', 'f'] small || holds ['n', 'a', 'n'] small

theorem holds_iff_isInfix (word cs : List Char) : holds word cs = true ↔ word <:+: cs := by
  induction cs with
  | nil => rw [holds, List.isEmpty_iff, List.infix_nil]
  | cons c cs ih =>
    rw [holds, Bool.or_eq_true, ih, List.isPrefixOf_iff_prefix, List.infix_cons_iff]

/-- The number that a text stands for. -/
def ofText (s : String) : Number :=
  let t := Text.trim s
  if t = "" then zero
  else if t = "Infinity" ∨ t = "+Infinity" then infinity false
  else if t = "-Infinity" then infinity true
  else if isWordy t.toList then nan
  else (parse? t.toList).getD nan

end Number

end DataBinding
