set_option autoImplicit false

/-! # Numbers

A number is a double-precision floating point number, given by its 64 bits. Without the sign
bit the bits are a natural number, the *rank*: ranks order the magnitudes, with 0 for zero,
`infinityRank` for infinity and everything above for "not a number". A finite magnitude is
`mantissa · 2 ^ exponent`.
-/

namespace DataBinding

/-- A double-precision number, by its bits. -/
structure Number where
  bits : UInt64
  deriving DecidableEq, Inhabited, Repr

namespace Number

/-- The rank of infinity: all eleven exponent bits set. -/
def infinityRank : Nat := 2047 <<< 52

/-- The number of the given sign and rank. -/
def ofRank (negative : Bool) (rank : Nat) : Number :=
  ⟨UInt64.ofNat (rank + if negative then 1 <<< 63 else 0)⟩

/-- The bits without the sign bit. -/
def rank (n : Number) : Nat := n.bits.toNat % (1 <<< 63)

/-- Whether the sign bit is set. -/
def isNegative (n : Number) : Bool := 1 <<< 63 ≤ n.bits.toNat

def isNaN (n : Number) : Bool := infinityRank < n.rank

def isInfinite (n : Number) : Bool := n.rank = infinityRank

def isFinite (n : Number) : Bool := n.rank < infinityRank

/-- Whether the number is one of the two zeros. -/
def isZero (n : Number) : Bool := n.rank = 0

/-- The integer factor of a finite magnitude. -/
def mantissa (n : Number) : Nat :=
  if n.rank < 1 <<< 52 then n.rank else (1 <<< 52) + n.rank % (1 <<< 52)

/-- The power of two of a finite magnitude. -/
def exponent (n : Number) : Int :=
  if n.rank < 1 <<< 52 then -1074 else (n.rank >>> 52 : Nat) - 1075

def zero : Number := ofRank false 0

def one : Number := ofRank false (1023 <<< 52)

def nan : Number := ofRank false (infinityRank + (1 <<< 51))

def infinity (negative : Bool) : Number := ofRank negative infinityRank

/-- Numeric equality, except that "not a number" is the same as itself: the two zeros are the
same, and otherwise the bits decide. -/
def same (a b : Number) : Bool :=
  (a.isNaN && b.isNaN) || (a.isZero && b.isZero) || a.bits == b.bits

theorem toNat_bits_lt (n : Number) : n.bits.toNat < 1 <<< 64 := n.bits.toNat_lt

theorem rank_ofRank (negative : Bool) {rank : Nat} (h : rank < 1 <<< 63) :
    (ofRank negative rank).rank = rank := by
  cases negative <;> simp [Number.rank, ofRank, UInt64.toNat_ofNat'] <;> omega

theorem isNegative_ofRank (negative : Bool) {rank : Nat} (h : rank < 1 <<< 63) :
    (ofRank negative rank).isNegative = negative := by
  cases negative <;> simp [isNegative, ofRank, UInt64.toNat_ofNat'] <;> omega

/-- Sign and rank determine a number. -/
theorem ofRank_rank (n : Number) : ofRank n.isNegative n.rank = n := by
  have h := n.toNat_bits_lt
  cases n with | mk bits =>
  simp only [ofRank, isNegative, rank, Number.mk.injEq, ← UInt64.toNat_inj, UInt64.toNat_ofNat',
    decide_eq_true_eq, Nat.reduceShiftLeft]
  simp only [Nat.reduceShiftLeft] at h
  split <;> omega

end Number

end DataBinding
