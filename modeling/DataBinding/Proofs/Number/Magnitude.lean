import Mathlib.Algebra.Order.Field.Power
import Mathlib.Algebra.Order.Field.Rat
import Mathlib.Order.Monotone.Basic
import Mathlib.Tactic.FieldSimp
import Mathlib.Tactic.Linarith
import Mathlib.Tactic.NormNum
import Mathlib.Tactic.Ring
import DataBinding.Number.Basic

set_option autoImplicit false

/-! # The magnitudes of doubles

Every rank stands for a magnitude, and a larger rank for a larger one (`magnitude_strictMono`). The
double nearest to a rational is the one at the least distance, a tie going to the even one
(`IsNearest`). There is at most one, and for a finite rank it is the one between whose two midpoints
the rational lies (`isNearest_iff`).

Infinity takes part as the magnitude that would come after the largest finite one, `2 ^ 1024`. So a
rational is infinite from the middle between these two on.
-/

namespace DataBinding.Number

/-! ## Magnitudes -/

/-- The magnitude that a rank stands for: the low 52 bits are the fraction, what is above them is
the exponent, and the least exponent has no leading bit. -/
def magnitude (rank : Nat) : ℚ :=
  if rank < 2 ^ 52 then rank * 2 ^ (-1074 : ℤ)
  else (2 ^ 52 + rank % 2 ^ 52 : Nat) * 2 ^ ((rank / 2 ^ 52 : Nat) - 1075 : ℤ)

/-- The value of a finite number. -/
def value (n : Number) : ℚ := if n.isNegative then -magnitude n.rank else magnitude n.rank

theorem magnitude_rank (n : Number) : magnitude n.rank = n.mantissa * 2 ^ n.exponent := by
  unfold magnitude mantissa exponent
  simp only [Nat.one_shiftLeft, Nat.shiftRight_eq_div_pow]
  by_cases h : n.rank < 2 ^ 52
  · simp only [if_pos h]
  · simp only [if_neg h]

variable {s m r p : Nat} {q : ℚ}

theorem two_zpow_pos (e : ℤ) : (0 : ℚ) < 2 ^ e := zpow_pos (by norm_num) e

theorem two_zpow_add_one (e : ℤ) : (2 : ℚ) ^ (e + 1) = 2 * 2 ^ e := by
  rw [zpow_add_one₀ (by norm_num : (2 : ℚ) ≠ 0), mul_comm]

/-- The magnitude of a mantissa at a scale. A mantissa may also be `2 ^ 53`, which is the least one
of the next scale. -/
theorem magnitude_add (h : s = 0 ∨ 2 ^ 52 ≤ m) (hm : m ≤ 2 ^ 53) :
    magnitude (s * 2 ^ 52 + m) = m * 2 ^ ((s : ℤ) - 1074) := by
  by_cases hsmall : m < 2 ^ 52
  · obtain rfl : s = 0 := by omega
    rw [magnitude, if_pos (by omega)]
    norm_num
  have hlarge : ¬ s * 2 ^ 52 + m < 2 ^ 52 := by omega
  rw [magnitude, if_neg hlarge]
  by_cases hcarry : m < 2 ^ 53
  · have hdiv : (s * 2 ^ 52 + m) / 2 ^ 52 = s + 1 := by omega
    have hmod : 2 ^ 52 + (s * 2 ^ 52 + m) % 2 ^ 52 = m := by omega
    have hexp : ((s + 1 : Nat) : ℤ) - 1075 = s - 1074 := by omega
    rw [hdiv, hmod, hexp]
  · obtain rfl : m = 2 ^ 53 := by omega
    have hdiv : (s * 2 ^ 52 + 2 ^ 53) / 2 ^ 52 = s + 2 := by omega
    have hmod : 2 ^ 52 + (s * 2 ^ 52 + 2 ^ 53) % 2 ^ 52 = 2 ^ 52 := by omega
    have hexp : ((s + 2 : Nat) : ℤ) - 1075 = (s - 1074) + 1 := by omega
    rw [hdiv, hmod, hexp, two_zpow_add_one]
    push_cast
    ring

/-- Every rank is a mantissa at a scale. -/
theorem exists_scale (r : Nat) :
    ∃ s m, r = s * 2 ^ 52 + m ∧ (s = 0 ∨ 2 ^ 52 ≤ m) ∧ m < 2 ^ 53 := by
  by_cases h : r < 2 ^ 53
  · exact ⟨0, r, by omega, .inl rfl, h⟩
  · exact ⟨r / 2 ^ 52 - 1, r % 2 ^ 52 + 2 ^ 52, by omega, .inr (by omega), by omega⟩

/-- The distance to the next rank is one unit of the scale. -/
theorem magnitude_succ (h : s = 0 ∨ 2 ^ 52 ≤ m) (hm : m < 2 ^ 53) :
    magnitude (s * 2 ^ 52 + m + 1) = magnitude (s * 2 ^ 52 + m) + 2 ^ ((s : ℤ) - 1074) := by
  rw [add_assoc, magnitude_add (h.imp_right (by omega)) (by omega), magnitude_add h (by omega)]
  push_cast
  ring

theorem magnitude_strictMono : StrictMono magnitude := by
  refine strictMono_nat_of_lt_succ fun r => ?_
  obtain ⟨s, m, rfl, hs, hm⟩ := exists_scale r
  rw [magnitude_succ hs hm]
  linarith [two_zpow_pos ((s : ℤ) - 1074)]

theorem magnitude_zero : magnitude 0 = 0 := by
  rw [magnitude, if_pos (by norm_num)]
  norm_num

theorem magnitude_nonneg (r : Nat) : 0 ≤ magnitude r := by
  rw [← magnitude_zero]
  exact magnitude_strictMono.monotone r.zero_le

theorem magnitude_infinityRank : magnitude infinityRank = 2 ^ 1024 := by
  have hrank : infinityRank = 2046 * 2 ^ 52 + 2 ^ 52 := by decide
  have hexp : ((2046 : Nat) : ℤ) - 1074 = (972 : Nat) := rfl
  rw [hrank, magnitude_add (.inr (le_refl _)) (by norm_num), hexp, zpow_natCast, Nat.cast_pow,
    Nat.cast_ofNat, ← pow_add]

/-! ## The nearest double -/

/-- `r` is the rank of the double nearest to `q`: every other one is farther away, or as far away
and then `r` is even. -/
structure IsNearest (q : ℚ) (r : Nat) : Prop where
  le : r ≤ infinityRank
  closest : ∀ other ≤ infinityRank, other ≠ r →
    |q - magnitude r| < |q - magnitude other| ∨
      |q - magnitude r| = |q - magnitude other| ∧ r % 2 = 0

/-- `q` lies between the two midpoints around a magnitude, and on one of them only if the rank is
even. -/
structure IsAmid (q : ℚ) (r : Nat) : Prop where
  low : ∀ p, r = p + 1 → magnitude p + magnitude r ≤ 2 * q ∧
    (magnitude p + magnitude r = 2 * q → r % 2 = 0)
  high : 2 * q ≤ magnitude r + magnitude (r + 1) ∧
    (2 * q = magnitude r + magnitude (r + 1) → r % 2 = 0)

/-- A rational is nearer to the lesser of two magnitudes exactly if it lies below their midpoint. -/
theorem dist_lt_dist_iff {a b : ℚ} (h : a < b) : |q - a| < |q - b| ↔ 2 * q < a + b := by
  have hfactor : (q - b) ^ 2 - (q - a) ^ 2 = (b - a) * (a + b - 2 * q) := by ring
  rw [← sq_lt_sq, ← sub_pos, hfactor, mul_pos_iff_of_pos_left (sub_pos.mpr h), sub_pos]

theorem dist_eq_dist_iff {a b : ℚ} (h : a < b) : |q - a| = |q - b| ↔ 2 * q = a + b := by
  have hfactor : (q - b) ^ 2 - (q - a) ^ 2 = (b - a) * (a + b - 2 * q) := by ring
  have hne : b - a ≠ 0 := (sub_pos.mpr h).ne'
  rw [← sq_eq_sq_iff_abs_eq_abs, eq_comm, ← sub_eq_zero, hfactor, mul_eq_zero, or_iff_right hne,
    sub_eq_zero, eq_comm]

theorem dist_le_dist_iff {a b : ℚ} (h : a < b) : |q - a| ≤ |q - b| ↔ 2 * q ≤ a + b := by
  rw [le_iff_lt_or_eq, dist_lt_dist_iff h, dist_eq_dist_iff h, ← le_iff_lt_or_eq]

/-- No two doubles are nearest to one rational: between two even ranks there is a third one. -/
theorem IsNearest.unique (h : IsNearest q r) (h' : IsNearest q p) : r = p := by
  wlog hlt : r < p generalizing r p
  · rcases Nat.lt_or_eq_of_le (Nat.not_lt.mp hlt) with hlt | heq
    · exact (this h' h hlt).symm
    · exact heq.symm
  have hmono : magnitude r < magnitude p := magnitude_strictMono hlt
  have hclose := h.closest p h'.le (by omega)
  have hclose' := h'.closest r h.le (by omega)
  have heq : |q - magnitude r| = |q - magnitude p| := by
    rcases hclose with hclose | hclose
    · rcases hclose' with hclose' | hclose'
      · exact absurd hclose (lt_asymm hclose')
      · exact hclose'.1.symm
    · exact hclose.1
  have heven : r % 2 = 0 := (hclose.resolve_left (by rw [heq]; exact lt_irrefl _)).2
  have heven' : p % 2 = 0 := (hclose'.resolve_left (by rw [heq]; exact lt_irrefl _)).2
  have hmiddle : magnitude r < magnitude (r + 1) := magnitude_strictMono (by omega)
  have hmiddle' : magnitude (r + 1) < magnitude p := magnitude_strictMono (by omega)
  have hnearer := h.closest (r + 1) (by have := h'.le; omega) (by omega)
  have hbound : 2 * q ≤ magnitude r + magnitude (r + 1) := by
    rw [← dist_le_dist_iff hmiddle]
    exact hnearer.elim le_of_lt fun hnearer => hnearer.1.le
  have htotal : 2 * q = magnitude r + magnitude p := (dist_eq_dist_iff hmono).mp heq
  linarith

/-- A greater rational is not rounded to a lesser double. -/
theorem IsNearest.mono {q' : ℚ} (h : IsNearest q r) (h' : IsNearest q' p) (hle : q ≤ q') : r ≤ p := by
  by_contra hlt
  have hless : magnitude p < magnitude r := magnitude_strictMono (by omega)
  have hclose := h.closest p h'.le (by omega)
  have hclose' := h'.closest r h.le (by omega)
  have hhigh : magnitude p + magnitude r ≤ 2 * q := by
    rw [← not_lt, ← dist_lt_dist_iff hless, not_lt]
    exact hclose.elim le_of_lt fun htie => htie.1.le
  have hlow : 2 * q' ≤ magnitude p + magnitude r := by
    rw [← dist_le_dist_iff hless]
    exact hclose'.elim le_of_lt fun htie => htie.1.le
  obtain rfl : q = q' := le_antisymm hle (by linarith)
  exact hlt (h.unique h').le

/-- What lies between the midpoints around a magnitude is nearest to it. -/
theorem IsAmid.isNearest (h : IsAmid q r) (hr : r ≤ infinityRank) : IsNearest q r := by
  refine ⟨hr, fun other _ hne => ?_⟩
  rcases Nat.lt_or_gt_of_ne hne with hlt | hlt
  · -- The midpoint right below `r` is at least as high as the one between `other` and `r`.
    obtain ⟨p, rfl⟩ : ∃ p, r = p + 1 := ⟨r - 1, by omega⟩
    obtain ⟨hlow, htie⟩ := h.low p rfl
    have hother : magnitude other ≤ magnitude p := magnitude_strictMono.monotone (by omega)
    have hless : magnitude other < magnitude (p + 1) := magnitude_strictMono hlt
    by_cases hmid : 2 * q = magnitude other + magnitude (p + 1)
    · exact .inr ⟨((dist_eq_dist_iff hless).mpr hmid).symm, htie (by linarith)⟩
    · refine .inl (lt_of_not_ge fun hle => hmid ?_)
      have := (dist_le_dist_iff hless).mp hle
      linarith
  · obtain ⟨hhigh, htie⟩ := h.high
    have hother : magnitude (r + 1) ≤ magnitude other := magnitude_strictMono.monotone hlt
    have hless : magnitude r < magnitude other := magnitude_strictMono hlt
    by_cases hmid : 2 * q = magnitude r + magnitude other
    · exact .inr ⟨(dist_eq_dist_iff hless).mpr hmid, htie (by linarith)⟩
    · refine .inl ((dist_lt_dist_iff hless).mpr (lt_of_le_of_ne ?_ hmid))
      linarith

/-- A finite double is nearest to the rationals between its two midpoints. -/
theorem isNearest_iff (hr : r < infinityRank) : IsNearest q r ↔ IsAmid q r := by
  refine ⟨fun h => ⟨?_, ?_⟩, fun h => h.isNearest hr.le⟩
  · rintro p rfl
    have hless : magnitude p < magnitude (p + 1) := magnitude_strictMono (by omega)
    have hclose := h.closest p (by omega) (by omega)
    constructor
    · have hle : ¬ |q - magnitude p| < |q - magnitude (p + 1)| :=
        not_lt.mpr (hclose.elim le_of_lt fun htie => htie.1.le)
      rw [dist_lt_dist_iff hless] at hle
      exact not_lt.mp hle
    · intro hmid
      have heq := (dist_eq_dist_iff hless).mpr hmid.symm
      exact (hclose.resolve_left (by rw [heq]; exact lt_irrefl _)).2
  · have hless : magnitude r < magnitude (r + 1) := magnitude_strictMono (by omega)
    have hclose := h.closest (r + 1) hr (by omega)
    constructor
    · exact (dist_le_dist_iff hless).mp (hclose.elim le_of_lt fun htie => htie.1.le)
    · intro hmid
      have heq := (dist_eq_dist_iff hless).mpr hmid
      exact (hclose.resolve_left (by rw [heq]; exact lt_irrefl _)).2

/-- From the midpoint below infinity on, infinity is nearest. -/
theorem isNearest_infinityRank (h : magnitude (infinityRank - 1) + magnitude infinityRank ≤ 2 * q) :
    IsNearest q infinityRank := by
  refine ⟨le_refl _, fun other hle hne => ?_⟩
  have hless : magnitude other < magnitude infinityRank := magnitude_strictMono (by omega)
  have hother : magnitude other ≤ magnitude (infinityRank - 1) :=
    magnitude_strictMono.monotone (by omega)
  by_cases hmid : 2 * q = magnitude other + magnitude infinityRank
  · exact .inr ⟨((dist_eq_dist_iff hless).mpr hmid).symm, by decide⟩
  · refine .inl (lt_of_not_ge fun hge => hmid ?_)
    have := (dist_le_dist_iff hless).mp hge
    linarith

/-- What is amid a rank beyond infinity is infinite. -/
theorem IsAmid.isNearest_min (h : IsAmid q r) : IsNearest q (min r infinityRank) := by
  by_cases hr : r ≤ infinityRank
  · rw [min_eq_left hr]
    exact h.isNearest hr
  · rw [min_eq_right (by omega)]
    obtain ⟨p, rfl⟩ : ∃ p, r = p + 1 := ⟨r - 1, by omega⟩
    have hlow := (h.low p rfl).1
    have hinf : magnitude infinityRank ≤ magnitude p := magnitude_strictMono.monotone (by omega)
    have hbelow : magnitude (infinityRank - 1) ≤ magnitude infinityRank :=
      magnitude_strictMono.monotone (by omega)
    have hbeyond : magnitude infinityRank ≤ magnitude (p + 1) :=
      magnitude_strictMono.monotone (by omega)
    exact isNearest_infinityRank (by linarith)

end DataBinding.Number
