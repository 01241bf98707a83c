import Mathlib.Data.Nat.Log
import Mathlib.Algebra.Order.Ring.Rat
import Mathlib.Tactic.LinearCombination
import DataBinding.Number.Rounding
import DataBinding.Proofs.Number.Magnitude

set_option autoImplicit false

/-! # Rounding finds the nearest double

A quotient is rounded at the scale that its binade asks for, and so it ends up between the two
midpoints around the double that is found (`isAmid_add`). Hence the rounded quotient is the nearest
double, with infinity for all that is too large (`isNearest_nearestRank`), and so is the rounded
decimal, whose extreme magnitudes are told apart beforehand (`isRounded_ofDecimal`).
-/

namespace DataBinding

/-! ## Rounding to an integer -/

/-- `m` is the integer nearest to `x`, a tie going to the even one. -/
structure RoundsHalfEven (x : ℚ) (m : Nat) : Prop where
  low : 2 * m ≤ 2 * x + 1 ∧ (2 * m = 2 * x + 1 → m % 2 = 0)
  high : 2 * x ≤ 2 * m + 1 ∧ (2 * x = 2 * m + 1 → m % 2 = 0)

variable {num den : Nat}

/-- A rounded quotient that is half a unit off is even. -/
theorem roundHalfEven_even (num : Nat) {den : Nat} (h : 0 < den)
    (htie : 2 * num = (2 * roundHalfEven num den + 1) * den ∨
      2 * roundHalfEven num den * den = 2 * num + den) :
    roundHalfEven num den % 2 = 0 := by
  have hdm := Nat.div_add_mod num den
  have hlt := Nat.mod_lt num h
  simp only [roundHalfEven] at htie ⊢
  generalize num / den = k at *
  generalize num % den = r at *
  subst hdm
  have hup : 2 * (k + 1) * den = 2 * (den * k) + 2 * den := by ring
  have hdown : (2 * k + 1) * den = 2 * (den * k) + den := by ring
  have hdown' : 2 * k * den = 2 * (den * k) := by ring
  have hup' : (2 * (k + 1) + 1) * den = 2 * (den * k) + 3 * den := by ring
  by_cases hless : 2 * r < den
  · rw [if_pos hless] at htie
    omega
  by_cases hmore : den < 2 * r
  · rw [if_neg hless, if_pos hmore] at htie
    omega
  · rw [if_neg hless, if_neg hmore]
    omega

theorem roundsHalfEven_roundHalfEven (num : Nat) {den : Nat} (h : 0 < den) :
    RoundsHalfEven (num / den) (roundHalfEven num den) := by
  obtain ⟨hhigh, hlow⟩ := roundHalfEven_bounds num h
  have heven := roundHalfEven_even num h
  generalize roundHalfEven num den = m at *
  have hden : (0 : ℚ) < den := by exact_mod_cast h
  have hscale : ∀ a : ℚ, a = a * den / den := fun a => by field_simp
  have hquotient : 2 * ((num : ℚ) / den) + 1 = (2 * num + den) / den := by field_simp
  constructor
  · rw [hquotient, hscale (2 * m), div_le_div_iff_of_pos_right hden, div_left_inj' hden.ne']
    exact ⟨by exact_mod_cast hlow, fun htie => heven (.inr (by exact_mod_cast htie))⟩
  · rw [hscale (2 * m + 1), ← mul_div_assoc, div_le_div_iff_of_pos_right hden,
      div_left_inj' hden.ne']
    exact ⟨by exact_mod_cast hhigh, fun htie => heven (.inl (by exact_mod_cast htie))⟩

theorem shiftLeft_cast (a n : Nat) : ((a <<< n : Nat) : ℚ) = a * 2 ^ n := by
  rw [Nat.shiftLeft_eq]
  push_cast
  rfl

/-- A quotient rounded at a scale. -/
theorem roundsHalfEven_roundScaled (num : Nat) {den : Nat} (h : 0 < den) (e : ℤ) :
    RoundsHalfEven (num / den / 2 ^ e) (roundScaled num den e) := by
  unfold roundScaled
  by_cases he : 0 ≤ e
  · rw [if_pos he]
    have hshift : 0 < den <<< e.toNat := by
      rw [Nat.shiftLeft_eq]
      positivity
    have hpow : (2 : ℚ) ^ e = 2 ^ e.toNat := by
      rw [← zpow_natCast, Int.toNat_of_nonneg he]
    have hrounds := roundsHalfEven_roundHalfEven num hshift
    rw [shiftLeft_cast, ← div_div, ← hpow] at hrounds
    exact hrounds
  · rw [if_neg he]
    have hpow : (2 : ℚ) ^ e = (2 ^ (-e).toNat)⁻¹ := by
      rw [← zpow_natCast, Int.toNat_of_nonneg (by omega), ← zpow_neg, neg_neg]
    have hrounds := roundsHalfEven_roundHalfEven (num <<< (-e).toNat) h
    rw [shiftLeft_cast, mul_div_right_comm] at hrounds
    rw [hpow, div_inv_eq_mul]
    exact hrounds

/-! ## The binade of a quotient -/

theorem two_pow_log2_le (h : num ≠ 0) : (2 : ℚ) ^ (num.log2 : ℤ) ≤ num := by
  rw [zpow_natCast]
  exact_mod_cast Nat.log2_self_le h

theorem lt_two_pow_log2 (num : Nat) : (num : ℚ) < 2 ^ ((num.log2 : ℤ) + 1) := by
  have h : num < 2 ^ (num.log2 + 1) := Nat.lt_log2_self
  rw [← Nat.cast_succ, zpow_natCast]
  exact_mod_cast h

/-- The binade of a quotient is the exponent of the power of two at or below it. -/
theorem binade_spec (hnum : num ≠ 0) (hden : den ≠ 0) :
    (2 : ℚ) ^ binade num den ≤ num / den ∧ (num / den : ℚ) < 2 ^ (binade num den + 1) := by
  have hpos : (0 : ℚ) < den := by exact_mod_cast Nat.pos_of_ne_zero hden
  set e : ℤ := (num.log2 : ℤ) - (den.log2 : ℤ) with he
  have htwo : (2 : ℚ) ≠ 0 := by norm_num
  have hreached : (if 0 ≤ e then den <<< e.toNat ≤ num else den ≤ num <<< (-e).toNat) ↔
      (2 : ℚ) ^ e ≤ num / den := by
    rw [le_div_iff₀ hpos]
    by_cases hsign : 0 ≤ e
    · have hpow : (2 : ℚ) ^ e = 2 ^ e.toNat := by
        rw [← zpow_natCast, Int.toNat_of_nonneg hsign]
      rw [if_pos hsign, ← Nat.cast_le (α := ℚ), shiftLeft_cast, hpow, mul_comm]
    · have hpow : (2 : ℚ) ^ e = (2 ^ (-e).toNat)⁻¹ := by
        rw [← zpow_natCast, Int.toNat_of_nonneg (by omega), ← zpow_neg, neg_neg]
      rw [if_neg hsign, ← Nat.cast_le (α := ℚ), shiftLeft_cast, hpow, inv_mul_le_iff₀ (by positivity),
        mul_comm]
  have hlow : (2 : ℚ) ^ (e - 1) ≤ num / den := by
    rw [le_div_iff₀ hpos]
    calc (2 : ℚ) ^ (e - 1) * den
        ≤ 2 ^ (e - 1) * 2 ^ ((den.log2 : ℤ) + 1) :=
          mul_le_mul_of_nonneg_left (lt_two_pow_log2 den).le (Number.two_zpow_pos _).le
      _ = 2 ^ (num.log2 : ℤ) := by
          rw [← zpow_add₀ htwo]
          congr 1
          omega
      _ ≤ num := two_pow_log2_le hnum
  have hhigh : (num / den : ℚ) < 2 ^ (e + 1) := by
    rw [div_lt_iff₀ hpos]
    calc (num : ℚ)
        < 2 ^ ((num.log2 : ℤ) + 1) := lt_two_pow_log2 num
      _ = 2 ^ (e + 1) * 2 ^ (den.log2 : ℤ) := by
          rw [← zpow_add₀ htwo]
          congr 1
          omega
      _ ≤ 2 ^ (e + 1) * den :=
          mul_le_mul_of_nonneg_left (two_pow_log2_le hden) (Number.two_zpow_pos _).le
  unfold binade
  by_cases h : if 0 ≤ e then den <<< e.toNat ≤ num else den ≤ num <<< (-e).toNat
  · simp only [← he, if_pos h]
    exact ⟨hreached.mp h, hhigh⟩
  · simp only [← he, if_neg h, sub_add_cancel]
    exact ⟨hlow, not_le.mp (mt hreached.mpr h)⟩

namespace Number

/-! ## Rounding to a double -/

variable {s m : Nat} {q : ℚ}

/-- What is rounded at its scale lies amid the double with the rounded mantissa. Where the mantissa
is the least one of its scale, the spacing below is smaller, and the rational must not lie below. -/
theorem isAmid_add (hm : RoundsHalfEven (q / 2 ^ ((s : ℤ) - 1074)) m) (hle : m ≤ 2 ^ 53)
    (hscale : s = 0 ∨ 2 ^ 52 ≤ m ∧ 2 ^ 52 * 2 ^ ((s : ℤ) - 1074) ≤ q) :
    IsAmid q (s * 2 ^ 52 + m) := by
  have hpos := two_zpow_pos ((s : ℤ) - 1074)
  have hs : s = 0 ∨ 2 ^ 52 ≤ m := hscale.imp_right And.left
  have hvalue := magnitude_add hs hle
  set u : ℚ := 2 ^ ((s : ℤ) - 1074) with hu
  have hparity : (s * 2 ^ 52 + m) % 2 = m % 2 := by omega
  have hcancel : q / u * u = q := div_mul_cancel₀ q hpos.ne'
  constructor
  · intro p hp
    by_cases hleast : s = 0 ∨ 2 ^ 52 < m
    · have hbelow : magnitude (s * 2 ^ 52 + m) = magnitude p + u := by
        obtain ⟨m, rfl⟩ : ∃ k, m = k + 1 := ⟨m - 1, by omega⟩
        obtain rfl : p = s * 2 ^ 52 + m := by omega
        rw [← add_assoc]
        exact magnitude_succ (by omega) (by omega)
      obtain ⟨hlow, htie⟩ := hm.low
      have hscaled := mul_le_mul_of_nonneg_right hlow hpos.le
      constructor
      · rw [hvalue] at hbelow ⊢
        nlinarith
      · intro hmid
        rw [hparity]
        apply htie
        apply mul_right_cancel₀ hpos.ne'
        rw [hvalue] at hbelow hmid
        linear_combination hmid + hbelow - 2 * hcancel
    · obtain ⟨-, hq⟩ := hscale.resolve_left (by omega)
      have hmin : (m : ℚ) = 2 ^ 52 := by
        have : m = 2 ^ 52 := by omega
        rw [this]
        norm_num
      have hless : magnitude p < magnitude (s * 2 ^ 52 + m) := magnitude_strictMono (by omega)
      rw [hvalue, hmin] at hless ⊢
      exact ⟨by linarith, fun hmid => absurd hmid (by linarith)⟩
  · obtain ⟨hhigh, htie⟩ := hm.high
    have hscaled := mul_le_mul_of_nonneg_right hhigh hpos.le
    have habove : magnitude (s * 2 ^ 52 + m) + u ≤ magnitude (s * 2 ^ 52 + m + 1) := by
      by_cases hcarry : m < 2 ^ 53
      · exact (magnitude_succ hs hcarry).ge
      · obtain rfl : m = 2 ^ 53 := by omega
        have hspace := magnitude_succ (s := s + 1) (m := 2 ^ 52) (.inr (le_refl _)) (by norm_num)
        rw [show (s + 1) * 2 ^ 52 + 2 ^ 52 = s * 2 ^ 52 + 2 ^ 53 by ring,
          show ((s + 1 : Nat) : ℤ) - 1074 = (s - 1074) + 1 by omega, two_zpow_add_one] at hspace
        linarith
    rw [hvalue] at habove ⊢
    constructor
    · nlinarith
    · intro hmid
      rw [hparity]
      apply htie
      apply mul_right_cancel₀ hpos.ne'
      nlinarith

theorem isAmid_zero (h : 2 * q ≤ magnitude 1) : IsAmid q 0 := by
  constructor
  · intro p hp
    omega
  · rw [magnitude_zero, zero_add]
    exact ⟨h, fun _ => rfl⟩

/-- The rounded quotient is the nearest double. -/
theorem isNearest_nearestRank (num : Nat) {den : Nat} (hden : 0 < den) :
    IsNearest (num / den) (nearestRank num den) := by
  unfold nearestRank
  by_cases hnum : num = 0
  · subst hnum
    rw [if_pos rfl, Nat.cast_zero, zero_div]
    exact (isAmid_zero (by simpa using magnitude_nonneg 1)).isNearest (Nat.zero_le _)
  rw [if_neg hnum]
  obtain ⟨hlow, hhigh⟩ := binade_spec hnum hden.ne'
  have hrounds := roundsHalfEven_roundScaled num hden (max (binade num den - 52) (-1074))
  dsimp only
  generalize he : max (binade num den - 52) (-1074) = e at *
  generalize roundScaled num den e = m at *
  generalize (num / den : ℚ) = q at *
  obtain ⟨s, rfl⟩ : ∃ s : Nat, e = s - 1074 := ⟨(e + 1074).toNat, by omega⟩
  have hpos := two_zpow_pos ((s : ℤ) - 1074)
  have htwo : (2 : ℚ) ≠ 0 := by norm_num
  have hscale : ((s : ℤ) - 1074 + 1074).toNat = s := by omega
  rw [hscale, Nat.shiftLeft_eq]
  have hmost : q / 2 ^ ((s : ℤ) - 1074) < 2 ^ 53 := by
    rw [div_lt_iff₀ hpos]
    calc q < 2 ^ (binade num den + 1) := hhigh
      _ ≤ 2 ^ ((53 : ℤ) + (s - 1074)) := zpow_le_zpow_right₀ (by norm_num) (by omega)
      _ = 2 ^ 53 * 2 ^ ((s : ℤ) - 1074) := by
          rw [zpow_add₀ htwo]
          norm_num
  refine IsAmid.isNearest_min (isAmid_add hrounds ?_ ?_)
  · have hm : (m : ℚ) < ((2 ^ 53 + 1 : Nat) : ℚ) := by
      push_cast
      linarith [hrounds.low.1]
    have := Nat.cast_lt.mp hm
    omega
  · by_cases hs : s = 0
    · exact .inl hs
    -- Above the least scale the quotient has its leading bit in place.
    have hleast : 2 ^ 52 * 2 ^ ((s : ℤ) - 1074) ≤ q := by
      calc (2 : ℚ) ^ 52 * 2 ^ ((s : ℤ) - 1074)
          = 2 ^ ((52 : ℤ) + (s - 1074)) := by
            rw [zpow_add₀ htwo]
            norm_num
        _ ≤ 2 ^ binade num den := zpow_le_zpow_right₀ (by norm_num) (by omega)
        _ ≤ q := hlow
    have hm : ((2 ^ 53 : Nat) : ℚ) ≤ ((2 * m + 1 : Nat) : ℚ) := by
      have := (le_div_iff₀ hpos).mpr hleast
      push_cast
      linarith [hrounds.high.1]
    have := Nat.cast_le.mp hm
    exact .inr ⟨by omega, hleast⟩

/-! ## Rounding a decimal -/

/-- `x` is the double nearest to the magnitude `q` with a sign. -/
structure IsRounded (x : Number) (negative : Bool) (q : ℚ) : Prop where
  sign : x.isNegative = negative
  nearest : IsNearest q x.rank

variable {x y : Number} {negative : Bool}

theorem lt_of_le_infinityRank {rank : Nat} (h : rank ≤ infinityRank) : rank < 1 <<< 63 :=
  lt_of_le_of_lt h (by decide)

theorem isRounded_ofRank {rank : Nat} (h : IsNearest q rank) :
    IsRounded (ofRank negative rank) negative q := by
  have hlt := lt_of_le_infinityRank h.le
  exact ⟨isNegative_ofRank negative hlt, by rwa [rank_ofRank negative hlt]⟩

/-- Sign and magnitude have one nearest double. -/
theorem IsRounded.unique (hx : IsRounded x negative q) (hy : IsRounded y negative q) : x = y := by
  rw [← ofRank_rank x, ← ofRank_rank y, hx.sign, hy.sign, hx.nearest.unique hy.nearest]

theorem isRounded_ofRatio (num : Nat) {den : Nat} (hden : 0 < den) :
    IsRounded (ofRatio negative num den) negative (num / den) :=
  isRounded_ofRank (isNearest_nearestRank num hden)

theorem isNearest_infinity_of_le (h : 2 ^ 1024 ≤ q) : IsNearest q infinityRank := by
  apply isNearest_infinityRank
  have hbelow : magnitude (infinityRank - 1) ≤ magnitude infinityRank :=
    magnitude_strictMono.monotone (by omega)
  rw [magnitude_infinityRank] at hbelow ⊢
  generalize (2 : ℚ) ^ 1024 = infinite at *
  linarith

theorem isNearest_zero_of_le (h : q ≤ 2 ^ (-1075 : ℤ)) : IsNearest q 0 := by
  refine (isAmid_zero ?_).isNearest (Nat.zero_le _)
  have hone : magnitude 1 = 2 * 2 ^ (-1075 : ℤ) := by
    rw [← two_zpow_add_one, magnitude, if_pos (by norm_num)]
    norm_num
  rw [hone]
  linarith

theorem ten_zpow_le_two_zpow : (10 : ℚ) ^ (-400 : ℤ) ≤ 2 ^ (-1075 : ℤ) := by
  rw [zpow_neg, zpow_neg]
  gcongr
  exact_mod_cast (by decide +kernel : 2 ^ 1075 ≤ 10 ^ 400)

theorem two_pow_le_ten_zpow : (2 : ℚ) ^ 1024 ≤ 10 ^ (400 : ℤ) := by
  exact_mod_cast (by decide +kernel : 2 ^ 1024 ≤ 10 ^ 400)

/-- The decimal is rounded to the nearest double, whatever its size. -/
theorem isRounded_ofDecimal (negative : Bool) (digits : Nat) (exponent : ℤ) :
    IsRounded (ofDecimal negative digits exponent) negative (digits * 10 ^ exponent) := by
  unfold ofDecimal
  by_cases hzero : digits = 0
  · subst hzero
    rw [if_pos rfl, Nat.cast_zero, zero_mul]
    exact isRounded_ofRank (isNearest_zero_of_le (two_zpow_pos _).le)
  rw [if_neg hzero]
  by_cases hhuge : 400 < exponent
  · rw [if_pos hhuge]
    refine isRounded_ofRank (isNearest_infinity_of_le ?_)
    have hdigits : (1 : ℚ) ≤ digits := by exact_mod_cast Nat.one_le_iff_ne_zero.mpr hzero
    calc (2 : ℚ) ^ 1024
        ≤ 10 ^ (400 : ℤ) := two_pow_le_ten_zpow
      _ ≤ 10 ^ exponent := zpow_le_zpow_right₀ (by norm_num) hhuge.le
      _ ≤ digits * 10 ^ exponent := le_mul_of_one_le_left (by positivity) hdigits
  rw [if_neg hhuge]
  by_cases htiny : (digits.log2 : ℤ) + 1 + 3 * exponent < -1100
  · rw [if_pos htiny]
    refine isRounded_ofRank (isNearest_zero_of_le ?_)
    obtain ⟨k, rfl⟩ : ∃ k : Nat, exponent = -k := ⟨(-exponent).toNat, by omega⟩
    have hten : (10 : ℚ) ^ (-(k : ℤ)) ≤ 2 ^ (-(3 * k : ℤ)) := by
      have hpow : (2 : ℚ) ^ (3 * k : ℤ) = 8 ^ k := by
        rw [zpow_mul, zpow_natCast]
        norm_num
      rw [zpow_neg, zpow_neg, zpow_natCast, hpow]
      gcongr
      norm_num
    calc digits * (10 : ℚ) ^ (-(k : ℤ))
        ≤ 2 ^ ((digits.log2 : ℤ) + 1) * 2 ^ (-(3 * k : ℤ)) :=
          mul_le_mul (lt_two_pow_log2 digits).le hten (by positivity) (two_zpow_pos _).le
      _ = 2 ^ ((digits.log2 : ℤ) + 1 + -(3 * k)) := (zpow_add₀ (by norm_num) _ _).symm
      _ ≤ 2 ^ (-1075 : ℤ) := zpow_le_zpow_right₀ (by norm_num) (by omega)
  rw [if_neg htiny]
  by_cases hwhole : 0 ≤ exponent
  · rw [if_pos hwhole]
    have hvalue : (digits * 10 ^ exponent : ℚ) = (digits * Nat.pow 10 exponent.toNat : Nat) / (1 : Nat) := by
      obtain ⟨k, rfl⟩ := Int.eq_ofNat_of_zero_le hwhole
      simp
    rw [hvalue]
    exact isRounded_ofRatio _ Nat.one_pos
  · rw [if_neg hwhole]
    have hvalue : (digits * 10 ^ exponent : ℚ) = digits / (Nat.pow 10 (-exponent).toNat : Nat) := by
      obtain ⟨k, rfl⟩ : ∃ k : Nat, exponent = -k := ⟨(-exponent).toNat, by omega⟩
      simp [div_eq_mul_inv]
    rw [hvalue]
    exact isRounded_ofRatio _ (Nat.pow_pos (by norm_num))

end Number

end DataBinding
