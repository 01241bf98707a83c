import Mathlib.Data.Nat.Factorization.Basic
import DataBinding.Value
import DataBinding.Proofs.Number.Layout
import DataBinding.Proofs.Number.Reading
import DataBinding.Proofs.Sameness

set_option autoImplicit false

/-! # The text of a number

A finite number is displayed by the digits of its shortest decimal (`toList_display`), and an integer
of up to `2 ^ 53` by its plain numeral, since no shorter decimal reads back as it
(`isShortest_integer`). Read again, the text of any number is the number itself, but for the sign of
a zero and the bits of "not a number" (`toNumber_display`).
-/

namespace DataBinding

open Number

variable {n : Number} {ds t cs : List Char} {e : ℤ} {r : Nat}

/-! ## The digits and their notation -/

/-- The sign of a number, if it has to be shown. -/
def signText (negative : Bool) : List Char := if negative then ['-'] else []

theorem isSign_signText (negative : Bool) : IsSign (signText negative) negative := by
  cases negative with
  | false => exact .absent
  | true => exact .minus

/-- `t` is the notation of `0.ds · 10 ^ e`: plain in a range of exponents, and else with a power of
ten. -/
def IsNotation (ds : List Char) (e : ℤ) (t : List Char) : Prop :=
  if -5 ≤ e ∧ e ≤ 21 then IsPlain ds e t else IsScientific e ds t

theorem toList_display (hfinite : n.rank < infinityRank) (hne : n.rank ≠ 0)
    (h : IsShortest n.rank ds e) :
    ∃ t, n.display.toList = signText n.isNegative ++ t ∧ IsNotation ds e t := by
  have hds := h.ne_nil
  have hnan : n.isNaN = false := decide_eq_false (by omega)
  have hzero : n.isZero = false := decide_eq_false hne
  have hinf : n.isInfinite = false := decide_eq_false (by omega)
  have hsign : (if n.isNegative then "-" else "" : String).toList = signText n.isNegative := by
    cases n.isNegative <;> rfl
  have htext : displayed.magnitude n =
      if ¬ (-5 ≤ e ∧ e ≤ 21) then displayed.scientific ds e else displayed.positional ds e := by
    obtain ⟨rfl, rfl⟩ := h.unique (isShortest_shortest hfinite hne)
    simp only [Layout.magnitude, h.displayed_iff]
  refine ⟨(displayed.magnitude n).toList, ?_, ?_⟩
  · simp only [Number.display, Layout.write, hnan, hzero, hinf, Bool.false_eq_true, if_false,
      String.toList_append, hsign]
  · rw [htext, IsNotation, ite_not]
    split
    · exact isPlain_positional hds e
    · exact isScientific_scientific hds e

/-! ## Reading the text again -/

theorem IsNotation.spells (h : IsNotation ds e t) (hne : ds ≠ []) (hds : IsDigits ds) :
    SpellsDecimal ds e t := by
  unfold IsNotation at h
  split at h
  · exact h.spells hne hds
  · exact h.spells hds

/-- The exponents of finite numbers other than zero. -/
theorem IsShortest.exponent_bounds (h : IsShortest r ds e) (hfinite : r < infinityRank)
    (hne : r ≠ 0) : -400 < e ∧ e ≤ 400 := by
  constructor
  · by_contra hlow
    have hsmall : decimalValue ds e ≤ 2 ^ (-1075 : ℤ) :=
      calc decimalValue ds e ≤ 10 ^ e := h.upper.le
        _ ≤ 10 ^ (-400 : ℤ) := zpow_le_zpow_right₀ (by norm_num) (by omega)
        _ ≤ 2 ^ (-1075 : ℤ) := ten_zpow_le_two_zpow
    exact hne (h.reads.unique (isNearest_zero_of_le hsmall))
  · by_contra hhigh
    have hlarge : 2 ^ 1024 ≤ decimalValue ds e :=
      calc (2 : ℚ) ^ 1024 ≤ 10 ^ (400 : ℤ) := two_pow_le_ten_zpow
        _ ≤ 10 ^ (e - 1) := zpow_le_zpow_right₀ (by norm_num) (by omega)
        _ ≤ decimalValue ds e := h.lower
    exact hfinite.ne (h.reads.unique (isNearest_infinity_of_le hlarge))

theorem toNumber_display_of_finite (hfinite : n.rank < infinityRank) (hne : n.rank ≠ 0) :
    (Value.text n.display).toNumber = n := by
  have hshortest := isShortest_shortest hfinite hne
  obtain ⟨t, htext, ht⟩ := toList_display hfinite hne hshortest
  have hspells := ht.spells hshortest.ne_nil hshortest.digits
  obtain ⟨p, hp, hnegative, hexact, hpower⟩ := hspells _ _ (isSign_signText n.isNegative)
  have hbounds := hshortest.exponent_bounds hfinite hne
  have hcap : runValue p.power < 10 * Numeral.exponentCap := by
    rw [Numeral.exponentCap]
    omega
  rw [← htext] at hp
  refine (toNumber_eq_iff hp.isTrimmed).mpr (.numeral hp ⟨hnegative.symm, ?_⟩)
  rw [counted_eq_exact hcap, hexact]
  exact hshortest.reads

theorem display_of_isNaN (h : n.isNaN = true) : n.display = "NaN" := by
  rw [Number.display, Layout.write, if_pos h]

theorem display_of_isZero (h : n.isZero = true) : n.display = "0" := by
  simp only [Number.display, Layout.write, isNaN_eq_false_of_isZero h, h, Bool.false_eq_true,
    if_false, if_true]
  rfl

theorem display_of_isInfinite (h : n.isInfinite = true) :
    n.display = if n.isNegative then "-Infinity" else "Infinity" := by
  have hrank : n.rank = infinityRank := of_decide_eq_true h
  have hnan : n.isNaN = false := decide_eq_false (by omega)
  have hzero : n.isZero = false := decide_eq_false (by rw [hrank]; decide)
  simp only [Number.display, Layout.write, hnan, hzero, h, Bool.false_eq_true, if_false, if_true]
  cases n.isNegative <;> rfl

/-- A number is read back from its text. -/
theorem toNumber_display (n : Number) : (Value.text n.display).toNumber.same n = true := by
  rw [same_iff]
  rcases lt_trichotomy n.rank infinityRank with hfinite | hinf | hnan
  · by_cases hzero : n.rank = 0
    · have hn : n.isZero = true := decide_eq_true hzero
      have hread : (Value.text "0").toNumber = zero := by decide +kernel
      rw [display_of_isZero hn, hread]
      exact .inr (.inl ⟨by decide, hn⟩)
    · rw [toNumber_display_of_finite hfinite hzero]
      exact .inr (.inr rfl)
  · have hread : ∀ negative : Bool, (Value.text
        (if negative then "-Infinity" else "Infinity")).toNumber = infinity negative := by
      decide +kernel
    rw [display_of_isInfinite (decide_eq_true hinf), hread, infinity, ← hinf, ofRank_rank]
    exact .inr (.inr rfl)
  · have hn : n.isNaN = true := decide_eq_true hnan
    have hread : (Value.text "NaN").toNumber = nan := by decide +kernel
    rw [display_of_isNaN hn, hread]
    exact .inl ⟨by decide, hn⟩

/-! ## Integers -/

/-- The rank of `2 ^ 53`. Up to there the doubles are at most one apart. -/
def exactRank : Nat := 1074 * 2 ^ 52 + 2 ^ 53

theorem magnitude_exactRank : magnitude exactRank = 2 ^ 53 := by
  rw [exactRank, magnitude_add (.inr (by norm_num)) (le_refl _)]
  norm_num

theorem magnitude_succ_le (h : r < exactRank) : magnitude (r + 1) ≤ magnitude r + 1 := by
  obtain ⟨s, m, rfl, hs, hm⟩ := exists_scale r
  rw [exactRank] at h
  have hstep : (2 : ℚ) ^ ((s : ℤ) - 1074) ≤ 1 :=
    zpow_le_one_of_nonpos₀ (by norm_num) (by omega)
  rw [magnitude_succ hs hm]
  linarith

theorem le_exactRank (h : magnitude r ≤ 2 ^ 53) : r ≤ exactRank := by
  rwa [← magnitude_exactRank, magnitude_strictMono.le_iff_le] at h

/-- The rationals that are nearest to an integer of up to `2 ^ 53`. -/
theorem isNearest_integer_bounds {N : Nat} {q : ℚ} (hN : magnitude r = N) (hpos : 0 < N)
    (hle : N ≤ 2 ^ 53) (h : IsNearest q r) :
    (2 * N : ℚ) ≤ 2 * q + 1 ∧ (2 * q ≤ 2 * N + 1 ∨ N = 2 ^ 53 ∧ q ≤ N + 1) := by
  have hrank : r ≤ exactRank := le_exactRank (by rw [hN]; exact_mod_cast hle)
  have hne : r ≠ 0 := by
    rintro rfl
    rw [magnitude_zero] at hN
    exact hpos.ne (by exact_mod_cast hN)
  have hfinite : r < infinityRank := lt_of_le_of_lt hrank (by decide)
  obtain ⟨p, rfl⟩ : ∃ p, r = p + 1 := ⟨r - 1, by omega⟩
  have hamid := (isNearest_iff hfinite).mp h
  have hlow := (hamid.low p rfl).1
  have hhigh := hamid.high.1
  have hbelow := magnitude_succ_le (r := p) (by omega)
  rw [hN] at hlow hhigh hbelow
  refine ⟨by linarith, ?_⟩
  rcases Nat.lt_or_eq_of_le hrank with hless | htop
  · have habove := magnitude_succ_le hless
    rw [hN] at habove
    exact .inl (by linarith)
  · have hvalue : (N : ℚ) = 2 ^ 53 := by rw [← hN, htop, magnitude_exactRank]
    have habove : magnitude (p + 1 + 1) = N + 2 := by
      have hnext : exactRank = 1075 * 2 ^ 52 + 2 ^ 52 := by decide
      rw [htop, hnext, magnitude_succ (.inr (le_refl _)) (by norm_num), ← hnext,
        magnitude_exactRank, hvalue]
      norm_num
    rw [habove] at hhigh
    exact .inr ⟨by exact_mod_cast hvalue, by linarith⟩

/-- Of the ways to split off zeros at the end, the one that splits off all of them leaves least. -/
theorem le_of_mul_ten_pow_eq {m j c l : Nat} (hm : m % 10 ≠ 0) (h : c * 10 ^ l = m * 10 ^ j) :
    m ≤ c := by
  rcases Nat.le_total l j with hle | hle
  · obtain ⟨i, rfl⟩ := Nat.exists_eq_add_of_le hle
    rw [Nat.add_comm, pow_add, ← mul_assoc] at h
    rw [Nat.eq_of_mul_eq_mul_right (Nat.pow_pos (by decide)) h]
    exact Nat.le_mul_of_pos_right m (Nat.pow_pos (by decide))
  · obtain ⟨i, rfl⟩ := Nat.exists_eq_add_of_le hle
    rw [Nat.add_comm, pow_add, ← mul_assoc] at h
    have hmc : c * 10 ^ i = m := Nat.eq_of_mul_eq_mul_right (Nat.pow_pos (by decide)) h
    cases i with
    | zero => omega
    | succ i =>
        rw [pow_succ, ← mul_assoc] at hmc
        omega

/-- A decimal that reads back as such an integer has all its digits, but for the zeros at the end. -/
theorem le_of_reads_integer {m j c : Nat} {l : ℤ} (hm : m % 10 ≠ 0)
    (hN : magnitude r = (m * 10 ^ j : Nat)) (hle : m * 10 ^ j ≤ 2 ^ 53)
    (h : IsNearest (c * 10 ^ l) r) : m ≤ c := by
  have hpos : 0 < m * 10 ^ j := Nat.mul_pos (by omega) (Nat.pow_pos (by decide))
  have hmN : m ≤ m * 10 ^ j := Nat.le_mul_of_pos_right m (Nat.pow_pos (by decide))
  obtain ⟨hlow, hhigh⟩ := isNearest_integer_bounds hN hpos hle h
  rcases lt_or_ge l 0 with hneg | hnonneg
  · have htenth : (10 : ℚ) ^ l ≤ 10 ^ (-1 : ℤ) := zpow_le_zpow_right₀ (by norm_num) (by omega)
    have hc : (c : ℚ) * 10 ^ l ≤ c * 10 ^ (-1 : ℤ) := mul_le_mul_of_nonneg_left htenth c.cast_nonneg
    rw [zpow_neg_one] at hc
    have hten : 10 * (m * 10 ^ j) ≤ c + 5 := by
      rw [← Nat.cast_le (α := ℚ)]
      push_cast at hlow ⊢
      linarith
    omega
  · obtain ⟨l, rfl⟩ := Int.eq_ofNat_of_zero_le hnonneg
    rw [zpow_natCast] at hlow hhigh
    have hlow' : 2 * (m * 10 ^ j) ≤ 2 * (c * 10 ^ l) + 1 := by exact_mod_cast hlow
    have hhigh' : 2 * (c * 10 ^ l) ≤ 2 * (m * 10 ^ j) + 1 ∨
        m * 10 ^ j = 2 ^ 53 ∧ c * 10 ^ l ≤ m * 10 ^ j + 1 := by exact_mod_cast hhigh
    by_cases heq : c * 10 ^ l = m * 10 ^ j
    · exact le_of_mul_ten_pow_eq hm heq
    · -- Next to `2 ^ 53` there is one more integer that is rounded to it, and it ends in a three.
      have hodd : c * 10 ^ l = 9007199254740993 := by omega
      cases l with
      | zero => omega
      | succ l =>
          rw [pow_succ, ← mul_assoc] at hodd
          omega

/-- The shortest decimal of such an integer is the integer. -/
theorem isShortest_integer {m j : Nat} (hm : m % 10 ≠ 0) (hN : magnitude r = (m * 10 ^ j : Nat))
    (hle : m * 10 ^ j ≤ 2 ^ 53) :
    IsShortest r (Nat.toDigits 10 m) (j + (Nat.toDigits 10 m).length) := by
  have hvalue : decimalValue (Nat.toDigits 10 m) (j + (Nat.toDigits 10 m).length) = magnitude r := by
    rw [decimalValue, runValue_toDigits, add_sub_cancel_right, hN, zpow_natCast]
    push_cast
    rfl
  have hlower : (10 : ℚ) ^ ((j : ℤ) + (Nat.toDigits 10 m).length - 1) ≤ m * 10 ^ (j : ℤ) :=
    ten_zpow_le_value (d := ⟨m, j⟩) (by show 0 < m; omega)
  refine ⟨isDigits_toDigits m, ?_, decimalValue_lt (isDigits_toDigits m), ?_, ?_, ?_⟩
  · rw [hvalue, hN]
    push_cast
    exact hlower
  · rw [hvalue]
    have hrank : r ≤ exactRank := le_exactRank (by rw [hN]; exact_mod_cast hle)
    exact isNearest_magnitude (hrank.trans (by decide))
  · intro ds' e' hds' hreads
    have hmc : m < 10 ^ ds'.length :=
      lt_of_le_of_lt (le_of_reads_integer hm hN hle hreads) (runValue_lt hds')
    have hpos : 0 < ds'.length := by
      by_contra hzero
      rw [Nat.eq_zero_of_not_pos hzero, pow_zero] at hmc
      omega
    exact (Nat.length_toDigits_le_iff (by decide) hpos).mpr hmc
  · intro ds' e' hds' hlen hreads
    rw [hvalue]
    exact prefers_self _ _

/-- The zeros at the end of an integer are the last digits of its numeral. -/
theorem toDigits_mul_ten_pow {m : Nat} (hm : 0 < m) (j : Nat) :
    Nat.toDigits 10 (m * 10 ^ j) = Nat.toDigits 10 m ++ List.replicate j '0' := by
  induction j with
  | zero => simp
  | succ j ih =>
      have hpos : 0 < m * 10 ^ j := Nat.mul_pos hm (Nat.pow_pos (by decide))
      rw [pow_succ, ← mul_assoc, Nat.toDigits_of_base_le (by decide) (by omega),
        Nat.mul_div_cancel _ (by decide), Nat.mul_mod_left, ih, List.replicate_succ',
        List.append_assoc]
      rfl

theorem IsPlain.eq_padded {zeros : Nat} (h : IsPlain ds e t) (hne : ds ≠ [])
    (he : e = ds.length + zeros) : t = ds ++ List.replicate zeros '0' := by
  have hpos := List.length_pos_of_ne_nil hne
  cases h with
  | @padded zeros' h =>
      obtain rfl : zeros' = zeros := by omega
      rfl
  | @pointed w f hds hw hf h =>
      subst hds
      have hf := List.length_pos_of_ne_nil hf
      rw [List.length_append] at he
      omega
  | fraction h => omega

theorem magnitude_of_value {i : ℤ} (h : n.value = i) : magnitude n.rank = i.natAbs := by
  have habs : |n.value| = magnitude n.rank := by
    rw [Number.value]
    split
    · rw [abs_neg, abs_of_nonneg (magnitude_nonneg _)]
    · exact abs_of_nonneg (magnitude_nonneg _)
  rw [← habs, h, Nat.cast_natAbs, Int.cast_abs]

theorem isNegative_of_value {i : ℤ} (h : n.value = i) (hne : n.rank ≠ 0) :
    n.isNegative = decide (i < 0) := by
  have hpos : 0 < magnitude n.rank := by
    rw [← magnitude_zero]
    exact magnitude_strictMono (Nat.pos_of_ne_zero hne)
  rw [Number.value] at h
  cases hsign : n.isNegative with
  | true =>
      rw [hsign, if_pos rfl] at h
      have hneg : (i : ℚ) < 0 := by linarith
      exact (decide_eq_true (by exact_mod_cast hneg)).symm
  | false =>
      rw [hsign, if_neg Bool.false_ne_true] at h
      have hneg : (0 : ℚ) ≤ i := by linarith
      exact (decide_eq_false (not_lt.mpr (by exact_mod_cast hneg))).symm

theorem toList_toString (i : ℤ) :
    (toString i).toList = signText (decide (i < 0)) ++ Nat.toDigits 10 i.natAbs := by
  cases i with
  | ofNat k =>
      have hsign : decide (Int.ofNat k < 0) = false := decide_eq_false (by simp)
      rw [hsign]
      exact Nat.toList_repr
  | negSucc k =>
      have hsign : decide (Int.negSucc k < 0) = true := decide_eq_true (Int.negSucc_lt_zero k)
      have htext : toString (Int.negSucc k) = "-" ++ Nat.repr (k + 1) := rfl
      rw [hsign, htext, String.toList_append, Nat.toList_repr]
      rfl

/-- An integer is displayed as its plain numeral. -/
theorem display_integer {i : ℤ} (hle : |i| ≤ 2 ^ 53) (h : n.value = i) :
    n.display = toString i := by
  have hN := magnitude_of_value h
  have hle' : i.natAbs ≤ 2 ^ 53 := by
    rw [Int.abs_eq_natAbs] at hle
    omega
  by_cases hzero : n.rank = 0
  · have hi : i = 0 := by
      rw [hzero, magnitude_zero] at hN
      have := Nat.cast_eq_zero.mp hN.symm
      omega
    rw [display_of_isZero (decide_eq_true hzero), hi]
    rfl
  have hpos : i.natAbs ≠ 0 := by
    intro hi
    rw [hi, Nat.cast_zero, ← magnitude_zero] at hN
    exact hzero (magnitude_strictMono.injective hN)
  have hfinite : n.rank < infinityRank := by
    have hrank : n.rank ≤ exactRank := le_exactRank (by rw [hN]; exact_mod_cast hle')
    exact lt_of_le_of_lt hrank (by decide)
  obtain ⟨j, m, hm, hi⟩ := Nat.exists_eq_pow_mul_and_not_dvd hpos 10 (by decide)
  rw [Nat.mul_comm] at hi
  have hm' : m % 10 ≠ 0 := fun hmod => hm (Nat.dvd_of_mod_eq_zero hmod)
  rw [hi] at hN hle'
  have hshortest := isShortest_integer hm' hN hle'
  obtain ⟨t, htext, ht⟩ := toList_display hfinite hzero hshortest
  have hdigits := toDigits_mul_ten_pow (m := m) (by omega) j
  have hlength : (Nat.toDigits 10 m).length + j ≤ 16 := by
    have hlong : (Nat.toDigits 10 (m * 10 ^ j)).length ≤ 16 :=
      (Nat.length_toDigits_le_iff (by decide) (by decide)).mpr (by omega)
    rwa [hdigits, List.length_append, List.length_replicate] at hlong
  rw [IsNotation, if_pos (by omega)] at ht
  rw [← String.toList_inj, htext, toList_toString, ← isNegative_of_value h hzero, hi, hdigits,
    ht.eq_padded Nat.toDigits_ne_nil (Int.add_comm _ _)]

/-! ## The whole text -/

/-- What `text` must be to show the number `n`. -/
structure ShowsNumber (n : Number) (text : String) : Prop where
  notANumber : n.isNaN = true → text = "NaN"
  infinite : n.isInfinite = true → text = if n.isNegative then "-Infinity" else "Infinity"
  zero : n.isZero = true → text = "0"
  shortest : n.isFinite = true → n.isZero = false →
    ∃! d : List Char × ℤ, IsShortest n.rank d.1 d.2
  digits : n.isFinite = true → n.isZero = false → ∀ ds e, IsShortest n.rank ds e →
    ∃ t, text.toList = signText n.isNegative ++ t ∧ IsNotation ds e t
  integer : ∀ i : ℤ, |i| ≤ 2 ^ 53 → n.value = i → text = toString i
  readsBack : (Value.number (Value.text text).toNumber).same (.number n) = true

/-- Every number is shown by the digits of its shortest decimal, and is read back from them. -/
theorem Value.display_showsNumber (n : Number) : ShowsNumber n (Value.number n).display := by
  rw [Value.display]
  have hrank : n.isFinite = true → n.rank < infinityRank := of_decide_eq_true
  have hne : n.isZero = false → n.rank ≠ 0 := of_decide_eq_false
  refine ⟨display_of_isNaN, display_of_isInfinite, display_of_isZero, fun hfinite hzero => ?_,
    fun hfinite hzero ds e h => toList_display (hrank hfinite) (hne hzero) h,
    fun i hle h => display_integer hle h, toNumber_display n⟩
  refine ⟨⟨_, _⟩, isShortest_shortest (hrank hfinite) (hne hzero), fun d hd => ?_⟩
  obtain ⟨hds, he⟩ := hd.unique (isShortest_shortest (hrank hfinite) (hne hzero))
  exact Prod.ext hds he

example : (Value.number (.ofDecimal true 15 299)).display = "-1.5e+300" := by decide +kernel

end DataBinding
