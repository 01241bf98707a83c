import DataBinding.Number.Shortest
import DataBinding.Proofs.Number.Spelling

set_option autoImplicit false

/-! # The shortest decimal is the shortest

The rationals that round to a finite double are those in its interval (`contains_interval_iff`). If
a decimal with few digits lies in an interval, so does one on a coarse grid that is at least as near
to the middle (`exists_onGrid`): either the decimal itself, or the power of ten between it and the
middle. The search goes through the grids from the coarsest on, so what it finds has no more digits
than any decimal of the interval, and none with as many digits is nearer
(`isShortest_shortest`).
-/

namespace DataBinding

/-! ## Digits -/

theorem lt_ten_pow_digitCount (n : Nat) : n < 10 ^ digitCount n := by
  fun_induction digitCount n with
  | case1 n h => simpa using h
  | case2 n _ ih =>
      rw [pow_succ]
      omega

theorem ten_pow_le_of_digitCount {n : Nat} (h : 0 < n) : 10 ^ (digitCount n - 1) ≤ n := by
  fun_induction digitCount n with
  | case1 n _ =>
      rw [Nat.sub_self, pow_zero]
      exact h
  | case2 n hten ih =>
      have hpos : digitCount (n / 10) ≠ 0 := by
        rw [digitCount]
        split <;> omega
      have hpow : 10 ^ (digitCount (n / 10) + 1 - 1) = 10 ^ (digitCount (n / 10) - 1) * 10 := by
        rw [← pow_succ]
        congr 1
        omega
      have := ih (by omega)
      omega

theorem digitCount_pos (n : Nat) : 0 < digitCount n := by
  rw [digitCount]
  split <;> omega

namespace Decimal

/-- The magnitude of a decimal. -/
def value (d : Decimal) : ℚ := d.digits * 10 ^ d.exponent

variable {d : Decimal}

theorem value_strip (d : Decimal) : d.strip.value = d.value := by
  fun_induction strip d with
  | case1 => rfl
  | case2 d hne hten ih =>
      have hdigits : (d.digits : ℚ) = (d.digits / 10 : Nat) * 10 := by
        have hexact : d.digits = d.digits / 10 * 10 := by omega
        exact_mod_cast hexact
      rw [ih, value, value, hdigits, zpow_add_one₀ (by norm_num)]
      ring
  | case3 => rfl

theorem strip_digits_le (d : Decimal) : d.strip.digits ≤ d.digits := by
  fun_induction strip d with
  | case1 => exact le_refl _
  | case2 d hne hten ih => exact ih.trans (Nat.div_le_self _ _)
  | case3 => exact le_refl _

theorem strip_digits_mod (h : 0 < d.digits) : d.strip.digits % 10 ≠ 0 := by
  fun_induction strip d with
  | case1 d hzero => exact absurd hzero h.ne'
  | case2 d hne hten ih => exact ih (by show 0 < d.digits / 10; omega)
  | case3 d hne hten => exact hten

/-- A power of ten has one digit left. -/
theorem strip_digits_lt {m : Nat} (h : d.digits ≤ 10 ^ m) (hm : 0 < m) : d.strip.digits < 10 ^ m := by
  rcases Nat.lt_or_eq_of_le h with hlt | heq
  · exact lt_of_le_of_lt d.strip_digits_le hlt
  · have hpos : 0 < d.digits := by
      rw [heq]
      positivity
    have hten : d.digits % 10 = 0 := by
      rw [heq]
      exact Nat.mod_eq_zero_of_dvd (dvd_pow_self 10 hm.ne')
    refine lt_of_le_of_ne (d.strip_digits_le.trans h) fun hsame => ?_
    rw [← heq] at hsame
    exact absurd (hsame ▸ hten) (strip_digits_mod hpos)

end Decimal

/-! ## The choice between two decimals -/

/-- Of `a` and `b`, a search for `v` takes `a`: it is nearer, or as near and not the lesser one. -/
def Prefers (v a b : ℚ) : Prop := |v - a| < |v - b| ∨ |v - a| = |v - b| ∧ b ≤ a

section Prefers

variable {v a b c u : ℚ}

theorem Prefers.refl (v a : ℚ) : Prefers v a a := .inr ⟨rfl, le_refl a⟩

theorem Prefers.trans (hab : Prefers v a b) (hbc : Prefers v b c) : Prefers v a c := by
  rcases hab with hab | ⟨hab, hba⟩
  · rcases hbc with hbc | ⟨hbc, -⟩
    · exact .inl (hab.trans hbc)
    · exact .inl (hab.trans_eq hbc)
  · rcases hbc with hbc | ⟨hbc, hcb⟩
    · exact .inl (hab.trans_lt hbc)
    · exact .inr ⟨hab.trans hbc, hcb.trans hba⟩

theorem Prefers.antisymm (hab : Prefers v a b) (hba : Prefers v b a) : a = b := by
  rcases hab with hab | ⟨hab, hle⟩
  · exact absurd hab (not_lt.mpr (hba.elim le_of_lt fun h => h.1.le))
  · rcases hba with hba | ⟨-, hge⟩
    · exact absurd hab.symm hba.ne
    · exact le_antisymm hge hle

/-- What lies between `v` and `b` is preferred to `b`. -/
theorem prefers_of_between (h : v ≤ a ∧ a ≤ b ∨ b ≤ a ∧ a ≤ v) : Prefers v a b := by
  rcases h with ⟨hva, hab⟩ | ⟨hba, hav⟩
  · rcases hab.lt_or_eq with hlt | rfl
    · refine .inl ?_
      rw [abs_of_nonpos (by linarith), abs_of_nonpos (by linarith)]
      linarith
    · exact .inr ⟨rfl, le_refl _⟩
  · refine (lt_or_eq_of_le hba).elim (fun hlt => .inl ?_) fun heq => .inr ⟨by rw [heq], hba⟩
    rw [abs_of_nonneg (by linarith), abs_of_nonneg (by linarith)]
    linarith

theorem prefers_self (v b : ℚ) : Prefers v v b := by
  rcases le_total v b with hle | hle
  · exact prefers_of_between (.inl ⟨le_refl v, hle⟩)
  · exact prefers_of_between (.inr ⟨hle, le_refl v⟩)

/-- Of the two sides of `v` the nearer one is preferred, or else the upper one. -/
theorem prefers_lower (ha : a ≤ v) (h : 2 * v < a + b) : Prefers v a b := by
  refine .inl ?_
  rw [abs_of_nonneg (by linarith), abs_of_nonpos (by linarith)]
  linarith

theorem prefers_upper (ha : a ≤ v) (hb : v ≤ b) (h : a + b ≤ 2 * v) : Prefers v b a := by
  unfold Prefers
  rw [abs_of_nonneg (a := v - a) (by linarith), abs_of_nonpos (a := v - b) (by linarith)]
  rcases h.lt_or_eq with hlt | heq
  · exact .inl (by linarith)
  · exact .inr ⟨by linarith, ha.trans hb⟩

theorem Prefers.mul (h : Prefers v a b) (hu : 0 < u) : Prefers (v * u) (a * u) (b * u) := by
  unfold Prefers at *
  rw [← sub_mul, ← sub_mul, abs_mul, abs_mul, abs_of_pos hu, mul_lt_mul_iff_left₀ hu,
    mul_le_mul_iff_left₀ hu, mul_left_inj' hu.ne']
  exact h

end Prefers

/-! ## The grids of an interval -/

namespace Interval

/-- Whether a rational number of units lies in the interval. -/
def Contains (i : Interval) (y : ℚ) : Prop :=
  if i.closed then i.low ≤ y ∧ y ≤ i.high else i.low < y ∧ y < i.high

variable {i : Interval} {a b c y : ℚ} {x drop s : Nat} {d : Decimal} {t : ℤ}

theorem holds_iff : i.Holds x ↔ i.Contains x := by
  unfold Holds Contains
  split <;> norm_cast

theorem Contains.between (ha : i.Contains a) (hb : i.Contains b) (hac : a ≤ c) (hcb : c ≤ b) :
    i.Contains c := by
  unfold Contains at *
  split at ha
  · rw [if_pos ‹_›] at hb ⊢
    exact ⟨ha.1.trans hac, hcb.trans hb.2⟩
  · rw [if_neg ‹_›] at hb ⊢
    exact ⟨ha.1.trans_le hac, hcb.trans_lt hb.2⟩

/-- The two neighbours of the value on a grid. -/
def IsNeighbour (i : Interval) (drop l : Nat) : Prop :=
  l = i.value / 10 ^ drop ∨ l = i.value / 10 ^ drop + 1

/-- What is found on a grid: the one that is preferred of its decimals in the interval. -/
structure IsNearestOn (i : Interval) (drop : Nat) (d : Decimal) : Prop where
  exponent : d.exponent = i.exponent + drop
  neighbour : i.IsNeighbour drop d.digits
  holds : i.Contains (d.digits * 10 ^ drop)
  preferred : ∀ k : Nat, i.Contains (k * 10 ^ drop) →
    Prefers i.value (d.digits * 10 ^ drop) (k * 10 ^ drop)

/-- The value lies between its two neighbours. -/
theorem value_le_next (i : Interval) (drop : Nat) :
    i.value ≤ (i.value / 10 ^ drop + 1) * 10 ^ drop := by
  have hlt := Nat.lt_mul_div_succ i.value (Nat.pow_pos (n := drop) (Nat.succ_pos 9))
  rw [Nat.mul_comm] at hlt
  exact hlt.le

/-- Between the value and any decimal of a grid lies a neighbour, and it is in the interval if the
decimal is. -/
theorem exists_neighbour (hself : i.Contains i.value) {k : Nat} (hk : i.Contains (k * 10 ^ drop)) :
    ∃ l, i.IsNeighbour drop l ∧ i.Contains (l * 10 ^ drop) ∧
      Prefers i.value (l * 10 ^ drop) (k * 10 ^ drop) := by
  have hpos : (0 : ℚ) < 10 ^ drop := by positivity
  rcases Nat.lt_or_ge (i.value / 10 ^ drop) k with hlt | hle
  · have hup : (i.value : ℚ) ≤ (i.value / 10 ^ drop + 1 : Nat) * 10 ^ drop := by
      exact_mod_cast i.value_le_next drop
    have hbeyond : ((i.value / 10 ^ drop + 1 : Nat) : ℚ) * 10 ^ drop ≤ k * 10 ^ drop :=
      mul_le_mul_of_nonneg_right (by exact_mod_cast hlt) hpos.le
    exact ⟨_, .inr rfl, hself.between hk hup hbeyond, prefers_of_between (.inl ⟨hup, hbeyond⟩)⟩
  · have hdown : ((i.value / 10 ^ drop : Nat) : ℚ) * 10 ^ drop ≤ i.value := by
      exact_mod_cast Nat.div_mul_le_self i.value (10 ^ drop)
    have hbeyond : (k : ℚ) * 10 ^ drop ≤ (i.value / 10 ^ drop : Nat) * 10 ^ drop :=
      mul_le_mul_of_nonneg_right (by exact_mod_cast hle) hpos.le
    exact ⟨_, .inl rfl, hk.between hself hbeyond hdown, prefers_of_between (.inr ⟨hbeyond, hdown⟩)⟩

/-- Of two neighbours in the interval the nearer one is found, and of two equally near ones the
upper one. -/
theorem nearest?_eq (i : Interval) (drop : Nat) :
    (i.nearest? drop = none ∧ ∀ l, i.IsNeighbour drop l → ¬ i.Contains (l * 10 ^ drop)) ∨
    ∃ l, i.nearest? drop = some ⟨l, i.exponent + drop⟩ ∧ i.IsNeighbour drop l ∧
      i.Contains (l * 10 ^ drop) ∧ ∀ l', i.IsNeighbour drop l' → i.Contains (l' * 10 ^ drop) →
        Prefers i.value (l * 10 ^ drop) (l' * 10 ^ drop) := by
  have hdown : i.value / 10 ^ drop * 10 ^ drop ≤ i.value := Nat.div_mul_le_self _ _
  have hup : i.value ≤ i.value / 10 ^ drop * 10 ^ drop + 10 ^ drop := by
    rw [← Nat.succ_mul]
    exact i.value_le_next drop
  unfold nearest? IsNeighbour
  simp only [Nat.pow_eq, forall_eq_or_imp, forall_eq]
  generalize i.value / 10 ^ drop = below at *
  have hsucc : ((below + 1 : Nat) : ℚ) * 10 ^ drop = (below * 10 ^ drop + 10 ^ drop : Nat) := by
    push_cast
    ring
  have hbelow : (below : ℚ) * 10 ^ drop = (below * 10 ^ drop : Nat) := by push_cast; rfl
  rw [hsucc, hbelow, ← holds_iff, ← holds_iff]
  generalize below * 10 ^ drop = down at *
  generalize down + 10 ^ drop = up at *
  by_cases hfound : i.Holds down ∧ (i.Holds up → i.value - down < up - i.value)
  · refine .inr ⟨below, if_pos hfound, .inl rfl, ?_⟩
    rw [hbelow, ← holds_iff]
    refine ⟨hfound.1, fun _ => Prefers.refl _ _, fun hu => ?_⟩
    have hnear := hfound.2 hu
    have hlt : 2 * i.value < down + up := by omega
    exact prefers_lower (by exact_mod_cast hdown) (by exact_mod_cast hlt)
  rw [if_neg hfound]
  by_cases hu : i.Holds up
  · refine .inr ⟨below + 1, if_pos hu, .inr rfl, ?_⟩
    rw [hsucc, ← holds_iff]
    refine ⟨hu, fun hl => ?_, fun _ => Prefers.refl _ _⟩
    have hnear : ¬ i.value - down < up - i.value := fun hnear => hfound ⟨hl, fun _ => hnear⟩
    have hle : down + up ≤ 2 * i.value := by omega
    exact prefers_upper (by exact_mod_cast hdown) (by exact_mod_cast hup) (by exact_mod_cast hle)
  · exact .inl ⟨if_neg hu, fun hl => hfound ⟨hl, fun hu' => absurd hu' hu⟩, hu⟩

/-- The search on one grid finds the preferred decimal, if there is any in the interval. -/
theorem nearest?_spec (hself : i.Contains i.value) (drop : Nat) :
    (i.nearest? drop = none ∧ ∀ k : Nat, ¬ i.Contains (k * 10 ^ drop)) ∨
    ∃ d, i.nearest? drop = some d ∧ i.IsNearestOn drop d := by
  rcases i.nearest?_eq drop with ⟨hnone, hout⟩ | ⟨l, hsome, hl, hin, hpref⟩
  · refine .inl ⟨hnone, fun k hk => ?_⟩
    obtain ⟨l, hl, hin, -⟩ := exists_neighbour hself hk
    exact hout l hl hin
  · refine .inr ⟨_, hsome, rfl, hl, hin, fun k hk => ?_⟩
    obtain ⟨l', hl', hin', hpref'⟩ := exists_neighbour hself hk
    exact (hpref l' hl' hin').trans hpref'

/-- The search ends on the coarsest grid that has a decimal in the interval. -/
theorem search_spec (hself : i.Contains i.value) (n : Nat) :
    ∃ drop ≤ n, i.IsNearestOn drop (i.search n) ∧
      ∀ coarser, drop < coarser → coarser ≤ n → ∀ k : Nat, ¬ i.Contains (k * 10 ^ coarser) := by
  induction n with
  | zero =>
      refine ⟨0, le_refl 0, ?_, fun coarser hlt hle => absurd hle (by omega)⟩
      rcases nearest?_spec hself 0 with ⟨-, hout⟩ | ⟨d, hsome, hd⟩
      · exact absurd (by rwa [pow_zero, mul_one]) (hout i.value)
      · rw [search, hsome]
        exact hd
  | succ n ih =>
      rw [search]
      rcases nearest?_spec hself (n + 1) with ⟨hnone, hout⟩ | ⟨d, hsome, hd⟩
      · obtain ⟨drop, hle, hd, hcoarser⟩ := ih
        rw [hnone]
        refine ⟨drop, by omega, hd, fun coarser hlt hle k => ?_⟩
        rcases Nat.lt_or_eq_of_le hle with hless | rfl
        · exact hcoarser coarser hlt (by omega) k
        · exact hout k
      · rw [hsome]
        exact ⟨n + 1, le_refl _, hd, fun coarser hlt hle => absurd hle (by omega)⟩

/-- A decimal of at most `s` digits that has reached `10 ^ K` has zeros in the places that are left. -/
theorem exists_onPlace {n K : Nat} (hn : n < 10 ^ s) (hK : (10 : ℚ) ^ K ≤ n * 10 ^ t) (hs : s ≤ K) :
    ∃ k : Nat, (k : ℚ) * 10 ^ (K + 1 - s) = n * 10 ^ t := by
  have hplace : ((K + 1 - s : Nat) : ℤ) ≤ t := by
    by_contra hlt
    have hbound : (n : ℚ) * 10 ^ t < 10 ^ K := by
      calc (n : ℚ) * 10 ^ t ≤ n * 10 ^ ((K : ℤ) - s) :=
            mul_le_mul_of_nonneg_left (zpow_le_zpow_right₀ (by norm_num) (by omega)) n.cast_nonneg
        _ < 10 ^ s * 10 ^ ((K : ℤ) - s) :=
            mul_lt_mul_of_pos_right (by exact_mod_cast hn) (zpow_pos (by norm_num) _)
        _ = 10 ^ K := by
            rw [← zpow_natCast, ← zpow_add₀ (by norm_num), add_sub_cancel, zpow_natCast]
    exact absurd hK (not_le.mpr hbound)
  obtain ⟨l, rfl⟩ : ∃ l : Nat, t = l + (K + 1 - s : Nat) := ⟨(t - (K + 1 - s : Nat)).toNat, by omega⟩
  refine ⟨n * 10 ^ l, ?_⟩
  rw [zpow_add₀ (by norm_num), zpow_natCast, zpow_natCast]
  push_cast
  ring

/-- Whatever decimal with few digits lies in the interval, there is one on a coarse grid that is
preferred to it: between the decimal and the value lies a power of ten, or the decimal has as many
places as the value and its last digits are zeros. -/
theorem exists_onGrid (hself : i.Contains i.value) (hvalue : 0 < i.value) {n : Nat} (hpos : 0 < n)
    (hn : n < 10 ^ s) (hin : i.Contains (n * 10 ^ t)) :
    ∃ drop < digitCount i.value, digitCount i.value ≤ drop + s ∧ ∃ k : Nat,
      i.Contains (k * 10 ^ drop) ∧ Prefers i.value (k * 10 ^ drop) (n * 10 ^ t) := by
  obtain ⟨K, hK⟩ : ∃ K, digitCount i.value = K + 1 :=
    ⟨digitCount i.value - 1, by have := digitCount_pos i.value; omega⟩
  have hlow : (10 : ℚ) ^ K ≤ i.value := by
    have h := ten_pow_le_of_digitCount hvalue
    rw [hK, Nat.add_sub_cancel] at h
    exact_mod_cast h
  have hhigh : (i.value : ℚ) ≤ 10 ^ (K + 1) := by
    have h := lt_ten_pow_digitCount i.value
    rw [hK] at h
    exact_mod_cast h.le
  have hs : 0 < s := by
    rcases Nat.eq_zero_or_pos s with rfl | hs
    · rw [pow_zero] at hn
      omega
    · exact hs
  rw [hK]
  rcases lt_or_ge ((n : ℚ) * 10 ^ t) (10 ^ K) with hbelow | hbelow
  · have hone : ((1 : Nat) : ℚ) * 10 ^ K = 10 ^ K := by norm_num
    refine ⟨K, Nat.lt_succ_self K, by omega, 1, ?_, ?_⟩ <;> rw [hone]
    · exact hin.between hself hbelow.le hlow
    · exact prefers_of_between (.inr ⟨hbelow.le, hlow⟩)
  rcases lt_or_ge (10 ^ (K + 1)) ((n : ℚ) * 10 ^ t) with habove | habove
  · have hten : ((10 : Nat) : ℚ) * 10 ^ K = 10 ^ (K + 1) := by
      rw [pow_succ]
      push_cast
      ring
    refine ⟨K, Nat.lt_succ_self K, by omega, 10, ?_, ?_⟩ <;> rw [hten]
    · exact hself.between hin hhigh habove.le
    · exact prefers_of_between (.inl ⟨hhigh, habove.le⟩)
  rcases Nat.lt_or_ge K s with hmany | hfew
  · refine ⟨0, Nat.succ_pos K, by omega, i.value, ?_, ?_⟩ <;> rw [pow_zero, mul_one]
    · exact hself
    · exact prefers_self _ _
  · obtain ⟨k, hk⟩ := exists_onPlace hn hbelow (by omega)
    refine ⟨K + 1 - s, by omega, by omega, k, ?_, ?_⟩ <;> rw [hk]
    · exact hin
    · exact Prefers.refl _ _

/-- What the search leaves after its trailing zeros are gone has no more digits than any decimal of
the interval, and none with as many digits is preferred to it. -/
theorem strip_search_spec (hself : i.Contains i.value) (hvalue : 0 < i.value) :
    ∃ places y, (i.search (digitCount i.value - 1)).strip.digits < 10 ^ places ∧
      (i.search (digitCount i.value - 1)).strip.value = y * 10 ^ i.exponent ∧ i.Contains y ∧
      ∀ (s n : Nat) (t : ℤ), 0 < n → n < 10 ^ s → i.Contains (n * 10 ^ t) →
        places ≤ s ∧ (s ≤ places → Prefers i.value y (n * 10 ^ t)) := by
  obtain ⟨drop, hdrop, hd, hcoarser⟩ := search_spec hself (digitCount i.value - 1)
  generalize i.search (digitCount i.value - 1) = d at hd
  have hcount := digitCount_pos i.value
  obtain ⟨places, hplaces⟩ : ∃ places, digitCount i.value = drop + places :=
    ⟨digitCount i.value - drop, by omega⟩
  have hdigits : d.digits ≤ 10 ^ places := by
    have hlt : i.value / 10 ^ drop < 10 ^ places := by
      rw [Nat.div_lt_iff_lt_mul (Nat.pow_pos (by decide)), ← pow_add, Nat.add_comm, ← hplaces]
      exact lt_ten_pow_digitCount i.value
    rcases hd.neighbour with h | h <;> omega
  refine ⟨places, d.digits * 10 ^ drop, d.strip_digits_lt hdigits (by omega), ?_, hd.holds, ?_⟩
  · rw [Decimal.value_strip, Decimal.value, hd.exponent, add_comm, zpow_add₀ (by norm_num),
      zpow_natCast, mul_assoc]
  · intro s n t hpos hn hin
    obtain ⟨drop', hlt, hle, k, hk, hpref⟩ := exists_onGrid hself hvalue hpos hn hin
    have hfine : drop' ≤ drop := Nat.not_lt.mp fun hless => hcoarser drop' hless (by omega) k hk
    refine ⟨by omega, fun hs => ?_⟩
    obtain rfl : drop' = drop := by omega
    exact (hd.preferred k hk).trans hpref

end Interval

/-! ## The interval of a number -/

namespace Number

variable {n : Number} {y : ℚ}

theorem exists_scale_mantissa (n : Number) :
    ∃ s : Nat, n.rank = s * 2 ^ 52 + n.mantissa ∧ n.exponent = s - 1074 ∧
      (s = 0 ∨ 2 ^ 52 ≤ n.mantissa) ∧ n.mantissa < 2 ^ 53 := by
  unfold mantissa exponent
  simp only [Nat.one_shiftLeft, Nat.shiftRight_eq_div_pow]
  by_cases h : n.rank < 2 ^ 52
  · simp only [if_pos h]
    exact ⟨0, by omega, by omega, .inl rfl, by omega⟩
  · simp only [if_neg h]
    exact ⟨n.rank / 2 ^ 52 - 1, by omega, by omega, .inr (by omega), by omega⟩

/-- A quarter of a unit in the last place. -/
def quarter (n : Number) : ℚ := 2 ^ (n.exponent - 2)

theorem magnitude_rank_quarter (n : Number) : magnitude n.rank = 4 * n.mantissa * n.quarter := by
  rw [magnitude_rank, quarter, zpow_sub₀ (by norm_num)]
  field_simp
  norm_num

/-- How far below the value the interval begins, in quarters. -/
def below (n : Number) : Nat := if n.mantissa = 1 <<< 52 ∧ 1 <<< 53 ≤ n.rank then 1 else 2

theorem magnitude_next (n : Number) :
    magnitude n.rank + magnitude (n.rank + 1) = 2 * ((4 * n.mantissa + 2) * n.quarter) := by
  obtain ⟨s, hrank, hexp, hs, hm⟩ := n.exists_scale_mantissa
  have hnext := magnitude_succ hs hm
  have hunit : (2 : ℚ) ^ ((s : ℤ) - 1074) = 4 * n.quarter := by
    rw [quarter, hexp, zpow_sub₀ (by norm_num) _ 2]
    field_simp
    norm_num
  rw [← hrank, hunit] at hnext
  rw [hnext, magnitude_rank_quarter]
  ring

theorem magnitude_previous {p : Nat} (h : n.rank = p + 1) :
    magnitude p + magnitude n.rank = 2 * ((4 * n.mantissa - n.below) * n.quarter) := by
  obtain ⟨s, hrank, hexp, hs, hm⟩ := n.exists_scale_mantissa
  have hgap : magnitude n.rank = magnitude p + 2 * n.below * n.quarter := by
    unfold below quarter
    simp only [Nat.one_shiftLeft]
    by_cases hpower : n.mantissa = 2 ^ 52 ∧ 2 ^ 53 ≤ n.rank
    · -- Below a power of two the scale is one less.
      obtain ⟨s, rfl⟩ : ∃ s' : Nat, s = s' + 1 := ⟨s - 1, by omega⟩
      obtain rfl : p = s * 2 ^ 52 + (2 ^ 53 - 1) := by omega
      have hexp' : n.exponent - 2 = (s : ℤ) - 1074 - 1 := by omega
      rw [if_pos hpower, h, magnitude_succ (.inr (by norm_num)) (by norm_num), hexp',
        zpow_sub_one₀ (by norm_num) ((s : ℤ) - 1074)]
      norm_num
      ring
    · obtain ⟨m, hmantissa⟩ : ∃ m, n.mantissa = m + 1 := ⟨n.mantissa - 1, by omega⟩
      obtain rfl : p = s * 2 ^ 52 + m := by omega
      rw [if_neg hpower, h, magnitude_succ (by omega) (by omega), hexp,
        zpow_sub₀ (by norm_num) _ 2]
      norm_num
      ring
  rw [magnitude_rank_quarter] at hgap ⊢
  linarith

/-- The unit of the interval divides a quarter. -/
theorem exists_interval_unit (n : Number) :
    ∃ scale : Nat, (scale : ℚ) * 10 ^ n.interval.exponent = n.quarter ∧
      n.interval.low = (4 * n.mantissa - n.below) * scale ∧
      n.interval.value = 4 * n.mantissa * scale ∧
      n.interval.high = (4 * n.mantissa + 2) * scale := by
  refine ⟨_, ?_, rfl, rfl, rfl⟩
  unfold interval quarter
  generalize n.exponent - 2 = e
  by_cases h : 0 ≤ e
  · obtain ⟨k, rfl⟩ := Int.eq_ofNat_of_zero_le h
    simp [shiftLeft_cast]
  · obtain ⟨k, rfl⟩ : ∃ k : Nat, e = -(k : ℤ) := ⟨(-e).toNat, by omega⟩
    have hmin : min (-(k : ℤ)) 0 = -k := min_eq_left (by omega)
    simp only [if_neg h, hmin, neg_neg, Int.toNat_natCast, Nat.pow_eq, Nat.cast_pow,
      Nat.cast_ofNat, zpow_neg, zpow_natCast]
    have hten : (10 : ℚ) ^ k = 2 ^ k * 5 ^ k := by rw [← mul_pow]; norm_num
    rw [hten]
    field_simp

theorem value_interval (n : Number) :
    n.interval.value * (10 : ℚ) ^ n.interval.exponent = magnitude n.rank := by
  obtain ⟨scale, hscale, -, hvalue, -⟩ := n.exists_interval_unit
  rw [magnitude_rank_quarter, ← hscale, hvalue]
  push_cast
  ring

/-- The interval of a finite number holds the rationals that are nearest to it. -/
theorem contains_interval_iff (hfinite : n.rank < infinityRank) (hne : n.rank ≠ 0) :
    n.interval.Contains y ↔ IsNearest (y * 10 ^ n.interval.exponent) n.rank := by
  obtain ⟨p, hp⟩ : ∃ p, n.rank = p + 1 := ⟨n.rank - 1, by omega⟩
  obtain ⟨s, hrank, -, hs, hm⟩ := n.exists_scale_mantissa
  obtain ⟨scale, hscale, hlow, -, hhigh⟩ := n.exists_interval_unit
  have hbelow : n.below ≤ 4 * n.mantissa := by
    unfold below
    split <;> omega
  have hunit : (0 : ℚ) < 10 ^ n.interval.exponent := zpow_pos (by norm_num) _
  have hlower : magnitude p + magnitude n.rank =
      2 * (n.interval.low * 10 ^ n.interval.exponent) := by
    rw [magnitude_previous hp, ← hscale, hlow, Nat.cast_mul, Nat.cast_sub hbelow]
    push_cast
    ring
  have hupper : magnitude n.rank + magnitude (n.rank + 1) =
      2 * (n.interval.high * 10 ^ n.interval.exponent) := by
    rw [magnitude_next, ← hscale, hhigh]
    push_cast
    ring
  have hparity : n.rank % 2 = n.mantissa % 2 := by omega
  have hclosed : n.interval.closed = decide (n.mantissa % 2 = 0) := rfl
  rw [isNearest_iff hfinite]
  generalize n.interval = i at *
  generalize (10 : ℚ) ^ i.exponent = u at *
  have hle : ∀ a b : ℚ, 2 * (a * u) ≤ 2 * (b * u) ↔ a ≤ b := fun a b => by
    rw [mul_le_mul_iff_right₀ two_pos, mul_le_mul_iff_left₀ hunit]
  have heq : ∀ a b : ℚ, 2 * (a * u) = 2 * (b * u) ↔ a = b := fun a b => by
    rw [mul_right_inj' two_ne_zero, mul_left_inj' hunit.ne']
  have hamid : IsAmid (y * u) n.rank ↔
      (i.low ≤ y ∧ (i.low = y → n.mantissa % 2 = 0)) ∧
        (y ≤ i.high ∧ (y = i.high → n.mantissa % 2 = 0)) := by
    rw [← hle i.low y, ← hle y i.high, ← heq i.low y, ← heq y i.high, ← hlower, ← hupper, ← hparity]
    constructor
    · exact fun h => ⟨h.low p hp, h.high⟩
    · rintro ⟨hlow, hhigh⟩
      refine ⟨fun p' hp' => ?_, hhigh⟩
      obtain rfl : p' = p := by omega
      exact hlow
  rw [hamid, Interval.Contains, hclosed]
  by_cases heven : n.mantissa % 2 = 0
  · simp only [heven, decide_true, if_true, implies_true, and_true]
  · simp only [heven, decide_false, Bool.false_eq_true, if_false, imp_false, lt_iff_le_and_ne, ne_eq]

end Number

/-! ## The shortest decimal -/

/-- The decimal `0.ds · 10 ^ e`. -/
def decimalValue (ds : List Char) (e : ℤ) : ℚ := runValue ds * 10 ^ (e - ds.length)

/-- `0.ds · 10 ^ e` is the shortest decimal that reads back as the magnitude of rank `r`. Of several
with the fewest digits it is the nearest one, and the greater one of two equally near. -/
structure IsShortest (r : Nat) (ds : List Char) (e : ℤ) : Prop where
  digits : IsDigits ds
  lower : 10 ^ (e - 1) ≤ decimalValue ds e
  upper : decimalValue ds e < 10 ^ e
  reads : Number.IsNearest (decimalValue ds e) r
  fewest : ∀ ds' e', IsDigits ds' → Number.IsNearest (decimalValue ds' e') r →
    ds.length ≤ ds'.length
  preferred : ∀ ds' e', IsDigits ds' → ds'.length = ds.length →
    Number.IsNearest (decimalValue ds' e') r →
      Prefers (Number.magnitude r) (decimalValue ds e) (decimalValue ds' e')

section IsShortest

open Number

variable {n : Number} {r m : Nat} {ds ds' : List Char} {e e' : ℤ}

theorem isDigits_toDigits (m : Nat) : IsDigits (Nat.toDigits 10 m) :=
  fun _ hd => Nat.isDigit_of_mem_toDigits (by decide) (by decide) hd

theorem runValue_toDigits (m : Nat) : runValue (Nat.toDigits 10 m) = m := by
  rw [runValue, Nat.ofDigitChars_ten_toDigits]

/-- A number begins with a digit that is not zero. -/
theorem ten_pow_le_of_toDigits (hm : 0 < m) : 10 ^ ((Nat.toDigits 10 m).length - 1) ≤ m := by
  rcases Nat.lt_or_ge 1 (Nat.toDigits 10 m).length with hlong | hshort
  · by_contra hlt
    have hle := (Nat.length_toDigits_le_iff (by decide) (by omega)).mpr (Nat.lt_of_not_le hlt)
    omega
  · rw [Nat.sub_eq_zero_of_le hshort, pow_zero]
    exact hm

/-- The value of a decimal that begins with its first digit. -/
theorem ten_zpow_le_value {d : Decimal} (hd : 0 < d.digits) :
    10 ^ (d.exponent + (Nat.toDigits 10 d.digits).length - 1) ≤ d.value := by
  have hle : (10 : ℚ) ^ ((Nat.toDigits 10 d.digits).length - 1) ≤ d.digits := by
    exact_mod_cast ten_pow_le_of_toDigits hd
  have hlength : ((Nat.toDigits 10 d.digits).length - 1 : Nat) =
      ((Nat.toDigits 10 d.digits).length - 1 : ℤ) := Nat.cast_pred Nat.length_toDigits_pos
  rw [add_sub_assoc, add_comm, zpow_add₀ (by norm_num), ← hlength, zpow_natCast, Decimal.value]
  exact mul_le_mul_of_nonneg_right hle (zpow_nonneg (by norm_num) _)

theorem decimalValue_lt (hds : IsDigits ds) : decimalValue ds e < 10 ^ e := by
  have hlt : (runValue ds : ℚ) < 10 ^ (ds.length : ℤ) := by
    rw [zpow_natCast]
    exact_mod_cast runValue_lt hds
  calc decimalValue ds e < 10 ^ (ds.length : ℤ) * 10 ^ (e - ds.length) :=
        mul_lt_mul_of_pos_right hlt (zpow_pos (by norm_num) _)
    _ = 10 ^ e := by rw [← zpow_add₀ (by norm_num), add_sub_cancel]

theorem isNearest_magnitude (hr : r ≤ infinityRank) : IsNearest (magnitude r) r := by
  refine ⟨hr, fun other _ hne => .inl ?_⟩
  rw [sub_self, abs_zero, abs_pos, sub_ne_zero]
  exact fun hsame => hne (magnitude_strictMono.injective hsame).symm

/-- A decimal that reads back as a number other than zero is not zero. -/
theorem runValue_pos (hr : r ≠ 0) (h : IsNearest (decimalValue ds e) r) : 0 < runValue ds := by
  rw [Nat.pos_iff_ne_zero]
  intro hzero
  have hnearest := isNearest_magnitude (Nat.zero_le infinityRank)
  rw [decimalValue, hzero, Nat.cast_zero, zero_mul, ← magnitude_zero] at h
  exact hr (h.unique hnearest)

theorem isShortest_shortest (hfinite : n.rank < infinityRank) (hne : n.rank ≠ 0) :
    IsShortest n.rank (Nat.toDigits 10 n.shortest.digits)
      (n.shortest.exponent + (Nat.toDigits 10 n.shortest.digits).length) := by
  have hmagnitude := n.value_interval
  have hcontains := fun y => contains_interval_iff (y := y) hfinite hne
  have hself : n.interval.Contains n.interval.value := by
    rw [hcontains, hmagnitude]
    exact isNearest_magnitude hfinite.le
  have hvalue : 0 < n.interval.value := by
    rw [Nat.pos_iff_ne_zero]
    intro hzero
    rw [hzero, Nat.cast_zero, zero_mul, ← magnitude_zero] at hmagnitude
    exact hne (magnitude_strictMono.injective hmagnitude).symm
  obtain ⟨places, y, hplaces, hy, hin, hall⟩ := Interval.strip_search_spec hself hvalue
  have hshortest : (n.interval.search (digitCount n.interval.value - 1)).strip = n.shortest := rfl
  rw [hshortest] at hplaces hy
  have hdecimal : decimalValue (Nat.toDigits 10 n.shortest.digits)
      (n.shortest.exponent + (Nat.toDigits 10 n.shortest.digits).length) = n.shortest.value := by
    rw [decimalValue, runValue_toDigits, add_sub_cancel_right, Decimal.value]
  have hreads := (hcontains y).mp hin
  rw [← hy, ← hdecimal] at hreads
  have hpos := runValue_pos hne hreads
  rw [runValue_toDigits] at hpos
  have hlength : (Nat.toDigits 10 n.shortest.digits).length ≤ places := by
    have hplaces_ne : places ≠ 0 := by
      rintro rfl
      omega
    exact (Nat.length_toDigits_le_iff (by decide) (Nat.pos_of_ne_zero hplaces_ne)).mpr hplaces
  -- Every other decimal that reads back lies in the interval.
  have hother : ∀ ds' e', IsDigits ds' → IsNearest (decimalValue ds' e') n.rank →
      places ≤ ds'.length ∧ (ds'.length ≤ places →
        Prefers (magnitude n.rank) n.shortest.value (decimalValue ds' e')) := by
    intro ds' e' hds' hreads'
    have hunits : decimalValue ds' e' = (runValue ds' * 10 ^ (e' - ds'.length - n.interval.exponent)) *
        10 ^ n.interval.exponent := by
      rw [mul_assoc, ← zpow_add₀ (by norm_num), sub_add_cancel, decimalValue]
    have hin' := hreads'
    rw [hunits, ← hcontains] at hin'
    obtain ⟨hle, hpref⟩ := hall ds'.length _ _ (runValue_pos hne hreads') (runValue_lt hds') hin'
    refine ⟨hle, fun hlen => ?_⟩
    rw [← hmagnitude, hy, hunits]
    exact (hpref hlen).mul (zpow_pos (by norm_num) _)
  refine ⟨isDigits_toDigits _, ?_, decimalValue_lt (isDigits_toDigits _), hreads, ?_, ?_⟩
  · rw [hdecimal]
    exact ten_zpow_le_value hpos
  · exact fun ds' e' hds' hreads' => hlength.trans (hother ds' e' hds' hreads').1
  · intro ds' e' hds' hlen hreads'
    rw [hdecimal]
    exact (hother ds' e' hds' hreads').2 (hlen.trans_le hlength)

theorem digitValue_injective {d d' : Char} (hd : d.isDigit = true) (hd' : d'.isDigit = true)
    (h : Numeral.digitValue d = Numeral.digitValue d') : d = d' := by
  have hrange := toNat_of_isDigit hd
  have hrange' := toNat_of_isDigit hd'
  have hzero : '0'.toNat = 48 := rfl
  rw [Numeral.digitValue, Numeral.digitValue] at h
  exact Char.ext (UInt32.toNat_inj.mp (by show d.toNat = d'.toNat; omega))

/-- The digits of a given number of places are determined by their value. -/
theorem runValue_injective (hds : IsDigits ds) (hds' : IsDigits ds') (hlen : ds.length = ds'.length)
    (h : runValue ds = runValue ds') : ds = ds' := by
  induction ds using List.reverseRecOn generalizing ds' with
  | nil => exact (List.length_eq_zero_iff.mp hlen.symm).symm
  | append_singleton ds d ih =>
      obtain ⟨ds', d', rfl⟩ : ∃ init last, ds' = init ++ [last] := by
        rcases List.eq_nil_or_concat ds' with rfl | ⟨init, last, rfl⟩
        · simp at hlen
        · exact ⟨init, last, List.concat_eq_append⟩
      have hd := hds d (by simp)
      have hd' := hds' d' (by simp)
      rw [runValue_append, runValue_append] at h
      have hlt := digitValue_lt hd
      have hlt' := digitValue_lt hd'
      have hinit : ds = ds' := ih (fun c hc => hds c (by simp [hc])) (fun c hc => hds' c (by simp [hc]))
        (by simpa using hlen) (by omega)
      have hlast : d = d' := digitValue_injective hd hd' (by omega)
      rw [hinit, hlast]

/-- There is only one shortest decimal. -/
theorem IsShortest.unique (h : IsShortest r ds e) (h' : IsShortest r ds' e') :
    ds = ds' ∧ e = e' := by
  have hlen : ds.length = ds'.length :=
    le_antisymm (h.fewest _ _ h'.digits h'.reads) (h'.fewest _ _ h.digits h.reads)
  have hvalue : decimalValue ds e = decimalValue ds' e' :=
    (h.preferred _ _ h'.digits hlen.symm h'.reads).antisymm (h'.preferred _ _ h.digits hlen h.reads)
  have hexp : e = e' := by
    have hlt := h.lower.trans_lt (hvalue.trans_lt h'.upper)
    have hlt' := h'.lower.trans_lt (hvalue.symm.trans_lt h.upper)
    rw [zpow_lt_zpow_iff_right₀ (by norm_num)] at hlt hlt'
    omega
  subst hexp
  refine ⟨runValue_injective h.digits h'.digits hlen ?_, rfl⟩
  rw [decimalValue, decimalValue, hlen, mul_left_inj' (zpow_ne_zero _ (by norm_num))] at hvalue
  exact_mod_cast hvalue

end IsShortest

end DataBinding
