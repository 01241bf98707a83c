import DataBinding.Number.Layout
import DataBinding.Proofs.Number.Shortest

set_option autoImplicit false

/-! # How the digits of a number are set

A decimal is written out (`IsPlain`), or with one digit before the point and a power of ten
(`IsScientific`). In both ways the text is a numeral that stands for the decimal
(`IsPlain.spells`, `IsScientific.spells`).

Which of the two it is depends on the number, by comparison with the doubles nearest to two powers of
ten. It might as well depend on the decimal: a number has reached such a double exactly if its
shortest decimal has reached the power of ten (`IsShortest.le_iff`).
-/

namespace DataBinding

open Number

/-- The decimal `0.ds · 10 ^ e`, written out: with zeros behind its digits, with a point between
them, or with zeros before them. -/
inductive IsPlain (ds : List Char) (e : ℤ) : List Char → Prop
  | padded {zeros : Nat} (h : e = ds.length + zeros) : IsPlain ds e (ds ++ List.replicate zeros '0')
  | pointed {w f} (hds : ds = w ++ f) (hw : w ≠ []) (hf : f ≠ []) (h : e = w.length) :
      IsPlain ds e (w ++ '.' :: f)
  | fraction {zeros : Nat} (h : e = -(zeros : ℤ)) :
      IsPlain ds e ('0' :: '.' :: (List.replicate zeros '0' ++ ds))

/-- A power of ten: its mark, a sign that is always there, and its magnitude. -/
def powerText (power : ℤ) : List Char :=
  'e' :: (if power < 0 then '-' else '+') :: (toString power.natAbs).toList

/-- The decimal `0.ds · 10 ^ e` with a power of ten: the first digit, a point with the other digits
if there are any, and the power. -/
inductive IsScientific (e : ℤ) : List Char → List Char → Prop
  | single (d : Char) : IsScientific e [d] (d :: powerText (e - 1))
  | pointed (d : Char) {rest : List Char} (hne : rest ≠ []) :
      IsScientific e (d :: rest) (d :: '.' :: (rest ++ powerText (e - 1)))

variable {ds t sign : List Char} {e k : ℤ} {negative : Bool} {r limit : Nat}

/-! ## What is written -/

theorem isPlain_positional (hne : ds ≠ []) (e : ℤ) :
    IsPlain ds e (displayed.positional ds e).toList := by
  rw [Layout.positional]
  by_cases hsmall : e ≤ 0
  · rw [if_pos hsmall]
    simp only [Layout.zeros, String.toList_append, String.toList_ofList]
    exact .fraction (by omega)
  rw [if_neg hsmall]
  by_cases hlong : ds.length ≤ e.toNat
  · have hwhole : displayed.whole = "" := rfl
    rw [if_pos hlong, hwhole, String.append_empty]
    simp only [Layout.zeros, String.toList_append, String.toList_ofList]
    exact .padded (by omega)
  · rw [if_neg hlong]
    simp only [String.toList_append, String.toList_ofList, List.append_assoc]
    have hw : ds.take e.toNat ≠ [] := by
      rw [ne_eq, List.take_eq_nil_iff, not_or]
      exact ⟨by omega, hne⟩
    have hf : ds.drop e.toNat ≠ [] := by
      rw [ne_eq, List.drop_eq_nil_iff]
      exact hlong
    refine .pointed (List.take_append_drop _ ds).symm hw hf ?_
    rw [List.length_take]
    omega

theorem isScientific_scientific (hne : ds ≠ []) (e : ℤ) :
    IsScientific e ds (displayed.scientific ds e).toList := by
  obtain ⟨d, rest, rfl⟩ := List.exists_cons_of_ne_nil hne
  have hpower : ("e" : String).toList ++ ((if e - 1 < 0 then "-" else displayed.plus).toList ++
      (Nat.repr (e - 1).natAbs).toList) = powerText (e - 1) := by
    rw [powerText]
    split <;> rfl
  rw [Layout.scientific]
  cases rest with
  | nil =>
      have hlen : ([d] : List Char).length ≤ 1 := le_refl 1
      simp only [if_pos hlen, String.append_assoc, String.empty_append, String.toList_append, hpower]
      rw [String.toList_ofList]
      exact .single d
  | cons d' rest =>
      have hlen : ¬ (d :: d' :: rest).length ≤ 1 := by simp
      simp only [if_neg hlen, String.append_assoc, String.toList_append, hpower, String.toList_ofList]
      exact .pointed d (List.cons_ne_nil d' rest)

/-! ## What the text stands for -/

/-- A text that spells the decimal `0.ds · 10 ^ e`, whatever sign stands before it. -/
def SpellsDecimal (ds : List Char) (e : ℤ) (t : List Char) : Prop :=
  ∀ sign negative, IsSign sign negative → ∃ p, Spells (sign ++ t) p ∧ p.negative = negative ∧
    p.exact = decimalValue ds e ∧ runValue p.power ≤ (e - 1).natAbs

/-- Without a power of ten the last digit has the place that the point gives it. -/
theorem spellsDecimal_of_mantissa {w f : List Char} (ht : IsMantissa t w f)
    (hvalue : decimalValue ds e = runValue (w ++ f) * 10 ^ (-(f.length : ℤ))) :
    SpellsDecimal ds e t := by
  intro sign negative hsign
  refine ⟨⟨negative, w, f, false, []⟩, ⟨sign, t, [], ?_, hsign, ht, .absent⟩, rfl, ?_,
    Nat.zero_le _⟩
  · rw [List.append_nil]
  · have hexp : (⟨negative, w, f, false, []⟩ : Spelling).exponent 0 = -(f.length : ℤ) := by
      simp [Spelling.exponent]
    rw [hvalue, ← hexp]
    rfl

theorem IsPlain.spells (h : IsPlain ds e t) (hne : ds ≠ []) (hds : IsDigits ds) :
    SpellsDecimal ds e t := by
  have hzeros : ∀ n, IsDigits (List.replicate n '0') := by
    intro n d hd
    rw [List.eq_of_mem_replicate hd]
    rfl
  cases h with
  | @padded zeros h =>
      refine spellsDecimal_of_mantissa
        (.whole (List.append_ne_nil_of_left_ne_nil hne _) (hds.append (hzeros zeros))) ?_
      rw [List.append_nil, runValue_append_zeros, decimalValue, h, add_sub_cancel_left,
        zpow_natCast, List.length_nil, Nat.cast_zero, neg_zero, zpow_zero]
      push_cast
      ring
  | @pointed w f hsplit hw hf h =>
      subst hsplit
      refine spellsDecimal_of_mantissa (.pointed hw (fun d hd => hds d (List.mem_append_left _ hd))
        fun d hd => hds d (List.mem_append_right _ hd)) ?_
      rw [decimalValue, h, List.length_append]
      congr 2
      omega
  | @fraction zeros h =>
      have hzero : IsDigits ['0'] := hzeros 1
      refine spellsDecimal_of_mantissa
        (.pointed (List.cons_ne_nil _ _) hzero ((hzeros zeros).append hds)) ?_
      have hrun : runValue (['0'] ++ (List.replicate zeros '0' ++ ds)) = runValue ds := by
        rw [← List.append_assoc, ← List.replicate_one, List.replicate_append_replicate,
          runValue_zeros_append]
      rw [hrun, decimalValue, h, List.length_append, List.length_replicate]
      congr 2
      omega

theorem isPower_powerText (power : ℤ) :
    IsPower (powerText power) (decide (power < 0)) (toString power.natAbs).toList := by
  have hdigits : (toString power.natAbs).toList = Nat.toDigits 10 power.natAbs := Nat.toList_repr
  have hsign : IsSign [if power < 0 then '-' else '+'] (decide (power < 0)) := by
    by_cases h : power < 0
    · rw [if_pos h, decide_eq_true h]
      exact .minus
    · rw [if_neg h, decide_eq_false h]
      exact .plus
  have hpower := IsPower.marked (.inl rfl) hsign Nat.toDigits_ne_nil (isDigits_toDigits power.natAbs)
  rw [← hdigits] at hpower
  exact hpower

/-- With a power of ten the first digit stands before the point. -/
theorem spellsDecimal_of_power {w f m : List Char} (hm : IsMantissa m w f)
    (ht : t = m ++ powerText (e - 1)) (hds : ds = w ++ f) (hw : w.length = 1) :
    SpellsDecimal ds e t := by
  intro sign negative hsign
  have hrun : runValue (toString (e - 1).natAbs).toList = (e - 1).natAbs := by
    have hdigits : (toString (e - 1).natAbs).toList = Nat.toDigits 10 (e - 1).natAbs := Nat.toList_repr
    rw [hdigits, runValue_toDigits]
  refine ⟨⟨negative, w, f, decide (e - 1 < 0), (toString (e - 1).natAbs).toList⟩,
    ⟨sign, m, powerText (e - 1), ?_, hsign, hm, isPower_powerText _⟩, rfl, ?_, hrun.le⟩
  · rw [ht]
  · rw [Spelling.exact, Spelling.magnitudeAt, Spelling.exponent, hrun, decimalValue, hds,
      List.length_append, hw]
    congr 2
    by_cases h : e - 1 < 0
    · simp only [decide_eq_true h, if_true]
      omega
    · simp only [decide_eq_false h, Bool.false_eq_true, if_false]
      omega

theorem IsScientific.spells (h : IsScientific e ds t) (hds : IsDigits ds) :
    SpellsDecimal ds e t := by
  cases h with
  | single d => exact spellsDecimal_of_power (.whole (List.cons_ne_nil d []) hds) rfl rfl rfl
  | @pointed d rest hne =>
      have hd : IsDigits [d] := fun c hc => hds c (List.mem_cons.mpr (.inl (List.mem_singleton.mp hc)))
      have hrest : IsDigits rest := fun c hc => hds c (List.mem_cons_of_mem d hc)
      exact spellsDecimal_of_power (.pointed (List.cons_ne_nil d []) hd hrest) rfl rfl rfl

/-! ## Where the notation changes -/

theorem IsShortest.ne_nil (h : IsShortest r ds e) : ds ≠ [] := by
  rintro rfl
  have hlower := h.lower
  rw [decimalValue, runValue, Nat.ofDigitChars_nil, Nat.cast_zero, zero_mul] at hlower
  exact absurd hlower (not_le.mpr (zpow_pos (by norm_num) _))

theorem decimalValue_one (k : ℤ) : decimalValue ['1'] (k + 1) = 10 ^ k := by
  have hrun : runValue ['1'] = 1 := rfl
  rw [decimalValue, hrun, List.length_singleton, Nat.cast_one, Nat.cast_one, one_mul, add_sub_cancel_right]

/-- A number has reached the double nearest to a power of ten exactly if its shortest decimal has
reached the power. The double must not be much less than the power, for then some decimal below the
power might be as short. -/
theorem IsShortest.le_iff (h : IsShortest r ds e) (hlimit : IsNearest (10 ^ k) limit)
    (hclose : 19 * 10 ^ (k - 1) < 2 * magnitude limit) : limit ≤ r ↔ k < e := by
  constructor
  · intro hle
    by_contra hlt
    have hbelow : decimalValue ds e < 10 ^ k :=
      h.upper.trans_le (zpow_le_zpow_right₀ (by norm_num) (by omega))
    obtain rfl : limit = r := le_antisymm hle (h.reads.mono hlimit hbelow.le)
    -- The power of ten itself has one digit, so the shortest decimal has no more.
    rw [← decimalValue_one] at hlimit
    have hlen : ds.length = 1 := by
      have hle := h.fewest ['1'] (k + 1) (by decide) hlimit
      have hpos := List.length_pos_of_ne_nil h.ne_nil
      rw [List.length_singleton] at hle
      omega
    have hnine : decimalValue ds e ≤ 9 * 10 ^ (k - 1) := by
      have hrun := runValue_lt h.digits
      rw [hlen] at hrun
      have hdigit : (runValue ds : ℚ) ≤ 9 := by exact_mod_cast Nat.le_of_lt_succ hrun
      have hpow : (10 : ℚ) ^ (e - 1) ≤ 10 ^ (k - 1) := zpow_le_zpow_right₀ (by norm_num) (by omega)
      rw [decimalValue, hlen, Nat.cast_one]
      exact mul_le_mul hdigit hpow (zpow_nonneg (by norm_num) _) (by norm_num)
    have hpref := h.preferred ['1'] (k + 1) (by decide) hlen.symm hlimit
    rw [decimalValue_one] at hpref
    have hnear : |magnitude limit - decimalValue ds e| ≤ |magnitude limit - 10 ^ k| :=
      hpref.elim le_of_lt fun heq => heq.1.le
    rw [dist_le_dist_iff hbelow] at hnear
    have hten : (10 : ℚ) ^ k = 10 * 10 ^ (k - 1) := by
      rw [← zpow_one_add₀ (by norm_num), add_sub_cancel]
    linarith
  · intro hlt
    have hreached : (10 : ℚ) ^ k ≤ decimalValue ds e :=
      (zpow_le_zpow_right₀ (by norm_num) (by omega)).trans h.lower
    exact hlimit.mono h.reads hreached

/-- The least number that is displayed without a power of ten, and the least one above it that is
displayed with one, are nearest to two powers of ten. -/
theorem isNearest_displayed :
    IsNearest (10 ^ (-6 : ℤ)) displayed.least.rank ∧ IsNearest (10 ^ (21 : ℤ)) displayed.limit.rank := by
  have hleast := (isRounded_ofDecimal false 1 (-6)).nearest
  have hlimit := (isRounded_ofDecimal false 1 21).nearest
  rw [Nat.cast_one, one_mul] at hleast hlimit
  exact ⟨hleast, hlimit⟩

theorem magnitude_displayed :
    19 * 10 ^ (-6 - 1 : ℤ) < 2 * magnitude displayed.least.rank ∧
      19 * 10 ^ (21 - 1 : ℤ) < 2 * magnitude displayed.limit.rank := by
  have hleast : displayed.least.rank = 4517329193108106637 := by decide +kernel
  have hlimit : displayed.limit.rank = 4921056587992461136 := by decide +kernel
  rw [hleast, hlimit, magnitude, magnitude]
  norm_num

/-- Which of the two notations a number is displayed in. -/
theorem IsShortest.displayed_iff {n : Number} (h : IsShortest n.rank ds e) :
    displayed.limit.rank ≤ n.rank ∨ n.rank < displayed.least.rank ↔ ¬ (-5 ≤ e ∧ e ≤ 21) := by
  have hleast := h.le_iff isNearest_displayed.1 magnitude_displayed.1
  have hlimit := h.le_iff isNearest_displayed.2 magnitude_displayed.2
  omega

end DataBinding
