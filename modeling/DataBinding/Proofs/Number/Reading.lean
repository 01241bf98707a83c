import DataBinding.Value
import DataBinding.Proofs.Number.Spelling

set_option autoImplicit false

/-! # The number that a text stands for

A text, without the blanks at its ends, stands for zero if it is empty, for an infinity in three
spellings, for the nearest double if it is a numeral of the grammar, and for "not a number"
otherwise (`StandsFor`). That is what is read (`Value.toNumber_readsText`), with one reservation: an
exponent counts only up to the digit at which it reaches `exponentCap`. A numeral of tens of
thousands of digits can make up for such an exponent, and then it is read as another number than the
one that it spells (`not_always_readsExactly`).
-/

namespace DataBinding

open Number Text

/-- The number that a text without blanks at its ends stands for, when a spelling has the given
magnitude. -/
inductive StandsFor (magnitude : Spelling → ℚ) (t : List Char) : Number → Prop
  | empty (h : t = []) : StandsFor magnitude t zero
  | infinite (h : t = "Infinity".toList ∨ t = "+Infinity".toList) :
      StandsFor magnitude t (infinity false)
  | negativelyInfinite (h : t = "-Infinity".toList) : StandsFor magnitude t (infinity true)
  | numeral {p x} (h : Spells t p) (hx : IsRounded x p.negative (magnitude p)) :
      StandsFor magnitude t x
  | other (hne : t ≠ []) (hinf : t ∉ ["Infinity".toList, "+Infinity".toList, "-Infinity".toList])
      (h : ∀ p, ¬ Spells t p) : StandsFor magnitude t nan

/-- A spelling of `inf`, `infinity` or `nan` in any mixture of cases, with a sign or without. -/
def IsWord (t : List Char) : Prop :=
  ∃ sign negative word, t = sign ++ word ∧ IsSign sign negative ∧
    word.map Char.toLower ∈ ["inf".toList, "infinity".toList, "nan".toList]

variable {s : String} {t : List Char} {p : Spelling} {x : Number}

/-! ## What is read -/

theorem Spells.ne_nil (h : Spells t p) : t ≠ [] := by
  obtain ⟨sign, mantissa, power, rfl, -, hm, -⟩ := h
  obtain ⟨d, rest, rfl, -⟩ := hm.exists_cons
  simp

/-- The spellings of infinity are words, so they are no numerals. -/
theorem Spells.not_infinite (h : Spells t p) :
    t ∉ ["Infinity".toList, "+Infinity".toList, "-Infinity".toList] := by
  intro hmem
  have hwordy : ∀ t ∈ ["Infinity".toList, "+Infinity".toList, "-Infinity".toList],
      isWordy t = true := by decide +kernel
  have hrefused := hwordy t hmem
  rw [isWordy_of_spells h] at hrefused
  cases hrefused

theorem not_mem_infinities_iff :
    t ∉ ["Infinity".toList, "+Infinity".toList, "-Infinity".toList] ↔
      ¬ (t = "Infinity".toList ∨ t = "+Infinity".toList) ∧ ¬ t = "-Infinity".toList := by
  simp only [List.mem_cons, List.not_mem_nil, or_false, not_or, and_assoc]

theorem isRounded_numeral (p : Spelling) :
    IsRounded p.numeral.toNumber p.negative p.counted := by
  rw [Spelling.counted, Spelling.magnitudeAt, ← digitsValue_eq_runValue]
  exact isRounded_ofDecimal p.negative p.numeral.digits p.numeral.exponent

theorem ofText_of_spells (h : Spells (trimChars s.toList) p) : ofText s = p.numeral.toNumber := by
  have hread : Numeral.read? (trimChars s.toList) = some p.numeral :=
    Numeral.read?_eq_some_iff.mpr ⟨p, h, rfl⟩
  obtain ⟨hinf, hneg⟩ := not_mem_infinities_iff.mp h.not_infinite
  have hwordy := isWordy_of_spells h
  rw [ofText_eq, if_neg h.ne_nil, if_neg hinf, if_neg hneg, hwordy, if_neg Bool.false_ne_true,
    parse?_of_not_wordy hwordy, hread]
  rfl

theorem ofText_of_other (hne : trimChars s.toList ≠ [])
    (hinf : trimChars s.toList ∉ ["Infinity".toList, "+Infinity".toList, "-Infinity".toList])
    (h : ∀ p, ¬ Spells (trimChars s.toList) p) : ofText s = nan := by
  have hread : Numeral.read? (trimChars s.toList) = none := by
    rw [Option.eq_none_iff_forall_ne_some]
    intro n hn
    obtain ⟨p, hp, -⟩ := Numeral.read?_eq_some_iff.mp hn
    exact h p hp
  obtain ⟨hinf, hneg⟩ := not_mem_infinities_iff.mp hinf
  rw [ofText_eq, if_neg hne, if_neg hinf, if_neg hneg]
  cases hwordy : isWordy (trimChars s.toList) with
  | true => rfl
  | false => rw [if_neg Bool.false_ne_true, parse?_of_not_wordy hwordy, hread]; rfl

theorem StandsFor.ofText_eq (h : StandsFor Spelling.counted (trimChars s.toList) x) :
    ofText s = x := by
  cases h with
  | empty h => rw [Number.ofText_eq, if_pos h]
  | infinite h =>
      have hne : trimChars s.toList ≠ [] := by rcases h with h | h <;> rw [h] <;> decide
      rw [Number.ofText_eq, if_neg hne, if_pos h]
  | negativelyInfinite h =>
      have hne : trimChars s.toList ≠ [] := by rw [h]; decide
      have hinf : ¬ (trimChars s.toList = "Infinity".toList ∨
          trimChars s.toList = "+Infinity".toList) := by rw [h]; decide
      rw [Number.ofText_eq, if_neg hne, if_neg hinf, if_pos h]
  | numeral h hx => rw [ofText_of_spells h, (isRounded_numeral _).unique hx]
  | other hne hinf h => exact ofText_of_other hne hinf h

theorem standsFor_ofText (s : String) :
    StandsFor Spelling.counted (trimChars s.toList) (ofText s) := by
  by_cases hne : trimChars s.toList = []
  · rw [Number.ofText_eq, if_pos hne]
    exact .empty hne
  by_cases hinf : trimChars s.toList = "Infinity".toList ∨ trimChars s.toList = "+Infinity".toList
  · rw [Number.ofText_eq, if_neg hne, if_pos hinf]
    exact .infinite hinf
  by_cases hneg : trimChars s.toList = "-Infinity".toList
  · rw [Number.ofText_eq, if_neg hne, if_neg hinf, if_pos hneg]
    exact .negativelyInfinite hneg
  by_cases hspelled : ∃ p, Spells (trimChars s.toList) p
  · obtain ⟨p, hp⟩ := hspelled
    rw [ofText_of_spells hp]
    exact .numeral hp (isRounded_numeral p)
  · have hnone : ∀ p, ¬ Spells (trimChars s.toList) p := fun p hp => hspelled ⟨p, hp⟩
    have hother := not_mem_infinities_iff.mpr ⟨hinf, hneg⟩
    rw [ofText_of_other hne hother hnone]
    exact .other hne hother hnone

theorem toNumber_eq_iff (ht : IsTrimmed s.toList t) :
    (Value.text s).toNumber = x ↔ StandsFor Spelling.counted t x := by
  obtain rfl := isTrimmed_iff.mp ht
  rw [Value.toNumber]
  constructor
  · rintro rfl
    exact standsFor_ofText s
  · exact StandsFor.ofText_eq

/-- Two magnitudes with the same nearest double make no difference. -/
theorem StandsFor.mono {magnitude magnitude' : Spelling → ℚ}
    (hsame : ∀ p, Spells t p → ∀ r, IsNearest (magnitude p) r → IsNearest (magnitude' p) r)
    (h : StandsFor magnitude t x) : StandsFor magnitude' t x := by
  cases h with
  | empty h => exact .empty h
  | infinite h => exact .infinite h
  | negativelyInfinite h => exact .negativelyInfinite h
  | numeral h hx => exact .numeral h ⟨hx.sign, hsame _ h _ hx.nearest⟩
  | other hne hinf h => exact .other hne hinf h

theorem Number.IsRounded.isNaN_eq_false {negative : Bool} {q : ℚ} (h : IsRounded x negative q) :
    x.isNaN = false := by
  have := h.nearest.le
  rw [isNaN, decide_eq_false_iff_not]
  omega

theorem isWordy_of_isWord (h : IsWord t) : isWordy t = true := by
  obtain ⟨sign, negative, word, rfl, hsign, hword⟩ := h
  have hsuffix : word.map Char.toLower <:+ (sign ++ word).map Char.toLower := by
    rw [List.map_append]
    exact List.suffix_append _ _
  rw [isWordy_iff]
  generalize word.map Char.toLower = small at *
  simp only [List.mem_cons, List.not_mem_nil, or_false] at hword
  rcases hword with rfl | rfl | rfl
  · exact .inl (.trans (by decide) hsuffix.isInfix)
  · exact .inl (.trans (by decide) hsuffix.isInfix)
  · exact .inr (.trans (by decide) hsuffix.isInfix)

/-- How a text is read that is `t` between blanks. -/
structure ReadsText (s : String) (t : List Char) : Prop where
  trimmed : IsTrimmed s.toList t
  /-- The number is the one that the text stands for as far as its exponent counts. -/
  counted : ∀ x, (Value.text s).toNumber = x ↔ StandsFor Spelling.counted t x
  /-- An exponent counts up to the digit at which it reaches the cap. -/
  capped : ∀ p, Spells t p → CountsAs p.power (Numeral.exponentValue p.power)
  /-- The exponent counts as a whole if it is less than ten times the cap, and does so in effect if
  the text is short. -/
  exact : (t.length ≤ 65000 ∨ ∀ p, Spells t p → runValue p.power < 10 * Numeral.exponentCap) →
    ∀ x, (Value.text s).toNumber = x ↔ StandsFor Spelling.exact t x
  /-- No numeral is refused. -/
  accepted : ∀ p, Spells t p → isWordy t = false ∧ (Value.text s).toNumber.isNaN = false
  /-- Of the words only the three spellings of infinity are read. -/
  refused : IsWord t → t ∉ ["Infinity".toList, "+Infinity".toList, "-Infinity".toList] →
    (Value.text s).toNumber = nan

/-- Every text is read as its grammar says, but for the end of a long exponent. -/
theorem Value.toNumber_readsText (s : String) : ∃ t, ReadsText s t := by
  have htrimmed := isTrimmed_trimChars s.toList
  generalize trimChars s.toList = t at htrimmed
  have hcounted : ∀ x, (Value.text s).toNumber = x ↔ StandsFor Spelling.counted t x :=
    fun x => toNumber_eq_iff htrimmed
  refine ⟨t, htrimmed, hcounted, fun p _ => countsAs_exponentValue p.power, fun hshort x => ?_,
    fun p hp => ?_, fun hword hinf => ?_⟩
  · have hsame : ∀ p, Spells t p → ∀ r, IsNearest p.counted r ↔ IsNearest p.exact r :=
      fun p hp r => isNearest_counted_iff hp (hshort.imp_right fun h => h p hp)
    rw [hcounted]
    exact ⟨StandsFor.mono fun p hp r => (hsame p hp r).mp,
      StandsFor.mono fun p hp r => (hsame p hp r).mpr⟩
  · have hrounded := isRounded_numeral p
    refine ⟨isWordy_of_spells hp, ?_⟩
    rw [(hcounted _).mpr (.numeral hp hrounded)]
    exact hrounded.isNaN_eq_false
  · refine (hcounted nan).mpr (.other ?_ hinf fun p hp => ?_)
    · rintro rfl
      exact absurd (isWordy_of_isWord hword) (by decide +kernel)
    · have hrefused := isWordy_of_isWord hword
      rw [isWordy_of_spells hp] at hrefused
      cases hrefused

/-! ## An exponent that is cut off -/

/-- Whether the number of a text is the one that its whole spelling stands for. -/
def ReadsExactly (s : String) : Prop :=
  ∃ t, IsTrimmed s.toList t ∧ ∀ x, (Value.text s).toNumber = x ↔ StandsFor Spelling.exact t x

/-- The spelling of a one with some zeros, and with a power of ten that takes zeros away. -/
def shiftedOne (zeros : Nat) (power : List Char) : Spelling :=
  ⟨false, '1' :: List.replicate zeros '0', [], true, power⟩

/-- The text that is spelled so. -/
def shiftedText (zeros : Nat) (power : List Char) : List Char :=
  '1' :: List.replicate zeros '0' ++ 'e' :: '-' :: power

variable {zeros e : Nat} {power : List Char}

theorem runValue_one_zeros (zeros : Nat) :
    runValue ('1' :: List.replicate zeros '0') = 10 ^ zeros := by
  have hone : runValue ['1'] = 1 := rfl
  rw [← List.singleton_append, runValue_append_zeros, hone, Nat.mul_one]

theorem magnitudeAt_shiftedOne (zeros : Nat) (power : List Char) (e : Nat) :
    (shiftedOne zeros power).magnitudeAt e = 10 ^ ((zeros : ℤ) - e) := by
  have hexp : (shiftedOne zeros power).exponent e = -(e : ℤ) := by
    simp [shiftedOne, Spelling.exponent]
  have hwhole : (shiftedOne zeros power).whole ++ (shiftedOne zeros power).fraction =
      '1' :: List.replicate zeros '0' := List.append_nil _
  rw [Spelling.magnitudeAt, hexp, hwhole, runValue_one_zeros, Nat.cast_pow, Nat.cast_ofNat,
    ← zpow_natCast, ← zpow_add₀ (by norm_num), sub_eq_add_neg]

theorem spells_shiftedOne (zeros : Nat) (hne : power ≠ []) (hpower : IsDigits power) :
    Spells (shiftedText zeros power) (shiftedOne zeros power) := by
  have hwhole : IsDigits ('1' :: List.replicate zeros '0') := by
    intro d hd
    rcases List.mem_cons.mp hd with rfl | hd
    · rfl
    · rw [List.eq_of_mem_replicate hd]
      rfl
  exact ⟨[], _, _, rfl, .absent, .whole (List.cons_ne_nil _ _) hwhole,
    .marked (.inl rfl) .minus hne hpower⟩

/-- A one with 65536 zeros, and an exponent that takes ten times as many away. -/
def longNumeral : String := String.ofList (shiftedText 65536 "655360".toList)

/-- Of the exponent of `longNumeral` only the first five digits count, so it is read as one, and not
as zero. -/
theorem not_always_readsExactly : ¬ ∀ s, ReadsExactly s := by
  intro h
  obtain ⟨t, htrimmed, hexact⟩ := h longNumeral
  have htext : longNumeral.toList = shiftedText 65536 "655360".toList := String.toList_ofList
  have hpower : IsDigits "655360".toList := by decide
  have hspells := spells_shiftedOne 65536 (by decide) hpower
  rw [← htext] at hspells
  obtain rfl : longNumeral.toList = t :=
    hspells.isTrimmed.eq_trimChars.trans htrimmed.eq_trimChars.symm
  have hzero : IsRounded zero false (shiftedOne 65536 "655360".toList).exact := by
    refine isRounded_ofRank (isNearest_zero_of_le ?_)
    have hvalue : runValue (shiftedOne 65536 "655360".toList).power = 655360 := by decide
    rw [Spelling.exact, magnitudeAt_shiftedOne, hvalue]
    calc (10 : ℚ) ^ (((65536 : Nat) : ℤ) - (655360 : Nat))
        ≤ 10 ^ (-400 : ℤ) := zpow_le_zpow_right₀ (by norm_num) (by norm_num)
      _ ≤ 2 ^ (-1075 : ℤ) := ten_zpow_le_two_zpow
  have hone : IsRounded one false (shiftedOne 65536 "655360".toList).counted := by
    have hvalue : Numeral.exponentValue (shiftedOne 65536 "655360".toList).power = 65536 := by
      decide
    have hrank : nearestRank 1 1 = 1023 <<< 52 := by decide
    have hnearest := isNearest_nearestRank 1 Nat.one_pos
    rw [Spelling.counted, magnitudeAt_shiftedOne, hvalue, sub_self, zpow_zero]
    rw [hrank, Nat.cast_one, div_one] at hnearest
    exact isRounded_ofRank hnearest
  have hread : (Value.text longNumeral).toNumber = zero :=
    (hexact zero).mpr (.numeral hspells hzero)
  have hread' : (Value.text longNumeral).toNumber = one :=
    (toNumber_eq_iff htrimmed).mpr (.numeral hspells hone)
  exact absurd (hread.symm.trans hread') (by decide)

end DataBinding
