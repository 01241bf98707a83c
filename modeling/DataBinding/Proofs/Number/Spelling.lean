import Mathlib.Data.List.Infix
import Mathlib.Data.List.Induction
import DataBinding.Number.Numeral
import DataBinding.Proofs.Number.Nearest
import DataBinding.Proofs.Text.Blank

set_option autoImplicit false

/-! # How a numeral is spelled

The grammar of decimal numerals, by parts (`Spells`), and what a spelling stands for. The reader
accepts exactly the grammar (`Numeral.read?_eq_some_iff`). No numeral holds one of the words that
are refused (`isWordy_of_spells`), and where none is held, nothing but numerals is read
(`parse?_of_not_wordy`).

A long exponent is not read to its end. It is if it is less than ten times `exponentCap`
(`exponentValue_eq`), and otherwise the rest of it makes no difference in a short text
(`isNearest_counted_iff`).
-/

namespace DataBinding

open Numeral

/-- The parts of a decimal numeral: its sign, the digits before and behind the point, and the
sign and the digits of the power of ten. -/
structure Spelling where
  negative : Bool
  whole : List Char
  fraction : List Char
  falling : Bool
  power : List Char
  deriving DecidableEq, Repr

/-! ## The grammar -/

/-- A run of decimal digits, perhaps an empty one. -/
def IsDigits (ds : List Char) : Prop := ∀ d ∈ ds, d.isDigit = true

instance (ds : List Char) : Decidable (IsDigits ds) :=
  List.decidableBAll (fun d : Char => d.isDigit = true) ds

/-- A sign that may be left out. -/
inductive IsSign : List Char → Bool → Prop
  | absent : IsSign [] false
  | plus : IsSign ['+'] false
  | minus : IsSign ['-'] true

/-- Digits with an optional point and optional further digits, or a point followed by digits. -/
inductive IsMantissa : List Char → List Char → List Char → Prop
  | whole {w} (hne : w ≠ []) (hw : IsDigits w) : IsMantissa w w []
  | pointed {w f} (hne : w ≠ []) (hw : IsDigits w) (hf : IsDigits f) : IsMantissa (w ++ '.' :: f) w f
  | fraction {f} (hne : f ≠ []) (hf : IsDigits f) : IsMantissa ('.' :: f) [] f

/-- An optional power of ten: a mark, an optional sign and digits. -/
inductive IsPower : List Char → Bool → List Char → Prop
  | absent : IsPower [] false []
  | marked {mark sign falling ds} (hmark : mark = 'e' ∨ mark = 'E') (hsign : IsSign sign falling)
      (hne : ds ≠ []) (hds : IsDigits ds) : IsPower (mark :: (sign ++ ds)) falling ds

/-- The text `cs` is a numeral with the parts `p`. -/
def Spells (cs : List Char) (p : Spelling) : Prop :=
  ∃ sign mantissa power, cs = sign ++ (mantissa ++ power) ∧ IsSign sign p.negative ∧
    IsMantissa mantissa p.whole p.fraction ∧ IsPower power p.falling p.power

/-! ## What a spelling stands for -/

/-- The value of a run of digits. -/
def runValue (ds : List Char) : Nat := Nat.ofDigitChars 10 ds 0

namespace Spelling

/-- The exponent of the last digit, when the power of ten has a magnitude. -/
def exponent (p : Spelling) (power : Nat) : ℤ :=
  (if p.falling then -(power : ℤ) else power) - p.fraction.length

/-- The magnitude of a spelling, when its power of ten has a magnitude. -/
def magnitudeAt (p : Spelling) (power : Nat) : ℚ :=
  runValue (p.whole ++ p.fraction) * 10 ^ p.exponent power

/-- The magnitude that a spelling stands for. -/
def exact (p : Spelling) : ℚ := p.magnitudeAt (runValue p.power)

/-- The magnitude that a spelling stands for when no more than `exponentValue` is read of its power
of ten. -/
def counted (p : Spelling) : ℚ := p.magnitudeAt (exponentValue p.power)

/-- What the reader makes of a spelling. -/
def numeral (p : Spelling) : Numeral :=
  ⟨p.negative, digitsValue (p.whole ++ p.fraction), p.exponent (exponentValue p.power)⟩

end Spelling

variable {cs ds w f sign body : List Char} {d : Char} {negative falling : Bool} {p : Spelling}

/-! ## Runs of digits -/

theorem runValue_append (ds : List Char) (d : Char) :
    runValue (ds ++ [d]) = runValue ds * 10 + digitValue d := by
  rw [runValue, Nat.ofDigitChars_eq_foldl, List.foldl_append, ← Nat.ofDigitChars_eq_foldl,
    Nat.mul_comm]
  rfl

/-- Zeros before a run make no difference. -/
theorem runValue_zeros_append (n : Nat) (ds : List Char) :
    runValue (List.replicate n '0' ++ ds) = runValue ds := by
  rw [runValue, Nat.ofDigitChars_append, Nat.ofDigitChars_replicate_zero, Nat.mul_zero, runValue]

theorem runValue_append_zeros (ds : List Char) (n : Nat) :
    runValue (ds ++ List.replicate n '0') = 10 ^ n * runValue ds := by
  rw [runValue, Nat.ofDigitChars_append, Nat.ofDigitChars_replicate_zero, runValue]

/-- Reading a run from the left gives its value. -/
theorem digitsValue_eq_runValue (ds : List Char) : digitsValue ds = runValue ds := by
  rw [digitsValue_eq_foldl]
  induction ds using List.reverseRecOn with
  | nil => rfl
  | append_singleton ds d ih => rw [List.foldl_append, ih, runValue_append]; rfl

theorem toNat_of_isDigit (h : d.isDigit = true) : 48 ≤ d.toNat ∧ d.toNat ≤ 57 := by
  simp only [Char.isDigit, Bool.and_eq_true, decide_eq_true_eq, ge_iff_le,
    UInt32.le_iff_toNat_le] at h
  exact h

theorem digitValue_lt (h : d.isDigit = true) : digitValue d < 10 := by
  have hrange := toNat_of_isDigit h
  have hzero : '0'.toNat = 48 := rfl
  rw [digitValue]
  omega

theorem runValue_lt (h : IsDigits ds) : runValue ds < 10 ^ ds.length := by
  induction ds using List.reverseRecOn with
  | nil => exact Nat.one_pos
  | append_singleton ds d ih =>
      have hlt := ih fun c hc => h c (List.mem_append_left _ hc)
      have hd := digitValue_lt (h d (List.mem_append_right _ (List.mem_singleton_self d)))
      rw [runValue_append, List.length_append, List.length_singleton, pow_succ]
      omega

theorem IsDigits.append (hw : IsDigits w) (hf : IsDigits f) : IsDigits (w ++ f) := by
  intro d hd
  exact (List.mem_append.mp hd).elim (hw d) (hf d)

/-- A run of digits ends where something else begins. -/
theorem span_digits (hw : IsDigits w) (hrest : ∀ c, cs.head? = some c → c.isDigit = false) :
    (w ++ cs).takeWhile Char.isDigit = w ∧ (w ++ cs).dropWhile Char.isDigit = cs := by
  have hnone : cs.takeWhile Char.isDigit = [] ∧ cs.dropWhile Char.isDigit = cs := by
    cases cs with
    | nil => exact ⟨rfl, rfl⟩
    | cons c cs => simp [hrest c rfl]
  rw [List.takeWhile_append_of_pos hw, List.dropWhile_append_of_pos hw, hnone.1, hnone.2,
    List.append_nil]
  exact ⟨rfl, rfl⟩

theorem isDigits_takeWhile (cs : List Char) : IsDigits (cs.takeWhile Char.isDigit) :=
  fun _ hd => List.mem_takeWhile_imp hd

/-! ## Reading the parts -/

theorem exists_isSign (cs : List Char) :
    ∃ sign, IsSign sign (readSign cs).1 ∧ cs = sign ++ (readSign cs).2 := by
  unfold readSign
  split
  · exact ⟨_, .minus, rfl⟩
  · exact ⟨_, .plus, rfl⟩
  · exact ⟨_, .absent, rfl⟩

theorem IsSign.readSign_append (h : IsSign sign negative)
    (hbody : ∀ c, body.head? = some c → c ≠ '-' ∧ c ≠ '+') :
    readSign (sign ++ body) = (negative, body) := by
  cases h with
  | plus => rfl
  | minus => rfl
  | absent =>
      rw [List.nil_append]
      unfold readSign
      split
      · exact absurd rfl (hbody _ rfl).1
      · exact absurd rfl (hbody _ rfl).2
      · rfl

theorem not_sign_of_isDigit {c : Char} (h : c.isDigit = true) : c ≠ '-' ∧ c ≠ '+' := by
  constructor <;> rintro rfl <;> exact absurd h (by decide)

theorem readExponent_eq_some_iff {e : ℤ} :
    readExponent cs = some e ↔ ∃ falling ds, IsPower cs falling ds ∧
      e = if falling then -(exponentValue ds : ℤ) else exponentValue ds := by
  constructor
  · intro h
    cases cs with
    | nil =>
        cases h
        exact ⟨false, [], .absent, rfl⟩
    | cons c cs =>
        obtain ⟨sign, hsign, hcs⟩ := exists_isSign cs
        rw [readExponent] at h
        by_cases hmark : c = 'e' ∨ c = 'E'
        · simp only [if_pos hmark] at h
          generalize readSign cs = parts at hsign hcs h
          obtain ⟨falling, ds⟩ := parts
          subst hcs
          by_cases hds : ds ≠ [] ∧ ds.all Char.isDigit = true
          · rw [if_pos hds] at h
            cases h
            exact ⟨falling, ds, .marked hmark hsign hds.1 (List.all_eq_true.mp hds.2), rfl⟩
          · rw [if_neg hds] at h
            cases h
        · rw [if_neg hmark] at h
          cases h
  · rintro ⟨falling, ds, hpower, rfl⟩
    cases hpower with
    | absent => rfl
    | marked hmark hsign hne hds =>
        have hbody : ∀ c, ds.head? = some c → c ≠ '-' ∧ c ≠ '+' := fun c hc =>
          not_sign_of_isDigit (hds c (List.mem_of_mem_head? hc))
        have hread := hsign.readSign_append hbody
        have hall : ds ≠ [] ∧ ds.all Char.isDigit = true := ⟨hne, List.all_eq_true.mpr hds⟩
        simp only [readExponent, if_pos hmark, hread, if_pos hall]

theorem IsPower.head (h : IsPower cs falling ds) {c : Char} (hc : cs.head? = some c) :
    c = 'e' ∨ c = 'E' := by
  cases h with
  | absent => cases hc
  | marked hmark =>
      cases hc
      exact hmark

theorem IsMantissa.ne_nil {mantissa : List Char} (h : IsMantissa mantissa w f) :
    ¬ (w = [] ∧ f = []) := by
  rintro ⟨rfl, rfl⟩
  cases h with
  | whole hne => exact hne rfl
  | pointed hne => exact hne rfl
  | fraction hne => exact hne rfl

theorem IsMantissa.exists_cons {mantissa : List Char} (h : IsMantissa mantissa w f) :
    ∃ d rest, mantissa = d :: rest ∧ (d.isDigit = true ∨ d = '.') := by
  cases h with
  | whole hne hw =>
      obtain ⟨d, rest, rfl⟩ := List.exists_cons_of_ne_nil hne
      exact ⟨d, rest, rfl, .inl (hw d List.mem_cons_self)⟩
  | pointed hne hw hf =>
      obtain ⟨d, rest, rfl⟩ := List.exists_cons_of_ne_nil hne
      exact ⟨d, _, rfl, .inl (hw d List.mem_cons_self)⟩
  | fraction hne hf => exact ⟨'.', f, rfl, .inr rfl⟩

/-- The digits before and behind the point are read as they are spelled. -/
theorem IsMantissa.read {mantissa rest : List Char} (h : IsMantissa mantissa w f)
    (hrest : ∀ c, rest.head? = some c → c = 'e' ∨ c = 'E') :
    (mantissa ++ rest).takeWhile Char.isDigit = w ∧
      readFraction ((mantissa ++ rest).dropWhile Char.isDigit) = (f, rest) := by
  have hdigit : ∀ c, rest.head? = some c → c.isDigit = false := by
    intro c hc
    rcases hrest c hc with rfl | rfl <;> decide
  have hpoint : ∀ c, ('.' :: (f ++ rest)).head? = some c → c.isDigit = false := by
    rintro c ⟨⟩
    decide
  cases h with
  | whole hne hw =>
      obtain ⟨htake, hdrop⟩ := span_digits hw hdigit
      refine ⟨htake, ?_⟩
      rw [hdrop]
      cases rest with
      | nil => rfl
      | cons c rest => rcases hrest c rfl with rfl | rfl <;> rfl
  | pointed hne hw hf =>
      obtain ⟨htake, hdrop⟩ := span_digits hw hpoint
      obtain ⟨htake', hdrop'⟩ := span_digits hf hdigit
      rw [List.append_assoc, List.cons_append]
      refine ⟨htake, ?_⟩
      rw [hdrop, readFraction, htake', hdrop']
  | fraction hne hf =>
      obtain ⟨htake, hdrop⟩ := span_digits (w := []) (fun _ h => nomatch h) hpoint
      obtain ⟨htake', hdrop'⟩ := span_digits hf hdigit
      rw [List.cons_append]
      refine ⟨htake, ?_⟩
      rw [List.nil_append] at hdrop
      rw [hdrop, readFraction, htake', hdrop']

/-- What is read before the power of ten is spelled out in the text. -/
theorem exists_isMantissa (body : List Char)
    (hne : ¬ (body.takeWhile Char.isDigit = [] ∧
      (readFraction (body.dropWhile Char.isDigit)).1 = [])) :
    ∃ mantissa, IsMantissa mantissa (body.takeWhile Char.isDigit)
        (readFraction (body.dropWhile Char.isDigit)).1 ∧
      body = mantissa ++ (readFraction (body.dropWhile Char.isDigit)).2 := by
  have hwhole := isDigits_takeWhile body
  have hbody : body = body.takeWhile Char.isDigit ++ body.dropWhile Char.isDigit :=
    List.takeWhile_append_dropWhile.symm
  generalize body.takeWhile Char.isDigit = whole at *
  generalize body.dropWhile Char.isDigit = rest at *
  subst hbody
  unfold readFraction at hne ⊢
  split at hne
  · rename_i rest
    have hfraction := isDigits_takeWhile rest
    have hrest : rest.takeWhile Char.isDigit ++ rest.dropWhile Char.isDigit = rest :=
      List.takeWhile_append_dropWhile
    by_cases hw : whole = []
    · subst hw
      refine ⟨_, .fraction (fun hf => hne ⟨rfl, hf⟩) hfraction, ?_⟩
      rw [List.cons_append, hrest, List.nil_append]
    · refine ⟨_, .pointed hw hwhole hfraction, ?_⟩
      rw [List.append_assoc, List.cons_append, hrest]
  · exact ⟨whole, .whole (fun hw => hne ⟨hw, rfl⟩) hwhole, rfl⟩

/-- The reader accepts what the grammar spells, and nothing else. -/
theorem Numeral.read?_eq_some_iff {n : Numeral} :
    read? cs = some n ↔ ∃ p, Spells cs p ∧ n = p.numeral := by
  constructor
  · intro h
    obtain ⟨sign, hsign, hcs⟩ := exists_isSign cs
    rw [read?] at h
    generalize readSign cs = parts at *
    obtain ⟨negative, body⟩ := parts
    have hmantissa := exists_isMantissa body
    dsimp only at *
    generalize body.takeWhile Char.isDigit = whole at *
    generalize readFraction (body.dropWhile Char.isDigit) = parts at *
    obtain ⟨fraction, rest⟩ := parts
    dsimp only at *
    by_cases hne : whole = [] ∧ fraction = []
    · rw [if_pos hne] at h
      cases h
    · rw [if_neg hne, Option.map_eq_some_iff] at h
      obtain ⟨e, he, rfl⟩ := h
      obtain ⟨falling, ds, hpower, rfl⟩ := readExponent_eq_some_iff.mp he
      obtain ⟨mantissa, hm, rfl⟩ := hmantissa hne
      exact ⟨⟨negative, whole, fraction, falling, ds⟩, ⟨sign, mantissa, rest, hcs, hsign, hm, hpower⟩,
        rfl⟩
  · rintro ⟨p, ⟨sign, mantissa, power, rfl, hsign, hm, hpower⟩, rfl⟩
    have hrest : ∀ c, power.head? = some c → c = 'e' ∨ c = 'E' := fun c => hpower.head
    obtain ⟨htake, hdrop⟩ := hm.read hrest
    have hbody : ∀ c, (mantissa ++ power).head? = some c → c ≠ '-' ∧ c ≠ '+' := by
      obtain ⟨d, rest, rfl, hd⟩ := hm.exists_cons
      rintro c ⟨⟩
      rcases hd with hd | rfl
      · exact not_sign_of_isDigit hd
      · decide
    have hread := readExponent_eq_some_iff.mpr ⟨_, _, hpower, rfl⟩
    simp only [read?, hsign.readSign_append hbody, htake, hdrop, if_neg hm.ne_nil, hread,
      Option.map_some]
    rfl

/-! ## The words that are refused -/

theorem IsMantissa.mem {mantissa : List Char} (h : IsMantissa mantissa w f) {c : Char}
    (hc : c ∈ mantissa) : c.isDigit = true ∨ c = '.' := by
  cases h with
  | whole hne hw => exact .inl (hw c hc)
  | pointed hne hw hf =>
      rcases List.mem_append.mp hc with hc | hc
      · exact .inl (hw c hc)
      · exact (List.mem_cons.mp hc).symm.imp_left (hf c)
  | fraction hne hf => exact (List.mem_cons.mp hc).symm.imp_left (hf c)

theorem IsSign.mem (h : IsSign sign negative) {c : Char} (hc : c ∈ sign) : c = '+' ∨ c = '-' := by
  cases h with
  | absent => cases hc
  | plus => exact .inl (List.mem_singleton.mp hc)
  | minus => exact .inr (List.mem_singleton.mp hc)

/-- A numeral is made of digits, signs, a point and a mark. -/
theorem Spells.mem (h : Spells cs p) {c : Char} (hc : c ∈ cs) :
    c.isDigit = true ∨ c ∈ ['+', '-', '.', 'e', 'E'] := by
  obtain ⟨negative, whole, fraction, falling, ds⟩ := p
  obtain ⟨sign, mantissa, power, rfl, hsign, hm, hpower⟩ := h
  simp only [List.mem_append] at hc
  rcases hc with hc | hc | hc
  · rcases hsign.mem hc with rfl | rfl <;> decide
  · rcases hm.mem hc with hc | rfl
    · exact .inl hc
    · decide
  · cases hpower with
    | absent => cases hc
    | marked hmark hsign' hne hds =>
        rcases List.mem_cons.mp hc with rfl | hc
        · rcases hmark with rfl | rfl <;> decide
        · rcases List.mem_append.mp hc with hc | hc
          · rcases hsign'.mem hc with rfl | rfl <;> decide
          · exact .inl (hds c hc)

/-- No character of a numeral is a blank, so nothing is trimmed. -/
theorem Spells.isTrimmed (h : Spells cs p) : Text.IsTrimmed cs cs := by
  have hblank : ∀ c ∈ cs, Text.isBlank c = false := by
    intro c hc
    rcases h.mem hc with hdigit | hmem
    · have hrange := toNat_of_isDigit hdigit
      simp only [Text.isBlank, Text.blankRanges, List.any_cons, List.any_nil, Bool.or_false,
        Bool.or_eq_false_iff, Bool.and_eq_false_iff, decide_eq_false_iff_not]
      omega
    · simp only [List.mem_cons, List.not_mem_nil, or_false] at hmem
      rcases hmem with rfl | rfl | rfl | rfl | rfl <;> decide
  exact ⟨⟨[], [], by simp, nofun, nofun⟩, fun c hc => hblank c (List.mem_of_mem_head? hc),
    fun c hc => hblank c (List.mem_of_getLast? hc)⟩

theorem toLower_of_isDigit {c : Char} (h : c.isDigit = true) : c.toLower = c := by
  have hrange := toNat_of_isDigit h
  have hval : c.toNat = c.val.toNat := rfl
  have hA : 'A'.val.toNat = 65 := rfl
  have hsmall : ¬ (c.val ≥ 'A'.val ∧ c.val ≤ 'Z'.val) := by
    simp only [ge_iff_le, UInt32.le_iff_toNat_le]
    omega
  exact dif_neg hsmall

namespace Number

theorem isWordy_iff : isWordy cs = true ↔
    ['i', 'n', 'f'] <:+: cs.map Char.toLower ∨ ['n', 'a', 'n'] <:+: cs.map Char.toLower := by
  rw [isWordy, Bool.or_eq_true, holds_iff_isInfix, holds_iff_isInfix]

theorem mem_of_isWordy (h : isWordy cs = true) : ∃ c ∈ cs, c.toLower = 'n' := by
  rw [← List.mem_map]
  rcases isWordy_iff.mp h with h | h
  · exact h.subset (by decide)
  · exact h.subset (by decide)

/-- No numeral is refused for a word that it holds. -/
theorem isWordy_of_spells (h : Spells cs p) : isWordy cs = false := by
  rw [Bool.eq_false_iff]
  intro hwordy
  obtain ⟨c, hc, hn⟩ := mem_of_isWordy hwordy
  rcases h.mem hc with hdigit | hmem
  · rw [toLower_of_isDigit hdigit] at hn
    subst hn
    exact absurd hdigit (by decide)
  · simp only [List.mem_cons, List.not_mem_nil, or_false] at hmem
    rcases hmem with rfl | rfl | rfl | rfl | rfl <;> exact absurd hn (by decide)

/-- Whatever word the reader knows holds one of the words that are refused. -/
theorem isWordy_of_ofWord? {x : Number} {negative : Bool}
    (h : ofWord? negative ((readSign cs).2.map Char.toLower) = some x) : isWordy cs = true := by
  obtain ⟨sign, -, hcs⟩ := exists_isSign cs
  have hsuffix : (readSign cs).2.map Char.toLower <:+ cs.map Char.toLower := by
    conv => rhs; rw [hcs]
    rw [List.map_append]
    exact List.suffix_append _ _
  generalize (readSign cs).2.map Char.toLower = word at *
  rw [isWordy_iff]
  unfold ofWord? at h
  split at h
  · rename_i hinf
    refine .inl (List.IsInfix.trans ?_ hsuffix.isInfix)
    rcases hinf with rfl | rfl <;> decide
  · split at h
    · rename_i hnan
      exact .inr (hnan ▸ hsuffix.isInfix)
    · cases h

/-- Where no word is held, only numerals are read. -/
theorem parse?_of_not_wordy (h : isWordy cs = false) :
    parse? cs = (read? cs).map Numeral.toNumber := by
  rw [parse?]
  cases read? cs with
  | some n => rfl
  | none =>
      cases hword : ofWord? (readSign cs).1 ((readSign cs).2.map Char.toLower) with
      | none => exact hword
      | some x => rw [isWordy_of_ofWord? hword] at h; cases h

/-- What is read from a text, in terms of its characters without the blanks at the ends. -/
theorem ofText_eq (s : String) :
    ofText s =
      if Text.trimChars s.toList = [] then zero
      else if Text.trimChars s.toList = "Infinity".toList ∨
          Text.trimChars s.toList = "+Infinity".toList then infinity false
      else if Text.trimChars s.toList = "-Infinity".toList then infinity true
      else if isWordy (Text.trimChars s.toList) then nan
      else (parse? (Text.trimChars s.toList)).getD nan := by
  have htrim : (Text.trim s).toList = Text.trimChars s.toList := String.toList_ofList
  have heq : ∀ w : String, Text.trim s = w ↔ Text.trimChars s.toList = w.toList := by
    intro w
    rw [← htrim, String.toList_inj]
  have hempty : "".toList = [] := rfl
  simp only [ofText, heq, hempty, htrim]

end Number

/-! ## Long exponents -/

theorem exponentValue_append (ds : List Char) (d : Char) :
    exponentValue (ds ++ [d]) =
      if exponentValue ds < exponentCap then exponentValue ds * 10 + digitValue d
      else exponentValue ds := by
  rw [exponentValue, List.foldl_append]
  rfl

/-- `v` is what counts of an exponent: the value of its digits up to the one at which it reaches
`exponentCap`, or of all of them if it never does. -/
def CountsAs (ds : List Char) (v : Nat) : Prop :=
  ∃ front back, ds = front ++ back ∧ v = runValue front ∧
    (back = [] ∨ exponentCap ≤ runValue front) ∧
    ∀ init d, front = init ++ [d] → runValue init < exponentCap

theorem countsAs_exponentValue (ds : List Char) : CountsAs ds (exponentValue ds) := by
  induction ds using List.reverseRecOn with
  | nil => exact ⟨[], [], rfl, rfl, .inl rfl, fun init d h => by simp at h⟩
  | append_singleton ds d ih =>
      obtain ⟨front, back, hsplit, hvalue, hend, hinit⟩ := ih
      rw [exponentValue_append]
      by_cases hless : exponentValue ds < exponentCap
      · have hback : back = [] := hend.resolve_right (by omega)
        subst hback
        rw [List.append_nil] at hsplit
        subst hsplit
        refine ⟨ds ++ [d], [], (List.append_nil _).symm, ?_, .inl rfl, fun init d' h => ?_⟩
        · rw [if_pos hless, hvalue, runValue_append]
        · rw [← (List.append_inj' h rfl).1, ← hvalue]
          exact hless
      · refine ⟨front, back ++ [d], ?_, ?_, .inr (by omega), hinit⟩
        · rw [hsplit, List.append_assoc]
        · rw [if_neg hless, hvalue]

/-- An exponent is read to its end unless it reaches the cap before its last digit. -/
theorem exponentValue_eq (h : runValue ds < 10 * exponentCap) : exponentValue ds = runValue ds := by
  induction ds using List.reverseRecOn with
  | nil => rfl
  | append_singleton ds d ih =>
      rw [runValue_append] at h ⊢
      have hread : exponentValue ds = runValue ds := ih (by omega)
      rw [exponentValue_append, hread, if_pos (by omega)]

/-- An exponent that reaches the cap does not fall below it again. -/
theorem exponentCap_le (h : exponentCap ≤ runValue ds) : exponentCap ≤ exponentValue ds := by
  induction ds using List.reverseRecOn with
  | nil => exact absurd h (by decide)
  | append_singleton ds d ih =>
      rw [exponentValue_append]
      by_cases hcap : exponentValue ds < exponentCap
      · have hless : runValue ds < exponentCap := not_le.mp fun hle => absurd (ih hle) (by omega)
        rw [if_pos hcap, exponentValue_eq (by omega), ← runValue_append]
        exact h
      · rw [if_neg hcap]
        exact not_lt.mp hcap

theorem counted_eq_exact (h : runValue p.power < 10 * exponentCap) : p.counted = p.exact := by
  rw [Spelling.counted, Spelling.exact, exponentValue_eq h]

open Number in
/-- With few digits and an exponent from the cap on, a magnitude is beyond all doubles, or below
them all. -/
theorem isNearest_of_exponentCap_le {e : Nat} (hw : IsDigits (p.whole ++ p.fraction))
    (hshort : p.whole.length + p.fraction.length ≤ 65000) (he : exponentCap ≤ e) :
    IsNearest (p.magnitudeAt e)
      (if runValue (p.whole ++ p.fraction) = 0 ∨ p.falling then 0 else infinityRank) := by
  have hcap : exponentCap = 65536 := rfl
  have hten : (10 : ℚ) ≠ 0 := by norm_num
  rw [Spelling.magnitudeAt]
  by_cases hzero : runValue (p.whole ++ p.fraction) = 0
  · rw [if_pos (.inl hzero), hzero, Nat.cast_zero, zero_mul]
    exact isNearest_zero_of_le (two_zpow_pos _).le
  by_cases hfalling : p.falling
  · rw [if_pos (.inr hfalling), Spelling.exponent, if_pos hfalling]
    apply isNearest_zero_of_le
    have hdigits : (runValue (p.whole ++ p.fraction) : ℚ) ≤
        10 ^ ((p.whole.length + p.fraction.length : Nat) : ℤ) := by
      rw [zpow_natCast, ← List.length_append]
      exact_mod_cast (runValue_lt hw).le
    calc (runValue (p.whole ++ p.fraction) : ℚ) * 10 ^ (-(e : ℤ) - p.fraction.length)
        ≤ 10 ^ ((p.whole.length + p.fraction.length : Nat) : ℤ) *
            10 ^ (-(e : ℤ) - p.fraction.length) := by gcongr
      _ = 10 ^ ((p.whole.length : ℤ) - e) := by
          rw [← zpow_add₀ hten]
          congr 1
          push_cast
          ring
      _ ≤ 10 ^ (-400 : ℤ) := zpow_le_zpow_right₀ (by norm_num) (by omega)
      _ ≤ 2 ^ (-1075 : ℤ) := ten_zpow_le_two_zpow
  · rw [if_neg (not_or.mpr ⟨hzero, hfalling⟩), Spelling.exponent, if_neg hfalling]
    apply isNearest_infinity_of_le
    have hdigits : (1 : ℚ) ≤ runValue (p.whole ++ p.fraction) := by
      exact_mod_cast Nat.one_le_iff_ne_zero.mpr hzero
    calc (2 : ℚ) ^ 1024
        ≤ 10 ^ (400 : ℤ) := two_pow_le_ten_zpow
      _ ≤ 10 ^ ((e : ℤ) - p.fraction.length) := zpow_le_zpow_right₀ (by norm_num) (by omega)
      _ ≤ runValue (p.whole ++ p.fraction) * 10 ^ ((e : ℤ) - p.fraction.length) :=
          le_mul_of_one_le_left (by positivity) hdigits

theorem IsMantissa.isDigits {mantissa : List Char} (h : IsMantissa mantissa w f) :
    IsDigits (w ++ f) ∧ w.length + f.length ≤ mantissa.length := by
  cases h with
  | whole hne hw => exact ⟨by rwa [List.append_nil], by simp⟩
  | pointed hne hw hf => exact ⟨hw.append hf, by simp⟩
  | fraction hne hf => exact ⟨hf, by simp⟩

theorem Spells.isDigits (h : Spells cs p) :
    IsDigits (p.whole ++ p.fraction) ∧ p.whole.length + p.fraction.length ≤ cs.length := by
  obtain ⟨sign, mantissa, power, rfl, -, hm, -⟩ := h
  obtain ⟨hdigits, hlength⟩ := hm.isDigits
  refine ⟨hdigits, ?_⟩
  simp only [List.length_append]
  omega

open Number in
/-- In a short text it makes no difference whether an exponent is read to its end. -/
theorem isNearest_counted_iff (h : Spells cs p)
    (hshort : cs.length ≤ 65000 ∨ runValue p.power < 10 * exponentCap) {r : Nat} :
    IsNearest p.counted r ↔ IsNearest p.exact r := by
  by_cases hcap : runValue p.power < 10 * exponentCap
  · rw [counted_eq_exact hcap]
  · obtain ⟨hdigits, hlength⟩ := h.isDigits
    have hlength' := hlength.trans (hshort.resolve_right hcap)
    have hread : exponentCap ≤ exponentValue p.power := exponentCap_le (by omega)
    have hcounted := isNearest_of_exponentCap_le hdigits hlength' hread
    have hexact := isNearest_of_exponentCap_le (p := p) (e := runValue p.power) hdigits hlength'
      (by omega)
    constructor
    · intro hr
      exact hcounted.unique hr ▸ hexact
    · intro hr
      exact hexact.unique hr ▸ hcounted

end DataBinding
