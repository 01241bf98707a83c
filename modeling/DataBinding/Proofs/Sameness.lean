import DataBinding.Value

set_option autoImplicit false

/-! # Sameness

Writes, watchers and views skip a value that is the same as the one they have. Sameness is an
equivalence relation (`Value.same_symm`, `Value.same_trans`, with `Value.same_self`), and values
that are the same show as the same text (`Value.display_eq_of_same`).
-/

namespace DataBinding

namespace Number

theorem same_iff (a b : Number) :
    a.same b = true ↔ (a.isNaN ∧ b.isNaN) ∨ (a.isZero ∧ b.isZero) ∨ a.bits = b.bits := by
  simp [same, or_assoc]

/-- A number that is zero is a number. -/
theorem isNaN_eq_false_of_isZero {a : Number} (h : a.isZero) : a.isNaN = false := by
  simp only [isZero, decide_eq_true_eq] at h
  simp [isNaN, h]

theorem rank_eq_of_bits {a b : Number} (h : a.bits = b.bits) : a.rank = b.rank := by
  rw [rank, rank, h]

theorem same_symm {a b : Number} (h : a.same b = true) : b.same a = true := by
  rw [same_iff] at *
  rcases h with ⟨ha, hb⟩ | ⟨ha, hb⟩ | h
  · exact .inl ⟨hb, ha⟩
  · exact .inr (.inl ⟨hb, ha⟩)
  · exact .inr (.inr h.symm)

theorem same_trans {a b c : Number} (hab : a.same b = true) (hbc : b.same c = true) :
    a.same c = true := by
  rw [same_iff] at *
  rcases hab with ⟨ha, hb⟩ | ⟨ha, hb⟩ | hab
  · rcases hbc with ⟨-, hc⟩ | ⟨hb', -⟩ | hbc
    · exact .inl ⟨ha, hc⟩
    · rw [isNaN_eq_false_of_isZero hb'] at hb
      cases hb
    · refine .inl ⟨ha, ?_⟩
      rwa [isNaN, ← rank_eq_of_bits hbc]
  · rcases hbc with ⟨hb', -⟩ | ⟨-, hc⟩ | hbc
    · rw [isNaN_eq_false_of_isZero hb] at hb'
      cases hb'
    · exact .inr (.inl ⟨ha, hc⟩)
    · refine .inr (.inl ⟨ha, ?_⟩)
      rwa [isZero, ← rank_eq_of_bits hbc]
  · have ha : a = b := by
      cases a
      cases b
      exact congrArg Number.mk hab
    rwa [ha, ← same_iff] at *

/-- "Not a number" has one text whatever its bits, and so has zero. -/
theorem display_eq_of_same {a b : Number} (h : a.same b = true) : a.display = b.display := by
  rcases (same_iff a b).mp h with ⟨ha, hb⟩ | ⟨ha, hb⟩ | h
  · simp [display, Layout.write, ha, hb]
  · simp [display, Layout.write, ha, hb, isNaN_eq_false_of_isZero ha, isNaN_eq_false_of_isZero hb,
      displayed]
  · have hab : a = b := by
      cases a
      cases b
      exact congrArg Number.mk h
    rw [hab]

end Number

namespace Value

/-- Sameness of numbers is that of `Number.same`; between all other values it is equality. -/
theorem same_iff (a b : Value) :
    a.same b = true ↔ a = b ∨ ∃ x y, a = .number x ∧ b = .number y ∧ x.same y = true := by
  cases a <;> cases b <;> simp [same]
  rintro rfl
  simp [Number.same]

theorem same_symm {a b : Value} (h : a.same b = true) : b.same a = true := by
  rw [same_iff] at *
  rcases h with rfl | ⟨x, y, rfl, rfl, h⟩
  · exact .inl rfl
  · exact .inr ⟨y, x, rfl, rfl, Number.same_symm h⟩

theorem same_trans {a b c : Value} (hab : a.same b = true) (hbc : b.same c = true) :
    a.same c = true := by
  rcases (same_iff a b).mp hab with rfl | ⟨x, y, rfl, rfl, hxy⟩
  · exact hbc
  rcases (same_iff _ c).mp hbc with rfl | ⟨y', z, hy, rfl, hyz⟩
  · exact hab
  · obtain rfl : y = y' := Value.number.inj hy
    exact (same_iff _ _).mpr (.inr ⟨x, z, rfl, rfl, Number.same_trans hxy hyz⟩)

/-- To compare with either of two values that are the same makes no difference. -/
theorem same_congr_right {a b c : Value} (h : b.same c = true) : a.same b = a.same c := by
  rw [Bool.eq_iff_iff]
  constructor
  · intro hab
    exact same_trans hab h
  · intro hac
    exact same_trans hac (same_symm h)

theorem display_eq_of_same {a b : Value} (h : a.same b = true) : a.display = b.display := by
  rcases (same_iff a b).mp h with rfl | ⟨x, y, rfl, rfl, hxy⟩
  · rfl
  · exact Number.display_eq_of_same hxy

end Value

end DataBinding
