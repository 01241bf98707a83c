set_option autoImplicit false

/-! # Cutting a text at the last separator

`splitLast` cuts a text in two at the last occurrence of a separator. It loses nothing, and it
fails exactly when there is no separator (`splitLast_eq_some`, `splitLast_eq_none_iff`).
-/

namespace DataBinding.Text

/-- The parts before and after the last occurrence of `sep`, if there is one. -/
def splitLast (sep : Char) : List Char → Option (List Char × List Char)
  | [] => none
  | c :: cs =>
    match splitLast sep cs with
    | some (before, after) => some (c :: before, after)
    | none => if c = sep then some ([], cs) else none

/-- The two parts around the last separator: they make up the text, and the second one holds
no further separator. -/
theorem splitLast_eq_some {sep : Char} {cs before after : List Char}
    (h : splitLast sep cs = some (before, after)) :
    cs = before ++ sep :: after ∧ sep ∉ after := by
  induction cs generalizing before after with
  | nil => simp [splitLast] at h
  | cons c cs ih =>
    rw [splitLast] at h
    cases hl : splitLast sep cs with
    | some p =>
      obtain ⟨b, a⟩ := p
      simp only [hl, Option.some.injEq, Prod.mk.injEq] at h
      obtain ⟨rfl, rfl⟩ := h
      obtain ⟨h1, h2⟩ := ih hl
      exact ⟨by rw [h1]; rfl, h2⟩
    | none =>
      simp only [hl] at h
      split at h
      · simp only [Option.some.injEq, Prod.mk.injEq] at h
        obtain ⟨rfl, rfl⟩ := h
        subst c
        refine ⟨rfl, fun hm => ?_⟩
        clear ih
        induction cs with
        | nil => simp at hm
        | cons d ds ihd =>
          rw [splitLast] at hl
          cases hd : splitLast sep ds with
          | some p => simp [hd] at hl
          | none =>
            simp only [hd, ite_eq_right_iff, reduceCtorEq, imp_false] at hl
            rcases List.mem_cons.mp hm with h | h
            · exact hl h.symm
            · exact ihd hd h
      · simp at h

theorem splitLast_eq_none_iff {sep : Char} {cs : List Char} :
    splitLast sep cs = none ↔ sep ∉ cs := by
  induction cs with
  | nil => simp [splitLast]
  | cons c cs ih =>
    rw [splitLast]
    cases hl : splitLast sep cs with
    | some p =>
      have : sep ∈ cs := by
        by_cases hm : sep ∈ cs
        · exact hm
        · rw [ih.mpr hm] at hl; simp at hl
      simp [this]
    | none =>
      have hm := ih.mp hl
      simp [hm, eq_comm]

end DataBinding.Text
