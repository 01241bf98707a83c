import Mathlib.Data.List.TakeWhile
import DataBinding.Text.Blank

set_option autoImplicit false

/-! # What trimming leaves

A trimmed text is what is left when the blanks at both ends are taken away, and nothing else is
(`isTrimmed_iff`).
-/

namespace DataBinding.Text

/-- `ds` is `cs` without the blanks at its two ends: only blanks were taken away, and no blank is
left at an end. -/
structure IsTrimmed (cs ds : List Char) : Prop where
  only_blanks : ∃ l r, cs = l ++ ds ++ r ∧ (∀ c ∈ l, isBlank c = true) ∧ ∀ c ∈ r, isBlank c = true
  head : ∀ c, ds.head? = some c → isBlank c = false
  last : ∀ c, ds.getLast? = some c → isBlank c = false

variable {cs ds l r : List Char}

/-- Blanks in front of something else are dropped, and nothing more. -/
theorem dropWhile_isBlank_append (hl : ∀ c ∈ l, isBlank c = true)
    (hds : ∀ c, ds.head? = some c → isBlank c = false) : (l ++ ds).dropWhile isBlank = ds := by
  rw [List.dropWhile_append_of_pos hl]
  cases ds with
  | nil => rfl
  | cons d ds => simp [hds d rfl]

theorem trimEnd_append (hr : ∀ c ∈ r, isBlank c = true)
    (hds : ∀ c, ds.getLast? = some c → isBlank c = false) : trimEnd (ds ++ r) = ds := by
  have hback : (r.reverse ++ ds.reverse).dropWhile isBlank = ds.reverse := by
    apply dropWhile_isBlank_append
    · simpa using hr
    · simpa using hds
  rw [trimEnd, List.reverse_append, hback, List.reverse_reverse]

theorem trimChars_of_blanks (h : ∀ c ∈ cs, isBlank c = true) : trimChars cs = [] := by
  have hdropped : cs.dropWhile isBlank = [] := List.dropWhile_eq_nil_iff.mpr h
  rw [trimChars, hdropped]
  rfl

theorem IsTrimmed.eq_trimChars (h : IsTrimmed cs ds) : ds = trimChars cs := by
  obtain ⟨⟨l, r, rfl, hl, hr⟩, hhead, hlast⟩ := h
  cases ds with
  | nil =>
      -- Nothing is left, so both parts that were taken away are all there was.
      refine (trimChars_of_blanks fun c hc => ?_).symm
      rw [List.append_nil, List.mem_append] at hc
      exact hc.elim (hl c) (hr c)
  | cons d ds =>
      have hfront : (l ++ (d :: ds ++ r)).dropWhile isBlank = d :: ds ++ r :=
        dropWhile_isBlank_append hl hhead
      rw [trimChars, List.append_assoc, hfront, trimEnd_append hr hlast]

theorem isTrimmed_trimChars (cs : List Char) : IsTrimmed cs (trimChars cs) := by
  let front := cs.dropWhile isBlank
  let back := front.reverse.takeWhile isBlank
  have hfront : cs = cs.takeWhile isBlank ++ front := List.takeWhile_append_dropWhile.symm
  have hback : front = trimChars cs ++ back.reverse := by
    show front = (front.reverse.dropWhile isBlank).reverse ++ back.reverse
    rw [← List.reverse_append, List.takeWhile_append_dropWhile, List.reverse_reverse]
  constructor
  · refine ⟨cs.takeWhile isBlank, back.reverse, ?_, ?_, ?_⟩
    · rw [List.append_assoc, ← hback]
      exact hfront
    · exact fun c hc => List.mem_takeWhile_imp hc
    · exact fun c hc => List.mem_takeWhile_imp (List.mem_reverse.mp hc)
  · -- What is left begins as it did before its end was cut off.
    intro c hc
    have hhead : front.head? = some c := by
      rw [hback, List.head?_append, hc]
      rfl
    have hkept := List.head?_dropWhile_not isBlank cs
    rw [show cs.dropWhile isBlank = front from rfl, hhead] at hkept
    simpa using hkept
  · intro c hc
    have hlast : (front.reverse.dropWhile isBlank).head? = some c := by
      rw [← List.getLast?_reverse]
      exact hc
    have hkept := List.head?_dropWhile_not isBlank front.reverse
    rw [hlast] at hkept
    simpa using hkept

/-- A text is trimmed in one way only. -/
theorem isTrimmed_iff : IsTrimmed cs ds ↔ ds = trimChars cs :=
  ⟨IsTrimmed.eq_trimChars, fun h => h ▸ isTrimmed_trimChars cs⟩

end DataBinding.Text
