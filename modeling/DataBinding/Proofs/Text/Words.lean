import Mathlib.Data.List.Basic
import DataBinding.Text.Blank

set_option autoImplicit false

/-! # The words of a text

The words of a text are its runs of characters that are not blank, each as long as it can be
(`mem_words_iff`).
-/

namespace DataBinding.Text

/-- `word` is a run in `cs` that is not empty, has no blank in it, and has a blank or an end of the
text on either side. -/
structure IsWordAt (before word after : List Char) : Prop where
  nonempty : word ≠ []
  solid : ∀ c ∈ word, isBlank c = false
  left : ∀ c, before.getLast? = some c → isBlank c = true
  right : ∀ c, after.head? = some c → isBlank c = true

/-- `word` is one of the words of `cs`. -/
def IsWordOf (word cs : List Char) : Prop :=
  ∃ before after, cs = before ++ word ++ after ∧ IsWordAt before word after

variable {cs front word : List Char} {sep : Char}

/-- A text has no blank, or it has a first one. -/
theorem exists_first_blank (cs : List Char) :
    (∀ c ∈ cs, isBlank c = false) ∨ ∃ front sep back, cs = front ++ sep :: back ∧
      (∀ c ∈ front, isBlank c = false) ∧ isBlank sep = true := by
  induction cs with
  | nil => exact .inl nofun
  | cons c cs ih =>
      cases hc : isBlank c with
      | true => exact .inr ⟨[], c, cs, rfl, nofun, hc⟩
      | false =>
          rcases ih with hnone | ⟨front, sep, back, rfl, hfront, hsep⟩
          · exact .inl (List.forall_mem_cons.mpr ⟨hc, hnone⟩)
          · exact .inr ⟨c :: front, sep, back, rfl, List.forall_mem_cons.mpr ⟨hc, hfront⟩, hsep⟩

/-- What comes after the first blank begins with a blank or an end before it. -/
theorem IsWordAt.behind {before after : List Char} (h : IsWordAt before word after)
    (hsep : isBlank sep = true) : IsWordAt (front ++ sep :: before) word after := by
  refine ⟨h.nonempty, h.solid, fun c hc => ?_, h.right⟩
  rw [List.getLast?_append_of_ne_nil _ (List.cons_ne_nil sep before)] at hc
  cases before with
  | nil =>
      cases hc
      exact hsep
  | cons b before => exact h.left c hc

/-- A piece between blanks is a word, unless it is empty. -/
theorem isWordOf_of_mem_splitOnP (h : word ∈ cs.splitOnP isBlank) (hne : word ≠ []) :
    IsWordOf word cs := by
  induction hlen : cs.length using Nat.strongRecOn generalizing cs with
  | ind n ih =>
      rcases exists_first_blank cs with hnone | ⟨front, sep, back, rfl, hfront, hsep⟩
      · rw [List.splitOnP_eq_singleton hnone, List.mem_singleton] at h
        subst h
        exact ⟨[], [], by simp, hne, hnone, nofun, nofun⟩
      · rw [List.splitOnP_append_cons_of_forall_mem hfront sep hsep, List.mem_cons] at h
        rcases h with rfl | h
        · refine ⟨[], sep :: back, rfl, hne, hfront, nofun, ?_⟩
          rintro c ⟨⟩
          exact hsep
        · have hshorter : back.length < n := by
            rw [← hlen, List.length_append, List.length_cons]
            omega
          obtain ⟨before, after, rfl, hat⟩ := ih _ hshorter h rfl
          refine ⟨front ++ sep :: before, after, ?_, hat.behind hsep⟩
          simp only [List.append_assoc, List.cons_append]

theorem mem_splitOnP_of_isWordOf (h : IsWordOf word cs) : word ∈ cs.splitOnP isBlank := by
  obtain ⟨before, after, rfl, hat⟩ := h
  have hword : word ∈ word.splitOnP isBlank := by
    rw [List.splitOnP_eq_singleton hat.solid]
    exact List.mem_singleton_self word
  have hafter : word ∈ (word ++ after).splitOnP isBlank := by
    cases after with
    | nil => rwa [List.append_nil]
    | cons c after =>
        rw [List.splitOnP_append_cons word after (hat.right c rfl)]
        exact List.mem_append_left _ hword
  rcases List.eq_nil_or_concat before with rfl | ⟨front, sep, rfl⟩
  · exact hafter
  · have hsep : isBlank sep = true := hat.left sep (by simp)
    have hsplit : front.concat sep ++ word ++ after = front ++ sep :: (word ++ after) := by simp
    rw [hsplit, List.splitOnP_append_cons front _ hsep]
    exact List.mem_append_right _ hafter

theorem mem_words_iff (word s : String) : word ∈ words s ↔ IsWordOf word.toList s.toList := by
  have hmem : word ∈ words s ↔ word.toList ∈ s.toList.splitOnP isBlank ∧ word.toList ≠ [] := by
    rw [words, List.mem_map]
    constructor
    · rintro ⟨piece, hpiece, rfl⟩
      rw [String.toList_ofList]
      exact ⟨(List.mem_filter.mp hpiece).1, by simpa using (List.mem_filter.mp hpiece).2⟩
    · rintro ⟨hpiece, hne⟩
      exact ⟨word.toList, List.mem_filter.mpr ⟨hpiece, by simpa using hne⟩, String.ofList_toList⟩
  rw [hmem]
  constructor
  · exact fun h => isWordOf_of_mem_splitOnP h.1 h.2
  · rintro ⟨before, after, hsplit, hat⟩
    exact ⟨mem_splitOnP_of_isWordOf ⟨before, after, hsplit, hat⟩, hat.nonempty⟩

end DataBinding.Text
