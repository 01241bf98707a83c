import Mathlib.Data.Nat.Find
import DataBinding.Proofs.Text.Blank
import DataBinding.Template.Interpolation

set_option autoImplicit false

/-! # Where the first interpolation stands

The scan for an interpolation goes through a text once and never back. What it finds is said here
by positions: braces open at `i` and close at `j` (`Closes`), `i` is the least position at which
braces open that are closed, and `j` the least position at which they are (`IsFirst`). The scan
finds this interpolation, and it finds none exactly if there is none (`key?_finds_first`).
-/

namespace DataBinding.Interpolation

open Text

/-- Two closing braces stand at the position `j` of what follows an opening. In front of them there
is at least one character, and no line feed. -/
structure Ends (cs : List Char) (j : Nat) : Prop where
  closing : cs[j]? = some '}' ∧ cs[j + 1]? = some '}'
  filled : 1 ≤ j
  line : ∀ k < j, cs[k]? ≠ some '\n'

/-- Two opening braces stand at the position `i` of a text and two closing ones at `j`. Between them
there is at least one character, and no line feed. -/
structure Closes (cs : List Char) (i j : Nat) : Prop where
  opening : cs[i]? = some '{' ∧ cs[i + 1]? = some '{'
  closing : cs[j]? = some '}' ∧ cs[j + 1]? = some '}'
  filled : i + 3 ≤ j
  line : ∀ k, i + 2 ≤ k → k < j → cs[k]? ≠ some '\n'

/-- The first interpolation: no other opening before `i` is closed, and the one at `i` is not closed
before `j`. -/
structure IsFirst (cs : List Char) (i j : Nat) : Prop where
  closes : Closes cs i j
  earliest : ∀ i' j', Closes cs i' j' → i ≤ i'
  shortest : ∀ j', Closes cs i j' → j ≤ j'

/-- The characters between the braces that open at `i` and close at `j`. -/
def between (cs : List Char) (i j : Nat) : List Char := (cs.drop (i + 2)).take (j - (i + 2))

variable {c : Char} {cs key : List Char} {i j : Nat}

/-! ## The end of an interpolation -/

theorem not_ends_nil : ¬ Ends [] j := by
  intro h
  simpa using h.closing.1

/-- The braces that close right behind the first character, or further on. -/
theorem ends_cons_iff :
    Ends (c :: cs) j ↔ c ≠ '\n' ∧
      ((j = 1 ∧ cs[0]? = some '}' ∧ cs[1]? = some '}') ∨ ∃ j', j = j' + 1 ∧ Ends cs j') := by
  constructor
  · intro h
    have hc : c ≠ '\n' := by simpa using h.line 0 h.filled
    refine ⟨hc, ?_⟩
    obtain ⟨j', rfl⟩ : ∃ j', j = j' + 1 := ⟨j - 1, by have := h.filled; omega⟩
    have hclosing : cs[j']? = some '}' ∧ cs[j' + 1]? = some '}' := by simpa using h.closing
    cases j' with
    | zero => exact .inl ⟨rfl, hclosing⟩
    | succ j' =>
        refine .inr ⟨j' + 1, rfl, hclosing, by omega, fun k hk => ?_⟩
        simpa using h.line (k + 1) (by omega)
  · rintro ⟨hc, ⟨rfl, hclosing⟩ | ⟨j', rfl, h⟩⟩
    · refine ⟨by simpa using hclosing, Nat.le_refl 1, fun k hk => ?_⟩
      obtain rfl : k = 0 := by omega
      simpa using hc
    · refine ⟨by simpa using h.closing, by omega, fun k hk => ?_⟩
      cases k with
      | zero => simpa using hc
      | succ k => simpa using h.line k (by omega)

theorem isPrefixOf_closing_iff :
    ['}', '}'].isPrefixOf cs = true ↔ cs[0]? = some '}' ∧ cs[1]? = some '}' := by
  match cs with
  | [] => simp
  | [a] => simp
  | a :: b :: cs => simp [List.isPrefixOf, eq_comm (a := '}')]

theorem untilClosing_eq_none_iff : untilClosing cs = none ↔ ∀ j, ¬ Ends cs j := by
  induction cs with
  | nil => simp [untilClosing, not_ends_nil]
  | cons c cs ih =>
      by_cases hc : c = '\n'
      · simp [untilClosing, ends_cons_iff, hc]
      · by_cases hclosing : ['}', '}'].isPrefixOf cs = true
        · have hend : Ends (c :: cs) 1 :=
            ends_cons_iff.mpr ⟨hc, .inl ⟨rfl, isPrefixOf_closing_iff.mp hclosing⟩⟩
          have hsome : untilClosing (c :: cs) = some [c] := by simp [untilClosing, hc, hclosing]
          rw [hsome]
          exact iff_of_false (by simp) fun h => h 1 hend
        · have hnone : untilClosing (c :: cs) = none ↔ untilClosing cs = none := by
            simp [untilClosing, hc, hclosing]
          rw [hnone, ih]
          constructor
          · intro h j hj
            obtain ⟨-, ⟨-, hnear⟩ | ⟨j', -, hj'⟩⟩ := ends_cons_iff.mp hj
            · exact hclosing (isPrefixOf_closing_iff.mpr hnear)
            · exact h j' hj'
          · exact fun h j hj => h (j + 1) (ends_cons_iff.mpr ⟨hc, .inr ⟨j, rfl, hj⟩⟩)

/-- The scan for closing braces stops at the first ones. -/
theorem untilClosing_of_ends (h : Ends cs j) (hfirst : ∀ j', Ends cs j' → j ≤ j') :
    untilClosing cs = some (cs.take j) := by
  induction cs generalizing j with
  | nil => exact absurd h not_ends_nil
  | cons c cs ih =>
      obtain ⟨hc, hnear | ⟨j', rfl, h'⟩⟩ := ends_cons_iff.mp h
      · obtain ⟨rfl, hclosing⟩ := hnear
        simp [untilClosing, hc, isPrefixOf_closing_iff.mpr hclosing]
      · -- Closing braces right behind the first character would come before those at `j' + 1`.
        have hfar : ¬ ['}', '}'].isPrefixOf cs = true := by
          intro hclosing
          have hnear := isPrefixOf_closing_iff.mp hclosing
          have hone := hfirst 1 (ends_cons_iff.mpr ⟨hc, .inl ⟨rfl, hnear⟩⟩)
          have := h'.filled
          omega
        have hnext : ∀ j'', Ends cs j'' → j' ≤ j'' := by
          intro j'' h''
          have := hfirst (j'' + 1) (ends_cons_iff.mpr ⟨hc, .inr ⟨j'', rfl, h''⟩⟩)
          omega
        simp [untilClosing, hc, hfar, ih h' hnext]

/-! ## The beginning of an interpolation -/

theorem opens_iff : opens cs = true ↔ cs[0]? = some '{' ∧ cs[1]? = some '{' := by
  match cs with
  | [] => simp [opens]
  | [a] => simp [opens]
  | a :: b :: cs => simp [opens_cons_iff]

theorem not_closes_nil : ¬ Closes [] i j := by
  intro h
  simpa using h.opening.1

theorem getElem?_drop_one (c : Char) (cs : List Char) (k : Nat) :
    (cs.drop 1)[k]? = (c :: cs)[k + 2]? := by
  simp

/-- Braces that open at the head of a text and close further on. -/
theorem closes_zero_iff :
    Closes (c :: cs) 0 j ↔ opens (c :: cs) = true ∧ ∃ j', j = j' + 2 ∧ Ends (cs.drop 1) j' := by
  constructor
  · intro h
    obtain ⟨j', rfl⟩ : ∃ j', j = j' + 2 := ⟨j - 2, by have := h.filled; omega⟩
    have hfilled := h.filled
    refine ⟨opens_iff.mpr h.opening, j', rfl, ?_, by omega, fun k hk => ?_⟩
    · rw [getElem?_drop_one c, getElem?_drop_one c, Nat.add_right_comm]
      exact h.closing
    · rw [getElem?_drop_one c]
      exact h.line (k + 2) (by omega) (by omega)
  · rintro ⟨hopens, j', rfl, h⟩
    have hfilled := h.filled
    refine ⟨opens_iff.mp hopens, ?_, by omega, fun k hk hj => ?_⟩
    · have hclosing := h.closing
      rw [getElem?_drop_one c, getElem?_drop_one c, Nat.add_right_comm] at hclosing
      exact hclosing
    · obtain ⟨k, rfl⟩ : ∃ k', k = k' + 2 := ⟨k - 2, by omega⟩
      rw [← getElem?_drop_one]
      exact h.line k (by omega)

/-- Braces that open further on. -/
theorem closes_cons_succ : Closes (c :: cs) (i + 1) (j + 1) ↔ Closes cs i j := by
  constructor
  · intro h
    refine ⟨by simpa using h.opening, by simpa using h.closing, ?_, fun k hk hj => ?_⟩
    · have := h.filled
      omega
    · simpa using h.line (k + 1) (by omega) (by omega)
  · intro h
    refine ⟨by simpa using h.opening, by simpa using h.closing, ?_, fun k hk hj => ?_⟩
    · have := h.filled
      omega
    · obtain ⟨k, rfl⟩ : ∃ k', k = k' + 1 := ⟨k - 1, by omega⟩
      simpa using h.line k (by omega) (by omega)

/-- Braces that open behind the head of a text, closing braces included. -/
theorem exists_of_closes_cons (h : Closes (c :: cs) i j) (hi : i ≠ 0) :
    ∃ i' j', i = i' + 1 ∧ j = j' + 1 ∧ Closes cs i' j' := by
  obtain ⟨i', rfl⟩ := Nat.exists_eq_succ_of_ne_zero hi
  obtain ⟨j', rfl⟩ : ∃ j', j = j' + 1 := ⟨j - 1, by have := h.filled; omega⟩
  exact ⟨i', j', rfl, rfl, closes_cons_succ.mp h⟩

/-! ## The scan -/

/-- What the scan finds at the head of a text. -/
def atHead (cs : List Char) : Option (List Char) :=
  if opens cs then untilClosing (cs.drop 2) else none

theorem scan_cons_eq : scan (c :: cs) = (atHead (c :: cs)).or (scan cs) := scan_cons c cs

theorem atHead_eq_none_iff : atHead (c :: cs) = none ↔ ∀ j, ¬ Closes (c :: cs) 0 j := by
  simp only [closes_zero_iff]
  cases hopens : opens (c :: cs) with
  | false => simp [atHead, hopens]
  | true =>
      simp only [atHead, hopens, if_true, List.drop_succ_cons, untilClosing_eq_none_iff]
      constructor
      · rintro h j ⟨-, j', -, hj'⟩
        exact h j' hj'
      · exact fun h j hj => h (j + 2) ⟨trivial, j, rfl, hj⟩

theorem atHead_of_closes (h : Closes (c :: cs) 0 j)
    (hfirst : ∀ j', Closes (c :: cs) 0 j' → j ≤ j') :
    atHead (c :: cs) = some (between (c :: cs) 0 j) := by
  obtain ⟨hopens, j', rfl, hends⟩ := closes_zero_iff.mp h
  have hshortest : ∀ j'', Ends (cs.drop 1) j'' → j' ≤ j'' := by
    intro j'' h''
    have := hfirst (j'' + 2) (closes_zero_iff.mpr ⟨hopens, j'', rfl, h''⟩)
    omega
  simp only [atHead, hopens, if_true, List.drop_succ_cons, untilClosing_of_ends hends hshortest,
    between, Nat.zero_add, Nat.add_sub_cancel]

theorem scan_eq_none_iff : scan cs = none ↔ ∀ i j, ¬ Closes cs i j := by
  induction cs with
  | nil => simp [scan, not_closes_nil]
  | cons c cs ih =>
      rw [scan_cons_eq, Option.or_eq_none_iff, atHead_eq_none_iff, ih]
      constructor
      · rintro ⟨hhead, hlater⟩ i j h
        by_cases hi : i = 0
        · exact hhead j (hi ▸ h)
        · obtain ⟨i', j', -, -, h'⟩ := exists_of_closes_cons h hi
          exact hlater i' j' h'
      · intro h
        exact ⟨h 0, fun i j h' => h (i + 1) (j + 1) (closes_cons_succ.mpr h')⟩

/-- The scan finds the first interpolation. -/
theorem IsFirst.scan (h : IsFirst cs i j) : scan cs = some (between cs i j) := by
  induction cs generalizing i j with
  | nil => exact absurd h.closes not_closes_nil
  | cons c cs ih =>
      rw [scan_cons_eq]
      by_cases hi : i = 0
      · subst hi
        rw [atHead_of_closes h.closes h.shortest]
        rfl
      · have hhead : atHead (c :: cs) = none := by
          rw [atHead_eq_none_iff]
          intro j' h'
          have := h.earliest 0 j' h'
          omega
        obtain ⟨i', j', rfl, rfl, h'⟩ := exists_of_closes_cons h.closes hi
        have hrest : IsFirst cs i' j' := by
          refine ⟨h', fun i'' j'' h'' => ?_, fun j'' h'' => ?_⟩
          · have := h.earliest (i'' + 1) (j'' + 1) (closes_cons_succ.mpr h'')
            omega
          · have := h.shortest (j'' + 1) (closes_cons_succ.mpr h'')
            omega
        rw [hhead, Option.none_or, ih hrest, between, between, List.drop_succ_cons]
        congr 2
        omega

/-- Where braces open that are closed, there is a first interpolation. -/
theorem Closes.exists_isFirst (h : Closes cs i j) : ∃ i j, IsFirst cs i j := by
  classical
  have hopened : ∃ i, ∃ j, Closes cs i j := ⟨i, j, h⟩
  have hclosed : ∃ j, Closes cs (Nat.find hopened) j := Nat.find_spec hopened
  exact ⟨Nat.find hopened, Nat.find hclosed, Nat.find_spec hclosed,
    fun i' j' h' => Nat.find_min' hopened ⟨j', h'⟩, fun j' h' => Nat.find_min' hclosed h'⟩

theorem scan_eq_some_iff : scan cs = some key ↔ ∃ i j, IsFirst cs i j ∧ key = between cs i j := by
  constructor
  · intro h
    obtain ⟨i, j, hcloses⟩ : ∃ i j, Closes cs i j := by
      by_contra hnone
      rw [scan_eq_none_iff.mpr fun i j hcloses => hnone ⟨i, j, hcloses⟩] at h
      cases h
    obtain ⟨i, j, hfirst⟩ := hcloses.exists_isFirst
    exact ⟨i, j, hfirst, Option.some.inj (h.symm.trans hfirst.scan)⟩
  · rintro ⟨i, j, hfirst, rfl⟩
    exact hfirst.scan

/-! ## An interpolation as it is written -/

theorem scan_append_of_not_mem {before : List Char} (h : '{' ∉ before) :
    scan (before ++ cs) = scan cs := by
  induction before with
  | nil => rfl
  | cons c before ih =>
      rw [List.mem_cons, not_or] at h
      have hopens : opens (c :: (before ++ cs)) = false := by
        rw [Bool.eq_false_iff]
        exact fun hopens => h.1 (opens_cons_iff.mp hopens).1.symm
      rw [List.cons_append, scan_cons, hopens, ih h.2]
      rfl

/-- Up to the first closing braces there is everything, if there are neither closing braces nor line
feeds in it. -/
theorem untilClosing_append {after : List Char} (hne : key ≠ []) (hclosing : '}' ∉ key)
    (hline : '\n' ∉ key) : untilClosing (key ++ '}' :: '}' :: after) = some key := by
  induction key with
  | nil => exact absurd rfl hne
  | cons c key ih =>
      simp only [List.mem_cons, not_or] at hclosing hline
      cases key with
      | nil => simp [untilClosing, Ne.symm hline.1]
      | cons d key =>
          have hlater := ih (by simp) hclosing.2 hline.2
          have hnot : ¬ ['}', '}'].isPrefixOf (d :: key ++ '}' :: '}' :: after) = true := by
            simp only [List.mem_cons, not_or] at hclosing
            simp [List.isPrefixOf, hclosing.2.1]
          rw [List.cons_append, untilClosing, if_neg (Ne.symm hline.1), if_neg hnot, hlater]
          rfl

/-- A key between blanks and braces is found, whatever stands behind it and whatever but an opening
brace in front of it. -/
theorem key?_append {before key after : String} (hbefore : '{' ∉ before.toList)
    (hclosing : '}' ∉ key.toList) (hline : '\n' ∉ key.toList)
    (htrimmed : IsTrimmed key.toList key.toList) :
    key? (before ++ "\x7b\x7b " ++ key ++ " \x7d\x7d" ++ after) = some key := by
  let content := ' ' :: (key.toList ++ [' '])
  have htext : (before ++ "\x7b\x7b " ++ key ++ " \x7d\x7d" ++ after).toList =
      before.toList ++ '{' :: '{' :: (content ++ '}' :: '}' :: after.toList) := by
    simp [content]
  have huntil : untilClosing (content ++ '}' :: '}' :: after.toList) = some content := by
    apply untilClosing_append
    · simp [content]
    · simpa [content] using hclosing
    · simpa [content] using hline
  have hblank : ∀ c ∈ [' '], isBlank c = true := List.forall_mem_singleton.mpr rfl
  have hcontent : IsTrimmed content key.toList :=
    ⟨⟨[' '], [' '], rfl, hblank, hblank⟩, htrimmed.head, htrimmed.last⟩
  have hscan : scan (before ++ "\x7b\x7b " ++ key ++ " \x7d\x7d" ++ after).toList =
      some content := by
    have hopens : opens ('{' :: '{' :: (content ++ '}' :: '}' :: after.toList)) = true := rfl
    rw [htext, scan_append_of_not_mem hbefore, scan_cons, if_pos hopens, List.drop_succ_cons,
      List.drop_zero, huntil]
    rfl
  rw [key?, hscan, Option.map_some, ← hcontent.eq_trimChars, String.ofList_toList]

/-- There is a key exactly if braces open somewhere that are closed, and then it is what stands
between the first of them, trimmed. In particular a key that is written between blanks and braces is
read back. -/
theorem key?_finds_first :
    (∀ text, (key? text = none ↔ ∀ i j, ¬ Closes text.toList i j) ∧
      ∀ key, key? text = some key ↔
        ∃ i j, IsFirst text.toList i j ∧ IsTrimmed (between text.toList i j) key.toList) ∧
    ∀ before key after : String, '{' ∉ before.toList → '}' ∉ key.toList → '\n' ∉ key.toList →
      IsTrimmed key.toList key.toList →
      key? (before ++ "\x7b\x7b " ++ key ++ " \x7d\x7d" ++ after) = some key := by
  refine ⟨fun text => ⟨?_, fun key => ?_⟩, fun before key after => key?_append⟩
  · rw [key?, Option.map_eq_none_iff, scan_eq_none_iff]
  · simp only [key?, Option.map_eq_some_iff, scan_eq_some_iff, isTrimmed_iff]
    constructor
    · rintro ⟨_, ⟨i, j, hfirst, rfl⟩, rfl⟩
      exact ⟨i, j, hfirst, String.toList_ofList⟩
    · rintro ⟨i, j, hfirst, hkey⟩
      exact ⟨_, ⟨i, j, hfirst, rfl⟩, by rw [← hkey, String.ofList_toList]⟩

/-- Two braces that open and close at once, and then a key. -/
def closedAtOnce : String := "\x7b\x7b\x7d\x7d \x7b\x7b a \x7d\x7d"

/-- Braces that close at once do not count, so everything up to the next ones belongs to the key. -/
theorem key?_finds_closedAtOnce :
    key? closedAtOnce = some "\x7d\x7d \x7b\x7b a" ∧
      key? ("\x7d\n" ++ "\x7b\x7b " ++ "a.b" ++ " \x7d\x7d" ++ "\x7d\x7d") = some "a.b" := by
  obtain ⟨hfirst, hwritten⟩ := key?_finds_first
  constructor
  · have hcloses : Closes closedAtOnce.toList 0 10 := by
      have hline : ∀ k < 10, closedAtOnce.toList[k]? ≠ some '\n' := by decide +kernel
      exact ⟨by decide +kernel, by decide +kernel, by omega, fun k _ => hline k⟩
    have hshortest : ∀ j, Closes closedAtOnce.toList 0 j → 10 ≤ j := by
      have hnone : ∀ j < 10, 3 ≤ j → ¬ (closedAtOnce.toList[j]? = some '}' ∧
          closedAtOnce.toList[j + 1]? = some '}') := by decide +kernel
      intro j h
      by_contra hj
      exact hnone j (by omega) h.filled h.closing
    refine ((hfirst _).2 _).mpr ⟨0, 10, ⟨hcloses, fun i j _ => i.zero_le, hshortest⟩, ?_⟩
    exact isTrimmed_iff.mpr (by decide +kernel)
  · exact hwritten _ _ _ (by decide +kernel) (by decide +kernel) (by decide +kernel)
      (isTrimmed_iff.mpr (by decide +kernel))

end DataBinding.Interpolation
