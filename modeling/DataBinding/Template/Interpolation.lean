import DataBinding.Text.Blank

set_option autoImplicit false

/-! # Interpolations

An interpolation is a key between two opening and two closing braces, on one line and with at
least one character in between. The first one counts: the scan takes the earliest opening that
is closed, and for it the earliest closing.
-/

namespace DataBinding.Interpolation

/-- The characters before the first closing braces, at least one, none of them a line feed. -/
def untilClosing : List Char → Option (List Char)
  | [] => none
  | c :: cs =>
    if c = '\n' then none
    else if ['}', '}'].isPrefixOf cs then some [c]
    else (untilClosing cs).map (c :: ·)

/-- Whether braces open at the head of a text. -/
def opens : List Char → Bool
  | '{' :: '{' :: _ => true
  | _ => false

/-- The characters of the first interpolation. When an opening is not closed on its line, no
later opening on that line is, so the scan goes on with the next line. -/
def scan : List Char → Option (List Char)
  | [] => none
  | c :: cs =>
    if opens (c :: cs) then
      match untilClosing (cs.drop 1) with
      | some key => some key
      | none => scan (cs.dropWhile (· ≠ '\n'))
    else scan cs
termination_by cs => cs.length
decreasing_by
  all_goals
    have := (List.dropWhile_sublist (p := (· ≠ '\n')) (l := cs)).length_le
    simp only [List.length_cons]
    omega

theorem opens_cons_iff {c : Char} {cs : List Char} :
    opens (c :: cs) = true ↔ c = '{' ∧ ∃ rest, cs = '{' :: rest := by
  constructor
  · intro h
    unfold opens at h
    split at h
    · simp_all
    · simp at h
  · rintro ⟨rfl, rest, rfl⟩
    rfl

theorem untilClosing_tail {c : Char} {cs : List Char} (hc : c ≠ '\n')
    (h : untilClosing (c :: cs) = none) : untilClosing cs = none := by
  simp only [untilClosing, hc, if_false] at h
  split at h
  · cases h
  · simpa using h

theorem untilClosing_drop_one {c : Char} {cs : List Char} (hopens : opens (c :: cs) = true)
    (h : untilClosing cs = none) : untilClosing (cs.drop 1) = none := by
  obtain ⟨_, rest, rfl⟩ := opens_cons_iff.1 hopens
  exact untilClosing_tail (by decide) h

/-- A line on which nothing closes holds no interpolation. -/
theorem scan_dropWhile {cs : List Char} (h : untilClosing cs = none) :
    scan (cs.dropWhile (· ≠ '\n')) = scan cs := by
  induction cs with
  | nil => rfl
  | cons c cs ih =>
    by_cases hc : c = '\n'
    · simp [hc]
    · have htail := untilClosing_tail hc h
      have hdrop : (c :: cs).dropWhile (· ≠ '\n') = cs.dropWhile (· ≠ '\n') := by simp [hc]
      rw [hdrop, scan]
      split
      · next hopens => rw [untilClosing_drop_one hopens htail]
      · exact ih htail

/-- The first interpolation begins at the head of the text, or it is the first one behind it. -/
theorem scan_cons (c : Char) (cs : List Char) :
    scan (c :: cs) =
      (if opens (c :: cs) then untilClosing (cs.drop 1) else none).or (scan cs) := by
  rw [scan]
  split
  · next hopens =>
    obtain ⟨_, rest, rfl⟩ := opens_cons_iff.1 hopens
    cases hk : untilClosing (('{' :: rest).drop 1) with
    | some key => rfl
    | none =>
      have hrest : untilClosing rest = none := hk
      have hline : ('{' :: rest).dropWhile (· ≠ '\n') = rest.dropWhile (· ≠ '\n') := by simp
      simp only [Option.none_or]
      rw [hline, scan.eq_def ('{' :: rest)]
      dsimp only
      split
      · next hagain => rw [untilClosing_drop_one hagain hrest]
      · exact scan_dropWhile hrest
  · rfl

/-- The trimmed key of the first interpolation in a text. -/
def key? (text : String) : Option String :=
  (scan text.toList).map fun key => String.ofList (Text.trimChars key)

end DataBinding.Interpolation
