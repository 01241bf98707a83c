import DataBinding.Proofs.Number.Display

set_option autoImplicit false

/-! # Arrays as numbers and as texts

An array stands for a number in its own right, and its items joined by commas are a text that stands
for a number too. Two or more items make a text with a comma, which is no numeral, and an array of one
item comes down to the item on both sides. So the two numbers are the same or not by what is found
innermost in arrays of one item (`Value.coercesThroughText_iff`): `undefined` shows as nothing, which
stands for zero, and the text of a truth value stands for no number.
-/

namespace DataBinding

open Number Text

/-- Whether the number of a value is that of its text. -/
def CoercesThroughText (v : Value) : Prop :=
  (Value.number v.toNumber).same (.number (Value.text v.display).toNumber) = true

namespace Value

/-- What an array of one item holds, through all arrays of one item. -/
def innermost : Value → Value
  | .array _ [v] => innermost v
  | v => v

/-- Whether the value stands for another number than the text that it has in an array. -/
def differsInText : Value → Bool
  | .undefined | .bool _ => true
  | _ => false

/-- The text of a value in an array. -/
def itemText (v : Value) : String := if v.isBare then "" else v.display

variable {s : String}

theorem itemText_array (identity : Nat) (items : List Value) :
    (array identity items).itemText = (array identity items).display := rfl

theorem display_array_singleton (identity : Nat) (v : Value) :
    (array identity [v]).display = v.itemText := by
  rw [display, displayItems, displayItems, String.intercalate_singleton, itemText]

theorem mem_display_array (identity : Nat) (v v' : Value) (vs : List Value) :
    ',' ∈ (array identity (v :: v' :: vs)).display.toList := by
  rw [display, displayItems, displayItems, String.intercalate_cons_cons]
  simp

/-- A text with a comma in it is no numeral. -/
theorem toNumber_of_mem_comma (h : ',' ∈ s.toList) : (text s).toNumber = nan := by
  have htrimmed := isTrimmed_trimChars s.toList
  have hmem : ',' ∈ trimChars s.toList := by
    obtain ⟨l, r, hsplit, hl, hr⟩ := htrimmed.only_blanks
    have hcomma : isBlank ',' ≠ true := by decide
    rw [hsplit, List.mem_append, List.mem_append] at h
    rcases h with (h | h) | h
    · exact absurd (hl _ h) hcomma
    · exact h
    · exact absurd (hr _ h) hcomma
  refine (toNumber_eq_iff htrimmed).mpr (.other (List.ne_nil_of_mem hmem) ?_ fun p hp => ?_)
  · intro hinf
    have hnone : ∀ t ∈ ["Infinity".toList, "+Infinity".toList, "-Infinity".toList], ',' ∉ t := by
      decide
    exact hnone _ hinf hmem
  · exact absurd (hp.mem hmem) (by decide)

/-- The number of a value is that of its text in an array unless it comes down to `undefined` or a
truth value. -/
theorem same_itemText_iff (v : Value) :
    v.toNumber.same (text v.itemText).toNumber = true ↔ v.innermost.differsInText = false := by
  fun_induction Value.toNumber v with
  | case1 => decide +kernel
  | case2 => decide +kernel
  | case3 => decide +kernel
  | case4 b hb =>
      obtain rfl : b = false := Bool.eq_false_iff.mpr hb
      decide +kernel
  | case5 n => exact iff_of_true (Number.same_symm (toNumber_display n)) rfl
  | case6 s => exact iff_of_true (same_self (.number (ofText s))) rfl
  | case7 =>
      have hempty : zero.same (text "").toNumber = true := by decide +kernel
      exact iff_of_true hempty rfl
  | case8 identity v ih =>
      rw [itemText_array, display_array_singleton, innermost]
      exact ih
  | case9 identity v v' vs =>
      rw [itemText_array, toNumber_of_mem_comma (mem_display_array identity v v' vs)]
      exact iff_of_true (by decide) rfl
  | case10 =>
      have hrecord : nan.same (text "[object Object]").toNumber = true := by decide +kernel
      exact iff_of_true hrecord rfl

/-- An array is coerced through its text unless it comes down to `undefined` or a truth value. -/
theorem coercesThroughText_iff (identity : Nat) (items : List Value) :
    CoercesThroughText (.array identity items) ↔
      (Value.array identity items).innermost.differsInText = false := by
  rw [← same_itemText_iff, itemText_array]
  rfl

/-- An array that holds `undefined` shows as nothing, and one that holds a truth value shows no
numeral. -/
theorem not_always_coercesThroughText :
    ¬ CoercesThroughText (.array 0 [.undefined]) ∧ ¬ CoercesThroughText (.array 0 [.bool true]) := by
  unfold CoercesThroughText
  decide +kernel

end Value

end DataBinding
