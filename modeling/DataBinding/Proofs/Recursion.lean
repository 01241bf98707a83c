import DataBinding.Proofs.Conversion
import Mathlib.Tactic.ByContra

set_option autoImplicit false

/-! # The recursion of observation

Every level of the recursion marks one more record, and no mark is ever lost (`KeepsMarks`). So the
recursion comes to an end, and it goes no deeper than there are unobserved records: with a greater
bound it comes to the same, whatever is done at the bound (`observeWithin_eq_observe`). Hence
observation satisfies the equation of the recursion, in which there is no bound (`observe_eq`).
-/

namespace DataBinding

namespace State

variable {st st₁ st' : State} {r a : RecordId} {depth k : Nat}

theorem mem_unobserved_iff :
    a ∈ st.unobserved ↔ a.index < st.records.size ∧ st.isUnobserved a = true := by
  rw [unobserved, List.mem_filter, Table.mem_ids_iff]

/-! ## The marks -/

/-- From `st` to `st'` no record has come in or has lost its mark. -/
structure KeepsMarks (st st' : State) : Prop where
  size : st'.records.size = st.records.size
  kept : ∀ a, st.isUnobserved a = false → st'.isUnobserved a = false

namespace KeepsMarks

theorem refl (st : State) : KeepsMarks st st := ⟨rfl, fun _ => id⟩

theorem trans (h : KeepsMarks st st₁) (h' : KeepsMarks st₁ st') : KeepsMarks st st' :=
  ⟨h'.size.trans h.size, fun a ha => h'.kept a (h.kept a ha)⟩

theorem isUnobserved_before (h : KeepsMarks st st') (ha : st'.isUnobserved a = true) :
    st.isUnobserved a = true := by
  by_contra hobs
  rw [h.kept a (Bool.eq_false_iff.mpr hobs)] at ha
  cases ha

theorem sublist (h : KeepsMarks st st') : st'.unobserved.Sublist st.unobserved := by
  have hids : st'.records.ids = st.records.ids := by rw [Table.ids, h.size, Table.ids]
  rw [unobserved, unobserved, hids]
  exact List.monotone_filter_right _ fun a => h.isUnobserved_before

theorem markObserved (st : State) (r : RecordId) : KeepsMarks st (st.markObserved r) := by
  refine ⟨size_records_markObserved st r, fun a ha => ?_⟩
  by_cases har : r = a
  · subst har
    by_cases hr : r.index < st.records.size
    · exact isUnobserved_markObserved hr
    · rw [isUnobserved, Table.get_eq_default (Nat.le_of_not_lt hr)] at ha
      cases ha
  · rw [isUnobserved, get_markObserved_of_ne st har, ← isUnobserved, ha]

theorem withCell (st : State) (p : Slot) (v : Value) : KeepsMarks st (st.withCell p v) :=
  ⟨size_records_withCell st p v, fun a ha => (isUnobserved_withCell st p v a).trans ha⟩

variable {observe : State → RecordId → State} (h : ∀ st r, KeepsMarks st (observe st r))

include h

theorem defineCellBy (st : State) (p : Slot) (v : Value) :
    KeepsMarks st (defineCellBy observe st p v).2 := by
  have hvalue : KeepsMarks st (observeValueBy observe st v) := by
    rw [observeValueBy_eq]
    cases v.record? with
    | none => exact .refl st
    | some b => exact h st b
  exact hvalue.trans (withCell _ p v)

theorem foldl (es : List (String × Value)) (st : State) (r : RecordId) :
    KeepsMarks st (es.foldl (fun st e => (State.defineCellBy observe st ⟨r, e.1⟩ e.2).2) st) := by
  induction es generalizing st with
  | nil => exact .refl st
  | cons e rest ih => exact (defineCellBy h st ⟨r, e.1⟩ e.2).trans (ih _)

end KeepsMarks

/-- A mark leaves one unobserved record less. -/
theorem length_unobserved_markObserved_lt (hr : r ∈ st.unobserved) :
    (st.markObserved r).unobserved.length < st.unobserved.length := by
  have hless := (KeepsMarks.markObserved st r).sublist
  refine Nat.lt_of_le_of_ne hless.length_le fun hlength => ?_
  have hmarked := hless.eq_of_length hlength ▸ hr
  rw [mem_unobserved_iff, isUnobserved_markObserved (mem_unobserved_iff.mp hr).1] at hmarked
  cases hmarked.2

/-! ## The bound -/

section Within

variable (atBound : State → RecordId → State)

theorem observeWithin_succ (h : st.isUnobserved r = true) (depth : Nat) :
    observeWithin atBound (depth + 1) st r = (st.records.get r).fields.plain.foldl
      (fun st e => (defineCellBy (observeWithin atBound depth) st ⟨r, e.1⟩ e.2).2)
      (st.markObserved r) := by
  rw [observeWithin, if_pos h, ← fields_markObserved st r r]

/-- A record that is observed already is left alone, and so is one that is not there. -/
theorem observeWithin_of_not_mem (h : r ∉ st.unobserved) (depth : Nat) :
    observeWithin atBound (depth + 1) st r = st := by
  by_cases hobs : st.isUnobserved r = true
  · have hsize : st.records.size ≤ r.index :=
      Nat.le_of_not_lt fun hr => h (mem_unobserved_iff.mpr ⟨hr, hobs⟩)
    have hrecords : st.records.modify r (fun b => { b with observed := true }) = st.records :=
      Table.modify_eq_self fun b hb => by
        rw [Table.get?_eq_none hsize] at hb
        cases hb
    rw [observeWithin_succ atBound hobs, Table.get_eq_default hsize, markObserved, hrecords]
    rfl
  · rw [observeWithin, if_neg hobs]

variable {atBound}

theorem keepsMarks_observeWithin (h : ∀ st r, KeepsMarks st (atBound st r)) (depth : Nat)
    (st : State) (r : RecordId) : KeepsMarks st (observeWithin atBound depth st r) := by
  induction depth generalizing st r with
  | zero => exact h st r
  | succ depth ih =>
      rw [observeWithin]
      split
      · exact (KeepsMarks.markObserved st r).trans (.foldl ih _ _ r)
      · exact .refl st

end Within

/-- Two ways to observe records make the same of the fields of a record, if they agree as long as no
more than `k` records are unobserved. -/
theorem foldl_defineCellBy_congr {observe observe' : State → RecordId → State}
    (hmarks : ∀ st r, KeepsMarks st (observe st r))
    (hsame : ∀ st r, st.unobserved.length ≤ k → observe st r = observe' st r)
    (es : List (String × Value)) (hk : st.unobserved.length ≤ k) :
    es.foldl (fun st e => (defineCellBy observe st ⟨r, e.1⟩ e.2).2) st =
      es.foldl (fun st e => (defineCellBy observe' st ⟨r, e.1⟩ e.2).2) st := by
  induction es generalizing st with
  | nil => rfl
  | cons e rest ih =>
      have hvalue : observeValueBy observe st e.2 = observeValueBy observe' st e.2 := by
        rw [observeValueBy_eq, observeValueBy_eq]
        cases e.2.record? with
        | none => rfl
        | some b => exact hsame st b hk
      have hfirst : (defineCellBy observe st ⟨r, e.1⟩ e.2).2 =
          (defineCellBy observe' st ⟨r, e.1⟩ e.2).2 := by
        rw [defineCellBy, hvalue, defineCellBy]
      have hless := (KeepsMarks.defineCellBy hmarks st ⟨r, e.1⟩ e.2).sublist.length_le
      rw [List.foldl_cons, List.foldl_cons, ← hfirst]
      exact ih (Nat.le_trans hless hk)

/-- Neither the bound nor what is done there makes a difference, if there are fewer unobserved
records than levels. -/
theorem observeWithin_eq {atBound atBound' : State → RecordId → State}
    (hmarks : ∀ st r, KeepsMarks st (atBound st r)) (hdepth : st.unobserved.length < depth)
    (hk : st.unobserved.length < k) :
    observeWithin atBound depth st r = observeWithin atBound' k st r := by
  induction depth generalizing st r k with
  | zero => omega
  | succ depth ih =>
      cases k with
      | zero => omega
      | succ k =>
          by_cases hr : r ∈ st.unobserved
          · have hless := length_unobserved_markObserved_lt hr
            have hobs := (mem_unobserved_iff.mp hr).2
            rw [observeWithin_succ atBound hobs, observeWithin_succ atBound' hobs]
            refine foldl_defineCellBy_congr (keepsMarks_observeWithin hmarks depth)
              (fun st₁ r₁ hsmall => ?_) _ (Nat.le_refl _)
            exact ih (by omega) (by omega)
          · rw [observeWithin_of_not_mem atBound hr, observeWithin_of_not_mem atBound' hr]

theorem observeWithin_eq_observe {atBound : State → RecordId → State}
    (hdepth : st.unobserved.length < depth) : observeWithin atBound depth st r = st.observe r := by
  rw [observe]
  exact (observeWithin_eq (fun st _ => .refl st) (Nat.lt_succ_self _) hdepth).symm

/-! ## The equation -/

/-- A record that is not observed is marked, and then each of the fields that are plain is made
reactive, what it holds being observed first. -/
theorem observe_eq (st : State) (r : RecordId) : st.observe r =
    if st.isUnobserved r then
      (st.records.get r).fields.plain.foldl (fun st e => (st.defineCell ⟨r, e.1⟩ e.2).2)
        (st.markObserved r)
    else st := by
  let stay : State → RecordId → State := fun st _ => st
  by_cases hobs : st.isUnobserved r = true
  · have hless := (KeepsMarks.markObserved st r).sublist.length_le
    have hdeeper : observeWithin stay (st.unobserved.length + 2) st r = st.observe r :=
      observeWithin_eq_observe (by omega)
    rw [if_pos hobs, ← hdeeper, observeWithin_succ stay hobs]
    exact foldl_defineCellBy_congr (keepsMarks_observeWithin (fun st _ => .refl st) _)
      (fun _ _ hsmall => observeWithin_eq_observe (Nat.lt_succ_of_le hsmall)) _ hless
  · rw [if_neg hobs, observe]
    exact observeWithin_of_not_mem _ (fun h => hobs (mem_unobserved_iff.mp h).2) _

end State

end DataBinding
