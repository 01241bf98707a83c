import DataBinding.Proofs.Assignment

set_option autoImplicit false

/-! # What assigning a value makes of the data

After a value was assigned to a field, only this field holds another value than before, and the
records that have come to be observed are just those that the value leads to (`Assigned`). So the
data in the end are the same, whichever of two different fields is written first
(`content_eq_of_assigned`, `isObserved_eq_of_assigned`).
-/

namespace DataBinding

namespace State

variable {st st₁ st' : State} {r : RecordId} {v : Value} {c : CellId} {x : Slot} {e : ChannelId}

/-! ## Which records are observed -/

/-- From `st` to `st'` those records have come to be observed that the record `r?`, if there is one,
leads to. -/
structure Grows (st : State) (r? : Option RecordId) (st' : State) : Prop where
  kept : ∀ r, st.isObserved r = true → st'.isObserved r = true
  same : ∀ r, st'.isObserved r = false → st'.records.get r = st.records.get r
  start : ∀ r, r? = some r → st'.isObserved r = true
  closed : ∀ r, st.isObserved r = false → st'.isObserved r = true →
    ∀ r' ∈ st.heldPlainly r, st'.isObserved r' = true
  /-- There is no reason to be observed but these. -/
  least : ∀ P : RecordId → Prop, (∀ r, st.isObserved r = true → P r) → (∀ r, r? = some r → P r) →
    (∀ r, st.isObserved r = false → P r → ∀ r' ∈ st.heldPlainly r, P r') →
    ∀ r, st'.isObserved r = true → P r

namespace Grows

theorem refl (st : State) : Grows st none st where
  kept _ := id
  same _ _ := rfl
  start := nofun
  closed _ hr hr' := absurd (hr.symm.trans hr') nofun
  least _ hold _ _ := hold

/-- What is observed depends on the records only. -/
theorem congr {r? : Option RecordId} {base : State} (h : Grows st r? st')
    (hbase : base.records = st.records) (hrecords : st₁.records = st'.records) :
    Grows base r? st₁ := by
  have hobserved : st₁.isObserved = st'.isObserved := by
    funext r
    rw [isObserved, hrecords, isObserved]
  have hobserved' : base.isObserved = st.isObserved := by
    funext r
    rw [isObserved, hbase, isObserved]
  have hheld : base.heldPlainly = st.heldPlainly := by
    funext r
    rw [heldPlainly, hbase, heldPlainly]
  constructor
  · rw [hobserved, hobserved']
    exact h.kept
  · rw [hobserved, hrecords, hbase]
    exact h.same
  · rw [hobserved]
    exact h.start
  · rw [hobserved, hobserved', hheld]
    exact h.closed
  · rw [hobserved, hobserved', hheld]
    exact h.least

end Grows

theorem grows_observe (hheld : ∀ r, ∀ r' ∈ st.heldPlainly r, r'.index < st.records.size)
    (hr : r.index < st.records.size) : Grows st (some r) (st.observe r) := by
  obtain ⟨rs, ds, hwalk⟩ := walk_observe st r
  refine ⟨fun a => isObserved_observe, fun a ha => ?_, fun a ha => ?_,
    fun a hold hnew b hb => ?_, fun P hold hstart hnext a ha => ?_⟩
  · exact hwalk.get_of_isUnobserved (isUnobserved_iff.mpr ha)
  · cases ha
    exact hwalk.isObserved_start List.mem_cons_self hr
  · exact hwalk.isObserved_held (hwalk.mem_of_isObserved hold hnew) hb (hheld a b hb)
  · rcases hwalk.isObserved_iff.mp ha with hbefore | hrs
    · exact hold a hbefore
    · -- The record was reached from `r`, and every step on the way keeps the property.
      have hreached : ∀ a, st.LeadsTo r a → P a := by
        intro a hleads
        induction hleads with
        | refl => exact hstart r rfl
        | tail _ hlast ih => exact hnext _ hlast.1 ih _ (mem_heldPlainly_iff.mpr hlast.2)
      obtain ⟨b, hb, hleads⟩ := hwalk.reached a hrs
      exact hreached a (List.mem_singleton.mp hb ▸ hleads)

theorem grows_observeValue (hheld : ∀ r, ∀ r' ∈ st.heldPlainly r, r'.index < st.records.size)
    (hv : ∀ r, v.record? = some r → r.index < st.records.size) :
    Grows st v.record? (st.observeValue v) := by
  rw [observeValue_eq]
  cases hr : v.record? with
  | none => exact .refl st
  | some r => exact grows_observe hheld (hv r hr)

/-- In a state whose records and cells fit together, the records that are held plainly exist. -/
theorem Sound.heldPlainly_lt (h : Sound st) (r : RecordId) :
    ∀ r' ∈ st.heldPlainly r, r'.index < st.records.size := by
  intro r' hr'
  obtain ⟨key, hkey⟩ := mem_heldPlainly_iff.mp hr'
  exact h.held r key _ r' hkey rfl

/-! ## The channels of new cells -/

theorem channel?_observe (h : Celled st) (r : RecordId) (he : (st.observe r).channel? x = some e) :
    st.channel? x = some e ∨ st.channels.size ≤ e.index := by
  obtain ⟨rs, ds, hwalk⟩ := walk_observe st r
  have hconv := hwalk.converts
  obtain ⟨c, hc, rfl⟩ := Option.map_eq_some_iff.mp he
  rw [cell?_eq_some] at hc
  rcases hconv.field?_cases x with ⟨-, v, d, e, -, hmade⟩ | hsame
  · rw [hmade.field] at hc
    cases hc
    rw [hmade.content]
    exact .inr hmade.channel.1
  · have hold : st.cell? x = some c := cell?_eq_some.mpr (hsame ▸ hc)
    rw [channel?, hold, Option.map_some, hconv.cells.cells c (h.lt_size hold)]
    exact .inl rfl

theorem channel?_observeValue (h : Celled st) (v : Value)
    (he : (st.observeValue v).channel? x = some e) :
    st.channel? x = some e ∨ st.channels.size ≤ e.index := by
  rw [observeValue_eq] at he
  cases hr : v.record? with
  | none => exact .inl (by rwa [hr] at he)
  | some r => exact channel?_observe h r (by rwa [hr] at he)

/-! ## Assigning -/

/-- What has become of the data when `v` was assigned to the field `p`, whose cell is `c`. -/
structure Assigned (st : State) (p : Slot) (c : CellId) (v : Value) (st' : State) : Prop where
  content : ∀ x, st'.content x = if st.differs c v = true ∧ x = p then v else st.content x
  cell : ∀ x d, st.cell? x = some d → st'.cell? x = some d
  channel : ∀ x e, st.channel? x = some e → st'.channel? x = some e
  fresh : ∀ x e, st'.channel? x = some e → st.channel? x = some e ∨ st.channels.size ≤ e.index
  keys : ∀ r, Fields.keys (st'.records.get r).fields = Fields.keys (st.records.get r).fields
  size : st'.records.size = st.records.size
  channels_size : st.channels.size ≤ st'.channels.size
  grows : Grows st (if st.differs c v then v.record? else none) st'

theorem Assigned.congr {p : Slot} (h : Assigned st p c v st₁) (hgraph : SameGraph st₁ st')
    (hchannels : st₁.channels.size ≤ st'.channels.size) : Assigned st p c v st' := by
  have hcell : ∀ x, st'.cell? x = st₁.cell? x := fun x => by
    rw [cell?, hgraph.field?, cell?]
  refine ⟨fun x => ?_, fun x d hd => ?_, fun x e he => ?_, fun x e he => ?_, fun r => ?_, ?_,
    Nat.le_trans h.channels_size hchannels, h.grows.congr rfl hgraph.records⟩
  · rw [hgraph.content, h.content]
  · rw [hcell]
    exact h.cell x d hd
  · rw [hgraph.channel?]
    exact h.channel x e he
  · rw [hgraph.channel?] at he
    exact h.fresh x e he
  · rw [hgraph.records, h.keys]
  · rw [hgraph.records, h.size]

theorem assigned_assign (hgraph : Graph st) (hsound : Sound st) {p : Slot}
    (hp : st.cell? p = some c) (hv : ∀ r, v.record? = some r → r.index < st.records.size) :
    Assigned st p c v (st.assign c v) := by
  cases hdiffers : st.differs c v with
  | false =>
      rw [assign_of_same hdiffers]
      refine ⟨fun x => ?_, fun _ _ => id, fun _ _ => id, fun _ _ => .inl, fun _ => rfl, rfl,
        Nat.le_refl _, ?_⟩
      · rw [hdiffers, if_neg fun h => Bool.noConfusion h.1]
      · rw [hdiffers]
        exact .refl st
  | true =>
      let stored := st.store c v
      have hstored : Celled stored := hgraph.celled.store c v
      have hconv := onlyConverts_observeValue hstored v
      have hobs := observes_observeValue stored v
      have hchannel : ∀ x, stored.channel? x = st.channel? x := by
        intro x
        rw [channel?, channel?]
        refine congrArg (Option.map · (st.cell? x)) (funext fun d => ?_)
        rw [get_store]
        split <;> rfl
      have hobserved : Assigned st p c v (stored.observeValue v) := by
        refine ⟨fun x => ?_, fun x d hd => hconv.cell x d hd, fun x e he => ?_, fun x e he => ?_,
          hconv.keys, hconv.size, hobs.channels_size, ?_⟩
        · have hown : st.cell? x = some c ↔ x = p :=
            ⟨fun hx => hgraph.celled.own x p c hx hp, fun hx => hx ▸ hp⟩
          rw [hconv.content, hgraph.celled.content_store, hdiffers]
          simp only [hown, true_and]
        · rw [← hchannel] at he
          obtain ⟨d, hd, rfl⟩ := Option.map_eq_some_iff.mp he
          rw [channel?, hconv.cell x d hd, Option.map_some, hobs.cells d (hstored.lt_size hd)]
        · rw [← hchannel]
          exact channel?_observeValue hstored v he
        · rw [hdiffers]
          have hgrows : Grows stored v.record? (stored.observeValue v) :=
            grows_observeValue hsound.heldPlainly_lt hv
          exact hgrows.congr rfl rfl
      rw [assign_of_differs hdiffers]
      have hreported : SameGraph (stored.observeValue v)
          ((stored.observeValue v).report (.changed (st.cells.get c).key)) := ⟨rfl, rfl⟩
      have hassigned := hobserved.congr hreported (Nat.le_refl _)
      refine hassigned.congr (onlySubscriptions_notify ..).graph ?_
      exact Nat.le_of_eq (size_channels_notify ..).symm

/-! ## Two fields -/

section Two

variable {p q : Slot} {d : CellId} {w : Value}

/-- Assigning to another field does not change whether a value differs from the one there is. -/
theorem Assigned.differs_eq (h : Assigned st p c v st') (hq : st.cell? q = some d) (hpq : p ≠ q) :
    st'.differs d w = st.differs d w := by
  have hvalue : (st'.cells.get d).value = (st.cells.get d).value := by
    rw [← content_eq_of_cell? (h.cell q d hq), ← content_eq_of_cell? hq, h.content,
      if_neg fun hx => hpq hx.2.symm]
  rw [differs, hvalue, differs]

/-- What is observed when one record and then another is observed contains what is observed when it
is the other way round. -/
theorem Grows.le {one two two' : State} {r? r'? : Option RecordId} (h₁ : Grows st r? st₁)
    (h₂ : Grows st₁ r'? one) (h₁' : Grows st r'? two) (h₂' : Grows two r? two')
    (hr : one.isObserved r = true) : two'.isObserved r = true := by
  -- What is observed in the end on the other way is closed, so nothing leads out of it.
  have hclosed : ∀ r, st.isObserved r = false → two'.isObserved r = true →
      ∀ r' ∈ st.heldPlainly r, two'.isObserved r' = true := by
    intro r hold hnew r' hr'
    cases hmeanwhile : two.isObserved r with
    | true => exact h₂'.kept r' (h₁'.closed r hold hmeanwhile r' hr')
    | false =>
        refine h₂'.closed r hmeanwhile hnew r' ?_
        rw [heldPlainly, h₁'.same r hmeanwhile]
        exact hr'
  have hfirst : ∀ r, st₁.isObserved r = true → two'.isObserved r = true :=
    h₁.least _ (fun r hr => h₂'.kept r (h₁'.kept r hr)) h₂'.start hclosed
  refine h₂.least _ hfirst (fun r hr => h₂'.kept r (h₁'.start r hr)) (fun r hold hnew => ?_) r hr
  have hbefore : st.isObserved r = false := by
    cases hst : st.isObserved r with
    | false => rfl
    | true => exact absurd (hold.symm.trans (h₁.kept r hst)) Bool.false_ne_true
  rw [heldPlainly, h₁.same r hold]
  exact hclosed r hbefore hnew

variable {one₁ one two₁ two : State} (h₁ : Assigned st p c v one₁) (h₂ : Assigned one₁ q d w one)
  (h₁' : Assigned st q d w two₁) (h₂' : Assigned two₁ p c v two) (hp : st.cell? p = some c)
  (hq : st.cell? q = some d) (hpq : p ≠ q)

include h₁ h₂ h₁' h₂' hp hq hpq

theorem content_eq_of_assigned (x : Slot) : one.content x = two.content x := by
  rw [h₂.content, h₁.content, h₂'.content, h₁'.content, h₁.differs_eq hq hpq,
    h₁'.differs_eq hp hpq.symm]
  by_cases hxp : x = p
  · have hxq : x ≠ q := hxp ▸ hpq
    simp [hxp, hpq]
  · simp [hxp]

theorem isObserved_eq_of_assigned (r : RecordId) : one.isObserved r = two.isObserved r := by
  have hgrows₂ := h₂.grows
  have hgrows₂' := h₂'.grows
  rw [h₁.differs_eq hq hpq] at hgrows₂
  rw [h₁'.differs_eq hp hpq.symm] at hgrows₂'
  rw [Bool.eq_iff_iff]
  exact ⟨h₁.grows.le hgrows₂ h₁'.grows hgrows₂', h₁'.grows.le hgrows₂' h₁.grows hgrows₂⟩

end Two

end State

end DataBinding
