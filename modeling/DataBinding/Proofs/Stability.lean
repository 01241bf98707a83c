import DataBinding.Proofs.Altering

set_option autoImplicit false

/-! # Reactive fields last

In any run in which no field that is reactive already is made reactive by force, the fields of a
record keep their names and their order, a reactive field keeps its cell and its channel, and what
a reactive field holds is observed, together with all the fields that it had when it came to be
observed (`Run.steady`).

A move does one thing to the data at most (`Alters`), and so it is enough to say what each of these
things leaves as it was (`Endures`), that it observes records as a whole (`Completes`) and that it
observes what it puts into a reactive field (`HoldsObserved`).
-/

namespace DataBinding

open State

namespace State

variable {st st₁ st' : State} {p q : Slot} {r a : RecordId} {v : Value}
  {w? : Option (Slot × Value)}

/-! ## What endures, and what is observed -/

/-- From `st` to `st'` no field has lost its name or its place, no reactive field its cell or its
channel, and no observed record is unobserved again. -/
structure Endures (st st' : State) : Prop where
  keys : ∀ r, (st.records.get r).fields.keys <+: (st'.records.get r).fields.keys
  cell : ∀ p c, st.cell? p = some c → st'.cell? p = some c
  channel : ∀ p e, st.channel? p = some e → st'.channel? p = some e
  observed : ∀ r, st.isObserved r = true → st'.isObserved r = true

/-- A record that has come to be observed has reactive fields only. -/
def Completes (st st' : State) : Prop :=
  ∀ r, st.isObserved r = false → st'.isObserved r = true →
    ∀ key ∈ (st'.records.get r).fields.keys, (st'.cell? ⟨r, key⟩).isSome = true

/-- The records that reactive fields hold are observed, but for one that may still have to be. -/
def HoldsObserved (loose? : Option RecordId) (st : State) : Prop :=
  ∀ p c r, st.cell? p = some c → (st.content p).record? = some r →
    st.isObserved r = true ∨ loose? = some r

/-- A change of the data after which all is in order if it was before. -/
structure Matures (st st' : State) : Prop where
  endures : Endures st st'
  completes : Completes st st'
  holdsObserved : HoldsObserved none st'

theorem SameGraph.isObserved (h : SameGraph st st') (r : RecordId) :
    st'.isObserved r = st.isObserved r := by
  rw [State.isObserved, h.records, State.isObserved]

theorem SameGraph.cell? (h : SameGraph st st') (p : Slot) : st'.cell? p = st.cell? p := by
  rw [State.cell?, h.field?, State.cell?]

namespace Endures

theorem of_sameGraph (h : SameGraph st st') : Endures st st' where
  keys r := h.records ▸ List.prefix_rfl
  cell p c hc := by rwa [h.cell?]
  channel p e he := by rwa [h.channel?]
  observed r hr := by rwa [h.isObserved]

theorem trans (h : Endures st st₁) (h' : Endures st₁ st') : Endures st st' where
  keys r := (h.keys r).trans (h'.keys r)
  cell p c hc := h'.cell p c (h.cell p c hc)
  channel p e he := h'.channel p e (h.channel p e he)
  observed r hr := h'.observed r (h.observed r hr)

end Endures

theorem Completes.of_observed (h : ∀ r, st'.isObserved r = st.isObserved r) :
    Completes st st' := by
  intro r hold hnew
  rw [h, hold] at hnew
  cases hnew

theorem HoldsObserved.congr {loose? : Option RecordId} (h : HoldsObserved loose? st)
    (hgraph : SameGraph st st') : HoldsObserved loose? st' := by
  intro p c r hc hr
  rw [hgraph.cell?] at hc
  rw [hgraph.content] at hr
  rw [hgraph.isObserved]
  exact h p c r hc hr

theorem Matures.congr {base done : State} (h : Matures base done) (hbefore : SameGraph st base)
    (hafter : SameGraph done st') : Matures st st' := by
  refine ⟨((Endures.of_sameGraph hbefore).trans h.endures).trans (.of_sameGraph hafter), ?_,
    h.holdsObserved.congr hafter⟩
  intro r hold hnew key hkey
  rw [← hbefore.isObserved] at hold
  rw [hafter.isObserved] at hnew
  rw [hafter.records] at hkey
  rw [hafter.cell?]
  exact h.completes r hold hnew key hkey

/-! ## Observing -/

theorem Endures.of_onlyConverts (hcelled : Celled st) (hconv : OnlyConverts st st')
    (hobs : Observes st st') : Endures st st' where
  keys r := hconv.keys r ▸ List.prefix_rfl
  cell := hconv.cell
  observed r hr := hobs.isObserved hr
  channel p e he := by
    obtain ⟨c, hc, rfl⟩ := Option.map_eq_some_iff.mp he
    rw [channel?, hconv.cell p c hc, Option.map_some, hobs.cells c (hcelled.lt_size hc)]

theorem endures_observeValue (hcelled : Celled st) (v : Value) : Endures st (st.observeValue v) :=
  .of_onlyConverts hcelled (onlyConverts_observeValue hcelled v) (observes_observeValue st v)

theorem completes_observe (st : State) (r : RecordId) : Completes st (st.observe r) := by
  intro a hold hnew key hkey
  obtain ⟨rs, ds, hwalk⟩ := walk_observe st r
  have hmem := hwalk.mem_of_isObserved hold hnew
  obtain ⟨f, hf⟩ := Option.isSome_iff_exists.mp (isSome_field?_iff (p := ⟨a, key⟩).mpr hkey)
  obtain ⟨c, rfl, -⟩ := hwalk.converts.reactive hmem (mem_of_field? hf)
  have hc : (st.observe r).cell? ⟨a, key⟩ = some c := cell?_eq_some.mpr hf
  rw [hc]
  rfl

theorem completes_observeValue (st : State) (v : Value) : Completes st (st.observeValue v) := by
  rw [observeValue_eq]
  cases v.record? with
  | none => exact .of_observed fun _ => rfl
  | some r => exact completes_observe st r

/-- After a record is observed, no reactive field has to wait for its observation. -/
theorem HoldsObserved.observe (h : HoldsObserved (some r) st) (hknows : KnowsHeld st)
    (hcelled : Celled st) (hr : r.index < st.records.size) :
    HoldsObserved none (st.observe r) := by
  have hgrows := grows_observe hknows hr
  have hconv := onlyConverts_observe hcelled r
  intro p c a hc ha
  rw [hconv.content] at ha
  refine .inl ?_
  cases hf : st.field? p with
  | none =>
      have hsome := isSome_field?_congr hconv.keys p
      rw [hf, cell?_eq_some.mp hc] at hsome
      cases hsome
  | some f =>
      cases f with
      | reactive d =>
          rcases h p d a (cell?_eq_some.mpr hf) ha with hobs | hself
          · exact hgrows.kept a hobs
          · exact hgrows.start a hself
      | plain u =>
          -- The field has become reactive, so its record has been observed only now.
          have hplain : st.cell? p = none := by rw [cell?, hf]
          have hsame : (st.observe r).records.get p.record ≠ st.records.get p.record := by
            intro hsame
            rw [cell?, State.field?, hsame, ← State.field?, ← cell?, hplain] at hc
            cases hc
          have hold : st.isObserved p.record = false := by
            by_contra hobs
            rw [Bool.not_eq_false] at hobs
            exact hsame ((observes_observe st r).records p.record hobs)
          have hnew : (st.observe r).isObserved p.record = true := by
            by_contra hobs
            rw [Bool.not_eq_true] at hobs
            exact hsame (hgrows.same p.record hobs)
          rw [content_eq_of_plain hf] at ha
          exact hgrows.closed p.record hold hnew a (mem_heldPlainly (mem_of_field? hf) ha)

theorem HoldsObserved.observeValue (h : HoldsObserved v.record? st) (hknows : KnowsHeld st)
    (hcelled : Celled st) (hv : ∀ r, v.record? = some r → r.index < st.records.size) :
    HoldsObserved none (st.observeValue v) := by
  rw [observeValue_eq]
  cases hr : v.record? with
  | none =>
      rw [hr] at h
      exact h
  | some r =>
      rw [hr] at h
      exact h.observe hknows hcelled (hv r hr)

theorem isObserved_observeValue (hknows : KnowsHeld st)
    (hv : ∀ r, v.record? = some r → r.index < st.records.size) (hr : v.record? = some r) :
    (st.observeValue v).isObserved r = true :=
  (grows_observeValue hknows hv).start r hr

/-! ## Putting fields -/

theorem isObserved_putField (st : State) (p : Slot) (f : Field) (r : RecordId) :
    (st.putField p f).isObserved r = st.isObserved r := by
  rw [isObserved, putField, Table.get_modify]
  split <;> rfl

theorem isPrefix_keys_putField (st : State) (p : Slot) (f : Field) (r : RecordId) :
    (st.records.get r).fields.keys <+: ((st.putField p f).records.get r).fields.keys := by
  rw [keys_putField]
  split
  · split
    · exact List.prefix_refl _
    · exact List.prefix_append _ _
  · exact List.prefix_refl _

theorem cell?_putField_plain (st : State) (p q : Slot) (v : Value) :
    (st.putField p (.plain v)).cell? q =
      if p = q ∧ p.record.index < st.records.size then none else st.cell? q := by
  by_cases h : p = q ∧ p.record.index < st.records.size
  · rw [if_pos h, cell?, field?_putField, if_pos h]
  · rw [if_neg h, cell?, field?_putField, if_neg h, cell?]

theorem cell?_withCell (st : State) (p q : Slot) (v : Value) :
    (st.withCell p v).cell? q =
      if p = q ∧ p.record.index < st.records.size then some st.cells.fresh else st.cell? q := by
  by_cases h : p = q ∧ p.record.index < st.records.size
  · rw [if_pos h, cell?, field?_withCell, if_pos h]
  · rw [if_neg h, cell?, field?_withCell, if_neg h, cell?]

theorem matures_putField (hst : HoldsObserved none st) (hp : st.cell? p = none) (v : Value) :
    Matures st (st.putField p (.plain v)) := by
  have hcell : ∀ q c, st.cell? q = some c → (st.putField p (.plain v)).cell? q = some c := by
    intro q c hc
    rw [cell?_putField_plain, if_neg, hc]
    rintro ⟨rfl, -⟩
    cases hp.symm.trans hc
  refine ⟨⟨isPrefix_keys_putField st p _, hcell, fun q e he => ?_, fun r hr => ?_⟩,
    .of_observed (isObserved_putField st p _), fun q c a hc ha => ?_⟩
  · obtain ⟨c, hc, rfl⟩ := Option.map_eq_some_iff.mp he
    rw [channel?, hcell q c hc]
    rfl
  · rw [isObserved_putField, hr]
  · rw [cell?_putField_plain] at hc
    split at hc
    · cases hc
    · rename_i hq
      rw [content_putField, if_neg hq] at ha
      rw [isObserved_putField]
      exact hst q c a hc ha

/-- A field that was not reactive has been made reactive by force. What observing its value did to
the field itself does not matter. -/
theorem matures_defineCell (hst : HoldsObserved none st) (hknows : KnowsHeld st)
    (hcelled : Celled st) (hp : st.cell? p = none)
    (hv : ∀ r, v.record? = some r → r.index < st.records.size) :
    Matures st (st.defineCell p v).2 := by
  let observed := st.observeValue v
  have hdone : (st.defineCell p v).2 = observed.withCell p v := rfl
  have hendures := endures_observeValue hcelled v
  have hcelled' : Celled observed := (onlyConverts_observeValue hcelled v).celled
  have hflag : ∀ r, (observed.withCell p v).isObserved r = observed.isObserved r :=
    isObserved_putField (observed.newCell p.key v).2 p _
  have hcell : ∀ q c, st.cell? q = some c → (observed.withCell p v).cell? q = some c := by
    intro q c hc
    rw [cell?_withCell, if_neg, hendures.cell q c hc]
    rintro ⟨rfl, -⟩
    cases hp.symm.trans hc
  rw [hdone]
  refine ⟨⟨fun r =>
      (hendures.keys r).trans (isPrefix_keys_putField (observed.newCell p.key v).2 p _ r),
    hcell, fun q e he => ?_, fun r hr => (hflag r).trans (hendures.observed r hr)⟩,
    fun a hold hnew key hkey => ?_, fun q c a hc ha => .inl ?_⟩
  · obtain ⟨c, hc, rfl⟩ := Option.map_eq_some_iff.mp he
    have hold := hendures.channel q _ he
    rw [channel?, hendures.cell q c hc, Option.map_some, Option.some.injEq] at hold
    rw [channel?, hcell q c hc, Option.map_some,
      get_cells_withCell observed p v (hcelled'.lt_size (hendures.cell q c hc)), hold]
  · rw [hflag] at hnew
    rw [cell?_withCell]
    split
    · rfl
    · rename_i hother
      -- Another field of the record was there when the record was observed.
      refine completes_observeValue st v a hold hnew key ?_
      rw [← isSome_field?_iff (p := ⟨a, key⟩)] at hkey ⊢
      rwa [field?_withCell, if_neg hother] at hkey
  · rw [hflag]
    rw [content_withCell hcelled'] at ha
    rw [cell?_withCell] at hc
    split at hc
    · rename_i hq
      rw [if_pos hq] at ha
      exact isObserved_observeValue hknows hv ha
    · rename_i hq
      rw [if_neg hq] at ha
      have hloose : HoldsObserved v.record? st := fun q c r hc hr =>
        (hst q c r hc hr).imp_right fun h => absurd h (Option.some_ne_none r).symm
      exact (hloose.observeValue hknows hcelled hv q c a hc ha).resolve_right
        (Option.some_ne_none a).symm

/-! ## Assigning -/

theorem matures_assign (hst : HoldsObserved none st) (hknows : KnowsHeld st) (hcelled : Celled st)
    (c : CellId) (hv : ∀ r, v.record? = some r → r.index < st.records.size) :
    Matures st (st.assign c v) := by
  cases hdiffers : st.differs c v with
  | false =>
      rw [assign_of_same hdiffers]
      exact ⟨.of_sameGraph ⟨rfl, rfl⟩, .of_observed fun _ => rfl, hst⟩
  | true =>
      let stored := st.store c v
      have hstored : Celled stored := hcelled.store c v
      have hchannel : ∀ q, stored.channel? q = st.channel? q := by
        intro q
        rw [channel?, channel?]
        refine congrArg (Option.map · (st.cell? q)) (funext fun d => ?_)
        rw [get_store]
        split <;> rfl
      have hendures : Endures st stored :=
        ⟨fun _ => List.prefix_refl _, fun _ _ => id, fun q e he => (hchannel q).trans he,
          fun _ => id⟩
      have hloose : HoldsObserved v.record? stored := by
        intro q d a hd ha
        rw [hcelled.content_store] at ha
        split at ha
        · exact .inr ha
        · exact (hst q d a hd ha).imp_right fun h => absurd h (Option.some_ne_none a).symm
      have hobserved : Matures st (stored.observeValue v) :=
        ⟨hendures.trans (endures_observeValue hstored v), completes_observeValue stored v,
          hloose.observeValue hknows hstored hv⟩
      have hreported : SameGraph (stored.observeValue v)
          ((stored.observeValue v).report (.changed (st.cells.get c).key)) := ⟨rfl, rfl⟩
      have hnotified := (onlySubscriptions_notify
        ((stored.observeValue v).report (.changed (st.cells.get c).key))
        (st.cells.get c).channel).graph
      rw [assign_of_differs hdiffers]
      exact hobserved.congr ⟨rfl, rfl⟩ (hreported.trans hnotified)

/-! ## One thing at a time -/

theorem DataStep.matures (h : DataStep False st w? st') (hst : HoldsObserved none st)
    (hknows : KnowsHeld st) (hcelled : Celled st) : Matures st st' := by
  cases h with
  | stay => exact ⟨.of_sameGraph ⟨rfl, rfl⟩, .of_observed fun _ => rfl, hst⟩
  | newRecord =>
      have hget : ∀ r, st.newRecord.2.records.get r = st.records.get r :=
        Table.get_alloc_default st.records
      have hflag : ∀ r, st.newRecord.2.isObserved r = st.isObserved r := by
        intro r
        rw [isObserved, hget, isObserved]
      have hfield : ∀ q, st.newRecord.2.field? q = st.field? q := by
        intro q
        rw [State.field?, hget, State.field?]
      have hcell : ∀ q, st.newRecord.2.cell? q = st.cell? q := by
        intro q
        rw [cell?, hfield, cell?]
      refine ⟨⟨fun r => hget r ▸ List.prefix_rfl, fun q c hc => (hcell q).trans hc,
        fun q e he => ?_, fun r hr => (hflag r).trans hr⟩, .of_observed hflag,
        fun q c a hc ha => ?_⟩
      · rw [channel?, hcell]
        exact he
      · rw [hcell] at hc
        rw [hflag]
        refine hst q c a hc ?_
        rw [content, hfield] at ha
        exact ha
  | putField p v hp => exact matures_putField hst hp v
  | assign p c v hp hv => exact matures_assign hst hknows hcelled c hv
  | assignUnheld c v hc hv => exact matures_assign hst hknows hcelled c hv
  | observe v hv =>
      have hloose : HoldsObserved v.record? st := fun q c r hc hr =>
        (hst q c r hc hr).imp_right fun h => absurd h (Option.some_ne_none r).symm
      exact ⟨endures_observeValue hcelled v, completes_observeValue st v,
        hloose.observeValue hknows hcelled hv⟩
  | define p v hp hv => exact matures_defineCell hst hknows hcelled (hp.resolve_left id) hv

theorem Alters.matures (h : Alters False st w? st') (hst : HoldsObserved none st)
    (hknows : KnowsHeld st) (hcelled : Celled st) : Matures st st' := by
  obtain ⟨base, done, hbefore, hstep, hafter⟩ := h
  have hmatures := hstep.matures (hst.congr hbefore) (hknows.congr hbefore.records)
    (hcelled.of_sameGraph hbefore)
  exact hmatures.congr hbefore hafter

end State

/-! ## Runs -/

/-- What is known of the data of a run: its transitions `ts` have led to the state `st`. -/
structure Steady (ts : List Transition) (st : State) : Prop where
  /-- Names stay, in their order; new ones come behind. -/
  keys : ∀ t ∈ ts, ∀ r,
    (t.before.records.get r).fields.keys <+: (st.records.get r).fields.keys
  /-- A reactive field keeps its cell, whose channel stays the same. -/
  cell : ∀ t ∈ ts, ∀ p c, t.before.cell? p = some c →
    st.cell? p = some c ∧ st.channel? p = t.before.channel? p
  /-- Different fields have different channels. -/
  own : ∀ p q e, st.channel? p = some e → st.channel? q = some e → p = q
  /-- What a reactive field holds is observed. -/
  held : ∀ p c r, st.cell? p = some c → (st.cells.get c).value.record? = some r →
    st.isObserved r = true
  /-- A record was observed in one of the transitions, and the fields that it had after it are
  reactive. -/
  observed : ∀ r, st.isObserved r = true → ∃ t ∈ ts, t.before.isObserved r = false ∧
    t.after.isObserved r = true ∧
    ∀ key ∈ (t.after.records.get r).fields.keys, (st.cell? ⟨r, key⟩).isSome = true

theorem holdsObserved_empty : HoldsObserved none {} := by
  intro p c r hc
  rw [cell?_eq_some, State.field?] at hc
  cases hc

variable {ts : List Transition} {st : State}

theorem Run.holdsObserved (h : Run ts st) (hdefines : ∀ t ∈ ts, t.definesPlain = true) :
    HoldsObserved none st := by
  induction h with
  | start => exact holdsObserved_empty
  | @move ts st m h possible ih =>
      have hbefore := ih fun t ht => hdefines t (List.mem_cons_of_mem _ ht)
      have halters : Alters False st _ (m.run st) :=
        Transition.alters ⟨st, m⟩ possible (.inr (hdefines _ List.mem_cons_self))
      exact (halters.matures hbefore h.knowsHeld h.graph.celled).holdsObserved

theorem Run.matures {m : Move} (h : Run ts st) (hdefines : ∀ t ∈ ts, t.definesPlain = true)
    (possible : m.isPossible st = true) (hdefine : Transition.definesPlain ⟨st, m⟩ = true) :
    Matures st (m.run st) := by
  have halters : Alters False st _ (m.run st) :=
    Transition.alters ⟨st, m⟩ possible (.inr hdefine)
  exact halters.matures (h.holdsObserved hdefines) h.knowsHeld h.graph.celled

/-- What there was before any transition of a run endures. -/
theorem Run.endures (h : Run ts st) (hdefines : ∀ t ∈ ts, t.definesPlain = true) :
    ∀ t ∈ ts, Endures t.before st ∧ Endures t.after st := by
  induction h with
  | start => nofun
  | @move ts st m h possible ih =>
      have hrest : ∀ t ∈ ts, t.definesPlain = true :=
        fun t ht => hdefines t (List.mem_cons_of_mem _ ht)
      have hendures := (h.matures hrest possible (hdefines _ List.mem_cons_self)).endures
      intro t ht
      rcases List.mem_cons.mp ht with rfl | ht
      · exact ⟨hendures, .of_sameGraph ⟨rfl, rfl⟩⟩
      · exact ⟨(ih hrest t ht).1.trans hendures, (ih hrest t ht).2.trans hendures⟩

/-- Every observed record has come to be observed in some transition, with all its fields. -/
theorem Run.exists_observing (h : Run ts st) (hdefines : ∀ t ∈ ts, t.definesPlain = true)
    {r : RecordId} (hr : st.isObserved r = true) :
    ∃ t ∈ ts, t.before.isObserved r = false ∧ t.after.isObserved r = true ∧
      ∀ key ∈ (t.after.records.get r).fields.keys, (t.after.cell? ⟨r, key⟩).isSome = true := by
  induction h with
  | start => cases hr
  | @move ts st m h possible ih =>
      have hrest : ∀ t ∈ ts, t.definesPlain = true :=
        fun t ht => hdefines t (List.mem_cons_of_mem _ ht)
      cases hbefore : st.isObserved r with
      | true =>
          obtain ⟨t, ht, hobserving⟩ := ih hrest hbefore
          exact ⟨t, List.mem_cons_of_mem _ ht, hobserving⟩
      | false =>
          have hmatures := h.matures hrest possible (hdefines _ List.mem_cons_self)
          exact ⟨⟨st, m⟩, List.mem_cons_self, hbefore, hr, hmatures.completes r hbefore hr⟩

/-- In any run that makes no field reactive by force that is reactive already, reactive fields last
and hold observed records. -/
theorem Run.steady (h : Run ts st) (hdefines : ∀ t ∈ ts, t.definesPlain = true) :
    Steady ts st := by
  have hendures := h.endures hdefines
  refine ⟨fun t ht r => (hendures t ht).1.keys r, fun t ht p c hc => ?_,
    fun p q e => channel?_inj h.graph.celled h.channelled, fun p c r hc hr => ?_, fun r hr => ?_⟩
  · refine ⟨(hendures t ht).1.cell p c hc, ?_⟩
    have hchannel : t.before.channel? p = some (t.before.cells.get c).channel := by
      rw [channel?, hc, Option.map_some]
    rw [(hendures t ht).1.channel p _ hchannel, hchannel]
  · rw [← content_eq_of_cell? hc] at hr
    exact (h.holdsObserved hdefines p c r hc hr).resolve_right (Option.some_ne_none r).symm
  · obtain ⟨t, ht, hbefore, hafter, hkeys⟩ := h.exists_observing hdefines hr
    refine ⟨t, ht, hbefore, hafter, fun key hkey => ?_⟩
    obtain ⟨c, hc⟩ := Option.isSome_iff_exists.mp (hkeys key hkey)
    rw [(hendures t ht).2.cell _ c hc]
    rfl

/-- A record that is observed through another one, and goes on being written as if it were not: a
field is added to it, a reactive one gets another record, which leads back, and a new one is made
reactive by force. -/
def writtenOn : List Move :=
  [.operate .newRecord, .operate .newRecord, .operate .newRecord,
    .operate (.writeField ⟨⟨0⟩, "user"⟩ (.record ⟨1⟩)),
    .operate (.writeField ⟨⟨1⟩, "name"⟩ (.text "Ada")), .operate (.observe (.record ⟨0⟩)),
    .operate (.writeField ⟨⟨1⟩, "age"⟩ (.text "36")),
    .operate (.writeField ⟨⟨2⟩, "friend"⟩ (.record ⟨1⟩)),
    .operate (.writePath ⟨0⟩ "user" (.record ⟨2⟩)),
    .operate (.define ⟨⟨1⟩, "mentor"⟩ (.record ⟨2⟩)), .operate (.observe (.record ⟨0⟩))]

theorem steady_writtenOn :
    Steady (played [] {} writtenOn) (({} : State).play writtenOn) :=
  Run.steady (Run.play .start writtenOn (by decide +kernel)) (by decide +kernel)

example :
    let st := ({} : State).play writtenOn
    st.isObserved ⟨2⟩ = true ∧ st.cell? ⟨⟨1⟩, "age"⟩ = none ∧
      (st.cell? ⟨⟨1⟩, "mentor"⟩).isSome = true := by
  decide +kernel

end DataBinding
