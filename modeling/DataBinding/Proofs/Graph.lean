import DataBinding.Proofs.Effect

set_option autoImplicit false

/-! # Records and cells in any run

In the states of any run, tame or not, every reactive field has a cell of its own (`Celled`), and
every record that a field holds exists (`Graph`). So a store in a cell is seen in one field only,
and making fields reactive is not seen at all in what they hold (`Converts.content`).
-/

namespace DataBinding

open State Relation

namespace State

variable {st st' : State} {p q : Slot} {c : CellId} {r : RecordId} {v : Value}

/-! ## What a change of a record or a cell is seen as -/

theorem content_putField (st : State) (p q : Slot) (f : Field) :
    (st.putField p f).content q =
      if p = q ∧ p.record.index < st.records.size then st.fieldValue f else st.content q := by
  rw [content, field?_putField]
  split
  · rfl
  · rfl

theorem get_store (st : State) (c d : CellId) (v : Value) :
    (st.store c v).cells.get d =
      if c = d ∧ d.index < st.cells.size then { st.cells.get d with value := v }
      else st.cells.get d :=
  Table.get_modify ..

theorem content_eq_of_none (hp : st.field? p = none) : st.content p = .undefined := by
  rw [content, hp]
  rfl

theorem content_eq_of_plain (hp : st.field? p = some (.plain v)) : st.content p = v := by
  rw [content, hp]
  rfl

theorem content_eq_of_cell? (hc : st.cell? p = some c) : st.content p = (st.cells.get c).value := by
  rw [content, cell?_eq_some.mp hc]
  rfl

/-! ## Every reactive field has a cell of its own -/

/-- The cells of reactive fields exist, and no two fields have the same. -/
structure Celled (st : State) : Prop where
  known : ∀ r key c, (key, Field.reactive c) ∈ (st.records.get r).fields →
    c.index < st.cells.size
  own : ∀ p q c, st.cell? p = some c → st.cell? q = some c → p = q

namespace Celled

theorem lt_size (h : Celled st) (hc : st.cell? p = some c) : c.index < st.cells.size :=
  h.known p.record p.key c (mem_of_field? (cell?_eq_some.mp hc))

theorem congr (h : Celled st)
    (hfields : ∀ r, (st'.records.get r).fields = (st.records.get r).fields)
    (hcells : st.cells.size ≤ st'.cells.size) : Celled st' := by
  have hcell : ∀ p, st'.cell? p = st.cell? p := by
    intro p
    rw [cell?, field?_eq_get?, hfields, ← field?_eq_get?, cell?]
  constructor
  · intro r key c hc
    rw [hfields] at hc
    exact Nat.lt_of_lt_of_le (h.known r key c hc) hcells
  · intro p q c hp hq
    rw [hcell] at hp hq
    exact h.own p q c hp hq

theorem of_sameGraph (h : Celled st) (hgraph : SameGraph st st') : Celled st' :=
  h.congr (fun r => by rw [hgraph.records]) (Nat.le_of_eq (by rw [hgraph.cells]))

theorem store (h : Celled st) (c : CellId) (v : Value) : Celled (st.store c v) :=
  h.congr (fun _ => rfl) (Nat.le_of_eq (Table.size_modify ..).symm)

/-- A store in a cell is seen in the fields of the cell, and in no other. -/
theorem content_store (h : Celled st) (c : CellId) (v : Value) (q : Slot) :
    (st.store c v).content q = if st.cell? q = some c then v else st.content q := by
  cases hf : st.field? q with
  | none =>
      have hf' : (st.store c v).field? q = none := hf
      rw [if_neg (fun hq => nomatch (cell?_eq_some.mp hq).symm.trans hf), content_eq_of_none hf,
        content_eq_of_none hf']
  | some f =>
      cases f with
      | plain u =>
          have hf' : (st.store c v).field? q = some (.plain u) := hf
          rw [if_neg (fun hq => nomatch (cell?_eq_some.mp hq).symm.trans hf),
            content_eq_of_plain hf, content_eq_of_plain hf']
      | reactive d =>
          have hd := cell?_eq_some.mpr hf
          have hd' : (st.store c v).cell? q = some d := hd
          rw [content_eq_of_cell? hd', content_eq_of_cell? hd, get_store, hd]
          by_cases hcd : c = d
          · rw [if_pos ⟨hcd, h.lt_size hd⟩, if_pos (congrArg some hcd.symm)]
          · rw [if_neg fun h => hcd h.1, if_neg fun h => hcd (Option.some.inj h).symm]

end Celled

/-! ## Observing -/

/-- A mark is not seen in the fields. -/
theorem Celled.markAll (h : Celled st) (rs : List RecordId) : Celled (st.markAll rs) :=
  h.congr (fields_markAll st rs) (Nat.le_of_eq (by rw [rest_markAll]))

theorem Celled.withCell (h : Celled st) (p : Slot) (v : Value) : Celled (st.withCell p v) := by
  have hcell : ∀ q c, (st.withCell p v).cell? q = some c →
      (q = p ∧ c = st.cells.fresh) ∨ (st.cell? q = some c ∧ c ≠ st.cells.fresh) := by
    intro q c hq
    rw [cell?_eq_some, field?_withCell] at hq
    split at hq
    · rename_i hpq
      cases hq
      exact .inl ⟨hpq.1.symm, rfl⟩
    · have hq' := cell?_eq_some.mpr hq
      exact .inr ⟨hq', Table.ne_fresh (h.lt_size hq')⟩
  constructor
  · intro r key c hc
    rw [cells_withCell]
    rcases mem_fields_putField hc with ⟨-, hnew⟩ | hold
    · cases hnew
      exact Nat.lt_succ_self _
    · exact Nat.lt_succ_of_lt (h.known r key c hold)
  · intro p' q' c hp hq
    rcases hcell p' c hp with ⟨rfl, hc⟩ | ⟨hp', hne⟩
    · rcases hcell q' c hq with ⟨rfl, -⟩ | ⟨-, hne⟩
      · rfl
      · exact absurd hc hne
    · rcases hcell q' c hq with ⟨-, hc⟩ | ⟨hq', -⟩
      · exact absurd hc hne
      · exact h.own p' q' c hp' hq'

theorem Celled.withCells (h : Celled st) (ds : List (Slot × Value)) : Celled (st.withCells ds) := by
  induction ds generalizing st with
  | nil => exact h
  | cons d rest ih => exact ih (h.withCell d.1 d.2)

/-- From `st` to `st'` fields may have become reactive: what they hold is as it was, and those
that were reactive have the cells that they had. -/
structure OnlyConverts (st st' : State) : Prop where
  celled : Celled st'
  content : ∀ q, st'.content q = st.content q
  cell : ∀ q c, st.cell? q = some c → st'.cell? q = some c
  keys : ∀ r, Fields.keys (st'.records.get r).fields = Fields.keys (st.records.get r).fields
  size : st'.records.size = st.records.size

namespace OnlyConverts

theorem refl (h : Celled st) : OnlyConverts st st :=
  ⟨h, fun _ => rfl, fun _ _ => id, fun _ => rfl, rfl⟩

theorem trans {st₁ : State} (h : OnlyConverts st st₁) (h' : OnlyConverts st₁ st') :
    OnlyConverts st st' :=
  ⟨h'.celled, fun q => (h'.content q).trans (h.content q),
    fun q c hc => h'.cell q c (h.cell q c hc),
    fun r => (h'.keys r).trans (h.keys r), h'.size.trans h.size⟩

end OnlyConverts

theorem Converts.content {rs : List RecordId} (h : Converts rs st st') (hcelled : Celled st)
    (q : Slot) : st'.content q = st.content q := by
  rcases h.field?_cases q with ⟨-, v, c, e, hplain, hmade⟩ | hsame
  · rw [content_eq_of_plain hplain, content_eq_of_cell? (cell?_eq_some.mpr hmade.field),
      hmade.content]
  · cases hf : st.field? q with
    | none => rw [content_eq_of_none hf, content_eq_of_none (hsame.trans hf)]
    | some f =>
        cases f with
        | plain v => rw [content_eq_of_plain hf, content_eq_of_plain (hsame.trans hf)]
        | reactive c =>
            have hc := cell?_eq_some.mpr hf
            rw [content_eq_of_cell? hc, content_eq_of_cell? (cell?_eq_some.mpr (hsame.trans hf)),
              h.cells.cells c (hcelled.lt_size hc)]

theorem onlyConverts_observe (h : Celled st) (r : RecordId) : OnlyConverts st (st.observe r) := by
  obtain ⟨rs, ds, hwalk⟩ := walk_observe st r
  have hconv := hwalk.converts
  refine ⟨?_, hconv.content h, fun q c hc => ?_, hconv.keys, hconv.records_size⟩
  · rw [hwalk.state]
    exact (h.markAll rs).withCells ds
  · exact cell?_eq_some.mpr (hconv.kept q c (cell?_eq_some.mp hc))

theorem onlyConverts_observeValue (h : Celled st) (v : Value) :
    OnlyConverts st (st.observeValue v) := by
  rw [observeValue_eq]
  cases v.record? with
  | none => exact .refl h
  | some r => exact onlyConverts_observe h r

/-! ## Defining and putting fields -/

theorem Celled.putField (h : Celled st) (p : Slot) (v : Value) :
    Celled (st.putField p (.plain v)) := by
  constructor
  · intro r key c hc
    rcases mem_fields_putField hc with ⟨-, hplain⟩ | hold
    · cases hplain
    · exact h.known r key c hold
  · -- The field that was put is plain, so the reactive ones are those of before.
    have hold : ∀ q c, (st.putField p (.plain v)).cell? q = some c → st.cell? q = some c := by
      intro q c hq
      rw [cell?_eq_some, field?_putField] at hq
      split at hq
      · cases hq
      · exact cell?_eq_some.mpr hq
    intro p' q' c hp hq
    exact h.own p' q' c (hold p' c hp) (hold q' c hq)

theorem content_withCell (h : Celled st) (p q : Slot) (v : Value) :
    (st.withCell p v).content q =
      if p = q ∧ p.record.index < st.records.size then v else st.content q := by
  rw [content, field?_withCell]
  split
  · exact congrArg Cell.value (Table.get_alloc_fresh ..)
  · cases hf : st.field? q with
    | none => rw [content, hf]; rfl
    | some f =>
        rw [content, hf]
        cases f with
        | plain u => rfl
        | reactive c =>
            exact congrArg Cell.value (get_cells_withCell st p v (h.lt_size (cell?_eq_some.mpr hf)))

/-! ## The graph of a run -/

/-- Every reactive field has a cell of its own, and the records that fields hold exist. -/
structure Graph (st : State) : Prop where
  celled : Celled st
  held : ∀ p r, (st.content p).record? = some r → r.index < st.records.size

theorem graph_empty : Graph {} := by
  have hrecord : ∀ r, ({} : State).records.get r = {} := fun _ => rfl
  have hfield : ∀ p, ({} : State).field? p = none := by
    intro p
    rw [State.field?, hrecord]
    rfl
  refine ⟨⟨?_, ?_⟩, ?_⟩
  · intro r key c h
    rw [hrecord] at h
    cases h
  · intro p q c hp
    rw [cell?_eq_some, hfield] at hp
    cases hp
  · intro p r h
    rw [content, hfield] at h
    cases h

theorem Graph.congr (h : Graph st) (hgraph : SameGraph st st') : Graph st' := by
  refine ⟨h.celled.congr (fun r => ?_) (Nat.le_of_eq (by rw [hgraph.cells])), ?_⟩
  · rw [hgraph.records]
  · intro p r hr
    rw [hgraph.content] at hr
    rw [hgraph.records]
    exact h.held p r hr

/-- A change of the graph after which each field holds what it held before or a given value. -/
theorem Graph.of_content (h : Graph st) (hcelled : Celled st')
    (hsize : st.records.size ≤ st'.records.size)
    (hv : ∀ r, v.record? = some r → r.index < st.records.size)
    (hcontent : ∀ p, st'.content p = v ∨ st'.content p = st.content p) : Graph st' := by
  refine ⟨hcelled, fun p r hr => Nat.lt_of_lt_of_le ?_ hsize⟩
  rcases hcontent p with hnew | hsame
  · rw [hnew] at hr
    exact hv r hr
  · rw [hsame] at hr
    exact h.held p r hr

end State

theorem Effect.graph {lib : Liberty} {st st' : State} (h : Effect lib st st') (hg : Graph st) :
    Graph st' := by
  cases h with
  | aside | push | drop | newChannel | newProbe => exact hg.congr ⟨rfl, rfl⟩
  | newRecord =>
      have hget : ∀ r, st.newRecord.2.records.get r = st.records.get r :=
        Table.get_alloc_default st.records
      refine hg.of_content (v := .null)
        (hg.celled.congr (fun r => congrArg Record.fields (hget r)) (Nat.le_refl _))
        ((Table.size_alloc ..).symm ▸ Nat.le_succ _) nofun fun p => .inr ?_
      rw [content, State.field?, hget]
      rfl
  | putField p v hv =>
      refine hg.of_content (hg.celled.putField p v) (Nat.le_of_eq (Table.size_modify ..).symm) hv ?_
      intro q
      rw [content_putField]
      split
      · exact .inl rfl
      · exact .inr rfl
  | define p v hv =>
      refine hg.of_content (hg.celled.withCell p v) (Nat.le_of_eq (Table.size_modify ..).symm) hv ?_
      intro q
      have hcontent := content_withCell hg.celled p q v
      split at hcontent
      · exact .inl hcontent
      · exact .inr hcontent
  | store c v hv =>
      refine hg.of_content (hg.celled.congr (fun _ => rfl) ?_) (Nat.le_refl _) hv ?_
      · exact Nat.le_of_eq (Table.size_modify ..).symm
      · intro q
        rw [hg.celled.content_store]
        split
        · exact .inl rfl
        · exact .inr rfl
  | observe r =>
      have hconv := onlyConverts_observe hg.celled r
      exact hg.of_content (v := .null) hconv.celled (Nat.le_of_eq hconv.size.symm) nofun
        fun q => .inr (hconv.content q)
  | subscribe c s => exact hg.congr (onlySubscriptions_subscribe st c s).graph
  | unsubscribe c s => exact hg.congr (onlySubscriptions_unsubscribe st c s).graph
  | watch root path reaction => exact hg.congr (onlySubscriptions_watch st root path reaction).graph
  | hold s => exact hg.congr (onlySubscriptions_hold st s).graph
  | release s => exact hg.congr (onlySubscriptions_release st s).graph
  | dispose s => exact hg.congr (onlySubscriptions_dispose st s).graph
  | tell s =>
      exact hg.congr ((onlySubscriptions_hold st s).trans (onlySubscriptions_push _ _)).graph
  | letGo s rest =>
      have hrest : SameGraph st { st with agenda := rest } := ⟨rfl, rfl⟩
      exact (hg.congr hrest).congr (onlySubscriptions_release _ s).graph
  | notify c => exact hg.congr (onlySubscriptions_notify st c).graph

theorem Effects.graph {lib : Liberty} {st st' : State} (h : Effects lib st st') (hg : Graph st) :
    Graph st' := by
  induction h with
  | refl => exact hg
  | tail _ hstep ih => exact hstep.graph ih

/-- Telling a subscriber leaves records and cells alone. -/
theorem Telling.sameGraph {st st' : State} {s : SubscriberId} (h : Telling st s st') :
    SameGraph st st' := by
  have hreread := fun w => (onlySubscriptions_reread st s w).graph
  cases h with
  | probe | disposed => exact ⟨rfl, rfl⟩
  | unchanged w => exact hreread w
  | shown w n =>
      rw [setText_rest]
      exact ⟨(hreread w).records, (hreread w).cells⟩
  | valued w n nodes => exact ⟨(hreread w).records, (hreread w).cells⟩
  | called w c => exact ⟨(hreread w).records, (hreread w).cells⟩

/-- In the states of any run, every reactive field has a cell of its own, and the records that
fields hold exist. -/
theorem Run.graph {ts : List Transition} {st : State} (h : Run ts st) : Graph st := by
  induction h with
  | start => exact graph_empty
  | @move ts st m _ possible ih =>
      cases Transition.deed ⟨st, m⟩ possible with
      | told s rest hmove hagenda hafter =>
          have hdrop : SameGraph st { st with agenda := rest } := ⟨rfl, rfl⟩
          exact (Graph.congr ih hdrop).congr (Telling.of_update hafter).sameGraph
      | kept s v rest hmove hagenda hafter =>
          have hkept : SameGraph st (m.run st) := by
            rw [show m.run st = _ from hafter]
            exact ⟨rfl, rfl⟩
          exact Graph.congr ih hkept
      | done heffects => exact heffects.graph ih

end DataBinding
