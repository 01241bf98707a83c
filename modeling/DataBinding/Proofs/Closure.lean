import DataBinding.Proofs.Growth
import Mathlib.Data.List.Forall2
import Mathlib.Data.List.Perm.Subperm

set_option autoImplicit false

/-! # What observation reaches

Observing a record converts the records that it leads to, each of them once (`observesAll_observe`):
those that are found by going from one unobserved record to another through fields that hold it
plainly. Which these are is said here by reachability in the graph as it was before, with no regard
to the order in which the recursion goes, nor to what it has made of the graph by the time it comes
back to a record; records on a cycle, shared records and records whose fields are reactive in part
are no exceptions. Observing the record again changes nothing (`observe_observe`).
-/

namespace DataBinding

open State Relation

namespace State

variable {st st₁ st' : State} {r a b : RecordId}

/-! ## Where observation leads -/

/-- The records that plain fields hold exist. -/
def KnowsHeld (st : State) : Prop := ∀ a, ∀ b ∈ st.heldPlainly a, b.index < st.records.size

theorem LeadsTo.lt_size (h : st.LeadsTo r a) (hknows : KnowsHeld st)
    (hr : r.index < st.records.size) : a.index < st.records.size := by
  cases h with
  | refl => exact hr
  | tail _ hlast => exact hknows _ _ (mem_heldPlainly_iff.mpr hlast.2)

/-- The records that are marked are the unobserved ones that `r` leads to. -/
theorem Walk.mem_iff {rs : List RecordId} {ds : List (Slot × Value)} (h : Walk st [r] [] rs ds st')
    (hknows : KnowsHeld st) (hr : r.index < st.records.size) :
    a ∈ rs ↔ st.LeadsTo r a ∧ st.isObserved a = false := by
  constructor
  · intro ha
    obtain ⟨b, hb, hleads⟩ := h.reached a ha
    have hobs := (State.mem_unobserved_iff.mp (h.unobserved a ha)).2
    exact ⟨List.mem_singleton.mp hb ▸ hleads, State.isUnobserved_iff.mp hobs⟩
  · rintro ⟨hleads, ha⟩
    have hknown := LeadsTo.lt_size hleads hknows hr
    have hmem : a ∈ st.unobserved :=
      State.mem_unobserved_iff.mpr ⟨hknown, State.isUnobserved_iff.mpr ha⟩
    induction hleads with
    | refl => exact h.start r List.mem_cons_self hmem
    | tail hleads hlast ih =>
        have hbefore := LeadsTo.lt_size hleads hknows hr
        have hrs := ih hlast.1 hbefore
          (State.mem_unobserved_iff.mpr ⟨hbefore, State.isUnobserved_iff.mpr hlast.1⟩)
        exact h.closed _ hrs _ (mem_heldPlainly_iff.mpr hlast.2) hmem

/-! ## What becomes of a field -/

/-- What has become of a field when its record was converted. A reactive field is the same. A plain
one is reactive, under its name; its cell is new and holds the value, and the cell's channel is new
and has no subscribers. -/
inductive Turns (st st' : State) : String × Field → String × Field → Prop where
  | kept (key : String) (c : CellId) : Turns st st' (key, .reactive c) (key, .reactive c)
  | made (key : String) (v : Value) (c : CellId) (e : ChannelId)
      (cell : st.cells.size ≤ c.index ∧ c.index < st'.cells.size)
      (channel : st.channels.size ≤ e.index ∧ e.index < st'.channels.size)
      (content : st'.cells.get c = { key, value := v, channel := e })
      (unheard : st'.channels.get e = []) : Turns st st' (key, .plain v) (key, .reactive c)

/-- Fields of the same names in the same order can be compared name by name. -/
theorem forall₂_of_keys_eq {R : String × Field → String × Field → Prop} {fs fs' : Fields}
    (hkeys : fs'.keys = fs.keys)
    (h : ∀ key f f', (key, f) ∈ fs → (key, f') ∈ fs' → R (key, f) (key, f')) :
    List.Forall₂ R fs fs' := by
  induction fs generalizing fs' with
  | nil =>
      cases List.map_eq_nil_iff.mp hkeys
      exact .nil
  | cons e rest ih =>
      obtain ⟨⟨key, f'⟩, rest', rfl, hkey, hrest⟩ := List.map_eq_cons_iff.mp hkeys
      obtain ⟨_, f⟩ := e
      cases hkey
      refine .cons (h _ f f' List.mem_cons_self List.mem_cons_self) (ih hrest ?_)
      intro key g g' hg hg'
      exact h key g g' (List.mem_cons_of_mem _ hg) (List.mem_cons_of_mem _ hg')

/-- Each field of a record that was converted has become what it should. -/
theorem Converts.turns {rs : List RecordId} (h : Converts rs st st') (ha : a ∈ rs) :
    List.Forall₂ (Turns st st') (st.records.get a).fields (st'.records.get a).fields := by
  refine forall₂_of_keys_eq (h.keys a) fun key f f' hf hf' => ?_
  have hbefore := field?_of_mem hf
  have hafter := field?_of_mem hf'
  cases f with
  | reactive c =>
      cases (h.kept _ c hbefore).symm.trans hafter
      exact .kept key c
  | plain v =>
      obtain ⟨c, e, hmade⟩ := h.made _ v ha hbefore
      cases hmade.field.symm.trans hafter
      refine .made key v c e hmade.cell hmade.channel hmade.content ?_
      rw [h.cells.channels, Table.get_eq_default hmade.channel.1]
      rfl

/-! ## What becomes of the graph -/

/-- From `st` to `st'` just the records that `r` leads to have come to be observed. -/
structure ObservesAll (st : State) (r : RecordId) (st' : State) : Prop where
  /-- It comes to this: collect the records that `r` leads to, mark them, and make each of their
  plain fields reactive, all of it once. -/
  once : ∃ (rs : List RecordId) (ds : List (Slot × Value)), rs.Nodup ∧
    rs.length ≤ st.unobserved.length ∧
    (∀ a, a ∈ rs ↔ st.LeadsTo r a ∧ st.isObserved a = false) ∧
    ds.Perm (rs.flatMap st.plainSlots) ∧ st' = (st.markAll rs).withCells ds
  observed : ∀ a, st'.isObserved a = true ↔ st.isObserved a = true ∨ st.LeadsTo r a
  fields : ∀ a, st.LeadsTo r a → st.isObserved a = false →
    List.Forall₂ (Turns st st') (st.records.get a).fields (st'.records.get a).fields
  /-- Every reactive field has a channel of its own. -/
  own : ∀ p q e, st'.channel? p = some e → st'.channel? q = some e → p = q
  others : ∀ a, ¬ (st.LeadsTo r a ∧ st.isObserved a = false) →
    st'.records.get a = st.records.get a
  cells : ∀ c : CellId, c.index < st.cells.size → st'.cells.get c = st.cells.get c
  channels : ∀ e : ChannelId, st'.channels.get e = st.channels.get e
  /-- Nobody is told: agenda, journal and watchers are as they were, and so are nodes and views. -/
  rest : st' = { st with records := st'.records, cells := st'.cells, channels := st'.channels }
  size : st'.records.size = st.records.size

theorem observesAll_observe (hknows : KnowsHeld st) (hcelled : Celled st)
    (hchannelled : Channelled st) (hr : r.index < st.records.size) :
    ObservesAll st r (st.observe r) := by
  obtain ⟨rs, ds, hwalk⟩ := walk_observe st r
  have hconv := hwalk.converts
  have hmem : ∀ a, a ∈ rs ↔ st.LeadsTo r a ∧ st.isObserved a = false :=
    fun a => hwalk.mem_iff hknows hr
  have hcelled' := (onlyConverts_observe hcelled r).celled
  refine ⟨⟨rs, ds, hwalk.nodup, ?_, hmem, hwalk.fields, hwalk.state⟩, fun a => ?_,
    fun a hleads ha => hconv.turns ((hmem a).mpr ⟨hleads, ha⟩),
    fun p q e => channel?_inj hcelled' (hchannelled.observe r),
    fun a ha => hconv.others a fun hin => ha ((hmem a).mp hin), hconv.cells.cells,
    hconv.cells.channels, hconv.cells.rest, hconv.records_size⟩
  · exact (List.subperm_of_subset hwalk.nodup hwalk.unobserved).length_le
  · rw [hwalk.isObserved_iff, hmem]
    cases st.isObserved a <;> simp

/-- An observed record leads to nothing that is to be observed. -/
theorem observe_of_isObserved (h : st.isObserved r = true) : st.observe r = st := by
  refine (observe_eq st r).trans (if_neg fun hobs => ?_)
  rw [isUnobserved_iff, h] at hobs
  cases hobs

theorem observe_observe (hknows : KnowsHeld st) (hr : r.index < st.records.size) :
    (st.observe r).observe r = st.observe r := by
  refine observe_of_isObserved ?_
  exact (grows_observe hknows hr).start r rfl

end State

/-! ## The records of a run -/

/-- A change of the records after which each field was there before or holds a given value. -/
theorem State.KnowsHeld.of_mem {st st' : State} {v : Value} (h : KnowsHeld st)
    (hsize : st.records.size ≤ st'.records.size)
    (hv : ∀ r, v.record? = some r → r.index < st.records.size)
    (hmem : ∀ r key u, (key, Field.plain u) ∈ (st'.records.get r).fields →
      u = v ∨ (key, Field.plain u) ∈ (st.records.get r).fields) : KnowsHeld st' := by
  intro a b hb
  obtain ⟨key, hkey⟩ := mem_heldPlainly_iff.mp hb
  refine Nat.lt_of_lt_of_le ?_ hsize
  rcases hmem a key _ hkey with hnew | hold
  · exact hv b (hnew ▸ rfl)
  · exact h a b (mem_heldPlainly_iff.mpr ⟨key, hold⟩)

theorem State.KnowsHeld.congr {st st' : State} (h : KnowsHeld st)
    (hrecords : st'.records = st.records) : KnowsHeld st' :=
  h.of_mem (v := .null) (Nat.le_of_eq (by rw [hrecords])) nofun fun r key u hu =>
    .inr (hrecords ▸ hu)

theorem Effect.knowsHeld {lib : Liberty} {st st' : State} (h : Effect lib st st')
    (hst : KnowsHeld st) : KnowsHeld st' := by
  cases h with
  | aside | push | drop | newChannel | newProbe | store => exact hst.congr rfl
  | newRecord =>
      refine hst.of_mem (v := .null) ((Table.size_alloc ..).symm ▸ Nat.le_succ _) nofun ?_
      intro r key u hu
      have hget : st.newRecord.2.records.get r = st.records.get r :=
        Table.get_alloc_default st.records r
      exact .inr (hget ▸ hu)
  | putField p v hv =>
      refine hst.of_mem (Nat.le_of_eq (Table.size_modify ..).symm) hv fun r key u hu => ?_
      exact (mem_fields_putField hu).imp_left fun h => by cases h.2; rfl
  | define p v hv =>
      refine hst.of_mem (Nat.le_of_eq (Table.size_modify ..).symm) hv fun r key u hu => ?_
      exact (mem_fields_putField hu).imp_left fun h => nomatch h.2
  | observe r =>
      obtain ⟨rs, ds, hwalk⟩ := walk_observe st r
      have hconv := hwalk.converts
      refine hst.of_mem (v := .null) (Nat.le_of_eq hconv.records_size.symm) nofun ?_
      intro a key u hu
      by_cases ha : a ∈ rs
      · obtain ⟨c, hc, -⟩ := hconv.reactive ha hu
        cases hc
      · exact .inr (hconv.others a ha ▸ hu)
  | subscribe c s => exact hst.congr (onlySubscriptions_subscribe st c s).graph.records
  | unsubscribe c s => exact hst.congr (onlySubscriptions_unsubscribe st c s).graph.records
  | watch root path reaction =>
      exact hst.congr (onlySubscriptions_watch st root path reaction).graph.records
  | hold s => exact hst.congr (onlySubscriptions_hold st s).graph.records
  | release s => exact hst.congr (onlySubscriptions_release st s).graph.records
  | dispose s => exact hst.congr (onlySubscriptions_dispose st s).graph.records
  | tell s => exact hst.congr (onlySubscriptions_hold st s).graph.records
  | letGo s rest =>
      exact hst.congr (onlySubscriptions_release { st with agenda := rest } s).graph.records
  | notify c => exact hst.congr (onlySubscriptions_notify st c).graph.records

theorem Effects.knowsHeld {lib : Liberty} {st st' : State} (h : Effects lib st st')
    (hst : KnowsHeld st) : KnowsHeld st' := by
  induction h with
  | refl => exact hst
  | tail _ hstep ih => exact hstep.knowsHeld ih

/-- In the states of any run, the records that plain fields hold exist. -/
theorem Run.knowsHeld {ts : List Transition} {st : State} (h : Run ts st) : KnowsHeld st := by
  induction h with
  | start =>
      intro a b hb
      obtain ⟨key, hkey⟩ := mem_heldPlainly_iff.mp hb
      cases hkey
  | @move ts st m _ possible ih =>
      cases Transition.deed ⟨st, m⟩ possible with
      | told s rest hmove hagenda hafter =>
          have hdrop : KnowsHeld { st with agenda := rest } := State.KnowsHeld.congr ih rfl
          exact hdrop.congr (Telling.of_update hafter).sameGraph.records
      | kept s v rest hmove hagenda hafter =>
          rw [show m.run st = _ from hafter]
          exact State.KnowsHeld.congr ih rfl
      | done heffects => exact heffects.knowsHeld ih

/-- How the recursion goes that begins with the record `r`. -/
structure State.Recurs (st : State) (r : RecordId) : Prop where
  /-- A record that is not observed is marked, and then each of the fields that are plain is made
  reactive, what it holds being observed first. -/
  equation : st.observe r = if st.isUnobserved r then
      (st.records.get r).fields.plain.foldl (fun st e => (st.defineCell ⟨r, e.1⟩ e.2).2)
        (st.markObserved r)
    else st
  /-- The recursion comes to an end: it goes no deeper than there are unobserved records, so what
  would be done beyond makes no difference. -/
  ends : ∀ (atBound : State → RecordId → State) (depth : Nat), st.unobserved.length < depth →
    observeWithin atBound depth st r = st.observe r

/-- Whatever records a run has made, with cycles and shared ones, and whichever of them are
observed or have reactive fields already: observing a record converts just what the record leads to,
once, and observing it again changes nothing. -/
theorem Run.observe_observesAll {ts : List Transition} {st : State} (h : Run ts st)
    {r : RecordId} (hr : r.index < st.records.size) :
    ObservesAll st r (st.observe r) ∧ (st.observe r).observe r = st.observe r ∧ st.Recurs r :=
  ⟨observesAll_observe h.knowsHeld h.graph.celled h.channelled hr,
    observe_observe h.knowsHeld hr, observe_eq st r, fun _ _ => observeWithin_eq_observe⟩

/-- Two friends, the first of whom is her own employer. The second has a field that was made
reactive by force, a list with a third one in it, and a teacher who is observed already. -/
def cyclicRecords : List Move :=
  [.operate .newRecord, .operate .newRecord, .operate .newRecord, .operate .newRecord,
    .operate (.writeField ⟨⟨0⟩, "employer"⟩ (.record ⟨0⟩)),
    .operate (.writeField ⟨⟨0⟩, "friend"⟩ (.record ⟨1⟩)),
    .operate (.writeField ⟨⟨1⟩, "friend"⟩ (.record ⟨0⟩)),
    .operate (.define ⟨⟨1⟩, "name"⟩ (.text "Ada")), .operate (.newArray [.record ⟨2⟩]),
    .operate (.writeField ⟨⟨1⟩, "pupils"⟩ (.array 0 [.record ⟨2⟩])),
    .operate (.writeField ⟨⟨3⟩, "name"⟩ (.text "Mary")), .operate (.observe (.record ⟨3⟩)),
    .operate (.writeField ⟨⟨1⟩, "teacher"⟩ (.record ⟨3⟩))]

theorem observesAll_cyclicRecords :
    let st := ({} : State).play cyclicRecords
    ObservesAll st ⟨0⟩ (st.observe ⟨0⟩) ∧ (st.observe ⟨0⟩).observe ⟨0⟩ = st.observe ⟨0⟩ ∧
      st.Recurs ⟨0⟩ :=
  Run.observe_observesAll (Run.play .start cyclicRecords (by decide +kernel)) (by decide +kernel)

example :
    let st := (({} : State).play cyclicRecords).observe ⟨0⟩
    st.isObserved ⟨1⟩ = true ∧ st.isObserved ⟨2⟩ = false ∧ st.cells.size = 7 := by
  decide +kernel

end DataBinding
