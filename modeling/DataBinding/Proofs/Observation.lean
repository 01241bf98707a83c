import DataBinding.Proofs.Recursion
import DataBinding.Run
import Mathlib.Logic.Relation

set_option autoImplicit false

/-! # What observing a record does

On its way the recursion comes back to records of which only some fields are reactive as yet. All
the same it comes to something simple (`walk_observe`): collect the unobserved records that can be
reached in the state as it is, mark them, and make each of their plain fields reactive. That is what
a `Walk` is. What follows for records, cells and channels is put together in `Converts`.
-/

namespace DataBinding

open Relation

namespace State

variable {st st₁ st' : State} {r a b : RecordId} {depth k : Nat}

/-! ## What the recursion comes to -/

/-- The records that the plain fields of a record hold. -/
def heldPlainly (st : State) (r : RecordId) : List RecordId :=
  (st.records.get r).fields.plain.filterMap fun e => e.2.record?

theorem record?_eq_some {v : Value} : v.record? = some r ↔ v = .record r := by
  cases v <;> simp [Value.record?]

theorem mem_heldPlainly_iff :
    b ∈ st.heldPlainly a ↔ ∃ key, (key, Field.plain (.record b)) ∈ (st.records.get a).fields := by
  rw [heldPlainly, List.mem_filterMap]
  constructor
  · rintro ⟨⟨key, v⟩, hplain, hv⟩
    cases record?_eq_some.mp hv
    exact ⟨key, Fields.mem_plain_iff.mp hplain⟩
  · rintro ⟨key, h⟩
    exact ⟨(key, .record b), Fields.mem_plain_iff.mpr h, rfl⟩

theorem mem_heldPlainly {key : String} {v : Value}
    (h : (key, Field.plain v) ∈ (st.records.get r).fields) (hv : v.record? = some a) :
    a ∈ st.heldPlainly r :=
  mem_heldPlainly_iff.mpr ⟨key, record?_eq_some.mp hv ▸ h⟩

/-- Whether an unobserved record holds another one in a plain field. A record in an array does not
count, since the field holds the array. -/
def HoldsPlainly (st : State) (a b : RecordId) : Prop :=
  st.isObserved a = false ∧ ∃ key, (key, Field.plain (.record b)) ∈ (st.records.get a).fields

/-- Whether observing `r` leads to `a`. -/
abbrev LeadsTo (st : State) (r a : RecordId) : Prop := ReflTransGen st.HoldsPlainly r a

theorem isUnobserved_iff : st.isUnobserved a = true ↔ st.isObserved a = false := by
  simp [isUnobserved, isObserved]

/-- Where fewer records are unobserved, and these have the fields that they had, observation leads
to nothing new. -/
theorem LeadsTo.of_unobserved (hleads : st'.LeadsTo a b)
    (h : ∀ x, st'.isUnobserved x = true → st.isUnobserved x = true ∧
      (st'.records.get x).fields = (st.records.get x).fields) : st.LeadsTo a b := by
  refine ReflTransGen.mono (fun x y hxy => ?_) a b hleads
  obtain ⟨hunobserved, hfields⟩ := h x (isUnobserved_iff.mpr hxy.1)
  rw [HoldsPlainly, ← hfields]
  exact ⟨isUnobserved_iff.mp hunobserved, hxy.2⟩

/-- What has been done on the way from `st` to `st'` when the records `starts` were observed and the
fields `own` of observed records were made reactive besides: the records `rs` were marked and the
fields `ds` made reactive. All of it is said in terms of `st`, the state in which the way began: the
records are those unobserved ones that can be reached in `st`, and the fields are those that are
plain in `st`. -/
structure Walk (st : State) (starts : List RecordId) (own : List (Slot × Value))
    (rs : List RecordId) (ds : List (Slot × Value)) (st' : State) : Prop where
  state : st' = (st.markAll rs).withCells ds
  nodup : rs.Nodup
  unobserved : ∀ a ∈ rs, a ∈ st.unobserved
  marked : ∀ d ∈ own, st.isUnobserved d.1.record = false
  fields : ds.Perm (own ++ rs.flatMap st.plainSlots)
  reached : ∀ a ∈ rs, ∃ b ∈ starts, st.LeadsTo b a
  start : ∀ a ∈ starts, a ∈ st.unobserved → a ∈ rs
  closed : ∀ a ∈ rs, ∀ b ∈ st.heldPlainly a, b ∈ st.unobserved → b ∈ rs

namespace Walk

variable {starts starts' rs rs' : List RecordId} {own own' ds ds' : List (Slot × Value)}

theorem refl (st : State) : Walk st [] [] [] [] st where
  state := rfl
  nodup := .nil
  unobserved := nofun
  marked := nofun
  fields := .nil
  reached := nofun
  start := nofun
  closed := nofun

theorem of_not_mem (hr : r ∉ st.unobserved) : Walk st [r] [] [] [] st :=
  { Walk.refl st with
    start := fun _ ha hobs => absurd (List.mem_singleton.mp ha ▸ hobs) hr
    reached := nofun }

variable (h : Walk st starts own rs ds st')

include h

theorem isUnobserved_iff : st'.isUnobserved a = true ↔ st.isUnobserved a = true ∧ a ∉ rs := by
  rw [h.state, isUnobserved_withCells]
  by_cases ha : a ∈ rs
  · have hsize := (mem_unobserved_iff.mp (h.unobserved a ha)).1
    simp [isUnobserved_markAll hsize ha, ha]
  · rw [isUnobserved, get_markAll_of_not_mem st ha, ← isUnobserved]
    simp [ha]

theorem size_records : st'.records.size = st.records.size := by
  rw [h.state, size_records_withCells, size_records_markAll]

theorem mem_unobserved_iff : a ∈ st'.unobserved ↔ a ∈ st.unobserved ∧ a ∉ rs := by
  rw [State.mem_unobserved_iff, State.mem_unobserved_iff, h.size_records, h.isUnobserved_iff,
    and_assoc]

theorem isObserved_iff : st'.isObserved a = true ↔ st.isObserved a = true ∨ a ∈ rs := by
  have hiff := h.isUnobserved_iff (a := a)
  rw [State.isUnobserved_iff, State.isUnobserved_iff] at hiff
  cases hnow : st'.isObserved a <;> cases hbefore : st.isObserved a <;> simp_all

/-- The records that were to be observed are observed. -/
theorem isObserved_start (ha : a ∈ starts) (hsize : a.index < st.records.size) :
    st'.isObserved a = true := by
  rw [h.isObserved_iff]
  cases hobs : st.isObserved a with
  | true => exact .inl rfl
  | false =>
      exact .inr (h.start a ha
        (State.mem_unobserved_iff.mpr ⟨hsize, State.isUnobserved_iff.mpr hobs⟩))

theorem mem_of_isObserved (hold : st.isObserved a = false) (hnew : st'.isObserved a = true) :
    a ∈ rs :=
  (h.isObserved_iff.mp hnew).resolve_left fun hobs => Bool.noConfusion (hold.symm.trans hobs)

/-- What the records held plainly is observed. -/
theorem isObserved_held (ha : a ∈ rs) (hb : b ∈ st.heldPlainly a)
    (hsize : b.index < st.records.size) : st'.isObserved b = true := by
  rw [h.isObserved_iff]
  cases hobs : st.isObserved b with
  | true => exact .inl rfl
  | false =>
      exact .inr (h.closed a ha b hb
        (State.mem_unobserved_iff.mpr ⟨hsize, State.isUnobserved_iff.mpr hobs⟩))

/-- A record that is still unobserved is as it was. -/
theorem get_of_isUnobserved (ha : st'.isUnobserved a = true) :
    st'.records.get a = st.records.get a := by
  obtain ⟨hobs, hrs⟩ := h.isUnobserved_iff.mp ha
  have hds : ∀ d ∈ ds, d.1.record ≠ a := by
    rintro d hd rfl
    rcases List.mem_append.mp (h.fields.subset hd) with hown | hrest
    · rw [h.marked d hown] at hobs
      cases hobs
    · obtain ⟨x, hx, hdx⟩ := List.mem_flatMap.mp hrest
      exact hrs ((mem_plainSlots_iff.mp hdx).1 ▸ hx)
  rw [h.state, get_withCells_of_ne _ hds, get_markAll_of_not_mem st hrs]

theorem keepsMarks : KeepsMarks st st' := by
  refine ⟨h.size_records, fun a ha => ?_⟩
  by_contra hobs
  rw [(h.isUnobserved_iff.mp (by simpa using hobs)).1] at ha
  cases ha

theorem leadsTo (hleads : st'.LeadsTo a b) : st.LeadsTo a b :=
  hleads.of_unobserved fun _ hx =>
    ⟨(h.isUnobserved_iff.mp hx).1, congrArg Record.fields (h.get_of_isUnobserved hx)⟩

/-- The fields that were made reactive: those given, and the plain ones of the records marked. -/
theorem mem_fields_iff {d : Slot × Value} :
    d ∈ ds ↔ d ∈ own ∨ d.1.record ∈ rs ∧ st.field? d.1 = some (.plain d.2) := by
  rw [h.fields.mem_iff, List.mem_append, List.mem_flatMap]
  refine or_congr_right ⟨?_, fun ⟨ha, hd⟩ => ⟨_, ha, mem_plainSlots_iff.mpr ⟨rfl, hd⟩⟩⟩
  rintro ⟨a, ha, hd⟩
  obtain ⟨rfl, hfield⟩ := mem_plainSlots_iff.mp hd
  exact ⟨ha, hfield⟩

/-- The marks bring in no cells. -/
theorem addsCells : AddsCells (fun v => ∃ d ∈ ds, d.2 = v) st st' := by
  have hadds := addsCells_withCells (st.markAll rs) ds
  rw [← h.state, rest_markAll] at hadds
  exact ⟨hadds.rest, hadds.cells, hadds.cells_size, hadds.channels, hadds.channels_size, hadds.new⟩

/-- One way after another. The marks of the second way come before the cells of the first one. -/
theorem trans {st'' : State} (h' : Walk st' starts' own' rs' ds' st'')
    (hown : ∀ d ∈ own', st.isUnobserved d.1.record = false) :
    Walk st (starts ++ starts') (own ++ own') (rs ++ rs') (ds ++ ds') st'' := by
  have hget : ∀ a ∈ rs', st'.records.get a = st.records.get a := fun a ha =>
    h.get_of_isUnobserved (State.mem_unobserved_iff.mp (h'.unobserved a ha)).2
  refine ⟨?_, ?_, ?_, ?_, ?_, ?_, ?_, ?_⟩
  · rw [h'.state, h.state, markAll_withCells, ← markAll_append, ← withCells_append]
  · refine List.nodup_append.mpr ⟨h.nodup, h'.nodup, ?_⟩
    rintro a ha _ ha' rfl
    exact (h.mem_unobserved_iff.mp (h'.unobserved a ha')).2 ha
  · intro a ha
    rcases List.mem_append.mp ha with ha | ha
    · exact h.unobserved a ha
    · exact (h.mem_unobserved_iff.mp (h'.unobserved a ha)).1
  · exact List.forall_mem_append.mpr ⟨h.marked, hown⟩
  · have hslots : rs'.flatMap st'.plainSlots = rs'.flatMap st.plainSlots :=
      List.flatMap_congr fun a ha => plainSlots_congr (congrArg Record.fields (hget a ha))
    have hboth := h.fields.append h'.fields
    rw [hslots] at hboth
    refine hboth.trans ?_
    rw [List.flatMap_append, List.append_assoc, List.append_assoc]
    exact (List.perm_append_comm_assoc ..).append_left own
  · intro a ha
    rcases List.mem_append.mp ha with ha | ha
    · obtain ⟨b, hb, hleads⟩ := h.reached a ha
      exact ⟨b, List.mem_append_left _ hb, hleads⟩
    · obtain ⟨b, hb, hleads⟩ := h'.reached a ha
      exact ⟨b, List.mem_append_right _ hb, h.leadsTo hleads⟩
  · intro a ha hobs
    by_cases hrs : a ∈ rs
    · exact List.mem_append_left _ hrs
    · rcases List.mem_append.mp ha with ha | ha
      · exact absurd (h.start a ha hobs) hrs
      · exact List.mem_append_right _ (h'.start a ha (h.mem_unobserved_iff.mpr ⟨hobs, hrs⟩))
  · intro a ha b hb hobs
    by_cases hrs : b ∈ rs
    · exact List.mem_append_left _ hrs
    · rcases List.mem_append.mp ha with ha | ha
      · exact absurd (h.closed a ha b hb hobs) hrs
      · have hheld : b ∈ st'.heldPlainly a := by rwa [heldPlainly, hget a ha]
        exact List.mem_append_right _
          (h'.closed a ha b hheld (h.mem_unobserved_iff.mpr ⟨hobs, hrs⟩))

end Walk

/-- Making one field of an observed record reactive is a way. -/
theorem walk_withCell {p : Slot} (hp : st.isUnobserved p.record = false) (v : Value) :
    Walk st [] [(p, v)] [] [(p, v)] (st.withCell p v) where
  state := rfl
  nodup := .nil
  unobserved := nofun
  marked := List.forall_mem_singleton.mpr hp
  fields := .refl _
  reached := nofun
  start := nofun
  closed := nofun

/-- Observing what fields hold, and making the fields reactive, is a way if observing one record is
one, as long as no more than `k` records are unobserved. -/
theorem walk_foldl {observe : State → RecordId → State}
    (hwalk : ∀ st r, st.unobserved.length ≤ k → ∃ rs ds, Walk st [r] [] rs ds (observe st r))
    (es : List (String × Value)) (hk : st.unobserved.length ≤ k)
    (hr : st.isUnobserved r = false) :
    ∃ rs ds, Walk st (es.filterMap fun e => e.2.record?) (es.map fun e => (⟨r, e.1⟩, e.2)) rs ds
      (es.foldl (fun st e => (defineCellBy observe st ⟨r, e.1⟩ e.2).2) st) := by
  induction es generalizing st with
  | nil => exact ⟨[], [], .refl st⟩
  | cons e rest ih =>
      obtain ⟨rs₁, ds₁, hvalue⟩ : ∃ rs ds, Walk st e.2.record?.toList [] rs ds
          (observeValueBy observe st e.2) := by
        rw [observeValueBy_eq]
        cases e.2.record? with
        | none => exact ⟨[], [], .refl st⟩
        | some b => exact hwalk st b hk
      have hfield := walk_withCell (p := ⟨r, e.1⟩) (hvalue.keepsMarks.kept r hr) e.2
      have hfirst := hvalue.trans hfield (List.forall_mem_singleton.mpr hr)
      have hmarks := hfirst.keepsMarks
      obtain ⟨rs₂, ds₂, hrest⟩ :=
        ih (Nat.le_trans hmarks.sublist.length_le hk) (hmarks.kept r hr)
      have hboth := hfirst.trans hrest (List.forall_mem_map.mpr fun _ _ => hr)
      rw [List.append_nil, List.nil_append] at hboth
      have hstarts : (e :: rest).filterMap (fun e => e.2.record?) =
          e.2.record?.toList ++ rest.filterMap fun e => e.2.record? := by
        rw [List.filterMap_cons]
        cases e.2.record? <;> rfl
      rw [hstarts]
      exact ⟨_, _, hboth⟩

/-- After a record was marked, observing what it holds completes the observation of the record. -/
theorem Walk.of_markObserved {rs : List RecordId} {ds : List (Slot × Value)}
    (h : Walk (st.markObserved r) (st.heldPlainly r) (st.plainSlots r) rs ds st')
    (hr : r ∈ st.unobserved) : Walk st [r] [] (r :: rs) ds st' := by
  have hmarks := KeepsMarks.markObserved st r
  have hmarked : (st.markObserved r).isUnobserved r = false :=
    isUnobserved_markObserved (State.mem_unobserved_iff.mp hr).1
  have hother : ∀ a, a ≠ r → a ∈ st.unobserved → a ∈ (st.markObserved r).unobserved := by
    intro a har ha
    rw [State.mem_unobserved_iff] at ha ⊢
    rw [isUnobserved, get_markObserved_of_ne st har.symm, ← isUnobserved, hmarks.size]
    exact ha
  refine ⟨h.state, ?_, ?_, List.forall_mem_nil _, ?_, ?_, ?_, ?_⟩
  · refine List.nodup_cons.mpr ⟨fun hmem => ?_, h.nodup⟩
    rw [(State.mem_unobserved_iff.mp (h.unobserved r hmem)).2] at hmarked
    cases hmarked
  · exact List.forall_mem_cons.mpr ⟨hr, fun a ha => hmarks.sublist.subset (h.unobserved a ha)⟩
  · have hslots : rs.flatMap (st.markObserved r).plainSlots = rs.flatMap st.plainSlots :=
      List.flatMap_congr fun a _ => plainSlots_congr (fields_markObserved st r a)
    rw [List.nil_append, List.flatMap_cons, ← hslots]
    exact h.fields
  · refine List.forall_mem_cons.mpr ⟨⟨r, List.mem_cons_self, .refl⟩, fun a ha => ?_⟩
    obtain ⟨b, hb, hleads⟩ := h.reached a ha
    have hfirst : st.HoldsPlainly r b :=
      ⟨State.isUnobserved_iff.mp (State.mem_unobserved_iff.mp hr).2, mem_heldPlainly_iff.mp hb⟩
    exact ⟨r, List.mem_cons_self, .head hfirst <| hleads.of_unobserved fun x hx =>
      ⟨hmarks.isUnobserved_before hx, fields_markObserved st r x⟩⟩
  · intro a ha _
    exact List.mem_singleton.mp ha ▸ List.mem_cons_self
  · intro a ha b hb hobs
    by_cases hbr : b = r
    · exact hbr ▸ List.mem_cons_self
    · refine List.mem_cons_of_mem _ ?_
      rcases List.mem_cons.mp ha with rfl | ha
      · exact h.start b hb (hother b hbr hobs)
      · have hheld : b ∈ (st.markObserved r).heldPlainly a := by
          rwa [heldPlainly, fields_markObserved]
        exact h.closed a ha b hheld (hother b hbr hobs)

/-- Observing a record is a way that starts at the record and makes no other fields reactive. -/
theorem walk_observeWithin (atBound : State → RecordId → State)
    (hdepth : st.unobserved.length < depth) (r : RecordId) :
    ∃ rs ds, Walk st [r] [] rs ds (observeWithin atBound depth st r) := by
  induction depth generalizing st r with
  | zero => omega
  | succ depth ih =>
      by_cases hr : r ∈ st.unobserved
      · have hless := length_unobserved_markObserved_lt hr
        obtain ⟨hsize, hobs⟩ := mem_unobserved_iff.mp hr
        obtain ⟨rs, ds, hwalk⟩ := walk_foldl (k := (st.markObserved r).unobserved.length)
          (fun st₁ r₁ hsmall => ih (by omega) r₁) (st.records.get r).fields.plain (Nat.le_refl _)
          (isUnobserved_markObserved hsize)
        rw [observeWithin_succ atBound hobs]
        exact ⟨_, _, hwalk.of_markObserved hr⟩
      · rw [observeWithin_of_not_mem atBound hr]
        exact ⟨[], [], .of_not_mem hr⟩

/-- Observing a record comes to collecting records in the state as it is, marking them and making
each of their plain fields reactive. -/
theorem walk_observe (st : State) (r : RecordId) :
    ∃ rs ds, Walk st [r] [] rs ds (st.observe r) := by
  rw [observe]
  exact walk_observeWithin _ (Nat.lt_succ_self _) r

/-! ## What becomes of records, cells and channels -/

/-- From `st` to `st'` the records `rs` were converted: they are observed, their plain fields
have become reactive, and nothing else happened but that cells and channels came in. -/
structure Converts (rs : List RecordId) (st st' : State) : Prop where
  cells : AddsCells (fun v => ∃ r ∈ rs, ∃ key, (key, Field.plain v) ∈ (st.records.get r).fields)
    st st'
  records_size : st'.records.size = st.records.size
  others : ∀ r ∉ rs, st'.records.get r = st.records.get r
  observed : ∀ r ∈ rs, (st'.records.get r).observed = true
  keys : ∀ r, Fields.keys (st'.records.get r).fields = Fields.keys (st.records.get r).fields
  kept : ∀ q c, st.field? q = some (.reactive c) → st'.field? q = some (.reactive c)
  made : ∀ q v, q.record ∈ rs → st.field? q = some (.plain v) → ∃ c e, MadeReactive st st' q v c e

theorem Walk.converts {starts rs : List RecordId} {ds : List (Slot × Value)}
    (h : Walk st starts [] rs ds st') : Converts rs st st' := by
  have hmem : ∀ d, d ∈ ds ↔ d.1.record ∈ rs ∧ st.field? d.1 = some (.plain d.2) := fun d =>
    h.mem_fields_iff.trans (or_iff_right List.not_mem_nil)
  have hfield : ∀ q, (st.markAll rs).field? q = st.field? q := field?_markAll st rs
  refine ⟨h.addsCells.mono ?_, h.size_records, fun a ha => ?_, fun a ha => ?_, fun a => ?_,
    fun q c hq => ?_, fun q v hq hv => ?_⟩
  · rintro v ⟨d, hd, rfl⟩
    obtain ⟨hrecord, hplain⟩ := (hmem d).mp hd
    exact ⟨_, hrecord, d.1.key, mem_of_field? hplain⟩
  · have hds : ∀ d ∈ ds, d.1.record ≠ a := by
      rintro d hd rfl
      exact ha ((hmem d).mp hd).1
    rw [h.state, get_withCells_of_ne _ hds, get_markAll_of_not_mem st ha]
  · by_contra hobs
    exact (h.isUnobserved_iff.mp (by simpa [isUnobserved] using hobs)).2 ha
  · have hsome : ∀ d ∈ ds, ((st.markAll rs).field? d.1).isSome := fun d hd => by
      rw [hfield, ((hmem d).mp hd).2]
      rfl
    rw [h.state, keys_withCells hsome, fields_markAll]
  · rw [h.state, field?_withCells_of_not_mem, hfield, hq]
    rintro d hd rfl
    rw [((hmem d).mp hd).2] at hq
    cases hq
  · have hdistinct : (ds.map Prod.fst).Nodup :=
      (h.fields.map Prod.fst).nodup_iff.mpr (nodup_plainSlots st h.nodup)
    have hknown : ∀ d ∈ ds, d.1.record.index < (st.markAll rs).records.size := fun d hd => by
      rw [size_records_markAll]
      exact lt_size_of_field? (((hmem d).mp hd).2 ▸ rfl)
    obtain ⟨c, e, hmade⟩ := made_withCells hdistinct hknown ((hmem (q, v)).mpr ⟨hq, hv⟩)
    rw [← h.state, rest_markAll] at hmade
    exact ⟨c, e, hmade.field, hmade.cell, hmade.channel, hmade.content⟩

namespace Converts

variable {rs : List RecordId} (h : Converts rs st st')

include h

/-- A field was made reactive, or it is as it was. -/
theorem field?_cases (q : Slot) :
    (q.record ∈ rs ∧ ∃ v c e, st.field? q = some (.plain v) ∧ MadeReactive st st' q v c e) ∨
      st'.field? q = st.field? q := by
  by_cases hq : q.record ∈ rs
  · cases hf : st.field? q with
    | none =>
        refine .inr (Option.not_isSome_iff_eq_none.mp fun hsome => ?_)
        rw [isSome_field?_iff, h.keys, ← isSome_field?_iff, hf] at hsome
        cases hsome
    | some f =>
        cases f with
        | plain v =>
            obtain ⟨c, e, hmade⟩ := h.made q v hq hf
            exact .inl ⟨hq, v, c, e, rfl, hmade⟩
        | reactive c => exact .inr (h.kept q c hf)
  · exact .inr (by rw [State.field?, h.others _ hq, State.field?])

/-- The fields of the records are reactive; each was there before, or its cell is there. -/
theorem reactive (hr : r ∈ rs) {key : String} {f : Field}
    (hf : (key, f) ∈ (st'.records.get r).fields) : ∃ c, f = .reactive c ∧
      ((key, f) ∈ (st.records.get r).fields ∨ c.index < st'.cells.size) := by
  have hfield := field?_of_mem hf
  rcases h.field?_cases ⟨r, key⟩ with ⟨-, v, c, e, -, hmade⟩ | hsame
  · rw [hmade.field] at hfield
    exact ⟨c, (Option.some.inj hfield).symm, .inr hmade.cell.2⟩
  · rw [hsame] at hfield
    cases f with
    | reactive c => exact ⟨c, rfl, .inl (mem_of_field? hfield)⟩
    | plain v =>
        obtain ⟨c, e, hmade⟩ := h.made ⟨r, key⟩ v hr hfield
        rw [hmade.field, hfield] at hsame
        cases hsame

end Converts

/-- From `st` to `st'` records may have been observed: those that were observed before, all old
cells and all members of channels are as they were. -/
structure Observes (st st' : State) : Prop where
  rest : st' = { st with records := st'.records, cells := st'.cells, channels := st'.channels }
  records_size : st'.records.size = st.records.size
  records : ∀ r, (st.records.get r).observed = true → st'.records.get r = st.records.get r
  cells : ∀ c : CellId, c.index < st.cells.size → st'.cells.get c = st.cells.get c
  cells_size : st.cells.size ≤ st'.cells.size
  channels : ∀ c : ChannelId, st'.channels.get c = st.channels.get c
  channels_size : st.channels.size ≤ st'.channels.size

namespace Observes

variable {st st' : State}

theorem refl (st : State) : Observes st st :=
  ⟨rfl, rfl, fun _ _ => rfl, fun _ _ => rfl, Nat.le_refl _, fun _ => rfl, Nat.le_refl _⟩

theorem subscribers (h : Observes st st') : st'.subscribers = st.subscribers := by
  rw [h.rest]

theorem nodes (h : Observes st st') : st'.nodes = st.nodes := by
  rw [h.rest]

theorem views (h : Observes st st') : st'.views = st.views := by
  rw [h.rest]

theorem agenda (h : Observes st st') : st'.agenda = st.agenda := by
  rw [h.rest]

end Observes

theorem observes_observe (st : State) (r : RecordId) : Observes st (st.observe r) := by
  obtain ⟨rs, ds, hwalk⟩ := walk_observe st r
  have hconv := hwalk.converts
  refine ⟨hconv.cells.rest, hconv.records_size, fun a hobs => ?_, hconv.cells.cells,
    hconv.cells.cells_size, hconv.cells.channels, hconv.cells.channels_size⟩
  refine hconv.others a fun hmem => ?_
  have hnot := (mem_unobserved_iff.mp (hwalk.unobserved a hmem)).2
  rw [isUnobserved, hobs] at hnot
  cases hnot

theorem observes_observeValue (st : State) (v : Value) : Observes st (st.observeValue v) := by
  rw [observeValue_eq]
  cases v.record? with
  | none => exact .refl st
  | some r => exact observes_observe st r

end State

end DataBinding
