import DataBinding.Observation
import DataBinding.Proofs.Table
import Mathlib.Data.List.Nodup

set_option autoImplicit false

/-! # Marking records and making fields reactive

Observation does two things to the state: it marks records as observed (`markObserved`), and it
makes fields reactive (`withCell`), each with a new cell and a new channel. Neither is seen by the
other: a mark leaves the fields alone, and a field that is made reactive leaves the marks alone. So
they may be done in either order (`markObserved_withCell`), and in the end they amount to the marks
of some records (`markAll`) and the new cells of some fields (`withCells`, `made_withCells`).
-/

namespace DataBinding

namespace Fields

variable {fs : Fields} {key : String} {f : Field}

theorem mem_of_get? (h : get? fs key = some f) : (key, f) ∈ fs := by
  induction fs with
  | nil => cases h
  | cons e rest ih =>
      obtain ⟨k, f'⟩ := e
      rw [get?] at h
      split at h
      · rename_i hk
        cases h
        exact hk ▸ List.mem_cons_self
      · exact List.mem_cons_of_mem _ (ih h)

theorem get?_of_mem (hdistinct : (keys fs).Nodup) (h : (key, f) ∈ fs) : get? fs key = some f := by
  induction fs with
  | nil => cases h
  | cons e rest ih =>
      obtain ⟨k, g⟩ := e
      obtain ⟨hk, hrest⟩ := List.nodup_cons.mp hdistinct
      rw [get?]
      rcases List.mem_cons.mp h with hfirst | hlater
      · cases hfirst
        exact if_pos rfl
      · have hne : k ≠ key := fun hkey => hk (hkey ▸ List.mem_map.mpr ⟨_, hlater, rfl⟩)
        rw [if_neg hne, ih hrest hlater]

theorem mem_put {key' : String} {f' : Field} (h : (key', f') ∈ put fs key f) :
    f' = f ∨ (key', f') ∈ fs := by
  induction fs with
  | nil =>
      rw [put, List.mem_singleton] at h
      cases h
      exact .inl rfl
  | cons e rest ih =>
      obtain ⟨k, g⟩ := e
      rw [put] at h
      split at h
      · rcases List.mem_cons.mp h with h | h
        · cases h
          exact .inl rfl
        · exact .inr (List.mem_cons_of_mem _ h)
      · rcases List.mem_cons.mp h with h | h
        · cases h
          exact .inr List.mem_cons_self
        · exact (ih h).imp_right (List.mem_cons_of_mem _)

theorem mem_plain_iff {v : Value} : (key, v) ∈ fs.plain ↔ (key, Field.plain v) ∈ fs := by
  constructor
  · intro h
    obtain ⟨⟨k, g⟩, hmem, hg⟩ := List.mem_filterMap.mp h
    cases g with
    | plain u =>
        cases hg
        exact hmem
    | reactive c => cases hg
  · exact fun h => List.mem_filterMap.mpr ⟨_, h, rfl⟩

/-- The plain fields stand in the order of the fields. -/
theorem sublist_keys_plain (fs : Fields) : (fs.plain.map Prod.fst).Sublist (keys fs) := by
  induction fs with
  | nil => exact .slnil
  | cons e rest ih =>
      obtain ⟨k, g⟩ := e
      cases g with
      | plain v => exact ih.cons_cons k
      | reactive c => exact ih.cons k

end Fields

namespace State

variable {st st₁ st' : State} {p q : Slot} {r a : RecordId} {v : Value} {f : Field}

/-! ## Fields of records -/

theorem mem_of_field? (h : st.field? p = some f) :
    (p.key, f) ∈ (st.records.get p.record).fields :=
  Fields.mem_of_get? ((field?_eq_get? st p).symm.trans h)

theorem field?_of_mem {key : String} (h : (key, f) ∈ (st.records.get r).fields) :
    st.field? ⟨r, key⟩ = some f :=
  (field?_eq_get? ..).trans (Fields.get?_of_mem (st.records.get r).distinct h)

theorem isSome_field?_iff :
    (st.field? p).isSome ↔ p.key ∈ (st.records.get p.record).fields.keys := by
  rw [field?_eq_get?, Fields.isSome_get?_iff]

theorem lt_size_of_field? (h : (st.field? p).isSome) : p.record.index < st.records.size := by
  refine Nat.lt_of_not_le fun hsize => ?_
  rw [State.field?, Table.get_eq_default hsize] at h
  cases h

/-- Putting a field concerns the fields of its record. -/
theorem fields_putField (st : State) (p : Slot) (f : Field) (r : RecordId) :
    ((st.putField p f).records.get r).fields =
      if p.record = r ∧ r.index < st.records.size then
        (st.records.get r).fields.put p.key f
      else (st.records.get r).fields := by
  rw [putField, Table.get_modify]
  split
  · exact Record.fields_put ..
  · rfl

theorem keys_putField (st : State) (p : Slot) (f : Field) (r : RecordId) :
    ((st.putField p f).records.get r).fields.keys =
      if p.record = r ∧ r.index < st.records.size then
        if p.key ∈ (st.records.get r).fields.keys then (st.records.get r).fields.keys
        else (st.records.get r).fields.keys ++ [p.key]
      else (st.records.get r).fields.keys := by
  rw [fields_putField]
  split
  · exact Fields.keys_put ..
  · rfl

/-- A field of a state into which a field was put is that one or an old one. -/
theorem mem_fields_putField {f' : Field} {key : String}
    (h : (key, f') ∈ ((st.putField p f).records.get r).fields) :
    (r = p.record ∧ f' = f) ∨ (key, f') ∈ (st.records.get r).fields := by
  rw [fields_putField] at h
  split at h
  · rename_i hr
    exact (Fields.mem_put h).imp (⟨hr.1.symm, ·⟩) id
  · exact .inr h

theorem field?_putField (st : State) (p q : Slot) (f : Field) :
    (st.putField p f).field? q =
      if p = q ∧ p.record.index < st.records.size then some f else st.field? q := by
  simp only [field?_eq_get?, fields_putField]
  by_cases hrecord : p.record = q.record
  · by_cases hsize : p.record.index < st.records.size
    · rw [if_pos ⟨hrecord, hrecord ▸ hsize⟩, Fields.get?_put]
      have hslot : p.key = q.key ↔ p = q :=
        ⟨fun hkey => by cases p; cases q; simp_all, fun h => h ▸ rfl⟩
      simp only [hslot, hsize, and_true]
    · rw [if_neg fun h => hsize (by rw [hrecord]; exact h.2), if_neg fun h => hsize h.2]
  · rw [if_neg fun h => hrecord h.1, if_neg fun h => hrecord (congrArg Slot.record h.1)]

/-! ## New cells -/

/-- From `st` to `st'` new cells and channels came in: `origin v` says which values the new
cells may hold. Everything else but the records is the same. -/
structure AddsCells (origin : Value → Prop) (st st' : State) : Prop where
  rest : st' = { st with records := st'.records, cells := st'.cells, channels := st'.channels }
  cells : ∀ c : CellId, c.index < st.cells.size → st'.cells.get c = st.cells.get c
  cells_size : st.cells.size ≤ st'.cells.size
  channels : ∀ c : ChannelId, st'.channels.get c = st.channels.get c
  channels_size : st.channels.size ≤ st'.channels.size
  new : ∀ c : CellId, st.cells.size ≤ c.index → c.index < st'.cells.size →
    origin (st'.cells.get c).value ∧ (st'.cells.get c).channel.index < st'.channels.size

namespace AddsCells

variable {origin origin' : Value → Prop}

theorem refl (st : State) : AddsCells origin st st :=
  ⟨rfl, fun _ _ => rfl, Nat.le_refl _, fun _ => rfl, Nat.le_refl _, fun _ h h' => by omega⟩

theorem trans (h : AddsCells origin st st₁) (h' : AddsCells origin st₁ st') :
    AddsCells origin st st' := by
  refine ⟨?_, ?_, Nat.le_trans h.cells_size h'.cells_size,
    fun c => (h'.channels c).trans (h.channels c),
    Nat.le_trans h.channels_size h'.channels_size, ?_⟩
  · rw [h'.rest, h.rest]
  · intro c hc
    exact (h'.cells c (Nat.lt_of_lt_of_le hc h.cells_size)).trans (h.cells c hc)
  · intro c hc hc'
    by_cases hold : c.index < st₁.cells.size
    · obtain ⟨ho, hch⟩ := h.new c hc hold
      rw [h'.cells c hold]
      exact ⟨ho, Nat.lt_of_lt_of_le hch h'.channels_size⟩
    · exact h'.new c (by omega) hc'

theorem mono (h : AddsCells origin st st') (hsub : ∀ v, origin v → origin' v) :
    AddsCells origin' st st' :=
  ⟨h.rest, h.cells, h.cells_size, h.channels, h.channels_size,
    fun c hc hc' => ⟨hsub _ (h.new c hc hc').1, (h.new c hc hc').2⟩⟩

end AddsCells

/-- The state in which a field has been made reactive, whatever it was. -/
def withCell (st : State) (p : Slot) (v : Value) : State :=
  (st.newCell p.key v).2.putField p (.reactive (st.newCell p.key v).1)

theorem cells_withCell (st : State) (p : Slot) (v : Value) :
    (st.withCell p v).cells.size = st.cells.size + 1 :=
  Table.size_alloc ..

theorem channels_withCell (st : State) (p : Slot) (v : Value) :
    (st.withCell p v).channels.size = st.channels.size + 1 :=
  Table.size_alloc ..

theorem get_cells_withCell {c : CellId} (st : State) (p : Slot) (v : Value)
    (hc : c.index < st.cells.size) : (st.withCell p v).cells.get c = st.cells.get c :=
  Table.get_alloc_of_lt hc _

/-- The new cell has the name of the field, the value and the new channel. -/
theorem get_cells_withCell_fresh (st : State) (p : Slot) (v : Value) :
    (st.withCell p v).cells.get st.cells.fresh =
      { key := p.key, value := v, channel := st.channels.fresh } :=
  Table.get_alloc_fresh ..

/-- A field that was made reactive holds the value it was given; all others are as they were. -/
theorem field?_withCell (st : State) (p q : Slot) (v : Value) :
    (st.withCell p v).field? q =
      if p = q ∧ p.record.index < st.records.size then some (.reactive st.cells.fresh)
      else st.field? q :=
  field?_putField _ p q _

theorem size_records_withCell (st : State) (p : Slot) (v : Value) :
    (st.withCell p v).records.size = st.records.size :=
  Table.size_modify ..

theorem get_withCell_of_ne (st : State) (v : Value) (h : p.record ≠ a) :
    (st.withCell p v).records.get a = st.records.get a :=
  Table.get_modify_ne _ h _

theorem isUnobserved_withCell (st : State) (p : Slot) (v : Value) (a : RecordId) :
    (st.withCell p v).isUnobserved a = st.isUnobserved a :=
  congrArg (!·) (Table.map_get_modify st.records p.record a fun b => b.observed_put ..)

/-- The field keeps its place among the fields of its record. -/
theorem keys_withCell (hp : (st.field? p).isSome) (v : Value) (a : RecordId) :
    Fields.keys ((st.withCell p v).records.get a).fields =
      Fields.keys (st.records.get a).fields := by
  refine (keys_putField (st.newCell p.key v).2 p _ a).trans ?_
  split
  · rename_i hrecord
    have hkey : p.key ∈ (st.records.get a).fields.keys := hrecord.1 ▸ isSome_field?_iff.mp hp
    exact if_pos hkey
  · rfl

theorem addsCells_withCell (st : State) (p : Slot) (v : Value) :
    AddsCells (· = v) st (st.withCell p v) := by
  refine ⟨rfl, fun c => get_cells_withCell st p v, ?_, fun c => ?_, ?_, fun c hc hc' => ?_⟩
  · rw [cells_withCell]
    exact Nat.le_succ _
  · exact Table.get_alloc_default st.channels c
  · rw [channels_withCell]
    exact Nat.le_succ _
  · -- There is only one cell more, the one that has just been made.
    rw [cells_withCell] at hc'
    have hfresh : c = st.cells.fresh := congrArg Id.mk (by omega : c.index = st.cells.size)
    rw [hfresh, get_cells_withCell_fresh, channels_withCell]
    exact ⟨rfl, Nat.lt_succ_self _⟩

/-! ## Marks -/

theorem size_records_markObserved (st : State) (r : RecordId) :
    (st.markObserved r).records.size = st.records.size :=
  Table.size_modify ..

theorem fields_markObserved (st : State) (r a : RecordId) :
    ((st.markObserved r).records.get a).fields = (st.records.get a).fields :=
  Table.map_get_modify st.records r a fun _ => rfl

theorem get_markObserved_of_ne (st : State) (h : r ≠ a) :
    (st.markObserved r).records.get a = st.records.get a :=
  Table.get_modify_ne _ h _

theorem isUnobserved_markObserved (hr : r.index < st.records.size) :
    (st.markObserved r).isUnobserved r = false := by
  have hget : (st.markObserved r).records.get r = { st.records.get r with observed := true } :=
    Table.get_modify_eq hr _
  rw [isUnobserved, hget]
  rfl

/-- A mark and a new cell may come in either order. -/
theorem markObserved_withCell (st : State) (p : Slot) (v : Value) (r : RecordId) :
    (st.withCell p v).markObserved r = (st.markObserved r).withCell p v :=
  congrArg (fun records => ({ (st.withCell p v) with records } : State))
    (Table.modify_comm st.records p.record r fun _ => rfl)

/-! ## Some marks and some cells -/

/-- The state in which records have been marked as observed. -/
def markAll (st : State) (rs : List RecordId) : State := rs.foldl markObserved st

/-- The state in which fields have been made reactive, one after another. -/
def withCells (st : State) (ds : List (Slot × Value)) : State :=
  ds.foldl (fun st d => st.withCell d.1 d.2) st

theorem withCells_append (st : State) (ds ds' : List (Slot × Value)) :
    st.withCells (ds ++ ds') = (st.withCells ds).withCells ds' :=
  List.foldl_append

theorem markAll_append (st : State) (rs rs' : List RecordId) :
    st.markAll (rs ++ rs') = (st.markAll rs).markAll rs' :=
  List.foldl_append

theorem markAll_withCells (st : State) (ds : List (Slot × Value)) (rs : List RecordId) :
    (st.withCells ds).markAll rs = (st.markAll rs).withCells ds := by
  -- One mark passes all cells, and so does one after another.
  have hone : ∀ (st : State) (r : RecordId),
      (st.withCells ds).markObserved r = (st.markObserved r).withCells ds := by
    intro st r
    induction ds generalizing st with
    | nil => rfl
    | cons d rest ih =>
        exact (ih (st.withCell d.1 d.2)).trans
          (congrArg (withCells · rest) (markObserved_withCell st d.1 d.2 r))
  induction rs generalizing st with
  | nil => rfl
  | cons r rest ih => exact (congrArg (markAll · rest) (hone st r)).trans (ih (st.markObserved r))

section Marks

variable (st : State) (rs : List RecordId)

theorem rest_markAll : st.markAll rs = { st with records := (st.markAll rs).records } := by
  induction rs generalizing st with
  | nil => rfl
  | cons r rest ih => exact ih (st.markObserved r)

theorem size_records_markAll : (st.markAll rs).records.size = st.records.size := by
  induction rs generalizing st with
  | nil => rfl
  | cons r rest ih => exact (ih (st.markObserved r)).trans (size_records_markObserved st r)

theorem fields_markAll (a : RecordId) :
    ((st.markAll rs).records.get a).fields = (st.records.get a).fields := by
  induction rs generalizing st with
  | nil => rfl
  | cons r rest ih => exact (ih (st.markObserved r)).trans (fields_markObserved st r a)

theorem field?_markAll (q : Slot) : (st.markAll rs).field? q = st.field? q := by
  rw [field?_eq_get?, fields_markAll, field?_eq_get?]

variable {rs}

theorem get_markAll_of_not_mem (h : a ∉ rs) :
    (st.markAll rs).records.get a = st.records.get a := by
  induction rs generalizing st with
  | nil => rfl
  | cons r rest ih =>
      rw [List.mem_cons, not_or] at h
      exact (ih (st.markObserved r) h.2).trans (get_markObserved_of_ne st fun hr => h.1 hr.symm)

variable {st}

theorem isUnobserved_markAll (ha : a.index < st.records.size) (h : a ∈ rs) :
    (st.markAll rs).isUnobserved a = false := by
  induction rs generalizing st with
  | nil => cases h
  | cons r rest ih =>
      have hsize : a.index < (st.markObserved r).records.size := by
        rw [size_records_markObserved]
        exact ha
      by_cases hrest : a ∈ rest
      · exact ih hsize hrest
      · have har : a = r := (List.mem_cons.mp h).resolve_right hrest
        have hsame : (st.markAll (r :: rest)).records.get a = (st.markObserved r).records.get a :=
          get_markAll_of_not_mem (st.markObserved r) hrest
        rw [isUnobserved, hsame, ← isUnobserved, har]
        exact isUnobserved_markObserved (har ▸ ha)

end Marks

section Cells

variable {ds : List (Slot × Value)}

theorem addsCells_withCells (st : State) (ds : List (Slot × Value)) :
    AddsCells (fun v => ∃ d ∈ ds, d.2 = v) st (st.withCells ds) := by
  induction ds generalizing st with
  | nil => exact .refl st
  | cons d rest ih =>
      refine ((addsCells_withCell st d.1 d.2).mono ?_).trans ((ih (st.withCell d.1 d.2)).mono ?_)
      · exact fun v hv => ⟨d, List.mem_cons_self, hv.symm⟩
      · exact fun v ⟨d', hd', hv⟩ => ⟨d', List.mem_cons_of_mem _ hd', hv⟩

theorem size_records_withCells (st : State) (ds : List (Slot × Value)) :
    (st.withCells ds).records.size = st.records.size := by
  induction ds generalizing st with
  | nil => rfl
  | cons d rest ih => exact (ih (st.withCell d.1 d.2)).trans (size_records_withCell st d.1 d.2)

theorem get_withCells_of_ne (st : State) (h : ∀ d ∈ ds, d.1.record ≠ a) :
    (st.withCells ds).records.get a = st.records.get a := by
  induction ds generalizing st with
  | nil => rfl
  | cons d rest ih =>
      obtain ⟨hd, hrest⟩ := List.forall_mem_cons.mp h
      exact (ih (st.withCell d.1 d.2) hrest).trans (get_withCell_of_ne st d.2 hd)

theorem isUnobserved_withCells (st : State) (ds : List (Slot × Value)) (a : RecordId) :
    (st.withCells ds).isUnobserved a = st.isUnobserved a := by
  induction ds generalizing st with
  | nil => rfl
  | cons d rest ih =>
      exact (ih (st.withCell d.1 d.2)).trans (isUnobserved_withCell st d.1 d.2 a)

theorem field?_withCells_of_not_mem (st : State) (h : ∀ d ∈ ds, d.1 ≠ q) :
    (st.withCells ds).field? q = st.field? q := by
  induction ds generalizing st with
  | nil => rfl
  | cons d rest ih =>
      obtain ⟨hd, hrest⟩ := List.forall_mem_cons.mp h
      have hfirst := field?_withCell st d.1 q d.2
      rw [if_neg fun hq => hd hq.1] at hfirst
      exact (ih (st.withCell d.1 d.2) hrest).trans hfirst

/-- Fields that are there keep their places. -/
theorem keys_withCells (h : ∀ d ∈ ds, (st.field? d.1).isSome) (a : RecordId) :
    Fields.keys ((st.withCells ds).records.get a).fields =
      Fields.keys (st.records.get a).fields := by
  induction ds generalizing st with
  | nil => rfl
  | cons d rest ih =>
      obtain ⟨hd, hrest⟩ := List.forall_mem_cons.mp h
      refine (ih fun d' hd' => ?_).trans (keys_withCell hd d.2 a)
      rw [field?_withCell]
      split
      · rfl
      · exact hrest d' hd'

/-- From `st` to `st'` a field was made reactive: it has a new cell, which holds its name and the
value `v` and whose channel is new, too. -/
structure MadeReactive (st st' : State) (p : Slot) (v : Value) (c : CellId) (e : ChannelId) :
    Prop where
  field : st'.field? p = some (.reactive c)
  cell : st.cells.size ≤ c.index ∧ c.index < st'.cells.size
  channel : st.channels.size ≤ e.index ∧ e.index < st'.channels.size
  content : st'.cells.get c = { key := p.key, value := v, channel := e }

theorem madeReactive_withCell (hp : p.record.index < st.records.size) (v : Value) :
    MadeReactive st (st.withCell p v) p v st.cells.fresh st.channels.fresh := by
  refine ⟨?_, ⟨Nat.le_refl _, ?_⟩, ⟨Nat.le_refl _, ?_⟩, get_cells_withCell_fresh st p v⟩
  · rw [field?_withCell, if_pos ⟨rfl, hp⟩]
  · rw [cells_withCell]
    exact Nat.lt_succ_self _
  · rw [channels_withCell]
    exact Nat.lt_succ_self _

/-- Making different fields reactive makes each of them reactive. -/
theorem made_withCells (hdistinct : (ds.map Prod.fst).Nodup)
    (hknown : ∀ d ∈ ds, d.1.record.index < st.records.size) {d : Slot × Value} (hd : d ∈ ds) :
    ∃ c e, MadeReactive st (st.withCells ds) d.1 d.2 c e := by
  induction ds generalizing st with
  | nil => cases hd
  | cons first rest ih =>
      obtain ⟨hnew, hrest⟩ := List.nodup_cons.mp hdistinct
      obtain ⟨hfirst, hlater⟩ := List.forall_mem_cons.mp hknown
      let st₁ := st.withCell first.1 first.2
      have hcells : AddsCells _ st₁ (st₁.withCells rest) := addsCells_withCells st₁ rest
      rcases List.mem_cons.mp hd with rfl | hd
      · -- The later fields leave it and its cell alone.
        have hmade := madeReactive_withCell hfirst d.2
        refine ⟨_, _, ?_, ⟨hmade.cell.1, Nat.lt_of_lt_of_le hmade.cell.2 hcells.cells_size⟩,
          ⟨hmade.channel.1, Nat.lt_of_lt_of_le hmade.channel.2 hcells.channels_size⟩,
          (hcells.cells _ hmade.cell.2).trans hmade.content⟩
        refine (field?_withCells_of_not_mem st₁ fun d' hd' hsame => ?_).trans hmade.field
        exact hnew (hsame ▸ List.mem_map_of_mem hd')
      · have hknown' : ∀ d ∈ rest, d.1.record.index < st₁.records.size := by
          intro d hd
          rw [size_records_withCell]
          exact hlater d hd
        obtain ⟨c, e, hmade⟩ := ih hrest hknown' hd
        have hone := addsCells_withCell st first.1 first.2
        exact ⟨c, e, hmade.field, ⟨Nat.le_trans hone.cells_size hmade.cell.1, hmade.cell.2⟩,
          ⟨Nat.le_trans hone.channels_size hmade.channel.1, hmade.channel.2⟩, hmade.content⟩

end Cells

/-! ## The plain fields of a record -/

/-- The plain fields of a record, at their places, with their values. -/
def plainSlots (st : State) (a : RecordId) : List (Slot × Value) :=
  (st.records.get a).fields.plain.map fun e => (⟨a, e.1⟩, e.2)

theorem mem_plainSlots_iff :
    (p, v) ∈ st.plainSlots a ↔ p.record = a ∧ st.field? p = some (.plain v) := by
  constructor
  · intro h
    obtain ⟨⟨key, u⟩, hmem, heq⟩ := List.mem_map.mp h
    cases heq
    exact ⟨rfl, field?_of_mem (Fields.mem_plain_iff.mp hmem)⟩
  · rintro ⟨rfl, hp⟩
    exact List.mem_map.mpr ⟨(p.key, v), Fields.mem_plain_iff.mpr (mem_of_field? hp), rfl⟩

theorem plainSlots_congr (h : (st'.records.get a).fields = (st.records.get a).fields) :
    st'.plainSlots a = st.plainSlots a := by
  rw [plainSlots, h, plainSlots]

/-- No place is there twice among the plain fields of different records. -/
theorem nodup_plainSlots (st : State) {rs : List RecordId} (h : rs.Nodup) :
    ((rs.flatMap st.plainSlots).map Prod.fst).Nodup := by
  have hone : ∀ a, ((st.plainSlots a).map Prod.fst).Nodup := by
    intro a
    have hkeys : ((st.records.get a).fields.plain.map Prod.fst).Nodup :=
      (st.records.get a).distinct.sublist (Fields.sublist_keys_plain _)
    have hslots : (st.plainSlots a).map Prod.fst =
        ((st.records.get a).fields.plain.map Prod.fst).map (Slot.mk a) := by
      simp only [plainSlots, List.map_map, Function.comp_def]
    rw [hslots]
    exact List.Nodup.map (fun key key' hsame => congrArg Slot.key hsame) hkeys
  rw [List.map_flatMap, List.nodup_flatMap]
  refine ⟨fun a _ => hone a, h.imp fun {a b} hne p hpa hpb => hne ?_⟩
  obtain ⟨d, hd, rfl⟩ := List.mem_map.mp hpa
  obtain ⟨d', hd', hsame⟩ := List.mem_map.mp hpb
  rw [← (mem_plainSlots_iff.mp hd).1, ← hsame, (mem_plainSlots_iff.mp hd').1]

end State

end DataBinding
