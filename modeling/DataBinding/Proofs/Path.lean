import Mathlib.Data.List.Basic
import DataBinding.Proofs.Consistency

set_option autoImplicit false

/-! # What a path depends on

A path that begins at an observed record runs through observed records only
(`isObserved_of_mem_trail`). So what it visits, reads and passes channels of depends on the
values of the cells along it, and on nothing else (`trail_eq`, `read_eq`, `channelsRead_eq`).

Writing a path comes to writing one field, or to none (`writePath_eq_match`).
-/

namespace DataBinding.State

variable {st st' : State} {root : RecordId} {path : String} {p : Slot}

/-- A field of an observed record is reactive, and its cell exists. -/
theorem Sound.cell_of_field? (h : Sound st) (hp : st.isObserved p.record = true) {f : Field}
    (hf : st.field? p = some f) : ∃ c, f = .reactive c ∧ c.index < st.cells.size := by
  have hmem := mem_of_field? hf
  cases f with
  | plain v => exact absurd hmem (h.reactive p.record hp p.key v)
  | reactive c => exact ⟨c, rfl, h.celled p.record p.key c hmem⟩

theorem cell?_eq_some {c : CellId} : st.cell? p = some c ↔ st.field? p = some (.reactive c) := by
  unfold cell?
  split
  · rename_i hf
    simp [hf]
  · rename_i hf
    constructor
    · nofun
    · exact fun h => absurd h (hf c)

theorem Sound.cell?_lt (h : Sound st) {c : CellId} (hc : st.cell? p = some c) :
    c.index < st.cells.size :=
  h.celled p.record p.key c (mem_of_field? (cell?_eq_some.mp hc))

/-- A record that an observed record holds is observed. -/
theorem Sound.isObserved_of_content (h : Sound st) (hp : st.isObserved p.record = true)
    {r : RecordId} (hr : (st.content p).record? = some r) : st.isObserved r = true := by
  cases hf : st.field? p with
  | none =>
      rw [content, hf] at hr
      cases hr
  | some f =>
      obtain ⟨c, rfl, hc⟩ := h.cell_of_field? hp hf
      rw [content, hf] at hr
      exact (h.observed c r hc hr).resolve_right List.not_mem_nil

/-! ## Everything visited is observed -/

theorem isObserved_of_mem_follow (h : Sound st) {keys : List String} {r : RecordId}
    (hr : st.isObserved r = true) (hp : p ∈ (st.follow r keys).visited) :
    st.isObserved p.record = true := by
  induction keys generalizing r with
  | nil => cases hp
  | cons key rest ih =>
      simp only [follow] at hp
      split at hp
      · cases hp
      · split at hp
        · rw [List.mem_singleton.mp hp]
          exact hr
        · split at hp
          · rename_i next hnext
            rcases List.mem_cons.mp hp with rfl | hp
            · exact hr
            · exact ih (h.isObserved_of_content (p := ⟨r, key⟩) hr hnext) hp
          · rw [List.mem_singleton.mp hp]
            exact hr

theorem isObserved_of_mem_trail (h : Sound st) (hroot : st.isObserved root = true)
    (hp : p ∈ (st.trail root path).visited) : st.isObserved p.record = true := by
  unfold trail at hp
  split at hp
  · rw [List.mem_singleton.mp hp]
    exact hroot
  · exact isObserved_of_mem_follow h hroot hp

/-! ## Everything visited exists -/

theorem isSome_field?_of_mem_follow {keys : List String} {r : RecordId}
    (hp : p ∈ (st.follow r keys).visited) : (st.field? p).isSome = true := by
  induction keys generalizing r with
  | nil => cases hp
  | cons key rest ih =>
      simp only [follow] at hp
      split at hp
      · cases hp
      · rename_i hhere
        have hfirst : (st.field? ⟨r, key⟩).isSome = true :=
          Option.isSome_iff_ne_none.mpr fun hnone => hhere (Option.isNone_iff_eq_none.mpr hnone)
        split at hp
        · rw [List.mem_singleton.mp hp]
          exact hfirst
        · split at hp
          · rcases List.mem_cons.mp hp with rfl | hp
            · exact hfirst
            · exact ih hp
          · rw [List.mem_singleton.mp hp]
            exact hfirst

theorem target?_mem_visited (htarget : (st.trail root path).target? = some p) :
    p ∈ (st.trail root path).visited := by
  rw [Trail.target?] at htarget
  split at htarget
  · exact List.mem_of_getLast? htarget
  · cases htarget

/-- A path comes to a field that exists. -/
theorem isSome_field?_of_target? (htarget : (st.trail root path).target? = some p) :
    (st.field? p).isSome = true := by
  have hp := target?_mem_visited htarget
  unfold trail at hp
  split at hp
  · rename_i hname
    rw [List.mem_singleton.mp hp]
    exact hname
  · exact isSome_field?_of_mem_follow hp

/-! ## What is read -/

section Congr

variable (hkeys : ∀ r, (st'.records.get r).fields.keys = (st.records.get r).fields.keys)

include hkeys

theorem isSome_field?_congr (p : Slot) : (st'.field? p).isSome = (st.field? p).isSome := by
  rw [Bool.eq_iff_iff, isSome_field?_iff, isSome_field?_iff, hkeys]

section Records

variable (hrecord : ∀ p, (st'.content p).record? = (st.content p).record?)

include hrecord

theorem follow_congr (r : RecordId) (keys : List String) :
    st'.follow r keys = st.follow r keys := by
  have hnone : ∀ p, (st'.field? p).isNone = (st.field? p).isNone := by
    intro p
    rw [← Option.not_isSome, isSome_field?_congr hkeys, Option.not_isSome]
  induction keys generalizing r with
  | nil => rfl
  | cons key rest ih => simp only [follow, hnone, hrecord, ih]

/-- Where a path leads depends on the names of fields and on the records that the fields hold. -/
theorem trail_congr (root : RecordId) (path : String) :
    st'.trail root path = st.trail root path := by
  rw [trail, isSome_field?_congr hkeys, follow_congr hkeys hrecord, trail]

end Records

/-- What is read depends on the names of fields and on what the fields hold, and not on how they
hold it. -/
theorem read_congr (hcontent : ∀ p, st'.content p = st.content p) (root : RecordId)
    (path : String) : st'.read root path = st.read root path := by
  rw [read, trail_congr hkeys (fun p => congrArg Value.record? (hcontent p)), funext hcontent, read]

end Congr

section Kept

variable (h : Sound st)
  (hrecords : ∀ r, st.isObserved r = true → st'.records.get r = st.records.get r)

include hrecords in
theorem field?_eq (hp : st.isObserved p.record = true) : st'.field? p = st.field? p := by
  rw [field?, hrecords p.record hp, field?]

include h hrecords in
theorem content_eq (hp : st.isObserved p.record = true)
    (hvalue : ∀ c, st.cell? p = some c → (st'.cells.get c).value = (st.cells.get c).value) :
    st'.content p = st.content p := by
  rw [content, field?_eq hrecords hp, content]
  cases hf : st.field? p with
  | none => rfl
  | some f =>
      obtain ⟨c, rfl, -⟩ := h.cell_of_field? hp hf
      exact hvalue c (cell?_eq_some.mpr hf)

include h hrecords in
theorem follow_eq {keys : List String} {r : RecordId} (hr : st.isObserved r = true)
    (hvalues : ∀ p ∈ (st.follow r keys).visited, ∀ c, st.cell? p = some c →
      (st'.cells.get c).value = (st.cells.get c).value) :
    st'.follow r keys = st.follow r keys := by
  induction keys generalizing r with
  | nil => rfl
  | cons key rest ih =>
      have hfield := field?_eq (p := ⟨r, key⟩) hrecords hr
      simp only [follow, hfield] at hvalues ⊢
      split
      · rfl
      · rename_i hsome
        rw [if_neg hsome] at hvalues
        split
        · rfl
        · rename_i hrest
          rw [if_neg hrest] at hvalues
          -- The first field is visited in any case, so its value is the same.
          have hhere : ∀ c, st.cell? ⟨r, key⟩ = some c →
              (st'.cells.get c).value = (st.cells.get c).value := by
            refine hvalues ⟨r, key⟩ ?_
            split
            · exact List.mem_cons_self
            · exact List.mem_singleton.mpr rfl
          rw [content_eq (p := ⟨r, key⟩) h hrecords hr hhere]
          cases hnext : (st.content ⟨r, key⟩).record? with
          | none => rfl
          | some next =>
              simp only [hnext] at hvalues
              have hlater := ih (h.isObserved_of_content (p := ⟨r, key⟩) hr hnext)
                fun p hp => hvalues p (List.mem_cons_of_mem _ hp)
              simp only [hlater]

variable (hroot : st.isObserved root = true)
  (hvalues : ∀ p ∈ (st.trail root path).visited, ∀ c, st.cell? p = some c →
    (st'.cells.get c).value = (st.cells.get c).value)

include h hrecords hroot hvalues

theorem trail_eq : st'.trail root path = st.trail root path := by
  unfold trail at hvalues ⊢
  rw [field?_eq (p := ⟨root, path⟩) hrecords hroot]
  split
  · rfl
  · rename_i hnone
    rw [if_neg hnone] at hvalues
    exact follow_eq h hrecords hroot hvalues

theorem read_eq : st'.read root path = st.read root path := by
  rw [read, trail_eq h hrecords hroot hvalues, read]
  cases htarget : (st.trail root path).target? with
  | none => rfl
  | some p =>
      have hvisited := target?_mem_visited htarget
      exact content_eq h hrecords (isObserved_of_mem_trail h hroot hvisited)
        (hvalues p hvisited)

theorem channelsRead_eq
    (hchannels : ∀ c : CellId, c.index < st.cells.size →
      (st'.cells.get c).channel = (st.cells.get c).channel) :
    st'.channelsRead root path = st.channelsRead root path := by
  rw [channelsRead, trail_eq h hrecords hroot hvalues, channelsRead]
  apply List.filterMap_congr
  intro p hp
  have hfield := field?_eq (p := p) hrecords (isObserved_of_mem_trail h hroot hp)
  have hcell : st'.cell? p = st.cell? p := by rw [cell?, hfield, cell?]
  rw [channel?, hcell, channel?]
  cases hc : st.cell? p with
  | none => rfl
  | some c => exact congrArg some (hchannels c (h.cell?_lt hc))

end Kept

theorem mem_channelsRead {c : CellId} (hp : p ∈ (st.trail root path).visited)
    (hc : st.cell? p = some c) : (st.cells.get c).channel ∈ st.channelsRead root path := by
  refine List.mem_filterMap.mpr ⟨p, hp, ?_⟩
  rw [channel?, hc]
  rfl

/-- The channels along a path that begins at an observed record exist. -/
theorem channelsRead_lt (h : Sound st) {c : ChannelId} (hc : c ∈ st.channelsRead root path) :
    c.index < st.channels.size := by
  obtain ⟨p, -, hp⟩ := List.mem_filterMap.mp hc
  obtain ⟨cell, hcell, rfl⟩ := Option.map_eq_some_iff.mp hp
  exact h.channelled cell (h.cell?_lt hcell)

/-! ## Where a path is written -/

/-- The field that is written when a path is written, if one is. -/
def written? (st : State) (root : RecordId) (path : String) : Option Slot :=
  if (st.field? ⟨root, path⟩).isSome then some ⟨root, path⟩
  else
    match Text.splitLast '.' path.toList with
    | none => some ⟨root, Text.trim path⟩
    | some (parent, key) => (st.read root (String.ofList parent)).record?.map fun r =>
        ⟨r, String.ofList (Text.trimChars key)⟩

theorem writePath_eq_match (st : State) (root : RecordId) (path : String) (v : Value) :
    st.writePath root path v =
      match st.written? root path with
      | some p => st.writeField p v
      | none => st.report (.unwritable path) := by
  unfold writePath written?
  split
  · rfl
  · cases Text.splitLast '.' path.toList with
    | none => rfl
    | some parts =>
        -- The path is written only if what stands before its last dot leads to a record.
        cases hr : (st.read root (String.ofList parts.1)).record? with
        | none => simp only [hr, Option.map_none]
        | some r => simp only [hr, Option.map_some]

theorem writePath_eq (st : State) (root : RecordId) (path : String) (v : Value) :
    (∃ e, st.writePath root path v = st.report e) ∨
      ∃ p, st.writePath root path v = st.writeField p v := by
  rw [writePath_eq_match]
  cases st.written? root path with
  | none => exact .inl ⟨_, rfl⟩
  | some p => exact .inr ⟨p, rfl⟩

theorem writePath_eq_writeField (h : st.written? root path = some p) (v : Value) :
    st.writePath root path v = st.writeField p v := by
  rw [writePath_eq_match, h]

theorem SameGraph.written? (h : SameGraph st st') (root : RecordId) (path : String) :
    st'.written? root path = st.written? root path := by
  simp only [State.written?, h.field?, h.read]

end DataBinding.State
