import DataBinding.Proofs.Observation
import DataBinding.Proofs.Subscription.Rereading
import DataBinding.Run

set_option autoImplicit false

/-! # Consistent states

In the states that tame runs come to, what is named exists, and two facts hold that everything
about watchers rests on: a record held by a reactive field is observed, so a path that begins
at an observed record leads through reactive fields only (`Sound`); and a watcher is on no
channel that its sources do not list (`Registered`).
-/

namespace DataBinding

namespace State

/-! ## Records and cells -/

theorem lt_size_of_isObserved {st : State} {r : RecordId} (h : st.isObserved r = true) :
    r.index < st.records.size := by
  by_contra hr
  have hdefault : st.records.get r = default := Table.get_eq_default (by omega)
  rw [isObserved, hdefault] at h
  cases h

/-- Records and cells fit together, but for cells that hold a record of `loose`, which may still
have to be observed. -/
structure SoundBut (loose : List RecordId) (st : State) : Prop where
  /-- The records that plain fields hold exist. -/
  held : ∀ r key v r', (key, Field.plain v) ∈ (st.records.get r).fields → v.record? = some r' →
    r'.index < st.records.size
  /-- The cells of reactive fields exist. -/
  celled : ∀ r key c, (key, Field.reactive c) ∈ (st.records.get r).fields →
    c.index < st.cells.size
  /-- The fields of an observed record are reactive. -/
  reactive : ∀ r, st.isObserved r = true → ∀ key v,
    (key, Field.plain v) ∉ (st.records.get r).fields
  /-- The records that cells hold are observed. -/
  observed : ∀ c r, c.index < st.cells.size → (st.cells.get c).value.record? = some r →
    st.isObserved r = true ∨ r ∈ loose
  /-- The channels of cells exist. -/
  channelled : ∀ c, c.index < st.cells.size → (st.cells.get c).channel.index < st.channels.size

/-- Records and cells fit together. -/
abbrev Sound (st : State) : Prop := SoundBut [] st

namespace SoundBut

variable {loose : List RecordId} {st st' : State}

theorem congr (h : SoundBut loose st) (hrecords : st'.records = st.records)
    (hcells : st'.cells = st.cells) (hchannels : st.channels.size ≤ st'.channels.size) :
    SoundBut loose st' := by
  obtain ⟨held, celled, reactive, observed, channelled⟩ := h
  refine ⟨?_, ?_, ?_, ?_, ?_⟩
  · rw [hrecords]
    exact held
  · rw [hrecords, hcells]
    exact celled
  · intro r
    rw [isObserved, hrecords]
    exact reactive r
  · intro c r
    rw [isObserved, hrecords, hcells]
    exact observed c r
  · rw [hcells]
    exact fun c hc => Nat.lt_of_lt_of_le (channelled c hc) hchannels

theorem mono {loose' : List RecordId} (h : SoundBut loose st) (hsub : loose ⊆ loose') :
    SoundBut loose' st :=
  ⟨h.held, h.celled, h.reactive, fun c r hc hr => (h.observed c r hc hr).imp id (@hsub r),
    h.channelled⟩

end SoundBut

theorem Observes.isObserved {st st' : State} (h : Observes st st') {r : RecordId}
    (hr : st.isObserved r = true) : st'.isObserved r = true := by
  rw [State.isObserved, h.records r hr]
  exact hr

theorem isObserved_observe {st : State} {r r' : RecordId} (h : st.isObserved r' = true) :
    (st.observe r).isObserved r' = true :=
  (observes_observe st r).isObserved h

/-- After a record is observed, no cell has to wait for its observation any more. -/
theorem SoundBut.observe {st : State} {r : RecordId} (h : SoundBut [r] st)
    (hr : r.index < st.records.size) : Sound (st.observe r) := by
  obtain ⟨rs, ds, hwalk⟩ := walk_observe st r
  have hconv := hwalk.converts
  have hself : (st.observe r).isObserved r = true := hwalk.isObserved_start List.mem_cons_self hr
  -- A field that is plain now was plain before, in a record that was not converted.
  have hplain : ∀ r' key v, (key, Field.plain v) ∈ ((st.observe r).records.get r').fields →
      r' ∉ rs := by
    intro r' key v hv hmem
    obtain ⟨c, hc, -⟩ := hconv.reactive hmem hv
    cases hc
  refine ⟨?_, ?_, ?_, ?_, ?_⟩
  · intro r' key v r'' hv hrec
    have hsame := hconv.others r' (hplain r' key v hv)
    rw [hsame] at hv
    rw [hconv.records_size]
    exact h.held r' key v r'' hv hrec
  · intro r' key c hc
    by_cases hmem : r' ∈ rs
    · obtain ⟨c', hc', hold | hnew⟩ := hconv.reactive hmem hc
      · exact Nat.lt_of_lt_of_le (h.celled r' key c hold) hconv.cells.cells_size
      · cases hc'
        exact hnew
    · rw [hconv.others r' hmem] at hc
      exact Nat.lt_of_lt_of_le (h.celled r' key c hc) hconv.cells.cells_size
  · intro r' hobs key v hv
    have hmem := hplain r' key v hv
    rw [hconv.others r' hmem] at hv
    rw [isObserved, hconv.others r' hmem] at hobs
    exact h.reactive r' hobs key v hv
  · intro c r' hc hrec
    refine .inl ?_
    by_cases hold : c.index < st.cells.size
    · rw [hconv.cells.cells c hold] at hrec
      rcases h.observed c r' hold hrec with hobs | hloose
      · exact isObserved_observe hobs
      · rw [List.mem_singleton.mp hloose]
        exact hself
    · -- The cell is new: it holds what a converted record held plainly, which was converted too.
      obtain ⟨⟨r₁, hr₁, key, hkey⟩, -⟩ := hconv.cells.new c (Nat.le_of_not_lt hold) hc
      have hknown := h.held r₁ key _ r' hkey hrec
      exact hwalk.isObserved_held hr₁ (mem_heldPlainly hkey hrec) hknown
  · intro c hc
    by_cases hold : c.index < st.cells.size
    · rw [hconv.cells.cells c hold]
      exact Nat.lt_of_lt_of_le (h.channelled c hold) hconv.cells.channels_size
    · exact (hconv.cells.new c (Nat.le_of_not_lt hold) hc).2

theorem Sound.observe {st : State} {r : RecordId} (h : Sound st)
    (hr : r.index < st.records.size) : Sound (st.observe r) :=
  (h.mono (List.nil_subset _)).observe hr

theorem SoundBut.store {st : State} (h : Sound st) (c : CellId) (v : Value) :
    SoundBut v.record?.toList (st.store c v) := by
  have hget : ∀ d, (st.store c v).cells.get d = st.cells.get d ∨
      (st.store c v).cells.get d = { st.cells.get d with value := v } := by
    intro d
    show (Table.modify _ c _).get d = _ ∨ (Table.modify _ c _).get d = _
    rw [Table.get_modify]
    split
    · exact .inr rfl
    · exact .inl rfl
  have hsize : (st.store c v).cells.size = st.cells.size := Table.size_modify ..
  refine ⟨h.held, ?_, h.reactive, ?_, ?_⟩
  · rw [hsize]
    exact h.celled
  · intro d r hd hr
    rw [hsize] at hd
    -- The cell that was written is the only one that may hold an unobserved record.
    rcases hget d with hsame | hnew
    · rw [hsame] at hr
      exact (h.observed d r hd hr).imp id nofun
    · rw [hnew] at hr
      exact .inr (by simp [show v.record? = some r from hr])
  · intro d hd
    rw [hsize] at hd
    rcases hget d with hsame | hnew
    · rw [hsame]
      exact h.channelled d hd
    · rw [hnew]
      exact h.channelled d hd

/-- Storing a value in a cell and observing it keeps records and cells together. -/
theorem Sound.storeObserved {st : State} (h : Sound st) (c : CellId) {v : Value}
    (hv : ∀ r, v.record? = some r → r.index < st.records.size) :
    Sound ((st.store c v).observeValue v) := by
  have hstore := SoundBut.store h c v
  rw [observeValue_eq]
  cases hr : v.record? with
  | none =>
      rw [hr] at hstore
      exact hstore
  | some r =>
      rw [hr] at hstore
      exact hstore.observe (hv r hr)

theorem Sound.putField {st : State} (h : Sound st) {p : Slot} {v : Value}
    (hp : st.isObserved p.record = false)
    (hv : ∀ r, v.record? = some r → r.index < st.records.size) :
    Sound (st.putField p (.plain v)) := by
  have hget : ∀ r, ((st.putField p (.plain v)).records.get r).observed = (st.records.get r).observed
      ∧ ∀ key f, (key, f) ∈ ((st.putField p (.plain v)).records.get r).fields →
        (r = p.record ∧ f = .plain v) ∨ (key, f) ∈ (st.records.get r).fields := by
    intro r
    refine ⟨?_, fun key f => mem_fields_putField⟩
    rw [State.putField, Table.get_modify]
    split <;> rfl
  have hsize : (st.putField p (.plain v)).records.size = st.records.size := Table.size_modify ..
  refine ⟨?_, ?_, ?_, ?_, h.channelled⟩
  · intro r key u r' hu hr'
    rw [hsize]
    rcases (hget r).2 key _ hu with ⟨-, hplain⟩ | hold
    · cases hplain
      exact hv r' hr'
    · exact h.held r key u r' hold hr'
  · intro r key c hc
    rcases (hget r).2 key _ hc with ⟨-, hplain⟩ | hold
    · cases hplain
    · exact h.celled r key c hold
  · intro r hr key u hu
    rw [isObserved, (hget r).1] at hr
    rcases (hget r).2 key _ hu with ⟨rfl, -⟩ | hold
    · -- The record of the slot is not observed, so its fields need not be reactive.
      rw [isObserved, hr] at hp
      cases hp
    · exact h.reactive r hr key u hold
  · intro c r hc hr
    rw [isObserved, (hget r).1]
    exact h.observed c r hc hr

/-! ## Channels and subscribers -/

/-- Channels list subscribers that exist, and watchers know which channels list them. -/
structure Registered (st : State) : Prop where
  member : ∀ s c, s ∈ st.channels.get c → s.index < st.subscribers.size
  source : ∀ s w c, st.watcher? s = some w → s ∈ st.channels.get c → c ∈ w.sources

namespace Registered

variable {st st' : State} {s : SubscriberId}

/-- Nobody joins a channel, and no watcher that stays on a channel forgets it. -/
theorem of_imp (h : Registered st) (hsize : st.subscribers.size ≤ st'.subscribers.size)
    (hmem : ∀ t c, t ∈ st'.channels.get c → t ∈ st.channels.get c)
    (hwatcher : ∀ t w' c, st'.watcher? t = some w' → t ∈ st'.channels.get c →
      ∃ w, st.watcher? t = some w ∧ (c ∈ w.sources → c ∈ w'.sources)) : Registered st' := by
  constructor
  · intro t c ht
    exact Nat.lt_of_lt_of_le (h.member t c (hmem t c ht)) hsize
  · intro t w' c hw' ht
    obtain ⟨w, hw, hsub⟩ := hwatcher t w' c hw' ht
    exact hsub (h.source t w c hw (hmem t c ht))

theorem congr (h : Registered st) (hsubscribers : st'.subscribers = st.subscribers)
    (hchannels : ∀ c, st'.channels.get c = st.channels.get c) : Registered st' := by
  refine h.of_imp (Nat.le_of_eq (by rw [hsubscribers])) ?_ ?_
  · intro t c ht
    rwa [hchannels] at ht
  · intro t w' c hw' _
    exact ⟨w', (watcher?_congr hsubscribers).symm.trans hw', id⟩

theorem hold (h : Registered st) : Registered (st.hold s) := by
  refine h.of_imp (Nat.le_of_eq (size_subscribers_hold st s).symm) (fun _ _ => id) ?_
  intro t w' c hw' _
  rw [watcher?_hold] at hw'
  exact ⟨w', hw', id⟩

theorem release (h : Registered st) : Registered (st.release s) := by
  refine h.of_imp (Nat.le_of_eq (size_subscribers_release st s).symm)
    (fun t c ht => (mem_release.mp ht).1) ?_
  intro t w' c hw' ht
  rw [watcher?_release] at hw'
  split at hw'
  · -- The last holder went: the watcher is on none of its sources any more.
    rename_i hlast
    obtain ⟨w, hw, rfl⟩ := Option.map_eq_some_iff.mp hw'
    refine ⟨w, hw, fun hc => absurd ⟨hlast.1.symm, hlast.2, w, ?_, hc⟩ (mem_release.mp ht).2⟩
    rw [hlast.1]
    exact hw
  · exact ⟨w', hw', id⟩

theorem dispose (h : Registered st) : Registered (st.dispose s) := by
  refine h.of_imp (Nat.le_of_eq (size_subscribers_dispose st s).symm)
    (fun t c ht => (mem_dispose.mp ht).1) ?_
  intro t w' c hw' ht
  rw [watcher?_dispose] at hw'
  split at hw'
  · rename_i hst
    obtain ⟨w, hw, rfl⟩ := Option.map_eq_some_iff.mp hw'
    refine ⟨w, hw, fun hc => absurd ⟨hst.symm, w, ?_, hc⟩ (mem_dispose.mp ht).2⟩
    rw [hst]
    exact hw
  · exact ⟨w', hw', id⟩

theorem notify (h : Registered st) {c : ChannelId} : Registered (st.notify c) := by
  refine h.of_imp (Nat.le_of_eq (size_subscribers_notify st c).symm)
    (fun t d ht => (mem_notify.mp ht).1) ?_
  intro t w' d hw' _
  rw [watcher?_notify] at hw'
  exact ⟨w', hw', id⟩

theorem newProbe (h : Registered st) (c : Callback) : Registered (st.newProbe c).2 := by
  refine h.of_imp ?_ (fun _ _ => id) ?_
  · exact (Table.size_alloc ..).symm ▸ Nat.le_succ _
  · intro t w' d hw' _
    rw [watcher?_newProbe] at hw'
    exact ⟨w', hw', id⟩

theorem watch (h : Registered st) {root : RecordId} {path : String} {reaction : Reaction} :
    Registered (st.watch root path reaction).2 := by
  have hfresh : ∀ c, st.subscribers.fresh ∉ st.channels.get c := by
    intro c hc
    exact Nat.lt_irrefl _ (h.member _ c hc)
  constructor
  · intro t c ht
    rw [size_subscribers_watch]
    rcases mem_watch.mp ht with hold | ⟨rfl, -⟩
    · exact Nat.lt_succ_of_lt (h.member t c hold)
    · exact Nat.lt_succ_self _
  · intro t w c hw ht
    rw [watcher?_watch] at hw
    split at hw
    · -- The new watcher lists all channels that it has joined, and was on none before.
      rename_i hfr
      cases hw
      rw [hfr] at ht
      refine mem_firstWatcher_sources.mpr ⟨?_, ht⟩
      rcases mem_watch.mp ht with hold | ⟨-, hread, -⟩
      · exact absurd hold (hfresh c)
      · exact hread
    · rename_i hne
      exact h.source t w c hw ((mem_watch.mp ht).resolve_right fun h => hne h.1)

theorem reread (h : Registered st) {w : Watcher} (hw : st.watcher? s = some w) :
    Registered (st.reread s w) := by
  have hsize : (st.reread s w).subscribers.size = st.subscribers.size := size_subscribers_reread ..
  have hself : ∀ c, s ∈ (st.reread s w).channels.get c ↔ c ∈ st.sourcesReread s w :=
    fun c => mem_reread fun c => h.source s w c hw
  constructor
  · intro t c ht
    rw [hsize]
    by_cases hts : t = s
    · exact hts ▸ lt_size_of_watcher? hw
    · exact h.member t c ((mem_reread_ne hts).mp ht)
  · intro t w' c hw' ht
    rw [watcher?_reread] at hw'
    split at hw'
    · rename_i hst
      subst hst
      rw [hw] at hw'
      cases hw'
      exact (hself c).mp ht
    · rename_i hst
      exact h.source t w' c hw' ((mem_reread_ne (Ne.symm hst)).mp ht)

/-- What changes nothing but the values that watchers have seen leaves the channels in order. -/
theorem remember (h : Registered st) {v : Value} : Registered (st.remember s v) := by
  refine h.of_imp (Nat.le_of_eq (size_subscribers_updateWatcher st s _).symm) (fun _ _ => id) ?_
  intro t w' c hw' _
  rw [State.remember, watcher?_updateWatcher] at hw'
  split at hw'
  · obtain ⟨w, hw, rfl⟩ := Option.map_eq_some_iff.mp hw'
    exact ⟨w, hw, id⟩
  · exact ⟨w', hw', id⟩

end Registered

/-! ## The agenda -/

/-- The subscribers on the agenda exist, and only watchers that call the host have a value to
keep later. -/
structure Scheduled (st : State) : Prop where
  update : ∀ s, .update s ∈ st.agenda → s.index < st.subscribers.size
  release : ∀ s, .release s ∈ st.agenda → s.index < st.subscribers.size
  remember : ∀ s v, .remember s v ∈ st.agenda →
    ∃ w c, st.watcher? s = some w ∧ w.reaction = .call c

/-- The watchers of `st` still exist in `st'` and react as they did. -/
def KeepsReactions (st st' : State) : Prop :=
  ∀ s w, st.watcher? s = some w → ∃ w', st'.watcher? s = some w' ∧ w'.reaction = w.reaction

theorem KeepsReactions.congr {st st' : State} (h : st'.subscribers = st.subscribers) :
    KeepsReactions st st' :=
  fun _ w hw => ⟨w, (watcher?_congr h).trans hw, rfl⟩

/-- An operation that changes some watchers, but not how they react. -/
theorem KeepsReactions.of_map {st st' : State} {p : SubscriberId → Prop} [DecidablePred p]
    {f : Watcher → Watcher}
    (h : ∀ s, st'.watcher? s = if p s then (st.watcher? s).map f else st.watcher? s)
    (hf : ∀ w, (f w).reaction = w.reaction) :
    KeepsReactions st st' := by
  intro s w hw
  rw [h, hw]
  split
  · exact ⟨f w, rfl, hf w⟩
  · exact ⟨w, rfl, rfl⟩

/-- The new agenda has no task that the old one had not, but for such as concern nobody and
updates and releases of subscribers that exist. -/
theorem Scheduled.of_imp {st st' : State} (h : Scheduled st)
    (hsize : st.subscribers.size ≤ st'.subscribers.size) (hkeeps : KeepsReactions st st')
    (hupdate : ∀ s, .update s ∈ st'.agenda →
      .update s ∈ st.agenda ∨ s.index < st'.subscribers.size)
    (hrelease : ∀ s, .release s ∈ st'.agenda →
      .release s ∈ st.agenda ∨ s.index < st'.subscribers.size)
    (hremember : ∀ s v, .remember s v ∈ st'.agenda → .remember s v ∈ st.agenda) :
    Scheduled st' := by
  refine ⟨?_, ?_, ?_⟩
  · intro s hs
    exact (hupdate s hs).elim (fun hs => Nat.lt_of_lt_of_le (h.update s hs) hsize) id
  · intro s hs
    exact (hrelease s hs).elim (fun hs => Nat.lt_of_lt_of_le (h.release s hs) hsize) id
  · intro s v hs
    obtain ⟨w, c, hw, hc⟩ := h.remember s v (hremember s v hs)
    obtain ⟨w', hw', hreaction⟩ := hkeeps s w hw
    exact ⟨w', c, hw', hreaction.trans hc⟩

/-- An agenda of the same tasks or fewer. -/
theorem Scheduled.of_subset {st st' : State} (h : Scheduled st)
    (hsize : st.subscribers.size ≤ st'.subscribers.size) (hkeeps : KeepsReactions st st')
    (hagenda : st'.agenda ⊆ st.agenda) : Scheduled st' :=
  h.of_imp hsize hkeeps (fun _ hs => .inl (hagenda hs)) (fun _ hs => .inl (hagenda hs))
    fun _ _ hs => hagenda hs

end State

end DataBinding
