import DataBinding.Proofs.Consistency

set_option autoImplicit false

/-! # Elementary changes

Whatever the host or the library does comes down to a few kinds of changes (`Change`), apart
from the two tasks in which a watcher that is told of a change follows its path and keeps a
value. What each kind leaves as it is is said here once; that every move is made of such
changes is shown in `Proofs/Course.lean`.
-/

namespace DataBinding

/-- Whether a task does not concern any subscriber. -/
def Task.isNeutral : Task → Bool
  | .act .. | .releaseView _ | .call _ | .running => true
  | .update _ | .remember .. | .release _ => false

open State

/-- What the changes that one move is made of may do. -/
structure Scope where
  /-- The watchers that may be made on a record that is not observed. -/
  early : SubscriberId → Prop
  /-- The reactions that watchers may be made with. -/
  allowed : Reaction → Prop
  /-- The subscribers that may be handed to a view. -/
  bindable : SubscriberId → Prop

/-- Changes that make no watcher and hand none to a view. -/
def Scope.closed : Scope where
  early _ := False
  allowed _ := False
  bindable _ := False

/-- One elementary change of a state. A subscriber that belongs to a view is only let go of as the
agenda says, or after the view has given it up. -/
inductive Change (sc : Scope) (st : State) :
    State → Prop where
  | log (arrays : Nat) (journal : List Event) : Change sc st { st with arrays, journal }
  | tree (nodes : Table .node Node) (hsize : st.nodes.size ≤ nodes.size)
      (hkind : ∀ n : NodeId, n.index < st.nodes.size →
        (({ st with nodes } : State).node n).kind = (st.node n).kind) :
      Change sc st { st with nodes }
  | push (tasks : List Task) (h : ∀ t ∈ tasks, t.isNeutral = true) :
      Change sc st (st.push tasks)
  | drop (t : Task) (rest : List Task) (h : st.agenda = t :: rest) (ht : t.isNeutral = true) :
      Change sc st { st with agenda := rest }
  | newRecord : Change sc st st.newRecord.2
  | newChannel : Change sc st st.newChannel.2
  | newProbe (c : Callback) : Change sc st (st.newProbe c).2
  | putField (p : Slot) (v : Value) (hp : st.isObserved p.record = false)
      (hv : ∀ r, v.record? = some r → r.index < st.records.size) :
      Change sc st (st.putField p (.plain v))
  | assign (c : CellId) (v : Value) (hv : ∀ r, v.record? = some r → r.index < st.records.size) :
      Change sc st (st.assign c v)
  | observe (r : RecordId) (hr : r.index < st.records.size) : Change sc st (st.observe r)
  | watch (root : RecordId) (path : String) (reaction : Reaction) (hreaction : sc.allowed reaction)
      (hroot : st.isObserved root = true ∨ sc.early st.subscribers.fresh) :
      Change sc st (st.watch root path reaction).2
  | hold (s : SubscriberId) (hs : st.isBound s = false) : Change sc st (st.hold s)
  | release (s : SubscriberId) (hs : st.isBound s = false) : Change sc st (st.release s)
  | dispose (s : SubscriberId) (hs : st.isBound s = false) : Change sc st (st.dispose s)
  | tell (s : SubscriberId) (hknown : s.index < st.subscribers.size) (hs : st.isBound s = false) :
      Change sc st (st.tell s)
  | letGo (s : SubscriberId) (rest : List Task) (h : st.agenda = .release s :: rest) :
      Change sc st (({ st with agenda := rest } : State).release s)
  | notify (c : ChannelId) : Change sc st (st.notify c)
  | newView (view : View) (hbindings : view.bindings = [])
      (hdata : st.isObserved view.data = true) :
      Change sc st { st with views := st.views.alloc view }
  | editView (v : ViewId) (f : View → View)
      (hf : ∀ b, (f b).data = b.data ∧ (f b).bindings = b.bindings) :
      Change sc st { st with views := st.views.modify v f }
  | unbind (v : ViewId) :
      Change sc st
        { st with views := st.views.modify v fun b => { b with bindings := [] } }
  | bind (v : ViewId) (bs : List Binding) (hv : v.index < st.views.size)
      (hbs : ∀ b ∈ bs, ∀ s ∈ b.watchers, sc.bindable s ∧ st.isBound s = false ∧
        st.holders s = 1 + st.agenda.count (.release s) ∧
        ∃ w, st.watcher? s = some w ∧ w.disposed = false ∧ w.root = (st.view v).data) :
      Change sc st
        { st with views := st.views.modify v fun b => { b with bindings := bs } }

namespace State

/-! ## Views -/

theorem view_eq {st : State} {v : ViewId} (h : st.views.size ≤ v.index) : st.view v = {} := by
  rw [view, Table.get?_eq_none h]
  rfl

theorem view_modify (st : State) (v v' : ViewId) (f : View → View) :
    ({ st with views := st.views.modify v f } : State).view v' =
      if v = v' ∧ v'.index < st.views.size then f (st.view v') else st.view v' := by
  by_cases hv' : v'.index < st.views.size
  · simp only [view, Table.get?_modify, Table.get?_eq_some_get hv', hv', and_true]
    split <;> rfl
  · rw [view_eq (by rw [Table.size_modify]; omega), view_eq (by omega)]
    simp [hv']

theorem view_alloc (st : State) (b : View) (v : ViewId) :
    ({ st with views := st.views.alloc b } : State).view v =
      if v = st.views.fresh then b else st.view v := by
  simp only [view, Table.get?_alloc]
  split <;> rfl

theorem lt_size_of_isBoundBy {st : State} {v : ViewId} {s : SubscriberId}
    (h : st.isBoundBy v s = true) : v.index < st.views.size := by
  by_contra hsize
  rw [isBoundBy, view_eq (by omega)] at h
  cases h

/-- A subscriber is bound when some view has a binding that it belongs to. -/
theorem isBound_iff {st : State} {s : SubscriberId} :
    st.isBound s = true ↔ ∃ v, st.isBoundBy v s = true := by
  rw [isBound, List.any_eq_true]
  constructor
  · rintro ⟨v, -, hv⟩
    exact ⟨v, hv⟩
  · rintro ⟨v, hv⟩
    exact ⟨v, (st.views.mem_ids_iff v).mpr (lt_size_of_isBoundBy hv), hv⟩

theorem isBoundBy_iff {st : State} {v : ViewId} {s : SubscriberId} :
    st.isBoundBy v s = true ↔ ∃ b ∈ (st.view v).bindings, s ∈ b.watchers := by
  simp [isBoundBy]

theorem isBoundBy_congr {st st' : State} (h : st'.views = st.views) (v : ViewId)
    (s : SubscriberId) : st'.isBoundBy v s = st.isBoundBy v s := by
  rw [isBoundBy, view, h, isBoundBy, view]

theorem isBound_congr {st st' : State} (h : st'.views = st.views) (s : SubscriberId) :
    st'.isBound s = st.isBound s := by
  rw [isBound, h, isBound, funext fun v => isBoundBy_congr h v s]

/-! ## Consistency -/

/-- A consistent state: records and cells fit together, channels, agenda and subscribers do, and
the data of views is observed. -/
structure Consistent (st : State) : Prop where
  sound : Sound st
  registered : Registered st
  scheduled : Scheduled st
  view : ∀ v : ViewId, v.index < st.views.size → st.isObserved (st.view v).data = true

theorem consistent_empty : Consistent {} := by
  have hrecord : ∀ r, ({} : State).records.get r = {} := fun _ => rfl
  refine ⟨⟨?_, ?_, ?_, nofun, nofun⟩, ⟨nofun, nofun⟩, ⟨nofun, nofun, nofun⟩, nofun⟩
  · intro r key v r' h
    rw [hrecord] at h
    cases h
  · intro r key c h
    rw [hrecord] at h
    cases h
  · intro r _ key v h
    rw [hrecord] at h
    cases h

theorem isNeutral_ne_update {t : Task} (h : t.isNeutral = true) (s : SubscriberId) :
    t ≠ .update s := by
  rintro rfl
  cases h

theorem isNeutral_ne_release {t : Task} (h : t.isNeutral = true) (s : SubscriberId) :
    t ≠ .release s := by
  rintro rfl
  cases h

theorem isNeutral_ne_remember {t : Task} (h : t.isNeutral = true) (s : SubscriberId) (v : Value) :
    t ≠ .remember s v := by
  rintro rfl
  cases h

/-- The tasks of telling some subscribers. -/
theorem mem_updates {l : List SubscriberId} {t : Task} :
    t ∈ updates l ↔ ∃ s ∈ l, t = .update s ∨ t = .release s := by
  simp [updates]

theorem agenda_notify (st : State) (c : ChannelId) :
    (st.notify c).agenda = updates ((st.prune c).channels.get c) ++ st.agenda := by
  simp [notify]

/-- What is on the agenda after the subscribers of a channel were told. -/
theorem mem_agenda_notify {st : State} {c : ChannelId} {t : Task} :
    t ∈ (st.notify c).agenda ↔
      (∃ s ∈ (st.prune c).channels.get c, t = .update s ∨ t = .release s) ∨ t ∈ st.agenda := by
  rw [agenda_notify, List.mem_append, mem_updates]

theorem mem_agenda_tell {st : State} {s : SubscriberId} {t : Task} :
    t ∈ (st.tell s).agenda ↔ t = .update s ∨ t = .release s ∨ t ∈ st.agenda := by
  have hagenda : (st.tell s).agenda = .update s :: .release s :: st.agenda := rfl
  rw [hagenda, List.mem_cons, List.mem_cons]

theorem size_subscribers_assign (st : State) (c : CellId) (v : Value) :
    (st.assign c v).subscribers.size = st.subscribers.size := by
  unfold assign
  split
  · have hobs := observes_observeValue (st.store c v) v
    exact (size_subscribers_notify _ _).trans (congrArg Table.size hobs.subscribers)
  · rfl

namespace Consistent

variable {st st' : State}

theorem of_onlySubscriptions (h : Consistent st) (hsame : OnlySubscriptions st st')
    (hsize : st.channels.size ≤ st'.channels.size) (hregistered : Registered st')
    (hscheduled : Scheduled st') : Consistent st' := by
  refine ⟨h.sound.congr hsame.records hsame.cells hsize, hregistered, hscheduled, ?_⟩
  intro v hv
  rw [hsame.views] at hv
  rw [isObserved, hsame.records, view_congr hsame.views]
  exact h.view v hv

/-- What leaves subscribers and members of channels alone keeps a state consistent if it keeps
records and cells together and brings nothing on the agenda but neutral tasks. -/
theorem of_graph (h : Consistent st) (hsound : Sound st')
    (hsubscribers : st'.subscribers = st.subscribers)
    (hchannels : ∀ c, st'.channels.get c = st.channels.get c)
    (hagenda : ∀ t ∈ st'.agenda, t ∈ st.agenda ∨ t.isNeutral = true)
    (hview : ∀ v : ViewId, v.index < st'.views.size → st'.isObserved (st'.view v).data = true) :
    Consistent st' := by
  refine ⟨hsound, h.registered.congr hsubscribers hchannels, ?_, hview⟩
  refine h.scheduled.of_imp (Nat.le_of_eq (by rw [hsubscribers])) (.congr hsubscribers) ?_ ?_ ?_
  · intro s hs
    exact (hagenda _ hs).elim .inl fun ht => absurd rfl (isNeutral_ne_update ht s)
  · intro s hs
    exact (hagenda _ hs).elim .inl fun ht => absurd rfl (isNeutral_ne_release ht s)
  · intro s v hs
    exact (hagenda _ hs).elim id fun ht => absurd rfl (isNeutral_ne_remember ht s v)

theorem observes (h : Consistent st) (hobs : Observes st st') (hsound : Sound st') :
    Consistent st' := by
  refine h.of_graph hsound hobs.subscribers hobs.channels ?_ ?_
  · intro t ht
    rw [hobs.agenda] at ht
    exact .inl ht
  · intro v hv
    rw [hobs.views] at hv
    rw [view_congr hobs.views]
    exact hobs.isObserved (h.view v hv)

theorem notify (h : Consistent st) (c : ChannelId) : Consistent (st.notify c) := by
  refine h.of_onlySubscriptions (onlySubscriptions_notify st c) ?_ h.registered.notify ?_
  · exact Nat.le_of_eq (size_channels_notify st c).symm
  · have hknown : ∀ s ∈ (st.prune c).channels.get c,
        s.index < (st.notify c).subscribers.size := by
      intro s hs
      rw [size_subscribers_notify]
      exact h.registered.member s c (mem_prune.mp hs).1
    refine h.scheduled.of_imp (Nat.le_of_eq (size_subscribers_notify st c).symm) ?_ ?_ ?_ ?_
    · intro s w hw
      exact ⟨w, watcher?_notify.trans hw, rfl⟩
    · intro s hs
      rcases mem_agenda_notify.mp hs with ⟨t, ht, hst | hst⟩ | hs
      · cases hst
        exact .inr (hknown s ht)
      · cases hst
      · exact .inl hs
    · intro s hs
      rcases mem_agenda_notify.mp hs with ⟨t, ht, hst | hst⟩ | hs
      · cases hst
      · cases hst
        exact .inr (hknown s ht)
      · exact .inl hs
    · intro s v hs
      rcases mem_agenda_notify.mp hs with ⟨t, ht, hst | hst⟩ | hs
      · cases hst
      · cases hst
      · exact hs

/-- Changes of views that keep their data keep it observed. -/
theorem view_modify (h : Consistent st) {v : ViewId} {f : View → View}
    (hf : ∀ b, (f b).data = b.data) (u : ViewId)
    (hu : u.index < (st.views.modify v f).size) :
    st.isObserved (({ st with views := st.views.modify v f } : State).view u).data = true := by
  rw [Table.size_modify] at hu
  rw [State.view_modify]
  split
  · rw [hf]
    exact h.view u hu
  · exact h.view u hu

/-- Operations on subscriptions that leave the agenda alone. -/
theorem subscriptions (h : Consistent st) (hsame : OnlySubscriptions st st')
    (hchannels : st.channels.size ≤ st'.channels.size) (hregistered : Registered st')
    (hsize : st.subscribers.size ≤ st'.subscribers.size) (hreactions : KeepsReactions st st')
    (hagenda : st'.agenda = st.agenda) : Consistent st' :=
  h.of_onlySubscriptions hsame hchannels hregistered
    (h.scheduled.of_subset hsize hreactions (hagenda ▸ List.Subset.refl _))

theorem hold (h : Consistent st) (s : SubscriberId) : Consistent (st.hold s) :=
  h.subscriptions (onlySubscriptions_hold st s) (Nat.le_refl _) h.registered.hold
    (Nat.le_of_eq (size_subscribers_hold st s).symm)
    (fun _ w hw => ⟨w, watcher?_hold.trans hw, rfl⟩) rfl

theorem release (h : Consistent st) (s : SubscriberId) : Consistent (st.release s) :=
  h.subscriptions (onlySubscriptions_release st s)
    (Nat.le_of_eq (size_channels_release st s).symm) h.registered.release
    (Nat.le_of_eq (size_subscribers_release st s).symm)
    (.of_map (fun _ => watcher?_release) fun _ => rfl) (agenda_release st s)

theorem dispose (h : Consistent st) (s : SubscriberId) : Consistent (st.dispose s) :=
  h.subscriptions (onlySubscriptions_dispose st s)
    (Nat.le_of_eq (size_channels_dispose st s).symm) h.registered.dispose
    (Nat.le_of_eq (size_subscribers_dispose st s).symm)
    (.of_map (fun _ => watcher?_dispose) fun _ => rfl) (agenda_dispose st s)

theorem newProbe (h : Consistent st) (c : Callback) : Consistent (st.newProbe c).2 :=
  h.subscriptions ⟨rfl, rfl, rfl, rfl⟩ (Nat.le_refl _) (h.registered.newProbe c)
    ((Table.size_alloc ..).symm ▸ Nat.le_succ _)
    (fun _ w hw => ⟨w, (watcher?_newProbe c).trans hw, rfl⟩) rfl

theorem watch (h : Consistent st) (root : RecordId) (path : String) (reaction : Reaction) :
    Consistent (st.watch root path reaction).2 := by
  refine h.subscriptions (onlySubscriptions_watch st root path reaction)
    (Nat.le_of_eq size_channels_watch.symm) h.registered.watch ?_ ?_ agenda_watch
  · rw [size_subscribers_watch]
    exact Nat.le_succ _
  · intro t w hw
    refine ⟨w, ?_, rfl⟩
    rw [watcher?_watch, if_neg (Table.ne_fresh (lt_size_of_watcher? hw)), hw]

theorem reread (h : Consistent st) {s : SubscriberId} {w : Watcher}
    (hw : st.watcher? s = some w) : Consistent (st.reread s w) :=
  h.subscriptions (onlySubscriptions_reread st s w)
    (Nat.le_of_eq (size_channels_reread st s w).symm) (h.registered.reread hw)
    (Nat.le_of_eq (size_subscribers_reread st s w).symm)
    (.of_map (fun _ => watcher?_reread) fun _ => rfl) (agenda_reread st s w)

theorem remember (h : Consistent st) (s : SubscriberId) (v : Value) :
    Consistent (st.remember s v) :=
  h.subscriptions (onlySubscriptions_updateWatcher st s _) (Nat.le_refl _)
    h.registered.remember (Nat.le_of_eq (size_subscribers_updateWatcher st s _).symm)
    (.of_map (fun _ => watcher?_remember) fun _ => rfl) rfl

/-- Nothing goes wrong when tasks are taken off the agenda. -/
theorem dropTasks (h : Consistent st) {rest : List Task} (hrest : rest ⊆ st.agenda) :
    Consistent { st with agenda := rest } :=
  h.of_onlySubscriptions ⟨rfl, rfl, rfl, rfl⟩ (Nat.le_refl _)
    (h.registered.congr rfl fun _ => rfl)
    (h.scheduled.of_subset (Nat.le_refl _) (.congr rfl) hrest)

theorem tell (h : Consistent st) {s : SubscriberId} (hs : s.index < st.subscribers.size) :
    Consistent (st.tell s) := by
  have hheld := h.hold s
  have hknown : s.index < (st.hold s).subscribers.size := by
    rw [size_subscribers_hold]
    exact hs
  refine hheld.of_onlySubscriptions (onlySubscriptions_push (st.hold s) _) (Nat.le_refl _)
    (hheld.registered.congr rfl fun _ => rfl) ?_
  refine hheld.scheduled.of_imp (Nat.le_refl _) (.congr rfl) ?_ ?_ ?_
  · intro t ht
    rcases mem_agenda_tell.mp ht with ht | ht | ht
    · cases ht
      exact .inr hknown
    · cases ht
    · exact .inl ht
  · intro t ht
    rcases mem_agenda_tell.mp ht with ht | ht | ht
    · cases ht
    · cases ht
      exact .inr hknown
    · exact .inl ht
  · intro t v ht
    rcases mem_agenda_tell.mp ht with ht | ht | ht
    · cases ht
    · cases ht
    · exact ht

theorem assign (h : Consistent st) (c : CellId) {v : Value}
    (hv : ∀ r, v.record? = some r → r.index < st.records.size) : Consistent (st.assign c v) := by
  unfold State.assign
  split
  · have hobs := observes_observeValue (st.store c v) v
    -- Storing alone would leave a record in a cell that is not observed, so the two come as one.
    have hstored : Consistent ((st.store c v).observeValue v) := by
      refine h.of_graph (h.sound.storeObserved c hv) hobs.subscribers hobs.channels ?_ ?_
      · intro t ht
        rw [hobs.agenda] at ht
        exact .inl ht
      · intro u hu
        rw [hobs.views] at hu
        have hview : ((st.store c v).observeValue v).view u = st.view u := view_congr hobs.views u
        rw [hview]
        exact hobs.isObserved (h.view u hu)
    have hreported : Consistent (((st.store c v).observeValue v).report
        (.changed (st.cells.get c).key)) :=
      hstored.of_onlySubscriptions (onlySubscriptions_report _ _) (Nat.le_refl _)
        (hstored.registered.congr rfl fun _ => rfl)
        (hstored.scheduled.of_subset (Nat.le_refl _) (.congr rfl) (List.Subset.refl _))
    exact hreported.notify _
  · exact h

end Consistent

end State

/-- Elementary changes lead from consistent states to consistent states. -/
theorem Change.consistent {sc : Scope}
    {st st' : State} (h : Change sc st st') (hst : Consistent st) : Consistent st' := by
  cases h with
  | log | tree =>
      exact hst.of_graph (hst.sound.congr rfl rfl (Nat.le_refl _)) rfl (fun _ => rfl)
        (fun _ => .inl) hst.view
  | push tasks hneutral =>
      refine hst.of_graph (hst.sound.congr rfl rfl (Nat.le_refl _)) rfl (fun _ => rfl) ?_ hst.view
      intro t ht
      exact (List.mem_append.mp ht).symm.imp id (hneutral t)
  | drop t rest hagenda ht =>
      exact hst.dropTasks (hagenda ▸ List.subset_cons_self _ _)
  | newRecord =>
      -- The new record is empty, as a record is that does not exist: nothing is seen of it.
      have hget : ∀ r, st.newRecord.2.records.get r = st.records.get r :=
        Table.get_alloc_default st.records
      have hobserved : ∀ r, st.newRecord.2.isObserved r = st.isObserved r := by
        intro r
        rw [isObserved, hget, isObserved]
      have hsize : st.records.size ≤ st.newRecord.2.records.size :=
        (Table.size_alloc ..).symm ▸ Nat.le_succ _
      refine hst.of_graph ⟨?_, ?_, ?_, ?_, hst.sound.channelled⟩ rfl (fun _ => rfl)
        (fun _ => .inl) ?_
      · intro r key v r' hv hr'
        rw [hget] at hv
        exact Nat.lt_of_lt_of_le (hst.sound.held r key v r' hv hr') hsize
      · intro r key c hc
        rw [hget] at hc
        exact hst.sound.celled r key c hc
      · intro r hr key v
        rw [hget]
        exact hst.sound.reactive r ((hobserved r).symm.trans hr) key v
      · intro c r hc hr
        rw [hobserved]
        exact hst.sound.observed c r hc hr
      · intro v hv
        rw [hobserved]
        exact hst.view v hv
  | newChannel =>
      exact hst.of_graph (hst.sound.congr rfl rfl ((Table.size_alloc ..).symm ▸ Nat.le_succ _)) rfl
        (Table.get_alloc_default st.channels) (fun _ => .inl) hst.view
  | newProbe c => exact hst.newProbe c
  | putField p v hp hv =>
      refine hst.of_graph (hst.sound.putField hp hv) rfl (fun _ => rfl) (fun _ => .inl) ?_
      intro u hu
      refine Eq.trans ?_ (hst.view u hu)
      exact Table.map_get_modify (g := Record.observed) _ _ _ fun _ => rfl
  | assign c v hv => exact hst.assign c hv
  | observe r hr => exact hst.observes (observes_observe st r) (hst.sound.observe hr)
  | watch root path reaction hreaction hroot => exact hst.watch root path reaction
  | hold s hs => exact hst.hold s
  | release s hs => exact hst.release s
  | dispose s hs => exact hst.dispose s
  | tell s hknown hs => exact hst.tell hknown
  | letGo s rest hagenda =>
      exact (hst.dropTasks (hagenda ▸ List.subset_cons_self _ _)).release s
  | notify c => exact hst.notify c
  | newView view hbindings hdata =>
      refine hst.of_graph (hst.sound.congr rfl rfl (Nat.le_refl _)) rfl (fun _ => rfl)
        (fun _ => .inl) ?_
      intro v hv
      rw [view_alloc]
      split
      · exact hdata
      · rename_i hne
        have hlt : v.index < st.views.size + 1 := Nat.lt_of_lt_of_eq hv (Table.size_alloc ..)
        have hindex : v.index ≠ st.views.size := by
          intro hindex
          apply hne
          cases v
          exact congrArg Id.mk hindex
        exact hst.view v (by omega)
  | editView v f hf =>
      refine hst.of_graph (hst.sound.congr rfl rfl (Nat.le_refl _)) rfl (fun _ => rfl)
        (fun _ => .inl) (hst.view_modify fun b => (hf b).1)
  | unbind v =>
      refine hst.of_graph (hst.sound.congr rfl rfl (Nat.le_refl _)) rfl (fun _ => rfl)
        (fun _ => .inl) (hst.view_modify fun b => rfl)
  | bind v bs hv hbs =>
      refine hst.of_graph (hst.sound.congr rfl rfl (Nat.le_refl _)) rfl (fun _ => rfl)
        (fun _ => .inl) (hst.view_modify fun b => rfl)

end DataBinding
