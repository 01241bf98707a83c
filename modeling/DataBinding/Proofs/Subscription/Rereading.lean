import DataBinding.Proofs.Subscription.Members

set_option autoImplicit false

/-! # Where a watcher is subscribed after it has read

A watcher that is made, or that reads its path again, is afterwards on the channels along its
path and on no others (`mem_watch`, `mem_reread`), and its sources list exactly these. Other
subscribers stay where they are.
-/

namespace DataBinding.State

variable {st : State} {s t : SubscriberId} {d : ChannelId} {w : Watcher}

/-! ## Tracked reads -/

theorem mem_track_sources {tr : Tracking} {root : RecordId} {path : String} :
    d ∈ (st.track tr root path).1.sources ↔
      d ∈ tr.sources ∨ (d ∈ st.channelsRead root path ∧
        tr.reader ∈ (st.track tr root path).2.channels.get d) := by
  simp [track, noteReads, Sources.mem_foldl_note_iff, isSubscribed]

theorem mem_track {tr : Tracking} {root : RecordId} {path : String} :
    t ∈ (st.track tr root path).2.channels.get d ↔
      t ∈ st.channels.get d ∨ (d ∈ st.channelsRead root path ∧ t = tr.reader ∧
        st.isAlive tr.reader = true ∧ d.index < st.channels.size) :=
  mem_subscribeAll

/-! ## Reading again -/

/-- The sources of a watcher that has just read its path again. -/
def sourcesReread (st : State) (s : SubscriberId) (w : Watcher) : Sources :=
  (st.track { reader := s } w.root w.path).1.sources

theorem reread_eq : st.reread s w =
    ((st.track { reader := s } w.root w.path).2.updateWatcher s fun w' =>
      { w' with sources := st.sourcesReread s w }).leave
        (w.sources.filter (· ∉ st.sourcesReread s w)) s := rfl

theorem watcher?_track {tr : Tracking} {root : RecordId} {path : String} :
    (st.track tr root path).2.watcher? t = st.watcher? t :=
  watcher?_subscribeAll _

theorem watcher?_reread :
    (st.reread s w).watcher? t =
      if s = t then (st.watcher? t).map fun w' => { w' with sources := st.sourcesReread s w }
      else st.watcher? t := by
  rw [reread_eq, watcher?_leave, watcher?_updateWatcher, watcher?_track]

/-- The watcher itself, when it has read its path again. -/
theorem watcher?_reread_self {w' : Watcher} (hw : st.watcher? s = some w') :
    (st.reread s w).watcher? s = some { w' with sources := st.sourcesReread s w } := by
  rw [watcher?_reread, if_pos rfl, hw]
  rfl

theorem isAlive_reread : (st.reread s w).isAlive t = st.isAlive t :=
  isAlive_congr (holders_reread w)

theorem mem_updateWatcher {f : Watcher → Watcher} :
    t ∈ (st.updateWatcher s f).channels.get d ↔ t ∈ st.channels.get d := Iff.rfl

theorem mem_reread_ne (h : t ≠ s) :
    t ∈ (st.reread s w).channels.get d ↔ t ∈ st.channels.get d := by
  rw [reread_eq, mem_leave, mem_updateWatcher, mem_track]
  simp [h]

theorem mem_sourcesReread :
    d ∈ st.sourcesReread s w ↔ d ∈ st.channelsRead w.root w.path ∧
      (s ∈ st.channels.get d ∨ (st.isAlive s = true ∧ d.index < st.channels.size)) := by
  rw [sourcesReread, mem_track_sources, mem_track]
  simp only [List.not_mem_nil, false_or, true_and]
  tauto

/-- A watcher that has read its path again is on the channels along the path and no others, if
it was on none that its sources did not list. -/
theorem mem_reread (h : ∀ c, s ∈ st.channels.get c → c ∈ w.sources) :
    s ∈ (st.reread s w).channels.get d ↔ d ∈ st.sourcesReread s w := by
  have hsource := h d
  -- What it joins by reading and what it leaves afterwards, taken together.
  rw [reread_eq, mem_leave, mem_updateWatcher, mem_track, List.mem_filter, decide_eq_true_iff,
    mem_sourcesReread]
  tauto

theorem watcher?_remember {v : Value} :
    (st.remember s v).watcher? t =
      if s = t then (st.watcher? t).map fun w => { w with seen := v } else st.watcher? t :=
  watcher?_updateWatcher _

theorem isAlive_remember {v : Value} : (st.remember s v).isAlive t = st.isAlive t :=
  isAlive_congr (holders_updateWatcher _)

/-- A watcher that has read its path again and keeps a value; the tree does not matter. -/
theorem watcher?_reread_remember {w' : Watcher} (hw : st.watcher? s = some w')
    (nodes : Table .node Node) (v : Value) :
    (({ st.reread s w with nodes } : State).remember s v).watcher? s =
      some { w' with sources := st.sourcesReread s w, seen := v } := by
  rw [watcher?_remember, if_pos rfl]
  exact congrArg (Option.map _) (watcher?_reread_self hw)

/-! ## Making a watcher -/

section Watch

variable {root : RecordId} {path : String} {reaction : Reaction}

/-- The state in which there is a new watcher that has not read its path yet. -/
def withWatcher (st : State) (root : RecordId) (path : String) (reaction : Reaction) : State :=
  { st with
    subscribers := st.subscribers.alloc
      { role := .watcher { root, path, reaction }, holders := 1 } }

/-- The watcher that has read its path for the first time. -/
def firstWatcher (st : State) (root : RecordId) (path : String) (reaction : Reaction) : Watcher :=
  { root, path, reaction, seen := st.read root path,
    sources := ((st.withWatcher root path reaction).track
      { reader := st.subscribers.fresh } root path).1.sources }

theorem onlySubscriptions_withWatcher :
    OnlySubscriptions st (st.withWatcher root path reaction) :=
  onlySubscriptions_newSubscriber st _

theorem watcher?_newSubscriber (b : Subscriber) :
    ({ st with subscribers := st.subscribers.alloc b } : State).watcher? t =
      if t = st.subscribers.fresh then b.watcher? else st.watcher? t := by
  simp only [watcher?, Table.get?_alloc]
  split <;> rfl

/-- A probe is no watcher. -/
theorem watcher?_newProbe (c : Callback) : (st.newProbe c).2.watcher? t = st.watcher? t := by
  have hfresh : st.watcher? st.subscribers.fresh = none := watcher?_eq_none (Nat.le_refl _)
  refine (watcher?_newSubscriber { role := .probe c, holders := 1 }).trans ?_
  split
  · rename_i ht
    rw [ht, hfresh]
    rfl
  · rfl

theorem holders_newSubscriber (b : Subscriber) :
    ({ st with subscribers := st.subscribers.alloc b } : State).holders t =
      if t = st.subscribers.fresh then b.holders else st.holders t := by
  simp only [holders, Table.get_alloc]
  split <;> rfl

theorem holders_withWatcher :
    (st.withWatcher root path reaction).holders t =
      if t = st.subscribers.fresh then 1 else st.holders t :=
  holders_newSubscriber _

theorem watch_eq : (st.watch root path reaction).2 =
    (((st.withWatcher root path reaction).track { reader := st.subscribers.fresh } root
      path).2.updateWatcher st.subscribers.fresh fun w =>
        { w with
          seen := ((st.withWatcher root path reaction).track { reader := st.subscribers.fresh }
            root path).2.read root path
          sources := (st.firstWatcher root path reaction).sources }).report
      (.watching path (st.firstWatcher root path reaction).sources.length) := rfl

theorem agenda_watch : (st.watch root path reaction).2.agenda = st.agenda := by
  rw [watch_eq, agenda_report, agenda_updateWatcher, agenda_track]
  rfl

theorem watcher?_report (e : Event) : (st.report e).watcher? t = st.watcher? t := rfl

theorem watcher?_watch :
    (st.watch root path reaction).2.watcher? t =
      if t = st.subscribers.fresh then some (st.firstWatcher root path reaction)
      else st.watcher? t := by
  rw [watch_eq, watcher?_report, watcher?_updateWatcher, watcher?_track, withWatcher,
    watcher?_newSubscriber]
  have hread := (onlySubscriptions_withWatcher.trans
    (onlySubscriptions_track (st.withWatcher root path reaction)
      { reader := st.subscribers.fresh } root path)).graph.read root path
  by_cases ht : t = st.subscribers.fresh
  · rw [if_pos ht.symm, if_pos ht, if_pos ht, ← withWatcher, hread]
    rfl
  · rw [if_neg (Ne.symm ht), if_neg ht, if_neg ht]

theorem holders_report (e : Event) : (st.report e).holders t = st.holders t := rfl

theorem holders_track {tr : Tracking} : (st.track tr root path).2.holders t = st.holders t :=
  holders_subscribeAll _

theorem holders_watch :
    (st.watch root path reaction).2.holders t =
      if t = st.subscribers.fresh then 1 else st.holders t := by
  rw [watch_eq, holders_report, holders_updateWatcher, holders_track, holders_withWatcher]

theorem size_subscribers_track {tr : Tracking} :
    (st.track tr root path).2.subscribers.size = st.subscribers.size :=
  congrArg Table.size (subscribers_subscribeAll st _ _)

theorem size_subscribers_watch :
    (st.watch root path reaction).2.subscribers.size = st.subscribers.size + 1 := by
  have hreport : ∀ st' e, (State.report st' e).subscribers.size = st'.subscribers.size :=
    fun _ _ => rfl
  rw [watch_eq, hreport, size_subscribers_updateWatcher, size_subscribers_track]
  exact Table.size_alloc ..

theorem size_channels_watch :
    (st.watch root path reaction).2.channels.size = st.channels.size :=
  size_channels_subscribeAll _ _ _

/-- A new watcher is put on the channels along its path; everybody else stays. -/
theorem mem_watch :
    t ∈ (st.watch root path reaction).2.channels.get d ↔
      t ∈ st.channels.get d ∨ (t = st.subscribers.fresh ∧ d ∈ st.channelsRead root path ∧
        d.index < st.channels.size) := by
  have hreport : ∀ st' e, t ∈ (State.report st' e).channels.get d ↔ t ∈ st'.channels.get d :=
    fun _ _ => Iff.rfl
  have halive : (st.withWatcher root path reaction).isAlive st.subscribers.fresh = true := by
    rw [isAlive_iff, holders_withWatcher, if_pos rfl]
    exact Nat.zero_lt_one
  have hsame : t ∈ (st.withWatcher root path reaction).channels.get d ↔ t ∈ st.channels.get d :=
    Iff.rfl
  have hsize : (st.withWatcher root path reaction).channels.size = st.channels.size := rfl
  -- The new watcher is alive, so it can join; nothing else has changed before it reads.
  rw [watch_eq, hreport, mem_updateWatcher, mem_track, halive,
    onlySubscriptions_withWatcher.graph.channelsRead, hsame, hsize]
  tauto

/-- The sources of a new watcher list the channels that it is on. -/
theorem mem_firstWatcher_sources :
    d ∈ (st.firstWatcher root path reaction).sources ↔
      d ∈ st.channelsRead root path ∧
        st.subscribers.fresh ∈ (st.watch root path reaction).2.channels.get d := by
  rw [firstWatcher, mem_track_sources, onlySubscriptions_withWatcher.graph.channelsRead]
  simp only [List.not_mem_nil, false_or]
  rfl

end Watch

end DataBinding.State
