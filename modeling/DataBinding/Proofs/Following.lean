import DataBinding.Proofs.Change
import DataBinding.Proofs.Path

set_option autoImplicit false

/-! # Watchers follow their paths

A watcher *follows* its path when it is on exactly the channels along it, and the value that it
was told last, or saw first, is still the one that the path leads to. This need not hold at
every moment, since a write comes before the watcher is told of it; but where it does not hold,
the telling is on the agenda (`Following`). Nothing that happens beside the watcher breaks this
(`Following.keep`): whatever changes along its path is told to it.
-/

namespace DataBinding

open State

/-! ## What happens beside a watcher -/

/-- What happens from `st` to `st'` does not concern the subscriber `s`, or only in this way: it
may be let go of or disposed of, and told of what has changed along paths. -/
structure Keeps (s : SubscriberId) (st st' : State) : Prop where
  watcher : ∀ w, st.watcher? s = some w → ∃ w', st'.watcher? s = some w' ∧ w'.root = w.root ∧
    w'.path = w.path ∧ w'.reaction = w.reaction ∧ w'.seen = w.seen ∧
    (w'.disposed = false → w.disposed = false)
  unmade : st.watcher? s = none → st'.watcher? s = none
  alive : st'.isAlive s = true → st.isAlive s = true
  member : st'.isAlive s = true → (∀ w', st'.watcher? s = some w' → w'.disposed = false) →
    ∀ c, s ∈ st'.channels.get c ↔ s ∈ st.channels.get c
  update : .update s ∈ st.agenda → .update s ∈ st'.agenda
  remember : ∀ v, .remember s v ∈ st'.agenda ↔ .remember s v ∈ st.agenda
  record : ∀ r, st.isObserved r = true → st'.records.get r = st.records.get r
  channel : ∀ c : CellId, c.index < st.cells.size →
    (st'.cells.get c).channel = (st.cells.get c).channel
  value : ∀ c : CellId, c.index < st.cells.size →
    (st'.cells.get c).value = (st.cells.get c).value ∨
      (st.isAlive s = true → s ∈ st.channels.get (st.cells.get c).channel →
        .update s ∈ st'.agenda)

namespace Keeps

variable {s : SubscriberId} {st st' : State}

/-- What leaves subscribers, channels and cells alone and only adds records or tasks. -/
theorem of_graph (hsubscribers : st'.subscribers = st.subscribers)
    (hchannels : ∀ c, st'.channels.get c = st.channels.get c)
    (hupdate : .update s ∈ st.agenda → .update s ∈ st'.agenda)
    (hremember : ∀ v, .remember s v ∈ st'.agenda ↔ .remember s v ∈ st.agenda)
    (hrecord : ∀ r, st.isObserved r = true → st'.records.get r = st.records.get r)
    (hcell : ∀ c : CellId, c.index < st.cells.size → st'.cells.get c = st.cells.get c) :
    Keeps s st st' where
  watcher w hw := ⟨w, (watcher?_congr hsubscribers).trans hw, rfl, rfl, rfl, rfl, id⟩
  unmade hs := (watcher?_congr hsubscribers).trans hs
  alive h := by
    rw [isAlive, hsubscribers] at h
    exact h
  member _ _ c := by rw [hchannels]
  update := hupdate
  remember := hremember
  record := hrecord
  channel c hc := by rw [hcell c hc]
  value c hc := .inl (by rw [hcell c hc])

/-- What leaves all but the subscriptions of others and the agenda alone. -/
theorem of_onlySubscriptions (hsame : OnlySubscriptions st st')
    (hwatcher : ∀ w, st.watcher? s = some w → ∃ w', st'.watcher? s = some w' ∧
      w'.root = w.root ∧ w'.path = w.path ∧ w'.reaction = w.reaction ∧ w'.seen = w.seen ∧
      (w'.disposed = false → w.disposed = false))
    (hunmade : st.watcher? s = none → st'.watcher? s = none)
    (halive : st'.isAlive s = true → st.isAlive s = true)
    (hmember : st'.isAlive s = true → (∀ w', st'.watcher? s = some w' → w'.disposed = false) →
      ∀ c, s ∈ st'.channels.get c ↔ s ∈ st.channels.get c)
    (hupdate : .update s ∈ st.agenda → .update s ∈ st'.agenda)
    (hremember : ∀ v, .remember s v ∈ st'.agenda ↔ .remember s v ∈ st.agenda) :
    Keeps s st st' where
  watcher := hwatcher
  unmade := hunmade
  alive := halive
  member := hmember
  update := hupdate
  remember := hremember
  record _ _ := by rw [hsame.records]
  channel _ _ := by rw [hsame.cells]
  value _ _ := .inl (by rw [hsame.cells])

/-- What leaves everything alone that a watcher depends on. -/
theorem of_same (hsubscribers : st'.subscribers = st.subscribers)
    (hchannels : st'.channels = st.channels) (hagenda : st'.agenda = st.agenda)
    (hrecords : st'.records = st.records) (hcells : st'.cells = st.cells) : Keeps s st st' := by
  apply of_graph hsubscribers
  · rw [hchannels]
    exact fun _ => rfl
  · rw [hagenda]
    exact id
  · rw [hagenda]
    exact fun _ => Iff.rfl
  · rw [hrecords]
    exact fun _ _ => rfl
  · rw [hcells]
    exact fun _ _ => rfl

protected theorem refl (s : SubscriberId) (st : State) : Keeps s st st :=
  of_same rfl rfl rfl rfl rfl

/-- A first task that is somebody else's may be dropped before. -/
theorem of_dropped {t : Task} {rest : List Task} (hagenda : st.agenda = t :: rest)
    (hupdate : t ≠ .update s) (hremember : ∀ v, t ≠ .remember s v)
    (h : Keeps s { st with agenda := rest } st') : Keeps s st st' := by
  refine { h with update := ?_, remember := ?_ }
  · intro hmem
    rw [hagenda] at hmem
    exact h.update ((List.mem_cons.mp hmem).resolve_left (Ne.symm hupdate))
  · intro v
    rw [hagenda, List.mem_cons]
    exact (h.remember v).trans (or_iff_right (Ne.symm (hremember v))).symm

/-- The tree does not matter. -/
theorem with_nodes (h : Keeps s st st') (nodes : Table .node Node) :
    Keeps s st { st' with nodes } :=
  ⟨h.watcher, h.unmade, h.alive, h.member, h.update, h.remember, h.record, h.channel, h.value⟩

/-- What others remember does not matter. -/
theorem remember_other (h : Keeps s st st') {t : SubscriberId} (hts : s ≠ t) (v : Value) :
    Keeps s st (st'.remember t v) := by
  have hwatcher : (st'.remember t v).watcher? s = st'.watcher? s := by
    rw [watcher?_remember, if_neg (Ne.symm hts)]
  have halive : (st'.remember t v).isAlive s = st'.isAlive s := isAlive_remember
  refine ⟨?_, ?_, ?_, ?_, h.update, h.remember, h.record, h.channel, h.value⟩
  · intro w hw
    rw [hwatcher]
    exact h.watcher w hw
  · rw [hwatcher]
    exact h.unmade
  · rw [halive]
    exact h.alive
  · intro ha hdisposed c
    rw [halive] at ha
    rw [hwatcher] at hdisposed
    exact h.member ha hdisposed c

/-- Tasks that do not concern the watcher may be put on the agenda. -/
theorem push_other (h : Keeps s st st') {tasks : List Task}
    (htasks : ∀ v, .remember s v ∉ tasks) : Keeps s st (st'.push tasks) := by
  refine { h with update := ?_, remember := ?_, value := ?_ }
  · intro hmem
    exact List.mem_append_right _ (h.update hmem)
  · intro v
    exact (List.mem_append.trans (or_iff_right (htasks v))).trans (h.remember v)
  · intro c hc
    exact (h.value c hc).imp_right fun htold ha hmem => List.mem_append_right _ (htold ha hmem)

protected theorem hold (t : SubscriberId) : Keeps s st (st.hold t) :=
  of_onlySubscriptions (onlySubscriptions_hold st t)
    (fun w hw => ⟨w, watcher?_hold.trans hw, rfl, rfl, rfl, rfl, id⟩) watcher?_hold.trans
    (fun h => isAlive_hold.symm.trans h) (fun _ _ _ => Iff.rfl) id fun _ => Iff.rfl

protected theorem release (t : SubscriberId) : Keeps s st (st.release t) := by
  refine of_onlySubscriptions (onlySubscriptions_release st t) ?_ ?_ ?_ ?_ ?_ ?_
  · intro w hw
    rw [watcher?_release, hw]
    split
    · exact ⟨_, rfl, rfl, rfl, rfl, rfl, id⟩
    · exact ⟨w, rfl, rfl, rfl, rfl, rfl, id⟩
  · intro hs
    rw [watcher?_release, hs]
    split <;> rfl
  · intro h
    rw [isAlive_iff, holders_release] at h
    rw [isAlive_iff]
    split at h
    · omega
    · exact h
  · intro h _ c
    rw [isAlive_iff, holders_release] at h
    refine mem_release.trans (and_iff_left ?_)
    -- Who is alive afterwards has not lost the last holder.
    rintro ⟨rfl, hlast, -⟩
    rw [if_pos rfl] at h
    omega
  · rw [agenda_release]
    exact id
  · intro v
    rw [agenda_release]

protected theorem dispose (t : SubscriberId) : Keeps s st (st.dispose t) := by
  refine of_onlySubscriptions (onlySubscriptions_dispose st t) ?_ ?_ ?_ ?_ ?_ ?_
  · intro w hw
    rw [watcher?_dispose, hw]
    split
    · exact ⟨_, rfl, rfl, rfl, rfl, rfl, nofun⟩
    · exact ⟨w, rfl, rfl, rfl, rfl, rfl, id⟩
  · intro hs
    rw [watcher?_dispose, hs]
    split <;> rfl
  · rw [isAlive_iff, isAlive_iff, holders_dispose]
    exact id
  · intro _ hlive c
    refine mem_dispose.trans (and_iff_left ?_)
    -- Who is not disposed of afterwards is not the one that was.
    rintro ⟨rfl, w, hw, -⟩
    have hw' : (st.dispose s).watcher? s = some { w with disposed := true, sources := [] } := by
      rw [watcher?_dispose, if_pos rfl, hw]
      rfl
    cases hlive _ hw'
  · rw [agenda_dispose]
    exact id
  · intro v
    rw [agenda_dispose]

/-- Telling the subscribers of a channel keeps everybody on their channels, as far as they are
alive. -/
protected theorem notify (c : ChannelId) : Keeps s st (st.notify c) := by
  refine of_onlySubscriptions (onlySubscriptions_notify st c) ?_ watcher?_notify.trans
    ?_ ?_ ?_ ?_
  · intro w hw
    exact ⟨w, watcher?_notify.trans hw, rfl, rfl, rfl, rfl, id⟩
  · intro h
    exact isAlive_notify.symm.trans h
  · intro h _ d
    exact mem_notify.trans (and_iff_left fun _ => isAlive_notify.symm.trans h)
  · intro h
    exact mem_agenda_notify.mpr (.inr h)
  · intro v
    rw [mem_agenda_notify]
    simp

protected theorem tell (t : SubscriberId) : Keeps s st (st.tell t) := by
  refine of_onlySubscriptions
    ((onlySubscriptions_hold st t).trans (onlySubscriptions_push (st.hold t) _)) ?_
    watcher?_hold.trans ?_ ?_ ?_ ?_
  · intro w hw
    exact ⟨w, watcher?_hold.trans hw, rfl, rfl, rfl, rfl, id⟩
  · intro h
    exact isAlive_hold.symm.trans h
  · intro _ _ _
    exact Iff.rfl
  · intro h
    exact mem_agenda_tell.mpr (.inr (.inr h))
  · intro v
    rw [mem_agenda_tell]
    simp

protected theorem newProbe (hs : s.index < st.subscribers.size) (c : Callback) :
    Keeps s st (st.newProbe c).2 :=
  of_onlySubscriptions ⟨rfl, rfl, rfl, rfl⟩
    (fun w hw => ⟨w, (watcher?_newProbe c).trans hw, rfl, rfl, rfl, rfl, id⟩)
    (watcher?_newProbe c).trans (fun h => by
      rw [isAlive_iff] at h ⊢
      rwa [newProbe, holders_newSubscriber, if_neg (Table.ne_fresh hs)] at h)
    (fun _ _ _ => Iff.rfl) id fun _ => Iff.rfl

protected theorem watch (hs : s.index < st.subscribers.size) (root : RecordId) (path : String)
    (reaction : Reaction) : Keeps s st (st.watch root path reaction).2 := by
  have hne := Table.ne_fresh hs
  refine of_onlySubscriptions (onlySubscriptions_watch st root path reaction) ?_ ?_ ?_ ?_
    ?_ ?_
  · intro w hw
    refine ⟨w, ?_, rfl, rfl, rfl, rfl, id⟩
    rw [watcher?_watch, if_neg hne, hw]
  · intro hs
    rw [watcher?_watch, if_neg hne, hs]
  · intro h
    rw [isAlive_iff, holders_watch, if_neg hne] at h
    exact isAlive_iff.mpr h
  · intro _ _ c
    exact mem_watch.trans (or_iff_left fun h => hne h.1)
  · rw [agenda_watch]
    exact id
  · intro v
    rw [agenda_watch]

/-- A watcher's rereading of its path does not concern the others. -/
protected theorem reread {t : SubscriberId} {w : Watcher} (hts : s ≠ t) :
    Keeps s st (st.reread t w) := by
  refine of_onlySubscriptions (onlySubscriptions_reread st t w) ?_ ?_ ?_ ?_ ?_ ?_
  · intro w' hw'
    refine ⟨w', ?_, rfl, rfl, rfl, rfl, id⟩
    rw [watcher?_reread, if_neg (Ne.symm hts), hw']
  · intro hs
    rw [watcher?_reread, if_neg (Ne.symm hts), hs]
  · rw [isAlive_iff, isAlive_iff, holders_reread]
    exact id
  · intro _ _ c
    exact mem_reread_ne hts
  · rw [agenda_reread]
    exact id
  · intro v
    rw [agenda_reread]

protected theorem assign (c : CellId) (v : Value) : Keeps s st (st.assign c v) := by
  unfold assign
  split
  · have hobs := observes_observeValue (st.store c v) v
    -- Storing and observing come first, and leave subscribers and channels alone.
    let stored := ((st.store c v).observeValue v).report (.changed (st.cells.get c).key)
    have hnotify : Keeps s stored (stored.notify (st.cells.get c).channel) := .notify _
    have hwatcher : ((st.store c v).observeValue v).watcher? s = st.watcher? s :=
      watcher?_congr hobs.subscribers
    have hcell : ∀ d : CellId, d.index < st.cells.size →
        ((st.store c v).observeValue v).cells.get d =
          if c = d then { st.cells.get d with value := v } else st.cells.get d := by
      intro d hd
      rw [hobs.cells d (by rw [store, Table.size_modify]; exact hd), store, Table.get_modify]
      simp [hd]
    have halive : ((st.store c v).observeValue v).isAlive s = st.isAlive s := by
      rw [isAlive, hobs.subscribers]
      rfl
    have hsame := onlySubscriptions_notify (((st.store c v).observeValue v).report
      (.changed (st.cells.get c).key)) (st.cells.get c).channel
    refine ⟨?_, ?_, ?_, ?_, ?_, ?_, ?_, ?_, ?_⟩
    · intro w hw
      exact hnotify.watcher w (hwatcher.trans hw)
    · intro hs
      exact hnotify.unmade (hwatcher.trans hs)
    · intro h
      exact halive.symm.trans (hnotify.alive h)
    · intro h hdisposed d
      refine (hnotify.member h hdisposed d).trans ?_
      show s ∈ ((st.store c v).observeValue v).channels.get d ↔ _
      rw [hobs.channels]
      rfl
    · intro h
      refine hnotify.update ?_
      show .update s ∈ ((st.store c v).observeValue v).agenda
      rw [hobs.agenda]
      exact h
    · intro u
      refine (hnotify.remember u).trans ?_
      show .remember s u ∈ ((st.store c v).observeValue v).agenda ↔ _
      rw [hobs.agenda]
      exact Iff.rfl
    · intro r hr
      rw [hsame.records]
      exact hobs.records r hr
    · intro d hd
      rw [hsame.cells]
      show (((st.store c v).observeValue v).cells.get d).channel = _
      rw [hcell d hd]
      split <;> rfl
    · intro d hd
      rw [hsame.cells]
      by_cases hcd : c = d
      · -- The cell that was written: everybody on its channel is about to be told.
        refine .inr fun hs hmem => ?_
        refine mem_agenda_notify.mpr (.inl ⟨s, mem_prune.mpr ⟨?_, fun _ => ?_⟩, .inl rfl⟩)
        · show s ∈ ((st.store c v).observeValue v).channels.get _
          rw [hobs.channels, hcd]
          exact hmem
        · exact halive.trans hs
      · refine .inl ?_
        show (((st.store c v).observeValue v).cells.get d).value = _
        rw [hcell d hd, if_neg hcd]
  · exact .refl s st

end Keeps

/-- An elementary change happens beside every subscriber that there is. -/
theorem Change.keeps {sc : Scope} {st st' : State}
    (h : Change sc st st') {s : SubscriberId} (hs : s.index < st.subscribers.size) :
    Keeps s st st' := by
  cases h with
  | log | tree | newView | editView | unbind | bind => exact .of_same rfl rfl rfl rfl rfl
  | push tasks hneutral =>
      refine .of_graph rfl (fun _ => rfl) (List.mem_append_right _) ?_ (fun _ _ => rfl)
        fun _ _ => rfl
      intro v
      refine List.mem_append.trans (or_iff_right fun hmem => ?_)
      exact isNeutral_ne_remember (hneutral _ hmem) s v rfl
  | drop t rest hagenda ht =>
      refine .of_graph rfl (fun _ => rfl) ?_ ?_ (fun _ _ => rfl) fun _ _ => rfl
      · intro hmem
        rw [hagenda] at hmem
        exact (List.mem_cons.mp hmem).resolve_left fun h => isNeutral_ne_update ht s h.symm
      · intro v
        rw [hagenda, List.mem_cons]
        exact (or_iff_right fun h => isNeutral_ne_remember ht s v h.symm).symm
  | newRecord =>
      exact .of_graph rfl (fun _ => rfl) id (fun _ => Iff.rfl)
        (fun r _ => Table.get_alloc_default st.records r) fun _ _ => rfl
  | newChannel =>
      exact .of_graph rfl (Table.get_alloc_default st.channels) id (fun _ => Iff.rfl)
        (fun _ _ => rfl) fun _ _ => rfl
  | newProbe c => exact .newProbe hs c
  | putField p v hp hv =>
      refine .of_graph rfl (fun _ => rfl) id (fun _ => Iff.rfl) ?_ fun _ _ => rfl
      intro r hr
      refine Table.get_modify_ne _ ?_ _
      rintro rfl
      rw [hp] at hr
      cases hr
  | assign c v hv => exact .assign c v
  | observe r hr =>
      have hobs := observes_observe st r
      exact .of_graph hobs.subscribers hobs.channels (by rw [hobs.agenda]; exact id)
        (fun v => by rw [hobs.agenda]) hobs.records hobs.cells
  | watch root path reaction hreaction hroot => exact .watch hs root path reaction
  | hold t ht => exact .hold t
  | release t ht => exact .release t
  | dispose t ht => exact .dispose t
  | tell t hknown ht => exact .tell t
  | letGo t rest hagenda =>
      exact .of_dropped hagenda nofun (fun _ => nofun) (.release t)
  | notify c => exact .notify c

/-! ## Following -/

namespace State

/-- Whether a watcher is on exactly the channels along its path. -/
def IsExact (st : State) (s : SubscriberId) (w : Watcher) : Prop :=
  ∀ c, s ∈ st.channels.get c ↔ c ∈ st.channelsRead w.root w.path

/-- The watcher `s`, if there is one, follows its path or is about to be told; `last?` is the
value that it was told last, if it was told any. -/
def Following (st : State) (s : SubscriberId) (last? : Option Value) : Prop :=
  ∀ w, st.watcher? s = some w → st.isObserved w.root = true ∧
    (st.isAlive s = true → w.disposed = false →
      .update s ∈ st.agenda ∨
        (st.IsExact s w ∧ (last?.getD w.seen).same (st.read w.root w.path) = true))

/-- A watcher goes on following its path, whatever happens beside it. -/
theorem Following.keep {st st' : State} {s : SubscriberId} {last? : Option Value}
    (h : st.Following s last?) (hst : Sound st) (hkeeps : Keeps s st st') :
    st'.Following s last? := by
  cases hw : st.watcher? s with
  | none =>
      intro w' hw'
      cases (hkeeps.unmade hw).symm.trans hw'
  | some w =>
      obtain ⟨w', hw', hroot, hpath, -, hseen, hdisposed⟩ := hkeeps.watcher w hw
      obtain ⟨hobserved, hfollows⟩ := h w hw
      intro w'' hw''
      cases hw'.symm.trans hw''
      rw [hroot, hpath, hseen]
      constructor
      · rw [isObserved, hkeeps.record w.root hobserved]
        exact hobserved
      · intro halive hlive
        by_cases htold : .update s ∈ st'.agenda
        · exact .inl htold
        have halive₀ := hkeeps.alive halive
        rcases hfollows halive₀ (hdisposed hlive) with hpending | ⟨hexact, hlast⟩
        · exact .inl (hkeeps.update hpending)
        -- Nobody is going to tell the watcher, so no cell along its path has changed.
        have hvalues : ∀ p ∈ (st.trail w.root w.path).visited, ∀ c, st.cell? p = some c →
            (st'.cells.get c).value = (st.cells.get c).value := by
          intro p hp c hc
          rcases hkeeps.value c (hst.cell?_lt hc) with hsame | htells
          · exact hsame
          · exact absurd (htells halive₀ ((hexact _).mpr (mem_channelsRead hp hc))) htold
        have hlive' : ∀ u, st'.watcher? s = some u → u.disposed = false := by
          intro u hu
          cases hw'.symm.trans hu
          exact hlive
        refine .inr ⟨?_, ?_⟩
        · intro c
          calc s ∈ st'.channels.get c
              ↔ s ∈ st.channels.get c := hkeeps.member halive hlive' c
            _ ↔ c ∈ st.channelsRead w.root w.path := hexact c
            _ ↔ c ∈ st'.channelsRead w'.root w'.path := by
              rw [hroot, hpath,
                channelsRead_eq hst hkeeps.record hobserved hvalues hkeeps.channel]
        · rw [read_eq hst hkeeps.record hobserved hvalues]
          exact hlast

/-- A new watcher on an observed record follows its path. -/
theorem following_watch {st : State} (hst : Consistent st) {root : RecordId}
    (hroot : st.isObserved root = true) (path : String) (reaction : Reaction) :
    (st.watch root path reaction).2.Following st.subscribers.fresh none := by
  have hgraph := (onlySubscriptions_watch st root path reaction).graph
  intro w hw
  rw [watcher?_watch, if_pos rfl] at hw
  cases hw
  refine ⟨?_, fun _ _ => .inr ⟨?_, ?_⟩⟩
  · rw [isObserved, hgraph.records]
    exact hroot
  · intro c
    -- Nobody of that identity was there before, so it is on the channels that it has just joined.
    have hnew : st.subscribers.fresh ∉ st.channels.get c := fun hmem =>
      Nat.lt_irrefl _ (hst.registered.member _ c hmem)
    rw [mem_watch, hgraph.channelsRead]
    constructor
    · rintro (hold | ⟨-, hread, -⟩)
      · exact absurd hold hnew
      · exact hread
    · intro hread
      exact .inr ⟨rfl, hread, channelsRead_lt hst.sound hread⟩
  · rw [hgraph.read]
    exact Value.same_self _

end State

end DataBinding
