import DataBinding.Proofs.Change

set_option autoImplicit false

/-! # Views own the watchers of their bindings

Nobody can get at the watchers of a view's bindings past the view. So while a binding lasts,
its watchers are held by the view itself and by whatever is on the agenda to let go of them, and
they are not disposed of (`Owned`).
-/

namespace DataBinding

namespace State

/-- Every subscriber that belongs to a view is held by the view once, and once more for every
time that the agenda lets go of it; it is a watcher of the view's data that is not disposed of,
and belongs to no other view. -/
structure Owned (st : State) : Prop where
  holders : ∀ v s, st.isBoundBy v s = true → st.holders s = 1 + st.agenda.count (.release s)
  watcher : ∀ v s, st.isBoundBy v s = true →
    ∃ w, st.watcher? s = some w ∧ w.disposed = false ∧ w.root = (st.view v).data
  unique : ∀ v v' s, st.isBoundBy v s = true → st.isBoundBy v' s = true → v = v'

theorem owned_empty : Owned {} := by
  have hunbound : ∀ v s, ¬ ({} : State).isBoundBy v s = true := by
    intro v s h
    rw [isBoundBy, view_eq (Nat.zero_le _)] at h
    cases h
  exact ⟨fun v s h => absurd h (hunbound v s), fun v s h => absurd h (hunbound v s),
    fun v v' s h => absurd h (hunbound v s)⟩

namespace Owned

variable {st st' : State}

theorem lt_size (h : Owned st) {v : ViewId} {s : SubscriberId} (hs : st.isBoundBy v s = true) :
    s.index < st.subscribers.size := by
  obtain ⟨w, hw, -⟩ := h.watcher v s hs
  exact lt_size_of_watcher? hw

/-- What binds nothing new keeps the views their watchers if it leaves these as they are and
holds each of them as often more as the agenda is going to let go of it. -/
theorem of_balanced (h : Owned st)
    (hbound : ∀ v s, st'.isBoundBy v s = true →
      st.isBoundBy v s = true ∧ (st'.view v).data = (st.view v).data)
    (hholders : ∀ s, st.isBound s = true →
      st'.holders s + st.agenda.count (.release s) = st.holders s + st'.agenda.count (.release s))
    (hwatcher : ∀ s, st.isBound s = true → ∀ w, st.watcher? s = some w →
      ∃ w', st'.watcher? s = some w' ∧ w'.disposed = w.disposed ∧ w'.root = w.root) :
    Owned st' := by
  refine ⟨?_, ?_, ?_⟩
  · intro v s hs
    have hs₀ := (hbound v s hs).1
    have hcount := hholders s (isBound_iff.mpr ⟨v, hs₀⟩)
    have hold := h.holders v s hs₀
    omega
  · intro v s hs
    obtain ⟨hs₀, hdata⟩ := hbound v s hs
    obtain ⟨w, hw, hdisposed, hroot⟩ := h.watcher v s hs₀
    obtain ⟨w', hw', hdisposed', hroot'⟩ := hwatcher s (isBound_iff.mpr ⟨v, hs₀⟩) w hw
    exact ⟨w', hw', hdisposed'.trans hdisposed, (hroot'.trans hroot).trans hdata.symm⟩
  · intro v v' s hs hs'
    exact h.unique v v' s (hbound v s hs).1 (hbound v' s hs').1

/-- What leaves the views alone. -/
theorem of_views (h : Owned st) (hviews : st'.views = st.views)
    (hholders : ∀ s, st.isBound s = true →
      st'.holders s + st.agenda.count (.release s) = st.holders s + st'.agenda.count (.release s))
    (hwatcher : ∀ s, st.isBound s = true → ∀ w, st.watcher? s = some w →
      ∃ w', st'.watcher? s = some w' ∧ w'.disposed = w.disposed ∧ w'.root = w.root) :
    Owned st' := by
  refine h.of_balanced ?_ hholders hwatcher
  intro v s hs
  rw [isBoundBy_congr hviews] at hs
  exact ⟨hs, by rw [view_congr hviews]⟩

/-- What leaves views, subscribers and agenda alone. -/
theorem of_same (h : Owned st) (hviews : st'.views = st.views)
    (hsubscribers : st'.subscribers = st.subscribers) (hagenda : st'.agenda = st.agenda) :
    Owned st' := by
  refine h.of_views hviews ?_ fun s _ w hw => ⟨w, (watcher?_congr hsubscribers).trans hw, rfl, rfl⟩
  intro s _
  rw [State.holders, hsubscribers, hagenda, State.holders]

/-- A task that lets go of nobody may be dropped. -/
theorem dropTask (h : Owned st) {t : Task} {rest : List Task} (hagenda : st.agenda = t :: rest)
    (ht : ∀ s, t ≠ .release s) : Owned { st with agenda := rest } := by
  refine h.of_views rfl ?_ fun _ _ w hw => ⟨w, hw, rfl, rfl⟩
  intro s _
  rw [hagenda, List.count_cons_of_ne (ht s)]
  rfl

end Owned

theorem count_release_neutral {tasks : List Task} (h : ∀ t ∈ tasks, t.isNeutral = true)
    (s : SubscriberId) : tasks.count (.release s) = 0 :=
  List.count_eq_zero.mpr fun hmem => isNeutral_ne_release (h _ hmem) s rfl

theorem count_release_updates (l : List SubscriberId) (s : SubscriberId) :
    (updates l).count (.release s) = l.count s := by
  induction l with
  | nil => rfl
  | cons t rest ih =>
      have hsplit : updates (t :: rest) = .update t :: .release t :: updates rest := rfl
      rw [hsplit, List.count_cons, List.count_cons, ih, List.count_cons]
      simp

namespace Owned

variable {st : State}

theorem notify (h : Owned st) (c : ChannelId) : Owned (st.notify c) := by
  refine h.of_views (onlySubscriptions_notify st c).views ?_ ?_
  · intro s hs
    obtain ⟨v, hv⟩ := isBound_iff.mp hs
    have halive : (st.prune c).isAlive s = true := by
      rw [isAlive_prune, isAlive_iff, h.holders v s hv]
      omega
    have hheld : (st.notify c).holders s =
        st.holders s + ((st.prune c).channels.get c).count s := holders_holdAll _ halive
    -- Each telling holds the subscriber once more, and puts one letting go on the agenda.
    rw [hheld, agenda_notify, List.count_append, count_release_updates]
    omega
  · intro s _ w hw
    exact ⟨w, watcher?_notify.trans hw, rfl, rfl⟩

theorem assign (h : Owned st) (c : CellId) (v : Value) : Owned (st.assign c v) := by
  unfold State.assign
  split
  · have hobs := observes_observeValue (st.store c v) v
    have hstored : Owned ((st.store c v).observeValue v) :=
      h.of_same hobs.views hobs.subscribers hobs.agenda
    have hreported : Owned (((st.store c v).observeValue v).report
        (.changed (st.cells.get c).key)) := hstored.of_same rfl rfl rfl
    exact hreported.notify _
  · exact h

/-- An unbound subscriber is none of those that belong to a view. -/
theorem ne_of_unbound {s t : SubscriberId} (hs : st.isBound s = true) (ht : st.isBound t = false) :
    t ≠ s := by
  rintro rfl
  rw [hs] at ht
  cases ht

theorem release (h : Owned st) {t : SubscriberId} (ht : st.isBound t = false) :
    Owned (st.release t) := by
  refine h.of_views (onlySubscriptions_release st t).views ?_ ?_
  · intro s hs
    rw [holders_release, if_neg (ne_of_unbound hs ht), agenda_release]
  · intro s hs w hw
    rw [watcher?_release, if_neg fun hst => ne_of_unbound hs ht hst.1]
    exact ⟨w, hw, rfl, rfl⟩

theorem dispose (h : Owned st) {t : SubscriberId} (ht : st.isBound t = false) :
    Owned (st.dispose t) := by
  refine h.of_views (onlySubscriptions_dispose st t).views ?_ ?_
  · intro s _
    rw [holders_dispose, agenda_dispose]
  · intro s hs w hw
    rw [watcher?_dispose, if_neg (ne_of_unbound hs ht)]
    exact ⟨w, hw, rfl, rfl⟩

/-- Letting go of a subscriber as the agenda says leaves the views their watchers, since the
agenda's is not the last holder of these. -/
theorem letGo (h : Owned st) {t : SubscriberId} {rest : List Task}
    (hagenda : st.agenda = .release t :: rest) :
    Owned (({ st with agenda := rest } : State).release t) := by
  have hview := (onlySubscriptions_release { st with agenda := rest } t).views
  have hcount : ∀ s, st.agenda.count (.release s) =
      rest.count (.release s) + if t = s then 1 else 0 := by
    intro s
    rw [hagenda, List.count_cons]
    simp
  have hheld : ∀ s, ({ st with agenda := rest } : State).holders s = st.holders s := fun _ => rfl
  refine h.of_views hview ?_ ?_
  · intro s hs
    obtain ⟨v, hv⟩ := isBound_iff.mp hs
    have hholders := h.holders v s hv
    have hafter : (({ st with agenda := rest } : State).release t).agenda = rest :=
      agenda_release ..
    rw [holders_release, hafter, hheld]
    rw [hcount] at hholders ⊢
    split
    · rename_i hts
      rw [if_pos hts] at hholders
      omega
    · rw [Nat.add_zero]
  · intro s hs w hw
    obtain ⟨v, hv⟩ := isBound_iff.mp hs
    have hholders := h.holders v s hv
    rw [watcher?_release]
    refine ⟨w, (if_neg ?_).trans hw, rfl, rfl⟩
    -- Were it the last holder, the view would hold the watcher no more.
    rintro ⟨rfl, hlast⟩
    rw [hcount, if_pos rfl] at hholders
    rw [hheld] at hlast
    omega

theorem remember (h : Owned st) (t : SubscriberId) (v : Value) : Owned (st.remember t v) := by
  refine h.of_views rfl ?_ ?_
  · intro s _
    rw [State.remember, holders_updateWatcher]
    rfl
  · intro s _ w hw
    rw [watcher?_remember, hw]
    split
    · exact ⟨_, rfl, rfl, rfl⟩
    · exact ⟨w, rfl, rfl, rfl⟩

theorem reread (h : Owned st) (t : SubscriberId) (w : Watcher) : Owned (st.reread t w) := by
  refine h.of_views (onlySubscriptions_reread st t w).views ?_ ?_
  · intro s _
    rw [holders_reread, agenda_reread]
  · intro s _ w' hw'
    rw [watcher?_reread, hw']
    split
    · exact ⟨_, rfl, rfl, rfl⟩
    · exact ⟨w', rfl, rfl, rfl⟩

end Owned

end State

open State

/-- Elementary changes leave the views their watchers. -/
theorem Change.owned {sc : Scope} {st st' : State}
    (h : Change sc st st') (ho : Owned st) : Owned st' := by
  -- A subscriber that belongs to a view is older than one that is made now.
  have hknown : ∀ s, st.isBound s = true → s ≠ st.subscribers.fresh := by
    intro s hs
    obtain ⟨v, hv⟩ := isBound_iff.mp hs
    exact Table.ne_fresh (ho.lt_size hv)
  cases h with
  | log arrays journal => exact ho.of_same rfl rfl rfl
  | tree nodes hsize hkind => exact ho.of_same rfl rfl rfl
  | push tasks hneutral =>
      refine ho.of_views rfl ?_ fun _ _ w hw => ⟨w, hw, rfl, rfl⟩
      intro s _
      rw [agenda_push, List.count_append, count_release_neutral hneutral, Nat.zero_add]
      rfl
  | drop t rest hagenda ht => exact ho.dropTask hagenda (isNeutral_ne_release ht)
  | newRecord => exact ho.of_same rfl rfl rfl
  | newChannel => exact ho.of_same rfl rfl rfl
  | newProbe c =>
      refine ho.of_views rfl ?_ fun s _ w hw => ⟨w, (watcher?_newProbe c).trans hw, rfl, rfl⟩
      intro s hs
      have hholders : (st.newProbe c).2.holders s = st.holders s := by
        rw [State.newProbe, holders_newSubscriber, if_neg (hknown s hs)]
      rw [hholders]
      rfl
  | putField p v hp hv => exact ho.of_same rfl rfl rfl
  | assign c v hv => exact ho.assign c v
  | observe r hr =>
      have hobs := observes_observe st r
      exact ho.of_same hobs.views hobs.subscribers hobs.agenda
  | watch root path reaction hreaction hroot =>
      refine ho.of_views (onlySubscriptions_watch st root path reaction).views ?_ ?_
      · intro s hs
        rw [holders_watch, if_neg (hknown s hs), agenda_watch]
      · intro s hs w hw
        rw [watcher?_watch, if_neg (hknown s hs)]
        exact ⟨w, hw, rfl, rfl⟩
  | hold t ht =>
      refine ho.of_views rfl ?_ fun s _ w hw => ⟨w, watcher?_hold.trans hw, rfl, rfl⟩
      intro s hs
      rw [holders_hold, if_neg fun hts => Owned.ne_of_unbound hs ht hts.1]
      rfl
  | release t ht => exact ho.release ht
  | dispose t ht => exact ho.dispose ht
  | tell t hsize ht =>
      refine ho.of_views rfl ?_ fun s _ w hw => ⟨w, watcher?_hold.trans hw, rfl, rfl⟩
      intro s hs
      have hts := Owned.ne_of_unbound hs ht
      have hholders : (st.tell t).holders s = st.holders s := by
        show (st.hold t).holders s = _
        rw [holders_hold, if_neg fun h => hts h.1]
      have hagenda : (st.tell t).agenda = .update t :: .release t :: st.agenda := rfl
      have hcount : (st.tell t).agenda.count (.release s) = st.agenda.count (.release s) := by
        rw [hagenda, List.count_cons, List.count_cons]
        simp [hts]
      rw [hholders, hcount]
  | letGo t rest hagenda => exact ho.letGo hagenda
  | notify c => exact ho.notify c
  | newView view hbindings hdata =>
      refine ho.of_balanced ?_ (fun _ _ => rfl) fun _ _ w hw => ⟨w, hw, rfl, rfl⟩
      intro v s hs
      have hview := view_alloc st view v
      rw [isBoundBy, hview] at hs
      rw [hview]
      split at hs
      · rw [hbindings] at hs
        cases hs
      · rename_i hne
        rw [if_neg hne]
        exact ⟨hs, rfl⟩
  | editView v f hf =>
      refine ho.of_balanced ?_ (fun _ _ => rfl) fun _ _ w hw => ⟨w, hw, rfl, rfl⟩
      intro u s hs
      have hview := view_modify st v u f
      rw [isBoundBy, hview] at hs
      rw [hview]
      split at hs
      · rename_i hvu
        rw [if_pos hvu, (hf _).1]
        rw [(hf _).2] at hs
        exact ⟨hs, rfl⟩
      · rename_i hvu
        rw [if_neg hvu]
        exact ⟨hs, rfl⟩
  | unbind v =>
      refine ho.of_balanced ?_ (fun _ _ => rfl) fun _ _ w hw => ⟨w, hw, rfl, rfl⟩
      intro u s hs
      have hview := view_modify st v u fun b => { b with bindings := [] }
      rw [isBoundBy, hview] at hs
      rw [hview]
      split at hs
      · cases hs
      · rename_i hvu
        rw [if_neg hvu]
        exact ⟨hs, rfl⟩
  | bind v bs hv hbs =>
      have hview := fun u => view_modify st v u fun b => { b with bindings := bs }
      -- A subscriber is bound as before, or it is new with the view `v`.
      have hbound : ∀ u s, ({ st with views := st.views.modify v fun b =>
          { b with bindings := bs } } : State).isBoundBy u s = true →
          (u ≠ v ∧ st.isBoundBy u s = true) ∨ (u = v ∧ ∃ b ∈ bs, s ∈ b.watchers) := by
        intro u s hs
        rw [isBoundBy, hview] at hs
        by_cases huv : u = v
        · rw [huv, if_pos ⟨rfl, hv⟩] at hs
          exact .inr ⟨huv, by simpa using hs⟩
        · rw [if_neg fun h => huv h.1.symm] at hs
          exact .inl ⟨huv, hs⟩
      have hdata : ∀ u, (({ st with views := st.views.modify v fun b =>
          { b with bindings := bs } } : State).view u).data = (st.view u).data := by
        intro u
        rw [hview]
        split <;> rfl
      refine ⟨?_, ?_, ?_⟩
      · intro u s hs
        rcases hbound u s hs with ⟨-, hold⟩ | ⟨-, b, hb, hsb⟩
        · exact ho.holders u s hold
        · exact (hbs b hb s hsb).2.2.1
      · intro u s hs
        rw [hdata]
        rcases hbound u s hs with ⟨-, hold⟩ | ⟨rfl, b, hb, hsb⟩
        · exact ho.watcher u s hold
        · exact (hbs b hb s hsb).2.2.2
      · intro u u' s hs hs'
        rcases hbound u s hs with ⟨-, hold⟩ | ⟨rfl, b, hb, hsb⟩
        · rcases hbound u' s hs' with ⟨-, hold'⟩ | ⟨rfl, b', hb', hsb'⟩
          · exact ho.unique u u' s hold hold'
          · have hbound := isBound_iff.mpr ⟨u, hold⟩
            exact absurd rfl (Owned.ne_of_unbound hbound (hbs b' hb' s hsb').2.1)
        · rcases hbound u' s hs' with ⟨-, hold'⟩ | ⟨rfl, -⟩
          · have hbound := isBound_iff.mpr ⟨u', hold'⟩
            exact absurd rfl (Owned.ne_of_unbound hbound (hbs b hb s hsb).2.1)
          · rfl

end DataBinding
