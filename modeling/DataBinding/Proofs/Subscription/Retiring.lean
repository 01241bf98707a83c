import DataBinding.Proofs.Subscription.Disposal
import DataBinding.Proofs.Template.Demand

set_option autoImplicit false

/-! # Watchers that the host leaves alone

Whatever the host does by hand with other subscribers, a watcher that it leaves alone lists every
channel that it is on, and none once it is disposed of (`Lists`). So to retire such a watcher, that
is, to dispose of it and to let go of it, takes it off all channels and concerns nobody else.
-/

namespace DataBinding

open State Relation

/-! ## Subscribing by hand -/

/-- The subscribers that an operation puts on channels or takes off them by hand. -/
def Operation.handled : Operation → List SubscriberId
  | .subscribe _ s | .unsubscribe _ s | .leave _ s | .leaveAbandoned _ _ s => [s]
  | .track t .. | .trackCell t _ => [t.reader]
  | _ => []

/-- Whether the move puts the subscriber on a channel by hand, or takes it off one. -/
def Move.handles (m : Move) (s : SubscriberId) : Bool :=
  match m with
  | .operate o => s ∈ o.handled
  | .work | .enter | .finish => false

theorem Move.handles_of_isHandsOff {m : Move} (h : m.isHandsOff = true) (s : SubscriberId) :
    m.handles s = false := by
  cases m with
  | work | enter | finish => rfl
  | operate o => cases o <;> first | rfl | cases h

namespace State

variable {st st' : State} {s t : SubscriberId}

/-- Who is on a channel exists. -/
def Members (st : State) : Prop := ∀ s c, s ∈ st.channels.get c → s.index < st.subscribers.size

namespace Members

/-- Nobody joins a channel. -/
theorem of_imp (h : Members st) (hsize : st.subscribers.size ≤ st'.subscribers.size)
    (hmem : ∀ s c, s ∈ st'.channels.get c → s ∈ st.channels.get c) : Members st' :=
  fun s c hs => Nat.lt_of_lt_of_le (h s c (hmem s c hs)) hsize

theorem congr (h : Members st) (hsubscribers : st'.subscribers = st.subscribers)
    (hchannels : ∀ c, st'.channels.get c = st.channels.get c) : Members st' :=
  h.of_imp (Nat.le_of_eq (by rw [hsubscribers])) fun s c hs => hchannels c ▸ hs

theorem fresh_not_mem (h : Members st) (c : ChannelId) :
    st.subscribers.fresh ∉ st.channels.get c :=
  fun hc => Nat.lt_irrefl _ (h _ c hc)

theorem watch (h : Members st) (root : RecordId) (path : String) (reaction : Reaction) :
    Members (st.watch root path reaction).2 := by
  intro s c hs
  rw [size_subscribers_watch]
  rcases mem_watch.mp hs with hold | ⟨rfl, -⟩
  · exact Nat.lt_succ_of_lt (h s c hold)
  · exact Nat.lt_succ_self _

theorem release (h : Members st) (s : SubscriberId) : Members (st.release s) :=
  h.of_imp (Nat.le_of_eq (size_subscribers_release st s).symm) fun _ _ ht => (mem_release.mp ht).1

theorem reread (h : Members st) {w : Watcher} (hw : st.watcher? s = some w) :
    Members (st.reread s w) := by
  intro t c ht
  rw [size_subscribers_reread]
  by_cases hts : t = s
  · exact hts ▸ lt_size_of_watcher? hw
  · exact h t c ((mem_reread_ne hts).mp ht)

end Members

/-- The subscriber `s` is a watcher that lists every channel that it is on, and none once it is
disposed of. -/
def Lists (st : State) (s : SubscriberId) : Prop :=
  ∃ w, st.watcher? s = some w ∧ (∀ c, s ∈ st.channels.get c → c ∈ w.sources) ∧
    (w.disposed = true → w.sources = [])

namespace Lists

theorem of_imp (h : Lists st s) (hwatcher : st'.watcher? s = st.watcher? s)
    (hmem : ∀ c, s ∈ st'.channels.get c → s ∈ st.channels.get c) : Lists st' s := by
  obtain ⟨w, hw, hlisted, hdisposed⟩ := h
  exact ⟨w, hwatcher.trans hw, fun c hc => hlisted c (hmem c hc), hdisposed⟩

theorem congr (h : Lists st s) (hsubscribers : st'.subscribers = st.subscribers)
    (hchannels : ∀ c, st'.channels.get c = st.channels.get c) : Lists st' s :=
  h.of_imp (watcher?_congr hsubscribers) fun c hc => hchannels c ▸ hc

theorem lt_size (h : Lists st s) : s.index < st.subscribers.size := by
  obtain ⟨w, hw, -⟩ := h
  exact lt_size_of_watcher? hw

theorem release (h : Lists st s) (t : SubscriberId) : Lists (st.release t) s := by
  obtain ⟨w, hw, hlisted, hdisposed⟩ := h
  have hwatcher : (st.release t).watcher? s = _ := watcher?_release
  by_cases hlast : t = s ∧ st.holders t ≤ 1
  · -- The last holder went: the watcher is on none of its channels any more.
    obtain ⟨rfl, hholders⟩ := hlast
    rw [if_pos ⟨rfl, hholders⟩, hw] at hwatcher
    refine ⟨_, hwatcher, fun c hc => ?_, fun _ => rfl⟩
    obtain ⟨hmem, hnot⟩ := mem_release.mp hc
    exact absurd ⟨rfl, hholders, w, hw, hlisted c hmem⟩ hnot
  · rw [if_neg hlast, hw] at hwatcher
    exact ⟨w, hwatcher, fun c hc => hlisted c (mem_release.mp hc).1, hdisposed⟩

theorem dispose (h : Lists st s) (t : SubscriberId) : Lists (st.dispose t) s := by
  obtain ⟨w, hw, hlisted, hdisposed⟩ := h
  have hwatcher : (st.dispose t).watcher? s = _ := watcher?_dispose
  by_cases hts : t = s
  · subst hts
    rw [if_pos rfl, hw] at hwatcher
    refine ⟨_, hwatcher, fun c hc => ?_, fun _ => rfl⟩
    obtain ⟨hmem, hnot⟩ := mem_dispose.mp hc
    exact absurd ⟨rfl, w, hw, hlisted c hmem⟩ hnot
  · rw [if_neg hts, hw] at hwatcher
    exact ⟨w, hwatcher, fun c hc => hlisted c (mem_dispose.mp hc).1, hdisposed⟩

theorem watch (h : Lists st s) (root : RecordId) (path : String) (reaction : Reaction) :
    Lists (st.watch root path reaction).2 s := by
  have hs : s ≠ st.subscribers.fresh := Table.ne_fresh h.lt_size
  refine h.of_imp ?_ fun c hc => ?_
  · rw [watcher?_watch, if_neg hs]
  · exact (mem_watch.mp hc).resolve_right fun hnew => hs hnew.1

theorem watch_fresh (h : Members st) (root : RecordId) (path : String) (reaction : Reaction) :
    Lists (st.watch root path reaction).2 st.subscribers.fresh := by
  refine ⟨st.firstWatcher root path reaction, ?_, fun c hc => ?_, nofun⟩
  · rw [watcher?_watch, if_pos rfl]
  · refine mem_firstWatcher_sources.mpr ⟨?_, hc⟩
    rcases mem_watch.mp hc with hold | ⟨-, hread, -⟩
    · exact absurd hold (h.fresh_not_mem c)
    · exact hread

theorem reread (h : Lists st s) {w : Watcher} (hw : st.watcher? t = some w)
    (hlive : w.disposed = false) : Lists (st.reread t w) s := by
  by_cases hts : t = s
  · subst hts
    obtain ⟨w', hw', hlisted, -⟩ := h
    obtain rfl : w' = w := Option.some.inj (hw'.symm.trans hw)
    exact ⟨_, watcher?_reread_self hw, fun c => (mem_reread hlisted).mp,
      fun hdisposed => Bool.noConfusion (hlive.symm.trans hdisposed)⟩
  · refine h.of_imp ?_ fun c hc => (mem_reread_ne (Ne.symm hts)).mp hc
    rw [watcher?_reread, if_neg hts]

theorem remember (h : Lists st s) (t : SubscriberId) (v : Value) : Lists (st.remember t v) s := by
  obtain ⟨w, hw, hlisted, hdisposed⟩ := h
  have hwatcher : (st.remember t v).watcher? s = _ := watcher?_remember
  split at hwatcher
  · rw [hw] at hwatcher
    exact ⟨_, hwatcher, hlisted, hdisposed⟩
  · exact ⟨w, hwatcher.trans hw, hlisted, hdisposed⟩

end Lists

end State

/-! ## What a move does -/

section Moves

variable {lib : Liberty} {st st' : State} {s : SubscriberId}

theorem Effect.members (h : Effect lib st st') (hst : Members st) : Members st' := by
  cases h with
  | aside | push | drop | newRecord | putField | store => exact hst.congr rfl fun _ => rfl
  | define p v => exact hst.congr rfl (Table.get_alloc_default st.channels)
  | observe r =>
      have hobserves := observes_observe st r
      exact hst.congr hobserves.subscribers hobserves.channels
  | newChannel => exact hst.congr rfl (Table.get_alloc_default st.channels)
  | subscribe c s =>
      intro t d ht
      rw [subscribers_subscribe]
      rcases mem_subscribe.mp ht with hold | ⟨-, rfl, halive, -⟩
      · exact hst t d hold
      · exact lt_size_of_isAlive halive
  | unsubscribe c s => exact hst.of_imp (Nat.le_refl _) fun t d ht => (mem_unsubscribe.mp ht).1
  | newProbe c =>
      exact hst.of_imp ((Table.size_alloc ..).symm ▸ Nat.le_succ _) fun _ _ => id
  | watch root path reaction => exact hst.watch root path reaction
  | hold s => exact hst.of_imp (Nat.le_of_eq (size_subscribers_hold st s).symm) fun _ _ => id
  | release s => exact hst.release s
  | dispose s =>
      exact hst.of_imp (Nat.le_of_eq (size_subscribers_dispose st s).symm)
        fun _ _ ht => (mem_dispose.mp ht).1
  | tell s =>
      exact hst.of_imp (Nat.le_of_eq (size_subscribers_hold st s).symm) fun _ _ => id
  | letGo s rest =>
      have hdropped : Members { st with agenda := rest } := hst.congr rfl fun _ => rfl
      exact hdropped.release s
  | notify c =>
      exact hst.of_imp (Nat.le_of_eq (size_subscribers_notify st c).symm)
        fun _ _ ht => (mem_notify.mp ht).1

theorem Effects.members (h : Effects lib st st') (hst : Members st) : Members st' := by
  induction h with
  | refl => exact hst
  | tail _ hstep ih => exact hstep.members ih

theorem Effect.lists (h : Effect lib st st') (hands : ¬ lib.byHand) (hs : Lists st s) :
    Lists st' s := by
  cases h with
  | aside | push | drop | newRecord | putField | store => exact hs.congr rfl fun _ => rfl
  | define p v => exact hs.congr rfl (Table.get_alloc_default st.channels)
  | observe r =>
      have hobserves := observes_observe st r
      exact hs.congr hobserves.subscribers hobserves.channels
  | newChannel => exact hs.congr rfl (Table.get_alloc_default st.channels)
  | subscribe c s h => exact absurd h hands
  | unsubscribe c s h => exact absurd h hands
  | newProbe c => exact hs.of_imp (watcher?_newProbe c) fun _ => id
  | watch root path reaction => exact hs.watch root path reaction
  | hold t => exact hs.of_imp watcher?_hold fun _ => id
  | release t => exact hs.release t
  | dispose t => exact hs.dispose t
  | tell t => exact hs.of_imp watcher?_hold fun _ => id
  | letGo t rest =>
      have hdropped : Lists { st with agenda := rest } s := hs.congr rfl fun _ => rfl
      exact hdropped.release t
  | notify c => exact hs.of_imp watcher?_notify fun _ ht => (mem_notify.mp ht).1

theorem Effects.lists (h : Effects lib st st') (hands : ¬ lib.byHand) (hs : Lists st s) :
    Lists st' s := by
  induction h with
  | refl => exact hs
  | tail _ hstep ih => exact hstep.lists hands ih

theorem Telling.lists {t : SubscriberId} (h : Telling st t st') (hs : Lists st s) :
    Lists st' s := by
  cases h with
  | probe c => exact hs.congr rfl fun _ => rfl
  | disposed => exact hs
  | unchanged w hw hlive => exact hs.reread hw hlive
  | shown w n hw hlive =>
      have hshown : Lists ((st.reread t w).setText n (st.read w.root w.path).display) s := by
        rw [setText_rest]
        exact (hs.reread hw hlive).congr rfl fun _ => rfl
      exact hshown.remember t _
  | valued w n nodes hw hlive =>
      have hvalued : Lists { st.reread t w with nodes } s :=
        (hs.reread hw hlive).congr rfl fun _ => rfl
      exact hvalued.remember t _
  | called w c hw hlive => exact (hs.reread hw hlive).congr rfl fun _ => rfl

theorem Telling.members {t : SubscriberId} (h : Telling st t st') (hst : Members st) :
    Members st' := by
  have hremember : ∀ {st₁ : State} (v : Value), Members st₁ → Members (st₁.remember t v) :=
    fun _ hst₁ => hst₁.of_imp (Nat.le_of_eq (size_subscribers_updateWatcher _ t _).symm)
      fun _ _ => id
  cases h with
  | probe c => exact hst.congr rfl fun _ => rfl
  | disposed => exact hst
  | unchanged w hw hlive => exact hst.reread hw
  | shown w n hw hlive =>
      have hshown : Members ((st.reread t w).setText n (st.read w.root w.path).display) := by
        rw [setText_rest]
        exact (hst.reread hw).congr rfl fun _ => rfl
      exact hremember _ hshown
  | valued w n nodes hw hlive =>
      have hvalued : Members { st.reread t w with nodes } := (hst.reread hw).congr rfl fun _ => rfl
      exact hremember _ hvalued
  | called w c hw hlive => exact (hst.reread hw).congr rfl fun _ => rfl

/-- What is done by hand concerns the subscribers that are handled, and nobody else. -/
theorem Operation.spares {o : Operation} (hbyHand : o.isByHand = true) (hs : s ∉ o.handled) :
    (o.run st).watcher? s = st.watcher? s ∧
      ∀ c, s ∈ (o.run st).channels.get c → s ∈ st.channels.get c := by
  cases o with
  | subscribe c t =>
      have hst : s ≠ t := fun h => hs (List.mem_singleton.mpr h)
      exact ⟨watcher?_congr (subscribers_subscribe st c t),
        fun d hd => (mem_subscribe.mp hd).resolve_right fun hnew => hst hnew.2.1⟩
  | unsubscribe c t => exact ⟨rfl, fun d hd => (mem_unsubscribe.mp hd).1⟩
  | leave sources t => exact ⟨watcher?_leave sources, fun d hd => (mem_leave.mp hd).1⟩
  | leaveAbandoned previous next t => exact ⟨watcher?_leave _, fun d hd => (mem_leave.mp hd).1⟩
  | track tr root path =>
      have hst : s ≠ tr.reader := fun h => hs (List.mem_singleton.mpr h)
      exact ⟨watcher?_track, fun d hd => (mem_track.mp hd).resolve_right fun hnew => hst hnew.2.1⟩
  | trackCell tr c =>
      have hst : s ≠ tr.reader := fun h => hs (List.mem_singleton.mpr h)
      exact ⟨watcher?_congr (subscribers_subscribe st _ tr.reader),
        fun d hd => (mem_subscribe.mp hd).resolve_right fun hnew => hst hnew.2.1⟩
  | _ => cases hbyHand

/-- A watcher that is left alone keeps to its list. -/
theorem Transition.lists (t : Transition) (possible : t.move.isPossible t.before = true)
    (hands : t.move.handles s = false) (hs : Lists t.before s) : Lists t.after s := by
  cases hhandsOff : t.move.isHandsOff with
  | true =>
      cases t.deed possible with
      | told u rest hmove hagenda hafter =>
          have hdropped : Lists { t.before with agenda := rest } s := hs.congr rfl fun _ => rfl
          exact (Telling.of_update hafter).lists hdropped
      | kept u v rest hmove hagenda hafter =>
          have hdropped : Lists { t.before with agenda := rest } s := hs.congr rfl fun _ => rfl
          exact hafter ▸ hdropped.remember u v
      | done h => exact h.lists (Move.not_byHand hhandsOff) hs
  | false =>
      cases hmove : t.move with
      | work | enter | finish => rw [hmove] at hhandsOff; cases hhandsOff
      | operate o =>
          have hafter : t.after = o.run t.before := by rw [Transition.after, hmove, Move.run]
          rw [hmove] at hhandsOff hands
          have hspares : (o.run t.before).watcher? s = t.before.watcher? s ∧
              ∀ c, s ∈ (o.run t.before).channels.get c → s ∈ t.before.channels.get c :=
            o.spares (by simpa [Move.isHandsOff] using hhandsOff) (of_decide_eq_false hands)
          exact hafter ▸ hs.of_imp hspares.1 hspares.2

theorem Transition.members (t : Transition) (possible : t.move.isPossible t.before = true)
    (hst : Members t.before) : Members t.after := by
  cases t.deed possible with
  | told u rest hmove hagenda hafter =>
      have hdropped : Members { t.before with agenda := rest } := hst.congr rfl fun _ => rfl
      exact (Telling.of_update hafter).members hdropped
  | kept u v rest hmove hagenda hafter =>
      have hkept : Members (({ t.before with agenda := rest } : State).remember u v) :=
        hst.of_imp (Nat.le_of_eq (size_subscribers_updateWatcher t.before u _).symm) fun _ _ => id
      exact hafter ▸ hkept
  | done h => exact h.members hst

/-- In any run, who is on a channel exists. -/
theorem Run.members {ts : List Transition} (h : Run ts st) : Members st := by
  induction h with
  | start => exact fun _ _ => nofun
  | @move ts st m _ possible ih => exact Transition.members ⟨st, m⟩ possible ih

end Moves

/-! ## To retire a watcher -/

/-- A watcher that is disposed of and has left its channels. -/
def Watcher.retired (w : Watcher) : Watcher := { w with disposed := true, sources := [] }

namespace State

variable {st : State} {s t : SubscriberId}

/-- Disposes of a watcher and lets go of it. -/
def retire (st : State) (s : SubscriberId) : State := (st.dispose s).release s

theorem watcher?_retire : (st.retire s).watcher? t =
    if s = t then (st.watcher? t).map Watcher.retired else st.watcher? t := by
  rw [retire, watcher?_release, watcher?_dispose]
  by_cases hst : s = t
  · simp only [hst, true_and, if_true]
    split
    · rw [Option.map_map]
      rfl
    · rfl
  · simp only [hst, false_and, if_false]

/-- Who is not retired is not concerned. -/
theorem get?_retire (h : s ≠ t) :
    (st.retire s).subscribers.get? t = st.subscribers.get? t := by
  have hdispose : ∀ st : State, (st.dispose s).subscribers.get? t = st.subscribers.get? t := by
    intro st
    unfold dispose
    split
    · rw [subscribers_leave]
      exact Table.get?_modify_ne _ h _
    · rfl
  have hrelease : ∀ st : State, (st.release s).subscribers.get? t = st.subscribers.get? t := by
    intro st
    unfold release
    simp only
    split
    · exact Table.get?_modify_ne _ h _
    · split
      · refine (Table.get?_modify_ne _ h _).trans ?_
        rw [subscribers_leave]
        exact Table.get?_modify_ne _ h _
      · exact Table.get?_modify_ne _ h _
  rw [retire, hrelease, hdispose]

/-- To let go of a watcher that lists no channels is to leave the channels as they are. -/
theorem channels_release (h : ∀ w, st.watcher? s = some w → w.sources = []) :
    (st.release s).channels = st.channels := by
  have hsame : ({ st with subscribers := st.subscribers.modify s fun b =>
      { b with holders := (st.subscribers.get s).holders - 1 } } : State).watcher? s =
      st.watcher? s :=
    watcher?_modify fun _ => rfl
  unfold release
  simp only [hsame]
  split
  · rfl
  · split
    · rename_i w hw
      rw [h w hw]
      rfl
    · rfl

/-- A watcher that lists every channel that it is on is off all of them when it is retired, and
everybody else stays. -/
theorem Lists.get_retire (h : Lists st s) (c : ChannelId) :
    (st.retire s).channels.get c = (st.channels.get c).filter (· ≠ s) := by
  obtain ⟨w, hw, hlisted, -⟩ := h
  have hnone : ∀ w', (st.dispose s).watcher? s = some w' → w'.sources = [] := by
    intro w' hw'
    rw [watcher?_dispose, if_pos rfl, hw] at hw'
    cases hw'
    rfl
  rw [State.retire, channels_release hnone]
  simp only [State.dispose, hw]
  exact get_leave_of_listed (st.updateWatcher s _) hlisted c

theorem Lists.retire (h : Lists st s) (t : SubscriberId) : Lists (st.retire t) s :=
  (h.dispose t).release t

theorem sameStore_retire : SameStore st (st.retire s) := by
  have hretire : OnlySubscriptions st (st.retire s) :=
    (onlySubscriptions_dispose st s).trans (onlySubscriptions_release _ s)
  refine ⟨hretire.records, hretire.cells, hretire.views, ?_⟩
  rw [retire, agenda_release, agenda_dispose]

end State

/-- From `st` to `st'` some watchers were retired, and nothing else was done to subscribers. -/
structure Retires (st : State) (l : List SubscriberId) (st' : State) : Prop where
  watcher : ∀ s, st'.watcher? s =
    if s ∈ l then (st.watcher? s).map Watcher.retired else st.watcher? s
  others : ∀ s, s ∉ l → st'.subscribers.get? s = st.subscribers.get? s
  lists : ∀ s, Lists st s → Lists st' s
  channels : (∀ s ∈ l, Lists st s) →
    ∀ c, st'.channels.get c = (st.channels.get c).filter (· ∉ l)
  store : SameStore st st'

namespace Retires

variable {st st₁ st' : State} {l l' : List SubscriberId}

/-- Only the tree has changed. -/
theorem of_nodes (h : st' = { st with nodes := st'.nodes }) : Retires st [] st' := by
  rw [h]
  exact ⟨fun _ => rfl, fun _ _ => rfl, fun _ hs => hs.congr rfl fun _ => rfl,
    fun _ c => by simp, ⟨rfl, rfl, rfl, rfl⟩⟩

theorem retire (st : State) (s : SubscriberId) : Retires st [s] (st.retire s) where
  watcher t := by
    rw [watcher?_retire]
    simp only [List.mem_singleton, eq_comm]
  others t ht := get?_retire fun hst => ht (List.mem_singleton.mpr hst.symm)
  lists _ ht := ht.retire s
  channels hlists c := by
    rw [(hlists s (List.mem_singleton_self s)).get_retire]
    simp
  store := sameStore_retire

theorem append (h : Retires st l st₁) (h' : Retires st₁ l' st') : Retires st (l ++ l') st' where
  watcher s := by
    rw [h'.watcher, h.watcher]
    by_cases hs : s ∈ l
    · -- To retire a watcher twice is to retire it once.
      simp only [hs, if_true, List.mem_append, true_or]
      split
      · rw [Option.map_map]
        rfl
      · rfl
    · simp only [hs, if_false, List.mem_append, false_or]
  others s hs := by
    rw [List.mem_append, not_or] at hs
    rw [h'.others s hs.2, h.others s hs.1]
  lists s hs := h'.lists s (h.lists s hs)
  channels hlists c := by
    rw [h'.channels fun s hs => h.lists s (hlists s (List.mem_append_right _ hs)),
      h.channels fun s hs => hlists s (List.mem_append_left _ hs), List.filter_filter]
    refine List.filter_congr fun s _ => ?_
    simp only [List.mem_append, not_or, Bool.decide_and, Bool.and_comm]
  store := h.store.trans h'.store

/-- A fold of steps that each retire some watchers. -/
theorem foldl {α : Type} {f : State → α → State} {watchers : α → List SubscriberId}
    (hf : ∀ st a, Retires st (watchers a) (f st a)) (as : List α) (st : State) :
    Retires st (as.flatMap watchers) (as.foldl f st) := by
  induction as generalizing st with
  | nil => exact .of_nodes rfl
  | cons a rest ih =>
      rw [List.flatMap_cons]
      exact (hf st a).append (ih (f st a))

end Retires

/-! ## Detaching bindings -/

/-- Taking listeners off changes nodes only. -/
theorem foldl_unlisten_rest (l : List Attachment) (st : State) :
    l.foldl unlisten st = { st with nodes := (l.foldl unlisten st).nodes } := by
  induction l generalizing st with
  | nil => rfl
  | cons a rest ih =>
      rw [List.foldl_cons, ih]
      rfl

theorem retires_detach (st : State) (b : Binding) : Retires st b.watchers (st.detach b) := by
  have hwatchers : Retires st (b.watchers.flatMap fun s => [s]) (b.watchers.foldl retire st) :=
    .foldl Retires.retire b.watchers st
  rw [List.flatMap_singleton'] at hwatchers
  have hdetached := hwatchers.append (.of_nodes (foldl_unlisten_rest b.listeners _))
  rwa [List.append_nil] at hdetached

theorem retires_foldl_detach (st : State) (bs : List Binding) :
    Retires st (watchersOf bs) (bs.foldl detach st) :=
  .foldl retires_detach bs st

end DataBinding
