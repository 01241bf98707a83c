import DataBinding.Proofs.Calling
import DataBinding.Proofs.Effect

set_option autoImplicit false

/-! # No subscription is left behind

As long as nobody subscribes or unsubscribes by hand, a watcher lists every channel that it is
on, and one that is disposed of or that nobody holds lists none (`Tidy`). So a watcher that leaves
the channels on its list leaves them all: disposal is final, and once the last handle of a watcher
is gone, it is off all channels when the library comes to rest (`Run.leavesNothing`).
-/

namespace DataBinding

open State Relation

/-- Whether the move subscribes and unsubscribes nobody by hand. -/
def Move.isHandsOff : Move → Bool
  | .operate o => !o.isByHand
  | .work | .enter | .finish => true

theorem Transition.isHandsOff_of_isTame {t : Transition} (h : t.isTame = true) :
    t.move.isHandsOff = true := by
  rw [isTame, Bool.and_eq_true] at h
  cases hmove : t.move with
  | work | enter | finish => rfl
  | operate o =>
      rw [hmove, Move.isTame, Bool.and_eq_true] at h
      exact h.1.1

namespace State

variable {st st' : State} {s t : SubscriberId} {c : ChannelId}

/-! ## Channels after a watcher has left -/

theorem get_unsubscribe (st : State) (c d : ChannelId) (s : SubscriberId) :
    (st.unsubscribe c s).channels.get d =
      if c = d then (st.channels.get d).filter (· ≠ s) else st.channels.get d := by
  simp only [unsubscribe, Table.get_modify]
  by_cases hcd : c = d
  · by_cases hd : d.index < st.channels.size
    · rw [if_pos ⟨hcd, hd⟩, if_pos hcd]
    · rw [if_neg fun h => hd h.2, if_pos hcd, Table.get_eq_default (by omega)]
      rfl
  · rw [if_neg fun h => hcd h.1, if_neg hcd]

theorem get_leave (st : State) (sources : Sources) (s : SubscriberId) (d : ChannelId) :
    (st.leave sources s).channels.get d =
      if d ∈ sources then (st.channels.get d).filter (· ≠ s) else st.channels.get d := by
  induction sources generalizing st with
  | nil => rfl
  | cons c rest ih =>
      show ((st.unsubscribe c s).leave rest s).channels.get d = _
      rw [ih, get_unsubscribe]
      by_cases hcd : c = d
      · -- Whether the channel comes again in the rest makes no difference.
        subst hcd
        simp only [if_true, List.mem_cons_self]
        split
        · rw [List.filter_filter]
          simp
        · rfl
      · rw [if_neg hcd]
        simp only [List.mem_cons, Ne.symm hcd, false_or]

/-- Whoever else is on a channel stays there when somebody leaves. -/
theorem filter_leave (st : State) (l : Sources) (s : SubscriberId) (c : ChannelId) :
    ((st.leave l s).channels.get c).filter (· ≠ s) = (st.channels.get c).filter (· ≠ s) := by
  rw [get_leave]
  split
  · simp [List.filter_filter]
  · rfl

/-- Leaving channels changes nothing else. -/
theorem leave_rest (st : State) (l : Sources) (s : SubscriberId) :
    st.leave l s = { st with channels := (st.leave l s).channels } := by
  induction l generalizing st with
  | nil => rfl
  | cons c rest ih =>
      show (st.unsubscribe c s).leave rest s = _
      rw [ih]
      rfl

/-- When a watcher lists every channel that it is on, leaving those listed takes it off all. -/
theorem get_leave_of_listed (st : State) {sources : Sources}
    (h : ∀ c, s ∈ st.channels.get c → c ∈ sources) (d : ChannelId) :
    (st.leave sources s).channels.get d = (st.channels.get d).filter (· ≠ s) := by
  rw [get_leave]
  split
  · rfl
  · rename_i hd
    refine (List.filter_eq_self.mpr fun t ht => ?_).symm
    refine decide_eq_true fun hts => hd (h d ?_)
    rw [← hts]
    exact ht

/-- Disposing of a watcher takes it off all channels and leaves everybody else where they are. -/
theorem Registered.get_dispose (h : Registered st) {w : Watcher} (hw : st.watcher? s = some w)
    (d : ChannelId) : (st.dispose s).channels.get d = (st.channels.get d).filter (· ≠ s) := by
  simp only [State.dispose, hw]
  exact get_leave_of_listed (st.updateWatcher s _) (fun c => h.source s w c hw) d

/-- Letting go of a watcher takes it off all channels if it was the last handle, and leaves
everybody else where they are. -/
theorem Registered.get_release (h : Registered st) {w : Watcher} (hw : st.watcher? s = some w)
    (d : ChannelId) : (st.release s).channels.get d =
      if st.holders s ≤ 1 then (st.channels.get d).filter (· ≠ s) else st.channels.get d := by
  let left : State := { st with subscribers := st.subscribers.modify s fun b =>
    { b with holders := (st.subscribers.get s).holders - 1 } }
  have hsame : left.watcher? s = st.watcher? s := watcher?_modify fun _ => rfl
  have hleft : left.watcher? s = some w := hsame.trans hw
  have hlisted : (left.leave w.sources s).channels.get d = (st.channels.get d).filter (· ≠ s) :=
    get_leave_of_listed left (fun c => h.source s w c hw) d
  by_cases hlast : st.holders s ≤ 1
  · have hzero : ¬ 0 < (st.subscribers.get s).holders - 1 := by
      show ¬ 0 < st.holders s - 1
      omega
    have hrelease : st.release s =
        (left.leave w.sources s).updateWatcher s fun w => { w with sources := [] } := by
      unfold State.release
      simp only [if_neg hzero]
      split
      · rename_i u hu
        cases hleft.symm.trans hu
        rfl
      · rename_i hu
        cases hleft.symm.trans hu
    rw [hrelease, if_pos hlast]
    exact hlisted
  · have hpos : 0 < (st.subscribers.get s).holders - 1 := by
      show 0 < st.holders s - 1
      omega
    have hrelease : st.release s = left := if_pos hpos
    rw [hrelease, if_neg hlast]

/-! ## Watchers list their channels -/

/-- Whether the watcher has nothing to do with channels any more: it is disposed of, or nobody
holds it. -/
def isGone (st : State) (s : SubscriberId) (w : Watcher) : Bool := w.disposed || !st.isAlive s

/-- Watchers list every channel that they are on, and none once they are gone. -/
structure Tidy (st : State) : Prop where
  registered : Registered st
  gone : ∀ s w, st.watcher? s = some w → st.isGone s w = true → w.sources = []

namespace Tidy

theorem not_mem (h : Tidy st) {w : Watcher} (hw : st.watcher? s = some w)
    (hgone : st.isGone s w = true) (c : ChannelId) : s ∉ st.channels.get c := by
  intro hmem
  have hlisted := h.registered.source s w c hw hmem
  rw [h.gone s w hw hgone] at hlisted
  cases hlisted

/-- What leaves it to the watchers which channels they list, and makes none of them go. -/
theorem of_imp (h : Tidy st) (hregistered : Registered st')
    (hwatcher : ∀ s w', st'.watcher? s = some w' → w'.sources = [] ∨
      ∃ w, st.watcher? s = some w ∧ w'.sources = w.sources ∧
        (st'.isGone s w' = true → st.isGone s w = true)) : Tidy st' := by
  refine ⟨hregistered, fun s w' hw' hgone => ?_⟩
  rcases hwatcher s w' hw' with hnone | ⟨w, hw, hsources, hback⟩
  · exact hnone
  · exact hsources.trans (h.gone s w hw (hback hgone))

/-- What leaves subscribers and the members of channels alone. -/
theorem congr (h : Tidy st) (hsubscribers : st'.subscribers = st.subscribers)
    (hchannels : ∀ c, st'.channels.get c = st.channels.get c) : Tidy st' := by
  refine h.of_imp (h.registered.congr hsubscribers hchannels) fun s w' hw' => .inr ?_
  refine ⟨w', (watcher?_congr hsubscribers).symm.trans hw', rfl, ?_⟩
  rw [isGone, isGone, isAlive, isAlive, hsubscribers]
  exact id

theorem empty : Tidy {} :=
  ⟨⟨nofun, nofun⟩, fun s w hw => by
    rw [watcher?_eq_none (Nat.zero_le _)] at hw
    cases hw⟩

theorem hold (h : Tidy st) : Tidy (st.hold s) := by
  refine h.of_imp h.registered.hold fun t w' hw' => .inr ⟨w', watcher?_hold.symm.trans hw', rfl, ?_⟩
  rw [isGone, isGone, isAlive_hold]
  exact id

theorem release (h : Tidy st) : Tidy (st.release s) := by
  refine h.of_imp h.registered.release fun t w' hw' => ?_
  rw [watcher?_release] at hw'
  split at hw'
  · obtain ⟨w, -, rfl⟩ := Option.map_eq_some_iff.mp hw'
    exact .inl rfl
  · -- Not the last holder has gone, so the watcher is alive if it was.
    rename_i hlast
    refine .inr ⟨w', hw', rfl, ?_⟩
    have halive : (st.release s).isAlive t = st.isAlive t := by
      rw [Bool.eq_iff_iff, isAlive_iff, isAlive_iff, holders_release]
      by_cases hst : s = t
      · subst hst
        rw [if_pos rfl]
        have : ¬ st.holders s ≤ 1 := fun h => hlast ⟨rfl, h⟩
        omega
      · rw [if_neg hst]
    rw [isGone, isGone, halive]
    exact id

theorem dispose (h : Tidy st) : Tidy (st.dispose s) := by
  refine h.of_imp h.registered.dispose fun t w' hw' => ?_
  rw [watcher?_dispose] at hw'
  split at hw'
  · obtain ⟨w, -, rfl⟩ := Option.map_eq_some_iff.mp hw'
    exact .inl rfl
  · refine .inr ⟨w', hw', rfl, ?_⟩
    rw [isGone, isGone, isAlive_congr holders_dispose]
    exact id

theorem notify (h : Tidy st) : Tidy (st.notify c) := by
  refine h.of_imp h.registered.notify fun t w' hw' =>
    .inr ⟨w', watcher?_notify.symm.trans hw', rfl, ?_⟩
  rw [isGone, isGone, isAlive_notify]
  exact id

/-- A subscriber that is made now is alive. -/
theorem newSubscriber (h : Tidy st) (hregistered : Registered st')
    (hwatcher : ∀ t, t ≠ st.subscribers.fresh → st'.watcher? t = st.watcher? t)
    (hholders : ∀ t, st'.holders t = if t = st.subscribers.fresh then 1 else st.holders t)
    (hnew : ∀ w, st'.watcher? st.subscribers.fresh = some w → w.disposed = false) : Tidy st' := by
  refine ⟨hregistered, fun t w hw hgone => ?_⟩
  by_cases ht : t = st.subscribers.fresh
  · have halive : st'.isAlive t = true := isAlive_iff.mpr (by rw [hholders, if_pos ht]; omega)
    rw [ht] at hw
    rw [isGone, hnew w hw, halive] at hgone
    cases hgone
  · have hsame : st'.holders t = st.holders t := by rw [hholders, if_neg ht]
    rw [hwatcher t ht] at hw
    refine h.gone t w hw ?_
    rwa [isGone, isAlive_congr hsame] at hgone

theorem newProbe (h : Tidy st) (c : Callback) : Tidy (st.newProbe c).2 := by
  refine h.newSubscriber (h.registered.newProbe c) (fun _ _ => watcher?_newProbe c)
    (fun _ => holders_newSubscriber _) fun w hw => ?_
  have hnone : st.watcher? st.subscribers.fresh = none := watcher?_eq_none (Nat.le_refl _)
  rw [watcher?_newProbe, hnone] at hw
  cases hw

theorem watch (h : Tidy st) (root : RecordId) (path : String) (reaction : Reaction) :
    Tidy (st.watch root path reaction).2 := by
  refine h.newSubscriber h.registered.watch (fun t ht => ?_) (fun _ => holders_watch) fun w hw => ?_
  · rw [watcher?_watch, if_neg ht]
  · rw [watcher?_watch, if_pos rfl] at hw
    cases hw
    rfl

/-- A watcher that reads its path again while nobody holds it joins no channel. -/
theorem reread (h : Tidy st) {w : Watcher} (hw : st.watcher? s = some w)
    (hlive : w.disposed = false) : Tidy (st.reread s w) := by
  refine ⟨h.registered.reread hw, fun t w' hw' hgone => ?_⟩
  rw [isGone, isAlive_reread] at hgone
  by_cases hst : s = t
  · subst hst
    cases (watcher?_reread_self hw).symm.trans hw'
    have hdead : st.isAlive s = false := by simpa [hlive] using hgone
    refine List.eq_nil_iff_forall_not_mem.mpr fun d hd => ?_
    have hgone₀ : st.isGone s w = true := by rw [isGone, hdead]; simp
    obtain ⟨-, hmem | ⟨halive, -⟩⟩ := mem_sourcesReread.mp hd
    · exact h.not_mem hw hgone₀ d hmem
    · exact Bool.false_ne_true (hdead.symm.trans halive)
  · rw [watcher?_reread, if_neg hst] at hw'
    exact h.gone t w' hw' hgone

theorem remember (h : Tidy st) (v : Value) : Tidy (st.remember s v) := by
  refine h.of_imp h.registered.remember fun t w' hw' => .inr ?_
  rw [watcher?_remember] at hw'
  split at hw'
  · obtain ⟨w, hw, rfl⟩ := Option.map_eq_some_iff.mp hw'
    refine ⟨w, hw, rfl, ?_⟩
    rw [isGone, isGone, isAlive_remember]
    exact id
  · refine ⟨w', hw', rfl, ?_⟩
    rw [isGone, isGone, isAlive_remember]
    exact id

end Tidy

end State

/-! ## Every hands-off move keeps the channels tidy -/

section Moves

variable {lib : Liberty} {st st' : State} {s : SubscriberId}

theorem Effect.tidy (h : Effect lib st st') (hands : ¬ lib.byHand) (ht : Tidy st) : Tidy st' := by
  cases h with
  | aside | push | drop | newRecord | putField | store => exact ht.congr rfl fun _ => rfl
  | define p v => exact ht.congr rfl (Table.get_alloc_default st.channels)
  | observe r =>
      have hobserves := observes_observe st r
      exact ht.congr hobserves.subscribers hobserves.channels
  | newChannel => exact ht.congr rfl (Table.get_alloc_default st.channels)
  | subscribe c s h => exact absurd h hands
  | unsubscribe c s h => exact absurd h hands
  | newProbe c => exact ht.newProbe c
  | watch root path reaction => exact ht.watch root path reaction
  | hold s => exact ht.hold
  | release s => exact ht.release
  | dispose s => exact ht.dispose
  | tell s => exact ht.hold.congr rfl fun _ => rfl
  | letGo s rest =>
      have hdropped : Tidy { st with agenda := rest } := ht.congr rfl fun _ => rfl
      exact hdropped.release
  | notify c => exact ht.notify

theorem Effects.tidy (h : Effects lib st st') (hands : ¬ lib.byHand) (ht : Tidy st) : Tidy st' := by
  induction h with
  | refl => exact ht
  | tail _ hstep ih => exact hstep.tidy hands ih

theorem Telling.tidy (h : Telling st s st') (ht : Tidy st) : Tidy st' := by
  cases h with
  | probe c => exact ht.congr rfl fun _ => rfl
  | disposed => exact ht
  | unchanged w hw hlive => exact ht.reread hw hlive
  | shown w n hw hlive =>
      have hshown : Tidy ((st.reread s w).setText n (st.read w.root w.path).display) := by
        rw [setText_rest]
        exact (ht.reread hw hlive).congr rfl fun _ => rfl
      exact hshown.remember _
  | valued w n nodes hw hlive =>
      have hvalued : Tidy { st.reread s w with nodes } :=
        (ht.reread hw hlive).congr rfl fun _ => rfl
      exact hvalued.remember _
  | called w c hw hlive => exact (ht.reread hw hlive).congr rfl fun _ => rfl

theorem Move.not_byHand {m : Move} (h : m.isHandsOff = true) : ¬ m.liberty.byHand := by
  rintro ⟨o, rfl, hbyHand⟩
  rw [isHandsOff, hbyHand] at h
  cases h

theorem Transition.tidy (t : Transition) (possible : t.move.isPossible t.before = true)
    (hands : t.move.isHandsOff = true) (ht : Tidy t.before) : Tidy t.after := by
  cases t.deed possible with
  | told s rest hmove hagenda hafter =>
      have hdropped : Tidy { t.before with agenda := rest } := ht.congr rfl fun _ => rfl
      exact (Telling.of_update hafter).tidy hdropped
  | kept s v rest hmove hagenda hafter =>
      have hdropped : Tidy { t.before with agenda := rest } := ht.congr rfl fun _ => rfl
      exact hafter ▸ hdropped.remember v
  | done h => exact h.tidy (Move.not_byHand hands) ht

theorem Run.tidy {ts : List Transition} (h : Run ts st)
    (hands : ∀ t ∈ ts, t.move.isHandsOff = true) : Tidy st := by
  induction h with
  | start => exact .empty
  | @move ts st m _ possible ih =>
      have hbefore := ih fun t ht => hands t (List.mem_cons_of_mem _ ht)
      exact Transition.tidy ⟨st, m⟩ possible (hands _ List.mem_cons_self) hbefore

/-! ## Watchers last, and disposal does -/

/-- A watcher stays one, and if it is disposed of it stays so. -/
def Lasts (st st' : State) (s : SubscriberId) : Prop :=
  ∀ w, st.watcher? s = some w →
    ∃ w', st'.watcher? s = some w' ∧ (w.disposed = true → w'.disposed = true)

theorem Lasts.of_same (h : st'.watcher? s = st.watcher? s) : Lasts st st' s :=
  fun w hw => ⟨w, h.trans hw, id⟩

theorem Lasts.trans {st₁ : State} (h : Lasts st st₁ s) (h' : Lasts st₁ st' s) : Lasts st st' s := by
  intro w hw
  obtain ⟨w₁, hw₁, hdisposed₁⟩ := h w hw
  obtain ⟨w₂, hw₂, hdisposed₂⟩ := h' w₁ hw₁
  exact ⟨w₂, hw₂, hdisposed₂ ∘ hdisposed₁⟩

theorem Lasts.of_map {p : Prop} [Decidable p] {f : Watcher → Watcher}
    (h : st'.watcher? s = if p then (st.watcher? s).map f else st.watcher? s)
    (hf : ∀ w, w.disposed = true → (f w).disposed = true) : Lasts st st' s := by
  intro w hw
  rw [h, hw]
  split
  · exact ⟨f w, rfl, hf w⟩
  · exact ⟨w, rfl, id⟩

theorem Effect.lasts (h : Effect lib st st') : Lasts st st' s := by
  cases h with
  | aside | push | drop | newRecord | putField | define | store | newChannel | unsubscribe =>
      exact .of_same rfl
  | observe r => exact .of_same (watcher?_congr (observes_observe st r).subscribers)
  | subscribe c t => exact .of_same (watcher?_congr (subscribers_subscribe st c t))
  | newProbe c => exact .of_same (watcher?_newProbe c)
  | watch root path reaction =>
      intro w hw
      refine ⟨w, ?_, id⟩
      rw [watcher?_watch, if_neg (Table.ne_fresh (lt_size_of_watcher? hw)), hw]
  | hold t => exact .of_same watcher?_hold
  | release t => exact .of_map watcher?_release fun _ => id
  | dispose t => exact .of_map watcher?_dispose fun _ _ => rfl
  | tell t => exact .of_same watcher?_hold
  | letGo t rest =>
      have hreleased : ∀ st₁ : State, Lasts st₁ (st₁.release t) s :=
        fun _ => .of_map watcher?_release fun _ => id
      exact hreleased { st with agenda := rest }
  | notify c => exact .of_same watcher?_notify

theorem Effects.lasts (h : Effects lib st st') : Lasts st st' s := by
  induction h with
  | refl => exact .of_same rfl
  | tail _ hstep ih => exact ih.trans hstep.lasts

theorem Telling.lasts {t : SubscriberId} (h : Telling st t st') : Lasts st st' s := by
  have hreread : ∀ w, Lasts st (st.reread t w) s := fun _ => .of_map watcher?_reread fun _ => id
  have hremember : ∀ (st₁ : State) v, Lasts st₁ (st₁.remember t v) s :=
    fun _ _ => .of_map watcher?_remember fun _ => id
  cases h with
  | probe | disposed => exact .of_same rfl
  | unchanged w => exact hreread w
  | shown w n =>
      rw [setText_rest]
      exact (hreread w).trans (hremember { st.reread t w with nodes := _ } _)
  | valued w n nodes => exact (hreread w).trans (hremember { st.reread t w with nodes } _)
  | called w c => exact hreread w

theorem Transition.lasts (t : Transition) (possible : t.move.isPossible t.before = true) :
    Lasts t.before t.after s := by
  cases t.deed possible with
  | told u rest hmove hagenda hafter =>
      have hdropped : Lasts t.before { t.before with agenda := rest } s := .of_same rfl
      exact hdropped.trans (Telling.of_update hafter).lasts
  | kept u v rest hmove hagenda hafter =>
      rw [hafter]
      have hkept : ∀ st₁ : State, Lasts st₁ (st₁.remember u v) s :=
        fun _ => .of_map watcher?_remember fun _ => id
      exact hkept { t.before with agenda := rest }
  | done h => exact h.lasts

/-! ## Disposal is final -/

/-- The watcher `s` is disposed of, and its callback is not waiting to be run. -/
structure Off (st : State) (s : SubscriberId) : Prop where
  tidy : Tidy st
  first : CallsFirst st.agenda
  disposed : ∃ w, st.watcher? s = some w ∧ w.disposed = true
  unasked : isAsking s st.agenda = false

theorem Off.after {t : Transition} (h : Off t.before s)
    (possible : t.move.isPossible t.before = true) (hands : t.move.isHandsOff = true) :
    Off t.after s := by
  obtain ⟨w, hw, hdisposed⟩ := h.disposed
  obtain ⟨w', hw', hdisposed'⟩ := t.lasts possible w hw
  refine ⟨t.tidy possible hands h.tidy, t.callsFirst h.first possible,
    ⟨w', hw', hdisposed' hdisposed⟩, ?_⟩
  · rcases t.calls h.first possible with hsame | hcalls
    · exact hsame ▸ h.unasked
    · -- The callback of a watcher that is disposed of is not put on the agenda.
      refine Bool.eq_false_iff.mpr fun hasking => ?_
      obtain ⟨u, hu, hlive⟩ := hcalls.asking s hasking
      cases hw.symm.trans hu
      exact Bool.false_ne_true (hlive.symm.trans hdisposed)

theorem played_eq_append (ts : List Transition) (st : State) (ms : List Move) :
    played ts st ms = played [] st ms ++ ts := by
  induction ms generalizing ts st with
  | nil => rfl
  | cons m ms ih => rw [played, ih, played, ih [⟨st, m⟩], List.append_assoc, List.singleton_append]

/-- Whatever is done from `st` on, short of subscribing by hand, the watcher `s` stays off all
channels, and no run of its callback begins. -/
def StaysOff (st : State) (s : SubscriberId) : Prop :=
  ∀ ms, (∀ m ∈ ms, m.isHandsOff = true) → st.canPlay ms = true →
    (∀ c, (st.play ms).isSubscribed c s = false) ∧ ∀ t ∈ played [] st ms, t.starts s = false

theorem Off.staysOff (h : Off st s) : StaysOff st s := by
  intro ms
  induction ms generalizing st with
  | nil =>
      intro _ _
      obtain ⟨w, hw, hdisposed⟩ := h.disposed
      refine ⟨fun c => decide_eq_false (h.tidy.not_mem hw ?_ c), nofun⟩
      rw [isGone, hdisposed]
      rfl
  | cons m ms ih =>
      intro hands hplay
      rw [State.canPlay, Bool.and_eq_true] at hplay
      have hafter := h.after (t := ⟨st, m⟩) hplay.1 (hands m List.mem_cons_self)
      obtain ⟨hoff, hstarts⟩ :=
        ih hafter (fun m' hm' => hands m' (List.mem_cons_of_mem _ hm')) hplay.2
      refine ⟨hoff, fun t ht => ?_⟩
      rw [played, played_eq_append, List.mem_append, List.mem_singleton] at ht
      rcases ht with ht | rfl
      · exact hstarts t ht
      · rw [Transition.starts]
        split
        · exact h.unasked
        · rfl

/-! ## When the last handle is gone -/

/-- The watcher `s` is held by nobody but the agenda, which is going to let go of it. -/
structure Forsaken (st : State) (s : SubscriberId) : Prop where
  known : s.index < st.subscribers.size
  holders : st.holders s ≤ st.agenda.count (.release s)

namespace Forsaken

theorem of_same (h : Forsaken st s) (hsize : st.subscribers.size ≤ st'.subscribers.size)
    (hholders : st'.holders s = st.holders s)
    (hagenda : st'.agenda.count (.release s) = st.agenda.count (.release s)) : Forsaken st' s :=
  ⟨Nat.lt_of_lt_of_le h.known hsize, by rw [hholders, hagenda]; exact h.holders⟩

/-- What leaves the subscribers and the agenda alone. -/
theorem congr (h : Forsaken st s) (hsubscribers : st'.subscribers = st.subscribers)
    (hagenda : st'.agenda = st.agenda) : Forsaken st' s :=
  h.of_same (Nat.le_of_eq (by rw [hsubscribers]))
    (by rw [State.holders, hsubscribers, State.holders]) (by rw [hagenda])

theorem notify (h : Forsaken st s) (c : ChannelId) : Forsaken (st.notify c) s := by
  refine ⟨by rw [size_subscribers_notify]; exact h.known, ?_⟩
  rw [agenda_notify, List.count_append, count_release_updates]
  have hholders := h.holders
  cases halive : st.isAlive s with
  | true =>
      have hlive : (st.prune c).isAlive s = true := halive
      have hheld : (st.notify c).holders s =
          st.holders s + ((st.prune c).channels.get c).count s := holders_holdAll _ hlive
      omega
  | false =>
      -- A dead subscriber is not held again.
      have hdead : ¬ 0 < (st.notify c).holders s := by
        rw [← isAlive_iff, isAlive_notify, halive]
        exact Bool.false_ne_true
      omega

theorem tell (h : Forsaken st s) (t : SubscriberId) : Forsaken (st.tell t) s := by
  have hsize : (st.tell t).subscribers.size = st.subscribers.size := size_subscribers_hold st t
  refine ⟨by rw [hsize]; exact h.known, ?_⟩
  have hagenda : (st.tell t).agenda = .update t :: .release t :: st.agenda := rfl
  have hheld : (st.tell t).holders s = (st.hold t).holders s := rfl
  have hholders := h.holders
  rw [hheld, holders_hold, hagenda, List.count_cons, List.count_cons]
  by_cases hts : t = s
  · subst hts
    simp
    split <;> omega
  · simp [hts]
    exact hholders

theorem release (h : Forsaken st s) (t : SubscriberId) : Forsaken (st.release t) s := by
  refine ⟨by rw [size_subscribers_release]; exact h.known, ?_⟩
  have hholders := h.holders
  rw [agenda_release, holders_release]
  split <;> omega

theorem letGo (h : Forsaken st s) {t : SubscriberId} {rest : List Task}
    (hagenda : st.agenda = .release t :: rest) :
    Forsaken (({ st with agenda := rest } : State).release t) s := by
  refine ⟨by rw [size_subscribers_release]; exact h.known, ?_⟩
  have hholders := h.holders
  have hheld : ({ st with agenda := rest } : State).holders s = st.holders s := rfl
  rw [agenda_release, holders_release, hheld]
  rw [hagenda, List.count_cons] at hholders
  by_cases hts : t = s
  · subst hts
    simp at hholders ⊢
    omega
  · simpa [hts] using hholders

end Forsaken

theorem Effect.forsaken (h : Effect lib st st') (hs : ¬ lib.takes s) (hf : Forsaken st s) :
    Forsaken st' s := by
  cases h with
  | aside | newRecord | putField | define | store | newChannel | unsubscribe =>
      exact hf.congr rfl rfl
  | push tasks htasks =>
      refine hf.of_same (Nat.le_refl _) rfl ?_
      rw [agenda_push, List.count_append, count_release_neutral htasks, Nat.zero_add]
  | drop t rest hagenda ht =>
      refine hf.of_same (Nat.le_refl _) rfl ?_
      rw [hagenda, List.count_cons_of_ne (isNeutral_ne_release ht s)]
  | observe r => exact hf.congr (observes_observe st r).subscribers (observes_observe st r).agenda
  | subscribe c t => exact hf.congr (subscribers_subscribe st c t) (agenda_subscribe st c t)
  | newProbe c =>
      refine hf.of_same ((Table.size_alloc ..).symm ▸ Nat.le_succ _) ?_ rfl
      exact (holders_newSubscriber _).trans (if_neg (Table.ne_fresh hf.known))
  | watch root path reaction =>
      refine hf.of_same (by rw [size_subscribers_watch]; exact Nat.le_succ _) ?_
        (by rw [agenda_watch])
      rw [holders_watch, if_neg (Table.ne_fresh hf.known)]
  | hold t ht =>
      refine hf.of_same (Nat.le_of_eq (size_subscribers_hold st t).symm) ?_ rfl
      rw [holders_hold, if_neg]
      rintro ⟨rfl, -⟩
      exact hs ht
  | release t => exact hf.release t
  | dispose t =>
      exact hf.of_same (Nat.le_of_eq (size_subscribers_dispose st t).symm) holders_dispose
        (by rw [agenda_dispose])
  | tell t => exact hf.tell t
  | letGo t rest hagenda => exact hf.letGo hagenda
  | notify c => exact hf.notify c

theorem Effects.forsaken (h : Effects lib st st') (hs : ¬ lib.takes s) (hf : Forsaken st s) :
    Forsaken st' s := by
  induction h with
  | refl => exact hf
  | tail _ hstep ih => exact hstep.forsaken hs ih

theorem Forsaken.reread (h : Forsaken st s) (t : SubscriberId) (w : Watcher) :
    Forsaken (st.reread t w) s :=
  h.of_same (Nat.le_of_eq (size_subscribers_reread st t w).symm) (holders_reread w)
    (by rw [agenda_reread])

theorem Forsaken.remember (h : Forsaken st s) (t : SubscriberId) (v : Value) :
    Forsaken (st.remember t v) s :=
  h.of_same (Nat.le_of_eq (size_subscribers_updateWatcher st t _).symm)
    (holders_updateWatcher _) rfl

theorem Telling.forsaken {t : SubscriberId} (h : Telling st t st') (hf : Forsaken st s) :
    Forsaken st' s := by
  cases h with
  | probe c =>
      exact hf.of_same (Nat.le_refl _) rfl (by rw [agenda_push, List.count_append]; simp)
  | disposed => exact hf
  | unchanged w => exact hf.reread t w
  | shown w n =>
      have hshown : Forsaken ((st.reread t w).setText n (st.read w.root w.path).display) s := by
        refine (hf.reread t w).congr ?_ (agenda_setText ..)
        rw [setText_rest]
      exact hshown.remember t _
  | valued w n nodes =>
      have hvalued : Forsaken { st.reread t w with nodes } s := (hf.reread t w).congr rfl rfl
      exact hvalued.remember t _
  | called w c =>
      exact (hf.reread t w).of_same (Nat.le_refl _) rfl
        (by rw [agenda_push, List.count_append]; simp)

/-- Whether the move takes no handle of the watcher `s`. -/
def Move.forgoes (m : Move) (s : SubscriberId) : Prop := m ≠ .operate (.hold s)

theorem Transition.forsaken (t : Transition) (possible : t.move.isPossible t.before = true)
    (forgoes : t.move.forgoes s) (hf : Forsaken t.before s) : Forsaken t.after s := by
  have hdrop : ∀ task rest, t.before.agenda = task :: rest → (∀ u, task ≠ .release u) →
      Forsaken { t.before with agenda := rest } s := by
    intro task rest hagenda htask
    refine hf.of_same (Nat.le_refl _) rfl ?_
    rw [hagenda, List.count_cons_of_ne (htask s)]
  cases t.deed possible with
  | told u rest hmove hagenda hafter =>
      exact (Telling.of_update hafter).forsaken (hdrop _ rest hagenda fun _ => nofun)
  | kept u v rest hmove hagenda hafter =>
      exact hafter ▸ (hdrop _ rest hagenda fun _ => nofun).remember u v
  | done h => exact h.forsaken forgoes hf

/-- Once nobody but the agenda holds a watcher, it is off all channels when the library comes to
rest. -/
theorem Forsaken.isOff (h : Forsaken st s) (ht : Tidy st) {w : Watcher}
    (hw : st.watcher? s = some w) (ms : List Move)
    (hands : ∀ m ∈ ms, m.isHandsOff = true ∧ m.forgoes s) (hplay : st.canPlay ms = true)
    (rest : (st.play ms).agenda = []) (c : ChannelId) : (st.play ms).isSubscribed c s = false := by
  induction ms generalizing st w with
  | nil =>
      -- Nothing is left that could let go of the watcher, so nobody holds it.
      have hdead : st.isAlive s = false := by
        have hholders := h.holders
        rw [show st.agenda = [] from rest, List.count_nil] at hholders
        rw [Bool.eq_false_iff, ne_eq, isAlive_iff]
        omega
      refine decide_eq_false (ht.not_mem hw ?_ c)
      rw [isGone, hdead]
      simp
  | cons m ms ih =>
      rw [State.canPlay, Bool.and_eq_true] at hplay
      obtain ⟨hm, hforgoes⟩ := hands m List.mem_cons_self
      obtain ⟨w', hw', -⟩ := Transition.lasts ⟨st, m⟩ hplay.1 w hw
      exact ih (Transition.forsaken ⟨st, m⟩ hplay.1 hforgoes h)
        (Transition.tidy ⟨st, m⟩ hplay.1 hm ht) hw'
        (fun m' hm' => hands m' (List.mem_cons_of_mem _ hm')) hplay.2 rest

/-! ## Nothing is left behind -/

/-- The watcher `s` leaves nothing behind: it lists the channels that it is on; disposing of it, or
letting go of it last, takes it off all of them and changes nothing for the others; disposal is
final; and so is the loss of the last handle. -/
structure State.LeavesNothing (st : State) (s : SubscriberId) (w : Watcher) : Prop where
  listed : ∀ c, st.isSubscribed c s = true → c ∈ w.sources
  dispose : ∀ c, (st.dispose s).channels.get c = (st.channels.get c).filter (· ≠ s)
  release : ∀ c, (st.release s).channels.get c =
    if st.holders s ≤ 1 then (st.channels.get c).filter (· ≠ s) else st.channels.get c
  /-- When the host has disposed of the watcher, it stays off. -/
  final : st.turn = .host → StaysOff (st.dispose s) s
  /-- So it does when it was disposed of otherwise, as together with its view. -/
  disposed : st.turn = .host → w.disposed = true → StaysOff st s
  /-- When its last handle is gone, it is off all channels as soon as nothing is left to do. -/
  forsaken : st.holders s ≤ st.agenda.count (.release s) →
    ∀ ms, (∀ m ∈ ms, m.isHandsOff = true ∧ m.forgoes s) → st.canPlay ms = true →
      (st.play ms).agenda = [] → ∀ c, (st.play ms).isSubscribed c s = false

/-- As long as nobody subscribes or unsubscribes by hand, watchers leave nothing behind. -/
theorem Run.leavesNothing {ts : List Transition} (h : Run ts st)
    (hands : ∀ t ∈ ts, t.move.isHandsOff = true) {w : Watcher} (hw : st.watcher? s = some w) :
    st.LeavesNothing s w := by
  have htidy := h.tidy hands
  have hoff : st.turn = .host → w.disposed = true → Off st s := by
    intro hturn hdisposed
    exact ⟨htidy, h.callsFirst, ⟨w, hw, hdisposed⟩,
      isAsking_of_none (isCall_of_turn_host h.callsFirst hturn)⟩
  refine ⟨?_, htidy.registered.get_dispose hw, htidy.registered.get_release hw, ?_, ?_, ?_⟩
  · intro c hc
    exact htidy.registered.source s w c hw (of_decide_eq_true hc)
  · intro hturn
    have hcalls := isCall_of_turn_host h.callsFirst hturn
    have hdisposed : Off (st.dispose s) s := by
      refine ⟨htidy.dispose, ?_, ⟨{ w with disposed := true, sources := [] }, ?_, rfl⟩, ?_⟩
      · rw [agenda_dispose]
        exact h.callsFirst
      · rw [watcher?_dispose, if_pos rfl, hw]
        rfl
      · rw [agenda_dispose]
        exact isAsking_of_none hcalls
    exact hdisposed.staysOff
  · exact fun hturn hdisposed => (hoff hturn hdisposed).staysOff
  · intro hholders ms hms hplay hrest c
    exact Forsaken.isOff ⟨lt_size_of_watcher? hw, hholders⟩ htidy hw ms hms hplay hrest c

end Moves

/-- A watcher of `a` is told of a new value, and the host, when it runs the watcher's callback, may
do what it likes. -/
def calledBack : List Move :=
  [.operate .newRecord, .operate (.writeField ⟨⟨0⟩, "a"⟩ (.text "1")),
    .operate (.observe (.record ⟨0⟩)), .operate (.watch ⟨0⟩ "a" ⟨0⟩),
    .operate (.writeField ⟨⟨0⟩, "a"⟩ (.text "2")), .work, .enter]

/-- The watcher leaves nothing behind, if it is disposed of in its own callback. -/
theorem leavesNothing_calledBack :
    (({} : State).play calledBack).LeavesNothing ⟨0⟩
      { root := ⟨0⟩, path := "a", reaction := .call ⟨0⟩, seen := .text "1", sources := [⟨0⟩] } :=
  Run.leavesNothing (Run.play .start calledBack (by decide +kernel)) (by decide +kernel)
    (by decide +kernel)

end DataBinding
