import Mathlib.Tactic.ByContra
import Mathlib.Tactic.Tauto
import DataBinding.Proofs.Subscription.Frame

set_option autoImplicit false

/-! # Who is on a channel

For each operation on subscriptions: who is on which channel afterwards (`mem_leave` and its
like), how many holders a subscriber has, and which watcher it is. A subscriber that is told of
nothing here is always left as it was.
-/

namespace DataBinding

theorem Sources.mem_note_iff {sources : Sources} {c d : ChannelId} :
    d ∈ sources.note c ↔ d ∈ sources ∨ d = c := by
  unfold Sources.note
  split
  · constructor
    · exact Or.inl
    · rintro (h | rfl) <;> assumption
  · simp

theorem Sources.mem_foldl_note_iff {l : List ChannelId} {sources : Sources} {d : ChannelId} :
    d ∈ l.foldl Sources.note sources ↔ d ∈ sources ∨ d ∈ l := by
  induction l generalizing sources with
  | nil => simp
  | cons c rest ih =>
      rw [List.foldl_cons, ih, Sources.mem_note_iff, List.mem_cons, or_assoc]

namespace State

variable {st : State} {s t : SubscriberId} {c d : ChannelId}

/-! ## Holders -/

/-- How many hold the subscriber. -/
def holders (st : State) (s : SubscriberId) : Nat := (st.subscribers.get s).holders

theorem isAlive_iff : st.isAlive s = true ↔ 0 < st.holders s := decide_eq_true_iff

theorem lt_size_of_isAlive (h : st.isAlive s = true) : s.index < st.subscribers.size := by
  by_contra hs
  have hdefault : st.subscribers.get s = default := Table.get_eq_default (by omega)
  rw [isAlive_iff, holders, hdefault] at h
  cases h

/-- Only the holders count for being alive. -/
theorem isAlive_congr {st st' : State} (h : st'.holders s = st.holders s) :
    st'.isAlive s = st.isAlive s :=
  congrArg (fun n => decide (0 < n)) h

@[simp] theorem holders_updateWatcher (f : Watcher → Watcher) :
    (st.updateWatcher s f).holders t = st.holders t := by
  apply Table.map_get_modify
  intro b
  unfold Subscriber.mapWatcher
  split <;> rfl

@[simp] theorem holders_subscribeAll (l : List ChannelId) :
    (st.subscribeAll l s).holders t = st.holders t := by
  rw [holders, subscribers_subscribeAll, holders]

@[simp] theorem holders_leave (l : Sources) : (st.leave l s).holders t = st.holders t := by
  rw [holders, subscribers_leave, holders]

theorem holders_hold :
    (st.hold s).holders t =
      if s = t ∧ 0 < st.holders t then st.holders t + 1 else st.holders t := by
  by_cases hs : t.index < st.subscribers.size
  · simp only [hold, holders, Table.get_modify, hs, and_true]
    by_cases hst : s = t
    · simp only [hst, true_and, if_true]
      split <;> rfl
    · simp [hst]
  · have hdefault : ∀ table : Table .subscriber Subscriber, table.size = st.subscribers.size →
        (table.get t).holders = 0 := by
      intro table h
      rw [Table.get_eq_default (by omega)]
      rfl
    rw [holders, holders, hdefault _ (size_subscribers_hold st s), hdefault _ rfl]
    simp

theorem isAlive_hold : (st.hold s).isAlive t = st.isAlive t := by
  rw [Bool.eq_iff_iff, isAlive_iff, isAlive_iff, holders_hold]
  split <;> omega

theorem isAlive_holdAll (l : List SubscriberId) : (st.holdAll l).isAlive t = st.isAlive t := by
  induction l generalizing st with
  | nil => rfl
  | cons s rest ih => exact ih.trans isAlive_hold

/-- A living subscriber is held once more for each time that it is on the list. -/
theorem holders_holdAll (l : List SubscriberId) (h : st.isAlive t = true) :
    (st.holdAll l).holders t = st.holders t + l.count t := by
  induction l generalizing st with
  | nil => rfl
  | cons s rest ih =>
      have hrest : ((st.hold s).holdAll rest).holders t = (st.hold s).holders t + rest.count t :=
        ih (isAlive_hold.trans h)
      rw [isAlive_iff] at h
      show ((st.hold s).holdAll rest).holders t = _
      rw [hrest, holders_hold, List.count_cons]
      -- The first of the list is the subscriber itself, or somebody else.
      by_cases hst : s = t
      · simp [hst, h]
        omega
      · simp [hst]

theorem holders_modify_left (n : Nat) :
    ({ st with subscribers := st.subscribers.modify s fun b => { b with holders := n } } :
      State).holders t = if s = t ∧ t.index < st.subscribers.size then n else st.holders t := by
  simp only [holders, Table.get_modify]
  split <;> rfl

theorem holders_release :
    (st.release s).holders t = if s = t then st.holders t - 1 else st.holders t := by
  have hleft : ({ st with
      subscribers := st.subscribers.modify s fun b => { b with holders := st.holders s - 1 } } :
      State).holders t = if s = t then st.holders t - 1 else st.holders t := by
    rw [holders_modify_left]
    by_cases hst : s = t
    · subst hst
      by_cases hs : s.index < st.subscribers.size
      · simp [hs]
      · have hdefault : st.subscribers.get s = default := Table.get_eq_default (by omega)
        simp only [hs, and_false, if_false, if_true, holders, hdefault]
        rfl
    · simp [hst]
  unfold release
  simp only
  split
  · exact hleft
  · split
    · rw [holders_updateWatcher, holders_leave]
      exact hleft
    · exact hleft

@[simp] theorem holders_dispose : (st.dispose s).holders t = st.holders t := by
  unfold dispose
  split <;> simp

@[simp] theorem holders_reread (w : Watcher) : (st.reread s w).holders t = st.holders t := by
  show (State.leave _ _ s).holders t = _
  rw [holders_leave, holders_updateWatcher]
  exact holders_subscribeAll _

/-! ## Which watcher a subscriber is -/

theorem watcher?_eq_none (h : st.subscribers.size ≤ s.index) : st.watcher? s = none := by
  rw [watcher?, Table.get?_eq_none h]
  rfl

theorem lt_size_of_watcher? {w : Watcher} (h : st.watcher? s = some w) :
    s.index < st.subscribers.size := by
  by_contra hs
  rw [watcher?_eq_none (by omega)] at h
  cases h

/-- The watchers depend on the subscribers only. -/
theorem watcher?_congr {st st' : State} (h : st'.subscribers = st.subscribers) :
    st'.watcher? s = st.watcher? s := by
  rw [watcher?, h, watcher?]

/-- What changes nothing but the holders leaves the watchers as they are. -/
theorem watcher?_modify {f : Subscriber → Subscriber} (h : ∀ b, (f b).role = b.role) :
    ({ st with subscribers := st.subscribers.modify s f } : State).watcher? t =
      st.watcher? t := by
  simp only [watcher?, Table.get?_modify]
  split
  · cases st.subscribers.get? t with
    | none => rfl
    | some b => simp [Subscriber.watcher?, h]
  · rfl

theorem watcher?_updateWatcher (f : Watcher → Watcher) :
    (st.updateWatcher s f).watcher? t =
      if s = t then (st.watcher? t).map f else st.watcher? t := by
  simp only [watcher?, updateWatcher, Table.get?_modify]
  split
  · cases st.subscribers.get? t with
    | none => rfl
    | some b =>
        obtain ⟨role, n⟩ := b
        cases role <;> rfl
  · rfl

@[simp] theorem watcher?_subscribeAll (l : List ChannelId) :
    (st.subscribeAll l s).watcher? t = st.watcher? t :=
  watcher?_congr (subscribers_subscribeAll st l s)

@[simp] theorem watcher?_leave (l : Sources) : (st.leave l s).watcher? t = st.watcher? t :=
  watcher?_congr (subscribers_leave st l s)

@[simp] theorem watcher?_hold : (st.hold s).watcher? t = st.watcher? t := by
  apply watcher?_modify
  intro b
  split <;> rfl

@[simp] theorem watcher?_holdAll (l : List SubscriberId) :
    (st.holdAll l).watcher? t = st.watcher? t := by
  induction l generalizing st with
  | nil => rfl
  | cons s rest ih => exact ih.trans watcher?_hold

@[simp] theorem watcher?_notify : (st.notify c).watcher? t = st.watcher? t := by
  have hheld : ((st.prune c).holdAll ((st.prune c).channels.get c)).watcher? t =
      (st.prune c).watcher? t := watcher?_holdAll _
  exact hheld

theorem watcher?_release :
    (st.release s).watcher? t =
      if s = t ∧ st.holders s ≤ 1 then (st.watcher? t).map fun w => { w with sources := [] }
      else st.watcher? t := by
  have hleft : ∀ u, ({ st with subscribers := st.subscribers.modify s fun b =>
      { b with holders := (st.subscribers.get s).holders - 1 } } : State).watcher? u =
      st.watcher? u :=
    fun u => watcher?_modify fun _ => rfl
  unfold release
  simp only [hleft]
  -- Only when the last holder goes are the sources given up.
  by_cases hlast : st.holders s ≤ 1
  · have hzero : ¬ 0 < (st.subscribers.get s).holders - 1 := by
      show ¬ 0 < st.holders s - 1
      omega
    simp only [hzero, if_false, hlast, and_true]
    cases hs : st.watcher? s with
    | some w =>
        simp only [watcher?_updateWatcher, watcher?_leave, hleft]
    | none =>
        simp only [hleft]
        split
        · rename_i hst
          rw [← hst, hs]
          rfl
        · rfl
  · have hpos : 0 < (st.subscribers.get s).holders - 1 := by
      show 0 < st.holders s - 1
      omega
    simp [hpos, hlast, hleft]

theorem watcher?_dispose :
    (st.dispose s).watcher? t =
      if s = t then (st.watcher? t).map fun w => { w with disposed := true, sources := [] }
      else st.watcher? t := by
  unfold dispose
  cases hs : st.watcher? s with
  | some w => simp only [watcher?_leave, watcher?_updateWatcher]
  | none =>
      simp only
      split
      · rename_i hst
        rw [← hst, hs]
        rfl
      · rfl

/-! ## Membership -/

/-- The channels decide who is on them. -/
theorem mem_congr {st st' : State} (h : st'.channels = st.channels) :
    t ∈ st'.channels.get d ↔ t ∈ st.channels.get d := by
  rw [h]

theorem lt_size_of_mem (h : s ∈ st.channels.get c) : c.index < st.channels.size := by
  by_contra hc
  rw [Table.get_eq_default (by omega)] at h
  cases h

theorem mem_unsubscribe :
    t ∈ (st.unsubscribe c s).channels.get d ↔ t ∈ st.channels.get d ∧ ¬ (d = c ∧ t = s) := by
  simp only [unsubscribe, Table.get_modify]
  split
  · rename_i h
    simp [h.1]
  · -- Another channel, or one that does not exist and so has no members.
    rename_i h
    constructor
    · intro ht
      exact ⟨ht, fun hd => h ⟨hd.1.symm, lt_size_of_mem ht⟩⟩
    · exact And.left

theorem mem_leave {sources : Sources} :
    t ∈ (st.leave sources s).channels.get d ↔
      t ∈ st.channels.get d ∧ ¬ (d ∈ sources ∧ t = s) := by
  induction sources generalizing st with
  | nil => simp [leave]
  | cons c rest ih =>
      show t ∈ ((st.unsubscribe c s).leave rest s).channels.get d ↔ _
      rw [ih, mem_unsubscribe, List.mem_cons]
      tauto

theorem mem_subscribe :
    t ∈ (st.subscribe c s).channels.get d ↔
      t ∈ st.channels.get d ∨
        (d = c ∧ t = s ∧ st.isAlive s = true ∧ d.index < st.channels.size) := by
  unfold subscribe canSubscribe isSubscribed
  by_cases hs : s ∈ st.channels.get c
  · -- Who is on the channel already does not join it again.
    simp only [hs, decide_true, Bool.not_true, Bool.and_false, Bool.false_eq_true, if_false]
    constructor
    · exact Or.inl
    · rintro (h | ⟨rfl, rfl, -⟩)
      · exact h
      · exact hs
  · cases ha : st.isAlive s with
    | false => simp
    | true =>
        simp only [hs, decide_false, Bool.not_false, Bool.and_true, if_true, Table.get_modify,
          true_and]
        split
        · rename_i h
          simp [h]
        · rename_i h
          constructor
          · exact Or.inl
          · rintro (ht | ⟨rfl, -, hd⟩)
            · exact ht
            · exact absurd ⟨rfl, hd⟩ h

theorem isAlive_subscribe : (st.subscribe c s).isAlive t = st.isAlive t :=
  isAlive_congr (by rw [holders, subscribers_subscribe, holders])

theorem mem_subscribeAll {l : List ChannelId} :
    t ∈ (st.subscribeAll l s).channels.get d ↔
      t ∈ st.channels.get d ∨
        (d ∈ l ∧ t = s ∧ st.isAlive s = true ∧ d.index < st.channels.size) := by
  induction l generalizing st with
  | nil => simp [subscribeAll]
  | cons c rest ih =>
      show t ∈ ((st.subscribe c s).subscribeAll rest s).channels.get d ↔ _
      rw [ih, mem_subscribe, isAlive_subscribe, size_channels_subscribe, List.mem_cons]
      tauto

theorem get_subscribe (halive : st.isAlive s = true) {k : ChannelId}
    (hk : k.index < st.channels.size) : (st.subscribe c s).channels.get k =
      st.channels.get k ++ if c = k ∧ s ∉ st.channels.get k then [s] else [] := by
  simp only [subscribe, canSubscribe, isSubscribed, halive, Bool.true_and, Bool.not_eq_true',
    decide_eq_false_iff_not]
  by_cases hc : c = k
  · subst hc
    by_cases hmem : s ∈ st.channels.get c
    · simp [hmem]
    · simp [hmem, Table.get_modify_eq hk]
  · simp only [hc, false_and, if_false, List.append_nil]
    split
    · exact Table.get_modify_ne _ hc _
    · rfl

/-- A living subscriber joins each of the channels once, at the end. -/
theorem get_subscribeAll (halive : st.isAlive s = true) (l : List ChannelId)
    {k : ChannelId} (hk : k.index < st.channels.size) : (st.subscribeAll l s).channels.get k =
      st.channels.get k ++ if k ∈ l ∧ s ∉ st.channels.get k then [s] else [] := by
  induction l generalizing st with
  | nil => simp [subscribeAll]
  | cons c rest ih =>
      have hk' : k.index < (st.subscribe c s).channels.size := by
        rw [size_channels_subscribe]
        exact hk
      show ((st.subscribe c s).subscribeAll rest s).channels.get k = _
      rw [ih (isAlive_subscribe.trans halive) hk', get_subscribe halive hk]
      by_cases hc : c = k
      · -- Once it is there, the rest of the list makes no difference.
        subst hc
        by_cases hmem : s ∈ st.channels.get c
        · simp [hmem]
        · simp [hmem]
      · simp [hc, Ne.symm hc]

/-- Pruning a channel strikes off the dead and leaves the others in their order. -/
theorem get_prune : (st.prune c).channels.get d =
    if d = c then (st.channels.get d).filter st.isAlive else st.channels.get d := by
  simp only [prune, Table.get_modify]
  by_cases hd : d = c
  · subst hd
    by_cases hknown : d.index < st.channels.size
    · simp [hknown]
    · have hnone : st.channels.get d = [] := Table.get_eq_default (by omega)
      simp [hnone]
  · simp [hd, Ne.symm hd]

theorem mem_prune :
    t ∈ (st.prune c).channels.get d ↔
      t ∈ st.channels.get d ∧ (d = c → st.isAlive t = true) := by
  rw [get_prune]
  split
  · rename_i hd
    simp [List.mem_filter, hd]
  · rename_i hd
    simp [hd]

theorem get_notify : (st.notify c).channels.get d =
    if d = c then (st.channels.get d).filter st.isAlive else st.channels.get d := by
  have hheld : (st.notify c).channels = (st.prune c).channels := channels_holdAll _ _
  rw [hheld, get_prune]

theorem mem_notify :
    t ∈ (st.notify c).channels.get d ↔
      t ∈ st.channels.get d ∧ (d = c → st.isAlive t = true) :=
  (mem_congr (channels_holdAll _ _)).trans mem_prune

theorem isAlive_prune : (st.prune c).isAlive t = st.isAlive t := rfl

theorem isAlive_notify : (st.notify c).isAlive t = st.isAlive t := by
  have hheld : ((st.prune c).holdAll ((st.prune c).channels.get c)).isAlive t =
      (st.prune c).isAlive t := isAlive_holdAll _
  exact hheld.trans isAlive_prune

/-- The last holder's release takes a watcher off the channels it reads from. -/
theorem mem_release :
    t ∈ (st.release s).channels.get d ↔
      t ∈ st.channels.get d ∧
        ¬ (t = s ∧ st.holders s ≤ 1 ∧ ∃ w, st.watcher? s = some w ∧ d ∈ w.sources) := by
  have hleft : ({ st with subscribers := st.subscribers.modify s fun b =>
      { b with holders := (st.subscribers.get s).holders - 1 } } : State).watcher? s =
      st.watcher? s :=
    watcher?_modify fun _ => rfl
  unfold release
  simp only [hleft]
  by_cases hlast : st.holders s ≤ 1
  · have hzero : ¬ 0 < (st.subscribers.get s).holders - 1 := by
      show ¬ 0 < st.holders s - 1
      omega
    simp only [hzero, if_false, hlast, true_and]
    cases hs : st.watcher? s with
    | some w =>
        rw [show ∀ st' : State, (st'.updateWatcher s fun w => { w with sources := [] }).channels
          = st'.channels from fun _ => rfl, mem_leave]
        simp [and_comm]
    | none => simp
  · have hpos : 0 < (st.subscribers.get s).holders - 1 := by
      show 0 < st.holders s - 1
      omega
    simp [hpos, hlast]

theorem mem_dispose :
    t ∈ (st.dispose s).channels.get d ↔
      t ∈ st.channels.get d ∧ ¬ (t = s ∧ ∃ w, st.watcher? s = some w ∧ d ∈ w.sources) := by
  unfold dispose
  cases hs : st.watcher? s with
  | some w =>
      simp only [mem_leave, and_comm, Option.some.injEq, exists_eq_left']
      rfl
  | none => simp

end State

end DataBinding
