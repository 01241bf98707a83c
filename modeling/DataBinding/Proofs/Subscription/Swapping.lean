import Mathlib.Data.List.Nodup
import DataBinding.Proofs.Subscription.Disposal

set_option autoImplicit false

/-! # Swapping a subscriber's list

A subscriber keeps a list of the channels that it was registered in, none of them twice
(`Sources.nodup_noted`). When another list takes its place, the subscriber is taken off those
channels that the new list does not name, and nothing else happens on any channel
(`State.swaps_swapSources`). If at each swap it was on no channels but those of the two lists, it is
on no channels but those of its list from then on, so dropping the list takes it off everywhere
(`State.swapping`).

A watcher that is told does just this: it has joined the channels that it read from, and its old
list makes room for the list of these (`State.reread_eq_swapSources`,
`State.Swapped.of_reread`).
-/

namespace DataBinding

namespace Sources

variable {sources : Sources} {c : ChannelId}

/-- The list of the channels that were noted one after another. -/
def noted (channels : List ChannelId) : Sources := channels.foldl Sources.note []

theorem mem_noted {channels : List ChannelId} : c ∈ noted channels ↔ c ∈ channels :=
  mem_foldl_note_iff.trans (or_iff_right List.not_mem_nil)

theorem nodup_note (h : sources.Nodup) (c : ChannelId) : (sources.note c).Nodup := by
  unfold note
  split
  · exact h
  · rename_i hc
    exact List.concat_eq_append ▸ List.Nodup.concat hc h

theorem nodup_noted (channels : List ChannelId) : (noted channels).Nodup := by
  have hfold : ∀ (l : List ChannelId) (sources : Sources), sources.Nodup →
      (l.foldl Sources.note sources).Nodup := by
    intro l
    induction l with
    | nil => exact fun _ h => h
    | cons c rest ih => exact fun _ h => ih _ (nodup_note h c)
  exact hfold channels [] List.nodup_nil

end Sources

open Sources

namespace State

variable {st st' : State} {s : SubscriberId} {w : Watcher}

/-! ## One swap -/

/-- What becomes of the channels when `next` takes the place of the list `sources` of the
subscriber `s`. -/
structure Swaps (st : State) (sources next : Sources) (s : SubscriberId) (after : Sources × State) :
    Prop where
  list : after.1 = next
  /-- The subscriber is off a channel that the new list does not name. -/
  abandoned : ∀ c ∈ sources, c ∉ next → s ∉ after.2.channels.get c
  /-- All other channels have those on them that they had, in the same places. -/
  kept : ∀ c, (c ∈ sources → c ∈ next) → after.2.channels.get c = st.channels.get c
  /-- So has every channel, as far as others than the subscriber are concerned. -/
  others : ∀ c, (after.2.channels.get c).filter (· ≠ s) = (st.channels.get c).filter (· ≠ s)
  rest : after.2 = { st with channels := after.2.channels }

theorem get_leaveAbandoned (st : State) (sources next : Sources) (s : SubscriberId)
    (c : ChannelId) : (st.leaveAbandoned sources next s).channels.get c =
      if c ∈ sources ∧ c ∉ next then (st.channels.get c).filter (· ≠ s) else st.channels.get c := by
  rw [leaveAbandoned, get_leave]
  simp only [List.mem_filter, decide_eq_true_eq]

theorem swaps_swapSources (st : State) (sources next : Sources) (s : SubscriberId) :
    Swaps st sources next s (st.swapSources sources next s) := by
  have hget := get_leaveAbandoned st sources next s
  refine ⟨rfl, fun c hc hnext => ?_, fun c hkept => ?_, filter_leave st _ s, leave_rest st _ s⟩
  · show s ∉ (st.leaveAbandoned sources next s).channels.get c
    rw [hget, if_pos ⟨hc, hnext⟩]
    simp
  · show (st.leaveAbandoned sources next s).channels.get c = _
    rw [hget, if_neg fun h => h.2 (hkept h.1)]

/-! ## One swap after another -/

/-- The list of the subscriber `s` and the state after its list was swapped once or more often. When
it came to a swap, the subscriber was on channels of the old list and of the new one only. -/
inductive Swapped (s : SubscriberId) : Sources × State → Prop where
  | first {st : State} (channels next : List ChannelId)
      (covered : ∀ c, s ∈ st.channels.get c → c ∈ noted channels ∨ c ∈ noted next) :
      Swapped s (st.swapSources (noted channels) (noted next) s)
  /-- Before another swap anything may happen, but that the subscriber joins further channels. -/
  | again {before : Sources × State} {st : State} (next : List ChannelId) (h : Swapped s before)
      (covered : ∀ c, s ∈ st.channels.get c → c ∈ before.1 ∨ c ∈ noted next) :
      Swapped s (st.swapSources before.1 (noted next) s)
  /-- After a swap anything may happen, but that the subscriber joins a channel. -/
  | meanwhile {before : Sources × State} {st : State} (h : Swapped s before)
      (joins : ∀ c, s ∈ st.channels.get c → s ∈ before.2.channels.get c) : Swapped s (before.1, st)

namespace Swapped

variable {after : Sources × State}

theorem listed_of_covered {sources next : Sources}
    (covered : ∀ c, s ∈ st.channels.get c → c ∈ sources ∨ c ∈ next) {c : ChannelId}
    (hc : s ∈ (st.swapSources sources next s).2.channels.get c) : c ∈ next := by
  have hswap := swaps_swapSources st sources next s
  by_contra hnext
  by_cases hsources : c ∈ sources
  · exact hswap.abandoned c hsources hnext hc
  · rw [hswap.kept c fun h => absurd h hsources] at hc
    exact (covered c hc).elim hsources hnext

/-- The subscriber is on channels of its list only. -/
theorem listed (h : Swapped s after) {c : ChannelId} (hc : s ∈ after.2.channels.get c) :
    c ∈ after.1 := by
  induction h with
  | first _ _ covered => exact listed_of_covered covered hc
  | again _ _ covered => exact listed_of_covered covered hc
  | meanwhile _ joins ih => exact ih (joins c hc)

theorem nodup (h : Swapped s after) : after.1.Nodup := by
  induction h with
  | first _ next => exact nodup_noted next
  | again next => exact nodup_noted next
  | meanwhile _ _ ih => exact ih

end Swapped

/-- How lists of channels are kept for the subscriber `s`. -/
structure Swapping (s : SubscriberId) : Prop where
  distinct : ∀ channels, (noted channels).Nodup ∧ ∀ c, c ∈ noted channels ↔ c ∈ channels
  swap : ∀ (st : State) (channels next : List ChannelId),
    Swaps st (noted channels) (noted next) s (st.swapSources (noted channels) (noted next) s)
  /-- After swaps, dropping the list takes the subscriber off all channels. -/
  drop : ∀ after : Sources × State, Swapped s after → after.1.Nodup ∧
    (after.2.dropSources after.1 s).1 = [] ∧
    ∀ c, s ∉ (after.2.dropSources after.1 s).2.channels.get c

theorem swapping (s : SubscriberId) : Swapping s where
  distinct channels := ⟨nodup_noted channels, fun _ => mem_noted⟩
  swap st channels next := swaps_swapSources st (noted channels) (noted next) s
  drop after h := by
    refine ⟨h.nodup, rfl, fun c => ?_⟩
    show s ∉ (after.2.leave after.1 s).channels.get c
    rw [get_leave_of_listed after.2 fun c hc => h.listed hc]
    simp

/-! ## What watchers do with their lists -/

theorem leave_updateWatcher (st : State) (sources : Sources) (s u : SubscriberId)
    (f : Watcher → Watcher) :
    (st.updateWatcher u f).leave sources s = (st.leave sources s).updateWatcher u f := by
  induction sources generalizing st with
  | nil => rfl
  | cons c rest ih => exact ih (st.unsubscribe c s)

/-- A watcher that reads its path again swaps its list for that of the channels just read from. -/
theorem reread_eq_swapSources (st : State) (s : SubscriberId) (w : Watcher) :
    let (t, tracked) := st.track { reader := s } w.root w.path
    let (sources, swapped) := tracked.swapSources w.sources t.sources s
    st.reread s w = swapped.updateWatcher s fun w' => { w' with sources } :=
  leave_updateWatcher ..

/-- A watcher that is disposed of drops its list. -/
theorem dispose_eq_dropSources (hw : st.watcher? s = some w) :
    let (sources, dropped) := st.dropSources w.sources s
    st.dispose s = dropped.updateWatcher s fun w' => { w' with disposed := true, sources } := by
  show st.dispose s = (st.leave w.sources s).updateWatcher s _
  rw [dispose, hw]
  exact leave_updateWatcher ..

/-- When a watcher is told that was on channels of its list only, what it does is one of the swaps
after which it may drop its list. -/
theorem Swapped.of_reread (channels : List ChannelId) (hsources : w.sources = noted channels)
    (h : ∀ c, s ∈ st.channels.get c → c ∈ w.sources) :
    Swapped s (st.sourcesReread s w, st.reread s w) := by
  let tracked := (st.track { reader := s } w.root w.path).2
  let visited := (st.channelsRead w.root w.path).filter fun c => tracked.isSubscribed c s
  have hcovered : ∀ c, s ∈ tracked.channels.get c → c ∈ noted channels ∨ c ∈ noted visited := by
    intro c hc
    rcases mem_track.mp hc with hold | ⟨hread, -⟩
    · exact .inl (hsources ▸ h c hold)
    · exact .inr (mem_noted.mpr (List.mem_filter.mpr ⟨hread, decide_eq_true hc⟩))
  refine (Swapped.first channels visited hcovered).meanwhile fun c hc => ?_
  rw [← hsources]
  rw [show st.reread s w = _ from reread_eq_swapSources st s w] at hc
  exact hc

end State

end DataBinding
