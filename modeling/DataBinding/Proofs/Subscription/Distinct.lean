import DataBinding.Proofs.Subscription.Disposal

set_option autoImplicit false

/-! # Nobody is on a channel twice

Whoever joins a channel was not on it before, and all other changes of a channel only strike
subscribers off. So in the states of any run, subscriptions by hand included, a channel lists
everybody once (`Run.distinct`), and everybody is told once when it is notified.
-/

namespace DataBinding

open State Relation

namespace State

/-- Every channel lists its subscribers once. -/
def Distinct (st : State) : Prop := ∀ c, (st.channels.get c).Nodup

namespace Distinct

variable {st st' : State}

/-- From one state to the other subscribers are only struck off. -/
theorem of_sublist (h : Distinct st)
    (hsub : ∀ c, (st'.channels.get c).Sublist (st.channels.get c)) : Distinct st' :=
  fun c => (h c).sublist (hsub c)

theorem congr (h : Distinct st) (hchannels : ∀ c, st'.channels.get c = st.channels.get c) :
    Distinct st' :=
  h.of_sublist fun c => by rw [hchannels c]

theorem empty : Distinct {} := fun _ => List.nodup_nil

theorem subscribe (h : Distinct st) (c : ChannelId) (s : SubscriberId) :
    Distinct (st.subscribe c s) := by
  unfold State.subscribe
  split
  · rename_i hcan
    have hnew : s ∉ st.channels.get c := by
      simp only [canSubscribe, isSubscribed, Bool.and_eq_true] at hcan
      simpa using hcan.2
    intro d
    show ((st.channels.modify c (· ++ [s])).get d).Nodup
    rw [Table.get_modify]
    split
    · rename_i hcd
      rw [← hcd.1]
      refine List.nodup_append.mpr ⟨h c, List.nodup_cons.mpr ⟨List.not_mem_nil, List.nodup_nil⟩, ?_⟩
      rintro t ht _ hs rfl
      exact hnew (List.mem_singleton.mp hs ▸ ht)
    · exact h d
  · exact h

theorem subscribeAll (h : Distinct st) (l : List ChannelId) (s : SubscriberId) :
    Distinct (st.subscribeAll l s) := by
  induction l generalizing st with
  | nil => exact h
  | cons c rest ih => exact ih (h.subscribe c s)

theorem leave (h : Distinct st) (sources : Sources) (s : SubscriberId) :
    Distinct (st.leave sources s) := by
  refine h.of_sublist fun c => ?_
  rw [get_leave]
  split
  · exact List.filter_sublist
  · exact .refl _

theorem release (h : Distinct st) (s : SubscriberId) : Distinct (st.release s) := by
  let left : State := { st with subscribers := st.subscribers.modify s fun b =>
    { b with holders := (st.subscribers.get s).holders - 1 } }
  have hleft : Distinct left := h
  unfold State.release
  simp only
  split
  · exact hleft
  · split
    · rename_i w _
      exact hleft.leave w.sources s
    · exact hleft

theorem dispose (h : Distinct st) (s : SubscriberId) : Distinct (st.dispose s) := by
  unfold State.dispose
  split
  · rename_i w _
    have hmarked : Distinct
        (st.updateWatcher s fun w => { w with disposed := true, sources := [] }) := h
    exact hmarked.leave w.sources s
  · exact h

theorem prune (h : Distinct st) (c : ChannelId) : Distinct (st.prune c) := by
  refine h.of_sublist fun d => ?_
  show ((st.channels.modify c (·.filter st.isAlive)).get d).Sublist _
  rw [Table.get_modify]
  split
  · exact List.filter_sublist
  · exact .refl _

theorem notify (h : Distinct st) (c : ChannelId) : Distinct (st.notify c) :=
  (h.prune c).congr fun d => congrArg (Table.get · d) (channels_holdAll _ _)

theorem watch (h : Distinct st) (root : RecordId) (path : String) (reaction : Reaction) :
    Distinct (st.watch root path reaction).2 := by
  have hnew : Distinct (st.withWatcher root path reaction) := h
  exact hnew.subscribeAll _ st.subscribers.fresh

theorem reread (h : Distinct st) (s : SubscriberId) (w : Watcher) : Distinct (st.reread s w) := by
  have hread : Distinct ((st.track { reader := s } w.root w.path).2.updateWatcher s fun w' =>
      { w' with sources := st.sourcesReread s w }) := h.subscribeAll _ s
  rw [reread_eq]
  exact hread.leave _ s

end Distinct

end State

section Moves

variable {lib : Liberty} {st st' : State} {s : SubscriberId}

theorem Effect.distinct (h : Effect lib st st') (hst : Distinct st) : Distinct st' := by
  cases h with
  | aside | push | drop | newRecord | putField | store | newProbe | hold | tell => exact hst
  | define | newChannel => exact hst.congr (Table.get_alloc_default st.channels)
  | observe r => exact hst.congr (observes_observe st r).channels
  | subscribe c s => exact hst.subscribe c s
  | unsubscribe c s => exact hst.leave [c] s
  | watch root path reaction => exact hst.watch root path reaction
  | release s => exact hst.release s
  | dispose s => exact hst.dispose s
  | letGo s rest =>
      have hdropped : Distinct { st with agenda := rest } := hst
      exact hdropped.release s
  | notify c => exact hst.notify c

theorem Effects.distinct (h : Effects lib st st') (hst : Distinct st) : Distinct st' := by
  induction h with
  | refl => exact hst
  | tail _ hstep ih => exact hstep.distinct ih

theorem Telling.distinct (h : Telling st s st') (hst : Distinct st) : Distinct st' := by
  cases h with
  | probe | disposed => exact hst
  | unchanged w => exact hst.reread s w
  | shown w n =>
      rw [setText_rest]
      exact hst.reread s w
  | valued w n nodes => exact hst.reread s w
  | called w c => exact hst.reread s w

/-- In any run, a channel lists nobody twice. -/
theorem Run.distinct {ts : List Transition} (h : Run ts st) : Distinct st := by
  induction h with
  | start => exact .empty
  | @move ts st m _ possible ih =>
      cases Transition.deed ⟨st, m⟩ possible with
      | told s rest hmove hagenda hafter =>
          have hdropped : Distinct { st with agenda := rest } := ih
          exact (Telling.of_update hafter).distinct hdropped
      | kept s v rest hmove hagenda hafter =>
          rw [show m.run st = _ from hafter]
          exact ih
      | done heffects => exact heffects.distinct ih

end Moves

end DataBinding
