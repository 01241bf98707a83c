import DataBinding.Agenda
import DataBinding.Proofs.Table

set_option autoImplicit false

/-! # What subscriptions leave alone

Joining and leaving channels, holding and letting go of subscribers, telling them and rereading
a path change channels and subscribers, and nothing else that matters: records, cells, nodes and
views stay as they are (`OnlySubscriptions`). Most of these operations change one of the two
tables only, which the theorems on `subscribers` and `channels` say.
-/

namespace DataBinding.State

/-- The two states have the same records and cells, and so the same is read in them. -/
structure SameGraph (st st' : State) : Prop where
  records : st'.records = st.records
  cells : st'.cells = st.cells

/-- What a view is depends on the table of views only. -/
theorem view_congr {st st' : State} (h : st'.views = st.views) (v : ViewId) :
    st'.view v = st.view v := by
  rw [view, h, view]

namespace SameGraph

variable {st st' : State}

theorem trans {st₁ : State} (h : SameGraph st st₁) (h' : SameGraph st₁ st') : SameGraph st st' :=
  ⟨h'.records.trans h.records, h'.cells.trans h.cells⟩

theorem field? (h : SameGraph st st') (p : Slot) : st'.field? p = st.field? p := by
  rw [State.field?, h.records, State.field?]

theorem content (h : SameGraph st st') (p : Slot) : st'.content p = st.content p := by
  have hvalue : st'.fieldValue = st.fieldValue := by
    funext f
    cases f with
    | plain v => rfl
    | reactive c => rw [fieldValue, h.cells, fieldValue]
  rw [State.content, h.field?, hvalue, State.content]

theorem channel? (h : SameGraph st st') (p : Slot) : st'.channel? p = st.channel? p := by
  rw [State.channel?, cell?, h.field?, h.cells, State.channel?, cell?]

theorem follow (h : SameGraph st st') (r : RecordId) (keys : List String) :
    st'.follow r keys = st.follow r keys := by
  induction keys generalizing r with
  | nil => rfl
  | cons key rest ih => simp only [State.follow, h.field?, h.content, ih]

theorem trail (h : SameGraph st st') (root : RecordId) (path : String) :
    st'.trail root path = st.trail root path := by
  rw [State.trail, h.field?, h.follow, State.trail]

theorem read (h : SameGraph st st') (root : RecordId) (path : String) :
    st'.read root path = st.read root path := by
  rw [State.read, h.trail, funext h.content, State.read]

theorem channelsRead (h : SameGraph st st') (root : RecordId) (path : String) :
    st'.channelsRead root path = st.channelsRead root path := by
  rw [State.channelsRead, h.trail, funext h.channel?, State.channelsRead]

end SameGraph

/-- The two states have the same records, cells, nodes and views. -/
structure OnlySubscriptions (st st' : State) : Prop where
  records : st'.records = st.records
  cells : st'.cells = st.cells
  nodes : st'.nodes = st.nodes
  views : st'.views = st.views

namespace OnlySubscriptions

theorem refl (st : State) : OnlySubscriptions st st := ⟨rfl, rfl, rfl, rfl⟩

theorem trans {st₁ st₂ st₃ : State} (h : OnlySubscriptions st₁ st₂)
    (h' : OnlySubscriptions st₂ st₃) : OnlySubscriptions st₁ st₃ :=
  ⟨h'.records.trans h.records, h'.cells.trans h.cells, h'.nodes.trans h.nodes,
    h'.views.trans h.views⟩

theorem foldl {α : Type} {f : State → α → State} (h : ∀ st a, OnlySubscriptions st (f st a))
    (l : List α) (st : State) : OnlySubscriptions st (l.foldl f st) := by
  induction l generalizing st with
  | nil => exact refl st
  | cons a rest ih => exact (h st a).trans (ih (f st a))

theorem graph {st st' : State} (h : OnlySubscriptions st st') : SameGraph st st' :=
  ⟨h.records, h.cells⟩

end OnlySubscriptions

section Frame

variable (st : State)

theorem onlySubscriptions_push (tasks : List Task) : OnlySubscriptions st (st.push tasks) :=
  ⟨rfl, rfl, rfl, rfl⟩

theorem onlySubscriptions_report (e : Event) : OnlySubscriptions st (st.report e) :=
  ⟨rfl, rfl, rfl, rfl⟩

theorem onlySubscriptions_updateWatcher (s : SubscriberId) (f : Watcher → Watcher) :
    OnlySubscriptions st (st.updateWatcher s f) :=
  ⟨rfl, rfl, rfl, rfl⟩

theorem onlySubscriptions_subscribe (c : ChannelId) (s : SubscriberId) :
    OnlySubscriptions st (st.subscribe c s) := by
  unfold subscribe
  split
  · exact ⟨rfl, rfl, rfl, rfl⟩
  · exact .refl st

theorem onlySubscriptions_subscribeAll (l : List ChannelId) (s : SubscriberId) :
    OnlySubscriptions st (st.subscribeAll l s) :=
  .foldl (fun st c => onlySubscriptions_subscribe st c s) l st

theorem onlySubscriptions_unsubscribe (c : ChannelId) (s : SubscriberId) :
    OnlySubscriptions st (st.unsubscribe c s) :=
  ⟨rfl, rfl, rfl, rfl⟩

theorem onlySubscriptions_leave (l : Sources) (s : SubscriberId) :
    OnlySubscriptions st (st.leave l s) :=
  .foldl (fun st c => onlySubscriptions_unsubscribe st c s) l st

theorem onlySubscriptions_hold (s : SubscriberId) : OnlySubscriptions st (st.hold s) :=
  ⟨rfl, rfl, rfl, rfl⟩

theorem onlySubscriptions_holdAll (l : List SubscriberId) : OnlySubscriptions st (st.holdAll l) :=
  .foldl onlySubscriptions_hold l st

theorem onlySubscriptions_release (s : SubscriberId) : OnlySubscriptions st (st.release s) := by
  unfold release
  simp only
  split
  · exact ⟨rfl, rfl, rfl, rfl⟩
  · split
    · -- The last holder has gone: the watcher leaves its sources and forgets them.
      have hleft := onlySubscriptions_leave
        { st with
          subscribers := st.subscribers.modify s fun b =>
            { b with holders := (st.subscribers.get s).holders - 1 } }
      exact ⟨(hleft _ s).records, (hleft _ s).cells, (hleft _ s).nodes, (hleft _ s).views⟩
    · exact ⟨rfl, rfl, rfl, rfl⟩

theorem onlySubscriptions_dispose (s : SubscriberId) : OnlySubscriptions st (st.dispose s) := by
  unfold dispose
  split
  · exact .trans (onlySubscriptions_updateWatcher st s _) (onlySubscriptions_leave _ _ s)
  · exact .refl st

theorem onlySubscriptions_prune (c : ChannelId) : OnlySubscriptions st (st.prune c) :=
  ⟨rfl, rfl, rfl, rfl⟩

theorem onlySubscriptions_notify (c : ChannelId) : OnlySubscriptions st (st.notify c) :=
  (onlySubscriptions_prune st c).trans <| (onlySubscriptions_holdAll _ _).trans <|
    (onlySubscriptions_report _ _).trans (onlySubscriptions_push _ _)

theorem onlySubscriptions_track (t : Tracking) (root : RecordId) (path : String) :
    OnlySubscriptions st (st.track t root path).2 :=
  onlySubscriptions_subscribeAll st _ _

theorem onlySubscriptions_reread (s : SubscriberId) (w : Watcher) :
    OnlySubscriptions st (st.reread s w) :=
  (onlySubscriptions_track st _ _ _).trans <|
    (onlySubscriptions_updateWatcher _ s _).trans (onlySubscriptions_leave _ _ s)

/-- A new subscriber leaves everything but the subscribers alone. -/
theorem onlySubscriptions_newSubscriber (b : Subscriber) :
    OnlySubscriptions st { st with subscribers := st.subscribers.alloc b } :=
  ⟨rfl, rfl, rfl, rfl⟩

theorem onlySubscriptions_watch (root : RecordId) (path : String) (reaction : Reaction) :
    OnlySubscriptions st (st.watch root path reaction).2 :=
  (onlySubscriptions_newSubscriber st _).trans <| (onlySubscriptions_track _ _ _ _).trans <|
    (onlySubscriptions_updateWatcher _ _ _).trans (onlySubscriptions_report _ _)

end Frame

/-! ## Operations on channels alone -/

section Channels

variable (st : State)

@[simp] theorem subscribers_subscribe (c : ChannelId) (s : SubscriberId) :
    (st.subscribe c s).subscribers = st.subscribers := by
  unfold subscribe
  split <;> rfl

@[simp] theorem subscribers_subscribeAll (l : List ChannelId) (s : SubscriberId) :
    (st.subscribeAll l s).subscribers = st.subscribers := by
  induction l generalizing st with
  | nil => rfl
  | cons c rest ih => exact (ih _).trans (st.subscribers_subscribe c s)

@[simp] theorem subscribers_leave (l : Sources) (s : SubscriberId) :
    (st.leave l s).subscribers = st.subscribers := by
  induction l generalizing st with
  | nil => rfl
  | cons c rest ih => exact ih _

@[simp] theorem subscribers_leaveAbandoned (previous next : Sources) (s : SubscriberId) :
    (st.leaveAbandoned previous next s).subscribers = st.subscribers :=
  st.subscribers_leave _ s

@[simp] theorem size_channels_subscribe (c : ChannelId) (s : SubscriberId) :
    (st.subscribe c s).channels.size = st.channels.size := by
  unfold subscribe
  split
  · simp
  · rfl

@[simp] theorem size_channels_subscribeAll (l : List ChannelId) (s : SubscriberId) :
    (st.subscribeAll l s).channels.size = st.channels.size := by
  induction l generalizing st with
  | nil => rfl
  | cons c rest ih => exact (ih _).trans (st.size_channels_subscribe c s)

@[simp] theorem size_channels_leave (l : Sources) (s : SubscriberId) :
    (st.leave l s).channels.size = st.channels.size := by
  induction l generalizing st with
  | nil => rfl
  | cons c rest ih => exact (ih _).trans (st.channels.size_modify _ _)

end Channels

/-! ## Operations on subscribers alone -/

section Subscribers

variable (st : State)

@[simp] theorem channels_holdAll (l : List SubscriberId) :
    (st.holdAll l).channels = st.channels := by
  induction l generalizing st with
  | nil => rfl
  | cons s rest ih => exact ih (st.hold s)

@[simp] theorem size_subscribers_hold (s : SubscriberId) :
    (st.hold s).subscribers.size = st.subscribers.size :=
  st.subscribers.size_modify s _

@[simp] theorem size_subscribers_holdAll (l : List SubscriberId) :
    (st.holdAll l).subscribers.size = st.subscribers.size := by
  induction l generalizing st with
  | nil => rfl
  | cons s rest ih => exact (ih _).trans (st.size_subscribers_hold s)

@[simp] theorem size_subscribers_updateWatcher (s : SubscriberId) (f : Watcher → Watcher) :
    (st.updateWatcher s f).subscribers.size = st.subscribers.size :=
  st.subscribers.size_modify s _

@[simp] theorem size_subscribers_release (s : SubscriberId) :
    (st.release s).subscribers.size = st.subscribers.size := by
  unfold release
  simp only
  split
  · exact Table.size_modify ..
  · split
    · rw [size_subscribers_updateWatcher, subscribers_leave]
      exact Table.size_modify ..
    · exact Table.size_modify ..

@[simp] theorem size_subscribers_dispose (s : SubscriberId) :
    (st.dispose s).subscribers.size = st.subscribers.size := by
  unfold dispose
  split
  · rw [subscribers_leave, size_subscribers_updateWatcher]
  · rfl

@[simp] theorem size_subscribers_notify (c : ChannelId) :
    (st.notify c).subscribers.size = st.subscribers.size :=
  (size_subscribers_holdAll _ _).trans rfl

@[simp] theorem size_channels_release (s : SubscriberId) :
    (st.release s).channels.size = st.channels.size := by
  unfold release
  simp only
  split
  · rfl
  · split
    · exact (size_channels_leave _ _ s).trans rfl
    · rfl

@[simp] theorem size_channels_dispose (s : SubscriberId) :
    (st.dispose s).channels.size = st.channels.size := by
  unfold dispose
  split
  · exact (size_channels_leave _ _ s).trans rfl
  · rfl

@[simp] theorem size_channels_reread (s : SubscriberId) (w : Watcher) :
    (st.reread s w).channels.size = st.channels.size := by
  calc (st.reread s w).channels.size
      = ((st.track { reader := s } w.root w.path).2.updateWatcher s _).channels.size :=
        size_channels_leave _ _ s
    _ = st.channels.size := size_channels_subscribeAll st _ s

@[simp] theorem size_channels_notify (c : ChannelId) :
    (st.notify c).channels.size = st.channels.size := by
  calc (st.notify c).channels.size
      = (st.prune c).channels.size := congrArg Table.size (channels_holdAll _ _)
    _ = st.channels.size := st.channels.size_modify _ _

@[simp] theorem size_subscribers_reread (s : SubscriberId) (w : Watcher) :
    (st.reread s w).subscribers.size = st.subscribers.size :=
  calc (st.reread s w).subscribers.size
      = ((st.track { reader := s } w.root w.path).2.updateWatcher s _).subscribers.size :=
        congrArg Table.size (subscribers_leaveAbandoned _ _ _ s)
    _ = (st.track { reader := s } w.root w.path).2.subscribers.size :=
        size_subscribers_updateWatcher _ _ _
    _ = st.subscribers.size := congrArg Table.size (subscribers_subscribeAll st _ s)

end Subscribers

end DataBinding.State
