import DataBinding.Mounting

set_option autoImplicit false

/-! # What operations do to the agenda

No operation takes anything off the agenda. Most leave it alone; those that write a value put
the updates of some subscribers in front of it (`writePath_agenda` and its like), and telling a
watcher puts at most a call to the host there (`update_agenda`).
-/

namespace DataBinding.State

/-! ## Operations that leave the agenda alone -/

section Unchanged

variable (st : State)

@[simp] theorem agenda_push (tasks : List Task) : (st.push tasks).agenda = tasks ++ st.agenda := rfl

@[simp] theorem agenda_report (e : Event) : (st.report e).agenda = st.agenda := rfl

@[simp] theorem agenda_updateNode (n : NodeId) (f : Node → Node) :
    (st.updateNode n f).agenda = st.agenda := rfl

@[simp] theorem agenda_updateWatcher (s : SubscriberId) (f : Watcher → Watcher) :
    (st.updateWatcher s f).agenda = st.agenda := rfl

@[simp] theorem agenda_putField (p : Slot) (f : Field) : (st.putField p f).agenda = st.agenda := rfl

@[simp] theorem agenda_subscribe (c : ChannelId) (s : SubscriberId) :
    (st.subscribe c s).agenda = st.agenda := by
  unfold subscribe
  split <;> rfl

@[simp] theorem agenda_unsubscribe (c : ChannelId) (s : SubscriberId) :
    (st.unsubscribe c s).agenda = st.agenda := rfl

@[simp] theorem agenda_store (c : CellId) (v : Value) : (st.store c v).agenda = st.agenda := rfl

@[simp] theorem agenda_hold (s : SubscriberId) : (st.hold s).agenda = st.agenda := rfl

@[simp] theorem agenda_holdView (v : ViewId) : (st.holdView v).agenda = st.agenda := rfl

@[simp] theorem agenda_prune (c : ChannelId) : (st.prune c).agenda = st.agenda := rfl

end Unchanged

/-- A fold of operations that leave the agenda alone leaves it alone. -/
theorem agenda_foldl {α : Type} (f : State → α → State)
    (h : ∀ st a, (f st a).agenda = st.agenda) (l : List α) (st : State) :
    (l.foldl f st).agenda = st.agenda := by
  induction l generalizing st with
  | nil => rfl
  | cons a rest ih => rw [List.foldl_cons, ih, h]

section Unchanged

variable (st : State)

@[simp] theorem agenda_leave (sources : Sources) (s : SubscriberId) :
    (st.leave sources s).agenda = st.agenda :=
  agenda_foldl (fun st c => st.unsubscribe c s) (fun _ _ => rfl) sources st

@[simp] theorem agenda_leaveAbandoned (previous next : Sources) (s : SubscriberId) :
    (st.leaveAbandoned previous next s).agenda = st.agenda :=
  agenda_leave st _ s

@[simp] theorem agenda_holdAll (l : List SubscriberId) : (st.holdAll l).agenda = st.agenda :=
  agenda_foldl hold (fun _ _ => rfl) l st

@[simp] theorem agenda_subscribeAll (l : List ChannelId) (s : SubscriberId) :
    (st.subscribeAll l s).agenda = st.agenda :=
  agenda_foldl _ (fun st c => agenda_subscribe st c s) l st

@[simp] theorem agenda_release (s : SubscriberId) : (st.release s).agenda = st.agenda := by
  unfold release
  simp only
  split
  · rfl
  · split <;> simp

@[simp] theorem agenda_track (t : Tracking) (root : RecordId) (path : String) :
    (st.track t root path).2.agenda = st.agenda := by
  simp [track]

@[simp] theorem agenda_reread (s : SubscriberId) (w : Watcher) :
    (st.reread s w).agenda = st.agenda := by
  simp [reread]

@[simp] theorem agenda_remember (s : SubscriberId) (v : Value) :
    (st.remember s v).agenda = st.agenda := rfl

@[simp] theorem agenda_dispose (s : SubscriberId) : (st.dispose s).agenda = st.agenda := by
  unfold dispose
  split <;> simp

@[simp] theorem agenda_setText (n : NodeId) (text : String) :
    (st.setText n text).agenda = st.agenda := by
  unfold setText
  split
  · split <;> rfl
  · rfl

@[simp] theorem agenda_newCell (key : String) (v : Value) :
    (st.newCell key v).2.agenda = st.agenda := rfl

theorem agenda_observeValueBy {observe : State → RecordId → State}
    (h : ∀ st r, (observe st r).agenda = st.agenda) (v : Value) :
    (observeValueBy observe st v).agenda = st.agenda := by
  rw [observeValueBy_eq]
  cases v.record? with
  | none => rfl
  | some r => exact h st r

theorem agenda_observeWithin {atBound : State → RecordId → State}
    (h : ∀ st r, (atBound st r).agenda = st.agenda) (depth : Nat) (r : RecordId) :
    (observeWithin atBound depth st r).agenda = st.agenda := by
  induction depth generalizing st r with
  | zero => exact h st r
  | succ depth ih =>
    rw [observeWithin]
    split
    · refine agenda_foldl _ (fun st e => ?_) _ (st.markObserved r)
      exact agenda_observeValueBy st ih e.2
    · rfl

@[simp] theorem agenda_observe (r : RecordId) : (st.observe r).agenda = st.agenda := by
  rw [observe, agenda_observeWithin st fun _ _ => rfl]

@[simp] theorem agenda_observeValue (v : Value) : (st.observeValue v).agenda = st.agenda :=
  agenda_observeValueBy st agenda_observe v

@[simp] theorem agenda_detach (b : Binding) : (st.detach b).agenda = st.agenda := by
  unfold detach
  simp only
  rw [agenda_foldl unlisten (fun _ _ => rfl), agenda_foldl _ (fun st s => by simp)]

@[simp] theorem agenda_unmount (v : ViewId) : (st.unmount v).agenda = st.agenda := by
  unfold unmount
  rw [agenda_foldl _ agenda_detach]

@[simp] theorem agenda_releaseView (v : ViewId) : (st.releaseView v).agenda = st.agenda := by
  unfold releaseView
  simp only
  split <;> simp

end Unchanged

/-! ## Operations that set out to tell subscribers -/

section Telling

variable (st : State)

theorem notify_agenda (c : ChannelId) :
    ∃ l, (st.notify c).agenda = updates l ++ st.agenda :=
  ⟨(st.prune c).channels.get c, by simp [notify]⟩

theorem assign_agenda (c : CellId) (v : Value) :
    ∃ l, (st.assign c v).agenda = updates l ++ st.agenda := by
  unfold assign
  split
  · exact (notify_agenda _ _).imp fun l h => h.trans (by simp)
  · exact ⟨[], rfl⟩

theorem writeField_agenda (p : Slot) (v : Value) :
    ∃ l, (st.writeField p v).agenda = updates l ++ st.agenda := by
  unfold writeField
  split
  · exact st.assign_agenda _ v
  · exact ⟨[], rfl⟩

theorem writePath_agenda (root : RecordId) (path : String) (v : Value) :
    ∃ l, (st.writePath root path v).agenda = updates l ++ st.agenda := by
  unfold writePath
  split
  · exact st.writeField_agenda _ v
  · split
    · exact st.writeField_agenda _ v
    · split
      · exact st.writeField_agenda _ v
      · exact ⟨[], rfl⟩

theorem writeView_agenda (view : ViewId) (key : String) (v : Value) :
    ∃ l, (st.writeView view key v).agenda = updates l ++ st.agenda := by
  unfold writeView
  split
  · exact ⟨[], rfl⟩
  · exact st.writePath_agenda _ key v

end Telling

/-- Telling a subscriber puts nothing on the agenda, or a call to the host, behind which a
watcher keeps its value. -/
theorem update_agenda (st : State) (s : SubscriberId) :
    (st.update s).agenda = st.agenda ∨ (∃ c, (st.update s).agenda = .call c :: st.agenda) ∨
      ∃ c v, (st.update s).agenda = .call c :: .remember s v :: st.agenda := by
  unfold update
  split
  · exact .inr (.inl ⟨_, rfl⟩)
  · rename_i w _
    split
    · exact .inl rfl
    · simp only
      split
      · exact .inl (by simp)
      · cases w.reaction with
        | showText n => exact .inl (by simp [react])
        | showValue n => exact .inl (by simp only [react]; split <;> simp)
        | call c => exact .inr (.inr ⟨_, _, by simp [react]; exact ⟨rfl, rfl⟩⟩)

end DataBinding.State
