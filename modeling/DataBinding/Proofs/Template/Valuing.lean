import DataBinding.Proofs.Template.Wiring
import DataBinding.Proofs.Course

set_option autoImplicit false

/-! # Form values when a tree is bound

Every watcher that binding a tree makes to show its value as a form value shows it already when the
tree is bound, unless another of the new watchers has set the same form value
(`Wires.valuing`). What binding does besides leaves form values alone.
-/

namespace DataBinding

open State

/-- Whether the subscriber is a watcher that shows its value as the form value of the node. -/
def State.setsValueOf (st : State) (s : SubscriberId) (n : NodeId) : Bool :=
  (st.watcher? s).any fun w => w.reaction = .showValue n

theorem setsValueOf_iff {st : State} {s : SubscriberId} {n : NodeId} :
    st.setsValueOf s n = true ↔ ∃ w, st.watcher? s = some w ∧ w.reaction = .showValue n := by
  rw [State.setsValueOf, Option.any_eq_true]
  simp only [decide_eq_true_eq]

/-- Each watcher from the number `size` on that shows its value as the form value of a node does
show the value it has seen, or another one of them sets that form value, too. -/
def Valuing (size : Nat) (st : State) : Prop :=
  ∀ s w n, size ≤ s.index → st.watcher? s = some w → w.reaction = .showValue n →
    n.index < st.nodes.size ∧ ((st.node n).value = w.seen.display ∨
      ∃ s', s' ≠ s ∧ size ≤ s'.index ∧ st.setsValueOf s' n = true)

section Valuing

variable {st st' : State} {n m : NodeId} {size : Nat}

/-- No watcher that is yet to be made sets anything. -/
theorem valuing_self (st : State) : Valuing st.subscribers.size st := by
  intro s w n hs hw
  exact absurd hs (Nat.not_le_of_lt (lt_size_of_watcher? hw))

/-- A step that leaves the form values alone, and makes no watcher that sets one. -/
theorem Valuing.keep (h : Valuing size st) (hsize : st.nodes.size ≤ st'.nodes.size)
    (hvalue : ∀ n : NodeId, n.index < st.nodes.size → (st'.node n).value = (st.node n).value)
    (hold : ∀ s w, st.watcher? s = some w → st'.watcher? s = some w)
    (hnew : ∀ s w n, st'.watcher? s = some w → w.reaction = .showValue n →
      st.watcher? s = some w) : Valuing size st' := by
  intro s w n hs hw hreaction
  obtain ⟨hn, hshown⟩ := h s w n hs (hnew s w n hw hreaction) hreaction
  refine ⟨Nat.lt_of_lt_of_le hn hsize, hshown.imp ?_ ?_⟩
  · exact (hvalue n hn).trans
  · rintro ⟨s', hne, hs', hsets⟩
    obtain ⟨w', hw', hreaction'⟩ := setsValueOf_iff.mp hsets
    exact ⟨s', hne, hs', setsValueOf_iff.mpr ⟨w', hold s' w' hw', hreaction'⟩⟩

theorem Valuing.congr (h : Valuing size st) (hsubscribers : st'.subscribers = st.subscribers)
    (hnodes : st'.nodes = st.nodes) : Valuing size st' := by
  refine h.keep (Nat.le_of_eq (by rw [hnodes])) ?_ ?_ ?_
  · intro n _
    rw [node_congr hnodes]
  · intro s w hw
    exact (watcher?_congr hsubscribers).trans hw
  · intro s w _ hw _
    exact (watcher?_congr hsubscribers).symm.trans hw

/-- Giving a node a text leaves the form values alone. -/
theorem value_setText (text : String) (hm : m.index < st.nodes.size) :
    ((st.setText n text).node m).value = (st.node m).value := by
  have hkept : ∀ (st : State) (f : Node → Node), (∀ b, (f b).value = b.value) →
      ((st.updateNode n f).node m).value = (st.node m).value :=
    fun _ _ hf => map_node_updateNode (g := Node.value) hf
  unfold setText
  split
  · split
    · exact hkept st _ fun _ => rfl
    · have hnew := node_newNode_of_lt hm (.ofText text)
      exact (hkept (st.newNode (.ofText text)).2
        (fun b => { b with children := [st.nodes.fresh] }) fun _ => rfl).trans
          (congrArg Node.value hnew)
  · exact hkept st _ fun _ => rfl

/-- Binding a form value sets it; making the watcher and the listener does not set any. -/
theorem value_bindModel (st : State) (view : ViewId) (m : NodeId) (key : String) (k : NodeId) :
    ((st.bindModel view m key).2.node k).value =
      ((st.updateNode m (·.setValue (st.readView view key).display)).node k).value := by
  let valued := st.updateNode m (·.setValue (st.readView view key).display)
  let watched := (valued.watch (st.view view).data key (.showValue m)).2
  have hnodes : watched.nodes = valued.nodes := (onlySubscriptions_watch ..).nodes
  have hlisten : ((watched.updateNode m (·.addListener "input" (.edit view key))).node k).value =
      (watched.node k).value := map_node_updateNode (g := Node.value) fun _ => rfl
  rw [bindModel_eq, listen_eq, hlisten, node_congr hnodes]

/-- A form value is set before the watcher is made that goes on setting it. -/
theorem Valuing.bindModel (h : Valuing size st) (hsize : size ≤ st.subscribers.size)
    (view : ViewId) (key : String) (hm : m.index < st.nodes.size) :
    Valuing size (st.bindModel view m key).2 := by
  let valued := st.updateNode m (·.setValue (st.readView view key).display)
  let shown := valued.firstWatcher (st.view view).data key (.showValue m)
  have hwatcher : ∀ s, (st.bindModel view m key).2.watcher? s =
      if s = st.subscribers.fresh then some shown else st.watcher? s :=
    (bindModel_addsWatcher st view m key).watcher
  have hkinds : KeepsKinds st (st.bindModel view m key).2 := bindModel_keepsKinds ..
  intro s w n hs hw hreaction
  rw [hwatcher] at hw
  split at hw
  · -- The new watcher has seen the value whose text was set.
    cases hw
    cases hreaction
    refine ⟨Nat.lt_of_lt_of_le hm hkinds.size, .inl ?_⟩
    have hgraph : SameGraph st valued := ⟨rfl, rfl⟩
    have hseen : shown.seen = st.readView view key := hgraph.read (st.view view).data key
    rw [value_bindModel, node_updateNode_eq hm, hseen]
    rfl
  · rename_i hne
    obtain ⟨hn, hshown⟩ := h s w n hs hw hreaction
    refine ⟨Nat.lt_of_lt_of_le hn hkinds.size, ?_⟩
    by_cases hmn : m = n
    · subst hmn
      refine .inr ⟨st.subscribers.fresh, Ne.symm hne, hsize,
        setsValueOf_iff.mpr ⟨shown, ?_, rfl⟩⟩
      rw [hwatcher, if_pos rfl]
    · refine hshown.imp ?_ ?_
      · intro hseen
        rw [value_bindModel, node_updateNode_ne hmn]
        exact hseen
      · rintro ⟨s', hss', hs', hsets⟩
        obtain ⟨w', hw', hreaction'⟩ := setsValueOf_iff.mp hsets
        refine ⟨s', hss', hs', setsValueOf_iff.mpr ⟨w', ?_, hreaction'⟩⟩
        rw [hwatcher, if_neg (Table.ne_fresh (lt_size_of_watcher? hw')), hw']

end Valuing

theorem Wire.valuing {view : ViewId} {size : Nat} {c c' : Compilation} (h : Wire view c c')
    (hsize : size ≤ c.state.subscribers.size) (hc : Valuing size c.state) :
    Valuing size c'.state := by
  cases h with
  | report e => exact hc
  | text n key hn hkind =>
      have hnodes := bindText_nodes c.state view n key
      refine hc.keep (bindText_keepsKinds ..).size ?_ ?_ ?_
      · intro m hm
        rw [node_congr hnodes]
        exact value_setText _ hm
      · intro s w hw
        exact (bindText_addsWatcher c.state view n key).watcher?_of_some hw
      · intro s w m hw hreaction
        rw [(bindText_addsWatcher c.state view n key).watcher] at hw
        split at hw
        · cases hw
          cases hreaction
        · exact hw
  | model n key hn => exact hc.bindModel hsize view key hn
  | click n method =>
      refine hc.keep (Nat.le_of_eq (Table.size_modify ..).symm) ?_ (fun _ _ => id)
        fun _ _ _ hw _ => hw
      intro m _
      exact map_node_updateNode (g := Node.value) fun _ => rfl

/-- When a tree is bound, the form values are those that the watchers have seen, unless two of them
set the same one. -/
theorem Wires.valuing {view : ViewId} {size : Nat} {st : State} {c : Compilation}
    (h : Wires view ⟨st, []⟩ c) (hsize : size ≤ st.subscribers.size) (hst : Valuing size st) :
    Valuing size c.state := by
  induction h with
  | refl => exact hst
  | tail hbefore hstep ih =>
      exact hstep.valuing (Nat.le_trans hsize (Wires.wired hbefore (.start view st)).size) ih

theorem Valuing.mounted {size : Nat} {st : State} (h : Valuing size st)
    (hsize : size ≤ st.subscribers.size) (root : NodeId) (o : ViewOptions) :
    Valuing size (st.mounted root o) := by
  have hviewed : Valuing size (st.withView root o) := h.congr subscribers_withView nodes_withView
  have hlarger : size ≤ (st.withView root o).subscribers.size := by
    rw [subscribers_withView]
    exact hsize
  have hbound : Valuing size (st.withTree root o) :=
    (wires_bindBelow st.views.fresh root ⟨st.withView root o, []⟩ _).valuing hlarger hviewed
  exact hbound.congr subscribers_mounted nodes_mounted

/-- What is known of the form values when a host has bound a tree, or has mounted a view. -/
theorem valuing_run {size : Nat} {st : State} {o : Operation} (h : o.isCompiling = true)
    (hsize : size ≤ st.subscribers.size) (hst : Valuing size st) : Valuing size (o.run st) := by
  cases o with
  | compile view root => exact (wires_bindBelow view root ⟨st, []⟩ _).valuing hsize hst
  | mount document? o =>
      simp only [Operation.run]
      cases hroot : st.resolveRoot document? o.root? with
      | error fault =>
          rw [mount_eq_error hroot]
          exact hst
      | ok root =>
          rw [mount_eq hroot]
          exact hst.mounted hsize root o
  | _ => cases h

end DataBinding
