import DataBinding.Proofs.Template.Wiring
import DataBinding.Proofs.Course

set_option autoImplicit false

/-! # What a tree shows when it is bound

Every watcher that binding a tree makes to show its value as a text shows it already when the
tree is bound, unless another of the new watchers has written over it (`Wires.showing`).
-/

namespace DataBinding

open State

/-- Each watcher from the number `size` on that shows its value as the text of a node does show
the value it has seen, or another one of them shows its own in that node or in a child of it. -/
def Showing (size : Nat) (st : State) : Prop :=
  ∀ s w n, size ≤ s.index → st.watcher? s = some w → w.reaction = .showText n →
    n.index < st.nodes.size ∧ (st.Shows n w.seen.display ∨
      ∃ s', s' ≠ s ∧ size ≤ s'.index ∧ st.showsIn s' n = true)

section Showing

variable {st st' : State} {s : SubscriberId} {n m : NodeId} {size : Nat}

/-- No watcher that is yet to be made shows anything. -/
theorem showing_self (st : State) : Showing st.subscribers.size st := by
  intro s w n hs hw
  have hknown := lt_size_of_watcher? hw
  exact absurd hs (Nat.not_le_of_lt hknown)

theorem showsIn_iff : st.showsIn s n = true ↔
    ∃ w m, st.watcher? s = some w ∧ w.reaction = .showText m ∧
      (m = n ∨ m ∈ (st.node n).children) := by
  unfold showsIn
  cases hw : st.watcher? s with
  | none => simp
  | some w =>
      cases hr : w.reaction with
      | showText m => simp [hr]
      | showValue m => simp [hr]
      | call c => simp [hr]

/-- A step that leaves the texts of all nodes alone, and makes no watcher that shows one. -/
theorem Showing.keep (h : Showing size st) (hkinds : KeepsKinds st st')
    (hnodes : ∀ n, (st'.node n).text = (st.node n).text ∧
      (st'.node n).children = (st.node n).children)
    (hold : ∀ s w, st.watcher? s = some w → st'.watcher? s = some w)
    (hnew : ∀ s w n, st'.watcher? s = some w → w.reaction = .showText n →
      st.watcher? s = some w) : Showing size st' := by
  intro s w n hs hw hreaction
  obtain ⟨hn, hshown⟩ := h s w n hs (hnew s w n hw hreaction) hreaction
  refine ⟨Nat.lt_of_lt_of_le hn hkinds.size, hshown.imp ?_ ?_⟩
  · intro hshows
    exact hshows.keep hn hkinds (hnodes n).1 (hnodes n).2 fun m _ _ => (hnodes m).1
  · rintro ⟨s', hne, hs', hshows⟩
    obtain ⟨w', m, hw', hr', hm⟩ := showsIn_iff.mp hshows
    refine ⟨s', hne, hs', showsIn_iff.mpr ⟨w', m, hold s' w' hw', hr', ?_⟩⟩
    rw [(hnodes n).2]
    exact hm

theorem Showing.congr (h : Showing size st) (hsubscribers : st'.subscribers = st.subscribers)
    (hnodes : st'.nodes = st.nodes) : Showing size st' := by
  refine h.keep (.of_nodes hnodes) ?_ ?_ ?_
  · intro n
    rw [node_congr hnodes]
    exact ⟨rfl, rfl⟩
  · intro s w hw
    exact (watcher?_congr hsubscribers).trans hw
  · intro s w _ hw _
    exact (watcher?_congr hsubscribers).symm.trans hw

theorem Showing.bindText (h : Showing size st) (hsize : size ≤ st.subscribers.size)
    (view : ViewId) (key : String) (hm : m.index < st.nodes.size)
    (hkind : (st.node m).kind ≠ .other) : Showing size (st.bindText view m key).2 := by
  let text := (st.readView view key).display
  let shown := (st.setText m text).firstWatcher (st.view view).data key (.showText m)
  have hwatcher : ∀ s, (st.bindText view m key).2.watcher? s =
      if s = st.subscribers.fresh then some shown else st.watcher? s :=
    (bindText_addsWatcher st view m key).watcher
  have hnodes : (st.bindText view m key).2.nodes = (st.setText m text).nodes :=
    bindText_nodes ..
  have hkinds : KeepsKinds st (st.bindText view m key).2 := bindText_keepsKinds ..
  intro s w n hs hw hreaction
  rw [hwatcher] at hw
  split at hw
  · -- The new watcher: its text was given to the node just before.
    cases hw
    cases hreaction
    refine ⟨Nat.lt_of_lt_of_le hm hkinds.size, .inl ?_⟩
    have hgraph : SameGraph st (st.setText m text) := by
      rw [setText_rest]
      exact ⟨rfl, rfl⟩
    have hseen : shown.seen = st.readView view key := hgraph.read (st.view view).data key
    have hshows : (st.setText m text).Shows m text := shows_setText hm hkind
    rw [hseen]
    refine hshows.keep ?_ (.of_nodes hnodes) ?_ ?_ ?_
    · exact Nat.lt_of_lt_of_le hm (KeepsKinds.setText text).size
    · rw [node_congr hnodes]
    · rw [node_congr hnodes]
    · intro c _ _
      rw [node_congr hnodes]
  · rename_i hne
    obtain ⟨hn, hshown⟩ := h s w n hs hw hreaction
    refine ⟨Nat.lt_of_lt_of_le hn hkinds.size, ?_⟩
    have hother : ∀ c : NodeId, c.index < st.nodes.size → m ≠ c →
        (st.bindText view m key).2.node c = st.node c := by
      intro c hc hmc
      rw [node_congr hnodes, node_setText_ne text hc hmc]
    by_cases hhit : m = n ∨ m ∈ (st.node n).children
    · -- The new text went where the older watcher shows its own.
      refine .inr ⟨st.subscribers.fresh, Ne.symm hne, hsize,
        showsIn_iff.mpr ⟨shown, m, ?_, rfl, ?_⟩⟩
      · rw [hwatcher, if_pos rfl]
      · by_cases hmn : m = n
        · exact .inl hmn
        · rw [hother n hn hmn]
          exact hhit
    · rw [not_or] at hhit
      refine hshown.imp ?_ ?_
      · intro hshows
        refine hshows.keep hn hkinds ?_ ?_ ?_
        · rw [hother n hn hhit.1]
        · rw [hother n hn hhit.1]
        · intro c hc hcsize
          rw [hother c hcsize fun hmc => hhit.2 (hmc ▸ hc)]
      · rintro ⟨s', hss', hs', hshows⟩
        obtain ⟨w', k, hw', hr', hk⟩ := showsIn_iff.mp hshows
        refine ⟨s', hss', hs', showsIn_iff.mpr ⟨w', k, ?_, hr', ?_⟩⟩
        · rw [hwatcher, if_neg (Table.ne_fresh (lt_size_of_watcher? hw')), hw']
        · rw [hother n hn hhit.1]
          exact hk

end Showing

theorem Wire.showing {view : ViewId} {size : Nat} {c c' : Compilation} (h : Wire view c c')
    (hsize : size ≤ c.state.subscribers.size) (hc : Showing size c.state) :
    Showing size c'.state := by
  have hlistener : ∀ (st : State) (n : NodeId) (event : String) (a : Action) (k : NodeId),
      ((st.listen n event a).2.node k).text = (st.node k).text ∧
        ((st.listen n event a).2.node k).children = (st.node k).children := by
    intro st n event a k
    rw [listen_eq]
    exact ⟨map_node_updateNode (g := Node.text) fun _ => rfl,
      map_node_updateNode (g := Node.children) fun _ => rfl⟩
  cases h with
  | report e => exact hc
  | text n key hn hkind => exact hc.bindText hsize view key hn hkind
  | model n key _ =>
      let data := (c.state.view view).data
      let valued := c.state.updateNode n (·.setValue (c.state.read data key).display)
      let watched := (valued.watch data key (.showValue n)).2
      have hafter : (c.state.bindModel view n key).2 =
          (watched.listen n "input" (.edit view key)).2 := rfl
      have hnodes : watched.nodes = valued.nodes := (onlySubscriptions_watch ..).nodes
      refine hc.keep (bindModel_keepsKinds ..) ?_ ?_ ?_
      · intro k
        rw [hafter, (hlistener watched n "input" (.edit view key) k).1,
          (hlistener watched n "input" (.edit view key) k).2, node_congr hnodes]
        exact ⟨map_node_updateNode (g := Node.text) fun _ => rfl,
          map_node_updateNode (g := Node.children) fun _ => rfl⟩
      · intro s w hw
        exact (bindModel_addsWatcher c.state view n key).watcher?_of_some hw
      · intro s w k hw hreaction
        rw [(bindModel_addsWatcher c.state view n key).watcher] at hw
        split at hw
        · cases hw
          cases hreaction
        · exact hw
  | click n method =>
      exact hc.keep (.updateNode fun _ => rfl) (hlistener c.state n "click" (.invoke view method))
        (fun _ _ => id) fun _ _ _ hw _ => hw

/-- When a tree is bound, watchers go on showing what they have seen, unless they write over one
another. -/
theorem Wires.showing {view : ViewId} {size : Nat} {st : State} {c : Compilation}
    (h : Wires view ⟨st, []⟩ c) (hsize : size ≤ st.subscribers.size) (hst : Showing size st) :
    Showing size c.state := by
  induction h with
  | refl => exact hst
  | tail hbefore hstep ih =>
      exact hstep.showing (Nat.le_trans hsize (Wires.wired hbefore (.start view st)).size) ih

theorem Showing.mounted {size : Nat} {st : State} (h : Showing size st)
    (hsize : size ≤ st.subscribers.size) (root : NodeId) (o : ViewOptions) :
    Showing size (st.mounted root o) := by
  have hviewed : Showing size (st.withView root o) := h.congr subscribers_withView nodes_withView
  have hlarger : size ≤ (st.withView root o).subscribers.size := by
    rw [subscribers_withView]
    exact hsize
  have hbound : Showing size (st.withTree root o) :=
    (wires_bindBelow st.views.fresh root ⟨st.withView root o, []⟩ _).showing hlarger hviewed
  exact hbound.congr subscribers_mounted nodes_mounted

/-- What is known of the texts when a host has bound a tree, or has mounted a view. -/
theorem showing_run {size : Nat} {st : State} {o : Operation} (h : o.isCompiling = true)
    (hsize : size ≤ st.subscribers.size) (hst : Showing size st) : Showing size (o.run st) := by
  cases o with
  | compile view root => exact (wires_bindBelow view root ⟨st, []⟩ _).showing hsize hst
  | mount document? o =>
      simp only [Operation.run]
      cases hroot : st.resolveRoot document? o.root? with
      | error fault =>
          rw [mount_eq_error hroot]
          exact hst
      | ok root =>
          rw [mount_eq hroot]
          exact hst.mounted hsize root o
  | _ => cases h

end DataBinding
