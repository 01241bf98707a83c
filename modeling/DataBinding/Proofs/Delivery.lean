import DataBinding.Proofs.Settlement

set_option autoImplicit false

/-! # What telling subscribers changes

While the library tells subscribers (`Delivers`), it reports nothing, and it writes the nodes of
those that it tells only. The form value of a node is set to the text `d`, if it is not that text
already, when all who set it read values of that text (`Delivers.takes`). Texts and form values go
on being what the watchers have seen (`Delivers.showing`, `Delivers.value_cases`).
-/

namespace DataBinding

open State

/-! ## The journal -/

section Journal

variable (st : State)

theorem journal_foldl {α : Type} {f : State → α → State}
    (h : ∀ st a, (f st a).journal = st.journal) (l : List α) (st : State) :
    (l.foldl f st).journal = st.journal := by
  induction l generalizing st with
  | nil => rfl
  | cons a rest ih => rw [List.foldl_cons, ih, h]

theorem journal_leave (sources : Sources) (s : SubscriberId) :
    (st.leave sources s).journal = st.journal :=
  journal_foldl (fun st c => (rfl : (st.unsubscribe c s).journal = st.journal)) sources st

theorem journal_reread (s : SubscriberId) (w : Watcher) :
    (st.reread s w).journal = st.journal := by
  have hsubscribe : ∀ (st : State) (c : ChannelId), (st.subscribe c s).journal = st.journal := by
    intro st c
    unfold subscribe
    split
    · rfl
    · rfl
  unfold reread leaveAbandoned
  simp only
  rw [journal_leave]
  exact journal_foldl hsubscribe (st.channelsRead w.root w.path) st

theorem journal_release (s : SubscriberId) : (st.release s).journal = st.journal := by
  unfold release
  simp only
  split
  · rfl
  · split
    · exact journal_leave _ _ s
    · rfl

theorem journal_update (s : SubscriberId) : (st.update s).journal = st.journal := by
  have htelling := telling_update st s
  generalize st.update s = st' at htelling ⊢
  cases htelling with
  | probe | disposed => rfl
  | unchanged w | called w => exact journal_reread st s w
  | shown w n =>
      rw [setText_rest]
      exact journal_reread st s w
  | valued w n nodes => exact journal_reread st s w

/-- A notification reports how many are going to be told. -/
theorem journal_notify (c : ChannelId) : (st.notify c).journal =
    st.journal ++ [.notifying ((st.channels.get c).filter st.isAlive).length] := by
  have hheld : ∀ l : List SubscriberId, ((st.prune c).holdAll l).journal = st.journal := fun l =>
    journal_foldl (fun st s => (rfl : (st.hold s).journal = st.journal)) l _
  have hlive : (st.prune c).channels.get c = (st.channels.get c).filter st.isAlive := by
    rw [get_prune, if_pos rfl]
  show ((st.prune c).holdAll _).journal ++ _ = _
  rw [hheld, hlive]

end Journal

/-! ## The node of a watcher -/

section Nodes

variable {st st' : State} {s : SubscriberId} {n : NodeId}

/-- A watcher that is told writes no node but its own. -/
theorem Paints.node_eq (h : Paints st s st') (hn : n.index < st.nodes.size)
    (hother : ∀ w, st.watcher? s = some w → w.reaction.node? ≠ some n) :
    st'.node n = st.node n := by
  cases h with
  | nothing hnodes _ => exact node_congr hnodes n
  | text w m v hw hreaction hnodes _ =>
      have hmn : m ≠ n := fun hmn => hother w hw (by rw [hreaction, hmn]; rfl)
      rw [node_congr hnodes, node_setText_ne v.display hn hmn]
  | value w m v hw hreaction hnodes _ =>
      have hmn : m ≠ n := fun hmn => hother w hw (by rw [hreaction, hmn]; rfl)
      rcases hnodes with ⟨hnodes, -⟩ | hnodes
      · exact node_congr hnodes n
      · rw [node_congr hnodes, node_updateNode_ne hmn]

theorem Paints.listeners (h : Paints st s st') (n : NodeId) :
    (st'.node n).listeners = (st.node n).listeners := by
  cases h with
  | nothing hnodes _ => rw [node_congr hnodes]
  | text w m v _ _ hnodes _ => rw [node_congr hnodes, listeners_setText]
  | value w m v _ _ hnodes _ =>
      rcases hnodes with ⟨hnodes, -⟩ | hnodes
      · rw [node_congr hnodes]
      · rw [node_congr hnodes]
        exact map_node_updateNode (g := Node.listeners) fun _ => rfl

end Nodes

/-- The form value is as it was, or it was not the text `d` and has been set to it once. -/
def Node.Takes (d : String) (b b' : Node) : Prop :=
  b'.value = b.value ∧ b'.valueWrites = b.valueWrites ∨
    b.value ≠ d ∧ b'.value = d ∧ b'.valueWrites = b.valueWrites + 1

namespace Node.Takes

variable {d : String} {b b₁ b' : Node}

theorem of_eq (h : b' = b) : b.Takes d b' := .inl ⟨h ▸ rfl, h ▸ rfl⟩

/-- Once the form value is the text, it is not set again. -/
theorem trans (h : b.Takes d b₁) (h' : b₁.Takes d b') : b.Takes d b' := by
  rcases h with ⟨hvalue, hwrites⟩ | ⟨hdiffers, hvalue, hwrites⟩
  · rcases h' with ⟨hvalue', hwrites'⟩ | ⟨hdiffers', hvalue', hwrites'⟩
    · exact .inl ⟨hvalue'.trans hvalue, hwrites'.trans hwrites⟩
    · exact .inr ⟨hvalue ▸ hdiffers', hvalue', by rw [hwrites', hwrites]⟩
  · rcases h' with ⟨hvalue', hwrites'⟩ | ⟨hdiffers', -⟩
    · exact .inr ⟨hdiffers, hvalue'.trans hvalue, hwrites'.trans hwrites⟩
    · exact absurd hvalue hdiffers'

end Node.Takes

section Values

variable {st : State} {s : SubscriberId} {w : Watcher} {n : NodeId} {d : String}

/-- A node that is given a text keeps its form value. -/
theorem takes_setText (text : String) (hn : n.index < st.nodes.size) :
    (st.node n).Takes d ((st.setText n text).node n) := by
  have hkept : ∀ (st : State) (f : Node → Node), (∀ b, (f b).value = b.value) →
      (∀ b, (f b).valueWrites = b.valueWrites) → (st.node n).Takes d ((st.updateNode n f).node n) :=
    fun _ _ hvalue hwrites => .inl ⟨map_node_updateNode hvalue, map_node_updateNode hwrites⟩
  unfold setText
  split
  · split
    · exact hkept st _ (fun _ => rfl) fun _ => rfl
    · have hold := node_newNode_of_lt hn (.ofText text)
      have hset := hkept (st.newNode (.ofText text)).2
        (fun b => { b with children := [st.nodes.fresh] }) (fun _ => rfl) fun _ => rfl
      rw [hold] at hset
      exact hset
  · exact hkept st _ (fun _ => rfl) fun _ => rfl

theorem takes_showValue (hw : st.watcher? s = some w) (hreaction : w.reaction = .showValue n)
    (hn : n.index < st.nodes.size) :
    (st.node n).Takes (st.read w.root w.path).display ((st.update s).node n) := by
  have hnodes : (st.reread s w).nodes = st.nodes := (onlySubscriptions_reread st s w).nodes
  rw [update_eq hw]
  split
  · exact .of_eq rfl
  · split
    · exact .of_eq (node_congr hnodes n)
    · rw [hreaction]
      simp only [react, node_congr hnodes]
      split
      · exact .of_eq (node_congr hnodes n)
      · rename_i hdiffers
        have hset : ((((st.reread s w).updateNode n
            (·.setValue (st.read w.root w.path).display)).remember s
              (st.read w.root w.path)).node n) =
            (st.node n).setValue (st.read w.root w.path).display := by
          rw [← node_congr hnodes]
          exact node_updateNode_eq (hnodes ▸ hn) _
        rw [hset]
        exact .inr ⟨hdiffers, rfl, rfl⟩

/-- A watcher that is told sets the form value of its node to the text of what it reads. -/
theorem takes_update (hn : n.index < st.nodes.size) (hreads : ∀ w, st.watcher? s = some w →
      w.reaction = .showValue n → (st.read w.root w.path).display = d) :
    (st.node n).Takes d ((st.update s).node n) := by
  have hpaints := paints_update st s
  by_cases hother : ∀ w, st.watcher? s = some w → w.reaction.node? ≠ some n
  · exact .of_eq (hpaints.node_eq hn hother)
  push Not at hother
  obtain ⟨w, hw, hnode⟩ := hother
  cases hreaction : w.reaction with
  | call c =>
      rw [hreaction] at hnode
      cases hnode
  | showValue m =>
      rw [hreaction] at hnode
      cases hnode
      rw [← hreads w hw hreaction]
      exact takes_showValue hw hreaction hn
  | showText m =>
      rw [hreaction] at hnode
      cases hnode
      cases hpaints with
      | nothing hnodes _ => exact .of_eq (node_congr hnodes n)
      | text w' m' v hw' hreaction' hnodes _ =>
          cases hw.symm.trans hw'
          cases hreaction.symm.trans hreaction'
          rw [node_congr hnodes]
          exact takes_setText v.display hn
      | value w' m' v hw' hreaction' _ _ =>
          cases hw.symm.trans hw'
          cases hreaction.symm.trans hreaction'

end Values

/-! ## Telling one after another -/

namespace Delivers

variable {T : SubscriberId → Prop} {st st' : State} {n : NodeId}

theorem journal_eq (h : Delivers T st st') : st'.journal = st.journal := by
  induction h with
  | refl => rfl
  | tail _ hstep ih =>
      refine Eq.trans ?_ ih
      cases hstep with
      | told s _ => exact journal_update _ s
      | letGo s => exact journal_release _ s
      | turned agenda => rfl

theorem listeners_eq (h : Delivers T st st') (n : NodeId) :
    (st'.node n).listeners = (st.node n).listeners := by
  induction h with
  | refl => rfl
  | tail _ hstep ih =>
      refine Eq.trans ?_ ih
      cases hstep with
      | told s _ => exact (paints_update _ s).listeners n
      | letGo s => rw [node_congr (onlySubscriptions_release _ s).nodes]
      | turned agenda => rfl

/-- A watcher of a later state was for the same before. -/
theorem exists_watcher (h : Delivers T st st') {s : SubscriberId} {w' : Watcher}
    (hw' : st'.watcher? s = some w') : ∃ w, st.watcher? s = some w ∧ w.root = w'.root ∧
      w.path = w'.path ∧ w.reaction = w'.reaction :=
  watcher?_of_purpose? (h.settled.repainted.purpose s).symm hw'

theorem lt_size (h : Delivers T st st') (hn : n.index < st.nodes.size) :
    n.index < st'.nodes.size :=
  Nat.lt_of_lt_of_le hn h.settled.repainted.kinds.size

/-- A node to which none of those writes who are told is as it was. -/
theorem node_eq (h : Delivers T st st') (hn : n.index < st.nodes.size)
    (hother : ∀ s w, T s → st.watcher? s = some w → w.reaction.node? ≠ some n) :
    st'.node n = st.node n := by
  induction h with
  | refl => rfl
  | tail hbefore hstep ih =>
      refine Eq.trans ?_ ih
      cases hstep with
      | told s hs =>
          refine (paints_update _ s).node_eq (lt_size hbefore hn) fun w' hw' => ?_
          obtain ⟨w, hw, -, -, hreaction⟩ := exists_watcher hbefore hw'
          rw [← hreaction]
          exact hother s w hs hw
      | letGo s => exact node_congr (onlySubscriptions_release _ s).nodes n
      | turned agenda => rfl

theorem takes {d : String} (h : Delivers T st st') (hn : n.index < st.nodes.size)
    (hreads : ∀ s w, T s → st.watcher? s = some w → w.reaction = .showValue n →
      (st.read w.root w.path).display = d) : (st.node n).Takes d (st'.node n) := by
  induction h with
  | refl => exact .of_eq rfl
  | tail hbefore hstep ih =>
      refine ih.trans ?_
      cases hstep with
      | told s hs =>
          refine takes_update (lt_size hbefore hn) fun w' hw' hreaction' => ?_
          obtain ⟨w, hw, hroot, hpath, hreaction⟩ := exists_watcher hbefore hw'
          rw [(Delivers.settled hbefore).graph.read, ← hroot, ← hpath]
          exact hreads s w hs hw (hreaction.trans hreaction')
      | letGo s => exact .of_eq (node_congr (onlySubscriptions_release _ s).nodes n)
      | turned agenda => exact .of_eq rfl

/-- Watchers go on showing what they have seen, unless they write over one another. -/
theorem showing {size : Nat} (h : Delivers T st st') (hT : ∀ s, T s → size ≤ s.index)
    (hst : Showing size st) : Showing size st' := by
  induction h with
  | refl => exact hst
  | @tail st₁ _ _ hstep ih =>
      cases hstep with
      | told s hs => exact (paints_update _ s).showing (hT s hs) (purpose?_update _ s) ih
      | letGo s =>
          have hkept := keepsWatchers_release st₁ s
          have hnodes := (onlySubscriptions_release st₁ s).nodes
          refine ih.spared (.of_nodes hnodes)
            (.of_purpose? hkept.purpose fun s _ _ _ => hkept.seen s) fun _ _ n _ _ => ?_
          simp only [node_congr hnodes, implies_true, and_self]
      | turned agenda => exact ih.congr rfl rfl

/-- If nobody else who is told sets its form value, a watcher has seen nothing new and its node has
its form value, or that is the value that the watcher has seen. -/
theorem value_cases {s : SubscriberId} {w w' : Watcher} (h : Delivers T st st')
    (hw : st.watcher? s = some w) (hreaction : w.reaction = .showValue n)
    (hn : n.index < st.nodes.size)
    (halone : ∀ u, T u → st.setsValueOf u n = true → u = s) (hw' : st'.watcher? s = some w') :
    (w'.seen = w.seen ∧ (st'.node n).value = (st.node n).value) ∨
      (st'.node n).value = w'.seen.display := by
  induction h generalizing w' with
  | refl =>
      cases hw.symm.trans hw'
      exact .inl ⟨rfl, rfl⟩
  | @tail st₁ _ hbefore hstep ih =>
      obtain ⟨w₁, hw₁, -, -, hsame⟩ :=
        watcher?_of_purpose? ((Delivers.settled hbefore).repainted.purpose s) hw
      cases hstep with
      | told u hu =>
          obtain ⟨hseen, hkept⟩ | hset | ⟨hne, hsets⟩ := (paints_update st₁ u).value_cases hw₁
            (hsame.trans hreaction) (lt_size hbefore hn) hw'
          · rw [hseen, hkept]
            exact ih hw₁
          · exact .inr hset
          · obtain ⟨w₂, hw₂, hreaction₂⟩ := setsValueOf_iff.mp hsets
            obtain ⟨w₀, hw₀, -, -, hsame₀⟩ := exists_watcher hbefore hw₂
            exact absurd (halone u hu (setsValueOf_iff.mpr ⟨w₀, hw₀, hsame₀.trans hreaction₂⟩)) hne
      | letGo u =>
          have hseen := ((keepsWatchers_release st₁ u).seen s).trans (seen?_of_watcher? hw₁)
          rw [seen_eq hw' hseen, node_congr (onlySubscriptions_release st₁ u).nodes]
          exact ih hw₁
      | turned agenda =>
          cases hw₁.symm.trans hw'
          exact ih hw₁

end Delivers

end DataBinding
