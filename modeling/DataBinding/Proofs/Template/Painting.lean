import DataBinding.Proofs.Control
import DataBinding.Proofs.Template.Unmounting

set_option autoImplicit false

/-! # What the library writes into the tree

Telling a watcher is the only work of the library's that changes what a node shows. It writes one
node at most, the one that the watcher is for, and then the watcher has seen just the value that it
writes (`Paints`). What a watcher is for never changes.
-/

namespace DataBinding

open State

namespace State

/-- What a watcher is for: its root, its path and its reaction. -/
def purpose? (st : State) (s : SubscriberId) : Option (RecordId × String × Reaction) :=
  (st.watcher? s).map fun w => (w.root, w.path, w.reaction)

/-- The value that a watcher has seen. -/
def seen? (st : State) (s : SubscriberId) : Option Value := (st.watcher? s).map Watcher.seen

end State

/-- From `st` to `st'` subscribers may only have moved between channels and gained or lost
holders. -/
structure KeepsWatchers (st st' : State) : Prop where
  purpose : ∀ s, st'.purpose? s = st.purpose? s
  seen : ∀ s, st'.seen? s = st.seen? s

section Watchers

variable {st st' : State} {s u : SubscriberId} {w : Watcher} {v : Value}

theorem KeepsWatchers.of_watcher? (h : ∀ s, st'.watcher? s = st.watcher? s) :
    KeepsWatchers st st' :=
  ⟨fun s => by rw [purpose?, h, purpose?], fun s => by rw [seen?, h, seen?]⟩

/-- What may have been done to some of the watchers is seen neither in their purposes nor in what
they have seen. -/
theorem KeepsWatchers.of_map {P : SubscriberId → Prop} [DecidablePred P] {f : Watcher → Watcher}
    (h : ∀ s, st'.watcher? s = if P s then (st.watcher? s).map f else st.watcher? s)
    (hf : ∀ w, (f w).root = w.root ∧ (f w).path = w.path ∧ (f w).reaction = w.reaction ∧
      (f w).seen = w.seen) : KeepsWatchers st st' := by
  have hpurpose : (fun w => (w.root, w.path, w.reaction)) ∘ f =
      fun w : Watcher => (w.root, w.path, w.reaction) := by
    funext w
    obtain ⟨hroot, hpath, hreaction, -⟩ := hf w
    simp [hroot, hpath, hreaction]
  have hseen : Watcher.seen ∘ f = Watcher.seen := funext fun w => (hf w).2.2.2
  constructor
  · intro s
    rw [purpose?, h, purpose?]
    split
    · rw [Option.map_map, hpurpose]
    · rfl
  · intro s
    rw [seen?, h, seen?]
    split
    · rw [Option.map_map, hseen]
    · rfl

theorem keepsWatchers_reread (st : State) (s : SubscriberId) (w : Watcher) :
    KeepsWatchers st (st.reread s w) :=
  .of_map (fun _ => watcher?_reread) fun _ => ⟨rfl, rfl, rfl, rfl⟩

theorem keepsWatchers_release (st : State) (s : SubscriberId) :
    KeepsWatchers st (st.release s) :=
  .of_map (fun _ => watcher?_release) fun _ => ⟨rfl, rfl, rfl, rfl⟩

theorem purpose?_remember : (st.remember s v).purpose? u = st.purpose? u := by
  rw [purpose?, watcher?_remember, purpose?]
  split
  · rw [Option.map_map]
    rfl
  · rfl

theorem seen?_remember (hw : st.watcher? s = some w) :
    (st.remember s v).seen? u = if u = s then some v else st.seen? u := by
  rw [seen?, watcher?_remember, seen?]
  by_cases hus : u = s
  · subst hus
    rw [if_pos rfl, if_pos rfl, hw]
    rfl
  · rw [if_neg (Ne.symm hus), if_neg hus]

end Watchers

/-- Setting a text depends on the tree only. -/
theorem nodes_setText_congr {st st' : State} (h : st'.nodes = st.nodes) (n : NodeId)
    (text : String) : (st'.setText n text).nodes = (st.setText n text).nodes := by
  unfold setText
  rw [node_congr h]
  split
  · split
    · simp only [updateNode, h]
    · simp only [updateNode, newNode, h]
  · simp only [updateNode, h]

/-! ## Telling a watcher -/

/-- How telling the subscriber `s` shows in the tree. -/
inductive Paints (st : State) (s : SubscriberId) (st' : State) : Prop where
  | nothing (hnodes : st'.nodes = st.nodes) (hseen : ∀ u, st'.seen? u = st.seen? u)
  /-- The watcher gives its node a text, that of the value that it has seen then. -/
  | text (w : Watcher) (n : NodeId) (v : Value) (hw : st.watcher? s = some w)
      (hreaction : w.reaction = .showText n) (hnodes : st'.nodes = (st.setText n v.display).nodes)
      (hseen : ∀ u, st'.seen? u = if u = s then some v else st.seen? u)
  /-- The watcher sees to it that its node has a form value, that of the value that it has seen
  then. -/
  | value (w : Watcher) (n : NodeId) (v : Value) (hw : st.watcher? s = some w)
      (hreaction : w.reaction = .showValue n)
      (hnodes : (st'.nodes = st.nodes ∧ (st.node n).value = v.display) ∨
        st'.nodes = (st.updateNode n (·.setValue v.display)).nodes)
      (hseen : ∀ u, st'.seen? u = if u = s then some v else st.seen? u)

section Telling

variable {st : State} {s : SubscriberId} {w : Watcher} {n : NodeId}

/-- How a watcher that shows a form value shows a new one. -/
theorem paints_showValue (hw : st.watcher? s = some w) (hreaction : w.reaction = .showValue n)
    (v : Value) : Paints st s ((st.reread s w).react s v (.showValue n)) := by
  have hnodes : (st.reread s w).nodes = st.nodes := (onlySubscriptions_reread st s w).nodes
  have hself := watcher?_reread_self (w := w) hw
  have hseen : ∀ u, ((st.reread s w).remember s v).seen? u =
      if u = s then some v else st.seen? u := fun u => by
    rw [seen?_remember hself, (keepsWatchers_reread st s w).seen]
  simp only [react]
  split
  · rename_i hright
    rw [node_congr hnodes] at hright
    exact .value w n v hw hreaction (.inl ⟨hnodes, hright⟩) hseen
  · refine .value w n v hw hreaction (.inr ?_) hseen
    show (st.reread s w).nodes.modify n _ = _
    rw [hnodes]
    rfl

theorem paints_update (st : State) (s : SubscriberId) : Paints st s (st.update s) := by
  cases hw : st.watcher? s with
  | none =>
      -- It is a probe, and the host is called.
      cases hrole : (st.subscribers.get s).role with
      | watcher w => cases hw.symm.trans (watcher?_of_role hrole)
      | probe c =>
          rw [State.update, hrole]
          exact .nothing rfl fun _ => rfl
  | some w =>
      let v := st.read w.root w.path
      have hkept := keepsWatchers_reread st s w
      have hnodes : (st.reread s w).nodes = st.nodes := (onlySubscriptions_reread st s w).nodes
      have hself := watcher?_reread_self (w := w) hw
      rw [update_eq hw]
      split
      · exact .nothing rfl fun _ => rfl
      · split
        · exact .nothing hnodes hkept.seen
        · cases hreaction : w.reaction with
          | call c => exact .nothing hnodes hkept.seen
          | showValue n => exact paints_showValue hw hreaction v
          | showText n =>
              refine .text w n v hw hreaction (nodes_setText_congr hnodes n v.display) fun u => ?_
              simp only [react]
              rw [setText_rest]
              exact (seen?_remember (u := u) hself).trans (by rw [hkept.seen])

theorem purpose?_update (st : State) (s u : SubscriberId) :
    (st.update s).purpose? u = st.purpose? u := by
  have hreread := fun w => (keepsWatchers_reread st s w).purpose u
  have htelling := telling_update st s
  generalize st.update s = st' at htelling ⊢
  cases htelling with
  | probe | disposed => rfl
  | unchanged w | called w => exact hreread w
  | shown w m =>
      rw [purpose?_remember, setText_rest]
      exact hreread w
  | valued w m nodes =>
      rw [purpose?_remember]
      exact hreread w

end Telling

/-! ## All other work -/

/-- The two states look the same. -/
structure SameSight (st st' : State) : Prop where
  text : ∀ n, (st'.node n).text = (st.node n).text
  children : ∀ n, (st'.node n).children = (st.node n).children
  value : ∀ n, (st'.node n).value = (st.node n).value

section Work

variable {st st' : State}

theorem SameSight.of_nodes (h : st'.nodes = st.nodes) : SameSight st st' :=
  ⟨fun n => by rw [node_congr h], fun n => by rw [node_congr h], fun n => by rw [node_congr h]⟩

theorem SameSight.drop (rest : List Task) (h : SameSight { st with agenda := rest } st') :
    SameSight st st' :=
  ⟨h.text, h.children, h.value⟩

/-- Only listeners have gone. -/
theorem SameSight.of_without {l : List Attachment}
    (h : ∀ n, st'.node n = (st.node n).without n l) : SameSight st st' :=
  ⟨fun n => by rw [h]; rfl, fun n => by rw [h]; rfl, fun n => by rw [h]; rfl⟩

theorem sameSight_releaseView (st : State) (v : ViewId) : SameSight st (st.releaseView v) := by
  rw [releaseView_eq]
  split
  · exact .of_nodes rfl
  · have hunmounted : ∀ n, ((st.lessHeld v).unmount v).node n =
        ((st.lessHeld v).node n).without n (attachmentsOf ((st.lessHeld v).view v).bindings) :=
      fun _ => node_unmount v
    exact .of_without hunmounted

theorem sameSight_act (st : State) (n : NodeId) (a : Action) : SameSight st (st.act n a) := by
  cases a with
  | call c => exact .of_nodes rfl
  | edit v key =>
      simp only [act]
      split
      · exact .of_nodes (outside_writeView ((st.holdView v).push [.releaseView v]) v key _).1
      · exact .of_nodes rfl
  | invoke v name =>
      simp only [act, callMethod]
      split
      · cases st.method? v name with
        | ok c => exact .of_nodes rfl
        | error fault => exact .of_nodes rfl
      · exact .of_nodes rfl

/-- What the library does is not seen in the tree, unless it tells a subscriber. -/
theorem sameSight_step (h : ∀ s rest, st.agenda ≠ .update s :: rest) : SameSight st st.step := by
  unfold step
  split
  · exact .of_nodes rfl
  · rename_i task rest hagenda
    cases task with
    | update s => exact absurd hagenda (h s rest)
    | remember s v => exact .of_nodes rfl
    | release s => exact .of_nodes (onlySubscriptions_release { st with agenda := rest } s).nodes
    | act n a => exact (sameSight_act _ n a).drop rest
    | releaseView v => exact (sameSight_releaseView _ v).drop rest
    | call _ | running => exact .of_nodes rfl

end Work

end DataBinding
