import DataBinding.Proofs.Template.Demand
import DataBinding.Proofs.Lasting

set_option autoImplicit false

/-! # Listeners come and go

A node gives each of its listeners a number that it has not given before. So along a run its table
of listeners ages in one direction (`Ages`): those it has may go, and those that come have numbers
that are new to it. What binding a tree attaches to a node can therefore be told apart from all
else that ever was there, by the numbers that the node gave out meanwhile (`Attached`). As to
attributes, a node has one of each name (`Run.attributes_nodup`).
-/

namespace DataBinding

open State Relation

/-- What the bindings of a list attach to nodes. -/
def attachmentsOf (bs : List Binding) : List Attachment := bs.flatMap (·.listeners)

/-! ## Tables of listeners and attributes -/

theorem mem_names_putAttribute {name value x : String} {l : List Attribute}
    (h : x ∈ (Node.putAttribute name value l).map Attribute.name) :
    x = name ∨ x ∈ l.map Attribute.name := by
  induction l with
  | nil => exact .inl (List.mem_singleton.mp h)
  | cons a rest ih =>
      rw [Node.putAttribute] at h
      split at h
      · exact .inr h
      · rw [List.map_cons, List.mem_cons] at h ⊢
        rcases h with h | h
        · exact .inr (.inl h)
        · exact (ih h).imp_right .inr

/-- A node that has one attribute of each name still has, when one of them is set. -/
theorem nodup_putAttribute (name value : String) {l : List Attribute}
    (h : (l.map Attribute.name).Nodup) :
    ((Node.putAttribute name value l).map Attribute.name).Nodup := by
  induction l with
  | nil => exact List.nodup_singleton name
  | cons a rest ih =>
      rw [List.map_cons, List.nodup_cons] at h
      rw [Node.putAttribute]
      split
      · rw [List.map_cons, List.nodup_cons]
        exact h
      · rename_i hname
        rw [List.map_cons, List.nodup_cons]
        refine ⟨fun hmem => ?_, ih h.2⟩
        rcases mem_names_putAttribute hmem with hsame | hrest
        · exact hname hsame
        · exact h.1 hrest

/-- The listeners of a node are numbered in their order, with numbers that the node has given out. -/
structure Node.IsOrdered (b : Node) : Prop where
  ascending : b.listeners.Pairwise fun l l' => l.number < l'.number
  given : ∀ l ∈ b.listeners, l.number < b.nextListener

/-- What may become of the listeners of a node: some go, and the new ones have numbers that were
not given out before and come behind the others. It has one attribute of each name, if it had. -/
structure Node.AgesTo (b b' : Node) : Prop where
  next : b.nextListener ≤ b'.nextListener
  listener : ∀ l ∈ b'.listeners,
    l ∈ b.listeners ∨ b.nextListener ≤ l.number ∧ l.number < b'.nextListener
  ordered : b.IsOrdered → b'.IsOrdered
  attributes : (b.attributes.map Attribute.name).Nodup → (b'.attributes.map Attribute.name).Nodup

namespace Node.AgesTo

variable {b b₁ b' : Node}

theorem of_same (hnext : b'.nextListener = b.nextListener)
    (hlisteners : b'.listeners = b.listeners) (hattributes : b'.attributes = b.attributes) :
    b.AgesTo b' := by
  refine ⟨Nat.le_of_eq hnext.symm, fun _ hl => .inl (hlisteners ▸ hl), fun h => ⟨?_, ?_⟩,
    fun h => hattributes ▸ h⟩
  · rw [hlisteners]
    exact h.ascending
  · rw [hlisteners, hnext]
    exact h.given

theorem trans (h : b.AgesTo b₁) (h' : b₁.AgesTo b') : b.AgesTo b' := by
  refine ⟨Nat.le_trans h.next h'.next, fun l hl => ?_, fun hb => h'.ordered (h.ordered hb),
    fun hb => h'.attributes (h.attributes hb)⟩
  rcases h'.listener l hl with hl | ⟨hge, hlt⟩
  · exact (h.listener l hl).imp_right fun hnew => ⟨hnew.1, Nat.lt_of_lt_of_le hnew.2 h'.next⟩
  · exact .inr ⟨Nat.le_trans h.next hge, hlt⟩

theorem addListener (b : Node) (event : String) (a : Action) :
    b.AgesTo (b.addListener event a) := by
  refine ⟨Nat.le_succ _, fun l hl => ?_, fun hb => ⟨?_, fun l hl => ?_⟩, id⟩
  · rcases List.mem_append.mp hl with hl | hl
    · exact .inl hl
    · rw [List.mem_singleton.mp hl]
      exact .inr ⟨Nat.le_refl _, Nat.lt_succ_self _⟩
  · -- The new number is larger than all that were given out.
    refine List.pairwise_append.mpr ⟨hb.ascending, List.pairwise_singleton _ _, ?_⟩
    intro l hl l' hl'
    rw [List.mem_singleton.mp hl']
    exact hb.given l hl
  · rcases List.mem_append.mp hl with hl | hl
    · exact Nat.lt_succ_of_lt (hb.given l hl)
    · rw [List.mem_singleton.mp hl]
      exact Nat.lt_succ_self _

theorem removeListener (b : Node) (event : String) (number : Nat) :
    b.AgesTo (b.removeListener event number) where
  next := Nat.le_refl _
  listener _ hl := .inl (List.mem_of_mem_filter hl)
  ordered hb := ⟨hb.ascending.filter _, fun l hl => hb.given l (List.mem_of_mem_filter hl)⟩
  attributes := id

theorem setAttribute (b : Node) (name value : String) : b.AgesTo (b.setAttribute name value) :=
  ⟨Nat.le_refl _, fun _ => .inl, fun hb => ⟨hb.ascending, hb.given⟩, nodup_putAttribute name value⟩

end Node.AgesTo

/-- From `st` to `st'` the listeners and attributes of every node have come and gone as they may. -/
def Ages (st st' : State) : Prop := ∀ n, (st.node n).AgesTo (st'.node n)

section Ages

variable {st st₁ st' : State}

theorem Ages.of_nodes (h : st'.nodes = st.nodes) : Ages st st' :=
  fun n => node_congr h n ▸ .of_same rfl rfl rfl

theorem Ages.trans (h : Ages st st₁) (h' : Ages st₁ st') : Ages st st' :=
  fun n => (h n).trans (h' n)

theorem ages_updateNode (n : NodeId) {f : Node → Node} (hf : ∀ b : Node, b.AgesTo (f b)) :
    Ages st (st.updateNode n f) := by
  intro m
  rw [node_updateNode]
  split
  · exact hf _
  · exact .of_same rfl rfl rfl

/-- A new node has neither listeners nor attributes. -/
theorem ages_newNode {b : Node} (hb : b.listeners = []) (hattributes : b.attributes = []) :
    Ages st (st.newNode b).2 := by
  intro m
  rw [node_newNode]
  split
  · rename_i hm
    rw [node_eq_default (Nat.le_of_eq (congrArg Id.index hm).symm)]
    refine ⟨Nat.zero_le _, fun l hl => ?_, fun _ => ⟨?_, fun l hl => ?_⟩, fun _ => ?_⟩
    · rw [hb] at hl
      cases hl
    · rw [hb]
      exact .nil
    · rw [hb] at hl
      cases hl
    · rw [hattributes]
      exact List.nodup_nil
  · exact .of_same rfl rfl rfl

theorem ages_setText (n : NodeId) (text : String) : Ages st (st.setText n text) := by
  unfold setText
  split
  · split
    · exact ages_updateNode n fun _ => .of_same rfl rfl rfl
    · exact (ages_newNode rfl rfl).trans (ages_updateNode n fun _ => .of_same rfl rfl rfl)
  · exact ages_updateNode n fun _ => .of_same rfl rfl rfl

theorem ages_listen (n : NodeId) (event : String) (a : Action) : Ages st (st.listen n event a).2 :=
  ages_updateNode n fun b => .addListener b event a

theorem ages_unlisten (a : Attachment) : Ages st (st.unlisten a) :=
  ages_updateNode a.node fun b => .removeListener b a.event a.number

theorem ages_foldl {α : Type} {f : State → α → State} (h : ∀ st a, Ages st (f st a)) (l : List α)
    (st : State) : Ages st (l.foldl f st) := by
  induction l generalizing st with
  | nil => exact .of_nodes rfl
  | cons a rest ih => exact (h st a).trans (ih (f st a))

theorem ages_bindText (view : ViewId) (n : NodeId) (key : String) :
    Ages st (st.bindText view n key).2 :=
  (ages_setText n _).trans (.of_nodes (onlySubscriptions_watch ..).nodes)

theorem ages_bindModel (view : ViewId) (n : NodeId) (key : String) :
    Ages st (st.bindModel view n key).2 := by
  have hvalue : Ages st (st.updateNode n (·.setValue (st.readView view key).display)) :=
    ages_updateNode n fun _ => .of_same rfl rfl rfl
  exact (hvalue.trans (.of_nodes (onlySubscriptions_watch ..).nodes)).trans
    (ages_listen n "input" (.edit view key))

theorem Wire.ages {view : ViewId} {c c' : Compilation} (h : Wire view c c') :
    Ages c.state c'.state := by
  cases h with
  | report e => exact .of_nodes rfl
  | text n key => exact ages_bindText view n key
  | model n key => exact ages_bindModel view n key
  | click n method => exact ages_listen n "click" (.invoke view method)

theorem Wires.ages {view : ViewId} {c c' : Compilation} (h : Wires view c c') :
    Ages c.state c'.state := by
  induction h with
  | refl => exact .of_nodes rfl
  | tail _ hstep ih => exact ih.trans hstep.ages

/-! ## Every move -/

/-- Writing concerns neither nodes nor views. -/
theorem outside_writeField (st : State) (p : Slot) (v : Value) :
    (st.writeField p v).nodes = st.nodes ∧ (st.writeField p v).views = st.views := by
  unfold writeField
  split
  · exact outside_assign st _ v
  · exact ⟨rfl, rfl⟩

theorem outside_writePath (st : State) (root : RecordId) (path : String) (v : Value) :
    (st.writePath root path v).nodes = st.nodes ∧ (st.writePath root path v).views = st.views := by
  rcases writePath_eq st root path v with ⟨e, he⟩ | ⟨p, hp⟩
  · rw [he]
    exact ⟨rfl, rfl⟩
  · rw [hp]
    exact outside_writeField st p v

theorem outside_writeView (st : State) (view : ViewId) (key : String) (v : Value) :
    (st.writeView view key v).nodes = st.nodes ∧ (st.writeView view key v).views = st.views := by
  unfold writeView
  split
  · exact ⟨rfl, rfl⟩
  · exact outside_writePath st _ key v

theorem ages_compile (view : ViewId) (root : NodeId) : Ages st (st.compile view root).2 :=
  (wires_bindBelow view root ⟨st, []⟩ (st.height + 1)).ages

theorem ages_mounted (root : NodeId) (o : ViewOptions) : Ages st (st.mounted root o) := by
  have hview : Ages st (st.withView root o) := .of_nodes nodes_withView
  have htree : Ages (st.withView root o) (st.withTree root o) := ages_compile st.views.fresh root
  exact (hview.trans htree).trans (.of_nodes nodes_mounted)

theorem ages_detach (b : Binding) : Ages st (st.detach b) := by
  have hwatchers : OnlySubscriptions st
      (b.watchers.foldl (fun st s => (st.dispose s).release s) st) :=
    .foldl (fun st s => (onlySubscriptions_dispose st s).trans (onlySubscriptions_release _ s)) _ st
  have hlisteners := ages_foldl (fun _ a => ages_unlisten a) b.listeners
  exact (Ages.of_nodes hwatchers.nodes).trans (hlisteners _)

theorem ages_unmount (v : ViewId) : Ages st (st.unmount v) := by
  have hunbound : Ages st
      { st with views := st.views.modify v fun b => { b with bindings := [] } } := .of_nodes rfl
  exact hunbound.trans (ages_foldl (fun _ b => ages_detach b) (st.view v).bindings _)

theorem ages_releaseView (v : ViewId) : Ages st (st.releaseView v) := by
  have hless : Ages st { st with
      views := st.views.modify v fun b => { b with holders := (st.view v).holders - 1 } } :=
    .of_nodes rfl
  unfold releaseView
  simp only
  split
  · exact hless
  · exact hless.trans (ages_unmount v)

theorem Operation.ages (o : Operation) : Ages st (o.run st) := by
  cases o with
  | writeField p v => exact .of_nodes (outside_writeField st p v).1
  | writePath root path v => exact .of_nodes (outside_writePath st root path v).1
  | assign c v => exact .of_nodes (outside_assign st c v).1
  | writeView v key value => exact .of_nodes (outside_writeView st v key value).1
  | observe v => exact .of_nodes (observes_observeValue st v).nodes
  | define p v => exact .of_nodes (observes_observeValue st v).nodes
  | subscribe c s => exact .of_nodes (onlySubscriptions_subscribe st c s).nodes
  | leave sources s => exact .of_nodes (onlySubscriptions_leave st sources s).nodes
  | leaveAbandoned previous next s => exact .of_nodes (onlySubscriptions_leave st _ s).nodes
  | track t root path => exact .of_nodes (onlySubscriptions_track st t root path).nodes
  | trackCell t c => exact .of_nodes (onlySubscriptions_subscribe st _ t.reader).nodes
  | notify c => exact .of_nodes (onlySubscriptions_notify st c).nodes
  | watch root path c => exact .of_nodes (onlySubscriptions_watch st root path _).nodes
  | dispose s => exact .of_nodes (onlySubscriptions_dispose st s).nodes
  | release s => exact .of_nodes (onlySubscriptions_release st s).nodes
  | abandon bs =>
      have hwatchers : ∀ (st : State) (b : Binding),
          OnlySubscriptions st (b.watchers.foldl State.release st) :=
        fun st b => .foldl onlySubscriptions_release b.watchers st
      have habandon : OnlySubscriptions st (st.abandon bs) := .foldl hwatchers bs st
      exact .of_nodes habandon.nodes
  | newNode kind content => exact ages_newNode (by cases kind <;> rfl) (by cases kind <;> rfl)
  | appendChild n child => exact ages_updateNode n fun _ => .of_same rfl rfl rfl
  | setAttribute n name value => exact ages_updateNode n fun b => .setAttribute b name value
  | setText n text => exact ages_setText n text
  | setValue n value => exact ages_updateNode n fun _ => .of_same rfl rfl rfl
  | listen n event c => exact ages_listen n event (.call c)
  | unlisten a => exact ages_unlisten a
  | typeInto n value =>
      have htyped : Ages st (st.updateNode n (·.typeValue value)) :=
        ages_updateNode n fun _ => .of_same rfl rfl rfl
      exact htyped
  | mount document? o =>
      simp only [run]
      cases hroot : st.resolveRoot document? o.root? with
      | error fault =>
          rw [mount_eq_error hroot]
          exact .of_nodes rfl
      | ok root =>
          rw [mount_eq hroot]
          exact ages_mounted root o
  | compile v root => exact ages_compile v root
  | detach b => exact ages_detach b
  | unmount v => exact ages_unmount v
  | releaseView v => exact ages_releaseView v
  | callMethod v name =>
      simp only [run, State.callMethod]
      cases st.method? v name with
      | error fault => exact .of_nodes rfl
      | ok c => exact .of_nodes rfl
  | newArray _ | newRecord | newChannel | unsubscribe _ _ | newProbe _ | tell _ | hold _
  | dispatch _ _ | holdView _ => exact .of_nodes rfl

theorem ages_act (n : NodeId) (a : Action) : Ages st (st.act n a) := by
  cases a with
  | call c => exact .of_nodes rfl
  | edit v key =>
      simp only [act]
      split
      · exact .of_nodes (outside_writeView ((st.holdView v).push [.releaseView v]) v key _).1
      · exact .of_nodes rfl
  | invoke v name =>
      simp only [act, callMethod]
      split
      · cases st.method? v name with
        | ok c => exact .of_nodes rfl
        | error fault => exact .of_nodes rfl
      · exact .of_nodes rfl

theorem ages_update (s : SubscriberId) : Ages st (st.update s) := by
  unfold update
  split
  · exact .of_nodes rfl
  · rename_i w _
    split
    · exact .of_nodes rfl
    · have hreread : Ages st (st.reread s w) := .of_nodes (onlySubscriptions_reread st s w).nodes
      simp only
      split
      · exact hreread
      · refine hreread.trans ?_
        cases w.reaction with
        | showText n => exact ages_setText n _
        | showValue n =>
            simp only [react]
            split
            · exact .of_nodes rfl
            · exact ages_updateNode n fun _ => .of_same rfl rfl rfl
        | call c => exact .of_nodes rfl

theorem ages_step : Ages st st.step := by
  unfold step
  split
  · exact .of_nodes rfl
  · rename_i task rest _
    have hdropped : Ages st { st with agenda := rest } := .of_nodes rfl
    refine hdropped.trans ?_
    cases task with
    | update s => exact ages_update s
    | remember s v => exact .of_nodes rfl
    | release s => exact .of_nodes (onlySubscriptions_release _ s).nodes
    | act n a => exact ages_act n a
    | releaseView v => exact ages_releaseView v
    | call _ | running => exact .of_nodes rfl

/-- Whatever is done, the listeners and attributes of nodes come and go as they may. -/
theorem Transition.ages (t : Transition) : Ages t.before t.after := by
  cases hmove : t.move with
  | work =>
      rw [Transition.after, hmove]
      exact ages_step
  | enter =>
      rw [Transition.after, hmove, Move.run, enter]
      split
      · exact .of_nodes rfl
      · exact .of_nodes rfl
  | finish =>
      rw [Transition.after, hmove, Move.run, finish]
      split
      · exact .of_nodes rfl
      · exact .of_nodes rfl
  | operate o =>
      rw [Transition.after, hmove]
      exact o.ages

/-- The listeners of a node are numbered in their order, with numbers that it has given out. -/
theorem Run.listeners_ordered {ts : List Transition} (h : Run ts st) (n : NodeId) :
    (st.node n).IsOrdered := by
  induction h with
  | start => exact ⟨.nil, nofun⟩
  | @move ts st m _ _ ih => exact (Transition.ages ⟨st, m⟩ n).ordered ih

/-- A node has one attribute of each name. -/
theorem Run.attributes_nodup {ts : List Transition} (h : Run ts st) (n : NodeId) :
    ((st.node n).attributes.map Attribute.name).Nodup := by
  induction h with
  | start => exact List.nodup_nil
  | @move ts st m _ _ ih => exact (Transition.ages ⟨st, m⟩ n).attributes ih

end Ages

/-! ## What binding a tree attaches -/

/-- From `st` to `st'` the bindings `bs` were made: the subscribers that came are their watchers,
and the listeners that came are theirs. -/
structure Attached (st : State) (bs : List Binding) (st' : State) : Prop where
  size : st.subscribers.size ≤ st'.subscribers.size
  watchers : ∀ s : SubscriberId,
    s ∈ watchersOf bs ↔ st.subscribers.size ≤ s.index ∧ s.index < st'.subscribers.size
  ages : Ages st st'
  numbers : ∀ a ∈ attachmentsOf bs,
    (st.node a.node).nextListener ≤ a.number ∧ a.number < (st'.node a.node).nextListener
  listeners : ∀ n, ∀ l ∈ (st'.node n).listeners,
    l ∈ (st.node n).listeners ∨ ⟨n, l.event, l.number⟩ ∈ attachmentsOf bs

namespace Attached

variable {st st₁ st' : State} {bs bs' : List Binding} {n : NodeId}

theorem of_nothing (hsubscribers : st'.subscribers = st.subscribers)
    (hnodes : st'.nodes = st.nodes) : Attached st [] st' where
  size := Nat.le_of_eq (by rw [hsubscribers])
  watchers s := by
    rw [hsubscribers]
    exact ⟨nofun, fun h => by omega⟩
  ages := .of_nodes hnodes
  numbers := nofun
  listeners m l hl := .inl (by rwa [node_congr hnodes] at hl)

theorem append (h : Attached st bs st₁) (h' : Attached st₁ bs' st') :
    Attached st (bs ++ bs') st' where
  size := Nat.le_trans h.size h'.size
  watchers s := by
    have hsize := h.size
    have hsize' := h'.size
    rw [watchersOf, List.flatMap_append, List.mem_append, ← watchersOf, ← watchersOf, h.watchers,
      h'.watchers]
    omega
  ages := h.ages.trans h'.ages
  numbers a ha := by
    have hnext := (h.ages a.node).next
    have hnext' := (h'.ages a.node).next
    rw [attachmentsOf, List.flatMap_append] at ha
    rcases List.mem_append.mp ha with ha | ha
    · have := h.numbers a ha
      omega
    · have := h'.numbers a ha
      omega
  listeners m l hl := by
    rw [attachmentsOf, List.flatMap_append]
    rcases h'.listeners m l hl with hl | hnew
    · exact (h.listeners m l hl).imp_right (List.mem_append_left _)
    · exact .inr (List.mem_append_right _ hnew)

/-- How what is attached is distributed over bindings does not matter. -/
theorem congr (h : Attached st bs st') (hwatchers : watchersOf bs' = watchersOf bs)
    (hlisteners : attachmentsOf bs' = attachmentsOf bs) : Attached st bs' st' where
  size := h.size
  watchers := by rw [hwatchers]; exact h.watchers
  ages := h.ages
  numbers := by rw [hlisteners]; exact h.numbers
  listeners := by rw [hlisteners]; exact h.listeners

/-- One watcher has come, and no listener. -/
theorem watcher {w : Watcher} (h : AddsWatcher st st' w) (hages : Ages st st')
    (hsame : ∀ m, (st'.node m).listeners = (st.node m).listeners) :
    Attached st [{ watchers := [st.subscribers.fresh] }] st' where
  size := by have := h.size; omega
  watchers s := by
    have hmem : s ∈ watchersOf [{ watchers := [st.subscribers.fresh] }] ↔
        s.index = st.subscribers.size := by
      cases s
      simp [watchersOf, Table.fresh]
    have hsize := h.size
    rw [hmem]
    omega
  ages := hages
  numbers := nofun
  listeners m l hl := .inl (hsame m ▸ hl)

/-- One listener has come, and no watcher. -/
theorem listener (hn : n.index < st.nodes.size) (event : String) (a : Action) :
    Attached st [{ listeners := [(st.listen n event a).1] }] (st.listen n event a).2 where
  size := Nat.le_refl _
  watchers s := ⟨nofun, fun h => absurd h.2 (Nat.not_lt.mpr h.1)⟩
  ages := ages_listen n event a
  numbers b hb := by
    obtain rfl : b = (st.listen n event a).1 := List.mem_singleton.mp hb
    have hnode : (st.listen n event a).2.node n = (st.node n).addListener event a :=
      node_updateNode_eq hn _
    refine ⟨Nat.le_refl _, ?_⟩
    show (st.node n).nextListener < ((st.listen n event a).2.node n).nextListener
    rw [hnode]
    exact Nat.lt_succ_self _
  listeners m l hl := by
    rw [listen_eq, node_updateNode] at hl
    split at hl
    · rename_i hm
      obtain ⟨rfl, -⟩ := hm
      refine (List.mem_append.mp hl).imp_right fun hnew => ?_
      rw [List.mem_singleton.mp hnew]
      exact List.mem_singleton_self _
    · exact .inl hl

end Attached

theorem listeners_setText (st : State) (n m : NodeId) (text : String) :
    ((st.setText n text).node m).listeners = (st.node m).listeners := by
  have hkeep : ∀ (st : State) (f : Node → Node), (∀ b, (f b).listeners = b.listeners) →
      ((st.updateNode n f).node m).listeners = (st.node m).listeners :=
    fun _ _ hf => map_node_updateNode hf
  unfold setText
  split
  · split
    · exact hkeep _ _ fun _ => rfl
    · have hshown := hkeep (st.newNode (.ofText text)).2
        (fun b => { b with children := [(st.newNode (.ofText text)).1] }) fun _ => rfl
      refine hshown.trans ?_
      rw [node_newNode]
      split
      · rename_i hm
        rw [node_eq_default (Nat.le_of_eq (congrArg Id.index hm).symm)]
        rfl
      · rfl
  · exact hkeep _ _ fun _ => rfl

section Wiring

variable {view : ViewId} {c c' : Compilation}

/-- A step of binding a tree attaches what its binding says, if it makes one. -/
theorem Wire.attached (h : Wire view c c') :
    ∃ bs, c'.bindings = c.bindings ++ bs ∧ Attached c.state bs c'.state := by
  cases h with
  | report e => exact ⟨[], (List.append_nil _).symm, .of_nothing rfl rfl⟩
  | text n key hn hkind =>
      refine ⟨_, rfl, ?_⟩
      have hsame : ∀ m, ((c.state.bindText view n key).2.node m).listeners =
          (c.state.node m).listeners := by
        intro m
        rw [node_congr (bindText_nodes c.state view n key)]
        exact listeners_setText ..
      refine (Attached.watcher (bindText_addsWatcher c.state view n key)
        (ages_bindText view n key) hsame).congr ?_ rfl
      show [(c.state.setText n (c.state.readView view key).display).subscribers.fresh] = _
      rw [setText_rest]
      rfl
  | model n key hn =>
      refine ⟨_, rfl, ?_⟩
      let valued := c.state.updateNode n (·.setValue (c.state.readView view key).display)
      let watched := (valued.watch (c.state.view view).data key (.showValue n)).2
      have hnodes : watched.nodes = valued.nodes := (onlySubscriptions_watch ..).nodes
      have hvalue : Ages c.state valued := ages_updateNode n fun _ => .of_same rfl rfl rfl
      have hwatched : Attached c.state [{ watchers := [c.state.subscribers.fresh] }] watched := by
        refine .watcher ((addsWatcher_watch valued _ key (.showValue n)).congr rfl rfl)
          (hvalue.trans (.of_nodes hnodes)) fun m => ?_
        rw [node_congr hnodes]
        exact map_node_updateNode fun _ => rfl
      have hknown : n.index < watched.nodes.size := by
        rw [hnodes]
        exact Nat.lt_of_lt_of_eq hn (Table.size_modify ..).symm
      exact (hwatched.append (.listener hknown "input" (.edit view key))).congr rfl rfl
  | click n method hn => exact ⟨_, rfl, .listener hn "click" (.invoke view method)⟩

theorem Wires.attached (h : Wires view c c') :
    ∃ bs, c'.bindings = c.bindings ++ bs ∧ Attached c.state bs c'.state := by
  induction h with
  | refl => exact ⟨[], (List.append_nil _).symm, .of_nothing rfl rfl⟩
  | tail _ hstep ih =>
      obtain ⟨bs, hbs, hattached⟩ := ih
      obtain ⟨bs', hbs', hattached'⟩ := hstep.attached
      exact ⟨bs ++ bs', by rw [hbs', hbs, List.append_assoc], hattached.append hattached'⟩

end Wiring

/-- Mounting a view attaches what the bindings say that the view gets. -/
theorem attached_mounted (st : State) (root : NodeId) (o : ViewOptions) :
    Attached st (st.bindingsOn root o) (st.mounted root o) := by
  obtain ⟨bs, hbs, hattached⟩ := Wires.attached
    (wires_bindBelow st.views.fresh root ⟨st.withView root o, []⟩ ((st.withView root o).height + 1))
  obtain rfl : st.bindingsOn root o = bs := hbs
  have htree : Attached (st.withView root o) (st.bindingsOn root o) (st.withTree root o) :=
    hattached
  have hbefore : Attached st [] (st.withView root o) :=
    .of_nothing subscribers_withView nodes_withView
  have hafter : Attached (st.withTree root o) [] (st.mounted root o) :=
    .of_nothing subscribers_mounted nodes_mounted
  have hall := (hbefore.append htree).append hafter
  exact hall.congr (by simp [watchersOf]) (by simp [attachmentsOf])

end DataBinding
