import Mathlib.Logic.Relation
import DataBinding.Proofs.Subscription.Rereading
import DataBinding.Proofs.Tree
import DataBinding.Mounting

set_option autoImplicit false

/-! # Binding a tree, step by step

However the tree looks, binding it is a sequence of four kinds of steps (`Wire`): an event is
reported, a text, a form value or a click is bound. What is done at one node is a sequence of
such steps that touches no other node (`BindsAt`), and the walk puts these together
(`wires_bindBelow`). The theorems on `Wired` say what a sequence leaves as it was and what is
known of the watchers that it makes.
-/

namespace DataBinding

open State Relation

/-- One step of binding a tree to a view. A text is bound to a node that can show one, a form value
and a click to one that there is. -/
inductive Wire (view : ViewId) (c : Compilation) : Compilation → Prop where
  | report (e : Event) : Wire view c { c with state := c.state.report e }
  | text (n : NodeId) (key : String) (hn : n.index < c.state.nodes.size)
      (hkind : (c.state.node n).kind ≠ .other) :
      Wire view c ⟨(c.state.bindText view n key).2,
        c.bindings ++ [(c.state.bindText view n key).1]⟩
  | model (n : NodeId) (key : String) (hn : n.index < c.state.nodes.size) :
      Wire view c ⟨(c.state.bindModel view n key).2,
        c.bindings ++ [(c.state.bindModel view n key).1]⟩
  | click (n : NodeId) (method : String) (hn : n.index < c.state.nodes.size) :
      Wire view c ⟨(c.state.bindClick view n method).2,
        c.bindings ++ [(c.state.bindClick view n method).1]⟩

/-- Some steps of binding a tree to a view. -/
abbrev Wires (view : ViewId) : Compilation → Compilation → Prop := ReflTransGen (Wire view)

theorem bindText_keepsKinds (st : State) (view : ViewId) (n : NodeId) (key : String) :
    KeepsKinds st (st.bindText view n key).2 :=
  (KeepsKinds.setText _).trans (.of_nodes (onlySubscriptions_watch ..).nodes)

theorem bindModel_keepsKinds (st : State) (view : ViewId) (n : NodeId) (key : String) :
    KeepsKinds st (st.bindModel view n key).2 := by
  have hvalue : KeepsKinds st (st.updateNode n
      (·.setValue (st.read (st.view view).data key).display)) := .updateNode fun _ => rfl
  exact (hvalue.trans (.of_nodes (onlySubscriptions_watch ..).nodes)).trans
    (.updateNode fun _ => rfl)

/-! ## What the host wrote -/

/-- The two states have the same data, views and tasks. -/
structure SameStore (st st' : State) : Prop where
  records : st'.records = st.records
  cells : st'.cells = st.cells
  views : st'.views = st.views
  agenda : st'.agenda = st.agenda

namespace SameStore

variable {st st₁ st' : State}

theorem trans (h : SameStore st st₁) (h' : SameStore st₁ st') : SameStore st st' :=
  ⟨h'.records.trans h.records, h'.cells.trans h.cells, h'.views.trans h.views,
    h'.agenda.trans h.agenda⟩

theorem view (h : SameStore st st') (v : ViewId) : st'.view v = st.view v := by
  rw [State.view, h.views, State.view]

theorem readView (h : SameStore st st') (v : ViewId) (key : String) :
    st'.readView v key = st.readView v key := by
  have hgraph : SameGraph st st' := ⟨h.records, h.cells⟩
  rw [State.readView, hgraph.read, h.view, State.readView]

end SameStore

/-! ## Watchers -/

/-- The state `st'` has one subscriber more than `st`, a watcher that is held once. -/
structure AddsWatcher (st st' : State) (w : Watcher) : Prop where
  size : st'.subscribers.size = st.subscribers.size + 1
  watcher : ∀ s, st'.watcher? s = if s = st.subscribers.fresh then some w else st.watcher? s
  holders : ∀ s, st'.holders s = if s = st.subscribers.fresh then 1 else st.holders s

theorem addsWatcher_watch (st : State) (root : RecordId) (path : String) (reaction : Reaction) :
    AddsWatcher st (st.watch root path reaction).2 (st.firstWatcher root path reaction) :=
  ⟨size_subscribers_watch, fun _ => watcher?_watch, fun _ => holders_watch⟩

/-- Whatever does not concern subscribers may happen before and after. -/
theorem AddsWatcher.congr {st st₁ st₂ st' : State} {w : Watcher} (h : AddsWatcher st₁ st₂ w)
    (hbefore : st₁.subscribers = st.subscribers) (hafter : st'.subscribers = st₂.subscribers) :
    AddsWatcher st st' w := by
  have hholders : ∀ s, st₁.holders s = st.holders s := by
    intro s
    rw [State.holders, hbefore, State.holders]
  refine ⟨?_, ?_, ?_⟩
  · rw [hafter, h.size, hbefore]
  · intro s
    rw [watcher?_congr hafter, h.watcher, hbefore, watcher?_congr hbefore]
  · intro s
    rw [State.holders, hafter, ← State.holders, h.holders, hbefore, hholders]

theorem AddsWatcher.watcher?_of_some {st st' : State} {w w' : Watcher} {s : SubscriberId}
    (h : AddsWatcher st st' w) (hw : st.watcher? s = some w') : st'.watcher? s = some w' := by
  rw [h.watcher, if_neg (Table.ne_fresh (lt_size_of_watcher? hw)), hw]

section Bind

variable (st : State) (view : ViewId) (n : NodeId) (key : String)

theorem bindText_eq : (st.bindText view n key).2 =
    ((st.setText n (st.readView view key).display).watch (st.view view).data key
      (.showText n)).2 := rfl

theorem bindModel_eq : (st.bindModel view n key).2 =
    (((st.updateNode n (·.setValue (st.readView view key).display)).watch (st.view view).data key
      (.showValue n)).2.listen n "input" (.edit view key)).2 := rfl

/-- A text binding changes nodes by setting the text, and in no other way. -/
theorem bindText_nodes : (st.bindText view n key).2.nodes =
    (st.setText n (st.readView view key).display).nodes := by
  rw [bindText_eq]
  exact (onlySubscriptions_watch ..).nodes

theorem listen_eq (event : String) (a : Action) :
    (st.listen n event a).2 = st.updateNode n (·.addListener event a) := rfl

theorem subscribers_listen (event : String) (a : Action) :
    (st.listen n event a).2.subscribers = st.subscribers := rfl

theorem sameStore_listen (event : String) (a : Action) : SameStore st (st.listen n event a).2 :=
  ⟨rfl, rfl, rfl, rfl⟩

theorem bindText_addsWatcher : AddsWatcher st (st.bindText view n key).2
    ((st.setText n (st.readView view key).display).firstWatcher (st.view view).data key
      (.showText n)) := by
  have hwatch := addsWatcher_watch (st.setText n (st.readView view key).display)
    (st.view view).data key (.showText n)
  rw [bindText_eq]
  refine hwatch.congr ?_ rfl
  rw [setText_rest]

theorem bindText_sameStore : SameStore st (st.bindText view n key).2 := by
  have hwatch := onlySubscriptions_watch (st.setText n (st.readView view key).display)
    (st.view view).data key (.showText n)
  have htext : SameStore st (st.setText n (st.readView view key).display) := by
    rw [setText_rest]
    exact ⟨rfl, rfl, rfl, rfl⟩
  rw [bindText_eq]
  exact htext.trans ⟨hwatch.records, hwatch.cells, hwatch.views, agenda_watch⟩

theorem bindModel_addsWatcher : AddsWatcher st (st.bindModel view n key).2
    ((st.updateNode n (·.setValue (st.readView view key).display)).firstWatcher
      (st.view view).data key (.showValue n)) := by
  have hwatch := addsWatcher_watch (st.updateNode n (·.setValue (st.readView view key).display))
    (st.view view).data key (.showValue n)
  rw [bindModel_eq]
  exact hwatch.congr rfl (subscribers_listen ..)

theorem bindModel_sameStore : SameStore st (st.bindModel view n key).2 := by
  have hwatch := onlySubscriptions_watch
    (st.updateNode n (·.setValue (st.readView view key).display)) (st.view view).data key
    (.showValue n)
  have hvalue : SameStore st (st.updateNode n (·.setValue (st.readView view key).display)) :=
    ⟨rfl, rfl, rfl, rfl⟩
  rw [bindModel_eq]
  exact (hvalue.trans ⟨hwatch.records, hwatch.cells, hwatch.views, agenda_watch⟩).trans
    (sameStore_listen ..)

end Bind

/-- A step of binding a tree leaves data, views and tasks alone. It either leaves the subscribers
alone too, or it adds a watcher of the view's data, the only one of a new binding. -/
theorem Wire.shape {view : ViewId} {c c' : Compilation} (h : Wire view c c') :
    SameStore c.state c'.state ∧
      ((c'.state.subscribers = c.state.subscribers ∧
          ∀ b ∈ c'.bindings, b ∈ c.bindings ∨ b.watchers = []) ∨
        ∃ w, AddsWatcher c.state c'.state w ∧ w.disposed = false ∧
          w.root = (c.state.view view).data ∧
          ∀ b ∈ c'.bindings, b ∈ c.bindings ∨ b.watchers = [c.state.subscribers.fresh]) := by
  cases h with
  | report e => exact ⟨⟨rfl, rfl, rfl, rfl⟩, .inl ⟨rfl, fun _ => .inl⟩⟩
  | text n key _ _ =>
      refine ⟨bindText_sameStore .., .inr ⟨_, bindText_addsWatcher .., rfl, rfl, ?_⟩⟩
      intro b hb
      refine (List.mem_append.mp hb).imp_right fun hnew => ?_
      have hwatchers : (c.state.bindText view n key).1.watchers =
          [(c.state.setText n (c.state.readView view key).display).subscribers.fresh] := rfl
      rw [List.mem_singleton.mp hnew, hwatchers, setText_rest]
  | model n key _ =>
      refine ⟨bindModel_sameStore .., .inr ⟨_, bindModel_addsWatcher .., rfl, rfl, ?_⟩⟩
      intro b hb
      refine (List.mem_append.mp hb).imp_right fun hnew => ?_
      rw [List.mem_singleton.mp hnew]
      rfl
  | click n method =>
      refine ⟨⟨rfl, rfl, rfl, rfl⟩, .inl ⟨rfl, ?_⟩⟩
      intro b hb
      refine (List.mem_append.mp hb).imp_right fun hnew => ?_
      rw [List.mem_singleton.mp hnew]
      rfl

theorem Wires.sameStore {view : ViewId} {c c' : Compilation} (h : Wires view c c') :
    SameStore c.state c'.state := by
  induction h with
  | refl => exact ⟨rfl, rfl, rfl, rfl⟩
  | tail _ hstep ih => exact ih.trans hstep.shape.1

theorem Wires.bindings {view : ViewId} {c c' : Compilation} (h : Wires view c c') :
    c.bindings ⊆ c'.bindings := by
  induction h with
  | refl => exact fun _ => id
  | tail _ hstep ih =>
      refine List.Subset.trans ih ?_
      cases hstep with
      | report e => exact fun _ => id
      | text | model | click => exact List.subset_append_left _ _

/-- Binding a tree leaves the watchers that there were. -/
theorem Wires.watcher? {view : ViewId} {c c' : Compilation} (h : Wires view c c')
    {s : SubscriberId} {w : Watcher} (hw : c.state.watcher? s = some w) :
    c'.state.watcher? s = some w := by
  induction h with
  | refl => exact hw
  | tail _ hstep ih =>
      obtain ⟨-, ⟨hsubscribers, -⟩ | ⟨w', hadds, -⟩⟩ := hstep.shape
      · exact (watcher?_congr hsubscribers).trans ih
      · exact hadds.watcher?_of_some ih

/-! ## Kinds -/

theorem Wire.keepsKinds {view : ViewId} {c c' : Compilation} (h : Wire view c c') :
    KeepsKinds c.state c'.state := by
  cases h with
  | report e => exact .of_nodes rfl
  | text n key _ _ => exact bindText_keepsKinds ..
  | model n key _ => exact bindModel_keepsKinds ..
  | click n method => exact .updateNode fun _ => rfl

theorem Wires.keepsKinds {view : ViewId} {c c' : Compilation} (h : Wires view c c') :
    KeepsKinds c.state c'.state := by
  induction h with
  | refl => exact .refl _
  | tail _ hstep ih => exact ih.trans hstep.keepsKinds

/-! ## What is done at a node -/

/-- From `st` to `st'` no node but `n` has changed, of those that there were. -/
structure OnlyNode (n : NodeId) (st st' : State) : Prop where
  size : st.nodes.size ≤ st'.nodes.size
  node : ∀ m : NodeId, m.index < st.nodes.size → m ≠ n → st'.node m = st.node m

namespace OnlyNode

variable {n : NodeId} {st st₁ st' : State}

theorem of_nodes (h : st'.nodes = st.nodes) : OnlyNode n st st' :=
  ⟨Nat.le_of_eq (by rw [h]), fun m _ _ => node_congr h m⟩

theorem trans (h : OnlyNode n st st₁) (h' : OnlyNode n st₁ st') : OnlyNode n st st' := by
  refine ⟨Nat.le_trans h.size h'.size, ?_⟩
  intro m hm hne
  rw [h'.node m (Nat.lt_of_lt_of_le hm h.size) hne, h.node m hm hne]

theorem updateNode (f : Node → Node) : OnlyNode n st (st.updateNode n f) := by
  refine ⟨Nat.le_of_eq (Table.size_modify ..).symm, ?_⟩
  intro m _ hne
  exact node_updateNode_ne (Ne.symm hne) f

theorem setText (text : String) : OnlyNode n st (st.setText n text) :=
  ⟨(KeepsKinds.setText text).size, fun _ hm hne => node_setText_ne text hm (Ne.symm hne)⟩

end OnlyNode

/-- The node whose text or form value a watcher sets. -/
def Reaction.node? : Reaction → Option NodeId
  | .showText n | .showValue n => some n
  | .call _ => none

/-- All watchers of a binding set the text or the form value of the node. -/
def Serves (st : State) (b : Binding) (n : NodeId) : Prop :=
  ∀ s ∈ b.watchers, ∃ w, st.watcher? s = some w ∧ w.reaction.node? = some n

/-- Some steps of binding a tree that concern the node `n` alone. -/
structure BindsAt (view : ViewId) (n : NodeId) (c c' : Compilation) : Prop where
  wires : Wires view c c'
  nodes : OnlyNode n c.state c'.state
  bindings : ∃ bs, c'.bindings = c.bindings ++ bs ∧ ∀ b ∈ bs, Serves c'.state b n

theorem Serves.wires {view : ViewId} {c c' : Compilation} {b : Binding} {n : NodeId}
    (h : Serves c.state b n) (hwires : Wires view c c') : Serves c'.state b n := by
  intro s hs
  obtain ⟨w, hw, hnode⟩ := h s hs
  exact ⟨w, hwires.watcher? hw, hnode⟩

namespace BindsAt

variable {view : ViewId} {n : NodeId} {c c₁ c' : Compilation}

theorem refl (view : ViewId) (n : NodeId) (c : Compilation) : BindsAt view n c c :=
  ⟨.refl, .of_nodes rfl, [], (List.append_nil _).symm, nofun⟩

theorem trans (h : BindsAt view n c c₁) (h' : BindsAt view n c₁ c') : BindsAt view n c c' := by
  obtain ⟨bs, hbs, hserves⟩ := h.bindings
  obtain ⟨bs', hbs', hserves'⟩ := h'.bindings
  refine ⟨h.wires.trans h'.wires, h.nodes.trans h'.nodes, bs ++ bs', ?_, ?_⟩
  · rw [hbs', hbs, List.append_assoc]
  · intro b hb
    rcases List.mem_append.mp hb with hold | hnew
    · exact (hserves b hold).wires h'.wires
    · exact hserves' b hnew

theorem report (e : Event) : BindsAt view n c { c with state := c.state.report e } :=
  ⟨.single (.report e), .of_nodes rfl, [], (List.append_nil _).symm, nofun⟩

theorem text (key : String) (hn : n.index < c.state.nodes.size)
    (hkind : (c.state.node n).kind ≠ .other) :
    BindsAt view n c ⟨(c.state.bindText view n key).2,
      c.bindings ++ [(c.state.bindText view n key).1]⟩ := by
  let shown := c.state.setText n (c.state.readView view key).display
  have hnodes : (c.state.bindText view n key).2.nodes = shown.nodes := bindText_nodes ..
  refine ⟨.single (.text n key hn hkind), (OnlyNode.setText _).trans (.of_nodes hnodes), _, rfl, ?_⟩
  intro b hb s hs
  have hsame : shown.subscribers = c.state.subscribers := by
    show (c.state.setText n (c.state.readView view key).display).subscribers = _
    rw [setText_rest]
  have hwatchers : (c.state.bindText view n key).1.watchers = [shown.subscribers.fresh] := rfl
  rw [List.mem_singleton.mp hb, hwatchers, hsame] at hs
  have hwatcher := (bindText_addsWatcher c.state view n key).watcher s
  rw [if_pos (List.mem_singleton.mp hs)] at hwatcher
  exact ⟨_, hwatcher, rfl⟩

theorem model (key : String) (hn : n.index < c.state.nodes.size) :
    BindsAt view n c ⟨(c.state.bindModel view n key).2,
      c.bindings ++ [(c.state.bindModel view n key).1]⟩ := by
  let valued := c.state.updateNode n (·.setValue (c.state.readView view key).display)
  let watched := (valued.watch (c.state.view view).data key (.showValue n)).2
  have hnodes : OnlyNode n c.state (watched.listen n "input" (.edit view key)).2 := by
    have hvalued : OnlyNode n c.state valued := .updateNode _
    have hwatched : OnlyNode n valued watched := .of_nodes (onlySubscriptions_watch ..).nodes
    exact (hvalued.trans hwatched).trans (.updateNode _)
  refine ⟨.single (.model n key hn), hnodes, _, rfl, ?_⟩
  intro b hb s hs
  have hwatchers : (c.state.bindModel view n key).1.watchers = [c.state.subscribers.fresh] := rfl
  rw [List.mem_singleton.mp hb, hwatchers] at hs
  have hwatcher := (bindModel_addsWatcher c.state view n key).watcher s
  rw [if_pos (List.mem_singleton.mp hs)] at hwatcher
  exact ⟨_, hwatcher, rfl⟩

theorem click (method : String) (hn : n.index < c.state.nodes.size) :
    BindsAt view n c ⟨(c.state.bindClick view n method).2,
      c.bindings ++ [(c.state.bindClick view n method).1]⟩ := by
  refine ⟨.single (.click n method hn), .updateNode _, _, rfl, ?_⟩
  intro b hb s hs
  rw [List.mem_singleton.mp hb] at hs
  cases hs

theorem foldl {α : Type} {f : Compilation → α → Compilation} (l : List α)
    (h : ∀ c', BindsAt view n c c' → ∀ a ∈ l, BindsAt view n c' (f c' a)) :
    BindsAt view n c (l.foldl f c) := by
  induction l generalizing c with
  | nil => exact refl view n c
  | cons a rest ih =>
      have hfirst := h c (refl view n c) a List.mem_cons_self
      refine hfirst.trans (ih ?_)
      intro c' hc' b hb
      exact h c' (hfirst.trans hc') b (List.mem_cons_of_mem _ hb)

end BindsAt

/-! ## The walk -/

section Walk

variable (view : ViewId) (n : NodeId) (c : Compilation)

theorem interpolation_empty : Interpolation.key? "" = none := by
  simp [Interpolation.key?, Interpolation.scan]

theorem bindsAt_bindTextNode (hkind : (c.state.node n).kind = .text) :
    BindsAt view n c (bindTextNode view n c) := by
  unfold bindTextNode
  split
  · exact .refl view n c
  · rename_i key hkey
    -- A node that does not exist has an empty text, in which there is no interpolation.
    have hn : n.index < c.state.nodes.size := by
      by_contra hsize
      have hempty : c.state.textContent n = "" := by
        rw [textContent]
        cases c.state.height with
        | zero => rfl
        | succ depth => rw [textWithin_text hkind, node_eq_default (by omega)]; rfl
      rw [hempty, interpolation_empty] at hkey
      cases hkey
    refine (BindsAt.report (.interpolation key)).trans (.text key hn ?_)
    show (c.state.node n).kind ≠ .other
    simp [hkind]

theorem bindsAt_bindAttribute (a : Attribute) (hkind : (c.state.node n).kind = .element) :
    BindsAt view n c (bindAttribute view n c a) := by
  have hn : n.index < c.state.nodes.size := lt_size_of_kind (by rw [hkind]; nofun)
  unfold bindAttribute
  simp only
  split
  · exact (BindsAt.text (Text.trim a.value) hn (by rw [hkind]; nofun)).trans (.report _)
  · exact (BindsAt.model (Text.trim a.value) hn).trans (.report _)
  · split
    · exact (BindsAt.click (Text.trim a.value) hn).trans (.report _)
    · exact .report _
  · split
    · exact .report _
    · exact .refl view n c

theorem bindsAt_bindAttributes (l : List Attribute) (hkind : (c.state.node n).kind = .element) :
    BindsAt view n c (l.foldl (bindAttribute view n) c) := by
  refine BindsAt.foldl l fun c' hc' a _ => bindsAt_bindAttribute view n c' a ?_
  have hn : n.index < c.state.nodes.size := lt_size_of_kind (by rw [hkind]; nofun)
  rw [hc'.wires.keepsKinds.kind n hn]
  exact hkind

theorem bindsAt_bindNode : BindsAt view n c (bindNode view n c) := by
  unfold bindNode
  split
  · rename_i hkind
    exact bindsAt_bindTextNode view n c hkind
  · rename_i hkind
    exact bindsAt_bindAttributes view n c _ hkind
  · exact .refl view n c

theorem wires_bindBelow (depth : Nat) : Wires view c (bindBelow view depth n c) := by
  induction depth generalizing n c with
  | zero => exact .refl
  | succ depth ih =>
      -- The list of children is looked up once, so it is the same all along.
      have hchildren : ∀ (l : List NodeId) (c : Compilation), Wires view c
          (l.foldl (fun c child => bindBelow view depth child (bindNode view child c)) c) := by
        intro l
        induction l with
        | nil =>
            intro c
            exact .refl
        | cons child rest ih' =>
            intro c
            exact (bindsAt_bindNode view child c).wires.trans ((ih child _).trans (ih' _))
      exact hchildren _ c

end Walk

/-! ## What binding a tree leaves and makes -/

/-- What is known of a compilation that began in the state `st`: it has touched nothing but the
tree and subscriptions, and its bindings' watchers are new. -/
structure Wired (view : ViewId) (st : State) (c : Compilation) : Prop extends
    SameStore st c.state where
  size : st.subscribers.size ≤ c.state.subscribers.size
  kinds : KeepsKinds st c.state
  made : ∀ b ∈ c.bindings, ∀ s ∈ b.watchers, st.subscribers.size ≤ s.index ∧
    c.state.holders s = 1 ∧
    ∃ w, c.state.watcher? s = some w ∧ w.disposed = false ∧ w.root = (st.view view).data

theorem Wired.start (view : ViewId) (st : State) : Wired view st ⟨st, []⟩ :=
  ⟨⟨rfl, rfl, rfl, rfl⟩, Nat.le_refl _, .refl st, nofun⟩

theorem Wire.wired {view : ViewId} {st : State} {c c' : Compilation} (h : Wire view c c')
    (hc : Wired view st c) : Wired view st c' := by
  have hkinds := hc.kinds.trans h.keepsKinds
  obtain ⟨hstore, ⟨hsubscribers, hbindings⟩ | ⟨w, hadds, hlive, hroot, hbindings⟩⟩ := h.shape
  · refine ⟨hc.toSameStore.trans hstore, by rw [hsubscribers]; exact hc.size, hkinds, ?_⟩
    intro b hb s hs
    rcases hbindings b hb with hold | hnone
    · obtain ⟨hnew, hholders, hw⟩ := hc.made b hold s hs
      rw [State.holders, hsubscribers, watcher?_congr hsubscribers]
      exact ⟨hnew, hholders, hw⟩
    · rw [hnone] at hs
      cases hs
  · refine ⟨hc.toSameStore.trans hstore, ?_, hkinds, ?_⟩
    · rw [hadds.size]
      exact Nat.le_succ_of_le hc.size
    · intro b hb s hs
      rw [hadds.holders, hadds.watcher]
      -- An old binding has older watchers than the one that was made.
      rcases hbindings b hb with hold | hfresh
      · obtain ⟨hnew, hholders, u, hu, hrest⟩ := hc.made b hold s hs
        have hne := Table.ne_fresh (lt_size_of_watcher? hu)
        rw [if_neg hne, if_neg hne]
        exact ⟨hnew, hholders, u, hu, hrest⟩
      · rw [hfresh] at hs
        rw [List.mem_singleton.mp hs, if_pos rfl, if_pos rfl]
        refine ⟨hc.size, rfl, w, rfl, hlive, ?_⟩
        rw [hroot, hc.toSameStore.view]

theorem Wires.wired {view : ViewId} {st : State} {c c' : Compilation} (h : Wires view c c')
    (hc : Wired view st c) : Wired view st c' := by
  induction h with
  | refl => exact hc
  | tail _ hstep ih => exact hstep.wired ih

/-- What binding a tree below a root comes to. -/
theorem wired_compile (st : State) (view : ViewId) (root : NodeId) :
    Wired view st ⟨(st.compile view root).2, (st.compile view root).1⟩ :=
  (wires_bindBelow view root ⟨st, []⟩ _).wired (.start view st)

end DataBinding
