import DataBinding.Proofs.Delivery
import DataBinding.Proofs.Template.Controls

set_option autoImplicit false

/-! # Sessions

After a view has been mounted, the host writes values and the user types into controls, one after
another, and nobody is told but the watchers of the view (`Session`). Between two such things the
library is at rest. Then the watchers of the view are those that it got when it was mounted, its
controls have their listeners, and they have the form values that their watchers have seen
(`AtRest`).
-/

namespace DataBinding

open State

/-! ## Writes -/

/-- Whether the operation makes or writes values, and does nothing else. -/
def Operation.isWrite : Operation → Bool
  | .newArray _ | .newRecord | .writeField .. | .writePath .. | .assign .. | .writeView .. => true
  | _ => false

theorem Operation.isTame_of_isWrite {o : Operation} (h : o.isWrite = true) :
    (Move.operate o).isTame = true := by
  cases o with
  | newArray _ | newRecord | writeField _ _ | writePath _ _ _ | assign _ _ | writeView _ _ _ => rfl
  | _ => cases h

/-- From `st` to `st'` records and their fields have been written, and subscribers are about to be
told. -/
structure Writing (st st' : State) : Prop where
  nodes : st'.nodes = st.nodes
  views : st'.views = st.views
  watcher : ∀ s, st'.watcher? s = st.watcher? s
  size : st'.subscribers.size = st.subscribers.size
  agenda : ∃ l, st'.agenda = updates l ++ st.agenda

section Writing

variable (st : State)

theorem Writing.refl : Writing st st := ⟨rfl, rfl, fun _ => rfl, rfl, [], rfl⟩

theorem writing_assign (c : CellId) (v : Value) : Writing st (st.assign c v) :=
  ⟨(outside_assign st c v).1, (outside_assign st c v).2, fun _ => watcher?_assign,
    size_subscribers_assign st c v, assign_agenda st c v⟩

theorem writing_writeField (p : Slot) (v : Value) : Writing st (st.writeField p v) := by
  unfold writeField
  split
  · exact writing_assign st _ v
  · exact ⟨rfl, rfl, fun _ => rfl, rfl, [], rfl⟩

theorem writing_writePath (root : RecordId) (path : String) (v : Value) :
    Writing st (st.writePath root path v) := by
  rcases writePath_eq st root path v with ⟨e, he⟩ | ⟨p, hp⟩
  · rw [he]
    exact ⟨rfl, rfl, fun _ => rfl, rfl, [], rfl⟩
  · rw [hp]
    exact writing_writeField st p v

theorem writing_writeView (view : ViewId) (key : String) (v : Value) :
    Writing st (st.writeView view key v) := by
  unfold writeView
  split
  · exact .refl st
  · exact writing_writePath st _ key v

theorem writing_run {o : Operation} (h : o.isWrite = true) : Writing st (o.run st) := by
  cases o with
  | newArray _ | newRecord => exact ⟨rfl, rfl, fun _ => rfl, rfl, [], rfl⟩
  | writeField p v => exact writing_writeField st p v
  | writePath root path v => exact writing_writePath st root path v
  | assign c v => exact writing_assign st c v
  | writeView v key value => exact writing_writeView st v key value
  | _ => cases h

end Writing

/-! ## Where a path is written -/

namespace State

/-- Reading the path and writing it come to the same field. -/
structure ComesTo (st : State) (root : RecordId) (path : String) (p : Slot) : Prop where
  read : (st.trail root path).target? = some p
  written : st.written? root path = some p

/-- Nobody but watchers of the view is told when the field is written. -/
def TellsOnly (st : State) (view : ViewId) (p : Slot) : Prop :=
  ∀ e s, st.channel? p = some e → st.isSubscribed e s = true → st.isBoundBy view s = true

variable {st : State} {root : RecordId} {path : String} {p : Slot}

instance : Decidable (st.ComesTo root path p) :=
  decidable_of_iff ((st.trail root path).target? = some p ∧ st.written? root path = some p)
    ⟨fun h => ⟨h.1, h.2⟩, fun h => ⟨h.read, h.written⟩⟩

instance {view : ViewId} : Decidable (st.TellsOnly view p) :=
  decidable_of_iff
    (∀ e ∈ st.channel? p, ∀ s ∈ st.channels.get e, st.isBoundBy view s = true)
    ⟨fun h e s he hs => h e he s (of_decide_eq_true hs),
      fun h e he s hs => h e s he (decide_eq_true hs)⟩

end State

/-! ## Sessions -/

/-- What the host and the user may do between rests after the view `v` has been mounted in `st₀`,
which has led to `st₁`. The host writes values, which adds no field to an observed record and tells
nobody but watchers of the view. The user types into nodes to which nobody had listened before. If
the form value is bound, it is read and written in the same field, and nobody but watchers of the
view is told of that field. -/
inductive Session (st₀ : State) (root : NodeId) (v : ViewId) (st₁ : State) : State → Prop where
  | mounted : Session st₀ root v st₁ st₁
  | written {st : State} (o : Operation) (h : Session st₀ root v st₁ st)
      (writes : o.isWrite = true) (possible : o.isPossible st = true)
      (keeps : (Transition.mk st (.operate o)).keepsKeys = true)
      (tells : ∀ s, .update s ∈ (o.run st).agenda → st.isBoundBy v s = true) :
      Session st₀ root v st₁ (o.run st).advance
  | typed {st : State} (n : NodeId) (text : String) (h : Session st₀ root v st₁ st)
      (unheard : (st₀.node n).listenersFor "input" = [])
      (comes : ∀ key, (n, .value key) ∈ st₀.demandsBelow root →
        ∃ p, st.ComesTo (st.view v).data key p ∧ st.TellsOnly v p) :
      Session st₀ root v st₁ (st.typeInto n text).advance

/-- The view `v` has been mounted on the tree below `root`, at rest and after a run in which no
field was added to an observed record. -/
structure Mounting (st₀ : State) (root : NodeId) (o : ViewOptions) (v : ViewId) (st₁ : State) :
    Prop where
  run : ∃ ts, Run ts st₀ ∧ ∀ t ∈ ts, t.isTame = true
  rest : st₀.agenda = []
  data : o.data.index < st₀.records.size
  mount : ∃ document?, st₀.resolveRoot document? o.root? = .ok root ∧
    st₀.mount document? o = (.ok v, st₁)
  tree : st₀.IsTree root

/-! ## Working states -/

/-- What stays as it was when the view was mounted, whatever happens in a session. -/
structure Kept (st₀ : State) (root : NodeId) (o : ViewOptions) (st : State) : Prop where
  bindings : (st.view st₀.views.fresh).bindings =
    ((st₀.mounted root o).view st₀.views.fresh).bindings
  data : (st.view st₀.views.fresh).data = o.data
  purpose : ∀ s, st.purpose? s = (st₀.mounted root o).purpose? s
  size : st.subscribers.size = (st₀.mounted root o).subscribers.size
  nodes : st₀.nodes.size ≤ st.nodes.size
  listeners : ∀ n : NodeId, (st.node n).listeners = ((st₀.mounted root o).node n).listeners
  showing : Showing st₀.subscribers.size st

section Kept

variable {st₀ st st' : State} {root n : NodeId} {o : ViewOptions} {s s' : SubscriberId}

theorem isBoundBy_of_bindings {v : ViewId} (h : (st'.view v).bindings = (st.view v).bindings)
    (s : SubscriberId) : st'.isBoundBy v s = st.isBoundBy v s := by
  rw [isBoundBy, h, isBoundBy]

/-- A node that is typed into keeps all but its form value. -/
theorem map_node_typeValue {β : Type} {g : Node → β} (text : String)
    (hg : ∀ b : Node, g (b.typeValue text) = g b) (m : NodeId) :
    g ((st.updateNode n (·.typeValue text)).node m) = g (st.node m) :=
  map_node_updateNode fun b => hg b

namespace Kept

theorem mounted (st₀ : State) (root : NodeId) (o : ViewOptions) :
    Kept st₀ root o (st₀.mounted root o) where
  bindings := rfl
  data := by
    rw [view_mounted, wired_withTree.toSameStore.view, view_withView]
    rfl
  purpose _ := rfl
  size := rfl
  nodes := by
    have hkinds : KeepsKinds (st₀.withView root o) (st₀.withTree root o) := wired_withTree.kinds
    rw [nodes_mounted, ← nodes_withView]
    exact hkinds.size
  listeners _ := rfl
  showing := (showing_self st₀).mounted (Nat.le_refl _) root o

theorem writing (h : Kept st₀ root o st) (hw : Writing st st') : Kept st₀ root o st' where
  bindings := by rw [view_congr hw.views, h.bindings]
  data := by rw [view_congr hw.views, h.data]
  purpose s := by rw [purpose?, hw.watcher, ← purpose?, h.purpose]
  size := hw.size.trans h.size
  nodes := by rw [hw.nodes]; exact h.nodes
  listeners n := by rw [node_congr hw.nodes, h.listeners]
  showing := by
    have hnodes := node_congr hw.nodes
    refine h.showing.keep (.of_nodes hw.nodes) (fun n => by rw [hnodes]; exact ⟨rfl, rfl⟩) ?_ ?_
    · intro s w hw'
      rw [hw.watcher, hw']
    · intro s w n hw' _
      rw [← hw.watcher, hw']

theorem typed (h : Kept st₀ root o st) (n : NodeId) (text : String) :
    Kept st₀ root o (st.updateNode n (·.typeValue text)) where
  bindings := h.bindings
  data := h.data
  purpose := h.purpose
  size := h.size
  nodes := by
    show _ ≤ (st.nodes.modify n _).size
    rw [Table.size_modify]
    exact h.nodes
  listeners m := (map_node_typeValue (g := Node.listeners) text (fun _ => rfl) m).trans
    (h.listeners m)
  showing := h.showing.keep (.updateNode fun _ => rfl)
    (fun m => ⟨map_node_typeValue (g := Node.text) text (fun _ => rfl) m,
      map_node_typeValue (g := Node.children) text (fun _ => rfl) m⟩)
    (fun _ _ => id) fun _ _ _ hw _ => hw

/-- The watchers of the view are the subscribers that came when it was mounted. -/
theorem isBoundBy_iff (h : Kept st₀ root o st) : st.isBoundBy st₀.views.fresh s = true ↔
    st₀.subscribers.size ≤ s.index ∧ s.index < st.subscribers.size := by
  rw [isBoundBy_of_bindings h.bindings, h.size, isBoundBy_mounted]

theorem delivers (h : Kept st₀ root o st) {T : SubscriberId → Prop}
    (hT : ∀ s, T s → st.isBoundBy st₀.views.fresh s = true) (hdelivers : Delivers T st st') :
    Kept st₀ root o st' where
  bindings := by rw [view_congr hdelivers.settled.views, h.bindings]
  data := by rw [view_congr hdelivers.settled.views, h.data]
  purpose s := (hdelivers.settled.repainted.purpose s).trans (h.purpose s)
  size := hdelivers.settled.subscribers_size.trans h.size
  nodes := Nat.le_trans h.nodes hdelivers.settled.repainted.kinds.size
  listeners n := (hdelivers.listeners_eq n).trans (h.listeners n)
  showing := hdelivers.showing (fun s hs => (h.isBoundBy_iff.mp (hT s hs)).1) h.showing

/-- Who holds the view is left out of account. -/
theorem congr (h : Kept st₀ root o st)
    (hbindings : (st'.view st₀.views.fresh).bindings = (st.view st₀.views.fresh).bindings)
    (hdata : (st'.view st₀.views.fresh).data = (st.view st₀.views.fresh).data)
    (hsubscribers : st'.subscribers = st.subscribers) (hnodes : st'.nodes = st.nodes) :
    Kept st₀ root o st' where
  bindings := hbindings.trans h.bindings
  data := hdata.trans h.data
  purpose s := by rw [purpose?, watcher?_congr hsubscribers, ← purpose?, h.purpose]
  size := by rw [hsubscribers, h.size]
  nodes := by rw [hnodes]; exact h.nodes
  listeners n := by rw [node_congr hnodes, h.listeners]
  showing := h.showing.congr hsubscribers hnodes

/-! ### Controls -/

theorem valueKeyOf?_eq (h : Kept st₀ root o st) (n : NodeId) (s : SubscriberId) :
    st.valueKeyOf? n s = (st₀.mounted root o).valueKeyOf? n s := by
  have hpurpose : ∀ st : State, st.valueKeyOf? n s =
      (st.purpose? s).bind fun p => if p.2.2 = .showValue n then some p.2.1 else none := by
    intro st
    rw [valueKeyOf?, purpose?, Option.bind_map]
    rfl
  rw [hpurpose, h.purpose, ← hpurpose]

theorem listenersFor_eq (h : Kept st₀ root o st) (htree : st₀.IsTree root)
    (unheard : (st₀.node n).listenersFor "input" = []) :
    ((st.node n).listenersFor "input").map Listener.action =
      (st₀.valueKeys root n).map (Action.edit st₀.views.fresh) := by
  have hmounted := @listenersFor_mounted st₀ root n o htree
  rw [unheard, List.map_nil, List.nil_append] at hmounted
  rw [Node.listenersFor, h.listeners, ← Node.listenersFor, hmounted]

variable (h : Kept st₀ root o st) (htree : st₀.IsTree root) (hn : n.index < st₀.nodes.size)

include h htree hn

theorem mem_valueKeys {key : String} (hs : st.isBoundBy st₀.views.fresh s = true)
    (hkey : st.valueKeyOf? n s = some key) : key ∈ st₀.valueKeys root n := by
  rw [isBoundBy_of_bindings h.bindings] at hs
  rw [h.valueKeyOf?_eq] at hkey
  exact mem_valueKeys_of_isBoundBy htree hn hs hkey

/-- A control has a watcher of the view that sets its form value. -/
theorem exists_watcher {key : String} (hkey : key ∈ st₀.valueKeys root n) :
    ∃ s w, st.isBoundBy st₀.views.fresh s = true ∧ st.watcher? s = some w ∧
      w.reaction = .showValue n ∧ w.path = key := by
  obtain ⟨s, hs, hsets⟩ := exists_of_mem_valueKeys (o := o) htree hn hkey
  rw [← h.valueKeyOf?_eq] at hsets
  obtain ⟨w, hw⟩ := valueKeyOf?_eq_some.mp hsets
  refine ⟨s, w, ?_, hw⟩
  rw [isBoundBy_of_bindings h.bindings]
  exact hs

/-- Two watchers of the view do not set the form value of the same node. -/
theorem eq_of_setsValueOf (hnames : ((st₀.node n).attributes.map Attribute.name).Nodup)
    (hs : st.isBoundBy st₀.views.fresh s = true) (hs' : st.isBoundBy st₀.views.fresh s' = true)
    (hsets : st.setsValueOf s n = true) (hsets' : st.setsValueOf s' n = true) : s = s' := by
  have hkey : ∀ u, st.setsValueOf u n = true →
      ∃ key, (st₀.mounted root o).valueKeyOf? n u = some key := by
    intro u hu
    obtain ⟨w, hw, hreaction⟩ := setsValueOf_iff.mp hu
    refine ⟨w.path, ?_⟩
    rw [← h.valueKeyOf?_eq]
    exact valueKeyOf?_eq_some.mpr ⟨w, hw, hreaction, rfl⟩
  obtain ⟨key, hkey₁⟩ := hkey s hsets
  obtain ⟨key', hkey₂⟩ := hkey s' hsets'
  rw [isBoundBy_of_bindings h.bindings] at hs hs'
  exact eq_of_valueKeyOf?_mounted htree hn hnames hs hs' hkey₁ hkey₂

end Kept

end Kept

/-! ## Resting states -/

/-- At rest, a watcher of the view has seen the value that its path leads to, and is on the channels
along the path. -/
theorem Kept.follows {st₀ st : State} {root : NodeId} {o : ViewOptions} {s : SubscriberId}
    {w : Watcher} (h : Kept st₀ root o st) (run : ∃ ts, Run ts st ∧ ∀ t ∈ ts, t.isTame = true)
    (rest : st.agenda = []) (hs : st.isBoundBy st₀.views.fresh s = true)
    (hw : st.watcher? s = some w) :
    w.root = o.data ∧ w.seen.same (st.read o.data w.path) = true ∧ st.IsExact s w := by
  obtain ⟨ts, hts, htame⟩ := run
  obtain ⟨-, ho⟩ := hts.consistent htame
  obtain ⟨u, hu, -, hroot⟩ := ho.watcher _ s hs
  cases hw.symm.trans hu
  rw [h.data] at hroot
  refine ⟨hroot, ?_⟩
  rw [← hroot]
  exact hts.follows_of_isBound htame rest (isBound_iff.mpr ⟨_, hs⟩) hw

/-- The library has come to rest in a session. -/
structure AtRest (st₀ : State) (root : NodeId) (o : ViewOptions) (st : State) : Prop extends
    Kept st₀ root o st where
  run : ∃ ts, Run ts st ∧ ∀ t ∈ ts, t.isTame = true
  rest : st.agenda = []
  holders : (st.view st₀.views.fresh).holders = 1
  /-- Controls have the form values that their watchers have seen. -/
  values : ∀ s w n, st.isBoundBy st₀.views.fresh s = true → st.watcher? s = some w →
    w.reaction = .showValue n → n.index < st₀.nodes.size → (st.node n).value = w.seen.display

section Rest

variable {st₀ st₁ st st' : State} {root n : NodeId} {o : ViewOptions} {v : ViewId}

theorem Mounting.eq (h : Mounting st₀ root o v st₁) :
    v = st₀.views.fresh ∧ st₁ = st₀.mounted root o := by
  obtain ⟨document?, hroot, hmount⟩ := h.mount
  rw [mount_eq hroot] at hmount
  cases hmount
  exact ⟨rfl, rfl⟩

theorem Mounting.names_nodup (h : Mounting st₀ root o v st₁) (n : NodeId) :
    ((st₀.node n).attributes.map Attribute.name).Nodup := by
  obtain ⟨ts, hrun, -⟩ := h.run
  exact hrun.attributes_nodup n

/-- The form value of a node is bound to one path at most. -/
theorem Mounting.valueKeys_eq (h : Mounting st₀ root o v st₁) {key : String}
    (hkey : key ∈ st₀.valueKeys root n) : st₀.valueKeys root n = [key] := by
  have hlength := length_valueKeys_le_one h.tree (h.names_nodup n)
  obtain ⟨key', hsingle⟩ := List.length_eq_one_iff.mp
    (Nat.le_antisymm hlength (List.length_pos_of_mem hkey))
  rw [hsingle] at hkey ⊢
  rw [List.mem_singleton.mp hkey]

/-- A tame move that adds no field to an observed record. -/
theorem Transition.isTame_of_keys {t : Transition} (hmove : t.move.isTame = true)
    (hkeys : ∀ r, t.before.isObserved r = true →
      (t.after.records.get r).fields.keys = (t.before.records.get r).fields.keys) :
    t.isTame = true := by
  rw [isTame, hmove, keepsKeys, Bool.true_and, List.all_eq_true]
  intro r _
  cases hr : t.before.isObserved r with
  | false => rfl
  | true => simp [hkeys r hr]

/-- Mounting is a move that the host may make at rest. -/
theorem Mounting.run_mounted (h : Mounting st₀ root o v st₁) :
    ∃ ts, Run ts (st₀.mounted root o) ∧ ∀ t ∈ ts, t.isTame = true := by
  obtain ⟨ts, hrun, htame⟩ := h.run
  obtain ⟨document?, hroot, -⟩ := h.mount
  have hafter : (Operation.mount document? o).run st₀ = st₀.mounted root o := by
    simp only [Operation.run, mount_eq hroot]
  have hpossible : (Operation.mount document? o).isPossible st₀ = true := by
    simpa [Operation.isPossible, Operation.records, Operation.views,
      Operation.subscribers] using h.data
  have hmove := hrun.operate h.rest hpossible
  rw [hafter] at hmove
  refine ⟨_, hmove, List.forall_mem_cons.mpr ⟨Transition.isTame_of_keys rfl fun r hr => ?_, htame⟩⟩
  have hsame : ((Operation.mount document? o).run st₀).records.get r = st₀.records.get r := by
    rw [hafter, sameGraph_mounted.records]
    exact (observes_observe st₀ o.data).records r hr
  show (((Operation.mount document? o).run st₀).records.get r).fields.keys = _
  rw [hsame]

theorem AtRest.mounted (hm : Mounting st₀ root o v st₁) :
    AtRest st₀ root o (st₀.mounted root o) where
  toKept := .mounted st₀ root o
  run := hm.run_mounted
  rest := (agenda_mounted root o).trans hm.rest
  holders := by
    rw [view_mounted, wired_withTree.toSameStore.view, view_withView]
    rfl
  values s w n hs hw hreaction hn := by
    have hmounted := (valuing_self st₀).mounted (Nat.le_refl _) root o
    have hkept := Kept.mounted st₀ root o
    obtain ⟨-, hvalue | ⟨s', hne, hnew, hsets⟩⟩ :=
      hmounted s w n (hkept.isBoundBy_iff.mp hs).1 hw hreaction
    · exact hvalue
    · -- Another watcher that sets the form value would be one of the view's, too.
      obtain ⟨w', hw', -⟩ := setsValueOf_iff.mp hsets
      have hs' := hkept.isBoundBy_iff.mpr ⟨hnew, lt_size_of_watcher? hw'⟩
      exact absurd (hkept.eq_of_setsValueOf hm.tree hn (hm.names_nodup n) hs' hs hsets
        (setsValueOf_iff.mpr ⟨w, hw, hreaction⟩)) hne

/-- A watcher of the view that sets the form value of a control reads the control's path. -/
theorem Kept.path_eq {key : String} {s : SubscriberId} {w : Watcher} (h : Kept st₀ root o st)
    (hm : Mounting st₀ root o v st₁) (hn : n.index < st₀.nodes.size)
    (hkey : key ∈ st₀.valueKeys root n) (hs : st.isBoundBy st₀.views.fresh s = true)
    (hw : st.watcher? s = some w) (hreaction : w.reaction = .showValue n) : w.path = key := by
  have hmem := h.mem_valueKeys hm.tree hn hs (valueKeyOf?_eq_some.mpr ⟨w, hw, hreaction, rfl⟩)
  rw [hm.valueKeys_eq hkey] at hmem
  exact List.mem_singleton.mp hmem

/-- When watchers of the view have been told, the watcher of a control has seen nothing new and the
control has its form value, or that is the value that the watcher has seen. -/
theorem Kept.value_cases {T : SubscriberId → Prop} {s : SubscriberId} {w w' : Watcher}
    (h : Kept st₀ root o st) (hm : Mounting st₀ root o v st₁)
    (hT : ∀ u, T u → st.isBoundBy st₀.views.fresh u = true) (hdelivers : Delivers T st st')
    (hs : st.isBoundBy st₀.views.fresh s = true) (hw : st.watcher? s = some w)
    (hreaction : w.reaction = .showValue n) (hn : n.index < st₀.nodes.size)
    (hw' : st'.watcher? s = some w') :
    (w'.seen = w.seen ∧ (st'.node n).value = (st.node n).value) ∨
      (st'.node n).value = w'.seen.display := by
  have halone : ∀ u, T u → st.setsValueOf u n = true → u = s := fun u hu hsets =>
    h.eq_of_setsValueOf hm.tree hn (hm.names_nodup n) (hT u hu) hs hsets
      (setsValueOf_iff.mpr ⟨w, hw, hreaction⟩)
  exact hdelivers.value_cases hw hreaction (Nat.lt_of_lt_of_le hn h.nodes) halone hw'

/-- After a write, the library comes to rest again. -/
theorem AtRest.written (h : AtRest st₀ root o st) (hm : Mounting st₀ root o v st₁) {op : Operation}
    (writes : op.isWrite = true) (possible : op.isPossible st = true)
    (keeps : (Transition.mk st (.operate op)).keepsKeys = true)
    (tells : ∀ s, .update s ∈ (op.run st).agenda → st.isBoundBy st₀.views.fresh s = true) :
    AtRest st₀ root o (op.run st).advance := by
  have hwriting := writing_run st writes
  obtain ⟨l, hl⟩ := hwriting.agenda
  rw [h.rest, List.append_nil] at hl
  obtain ⟨ts, hrun, htame⟩ := h.run
  have hmove := hrun.operate h.rest possible
  have htame₀ : Transition.isTame ⟨st, .operate op⟩ = true := by
    rw [Transition.isTame, keeps, Bool.and_true]
    exact Operation.isTame_of_isWrite writes
  have htames : ∀ t ∈ Transition.mk st (.operate op) :: ts, t.isTame = true :=
    List.forall_mem_cons.mpr ⟨htame₀, htame⟩
  have hkept : Kept st₀ root o (op.run st) := h.toKept.writing hwriting
  let T := fun s => (op.run st).isBoundBy st₀.views.fresh s = true
  have hbound : ∀ s, T s → (op.run st).isBound s = true := fun s hs => isBound_iff.mpr ⟨_, hs⟩
  have htold : ∀ s, .update s ∈ (op.run st).agenda → T s := fun s hs => by
    show (op.run st).isBoundBy _ s = true
    rw [isBoundBy_congr hwriting.views]
    exact tells s hs
  have htelling : ∀ task ∈ (op.run st).agenda, task.isTelling = true := by
    rw [hl]
    exact isTelling_updates
  obtain ⟨ts', st', hrun', hnew, hrest, hsame, hdelivers⟩ :=
    hmove.delivers htames hbound (List.append_nil _).symm htelling htold
  rw [advance_eq_workOff htelling, hsame, workOff_of_agenda_nil hrest]
  have hsettled := hdelivers.settled
  refine ⟨hkept.delivers (fun _ => id) hdelivers, ⟨ts', hrun', fun t ht => ?_⟩, hrest, ?_, ?_⟩
  · rcases hnew t ht with hold | hwork
    · exact htames t hold
    · exact hwork.2
  · rw [view_congr hsettled.views, view_congr hwriting.views, h.holders]
  · intro s w' n hs hw' hreaction hn
    obtain ⟨w, hw, -, -, hsame⟩ := hdelivers.exists_watcher hw'
    have hreaction' := hsame.trans hreaction
    have hs₀ : (op.run st).isBoundBy st₀.views.fresh s = true := by
      rw [← isBoundBy_congr hsettled.views]
      exact hs
    rcases hkept.value_cases hm (fun _ => id) hdelivers hs₀ hw hreaction' hn hw' with
      ⟨hseen, hvalue⟩ | hset
    · rw [isBoundBy_congr hwriting.views] at hs₀
      rw [hwriting.watcher] at hw
      rw [hseen, hvalue, node_congr hwriting.nodes]
      exact h.values s w n hs₀ hw hreaction' hn
    · exact hset

end Rest

end DataBinding
