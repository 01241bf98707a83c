import Mathlib.Data.List.Induction
import DataBinding.Proofs.Template.Exposure
import DataBinding.Proofs.Template.Wiring

set_option autoImplicit false

/-! # The walk over a tree

Binding a tree looks up the children of a node only when it comes to them. Still it comes to the
exposed nodes, which can be listed beforehand, each of them once (`bindBelow_eq_foldl`), since
what is done at one node leaves the others alone. At an element with a bound text the walk comes
to the text, too, that was put below the element just before (`Visit`).
-/

namespace DataBinding

open State

/-! ## The children of a node -/

section Children

variable {view : ViewId} {n : NodeId} {c : Compilation}

theorem children_bindModel (st : State) (view : ViewId) (n : NodeId) (key : String) :
    ((st.bindModel view n key).2.node n).children = (st.node n).children := by
  let valued := st.updateNode n (·.setValue (st.readView view key).display)
  let watched := (valued.watch (st.view view).data key (.showValue n)).2
  have hnodes : watched.nodes = valued.nodes := (onlySubscriptions_watch ..).nodes
  calc ((st.bindModel view n key).2.node n).children
      = (watched.node n).children := by
        rw [bindModel_eq, listen_eq]
        exact map_node_updateNode (g := Node.children) fun _ => rfl
    _ = (valued.node n).children := by rw [node_congr hnodes]
    _ = (st.node n).children := map_node_updateNode (g := Node.children) fun _ => rfl

theorem children_bindClick (st : State) (view : ViewId) (n : NodeId) (method : String) :
    ((st.bindClick view n method).2.node n).children = (st.node n).children := by
  have hlisten : (st.bindClick view n method).2 =
      st.updateNode n (·.addListener "click" (.invoke view method)) := rfl
  rw [hlisten]
  exact map_node_updateNode (g := Node.children) fun _ => rfl

/-- Anything but a `v-text` leaves an element its children. -/
theorem children_bindAttribute {a : Attribute} (h : a.textKey? = none) :
    ((bindAttribute view n c a).state.node n).children = (c.state.node n).children := by
  have hname : Directive.ofName? a.name ≠ some .text := by
    intro hname
    rw [Attribute.textKey?, if_pos hname] at h
    cases h
  unfold bindAttribute
  simp only
  split
  · rename_i htext
    exact absurd htext hname
  · rw [node_report]
    exact children_bindModel c.state view n (Text.trim a.value)
  · split
    · rw [node_report]
      exact children_bindClick c.state view n (Text.trim a.value)
    · rfl
  · split
    · rfl
    · rfl

theorem children_bindAttributes {l : List Attribute} (h : ∀ a ∈ l, a.textKey? = none) :
    ((l.foldl (bindAttribute view n) c).state.node n).children = (c.state.node n).children := by
  induction l generalizing c with
  | nil => rfl
  | cons a rest ih =>
      rw [List.foldl_cons, ih fun b hb => h b (List.mem_cons_of_mem _ hb)]
      exact children_bindAttribute (h a List.mem_cons_self)

theorem children_bindTextNode (hkind : (c.state.node n).kind = .text) :
    ((bindTextNode view n c).state.node n).children = (c.state.node n).children := by
  unfold bindTextNode
  split
  · rfl
  · rename_i key hkey
    let reported := c.state.report (.interpolation key)
    let text := (reported.readView view key).display
    have hset : reported.setText n text = reported.updateNode n fun b => { b with text } := by
      have hreport : reported.node n = c.state.node n := rfl
      rw [setText, hreport, hkind]
    show ((reported.bindText view n key).2.node n).children = _
    rw [node_congr (bindText_nodes reported view n key), hset]
    exact map_node_updateNode (g := Node.children) fun _ => rfl

/-- A node without a bound text keeps its children when it is bound. -/
theorem children_bindNode (h : (c.state.node n).textKey? = none) :
    ((bindNode view n c).state.node n).children = (c.state.node n).children := by
  unfold bindNode
  split
  · rename_i hkind
    exact children_bindTextNode hkind
  · rename_i hkind
    rw [Node.textKey?, hkind, List.getLast?_eq_none_iff, List.filterMap_eq_nil_iff] at h
    exact children_bindAttributes h
  · rfl

/-- A `v-text` gives an element its text. -/
theorem renders_bindAttribute (view : ViewId) {a : Attribute} {key : String}
    (h : a.textKey? = some key)
    (hkind : (c.state.node n).kind = .element) :
    (bindAttribute view n c a).state.Renders c.state.nodes.size n
      (c.state.readView view key).display := by
  have hn : n.index < c.state.nodes.size := lt_size_of_kind (by rw [hkind]; nofun)
  have hname : Directive.ofName? a.name = some .text ∧ Text.trim a.value = key := by
    rw [Attribute.textKey?] at h
    split at h
    · rename_i htext
      exact ⟨htext, Option.some.inj h⟩
    · cases h
  let shown := c.state.setText n (c.state.readView view key).display
  have hstate : (bindAttribute view n c a).state =
      (c.state.bindText view n key).2.report (.directive a.name key) := by
    rw [bindAttribute, hname.1, hname.2]
  have hnodes : (bindAttribute view n c a).state.nodes = shown.nodes := by
    rw [hstate, (onlySubscriptions_report _ _).nodes]
    exact bindText_nodes c.state view n key
  refine (renders_setText hn hkind).keep (Nat.le_of_eq (by rw [hnodes])) ?_ ?_ ?_
  · rw [node_congr hnodes]
  · rw [node_congr hnodes]
  · intro t _ _
    exact node_congr hnodes t

/-- An element is given the text of the last `v-text` that it has. -/
theorem renders_bindAttributes {l : List Attribute} {key : String}
    (hkey : (l.filterMap Attribute.textKey?).getLast? = some key)
    (hkind : (c.state.node n).kind = .element) :
    (l.foldl (bindAttribute view n) c).state.Renders c.state.nodes.size n
      (c.state.readView view key).display := by
  have hn : n.index < c.state.nodes.size := lt_size_of_kind (by rw [hkind]; nofun)
  -- The last attribute decides, so the induction takes the list from its end.
  induction l using List.reverseRecOn with
  | nil => cases hkey
  | append_singleton l a ih =>
      have hbefore : BindsAt view n c (l.foldl (bindAttribute view n) c) :=
        bindsAt_bindAttributes view n c l hkind
      have hkind' : ((l.foldl (bindAttribute view n) c).state.node n).kind = .element :=
        (hbefore.wires.keepsKinds.kind n hn).trans hkind
      rw [List.filterMap_append] at hkey
      rw [List.foldl_append, List.foldl_cons, List.foldl_nil]
      cases ha : a.textKey? with
      | none =>
          have hlast : [a].filterMap Attribute.textKey? = [] := by
            rw [List.filterMap_cons, ha, List.filterMap_nil]
          rw [hlast, List.append_nil] at hkey
          have hstep := bindsAt_bindAttribute view n _ a hkind'
          refine (ih hkey).keep hstep.nodes.size ?_ (children_bindAttribute ha) ?_
          · have hn' := Nat.lt_of_lt_of_le hn hbefore.nodes.size
            exact hstep.wires.keepsKinds.kind n hn'
          · intro t hlarge ht
            refine hstep.nodes.node t ht ?_
            rintro rfl
            omega
      | some last =>
          have hlast : [a].filterMap Attribute.textKey? = [last] := by
            rw [List.filterMap_cons, ha, List.filterMap_nil]
          rw [hlast, List.getLast?_concat] at hkey
          cases hkey
          have hrenders := renders_bindAttribute view ha hkind'
          rw [hbefore.wires.sameStore.readView] at hrenders
          exact hrenders.mono hbefore.nodes.size

/-- Binding an element gives it its text. -/
theorem renders_bindNode (view : ViewId) {key : String} (h : (c.state.node n).textKey? = some key) :
    (bindNode view n c).state.Renders c.state.nodes.size n (c.state.readView view key).display := by
  have hkind : (c.state.node n).kind = .element := by
    unfold Node.textKey? at h
    split at h
    · assumption
    · cases h
    · cases h
  rw [Node.textKey?, hkind] at h
  rw [bindNode, hkind]
  exact renders_bindAttributes h hkind

end Children

/-! ## Visits -/

/-- Binds an exposed node, and the text that an element with a bound text has got. -/
def visit (view : ViewId) (c : Compilation) (n : NodeId) : Compilation :=
  if (c.state.node n).textKey?.isSome then bindBelow view 1 n (bindNode view n c)
  else bindNode view n c

/-- What visiting a node comes to. -/
inductive Visit (view : ViewId) (n : NodeId) (c : Compilation) : Compilation → Prop where
  /-- It has no bound text. -/
  | plain (c' : Compilation) (h : BindsAt view n c c') (hkey : (c.state.node n).textKey? = none) :
      Visit view n c c'
  /-- It has got a text without an interpolation. -/
  | rendered (c' : Compilation) (key : String) (h : BindsAt view n c c')
      (hkey : (c.state.node n).textKey? = some key)
      (hrenders : c'.state.Renders c.state.nodes.size n (c.state.readView view key).display)
      (htext : Interpolation.key? (c.state.readView view key).display = none) : Visit view n c c'
  /-- It has got a text `t` with an interpolation, which is bound in its turn. -/
  | reread (c₁ c' : Compilation) (key inner : String) (t : NodeId) (h : BindsAt view n c c₁)
      (hkey : (c.state.node n).textKey? = some key)
      (htext : Interpolation.key? (c.state.readView view key).display = some inner)
      (hnew : c.state.nodes.size ≤ t.index) (ht : t.index < c₁.state.nodes.size)
      (hkind : (c₁.state.node t).kind = .text) (hbinds : BindsAt view t c₁ c')
      (hmade : ∃ b ∈ c'.bindings, ∃ s ∈ b.watchers, ∃ w, c'.state.watcher? s = some w ∧
        w.reaction = .showText t) : Visit view n c c'

section Visits

variable {view : ViewId} {n : NodeId} {c : Compilation}

theorem bindBelow_leaf (h : (c.state.node n).children = []) (depth : Nat) :
    bindBelow view depth n c = c := by
  cases depth with
  | zero => rfl
  | succ depth => rw [bindBelow, h, List.foldl_nil]

/-- Below an element that has got a text the walk ends at the text. -/
theorem bindBelow_renders (view : ViewId) {size : Nat} {text : String}
    (h : c.state.Renders size n text) :
    (text = "" ∧ ∀ depth, bindBelow view depth n c = c) ∨
      ∃ t : NodeId, size ≤ t.index ∧ t.index < c.state.nodes.size ∧
        c.state.node t = .ofText text ∧
        ∀ depth, bindBelow view (depth + 1) n c = bindTextNode view t c := by
  obtain ⟨-, ⟨rfl, hempty⟩ | ⟨t, hchild, hnew, ht, hnode⟩⟩ := h
  · exact .inl ⟨rfl, bindBelow_leaf hempty⟩
  · have hkind : (c.state.node t).kind = .text := by
      rw [hnode]
      rfl
    -- A text has no children, so the walk does not go on below it.
    have hleaf : ((bindTextNode view t c).state.node t).children = [] := by
      rw [children_bindTextNode hkind, hnode]
      rfl
    refine .inr ⟨t, hnew, ht, hnode, ?_⟩
    intro depth
    rw [bindBelow, hchild, List.foldl_cons, List.foldl_nil, bindNode, hkind]
    exact bindBelow_leaf hleaf depth

/-- However deep the walk may go, it is a visit at an element with a bound text. -/
theorem bindBelow_eq_visit {key : String} (h : (c.state.node n).textKey? = some key)
    (depth : Nat) : bindBelow view (depth + 1) n (bindNode view n c) = visit view c n := by
  rw [visit, h, Option.isSome_some, if_pos rfl]
  obtain ⟨-, hends⟩ | ⟨t, -, -, -, hends⟩ := bindBelow_renders view (renders_bindNode view h)
  · rw [hends, hends]
  · rw [hends depth, hends 0]

/-- A text with an interpolation is bound when the walk comes to it. -/
theorem bindTextNode_made {inner : String}
    (h : Interpolation.key? (c.state.textContent n) = some inner) :
    ∃ b ∈ (bindTextNode view n c).bindings, ∃ s ∈ b.watchers, ∃ w,
      (bindTextNode view n c).state.watcher? s = some w ∧ w.reaction = .showText n := by
  let reported := c.state.report (.interpolation inner)
  let text := (reported.readView view inner).display
  have hbound : bindTextNode view n c = ⟨(reported.bindText view n inner).2,
      c.bindings ++ [(reported.bindText view n inner).1]⟩ := by
    rw [bindTextNode, h]
  have hsame : (reported.setText n text).subscribers = reported.subscribers := by
    rw [setText_rest]
  have hwatchers : (reported.bindText view n inner).1.watchers =
      [(reported.setText n text).subscribers.fresh] := rfl
  have hwatcher := (bindText_addsWatcher reported view n inner).watcher reported.subscribers.fresh
  rw [if_pos rfl] at hwatcher
  rw [hbound]
  refine ⟨_, List.mem_append_right _ List.mem_cons_self, reported.subscribers.fresh, ?_, _,
    hwatcher, rfl⟩
  rw [hwatchers, hsame]
  exact List.mem_cons_self

theorem visit_spec (view : ViewId) (n : NodeId) (c : Compilation) :
    Visit view n c (visit view c n) := by
  have hbinds := bindsAt_bindNode view n c
  cases hkey : (c.state.node n).textKey? with
  | none =>
      rw [visit, hkey]
      exact .plain _ hbinds hkey
  | some key =>
      have hrenders := renders_bindNode view hkey
      rw [visit, hkey, Option.isSome_some, if_pos rfl]
      obtain ⟨hempty, hends⟩ | ⟨t, hnew, ht, hnode, hends⟩ :=
        bindBelow_renders view hrenders
      · rw [hends]
        refine .rendered _ key hbinds hkey hrenders ?_
        rw [hempty]
        exact interpolation_empty
      · have hkind : ((bindNode view n c).state.node t).kind = .text := by
          rw [hnode]
          rfl
        have htext : (bindNode view n c).state.textContent t =
            (c.state.readView view key).display := by
          refine textContent_of_shows ht (.inl ⟨hkind, ?_⟩)
          rw [hnode]
          rfl
        rw [hends 0]
        cases hinner : Interpolation.key? (c.state.readView view key).display with
        | none =>
            rw [bindTextNode, htext, hinner]
            exact .rendered _ key hbinds hkey hrenders hinner
        | some inner =>
            have hread : Interpolation.key? ((bindNode view n c).state.textContent t) =
                some inner := by rw [htext, hinner]
            exact .reread _ _ key inner t hbinds hkey hinner hnew ht hkind
              (bindsAt_bindTextNode view t _ hkind) (bindTextNode_made hread)

/-- A visit touches no other node that there was. -/
theorem Visit.onlyNode {c' : Compilation} (h : Visit view n c c') :
    OnlyNode n c.state c'.state := by
  cases h with
  | plain c' h hkey => exact h.nodes
  | rendered c' key h hkey hrenders htext => exact h.nodes
  | reread c₁ c' key inner t h hkey htext hnew ht hkind hbinds hmade =>
      refine ⟨Nat.le_trans h.nodes.size hbinds.nodes.size, ?_⟩
      -- The text that is bound is none of the nodes that there were.
      intro m hm hne
      have hother : m ≠ t := by
        rintro rfl
        omega
      rw [hbinds.nodes.node m (Nat.lt_of_lt_of_le hm h.nodes.size) hother, h.nodes.node m hm hne]

theorem Visit.wires {c' : Compilation} (h : Visit view n c c') : Wires view c c' := by
  cases h with
  | plain c' h hkey => exact h.wires
  | rendered c' key h hkey hrenders htext => exact h.wires
  | reread c₁ c' key inner t h hkey htext hnew ht hkind hbinds hmade =>
      exact h.wires.trans hbinds.wires

end Visits

/-! ## The walk -/

/-- The nodes of a list are different ones, and they are as they were in the state `st`. -/
structure Untouched (st : State) (l : List NodeId) (st' : State) : Prop where
  distinct : l.Nodup
  known : ∀ m ∈ l, m.index < st'.nodes.size
  same : ∀ m ∈ l, st'.node m = st.node m

namespace Untouched

variable {st : State} {view : ViewId} {n : NodeId} {l l' : List NodeId}

theorem left {st' : State} (h : Untouched st (l ++ l') st') : Untouched st l st' :=
  ⟨h.distinct.of_append_left, fun m hm => h.known m (List.mem_append_left _ hm),
    fun m hm => h.same m (List.mem_append_left _ hm)⟩

theorem onlyNode {st₁ st₂ : State} (h : Untouched st (n :: l) st₁) (honly : OnlyNode n st₁ st₂) :
    Untouched st l st₂ := by
  obtain ⟨hnotin, hdistinct⟩ := List.nodup_cons.mp h.distinct
  refine ⟨hdistinct, ?_, ?_⟩
  · intro m hm
    exact Nat.lt_of_lt_of_le (h.known m (List.mem_cons_of_mem _ hm)) honly.size
  · intro m hm
    have hmem := List.mem_cons_of_mem n hm
    rw [honly.node m (h.known m hmem) (ne_of_mem_of_not_mem hm hnotin)]
    exact h.same m hmem

theorem visits {c : Compilation} (h : Untouched st (l ++ l') c.state) :
    Untouched st l' (l.foldl (visit view) c).state := by
  induction l generalizing c with
  | nil => exact h
  | cons n rest ih => exact ih (h.onlyNode (visit_spec view n c).onlyNode)

end Untouched

/-- The exposed nodes of a tree are different ones. -/
theorem State.IsTree.untouched {st : State} {root : NodeId} (h : st.IsTree root) :
    Untouched st (st.exposed st.height root) st := by
  have hsublist : (st.exposed st.height root).Sublist (root :: st.below st.height root) :=
    (exposed_sublist st.height root).cons root
  exact ⟨h.distinct.sublist hsublist, fun m hm => h.known m (hsublist.subset hm), fun _ _ => rfl⟩

section Walk

variable {st : State} {view : ViewId} {depth : Nat}

/-- Binding a child and walking on below it is visiting what is exposed from the child down, if
the walk below the child is visiting what is exposed there. -/
theorem bindBelow_child {child : NodeId} {c : Compilation}
    (hbelow : ∀ c : Compilation, (c.state.node child).children = (st.node child).children →
      Untouched st (st.exposed depth child) c.state →
      bindBelow view (depth + 1) child c = (st.exposed depth child).foldl (visit view) c)
    (h : Untouched st (st.exposedFrom depth child) c.state) :
    bindBelow view (depth + 1) child (bindNode view child c) =
      (st.exposedFrom depth child).foldl (visit view) c := by
  have hsame : c.state.node child = st.node child := h.same child List.mem_cons_self
  unfold exposedFrom at h ⊢
  cases hkey : (st.node child).textKey? with
  | some key =>
      -- Nothing is exposed below it but the text that it has just been given.
      rw [← hsame] at hkey
      exact bindBelow_eq_visit hkey depth
  | none =>
      rw [hkey, Option.isSome_none, if_neg Bool.false_ne_true] at h
      have hvisit : visit view c child = bindNode view child c := by
        rw [visit, hsame, hkey]
        rfl
      rw [Option.isSome_none, if_neg Bool.false_ne_true, List.foldl_cons, hvisit]
      refine hbelow _ ?_ (h.onlyNode (bindsAt_bindNode view child c).nodes)
      rw [children_bindNode (by rw [hsame, hkey]), hsame]

/-- Walking down a tree is visiting the exposed nodes one by one, as long as they are as they were
when the walk began. -/
theorem bindBelow_eq_foldl {n : NodeId} {c : Compilation} (hends : st.EndsWithin depth n)
    (hchildren : (c.state.node n).children = (st.node n).children)
    (h : Untouched st (st.exposed depth n) c.state) :
    bindBelow view (depth + 1) n c = (st.exposed depth n).foldl (visit view) c := by
  induction depth generalizing n c with
  | zero =>
      rw [EndsWithin] at hends
      exact bindBelow_leaf (hchildren.trans hends) 1
  | succ depth ih =>
      rw [EndsWithin] at hends
      rw [exposed_succ] at h ⊢
      rw [bindBelow, hchildren]
      clear hchildren
      generalize (st.node n).children = l at hends h ⊢
      -- The children one after another, each with what is exposed from it down.
      induction l generalizing c with
      | nil => rfl
      | cons child rest ih' =>
          rw [List.flatMap_cons] at h ⊢
          have hchild := bindBelow_child (fun c => ih (hends child List.mem_cons_self)) h.left
          rw [List.foldl_cons, List.foldl_append, hchild]
          exact ih' (fun d hd => hends d (List.mem_cons_of_mem _ hd)) h.visits

end Walk

end DataBinding
