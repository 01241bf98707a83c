import Mathlib.Tactic.ByContra
import DataBinding.Proofs.Table
import DataBinding.Template.Compilation

set_option autoImplicit false

/-! # The tree after a change

Which nodes a change of the tree touches, and that a node keeps its kind for ever. A node that
was given a text *shows* it (`Shows`): a text node has it as its own, an element has it in its
only child, or is empty. What a node shows is its text content (`textContent_of_shows`).
-/

namespace DataBinding.State

variable {st st' : State} {n m : NodeId}

/-! ## Reading a node -/

theorem node_eq_default (h : st.nodes.size ≤ n.index) : st.node n = Node.ofText "" := by
  rw [node, Table.get?_eq_none h]
  rfl

theorem node_congr (h : st'.nodes = st.nodes) (n : NodeId) : st'.node n = st.node n := by
  rw [node, h, node]

theorem node_report (e : Event) (n : NodeId) : (st.report e).node n = st.node n := rfl

theorem lt_size_of_kind (h : (st.node n).kind ≠ .text) : n.index < st.nodes.size := by
  by_contra hn
  exact h (by rw [node_eq_default (by omega)]; rfl)

theorem node_updateNode (f : Node → Node) :
    (st.updateNode n f).node m =
      if n = m ∧ m.index < st.nodes.size then f (st.node m) else st.node m := by
  by_cases hm : m.index < st.nodes.size
  · simp only [node, updateNode, Table.get?_modify, Table.get?_eq_some_get hm, hm, and_true]
    split <;> rfl
  · have hsize : (st.updateNode n f).nodes.size = st.nodes.size := Table.size_modify ..
    rw [node_eq_default (by omega), node_eq_default (by omega)]
    simp [hm]

theorem node_updateNode_eq (h : n.index < st.nodes.size) (f : Node → Node) :
    (st.updateNode n f).node n = f (st.node n) := by
  rw [node_updateNode, if_pos ⟨rfl, h⟩]

theorem node_updateNode_ne (h : n ≠ m) (f : Node → Node) :
    (st.updateNode n f).node m = st.node m := by
  rw [node_updateNode, if_neg fun hn => h hn.1]

/-- A change that leaves a property of nodes alone is not seen through that property. -/
theorem map_node_updateNode {β : Type} {f : Node → Node} {g : Node → β}
    (hf : ∀ b, g (f b) = g b) : g ((st.updateNode n f).node m) = g (st.node m) := by
  rw [node_updateNode]
  split
  · exact hf _
  · rfl

theorem node_newNode (b : Node) :
    (st.newNode b).2.node m = if m = st.nodes.fresh then b else st.node m := by
  simp only [node, newNode, Table.get?_alloc]
  split <;> rfl

theorem node_newNode_of_lt (h : m.index < st.nodes.size) (b : Node) :
    (st.newNode b).2.node m = st.node m := by
  rw [node_newNode, if_neg (Table.ne_fresh h)]

/-! ## Kinds -/

/-- The nodes of `st` are still there in `st'`, each of its kind. -/
structure KeepsKinds (st st' : State) : Prop where
  size : st.nodes.size ≤ st'.nodes.size
  kind : ∀ n : NodeId, n.index < st.nodes.size → (st'.node n).kind = (st.node n).kind

namespace KeepsKinds

theorem refl (st : State) : KeepsKinds st st := ⟨Nat.le_refl _, fun _ _ => rfl⟩

theorem trans {st₁ : State} (h : KeepsKinds st st₁) (h' : KeepsKinds st₁ st') :
    KeepsKinds st st' :=
  ⟨Nat.le_trans h.size h'.size,
    fun n hn => (h'.kind n (Nat.lt_of_lt_of_le hn h.size)).trans (h.kind n hn)⟩

theorem of_nodes (h : st'.nodes = st.nodes) : KeepsKinds st st' :=
  ⟨Nat.le_of_eq (by rw [h]), fun n _ => by rw [node_congr h]⟩

theorem updateNode {f : Node → Node} (hf : ∀ b, (f b).kind = b.kind) :
    KeepsKinds st (st.updateNode n f) :=
  ⟨Nat.le_of_eq (Table.size_modify ..).symm, fun _ _ => map_node_updateNode hf⟩

theorem newNode (b : Node) : KeepsKinds st (st.newNode b).2 := by
  refine ⟨(Table.size_alloc ..).symm ▸ Nat.le_succ _, ?_⟩
  intro m hm
  rw [node_newNode_of_lt hm]

theorem setText (text : String) : KeepsKinds st (st.setText n text) := by
  unfold State.setText
  split
  · split
    · exact .updateNode fun _ => rfl
    · exact (KeepsKinds.newNode _).trans (.updateNode fun _ => rfl)
  · exact .updateNode fun _ => rfl

end KeepsKinds

/-- Giving a node a text changes nothing but the tree. -/
theorem setText_rest (st : State) (n : NodeId) (text : String) :
    st.setText n text = { st with nodes := (st.setText n text).nodes } := by
  unfold setText
  split
  · split <;> rfl
  · rfl

/-! ## Showing a text -/

/-- The node shows a text: as its own, or in its only child, or as an element without children
if the text is empty. -/
def Shows (st : State) (n : NodeId) (text : String) : Prop :=
  ((st.node n).kind = .text ∧ (st.node n).text = text) ∨
    ((st.node n).kind = .element ∧
      ((text = "" ∧ (st.node n).children = []) ∨
        ∃ t : NodeId, (st.node n).children = [t] ∧ t ≠ n ∧ t.index < st.nodes.size ∧
          (st.node t).kind = .text ∧ (st.node t).text = text))

theorem textWithin_text {depth : Nat} (h : (st.node n).kind = .text) :
    st.textWithin (depth + 1) n = (st.node n).text := by
  rw [textWithin, h]

theorem textWithin_element {depth : Nat} (h : (st.node n).kind = .element) :
    st.textWithin (depth + 1) n =
      String.join ((st.node n).children.map (st.textWithin depth)) := by
  rw [textWithin, h]

theorem textContent_congr (h : st'.nodes = st.nodes) (n : NodeId) :
    st'.textContent n = st.textContent n := by
  have hwithin : ∀ depth n, st'.textWithin depth n = st.textWithin depth n := by
    intro depth
    induction depth with
    | zero => exact fun _ => rfl
    | succ depth ih =>
        intro n
        simp only [textWithin, node_congr h, funext ih]
  rw [textContent, hwithin, height, h, textContent, height]

theorem join_singleton (s : String) : String.join [s] = s := by
  simp [String.join]

/-- Two different nodes make the tree at least two nodes high. -/
theorem two_le_height (hn : n.index < st.nodes.size) (hm : m.index < st.nodes.size)
    (h : m ≠ n) : 2 ≤ st.height := by
  have hindex : m.index ≠ n.index := by
    intro hindex
    apply h
    cases m
    cases n
    exact congrArg Id.mk hindex
  show 2 ≤ st.nodes.size
  omega

/-- What a node shows is its text content. -/
theorem textContent_of_shows {text : String} (hn : n.index < st.nodes.size)
    (h : st.Shows n text) : st.textContent n = text := by
  have hheight : st.height = st.height - 1 + 1 := by
    show st.nodes.size = st.nodes.size - 1 + 1
    omega
  rw [textContent]
  -- Two levels of the tree are read at most, and the tree is as high as it has nodes.
  rcases h with ⟨hkind, htext⟩ | ⟨hkind, ⟨rfl, hempty⟩ | ⟨t, hchild, hne, hsize, htkind, htext⟩⟩
  · rw [hheight, textWithin_text hkind, htext]
  · rw [hheight, textWithin_element hkind, hempty]
    rfl
  · have htwo := two_le_height hn hsize hne
    have hheight' : st.height = st.height - 2 + 1 + 1 := by omega
    rw [hheight', textWithin_element hkind, hchild, List.map_singleton, textWithin_text htkind,
      htext, join_singleton]

/-- The children of the element `n` gave way to a text, or to nothing if the text is empty. The
text is none of the first `size` nodes. -/
def Renders (st : State) (size : Nat) (n : NodeId) (text : String) : Prop :=
  (st.node n).kind = .element ∧
    ((text = "" ∧ (st.node n).children = []) ∨
      ∃ t : NodeId, (st.node n).children = [t] ∧ size ≤ t.index ∧ t.index < st.nodes.size ∧
        st.node t = Node.ofText text)

theorem renders_setText {text : String} (hn : n.index < st.nodes.size)
    (helement : (st.node n).kind = .element) :
    (st.setText n text).Renders st.nodes.size n text := by
  unfold setText
  rw [helement]
  simp only
  split
  · -- An empty text is no child at all.
    rename_i hempty
    refine ⟨?_, .inl ⟨hempty, ?_⟩⟩
    · rw [node_updateNode_eq hn]
      exact helement
    · rw [node_updateNode_eq hn]
  · have hfresh := Table.ne_fresh hn
    have hn' : n.index < (st.newNode (.ofText text)).2.nodes.size :=
      Nat.lt_of_lt_of_le hn (KeepsKinds.newNode _).size
    refine ⟨?_, .inr ⟨st.nodes.fresh, ?_, Nat.le_refl _, ?_, ?_⟩⟩
    · show (((st.newNode (.ofText text)).2.updateNode n _).node n).kind = _
      rw [node_updateNode_eq hn', node_newNode_of_lt hn]
      exact helement
    · show (((st.newNode (.ofText text)).2.updateNode n _).node n).children = _
      rw [node_updateNode_eq hn']
      rfl
    · show st.nodes.size < (Table.modify _ n _).size
      rw [Table.size_modify]
      exact (Table.size_alloc st.nodes (Node.ofText text)).symm ▸ Nat.lt_succ_self _
    · show ((st.newNode (.ofText text)).2.updateNode n _).node st.nodes.fresh = _
      rw [node_updateNode_ne hfresh, node_newNode, if_pos rfl]

theorem Renders.shows {size : Nat} {text : String} (h : st.Renders size n text)
    (hn : n.index < size) : st.Shows n text := by
  obtain ⟨hkind, ⟨rfl, hempty⟩ | ⟨t, hchild, hnew, ht, hnode⟩⟩ := h
  · exact .inr ⟨hkind, .inl ⟨rfl, hempty⟩⟩
  · refine .inr ⟨hkind, .inr ⟨t, hchild, ?_, ht, ?_, ?_⟩⟩
    · rintro rfl
      omega
    · rw [hnode]
      rfl
    · rw [hnode]
      rfl

/-- An element goes on rendering a text as long as it and the text stay. -/
theorem Renders.keep {size : Nat} {text : String} (h : st.Renders size n text)
    (hsize : st.nodes.size ≤ st'.nodes.size) (hkind : (st'.node n).kind = (st.node n).kind)
    (hchildren : (st'.node n).children = (st.node n).children)
    (hnew : ∀ t : NodeId, size ≤ t.index → t.index < st.nodes.size → st'.node t = st.node t) :
    st'.Renders size n text := by
  obtain ⟨hk, ⟨rfl, hempty⟩ | ⟨t, hchild, hlarge, ht, hnode⟩⟩ := h
  · exact ⟨hkind.trans hk, .inl ⟨rfl, hchildren.trans hempty⟩⟩
  · refine ⟨hkind.trans hk, .inr ⟨t, hchildren.trans hchild, hlarge, ?_, ?_⟩⟩
    · exact Nat.lt_of_lt_of_le ht hsize
    · exact (hnew t hlarge ht).trans hnode

theorem Renders.mono {size size' : Nat} {text : String} (h : st.Renders size n text)
    (hsize : size' ≤ size) : st.Renders size' n text :=
  ⟨h.1, h.2.imp_right fun ⟨t, hchild, hlarge, ht, hnode⟩ =>
    ⟨t, hchild, Nat.le_trans hsize hlarge, ht, hnode⟩⟩

/-- A node that is given a text shows it. -/
theorem shows_setText {text : String} (hn : n.index < st.nodes.size)
    (hkind : (st.node n).kind ≠ .other) : (st.setText n text).Shows n text := by
  cases hk : (st.node n).kind with
  | element => exact (renders_setText hn hk).shows hn
  | text =>
      have hset : st.setText n text = st.updateNode n fun b => { b with text } := by
        rw [setText, hk]
      rw [hset]
      refine .inl ⟨?_, ?_⟩
      · rw [node_updateNode_eq hn]
        exact hk
      · rw [node_updateNode_eq hn]
  | other => exact absurd hk hkind

/-- Giving a node a text touches no other node that there was. -/
theorem node_setText_ne (text : String) (hm : m.index < st.nodes.size) (h : n ≠ m) :
    (st.setText n text).node m = st.node m := by
  unfold setText
  split
  · split
    · exact node_updateNode_ne h _
    · exact (node_updateNode_ne h _).trans (node_newNode_of_lt hm _)
  · exact node_updateNode_ne h _

/-- A node goes on showing its text as long as its text, its children and theirs stay. -/
theorem Shows.keep {text : String} (h : st.Shows n text) (hn : n.index < st.nodes.size)
    (hkinds : KeepsKinds st st') (htext : (st'.node n).text = (st.node n).text)
    (hchildren : (st'.node n).children = (st.node n).children)
    (hbelow : ∀ m ∈ (st.node n).children, m.index < st.nodes.size →
      (st'.node m).text = (st.node m).text) : st'.Shows n text := by
  have hkind := hkinds.kind n hn
  rcases h with ⟨hk, ht⟩ | ⟨hk, ⟨rfl, hempty⟩ | ⟨t, hchild, hne, hsize, htkind, ht⟩⟩
  · exact .inl ⟨hkind.trans hk, htext.trans ht⟩
  · exact .inr ⟨hkind.trans hk, .inl ⟨rfl, hchildren.trans hempty⟩⟩
  · refine .inr ⟨hkind.trans hk, .inr ⟨t, hchildren.trans hchild, hne, ?_, ?_, ?_⟩⟩
    · exact Nat.lt_of_lt_of_le hsize hkinds.size
    · exact (hkinds.kind t hsize).trans htkind
    · refine (hbelow t ?_ hsize).trans ht
      rw [hchild]
      exact List.mem_singleton.mpr rfl

theorem Shows.kind_ne_other {text : String} (h : st.Shows n text) :
    (st.node n).kind ≠ .other := by
  rcases h with ⟨hk, -⟩ | ⟨hk, -⟩
  · rw [hk]
    nofun
  · rw [hk]
    nofun

end DataBinding.State
