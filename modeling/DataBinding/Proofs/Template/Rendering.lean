import DataBinding.Operation
import DataBinding.Run
import DataBinding.Proofs.Template.Mounting
import DataBinding.Proofs.Template.Walk

set_option autoImplicit false

/-! # What mounting renders

The text that an element is given is put below it before the walk looks for the element's
children. So the walk comes to the text, and when there is an interpolation in it, takes it for a
part of the template: it binds the text to what the data say between the braces
(`Visit.reread`). This is the only way in which a rendered text gets lost, or in which anything is
bound that was not in the tree before (`rendersVerbatim_iff`).
-/

namespace DataBinding

open State

/-- Whether a node asks for a text in which there is an interpolation. -/
def AsksForTemplate (st : State) (view : ViewId) (n : NodeId) : Prop :=
  ∃ key, (st.node n).textKey? = some key ∧
    Interpolation.key? (st.readView view key).display ≠ none

/-- What is known when the nodes of a list have been visited. The walk began in the state `st`,
without any binding. -/
structure Rendered (view : ViewId) (st : State) (l : List NodeId) (c : Compilation) : Prop where
  readView : ∀ key, c.state.readView view key = st.readView view key
  size : st.nodes.size ≤ c.state.nodes.size
  renders : ∀ n ∈ l, ∀ key, (st.node n).textKey? = some key →
    Interpolation.key? (st.readView view key).display = none →
      c.state.Renders st.nodes.size n (st.readView view key).display
  serves : ∀ b ∈ c.bindings, (∃ n ∈ l, Serves c.state b n) ∨ ∃ n ∈ l, AsksForTemplate st view n
  reread : ∀ n ∈ l, AsksForTemplate st view n → ∃ b ∈ c.bindings, ∃ s ∈ b.watchers, ∃ w t,
    c.state.watcher? s = some w ∧ w.reaction = .showText t ∧ st.nodes.size ≤ t.index ∧
      t.index < c.state.nodes.size ∧ (c.state.node t).kind = .text

namespace Rendered

variable {view : ViewId} {st : State} {l : List NodeId} {n : NodeId} {c c' : Compilation}

theorem start (view : ViewId) (st : State) : Rendered view st [] ⟨st, []⟩ :=
  ⟨fun _ => rfl, Nat.le_refl _, nofun, nofun, nofun⟩

/-- A text that has been rendered stays, whatever node is visited next. -/
theorem renders_visit (h : Rendered view st l c) (hvisit : Visit view n c c')
    (hl : ∀ m ∈ l, m.index < st.nodes.size) (hn : n.index < st.nodes.size) (hnotin : n ∉ l)
    {m : NodeId} (hm : m ∈ l) {text : String} (hrenders : c.state.Renders st.nodes.size m text) :
    c'.state.Renders st.nodes.size m text := by
  have honly := hvisit.onlyNode
  have hsame : c'.state.node m = c.state.node m :=
    honly.node m (Nat.lt_of_lt_of_le (hl m hm) h.size) (ne_of_mem_of_not_mem hm hnotin)
  refine hrenders.keep honly.size (by rw [hsame]) (by rw [hsame]) ?_
  -- The texts that were rendered are new nodes, and the visited one is not.
  intro t hlarge ht
  have hother : t ≠ n := by
    rintro rfl
    omega
  exact honly.node t ht hother

/-- What a visit makes of the node itself, if no interpolation is in its text. -/
theorem renders_visited (h : Rendered view st l c) (hvisit : Visit view n c c')
    (hsame : c.state.node n = st.node n) {key : String} (hkey : (st.node n).textKey? = some key)
    (htext : Interpolation.key? (st.readView view key).display = none) :
    c'.state.Renders st.nodes.size n (st.readView view key).display := by
  rw [← hsame] at hkey
  rw [← h.readView] at htext ⊢
  cases hvisit with
  | plain _ _ hnone => cases hkey.symm.trans hnone
  | rendered _ key' _ hkey' hrenders _ =>
      cases hkey.symm.trans hkey'
      exact hrenders.mono h.size
  | reread _ _ key' inner t _ hkey' hinner =>
      cases hkey.symm.trans hkey'
      cases htext.symm.trans hinner

theorem serves_visit (h : Rendered view st l c) (hvisit : Visit view n c c')
    (hsame : c.state.node n = st.node n) :
    ∀ b ∈ c'.bindings, (∃ m ∈ l ++ [n], Serves c'.state b m) ∨
      ∃ m ∈ l ++ [n], AsksForTemplate st view m := by
  intro b hb
  have hlast : n ∈ l ++ [n] := List.mem_append_right _ List.mem_cons_self
  -- Unless a text is read again, all that is new serves the node.
  have hplain : BindsAt view n c c' → (∃ m ∈ l ++ [n], Serves c'.state b m) ∨
      ∃ m ∈ l ++ [n], AsksForTemplate st view m := by
    intro hbinds
    obtain ⟨bs, hbs, hserves⟩ := hbinds.bindings
    rw [hbs] at hb
    rcases List.mem_append.mp hb with hold | hnew
    · rcases h.serves b hold with ⟨m, hm, hserves⟩ | ⟨m, hm, hasks⟩
      · exact .inl ⟨m, List.mem_append_left _ hm, hserves.wires hbinds.wires⟩
      · exact .inr ⟨m, List.mem_append_left _ hm, hasks⟩
    · exact .inl ⟨n, hlast, hserves b hnew⟩
  cases hvisit with
  | plain _ hbinds _ => exact hplain hbinds
  | rendered _ _ hbinds _ _ _ => exact hplain hbinds
  | reread _ _ key inner t _ hkey hinner =>
      rw [hsame] at hkey
      rw [h.readView] at hinner
      refine .inr ⟨n, hlast, key, hkey, ?_⟩
      rw [hinner]
      nofun

theorem reread_visit (h : Rendered view st l c) (hvisit : Visit view n c c')
    (hsame : c.state.node n = st.node n) :
    ∀ m ∈ l ++ [n], AsksForTemplate st view m → ∃ b ∈ c'.bindings, ∃ s ∈ b.watchers, ∃ w t,
      c'.state.watcher? s = some w ∧ w.reaction = .showText t ∧ st.nodes.size ≤ t.index ∧
        t.index < c'.state.nodes.size ∧ (c'.state.node t).kind = .text := by
  intro m hm hasks
  rcases List.mem_append.mp hm with hold | hlast
  · obtain ⟨b, hb, s, hs, w, t, hw, hreaction, hnew, ht, hkind⟩ := h.reread m hold hasks
    have hwires := hvisit.wires
    refine ⟨b, hwires.bindings hb, s, hs, w, t, hwires.watcher? hw, hreaction, hnew, ?_, ?_⟩
    · exact Nat.lt_of_lt_of_le ht hwires.keepsKinds.size
    · rw [hwires.keepsKinds.kind t ht]
      exact hkind
  · rw [List.mem_singleton.mp hlast] at hasks
    obtain ⟨key, hkey, htext⟩ := hasks
    rw [← hsame] at hkey
    rw [← h.readView] at htext
    cases hvisit with
    | plain _ _ hnone => cases hkey.symm.trans hnone
    | rendered _ key' _ hkey' _ hnone =>
        cases hkey.symm.trans hkey'
        exact absurd hnone htext
    | reread c₁ _ key' inner t hbinds _ _ hnew ht hkind hrebinds hmade =>
        obtain ⟨b, hb, s, hs, w, hw, hreaction⟩ := hmade
        refine ⟨b, hb, s, hs, w, t, hw, hreaction, Nat.le_trans h.size hnew, ?_, ?_⟩
        · exact Nat.lt_of_lt_of_le ht hrebinds.nodes.size
        · rw [hrebinds.wires.keepsKinds.kind t ht]
          exact hkind

/-- One node more has been visited. -/
theorem visit (h : Rendered view st l c) (hvisit : Visit view n c c')
    (hl : ∀ m ∈ l, m.index < st.nodes.size) (hn : n.index < st.nodes.size) (hnotin : n ∉ l)
    (hsame : c.state.node n = st.node n) : Rendered view st (l ++ [n]) c' := by
  refine ⟨?_, Nat.le_trans h.size hvisit.onlyNode.size, ?_, h.serves_visit hvisit hsame,
    h.reread_visit hvisit hsame⟩
  · intro key
    rw [hvisit.wires.sameStore.readView, h.readView]
  · intro m hm key hkey htext
    rcases List.mem_append.mp hm with hold | hlast
    · exact h.renders_visit hvisit hl hn hnotin hold (h.renders m hold key hkey htext)
    · rw [List.mem_singleton.mp hlast] at hkey ⊢
      exact h.renders_visited hvisit hsame hkey htext

/-- All nodes of a list have been visited, one after another. -/
theorem visits (rest : List NodeId) (h : Rendered view st l c) (hdistinct : (l ++ rest).Nodup)
    (hknown : ∀ m ∈ l ++ rest, m.index < st.nodes.size) (huntouched : Untouched st rest c.state) :
    Rendered view st (l ++ rest) (rest.foldl (DataBinding.visit view) c) := by
  induction rest generalizing l c with
  | nil =>
      rw [List.append_nil]
      exact h
  | cons n rest ih =>
      have happend : l ++ n :: rest = (l ++ [n]) ++ rest := by simp
      have hmem : n ∈ l ++ n :: rest := List.mem_append_right _ List.mem_cons_self
      have hnotin : n ∉ l := fun hn =>
        (List.nodup_append.mp hdistinct).2.2 n hn n List.mem_cons_self rfl
      have hvisit := visit_spec view n c
      have hfirst := h.visit hvisit (fun m hm => hknown m (List.mem_append_left _ hm))
        (hknown n hmem) hnotin (huntouched.same n List.mem_cons_self)
      rw [happend] at hdistinct hknown ⊢
      exact ih hfirst hdistinct hknown (huntouched.onlyNode hvisit.onlyNode)

/-- An element without an interpolation in its text shows the text in the end. -/
theorem shows_text (h : Rendered view st l c) (hn : n ∈ l) (hknown : n.index < st.nodes.size)
    {key : String} (hkey : (st.node n).textKey? = some key)
    (htext : Interpolation.key? (st.readView view key).display = none) :
    c.state.textContent n = (st.readView view key).display := by
  have hrenders := h.renders n hn key hkey htext
  exact textContent_of_shows (Nat.lt_of_lt_of_le hknown h.size) (hrenders.shows hknown)

/-- If no text was read again, what is bound is among the nodes that were visited. -/
theorem mem_of_bound (h : Rendered view st l c) (hnone : ∀ m ∈ l, ¬ AsksForTemplate st view m)
    {b : Binding} (hb : b ∈ c.bindings) {s : SubscriberId} (hs : s ∈ b.watchers) {w : Watcher}
    (hw : c.state.watcher? s = some w) (hnode : w.reaction.node? = some n) : n ∈ l := by
  rcases h.serves b hb with ⟨m, hm, hserves⟩ | ⟨m, hm, hasks⟩
  · obtain ⟨w', hw', hnode'⟩ := hserves s hs
    cases hw.symm.trans hw'
    cases hnode.symm.trans hnode'
    exact hm
  · exact absurd hasks (hnone m hm)

/-- If no text is bound but such as were in the tree before, none was read again. -/
theorem not_asks (h : Rendered view st l c)
    (hbound : ∀ b ∈ c.bindings, ∀ s ∈ b.watchers, ∀ w t, c.state.watcher? s = some w →
      w.reaction.node? = some t → (c.state.node t).kind = .text → t.index < st.nodes.size) :
    ∀ m ∈ l, ¬ AsksForTemplate st view m := by
  intro m hm hasks
  obtain ⟨b, hb, s, hs, w, t, hw, hreaction, hnew, -, hkind⟩ := h.reread m hm hasks
  have hold := hbound b hb s hs w t hw (by rw [hreaction, Reaction.node?]) hkind
  omega

end Rendered

/-- What is known when a tree has been bound. -/
theorem rendered_compile {st : State} {root : NodeId} (htree : st.IsTree root) (view : ViewId) :
    Rendered view st (st.exposed st.height root)
      ⟨(st.compile view root).2, (st.compile view root).1⟩ := by
  have huntouched := htree.untouched
  have hwalk : bindBelow view (st.height + 1) root ⟨st, []⟩ =
      (st.exposed st.height root).foldl (visit view) ⟨st, []⟩ :=
    bindBelow_eq_foldl htree.endsWithin rfl huntouched
  have hrendered :=
    (Rendered.start view st).visits _ huntouched.distinct huntouched.known huntouched
  rw [← hwalk] at hrendered
  exact hrendered

/-! ## Mounting -/

/-- What mounting the view `v` on a tree of the state `st` should come to: the elements with a bound
text show their values, as texts, and nothing is bound that is a text and was not in the tree. -/
structure RendersVerbatim (st : State) (root : NodeId) (v : ViewId) (st' : State) : Prop where
  text : ∀ n ∈ st.exposed st.height root, ∀ key, (st.node n).textKey? = some key →
    st'.textContent n = (st'.readView v key).display
  bound : ∀ b ∈ (st'.view v).bindings, ∀ s ∈ b.watchers, ∀ w n, st'.watcher? s = some w →
    w.reaction.node? = some n → (st'.node n).kind = .text → n ∈ st.below st.height root

/-- Mounting takes data as they are exactly if no interpolation is in a text that it renders. -/
theorem rendersVerbatim_iff {st st' : State} {document? : Option NodeId} {o : ViewOptions}
    {root : NodeId} {v : ViewId} (hmount : st.mount document? o = (.ok v, st'))
    (hroot : st.resolveRoot document? o.root? = .ok root) (htree : st.IsTree root) :
    RendersVerbatim st root v st' ↔
      ∀ n ∈ st.exposed st.height root, ∀ key, (st.node n).textKey? = some key →
        Interpolation.key? (st'.readView v key).display = none := by
  rw [mount_eq hroot] at hmount
  cases hmount
  let viewed := st.withView root o
  let v := st.views.fresh
  have hnodes : viewed.nodes = st.nodes := nodes_withView
  have hnodes' : (st.mounted root o).nodes = (st.withTree root o).nodes := rfl
  have hbindings : ((st.mounted root o).view v).bindings = st.bindingsOn root o :=
    congrArg View.bindings view_mounted
  have hexposed : viewed.exposed viewed.height root = st.exposed st.height root := by
    rw [exposed_congr hnodes, height, hnodes, height]
  have hrendered : Rendered v viewed (st.exposed st.height root)
      ⟨st.withTree root o, st.bindingsOn root o⟩ :=
    hexposed ▸ rendered_compile (htree.congr hnodes) v
  have hkeys : ∀ n, viewed.node n = st.node n := node_congr hnodes
  have hvalues : ∀ key, (st.mounted root o).readView v key = viewed.readView v key :=
    fun key => (readView_mounted key).trans (hrendered.readView key)
  constructor
  · intro hverbatim n hn key hkey
    by_contra htext
    rw [hvalues] at htext
    refine hrendered.not_asks ?_ n hn ⟨key, (congrArg _ (hkeys n)).trans hkey, htext⟩
    intro b hb s hs w t hw hnode hkind
    rw [← hbindings] at hb
    have hin := hverbatim.bound b hb s hs w t hw hnode hkind
    rw [hnodes]
    exact htree.known t (List.mem_cons_of_mem _ hin)
  · intro hplain
    constructor
    · intro n hn key hkey
      have hknown := htree.known n (List.mem_cons_of_mem _ ((exposed_sublist _ _).subset hn))
      have htext := hplain n hn key hkey
      rw [← hnodes] at hknown
      rw [hvalues] at htext ⊢
      rw [textContent_congr hnodes']
      exact hrendered.shows_text hn hknown ((congrArg _ (hkeys n)).trans hkey) htext
    · intro b hb s hs w n hw hnode _
      have hnone : ∀ m ∈ st.exposed st.height root, ¬ AsksForTemplate viewed v m := by
        rintro m hm ⟨key, hkey, htext⟩
        rw [← hvalues] at htext
        exact htext (hplain m hm key ((congrArg _ (hkeys m)).symm.trans hkey))
      rw [hbindings] at hb
      exact (exposed_sublist _ _).subset (hrendered.mem_of_bound hnone hb hs hw hnode)

/-- An element with a paragraph that shows the field `a` of a record, before it is mounted. -/
def paragraph (a : String) : State :=
  ({} : State).play [.operate .newRecord, .operate (.writeField ⟨⟨0⟩, "a"⟩ (.text a)),
    .operate (.writeField ⟨⟨0⟩, "b"⟩ (.text "x")), .operate (.newNode .element "div"),
    .operate (.newNode .element "p"), .operate (.setAttribute ⟨1⟩ "v-text" "a"),
    .operate (.appendChild ⟨0⟩ ⟨1⟩)]

/-- The paragraph when a view of the record is mounted on the element. -/
def mountedParagraph (a : String) : State :=
  (Operation.mount none { root? := some (.node ⟨0⟩), data := ⟨0⟩ }).run (paragraph a)

/-- A name is shown as it is. -/
theorem rendersVerbatim_name :
    RendersVerbatim (paragraph "Ada") ⟨0⟩ ⟨0⟩ (mountedParagraph "Ada") ↔
      ∀ n ∈ (paragraph "Ada").exposed (paragraph "Ada").height ⟨0⟩, ∀ key,
        ((paragraph "Ada").node n).textKey? = some key →
          Interpolation.key? ((mountedParagraph "Ada").readView ⟨0⟩ key).display = none := by
  have hmount : (paragraph "Ada").mount none { root? := some (.node ⟨0⟩), data := ⟨0⟩ } =
      (.ok ⟨0⟩, mountedParagraph "Ada") := rfl
  exact rendersVerbatim_iff hmount rfl (by decide +kernel)

/-- A text that asks for the field `b`. -/
def askingForB : String := "\x7b\x7b b \x7d\x7d"

/-- When the field `a` asks for the field `b`, it is `b` that is shown. So it is not so that
mounting always takes data as they are. -/
theorem not_always_rendersVerbatim :
    ¬ ∀ (st st' : State) (document? : Option NodeId) (o : ViewOptions) (root : NodeId) (v : ViewId),
      st.mount document? o = (.ok v, st') → st.resolveRoot document? o.root? = .ok root →
      st.IsTree root → RendersVerbatim st root v st' := by
  intro h
  have hverbatim := h (paragraph askingForB) (mountedParagraph askingForB) none
    { root? := some (.node ⟨0⟩), data := ⟨0⟩ } ⟨0⟩ ⟨0⟩ rfl rfl (by decide +kernel)
  have htext := hverbatim.text ⟨1⟩ (by decide +kernel) "a" (by decide +kernel)
  have hnot : (mountedParagraph askingForB).textContent ⟨1⟩ ≠
      ((mountedParagraph askingForB).readView ⟨0⟩ "a").display := by decide +kernel
  exact hnot htext

end DataBinding
