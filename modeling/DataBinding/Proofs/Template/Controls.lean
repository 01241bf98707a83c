import Mathlib.Data.List.Pairwise
import DataBinding.Proofs.Template.Attachment
import DataBinding.Proofs.Template.Listing

set_option autoImplicit false

/-! # Controls

A node that asks for a form value is a *control*. A node has one attribute of each name, so a
control asks for one form value (`length_valueKeys_le_one`). Whatever is rendered when the tree is
bound, the control gets what it asks for: one watcher that sets the form value
(`filterMap_valueKeyOf?_mounted`), and one listener that writes it back (`listenersFor_mounted`).
-/

namespace DataBinding

open State

/-! ## The form value that a node asks for -/

/-- The path whose value is asked for as a form value. -/
def Demand.valueKey? : Demand → Option String
  | .value key => some key
  | .text _ | .click _ => none

theorem Demand.valueKey?_eq_some {d : Demand} {key : String} :
    d.valueKey? = some key ↔ d = .value key := by
  cases d with
  | value key' => simp [valueKey?]
  | text _ | click _ => simp [valueKey?]

theorem Directive.name_of_model {name : String} (h : ofName? name = some .model) :
    name = "v-model" := by
  unfold ofName? at h
  split at h
  · cases h
  · rename_i rest hrest
    split at h
    · split at h
      · cases h
      · cases h
    · split at h
      · cases h
      · split at h
        · rename_i hmodel
          rw [List.isPrefixOf?_eq_some_iff_append_eq, hmodel] at hrest
          exact String.toList_inj.mp hrest.symm
        · cases h

/-- Only an attribute of one name asks for a form value. -/
theorem Attribute.name_of_demand? {a : Attribute} {key : String}
    (h : a.demand? = some (.value key)) : a.name = "v-model" := by
  apply Directive.name_of_model
  unfold demand? at h
  split at h
  · cases h
  · assumption
  · split at h
    · cases h
    · cases h
  · cases h

/-- A list in which no two places stand beside each other has one at most. -/
theorem length_le_one_iff {α : Type} {l : List α} :
    l.length ≤ 1 ↔ l.Pairwise fun _ _ => False := by
  cases l with
  | nil => simp
  | cons a rest =>
      cases rest with
      | nil => simp
      | cons b rest =>
          constructor
          · intro h
            simp only [List.length_cons] at h
            omega
          · intro h
            exact absurd List.mem_cons_self ((List.pairwise_cons.mp h).1 b)

/-- A node with one attribute of each name asks for one form value at most. -/
theorem Node.length_valueKeys_le_one {b : Node} (h : (b.attributes.map Attribute.name).Nodup) :
    (b.demands.filterMap Demand.valueKey?).length ≤ 1 := by
  unfold demands
  cases b.kind with
  | text =>
      cases Interpolation.key? b.text with
      | none => exact Nat.zero_le 1
      | some key => exact Nat.zero_le 1
  | other => simp
  | element =>
      rw [length_le_one_iff, List.filterMap_filterMap, List.pairwise_filterMap]
      refine (List.pairwise_map.mp h).imp fun {a a'} hne key hkey key' hkey' => ?_
      obtain ⟨d, hd, hvalue⟩ := Option.bind_eq_some_iff.mp hkey
      obtain ⟨d', hd', hvalue'⟩ := Option.bind_eq_some_iff.mp hkey'
      rw [Demand.valueKey?_eq_some.mp hvalue] at hd
      rw [Demand.valueKey?_eq_some.mp hvalue'] at hd'
      exact hne ((Attribute.name_of_demand? hd).trans (Attribute.name_of_demand? hd').symm)

/-! ## What is answered besides -/

theorem demandsAt_flatMap {l : List NodeId} (hdistinct : l.Nodup) (f : NodeId → List Demand)
    (n : NodeId) : demandsAt n (l.flatMap fun m => (f m).map fun d => (m, d)) =
      if n ∈ l then f n else [] := by
  induction l with
  | nil => rfl
  | cons m rest ih =>
      obtain ⟨hnotin, hrest⟩ := List.nodup_cons.mp hdistinct
      rw [List.flatMap_cons, demandsAt_append, ih hrest, demandsAt, List.filter_map, List.map_map]
      by_cases hmn : m = n
      · subst hmn
        simp [hnotin, Function.comp_def]
      · simp [hmn, Ne.symm hmn, Function.comp_def]

theorem exists_of_forall₂ {α β : Type} {R : α → β → Prop} {l : List α} {l' : List β}
    (h : List.Forall₂ R l l') {b : β} (hb : b ∈ l') : ∃ a ∈ l, R a b := by
  induction h with
  | nil => cases hb
  | @cons a b' l l' hR _ ih =>
      rcases List.mem_cons.mp hb with rfl | hlater
      · exact ⟨a, List.mem_cons_self, hR⟩
      · obtain ⟨a', ha', hR'⟩ := ih hlater
        exact ⟨a', List.mem_cons_of_mem _ ha', hR'⟩

section Walk

variable {view : ViewId} {st : State} {root n : NodeId} {c : Compilation}

/-- A text asks for a text at most. -/
theorem Node.eq_text_of_mem_demands {b : Node} (hkind : b.kind = .text) {d : Demand}
    (hd : d ∈ b.demands) : ∃ key, d = .text key := by
  rw [demands, hkind, Option.mem_toList] at hd
  obtain ⟨key, -, rfl⟩ := Option.map_eq_some_iff.mp hd
  exact ⟨key, rfl⟩

/-- To visit a node is to answer what it asks for, and what a text asks for that is new. -/
theorem answered_visit (view : ViewId) (hn : n.index < c.state.nodes.size) :
    ∃ more, Answered view (((c.state.node n).demands.map fun d => (n, d)) ++ more) c
      (visit view c n) ∧ ∀ p ∈ more, c.state.nodes.size ≤ p.1.index ∧ ∃ key, p.2 = .text key := by
  have hanswered := answered_bindNode view hn
  have hnone : ∃ more, Answered view (((c.state.node n).demands.map fun d => (n, d)) ++ more) c
      (bindNode view n c) ∧
        ∀ p ∈ more, c.state.nodes.size ≤ p.1.index ∧ ∃ key, p.2 = .text key := by
    refine ⟨[], ?_, nofun⟩
    rw [List.append_nil]
    exact hanswered
  cases hkey : (c.state.node n).textKey? with
  | none =>
      rw [visit, hkey]
      exact hnone
  | some key =>
      rw [visit, hkey, Option.isSome_some, if_pos rfl]
      obtain ⟨-, hends⟩ | ⟨t, hnew, ht, hnode, hends⟩ :=
        bindBelow_renders view (renders_bindNode view hkey)
      · rw [hends 1]
        exact hnone
      · -- The walk comes to the text that was rendered, and binds it, too.
        have hkind : ((bindNode view n c).state.node t).kind = .text := by
          rw [hnode]
          rfl
        refine ⟨_, hends 0 ▸ hanswered.append (answered_bindTextNode view ht hkind), ?_⟩
        intro p hp
        obtain ⟨d, hd, rfl⟩ := List.mem_map.mp hp
        exact ⟨hnew, Node.eq_text_of_mem_demands hkind hd⟩

/-- To visit nodes that are as they were is to answer what they asked for. Besides, only new texts
ask for anything. -/
theorem answered_visits_more (view : ViewId) {l : List NodeId} (huntouched : Untouched st l c.state)
    (hknown : ∀ n ∈ l, n.index < st.nodes.size) (hsize : st.nodes.size ≤ c.state.nodes.size) :
    ∃ asked, Answered view asked c (l.foldl (visit view) c) ∧
      (∀ m : NodeId, m.index < st.nodes.size → demandsAt m asked =
        demandsAt m (l.flatMap fun n => (st.node n).demands.map fun d => (n, d))) ∧
      ∀ p ∈ asked, st.nodes.size ≤ p.1.index → ∃ key, p.2 = .text key := by
  induction l generalizing c with
  | nil => exact ⟨[], .refl view c, fun _ _ => rfl, nofun⟩
  | cons n rest ih =>
      obtain ⟨hn, hknown⟩ := List.forall_mem_cons.mp hknown
      have honly := (visit_spec view n c).onlyNode
      obtain ⟨more, hvisited, hmore⟩ := answered_visit view (huntouched.known n List.mem_cons_self)
      obtain ⟨asked, hrest, hasked, htexts⟩ := ih (huntouched.onlyNode honly) hknown
        (Nat.le_trans hsize honly.size)
      rw [huntouched.same n List.mem_cons_self] at hvisited
      refine ⟨_, hvisited.append hrest, fun m hm => ?_, fun p hp hnew => ?_⟩
      · have hnone : demandsAt m more = [] := by
          refine demandsAt_eq_nil fun d hd => ?_
          obtain ⟨hnew, -⟩ := hmore _ hd
          exact absurd hm (Nat.not_lt_of_le (Nat.le_trans hsize hnew))
        rw [List.flatMap_cons, demandsAt_append, demandsAt_append, demandsAt_append, hnone,
          List.append_nil, hasked m hm]
      · rcases List.mem_append.mp hp with hfirst | hlater
        · rcases List.mem_append.mp hfirst with hold | hrendered
          · obtain ⟨d, -, rfl⟩ := List.mem_map.mp hold
            exact absurd hn (Nat.not_lt_of_le hnew)
          · exact (hmore p hrendered).2
        · exact htexts p hlater hnew

/-- Binding a tree answers what the tree asks for. Besides, only texts that are rendered meanwhile
are asked for anything. -/
theorem compile_meets (htree : st.IsTree root) (view : ViewId) :
    ∃ asked, Meets view st asked (st.compile view root).1 (st.compile view root).2 ∧
      (∀ n : NodeId, n.index < st.nodes.size →
        demandsAt n asked = demandsAt n (st.demandsBelow root)) ∧
      ∀ p ∈ asked, st.nodes.size ≤ p.1.index → ∃ key, p.2 = .text key := by
  have hwalk : (⟨(st.compile view root).2, (st.compile view root).1⟩ : Compilation) =
      (st.exposed st.height root).foldl (visit view) ⟨st, []⟩ :=
    bindBelow_eq_visits htree view 0
  obtain ⟨asked, hanswered, hasked⟩ := answered_visits_more (c := ⟨st, []⟩) view htree.untouched
    htree.untouched.known (Nat.le_refl _)
  rw [← hwalk] at hanswered
  obtain ⟨bs, hbs, hmeets⟩ := hanswered
  obtain rfl : (st.compile view root).1 = bs := hbs
  exact ⟨asked, hmeets, hasked⟩

end Walk

/-! ## The watchers and listeners of a control -/

/-- The paths whose values a node of a tree is asked to have as its form value: there is one at
most. -/
def State.valueKeys (st : State) (root n : NodeId) : List String :=
  (demandsAt n (st.demandsBelow root)).filterMap Demand.valueKey?

/-- The path whose value the subscriber sets as the form value of the node, if it does so. -/
def State.valueKeyOf? (st : State) (n : NodeId) (s : SubscriberId) : Option String :=
  (st.watcher? s).bind fun w => if w.reaction = .showValue n then some w.path else none

section Control

variable {view : ViewId} {st st' : State} {root n : NodeId} {key : String}

theorem mem_valueKeys_iff : key ∈ st.valueKeys root n ↔ (n, .value key) ∈ st.demandsBelow root := by
  simp [valueKeys, demandsAt, Demand.valueKey?_eq_some]

theorem length_valueKeys_le_one (htree : st.IsTree root)
    (hnames : ((st.node n).attributes.map Attribute.name).Nodup) :
    (st.valueKeys root n).length ≤ 1 := by
  rw [valueKeys, demandsBelow, demandsAt_flatMap htree.untouched.distinct]
  split
  · exact Node.length_valueKeys_le_one hnames
  · exact Nat.zero_le 1

theorem valueKeyOf?_eq_some {s : SubscriberId} : st.valueKeyOf? n s = some key ↔
    ∃ w, st.watcher? s = some w ∧ w.reaction = .showValue n ∧ w.path = key := by
  simp [valueKeyOf?, Option.bind_eq_some_iff]

/-- A demand is answered by a watcher that sets the form value if it asks for that. -/
theorem valueKeyOf?_of_answers {p : NodeId × Demand} {b : Binding}
    (h : st.Answers st' view p b) (n : NodeId) : b.watchers.filterMap (st'.valueKeyOf? n) =
      (demandsAt n [p]).filterMap Demand.valueKey? := by
  obtain ⟨m, d⟩ := p
  obtain ⟨watchers, listeners⟩ := b
  have hwatchers : List.Forall₂ (st.Watches st' view) (d.watching m) watchers := h.watchers
  cases d with
  | text key =>
      obtain _ | ⟨⟨-, w, hw, -, -, hreaction, -⟩, ⟨⟩⟩ := hwatchers
      have hnone : (demandsAt n [(m, .text key)]).filterMap Demand.valueKey? = [] := by
        rw [demandsAt, List.filter_cons]
        split
        · rfl
        · rfl
      rw [hnone, List.filterMap_cons, valueKeyOf?, hw, Option.bind_some, hreaction,
        if_neg fun hsame => Reaction.noConfusion hsame]
      rfl
  | value key =>
      obtain _ | ⟨⟨-, w, hw, -, hpath, hreaction, -⟩, ⟨⟩⟩ := hwatchers
      rw [List.filterMap_cons, valueKeyOf?, hw, Option.bind_some, hreaction, hpath, demandsAt,
        List.filter_cons]
      by_cases hmn : m = n
      · simp [hmn, Demand.valueKey?]
      · simp [hmn]
  | click method =>
      obtain ⟨⟩ := hwatchers
      rw [demandsAt, List.filter_cons]
      split
      · rfl
      · rfl

/-- The watchers that set the form value of a node read the paths that the node asks for. -/
theorem filterMap_valueKeyOf? {l : List (NodeId × Demand)} {bs : List Binding}
    (h : List.Forall₂ (st.Answers st' view) l bs) (n : NodeId) :
    (watchersOf bs).filterMap (st'.valueKeyOf? n) =
      (demandsAt n l).filterMap Demand.valueKey? := by
  induction h with
  | nil => rfl
  | @cons p b l bs hb _ ih =>
      rw [watchersOf, List.flatMap_cons, List.filterMap_append, ← watchersOf, ih,
        valueKeyOf?_of_answers hb, ← List.filterMap_append, ← demandsAt_append,
        List.singleton_append]

/-- Behind the listeners that it has, a node gets one for each form value that it is asked for. -/
theorem listenersFor_foldl_meet (shown : String → String) (b : Node) (l : List Demand) :
    ((l.foldl (Demand.meet view shown) b).listenersFor "input").map Listener.action =
      (b.listenersFor "input").map Listener.action ++
        (l.filterMap Demand.valueKey?).map (Action.edit view) := by
  induction l generalizing b with
  | nil => simp
  | cons d rest ih =>
      rw [List.foldl_cons, ih]
      cases d with
      | text key =>
          have hsame : ((Demand.text key).meet view shown b).listeners = b.listeners := by
            simp only [Demand.meet]
            split
            · rfl
            · rfl
          rw [Node.listenersFor, hsame]
          rfl
      | value key =>
          have hlisteners : ((Demand.value key).meet view shown b).listeners =
              b.listeners ++ [⟨"input", b.nextListener, .edit view key⟩] := rfl
          rw [Node.listenersFor, hlisteners, List.filter_append, List.map_append, List.append_assoc]
          rfl
      | click method =>
          have hlisteners : ((Demand.click method).meet view shown b).listeners =
              b.listeners ++ [⟨"click", b.nextListener, .invoke view method⟩] := rfl
          rw [Node.listenersFor, hlisteners, List.filter_append, List.map_append, List.append_assoc]
          rfl

end Control

/-! ## Mounting -/

section Mounted

variable {st : State} {root n : NodeId} {o : ViewOptions} {s : SubscriberId} {key : String}

/-- The watchers of the view that is mounted are the subscribers that come. -/
theorem isBoundBy_mounted : (st.mounted root o).isBoundBy st.views.fresh s = true ↔
    st.subscribers.size ≤ s.index ∧ s.index < (st.mounted root o).subscribers.size := by
  have hbindings : ((st.mounted root o).view st.views.fresh).bindings = st.bindingsOn root o := by
    rw [view_mounted]
  rw [isBoundBy_iff, hbindings, ← (attached_mounted st root o).watchers, watchersOf,
    List.mem_flatMap]

theorem demandsBelow_congr {st' : State} (h : st'.nodes = st.nodes) :
    st'.demandsBelow root = st.demandsBelow root := by
  rw [demandsBelow, height, h, exposed_congr h, funext (node_congr h), ← height, ← demandsBelow]

/-- To mount a view is to answer what the tree asks for. Besides, only texts that are rendered
meanwhile are asked for anything. -/
theorem mounted_meets (htree : st.IsTree root) (o : ViewOptions) :
    ∃ asked, Meets st.views.fresh (st.withView root o) asked (st.bindingsOn root o)
      (st.withTree root o) ∧
      (∀ n : NodeId, n.index < st.nodes.size →
        demandsAt n asked = demandsAt n (st.demandsBelow root)) ∧
      ∀ p ∈ asked, st.nodes.size ≤ p.1.index → ∃ key, p.2 = .text key := by
  have hnodes : (st.withView root o).nodes = st.nodes := nodes_withView
  have h := compile_meets (htree.congr hnodes) st.views.fresh
  rw [hnodes, demandsBelow_congr hnodes] at h
  exact h

/-- What a tree asks for, it asks for nodes that there are. -/
theorem lt_size_of_mem_demandsBelow {d : Demand} (htree : st.IsTree root)
    (h : (n, d) ∈ st.demandsBelow root) : n.index < st.nodes.size := by
  obtain ⟨m, hm, hmem⟩ := List.mem_flatMap.mp h
  obtain ⟨d', -, heq⟩ := List.mem_map.mp hmem
  cases heq
  exact htree.untouched.known n hm

/-- To the nodes that come when a view is mounted, nobody listens. -/
theorem listeners_mounted_new (htree : st.IsTree root) (hn : st.nodes.size ≤ n.index) :
    ((st.mounted root o).node n).listeners = [] := by
  obtain ⟨asked, hmeets, -, htexts⟩ := mounted_meets htree o
  refine List.eq_nil_iff_forall_not_mem.mpr fun l hl => ?_
  rcases (attached_mounted st root o).listeners n l hl with hold | hattached
  · rw [node_eq_default hn] at hold
    cases hold
  · -- A binding with a listener answers a demand of an old node.
    obtain ⟨b, hb, ha⟩ := List.mem_flatMap.mp hattached
    obtain ⟨p, hp, hanswers⟩ := exists_of_forall₂ hmeets.answers hb
    obtain ⟨q, hq, hlistens⟩ := exists_of_forall₂ hanswers.listeners ha
    obtain ⟨key, hkey⟩ := htexts p hp (hlistens.1 ▸ hn)
    rw [hkey] at hq
    cases hq

/-- When a view is mounted, it starts to listen to the nodes whose form values are bound. -/
theorem listenersFor_mounted (htree : st.IsTree root) :
    (((st.mounted root o).node n).listenersFor "input").map Listener.action =
      ((st.node n).listenersFor "input").map Listener.action ++
        (st.valueKeys root n).map (Action.edit st.views.fresh) := by
  by_cases hn : n.index < st.nodes.size
  · obtain ⟨asked, hmeets, hasked, -⟩ := mounted_meets htree o
    have hnodes : (st.withView root o).nodes = st.nodes := nodes_withView
    have hnode := hmeets.node n (hnodes ▸ hn)
    have hsame : (st.mounted root o).node n = (st.withTree root o).node n := node_congr rfl n
    rw [hsame, hnode, node_congr hnodes, hasked n hn]
    exact listenersFor_foldl_meet ..
  · have hnew := Nat.le_of_not_lt hn
    have hnone : st.valueKeys root n = [] := by
      rw [valueKeys, demandsAt_eq_nil fun d hd => hn (lt_size_of_mem_demandsBelow htree hd)]
      rfl
    rw [Node.listenersFor, listeners_mounted_new htree hnew, node_eq_default hnew, hnone]
    rfl

theorem filterMap_valueKeyOf?_mounted (htree : st.IsTree root) (hn : n.index < st.nodes.size) :
    (watchersOf (st.bindingsOn root o)).filterMap ((st.mounted root o).valueKeyOf? n) =
      st.valueKeys root n := by
  obtain ⟨asked, hmeets, hasked, -⟩ := mounted_meets htree o
  have hsame : (st.mounted root o).valueKeyOf? n = (st.withTree root o).valueKeyOf? n := by
    funext s
    have hwatcher : (st.mounted root o).watcher? s = (st.withTree root o).watcher? s :=
      watcher?_congr rfl
    rw [valueKeyOf?, hwatcher, valueKeyOf?]
  rw [hsame, filterMap_valueKeyOf? hmeets.answers, hasked n hn, valueKeys]

variable (htree : st.IsTree root) (hn : n.index < st.nodes.size)

include htree hn

theorem mem_valueKeys_of_isBoundBy (hs : (st.mounted root o).isBoundBy st.views.fresh s = true)
    (hkey : (st.mounted root o).valueKeyOf? n s = some key) : key ∈ st.valueKeys root n := by
  rw [isBoundBy_mounted, ← (attached_mounted st root o).watchers] at hs
  rw [← filterMap_valueKeyOf?_mounted htree hn]
  exact List.mem_filterMap.mpr ⟨s, hs, hkey⟩

theorem exists_of_mem_valueKeys (hkey : key ∈ st.valueKeys root n) :
    ∃ s, (st.mounted root o).isBoundBy st.views.fresh s = true ∧
      (st.mounted root o).valueKeyOf? n s = some key := by
  rw [← filterMap_valueKeyOf?_mounted (o := o) htree hn] at hkey
  obtain ⟨s, hs, hsets⟩ := List.mem_filterMap.mp hkey
  refine ⟨s, ?_, hsets⟩
  rw [isBoundBy_mounted, ← (attached_mounted st root o).watchers]
  exact hs

/-- One watcher of the view at most sets the form value of a node. -/
theorem eq_of_valueKeyOf?_mounted (hnames : ((st.node n).attributes.map Attribute.name).Nodup)
    {s' : SubscriberId} {key' : String}
    (hs : (st.mounted root o).isBoundBy st.views.fresh s = true)
    (hs' : (st.mounted root o).isBoundBy st.views.fresh s' = true)
    (hkey : (st.mounted root o).valueKeyOf? n s = some key)
    (hkey' : (st.mounted root o).valueKeyOf? n s' = some key') : s = s' := by
  have hone := length_valueKeys_le_one (n := n) htree hnames
  rw [← filterMap_valueKeyOf?_mounted (o := o) htree hn, length_le_one_iff,
    List.pairwise_filterMap] at hone
  rw [isBoundBy_mounted, ← (attached_mounted st root o).watchers] at hs hs'
  have hsymm : Std.Symm fun a a' => ∀ b, (st.mounted root o).valueKeyOf? n a = some b →
      ∀ b', (st.mounted root o).valueKeyOf? n a' = some b' → False :=
    ⟨fun _ _ h b hb b' hb' => h b' hb' b hb⟩
  by_contra hne
  exact hone.forall hs hs' hne key hkey key' hkey'

end Mounted

end DataBinding
