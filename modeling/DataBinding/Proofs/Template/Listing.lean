import DataBinding.Proofs.Template.Demand
import DataBinding.Proofs.Template.Rendering

set_option autoImplicit false

/-! # Binding a tree finds what it asks for

The bindings of a tree answer the demands of its exposed nodes in document order, each demand by
one binding, and nothing else is done (`compile_meets`). This holds of every tree unless there is
an interpolation in a text that is rendered: then the walk takes the text for a part of the tree
and binds it, too. The list of demands is read off the tree as it was before.
-/

namespace DataBinding

open State

/-! ## Making a watcher -/

namespace State

variable {st : State}

section Watch

variable {root : RecordId} {path : String} {reaction : Reaction}

theorem get_watch {k : ChannelId} (hk : k.index < st.channels.size) :
    (st.watch root path reaction).2.channels.get k = st.channels.get k ++
      if k ∈ st.channelsRead root path ∧ st.subscribers.fresh ∉ st.channels.get k
        then [st.subscribers.fresh] else [] := by
  have halive : (st.withWatcher root path reaction).isAlive st.subscribers.fresh = true := by
    rw [isAlive_iff, holders_withWatcher, if_pos rfl]
    exact Nat.zero_lt_one
  have hread : ((st.withWatcher root path reaction).track { reader := st.subscribers.fresh } root
      path).2 = (st.withWatcher root path reaction).subscribeAll
        ((st.withWatcher root path reaction).channelsRead root path) st.subscribers.fresh := rfl
  have hafter : ∀ (st' : State) s f e, ((st'.updateWatcher s f).report e).channels = st'.channels :=
    fun _ _ _ _ => rfl
  have hsame : (st.withWatcher root path reaction).channels = st.channels := rfl
  rw [watch_eq, hafter, hread, get_subscribeAll halive _ hk, hsame,
    onlySubscriptions_withWatcher.graph.channelsRead]

theorem get?_watch {s : SubscriberId} (hs : s.index < st.subscribers.size) :
    (st.watch root path reaction).2.subscribers.get? s = st.subscribers.get? s := by
  have hne := Table.ne_fresh hs
  let read := ((st.withWatcher root path reaction).track { reader := st.subscribers.fresh } root
    path).2
  have hread : read.subscribers = (st.withWatcher root path reaction).subscribers :=
    subscribers_subscribeAll ..
  calc (st.watch root path reaction).2.subscribers.get? s
      = read.subscribers.get? s := Table.get?_modify_ne _ hne.symm _
    _ = (st.withWatcher root path reaction).subscribers.get? s := by rw [hread]
    _ = st.subscribers.get? s := by rw [withWatcher, Table.get?_alloc, if_neg hne]

end Watch

end State

theorem Table.ids_succ {k : Kind} {α : Type} {t t' : Table k α} (h : t'.size = t.size + 1) :
    t'.ids = t.ids ++ [t.fresh] := by
  rw [ids, h, List.range_succ, List.map_append, ids]
  rfl

/-! ## One demand -/

section One

variable {view : ViewId} {n : NodeId} {d : Demand} {b : Binding} {st st₁ st' : State}

/-- What is known of a node whose demand has been answered: it is as the demand says, and keeps its
children unless the demand was for the text of an element. -/
structure MeetsAt (view : ViewId) (n : NodeId) (d : Demand) (st st' : State) : Prop where
  only : OnlyNode n st st'
  node : n.index < st.nodes.size →
    st'.node n = { d.meet view (st.shown view) (st.node n) with children := (st'.node n).children }
  children : (∀ key, d = .text key → (st.node n).kind = .text) →
    (st'.node n).children = (st.node n).children

namespace MeetsAt

variable (h : MeetsAt view n d st st') {m : NodeId} (hm : m.index < st.nodes.size)

include h hm

theorem node_foldl : st'.node m =
    { (demandsAt m [(n, d)]).foldl (Demand.meet view (st.shown view)) (st.node m) with
      children := (st'.node m).children } := by
  by_cases hmn : m = n
  · subst hmn
    have hone : demandsAt m [(m, d)] = [d] := by simp [demandsAt]
    rw [hone, List.foldl_cons, List.foldl_nil]
    exact h.node hm
  · have hnone : demandsAt m [(n, d)] = [] := by simp [demandsAt, Ne.symm hmn]
    rw [hnone, List.foldl_nil, h.only.node m hm hmn]

theorem children_of_text (htext : ∀ key, (m, .text key) ∈ [(n, d)] → (st.node m).kind = .text) :
    (st'.node m).children = (st.node m).children := by
  by_cases hmn : m = n
  · subst hmn
    refine h.children fun key hkey => htext key ?_
    rw [hkey]
    exact List.mem_cons_self
  · rw [h.only.node m hm hmn]

end MeetsAt

/-- A demand is answered by a watcher, when nothing but the tree has changed before the watcher was
made, and nothing but the tree after that. -/
theorem meets_of_watch {key : String} {reaction : Reaction} (hat : MeetsAt view n d st st')
    (hbefore : st₁ = { st with nodes := st₁.nodes })
    (hafter : st' = { (st₁.watch (st.view view).data key reaction).2 with nodes := st'.nodes })
    (hwatching : d.watching n = [(key, reaction)]) (hwatchers : b.watchers = [st.subscribers.fresh])
    (hlisteners : List.Forall₂ (st.Listens st' n) (d.listening view) b.listeners) :
    Meets view st [(n, d)] [b] st' := by
  let watched := (st₁.watch (st.view view).data key reaction).2
  have hsubscribers : st₁.subscribers = st.subscribers := by rw [hbefore]
  have hchannels : st₁.channels = st.channels := by rw [hbefore]
  have hgraph : SameGraph st st₁ := ⟨by rw [hbefore], by rw [hbefore]⟩
  have hsubscribers' : st'.subscribers = watched.subscribers := by rw [hafter]
  have hchannels' : st'.channels = watched.channels := by rw [hafter]
  have honly := onlySubscriptions_watch st₁ (st.view view).data key reaction
  have hstore : SameStore watched st' :=
    ⟨by rw [hafter], by rw [hafter], by rw [hafter], by rw [hafter]⟩
  have hviews : st₁.views = st.views := by rw [hbefore]
  have hagenda : st₁.agenda = st.agenda := by rw [hbefore]
  have hadds : AddsWatcher st st' (st₁.firstWatcher (st.view view).data key reaction) :=
    (addsWatcher_watch st₁ (st.view view).data key reaction).congr hsubscribers hsubscribers'
  have hfresh : st'.watcher? st.subscribers.fresh =
      some (st₁.firstWatcher (st.view view).data key reaction) := by
    rw [hadds.watcher, if_pos rfl]
  have hof : watchersOf [b] = [st.subscribers.fresh] := by
    rw [watchersOf, List.flatMap_cons, hwatchers]
    rfl
  have hwatched : SameStore st watched := ⟨honly.records.trans hgraph.records,
    honly.cells.trans hgraph.cells, honly.views.trans hviews, agenda_watch.trans hagenda⟩
  refine ⟨hwatched.trans hstore, .cons ⟨?_, hlisteners⟩ .nil, ?_, ?_, ?_, ?_, hat.only.size,
    fun m => hat.node_foldl, fun m => hat.children_of_text⟩
  · rw [hwatching, hwatchers]
    refine .cons ⟨?_, _, hfresh, rfl, rfl, rfl, ?_, rfl⟩ .nil
    · rw [hadds.holders, if_pos rfl]
    · exact hgraph.read _ _
  · rw [hof]
    exact Table.ids_succ hadds.size
  · intro s hs
    rw [hsubscribers', get?_watch (by rw [hsubscribers]; exact hs), hsubscribers]
  · rw [hchannels', size_channels_watch, hchannels]
  · intro c hc
    have hjoins : st.joins st' c st.subscribers.fresh =
        decide (c ∈ st.channelsRead (st.view view).data key ∧
          st.subscribers.fresh ∉ st.channels.get c) := by
      rw [joins, hfresh, isSubscribed, Bool.decide_and, decide_not]
      rfl
    rw [hof, hchannels', get_watch (by rw [hchannels]; exact hc), hchannels, hsubscribers,
      hgraph.channelsRead, List.filter_cons, hjoins, List.filter_nil]
    simp only [decide_eq_true_eq]

/-- A listener that is added is on the node, under a new number. -/
theorem listens_listen (h : n.index < st₁.nodes.size)
    (hnext : (st.node n).nextListener ≤ (st₁.node n).nextListener) (event : String) (a : Action) :
    st.Listens (st₁.listen n event a).2 n (event, a) (st₁.listen n event a).1 := by
  refine ⟨rfl, rfl, ?_, hnext⟩
  rw [listen_eq, node_updateNode_eq h]
  exact List.mem_append_right _ List.mem_cons_self

/-- An element that is given a text changes its children only. -/
theorem node_setText_element (hn : n.index < st.nodes.size) (hkind : (st.node n).kind = .element)
    (text : String) : (st.setText n text).node n =
      { st.node n with children := ((st.setText n text).node n).children } := by
  unfold setText
  rw [hkind]
  simp only
  split
  · rw [node_updateNode_eq hn]
  · have hn' : n.index < (st.newNode (.ofText text)).2.nodes.size :=
      Nat.lt_of_lt_of_le hn (KeepsKinds.newNode _).size
    show ((st.newNode (.ofText text)).2.updateNode n _).node n = _
    rw [node_updateNode_eq hn', node_newNode_of_lt hn]

theorem node_setText_text (hn : n.index < st.nodes.size) (hkind : (st.node n).kind = .text)
    (text : String) : (st.setText n text).node n = { st.node n with text } := by
  have hset : st.setText n text = st.updateNode n fun b => { b with text } := by
    rw [setText, hkind]
  rw [hset, node_updateNode_eq hn]

theorem meets_bindText (view : ViewId) (key : String) (hn : n.index < st.nodes.size)
    (hkind : (st.node n).kind ≠ .other) :
    Meets view st [(n, .text key)] [(st.bindText view n key).1] (st.bindText view n key).2 := by
  let text := (st.readView view key).display
  have hnodes : (st.bindText view n key).2.nodes = (st.setText n text).nodes := bindText_nodes ..
  have hnode := node_congr hnodes n
  have hat : MeetsAt view n (.text key) st (st.bindText view n key).2 := by
    refine ⟨(OnlyNode.setText text).trans (.of_nodes hnodes), fun _ => ?_, fun htext => ?_⟩
    · rw [hnode]
      cases hk : (st.node n).kind with
      | element =>
          have hmeet : (Demand.text key).meet view (st.shown view) (st.node n) = st.node n := by
            simp [Demand.meet, hk]
          rw [hmeet]
          exact node_setText_element hn hk text
      | text =>
          have hmeet : (Demand.text key).meet view (st.shown view) (st.node n) =
              { st.node n with text } := by
            simp [Demand.meet, hk, text, State.shown]
          rw [hmeet, node_setText_text hn hk]
      | other => exact absurd hk hkind
    · rw [hnode, node_setText_text hn (htext key rfl)]
  have hwatchers : (st.bindText view n key).1.watchers =
      [(st.setText n text).subscribers.fresh] := rfl
  have hafter : (st.bindText view n key).2 =
      { ((st.setText n text).watch (st.view view).data key (.showText n)).2 with
        nodes := (st.bindText view n key).2.nodes } := by
    rw [bindText_eq]
  refine meets_of_watch hat (setText_rest st n text) hafter rfl ?_ .nil
  rw [hwatchers, setText_rest]

theorem meets_bindModel (view : ViewId) (key : String) (hn : n.index < st.nodes.size) :
    Meets view st [(n, .value key)] [(st.bindModel view n key).1] (st.bindModel view n key).2 := by
  let valued := st.updateNode n (·.setValue (st.readView view key).display)
  let watched := (valued.watch (st.view view).data key (.showValue n)).2
  have hsize : valued.nodes.size = st.nodes.size := Table.size_modify ..
  have hnodes : watched.nodes = valued.nodes := (onlySubscriptions_watch ..).nodes
  have hn' : n.index < watched.nodes.size := by
    rw [hnodes, hsize]
    exact hn
  have hwatched : watched.node n = (st.node n).setValue (st.shown view key) := by
    rw [node_congr hnodes, node_updateNode_eq hn]
    rfl
  have hnode : (st.bindModel view n key).2.node n =
      ((st.node n).setValue (st.shown view key)).addListener "input" (.edit view key) := by
    rw [bindModel_eq, listen_eq, node_updateNode_eq hn', ← hwatched]
  have hat : MeetsAt view n (.value key) st (st.bindModel view n key).2 := by
    refine ⟨?_, fun _ => ?_, fun _ => ?_⟩
    · have hvalued : OnlyNode n st valued := .updateNode _
      exact (hvalued.trans (.of_nodes hnodes)).trans (.updateNode _)
    · rw [hnode]
      rfl
    · rw [hnode]
      rfl
  have hbefore : valued = { st with nodes := valued.nodes } := rfl
  refine meets_of_watch hat hbefore rfl rfl rfl (.cons ?_ .nil)
  refine listens_listen hn' ?_ "input" (.edit view key)
  rw [hwatched]
  exact Nat.le_refl _

theorem meets_bindClick (view : ViewId) (method : String) (hn : n.index < st.nodes.size) :
    Meets view st [(n, .click method)] [(st.bindClick view n method).1]
      (st.bindClick view n method).2 := by
  have hnode : (st.bindClick view n method).2.node n =
      (st.node n).addListener "click" (.invoke view method) := node_updateNode_eq hn _
  have hat : MeetsAt view n (.click method) st (st.bindClick view n method).2 := by
    refine ⟨.updateNode _, fun _ => ?_, fun _ => ?_⟩
    · rw [hnode]
      rfl
    · rw [hnode]
      rfl
  refine ⟨⟨rfl, rfl, rfl, rfl⟩, .cons ⟨.nil, .cons ?_ .nil⟩ .nil, ?_, fun _ _ => rfl, rfl, ?_,
    hat.only.size, fun m => hat.node_foldl, fun m => hat.children_of_text⟩
  · exact listens_listen hn (Nat.le_refl _) "click" (.invoke view method)
  · exact (List.append_nil _).symm
  · intro c _
    exact (List.append_nil _).symm

end One

/-! ## A node -/

/-- From `c` to `c'` the demands of a list were answered. -/
def Answered (view : ViewId) (l : List (NodeId × Demand)) (c c' : Compilation) : Prop :=
  ∃ bs, c'.bindings = c.bindings ++ bs ∧ Meets view c.state l bs c'.state

namespace Answered

variable {view : ViewId} {n : NodeId} {c c₁ c' : Compilation} {l l' : List (NodeId × Demand)}

theorem refl (view : ViewId) (c : Compilation) : Answered view [] c c :=
  ⟨[], (List.append_nil _).symm, .refl view c.state⟩

theorem reports (view : ViewId) (c : Compilation) (e : Event) :
    Answered view [] c { c with state := c.state.report e } :=
  ⟨[], (List.append_nil _).symm, .reports view c.state e⟩

theorem append (h : Answered view l c c₁) (h' : Answered view l' c₁ c') :
    Answered view (l ++ l') c c' := by
  obtain ⟨bs, hbs, hmeets⟩ := h
  obtain ⟨bs', hbs', hmeets'⟩ := h'
  refine ⟨bs ++ bs', ?_, hmeets.append hmeets'⟩
  rw [hbs', hbs, List.append_assoc]

/-- One demand is answered by one binding, of which is reported afterwards. -/
theorem of_meets {d : Demand} {p : Binding × State}
    (h : Meets view c.state [(n, d)] [p.1] p.2) (e : Event) :
    Answered view [(n, d)] c ⟨p.2.report e, c.bindings ++ [p.1]⟩ :=
  ⟨[p.1], rfl, h.report e⟩

end Answered

section Nodes

variable (view : ViewId) {n : NodeId} {c : Compilation}

theorem textContent_text {st : State} (hn : n.index < st.nodes.size)
    (hkind : (st.node n).kind = .text) : st.textContent n = (st.node n).text :=
  textContent_of_shows hn (.inl ⟨hkind, rfl⟩)

theorem answered_bindTextNode (hn : n.index < c.state.nodes.size)
    (hkind : (c.state.node n).kind = .text) :
    Answered view ((c.state.node n).demands.map fun d => (n, d)) c (bindTextNode view n c) := by
  rw [Node.demands, hkind, bindTextNode, textContent_text hn hkind]
  cases hkey : Interpolation.key? (c.state.node n).text with
  | none => exact .refl view c
  | some key =>
      let reported := c.state.report (.interpolation key)
      have hkind' : (reported.node n).kind ≠ .other := by
        rw [node_report, hkind]
        decide
      have hmeets : Meets view reported _ _ _ := meets_bindText view key hn hkind'
      exact (Answered.reports view c (.interpolation key)).append ⟨_, rfl, hmeets⟩

theorem answered_bindAttribute (hn : n.index < c.state.nodes.size)
    (hkind : (c.state.node n).kind = .element) (a : Attribute) :
    Answered view (a.demand?.toList.map fun d => (n, d)) c (bindAttribute view n c a) := by
  have hother : (c.state.node n).kind ≠ .other := by
    rw [hkind]
    nofun
  unfold bindAttribute Attribute.demand?
  cases hname : Directive.ofName? a.name with
  | none =>
      simp only
      split
      · exact .reports view c _
      · exact .refl view c
  | some directive =>
      cases directive with
      | text => exact .of_meets (meets_bindText view _ hn hother) _
      | model => exact .of_meets (meets_bindModel view _ hn) _
      | on event =>
          simp only
          split
          · exact .of_meets (meets_bindClick view _ hn) _
          · exact .reports view c _

theorem answered_bindAttributes (hn : n.index < c.state.nodes.size)
    (hkind : (c.state.node n).kind = .element) (l : List Attribute) :
    Answered view ((l.filterMap Attribute.demand?).map fun d => (n, d)) c
      (l.foldl (bindAttribute view n) c) := by
  induction l generalizing c with
  | nil => exact .refl view c
  | cons a rest ih =>
      have hfirst := answered_bindAttribute view hn hkind a
      have hstep := bindsAt_bindAttribute view n c a hkind
      -- The element stays one, so the rest of its attributes are bound as such.
      have hrest := ih (Nat.lt_of_lt_of_le hn hstep.nodes.size)
        ((hstep.wires.keepsKinds.kind n hn).trans hkind)
      have hdemands : (a :: rest).filterMap Attribute.demand? =
          a.demand?.toList ++ rest.filterMap Attribute.demand? := by
        rw [List.filterMap_cons]
        cases a.demand? with
        | none => rfl
        | some d => rfl
      rw [hdemands, List.map_append, List.foldl_cons]
      exact hfirst.append hrest

/-- Binding a node is answering what it asks for. -/
theorem answered_bindNode (hn : n.index < c.state.nodes.size) :
    Answered view ((c.state.node n).demands.map fun d => (n, d)) c (bindNode view n c) := by
  unfold bindNode
  split
  · rename_i hkind
    exact answered_bindTextNode view hn hkind
  · rename_i hkind
    rw [Node.demands, hkind]
    exact answered_bindAttributes view hn hkind _
  · rename_i hkind
    rw [Node.demands, hkind]
    exact .refl view c

/-- Unless an interpolation is in the text that an element is given, to visit it is to bind it. -/
theorem visit_eq_bindNode (h : ∀ key, (c.state.node n).textKey? = some key →
    Interpolation.key? (c.state.readView view key).display = none) :
    visit view c n = bindNode view n c := by
  cases hkey : (c.state.node n).textKey? with
  | none =>
      rw [visit, hkey]
      rfl
  | some key =>
      rw [visit, hkey, Option.isSome_some, if_pos rfl]
      obtain ⟨-, hends⟩ | ⟨t, -, ht, hnode, hends⟩ :=
        bindBelow_renders view (renders_bindNode view hkey)
      · exact hends 1
      · -- The walk comes to the text that was rendered, and finds nothing in it.
        have hkind : ((bindNode view n c).state.node t).kind = .text := by
          rw [hnode]
          rfl
        rw [hends 0, bindTextNode, textContent_text ht hkind, hnode, Node.ofText, h key hkey]

end Nodes

/-! ## The walk -/

namespace State

variable {st : State} {view : ViewId} {root : NodeId}

/-- No interpolation is in a text that is rendered when the tree below a root is bound. -/
def IsPlain (st : State) (view : ViewId) (root : NodeId) : Prop :=
  ∀ n ∈ st.exposed st.height root, ∀ key ∈ (st.node n).textKey?,
    Interpolation.key? (st.readView view key).display = none

instance : Decidable (st.IsPlain view root) :=
  inferInstanceAs (Decidable (∀ n ∈ _, ∀ key ∈ _, _))

theorem EndsWithin.mono {depth : Nat} {n : NodeId} (h : st.EndsWithin depth n) (more : Nat) :
    st.EndsWithin (depth + more) n := by
  induction depth generalizing n with
  | zero =>
      rw [EndsWithin] at h
      cases more with
      | zero => exact h
      | succ more =>
          rw [Nat.zero_add, EndsWithin, h]
          exact fun _ hc => absurd hc List.not_mem_nil
  | succ depth ih =>
      rw [Nat.succ_add]
      intro c hc
      exact ih (h c hc)

/-- A tree is not exposed any further when one looks deeper. -/
theorem EndsWithin.exposed_eq {depth : Nat} {n : NodeId} (h : st.EndsWithin depth n) (more : Nat) :
    st.exposed (depth + more) n = st.exposed depth n := by
  induction depth generalizing n with
  | zero =>
      rw [EndsWithin] at h
      cases more with
      | zero => rfl
      | succ more => rw [Nat.zero_add, exposed_succ, h, exposed, List.flatMap_nil]
  | succ depth ih =>
      rw [Nat.succ_add, exposed_succ, exposed_succ]
      refine List.flatMap_congr fun c hc => ?_
      rw [exposedFrom, exposedFrom, ih (h c hc)]

end State

section Walk

variable {st : State} {view : ViewId} {root : NodeId}

/-- To visit nodes that are as they were is to answer what they asked for, one by one. -/
theorem answered_visits (view : ViewId) {l : List NodeId} {c : Compilation}
    (huntouched : Untouched st l c.state)
    (hread : ∀ key, c.state.readView view key = st.readView view key)
    (hplain : ∀ n ∈ l, ∀ key ∈ (st.node n).textKey?,
      Interpolation.key? (st.readView view key).display = none) :
    Answered view (l.flatMap fun n => (st.node n).demands.map fun d => (n, d)) c
      (l.foldl (visit view) c) := by
  induction l generalizing c with
  | nil => exact .refl view c
  | cons n rest ih =>
      have hsame := huntouched.same n List.mem_cons_self
      have hvisit : visit view c n = bindNode view n c := by
        refine visit_eq_bindNode view fun key hkey => ?_
        rw [hsame] at hkey
        rw [hread]
        exact hplain n List.mem_cons_self key hkey
      have hfirst := answered_bindNode view (huntouched.known n List.mem_cons_self)
      have hbinds := bindsAt_bindNode view n c
      have hread' : ∀ key, (bindNode view n c).state.readView view key = st.readView view key :=
        fun key => (hbinds.wires.sameStore.readView view key).trans (hread key)
      have hrest := ih (huntouched.onlyNode hbinds.nodes) hread' fun m hm =>
        hplain m (List.mem_cons_of_mem _ hm)
      rw [hsame] at hfirst
      rw [List.flatMap_cons, List.foldl_cons, hvisit]
      exact hfirst.append hrest

/-- However deep the walk may go, it visits what is exposed. -/
theorem bindBelow_eq_visits (htree : st.IsTree root) (view : ViewId) (more : Nat) :
    bindBelow view (st.height + more + 1) root ⟨st, []⟩ =
      (st.exposed st.height root).foldl (visit view) ⟨st, []⟩ := by
  have hends := htree.endsWithin
  rw [bindBelow_eq_foldl (hends.mono more) rfl, hends.exposed_eq]
  rw [hends.exposed_eq]
  exact htree.untouched

/-- What binding the tree below a root should come to. -/
structure BindsExactly (st : State) (view : ViewId) (root : NodeId) : Prop where
  /-- The walk has come to its end: it would not go on if it could go deeper. -/
  ends : ∀ more, bindBelow view (st.height + more + 1) root ⟨st, []⟩ =
    ⟨(st.compile view root).2, (st.compile view root).1⟩
  /-- What the tree asks for is answered, and nothing else is done. -/
  meets : Meets view st (st.demandsBelow root) (st.compile view root).1 (st.compile view root).2
  /-- A node that asks for nothing, or is below an element with a bound text, stays as it is. -/
  kept : ∀ n : NodeId, n.index < st.nodes.size → (∀ d, (n, d) ∉ st.demandsBelow root) →
    (st.compile view root).2.node n = st.node n
  /-- The children of an element with a bound text have given way to the text. -/
  renders : ∀ n ∈ st.exposed st.height root, ∀ key ∈ (st.node n).textKey?,
    (st.compile view root).2.Renders st.nodes.size n (st.shown view key)

/-- If no interpolation is in a text that is rendered, binding a tree finds exactly what the tree
asks for. -/
theorem compile_bindsExactly (htree : st.IsTree root) (hplain : st.IsPlain view root) :
    BindsExactly st view root := by
  have hwalk : (⟨(st.compile view root).2, (st.compile view root).1⟩ : Compilation) =
      (st.exposed st.height root).foldl (visit view) ⟨st, []⟩ :=
    bindBelow_eq_visits htree view 0
  have hvisits : Answered view (st.demandsBelow root) ⟨st, []⟩
      ((st.exposed st.height root).foldl (visit view) ⟨st, []⟩) :=
    answered_visits view htree.untouched (fun _ => rfl) hplain
  rw [← hwalk] at hvisits
  obtain ⟨bs, hbs, hmeets⟩ := hvisits
  obtain rfl : (st.compile view root).1 = bs := hbs
  refine ⟨fun more => (bindBelow_eq_visits htree view more).trans hwalk.symm, hmeets, ?_, ?_⟩
  · intro n hn hnone
    have hchildren := hmeets.children n hn fun key hkey => absurd hkey (hnone _)
    rw [hmeets.node n hn, hchildren, demandsAt_eq_nil hnone]
    rfl
  · intro n hn key hkey
    exact (rendered_compile htree view).renders n hn key hkey (hplain n hn key hkey)

end Walk

/-- A form on a tree: a text with an interpolation, a comment that another one is below, a paragraph
with a bound text in place of what is below it, and a field with a form value, a method and an
attribute that is no directive. The view of it has been made. -/
def form : State :=
  (({} : State).play [.operate .newRecord, .operate (.writeField ⟨⟨0⟩, "a"⟩ (.text "x")),
    .operate (.writeField ⟨⟨0⟩, "b"⟩ (.text "y")), .operate (.newNode .element "form"),
    .operate (.newNode .text "\x7b\x7b a \x7d\x7d"), .operate (.newNode .other "note"),
    .operate (.newNode .text "\x7b\x7b b \x7d\x7d"), .operate (.newNode .element "p"),
    .operate (.newNode .text "\x7b\x7b b \x7d\x7d"), .operate (.newNode .element "input"),
    .operate (.setAttribute ⟨4⟩ "v-text" "a"), .operate (.setAttribute ⟨6⟩ "v-model" " b "),
    .operate (.setAttribute ⟨6⟩ "v-on:click" "go"), .operate (.setAttribute ⟨6⟩ "v-if" "a"),
    .operate (.appendChild ⟨2⟩ ⟨3⟩), .operate (.appendChild ⟨4⟩ ⟨5⟩),
    .operate (.appendChild ⟨0⟩ ⟨1⟩), .operate (.appendChild ⟨0⟩ ⟨2⟩),
    .operate (.appendChild ⟨0⟩ ⟨4⟩), .operate (.appendChild ⟨0⟩ ⟨6⟩)]).withView ⟨0⟩ { data := ⟨0⟩ }

/-- What the form asks for, in order. -/
theorem bindsExactly_form : BindsExactly form ⟨0⟩ ⟨0⟩ ∧ form.demandsBelow ⟨0⟩ =
    [(⟨1⟩, .text "a"), (⟨3⟩, .text "b"), (⟨4⟩, .text "a"), (⟨6⟩, .value "b"),
      (⟨6⟩, .click "go")] :=
  ⟨compile_bindsExactly (by decide +kernel) (by decide +kernel), by decide +kernel⟩

end DataBinding
