import DataBinding.Proofs.Template.Exposure
import DataBinding.Proofs.Template.Wiring

set_option autoImplicit false

/-! # What a tree asks for

The *demands* of a node are what its interpolation or its attributes ask a view for, in order. A
demand is answered by one binding (`Answers`): the binding has a watcher if the demand is for a
text or a form value, and a listener if it is for a form value or a method. To answer demands is
to make these watchers and listeners, and to do nothing else (`Meets`).
-/

namespace DataBinding

open State

/-! ## Demands -/

/-- What a node can ask a view for. -/
inductive Demand where
  /-- To show the value at a path as the node's text. -/
  | text (key : String)
  /-- To show the value at a path as the node's form value, and to write it back. -/
  | value (key : String)
  /-- To call a method when the node is clicked. -/
  | click (method : String)
  deriving DecidableEq, Repr

/-- What an attribute asks for. -/
def Attribute.demand? (a : Attribute) : Option Demand :=
  match Directive.ofName? a.name with
  | some .text => some (.text (Text.trim a.value))
  | some .model => some (.value (Text.trim a.value))
  | some (.on event) => if event = "click" then some (.click (Text.trim a.value)) else none
  | none => none

/-- What a node asks for. -/
def Node.demands (b : Node) : List Demand :=
  match b.kind with
  | .text => ((Interpolation.key? b.text).map Demand.text).toList
  | .element => b.attributes.filterMap Attribute.demand?
  | .other => []

/-- What the nodes below a root ask for, node by node in document order. What is below an element
with a bound text does not count. -/
def State.demandsBelow (st : State) (root : NodeId) : List (NodeId × Demand) :=
  (st.exposed st.height root).flatMap fun n => (st.node n).demands.map fun d => (n, d)

/-! ## Answers -/

namespace Demand

/-- The path and the reaction of the watcher that a demand of the node `n` calls for. -/
def watching (n : NodeId) : Demand → List (String × Reaction)
  | .text key => [(key, .showText n)]
  | .value key => [(key, .showValue n)]
  | .click _ => []

/-- The event and the action of the listener that a demand calls for. -/
def listening (view : ViewId) : Demand → List (String × Action)
  | .text _ => []
  | .value key => [("input", .edit view key)]
  | .click method => [("click", .invoke view method)]

/-- What a node is when a demand of it has been answered, its children apart; `shown` is the text
of the value at a path. -/
def meet (view : ViewId) (shown : String → String) (b : Node) : Demand → Node
  | .text key => if b.kind = .text then { b with text := shown key } else b
  | .value key => (b.setValue (shown key)).addListener "input" (.edit view key)
  | .click method => b.addListener "click" (.invoke view method)

section Meet

variable {view : ViewId} {shown : String → String}

@[simp] theorem kind_meet (b : Node) (d : Demand) : (d.meet view shown b).kind = b.kind := by
  cases d with
  | text key =>
      simp only [meet]
      split
      · rfl
      · rfl
  | value key => rfl
  | click method => rfl

/-- Answering a demand does not look at the children. -/
theorem meet_withChildren (b : Node) (children : List NodeId) (d : Demand) :
    d.meet view shown { b with children } = { d.meet view shown b with children } := by
  cases d with
  | text key =>
      simp only [meet]
      split
      · rfl
      · rfl
  | value key => rfl
  | click method => rfl

/-- The listeners that a node gets come behind those that it has. -/
theorem listeners_meet (b : Node) (d : Demand) :
    ∃ new, (d.meet view shown b).listeners = b.listeners ++ new := by
  cases d with
  | text key =>
      refine ⟨[], ?_⟩
      simp only [meet, List.append_nil]
      split
      · rfl
      · rfl
  | value key => exact ⟨_, rfl⟩
  | click method => exact ⟨_, rfl⟩

theorem nextListener_le_meet (b : Node) (d : Demand) :
    b.nextListener ≤ (d.meet view shown b).nextListener := by
  cases d with
  | text key =>
      simp only [meet]
      split
      · exact Nat.le_refl _
      · exact Nat.le_refl _
  | value key => exact Nat.le_succ _
  | click method => exact Nat.le_succ _

theorem kind_foldl_meet (b : Node) (l : List Demand) :
    (l.foldl (meet view shown) b).kind = b.kind := by
  induction l generalizing b with
  | nil => rfl
  | cons d rest ih => rw [List.foldl_cons, ih, kind_meet]

theorem foldl_meet_withChildren (b : Node) (children : List NodeId) (l : List Demand) :
    l.foldl (meet view shown) { b with children } =
      { l.foldl (meet view shown) b with children } := by
  induction l generalizing b with
  | nil => rfl
  | cons d rest ih => rw [List.foldl_cons, List.foldl_cons, meet_withChildren, ih]

theorem mem_listeners_foldl_meet {b : Node} {x : Listener} (h : x ∈ b.listeners)
    (l : List Demand) : x ∈ (l.foldl (meet view shown) b).listeners := by
  induction l generalizing b with
  | nil => exact h
  | cons d rest ih =>
      obtain ⟨new, hnew⟩ := @listeners_meet view shown b d
      refine ih ?_
      rw [hnew]
      exact List.mem_append_left _ h

theorem nextListener_le_foldl_meet (b : Node) (l : List Demand) :
    b.nextListener ≤ (l.foldl (meet view shown) b).nextListener := by
  induction l generalizing b with
  | nil => exact Nat.le_refl _
  | cons d rest ih => exact Nat.le_trans (nextListener_le_meet b d) (ih _)

end Meet

end Demand

/-- What is asked of one node. -/
def demandsAt (n : NodeId) (l : List (NodeId × Demand)) : List Demand :=
  (l.filter (·.1 = n)).map Prod.snd

theorem demandsAt_append (n : NodeId) (l l' : List (NodeId × Demand)) :
    demandsAt n (l ++ l') = demandsAt n l ++ demandsAt n l' := by
  rw [demandsAt, List.filter_append, List.map_append, demandsAt, demandsAt]

theorem demandsAt_eq_nil {n : NodeId} {l : List (NodeId × Demand)} (h : ∀ d, (n, d) ∉ l) :
    demandsAt n l = [] := by
  rw [demandsAt, List.map_eq_nil_iff, List.filter_eq_nil_iff]
  rintro ⟨m, d⟩ hmem hm
  obtain rfl : m = n := of_decide_eq_true hm
  exact h d hmem

namespace State

/-- The text of the value at a path of a view's data. -/
def shown (st : State) (view : ViewId) (key : String) : String := (st.readView view key).display

/-- The subscriber is a watcher, held once, that reads the path for the view as it was in `st`,
and reacts as told. -/
def Watches (st st' : State) (view : ViewId) (p : String × Reaction) (s : SubscriberId) : Prop :=
  st'.holders s = 1 ∧ ∃ w, st'.watcher? s = some w ∧ w.root = (st.view view).data ∧ w.path = p.1 ∧
    w.reaction = p.2 ∧ w.seen = st.readView view p.1 ∧ w.disposed = false

/-- A listener of the node is attached for the event and does the action. It was not there in
`st`. -/
def Listens (st st' : State) (n : NodeId) (p : String × Action) (a : Attachment) : Prop :=
  a.node = n ∧ a.event = p.1 ∧ ⟨a.event, a.number, p.2⟩ ∈ (st'.node n).listeners ∧
    (st.node n).nextListener ≤ a.number

/-- The binding answers a demand: it has a watcher and a listener where the demand calls for one,
and no other. -/
structure Answers (st st' : State) (view : ViewId) (p : NodeId × Demand) (b : Binding) : Prop where
  watchers : List.Forall₂ (st.Watches st' view) (p.2.watching p.1) b.watchers
  listeners : List.Forall₂ (st.Listens st' p.1) (p.2.listening view) b.listeners

/-- Whether the subscriber came to the channel `c` when it was made: it is a watcher that visits a
field with this channel, and it was not there before. -/
def joins (st st' : State) (c : ChannelId) (s : SubscriberId) : Bool :=
  (st'.watcher? s).any (fun w => c ∈ st.channelsRead w.root w.path) && !st.isSubscribed c s

end State

/-- What the bindings of a list attach to channels. -/
def watchersOf (bs : List Binding) : List SubscriberId := bs.flatMap (·.watchers)

/-- From `st` to `st'` the demands of a list were answered for a view, one after another, by the
bindings `bs`, and nothing else was done. -/
structure Meets (view : ViewId) (st : State) (l : List (NodeId × Demand)) (bs : List Binding)
    (st' : State) : Prop where
  store : SameStore st st'
  answers : List.Forall₂ (st.Answers st' view) l bs
  /-- There are no new subscribers but the watchers of the bindings. -/
  made : st'.subscribers.ids = st.subscribers.ids ++ watchersOf bs
  others : ∀ s : SubscriberId, s.index < st.subscribers.size →
    st'.subscribers.get? s = st.subscribers.get? s
  channels : st'.channels.size = st.channels.size
  /-- A channel has gained those of them that visit it, and is otherwise as it was. -/
  members : ∀ c : ChannelId, c.index < st.channels.size →
    st'.channels.get c = st.channels.get c ++ (watchersOf bs).filter (st.joins st' c)
  size : st.nodes.size ≤ st'.nodes.size
  /-- A node was changed by the answers to its own demands only. -/
  node : ∀ n : NodeId, n.index < st.nodes.size → st'.node n =
    { (demandsAt n l).foldl (Demand.meet view (st.shown view)) (st.node n) with
      children := (st'.node n).children }
  children : ∀ n : NodeId, n.index < st.nodes.size →
    (∀ key, (n, .text key) ∈ l → (st.node n).kind = .text) →
      (st'.node n).children = (st.node n).children

namespace Meets

variable {view : ViewId} {st st₁ st' : State} {l l' : List (NodeId × Demand)}
  {bs bs' : List Binding}

/-! ## One list of demands after another -/

theorem refl (view : ViewId) (st : State) : Meets view st [] [] st where
  store := ⟨rfl, rfl, rfl, rfl⟩
  answers := .nil
  made := (List.append_nil _).symm
  others _ _ := rfl
  channels := rfl
  members _ _ := (List.append_nil _).symm
  size := Nat.le_refl _
  node _ _ := rfl
  children _ _ _ := rfl

theorem watcher?_eq (h : Meets view st l bs st') {s : SubscriberId}
    (hs : s.index < st.subscribers.size) : st'.watcher? s = st.watcher? s := by
  rw [watcher?, h.others s hs, watcher?]

theorem holders_eq (h : Meets view st l bs st') {s : SubscriberId}
    (hs : s.index < st.subscribers.size) : st'.holders s = st.holders s := by
  rw [holders, Table.get, h.others s hs, holders, Table.get]

theorem shown_eq (h : Meets view st l bs st') : st'.shown view = st.shown view := by
  funext key
  rw [State.shown, h.store.readView, State.shown]

theorem kind (h : Meets view st l bs st') {n : NodeId} (hn : n.index < st.nodes.size) :
    (st'.node n).kind = (st.node n).kind := by
  rw [h.node n hn]
  exact Demand.kind_foldl_meet (st.node n) _

theorem mem_listeners (h : Meets view st l bs st') {n : NodeId} {x : Listener}
    (hx : x ∈ (st.node n).listeners) : x ∈ (st'.node n).listeners := by
  by_cases hn : n.index < st.nodes.size
  · rw [h.node n hn]
    exact Demand.mem_listeners_foldl_meet hx _
  · rw [node_eq_default (by omega)] at hx
    cases hx

theorem nextListener_le (h : Meets view st l bs st') (n : NodeId) :
    (st.node n).nextListener ≤ (st'.node n).nextListener := by
  by_cases hn : n.index < st.nodes.size
  · rw [h.node n hn]
    exact Demand.nextListener_le_foldl_meet (st.node n) _
  · rw [node_eq_default (by omega)]
    exact Nat.zero_le _

theorem size_subscribers (h : Meets view st l bs st') :
    st.subscribers.size ≤ st'.subscribers.size := by
  have hlength := congrArg List.length h.made
  simp only [Table.ids, List.length_append, List.length_map, List.length_range] at hlength
  omega

/-- The watchers of the bindings are new. -/
theorem isNew (h : Meets view st l bs st') {s : SubscriberId} (hs : s ∈ watchersOf bs) :
    st.subscribers.size ≤ s.index ∧ s.index < st'.subscribers.size := by
  have hdistinct : st'.subscribers.ids.Nodup := by
    refine List.Nodup.map ?_ List.nodup_range
    intro i j hij
    exact congrArg Id.index hij
  rw [h.made] at hdistinct
  constructor
  · by_contra hold
    have hmem : s ∈ st.subscribers.ids := (Table.mem_ids_iff _ s).mpr (by omega)
    exact (List.nodup_append.mp hdistinct).2.2 s hmem s hs rfl
  · rw [← Table.mem_ids_iff, h.made]
    exact List.mem_append_right _ hs

/-- What has been answered stays answered. -/
theorem answers_left (h : Meets view st l bs st₁) (h' : Meets view st₁ l' bs' st') :
    List.Forall₂ (st.Answers st' view) l bs := by
  refine h.answers.imp ?_
  rintro ⟨n, d⟩ b ⟨hwatchers, hlisteners⟩
  refine ⟨hwatchers.imp ?_, hlisteners.imp ?_⟩
  · rintro p s ⟨hholders, w, hw, hrest⟩
    have hs : s.index < st₁.subscribers.size := lt_size_of_watcher? hw
    refine ⟨?_, w, ?_, hrest⟩
    · rw [h'.holders_eq hs]
      exact hholders
    · rw [h'.watcher?_eq hs]
      exact hw
  · rintro p a ⟨hnode, hevent, hmem, hnew⟩
    exact ⟨hnode, hevent, h'.mem_listeners hmem, hnew⟩

/-- What is answered later is answered in the view of the earlier state, too. -/
theorem answers_right (h : Meets view st l bs st₁) (h' : Meets view st₁ l' bs' st') :
    List.Forall₂ (st.Answers st' view) l' bs' := by
  refine h'.answers.imp ?_
  rintro ⟨n, d⟩ b ⟨hwatchers, hlisteners⟩
  refine ⟨hwatchers.imp ?_, hlisteners.imp ?_⟩
  · rintro p s ⟨hholders, w, hw, hroot, hpath, hreaction, hseen, hlive⟩
    rw [h.store.view] at hroot
    rw [h.store.readView] at hseen
    exact ⟨hholders, w, hw, hroot, hpath, hreaction, hseen, hlive⟩
  · rintro p a ⟨hnode, hevent, hmem, hnew⟩
    exact ⟨hnode, hevent, hmem, Nat.le_trans (h.nextListener_le _) hnew⟩

/-- An earlier watcher has come to the channels that it is on when it was made. -/
theorem joins_left (h : Meets view st l bs st₁) (h' : Meets view st₁ l' bs' st') (c : ChannelId) :
    (watchersOf bs).filter (st.joins st₁ c) = (watchersOf bs).filter (st.joins st' c) := by
  refine List.filter_congr fun s hs => ?_
  rw [joins, joins, h'.watcher?_eq (h.isNew hs).2]

theorem joins_right (h : Meets view st l bs st₁) (h' : Meets view st₁ l' bs' st') {c : ChannelId}
    (hc : c.index < st.channels.size) :
    (watchersOf bs').filter (st₁.joins st' c) = (watchersOf bs').filter (st.joins st' c) := by
  refine List.filter_congr fun s hs => ?_
  have hgraph : SameGraph st st₁ := ⟨h.store.records, h.store.cells⟩
  -- The later watchers are none of the earlier ones, so those that came to the channel before
  -- make no difference.
  have hnot : s ∉ (watchersOf bs).filter (st.joins st₁ c) := by
    intro hmem
    have hold := (h.isNew (List.mem_of_mem_filter hmem)).2
    have hnew := (h'.isNew hs).1
    omega
  have hsubscribed : st₁.isSubscribed c s = st.isSubscribed c s := by
    rw [isSubscribed, h.members c hc, isSubscribed]
    simp only [List.mem_append, hnot, or_false]
  have hread : ∀ root path, st₁.channelsRead root path = st.channelsRead root path :=
    hgraph.channelsRead
  rw [joins, joins, hsubscribed]
  simp only [hread]

theorem node_trans (h : Meets view st l bs st₁) (h' : Meets view st₁ l' bs' st') {n : NodeId}
    (hn : n.index < st.nodes.size) : st'.node n =
      { (demandsAt n (l ++ l')).foldl (Demand.meet view (st.shown view)) (st.node n) with
        children := (st'.node n).children } := by
  have hafter := h'.node n (Nat.lt_of_lt_of_le hn h.size)
  rw [h.shown_eq, h.node n hn, Demand.foldl_meet_withChildren] at hafter
  rw [demandsAt_append, List.foldl_append]
  exact hafter

theorem append (h : Meets view st l bs st₁) (h' : Meets view st₁ l' bs' st') :
    Meets view st (l ++ l') (bs ++ bs') st' where
  store := h.store.trans h'.store
  answers := List.rel_append (h.answers_left h') (h.answers_right h')
  made := by rw [h'.made, h.made, watchersOf, watchersOf, watchersOf, List.flatMap_append,
    List.append_assoc]
  others s hs := by
    rw [h'.others s (Nat.lt_of_lt_of_le hs h.size_subscribers), h.others s hs]
  channels := h'.channels.trans h.channels
  members c hc := by
    have hall : watchersOf (bs ++ bs') = watchersOf bs ++ watchersOf bs' := List.flatMap_append
    rw [h'.members c (by rw [h.channels]; exact hc), h.members c hc, h.joins_left h',
      h.joins_right h' hc, hall, List.filter_append, List.append_assoc]
  size := Nat.le_trans h.size h'.size
  node n hn := h.node_trans h' hn
  children n hn htext := by
    have hn' := Nat.lt_of_lt_of_le hn h.size
    have hbefore := h.children n hn fun key hkey => htext key (List.mem_append_left _ hkey)
    refine (h'.children n hn' fun key hkey => ?_).trans hbefore
    rw [h.kind hn]
    exact htext key (List.mem_append_right _ hkey)

/-- To report an event is to answer nothing. -/
theorem reports (view : ViewId) (st : State) (e : Event) : Meets view st [] [] (st.report e) where
  store := ⟨rfl, rfl, rfl, rfl⟩
  answers := .nil
  made := (List.append_nil _).symm
  others _ _ := rfl
  channels := rfl
  members _ _ := (List.append_nil _).symm
  size := Nat.le_refl _
  node _ _ := rfl
  children _ _ _ := rfl

theorem report (h : Meets view st l bs st') (e : Event) : Meets view st l bs (st'.report e) := by
  have hboth := h.append (reports view st' e)
  rwa [List.append_nil, List.append_nil] at hboth

end Meets

end DataBinding
