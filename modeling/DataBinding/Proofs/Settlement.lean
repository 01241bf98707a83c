import DataBinding.Proofs.Growth
import DataBinding.Proofs.Pass
import DataBinding.Proofs.Template.Upkeep

set_option autoImplicit false

/-! # Writing at rest

If views have been mounted and values been written, and there are no subscribers but the watchers
of bindings (`Resting`), then a write gives the library some watchers to tell and nothing else to
do. It tells them one after another, until the state is resting again (`Resting.written`). Data and
purposes of watchers stay as they are meanwhile, and in the tree only those nodes change that
watchers write (`Settled`).
-/

namespace DataBinding

open State

namespace State

/-- The state in which the library has done all that is to be done when the host assigns a value. -/
def written (st : State) (c : CellId) (v : Value) : State := (st.assign c v).advance

/-- There is a watcher with the reaction. -/
def Reacts (st : State) (reaction : Reaction) : Prop :=
  ∃ s root path, st.purpose? s = some (root, path, reaction)

end State

/-! ## The tree -/

/-- From `st` to `st'` watchers have kept their purposes, and only such nodes have changed as
watchers write. An element whose text is shown has its old children, or new nodes. -/
structure Repainted (st st' : State) : Prop where
  purpose : ∀ s, st'.purpose? s = st.purpose? s
  kinds : KeepsKinds st st'
  text : ∀ n : NodeId, n.index < st.nodes.size → ¬ st.Reacts (.showText n) →
    (st'.node n).text = (st.node n).text
  children : ∀ n : NodeId, n.index < st.nodes.size →
    (st'.node n).children = (st.node n).children ∨
      st.Reacts (.showText n) ∧ ∀ m ∈ (st'.node n).children, st.nodes.size ≤ m.index
  value : ∀ n : NodeId, n.index < st.nodes.size → ¬ st.Reacts (.showValue n) →
    (st'.node n).value = (st.node n).value

namespace Repainted

variable {st st₁ st' : State} {s : SubscriberId}

theorem of_nodes (hpurpose : ∀ s, st'.purpose? s = st.purpose? s) (h : st'.nodes = st.nodes) :
    Repainted st st' where
  purpose := hpurpose
  kinds := .of_nodes h
  text n _ _ := by rw [node_congr h]
  children n _ := .inl (by rw [node_congr h])
  value n _ _ := by rw [node_congr h]

theorem reacts_iff (h : Repainted st st') (reaction : Reaction) :
    st'.Reacts reaction ↔ st.Reacts reaction := by
  rw [Reacts, funext h.purpose, Reacts]

theorem trans (h : Repainted st st₁) (h' : Repainted st₁ st') : Repainted st st' := by
  have hlt : ∀ n : NodeId, n.index < st.nodes.size → n.index < st₁.nodes.size :=
    fun n hn => Nat.lt_of_lt_of_le hn h.kinds.size
  refine ⟨fun s => (h'.purpose s).trans (h.purpose s), h.kinds.trans h'.kinds, fun n hn hnone => ?_,
    fun n hn => ?_, fun n hn hnone => ?_⟩
  · have hnone' := fun hreacts => hnone ((h.reacts_iff _).mp hreacts)
    exact (h'.text n (hlt n hn) hnone').trans (h.text n hn hnone)
  · rcases h'.children n (hlt n hn) with hsame | ⟨hreacts, hnew⟩
    · rw [hsame]
      exact h.children n hn
    · refine .inr ⟨(h.reacts_iff _).mp hreacts, fun m hm => ?_⟩
      exact Nat.le_trans h.kinds.size (hnew m hm)
  · have hnone' := fun hreacts => hnone ((h.reacts_iff _).mp hreacts)
    exact (h'.value n (hlt n hn) hnone').trans (h.value n hn hnone)

end Repainted

section Paint

variable {st st' : State} {s : SubscriberId} {w : Watcher} {n m : NodeId}

theorem reacts_of_watcher? (hw : st.watcher? s = some w) : st.Reacts w.reaction :=
  ⟨s, w.root, w.path, purpose?_eq_some.mpr ⟨w, hw, rfl, rfl, rfl⟩⟩

/-- A node that is given a text has its old children, or new nodes. -/
theorem children_setText (text : String) (hn : n.index < st.nodes.size) :
    ((st.setText n text).node n).children = (st.node n).children ∨
      ∀ m ∈ ((st.setText n text).node n).children, st.nodes.size ≤ m.index := by
  by_cases helement : (st.node n).kind = .element
  · refine .inr fun m hm => ?_
    have hrenders : (st.setText n text).Renders st.nodes.size n text := renders_setText hn helement
    obtain ⟨-, ⟨-, hempty⟩ | ⟨t, hchild, hnew, -⟩⟩ := hrenders
    · rw [hempty] at hm
      cases hm
    · rw [hchild] at hm
      rw [List.mem_singleton.mp hm]
      exact hnew
  · have hset : st.setText n text = st.updateNode n fun b => { b with text } := by
      unfold setText
      split
      · rename_i hkind
        exact absurd hkind helement
      · rfl
    rw [hset]
    exact .inl (map_node_updateNode (g := Node.children) fun _ => rfl)

theorem Paints.repainted (h : Paints st s st') (hpurpose : ∀ s, st'.purpose? s = st.purpose? s) :
    Repainted st st' := by
  cases h with
  | nothing hnodes _ => exact .of_nodes hpurpose hnodes
  | text w m v hw hreaction hnodes _ =>
      have hreacts : st.Reacts (.showText m) := hreaction ▸ reacts_of_watcher? hw
      have hother : ∀ n : NodeId, n.index < st.nodes.size → m ≠ n → st'.node n = st.node n := by
        intro n hn hne
        rw [node_congr hnodes, node_setText_ne _ hn hne]
      refine ⟨hpurpose, (KeepsKinds.setText v.display).trans (.of_nodes hnodes),
        fun n hn hnone => ?_, fun n hn => ?_, fun n hn _ => ?_⟩
      · have hne : m ≠ n := fun h => hnone (h ▸ hreacts)
        rw [hother n hn hne]
      · by_cases hmn : m = n
        · subst hmn
          rw [node_congr hnodes]
          exact (children_setText v.display hn).imp_right fun hnew => ⟨hreacts, hnew⟩
        · exact .inl (by rw [hother n hn hmn])
      · rw [node_congr hnodes]
        exact value_setText _ hn
  | value w m v hw hreaction hnodes _ =>
      have hreacts : st.Reacts (.showValue m) := hreaction ▸ reacts_of_watcher? hw
      rcases hnodes with ⟨hnodes, -⟩ | hnodes
      · exact .of_nodes hpurpose hnodes
      · have hkinds : KeepsKinds st (st.updateNode m (·.setValue v.display)) :=
          .updateNode fun _ => rfl
        refine ⟨hpurpose, hkinds.trans (.of_nodes hnodes), fun n _ _ => ?_, fun n _ => .inl ?_,
          fun n _ hnone => ?_⟩
        · rw [node_congr hnodes]
          exact map_node_updateNode (g := Node.text) fun _ => rfl
        · rw [node_congr hnodes]
          exact map_node_updateNode (g := Node.children) fun _ => rfl
        · have hne : m ≠ n := fun h => hnone (h ▸ hreacts)
          rw [node_congr hnodes, node_updateNode_ne hne]

end Paint

/-! ## The library's work -/

/-- What stays as it is while the library tells watchers. -/
structure Settled (st st' : State) : Prop where
  graph : SameGraph st st'
  views : st'.views = st.views
  subscribers_size : st'.subscribers.size = st.subscribers.size
  channels_size : st'.channels.size = st.channels.size
  repainted : Repainted st st'

section Work

variable {st st₁ st' : State} {s : SubscriberId} {w : Watcher}

theorem Settled.refl (st : State) : Settled st st where
  graph := ⟨rfl, rfl⟩
  views := rfl
  subscribers_size := rfl
  channels_size := rfl
  repainted := .of_nodes (fun _ => rfl) rfl

theorem Settled.trans (h : Settled st st₁) (h' : Settled st₁ st') : Settled st st' where
  graph := h.graph.trans h'.graph
  views := h'.views.trans h.views
  subscribers_size := h'.subscribers_size.trans h.subscribers_size
  channels_size := h'.channels_size.trans h.channels_size
  repainted := h.repainted.trans h'.repainted

theorem Settled.drop {rest : List Task} (h : Settled { st with agenda := rest } st') :
    Settled st st' :=
  ⟨⟨h.graph.records, h.graph.cells⟩, h.views, h.subscribers_size, h.channels_size,
    ⟨h.repainted.purpose, ⟨h.repainted.kinds.size, h.repainted.kinds.kind⟩, h.repainted.text,
      h.repainted.children, h.repainted.value⟩⟩

theorem Telling.sizes (h : Telling st s st') :
    st'.subscribers.size = st.subscribers.size ∧ st'.channels.size = st.channels.size := by
  cases h with
  | probe | disposed => exact ⟨rfl, rfl⟩
  | unchanged w | called w => exact ⟨size_subscribers_reread st s w, size_channels_reread st s w⟩
  | shown w n =>
      rw [setText_rest, remember, size_subscribers_updateWatcher]
      exact ⟨size_subscribers_reread st s w, size_channels_reread st s w⟩
  | valued w n nodes =>
      rw [remember, size_subscribers_updateWatcher]
      exact ⟨size_subscribers_reread st s w, size_channels_reread st s w⟩

theorem settled_update (st : State) (s : SubscriberId) : Settled st (st.update s) := by
  have htelling := telling_update st s
  exact ⟨htelling.sameGraph, htelling.views, htelling.sizes.1, htelling.sizes.2,
    (paints_update st s).repainted (purpose?_update st s)⟩

theorem settled_release (st : State) (s : SubscriberId) : Settled st (st.release s) := by
  have hsame := onlySubscriptions_release st s
  exact ⟨hsame.graph, hsame.views, size_subscribers_release st s, size_channels_release st s,
    .of_nodes (keepsWatchers_release st s).purpose hsame.nodes⟩

/-- The library does its next task, which tells or lets go of a watcher that does not call the
host. -/
theorem settled_step {task : Task} {rest : List Task} (hagenda : st.agenda = task :: rest)
    (htask : task.isTelling = true)
    (hreacts : ∀ s, task = .update s → ∃ w, st.watcher? s = some w ∧ ∀ c, w.reaction ≠ .call c) :
    Settled st st.step ∧ st.step.agenda = rest := by
  rw [step, hagenda]
  cases task with
  | update s =>
      obtain ⟨w, hw, hnot⟩ := hreacts s rfl
      refine ⟨(settled_update _ s).drop, ?_⟩
      have htelling := telling_update { st with agenda := rest } s
      exact htelling.agenda_of_reads hw (.inl (callsHost_of_shown hw hnot))
  | release s => exact ⟨(settled_release _ s).drop, agenda_release _ s⟩
  | remember _ _ | act _ _ | releaseView _ | call _ | running => cases htask

theorem turn_of_isTelling {task : Task} {rest : List Task} (hagenda : st.agenda = task :: rest)
    (htask : task.isTelling = true) : task.isAct = false ∧ st.turn = .library := by
  rw [turn, hagenda]
  cases task with
  | update _ | release _ => exact ⟨rfl, rfl⟩
  | remember _ _ | act _ _ | releaseView _ | call _ | running => cases htask

theorem advance_eq_workOff (h : ∀ task ∈ st.agenda, task.isTelling = true) :
    st.advance = st.workOff := by
  have hnone : actions st.agenda = 0 := by
    refine List.countP_eq_zero.mpr fun task htask => ?_
    have htelling := h task htask
    cases task with
    | update _ | release _ => exact Bool.false_ne_true
    | remember _ _ | act _ _ | releaseView _ | call _ | running => cases htelling
  rw [advance, hnone, advanceBy]

end Work

/-! ## Telling some subscribers -/

/-- A piece of work: to tell a subscriber of the kind `T`, to let go of one, or to turn to what else
is on the agenda. -/
inductive Delivery (T : SubscriberId → Prop) (st : State) : State → Prop where
  | told (s : SubscriberId) (h : T s) : Delivery T st (st.update s)
  | letGo (s : SubscriberId) : Delivery T st (st.release s)
  | turned (agenda : List Task) : Delivery T st { st with agenda }

/-- From `st` to `st'` the library has told subscribers of the kind `T` only. -/
abbrev Delivers (T : SubscriberId → Prop) : State → State → Prop :=
  Relation.ReflTransGen (Delivery T)

section Delivery

variable {T : SubscriberId → Prop} {ts : List Transition} {st st' : State}

theorem Delivery.settled (h : Delivery T st st') : Settled st st' := by
  cases h with
  | told s _ => exact settled_update st s
  | letGo s => exact settled_release st s
  | turned agenda => exact ⟨⟨rfl, rfl⟩, rfl, rfl, rfl, .of_nodes (fun _ => rfl) rfl⟩

theorem Delivers.settled (h : Delivers T st st') : Settled st st' := by
  induction h with
  | refl => exact .refl st
  | tail _ hstep ih => exact ih.trans hstep.settled

/-- A task that tells or lets go of a subscriber is done by two pieces of work. -/
theorem delivers_step {task : Task} {rest : List Task} (hagenda : st.agenda = task :: rest)
    (htask : task.isTelling = true) (htold : ∀ s, task = .update s → T s) :
    Delivers T st st.step := by
  have hturned : Delivers T st { st with agenda := rest } := .single (.turned rest)
  rw [step, hagenda]
  cases task with
  | update s => exact hturned.tail (.told s (htold s rfl))
  | release s => exact hturned.tail (.letGo s)
  | remember _ _ | act _ _ | releaseView _ | call _ | running => cases htask

theorem workOff_eq_step {task : Task} {rest : List Task} (hagenda : st.agenda = task :: rest)
    (hcondition : task.isAct = false ∧ st.turn = .library) : st.workOff = st.step.workOff := by
  rw [workOff]
  split
  · simp_all
  · simp_all

theorem workOff_of_agenda_nil (h : st.agenda = []) : st.workOff = st := by
  rw [workOff]
  split
  · rfl
  · simp_all

/-- Where watchers of bindings are to be told, the library tells them, and comes to what else is on
the agenda. -/
theorem Run.delivers (h : Run ts st) (tame : ∀ t ∈ ts, t.isTame = true)
    (hbound : ∀ s, T s → st.isBound s = true) {tasks rest : List Task}
    (hagenda : st.agenda = tasks ++ rest) (htasks : ∀ task ∈ tasks, task.isTelling = true)
    (htold : ∀ s, .update s ∈ tasks → T s) :
    ∃ ts' st', Run ts' st' ∧ (∀ t ∈ ts', t ∈ ts ∨ t.move = .work ∧ t.isTame = true) ∧
      st'.agenda = rest ∧ st.workOff = st'.workOff ∧ Delivers T st st' := by
  induction tasks generalizing ts st with
  | nil => exact ⟨ts, st, h, fun _ ht => .inl ht, hagenda, rfl, .refl⟩
  | cons task tasks ih =>
      rw [List.cons_append] at hagenda
      have htask := htasks task List.mem_cons_self
      have htold₀ : ∀ s, task = .update s → T s := fun s hs => htold s (hs ▸ List.mem_cons_self)
      have hturn := turn_of_isTelling hagenda htask
      obtain ⟨hsettled, hrest⟩ : Settled st st.step ∧ st.step.agenda = tasks ++ rest :=
        settled_step hagenda htask fun s hs => h.reacts_of_isBound tame (hbound s (htold₀ s hs))
      have hwork : Transition.isTame ⟨st, .work⟩ = true :=
        Transition.isTame_of_records rfl hsettled.graph.records
      have hbound' : ∀ s, T s → st.step.isBound s = true := fun s hs => by
        rw [isBound_congr hsettled.views]
        exact hbound s hs
      obtain ⟨ts', st', hrun, hnew, hagenda', hsame, hdelivers⟩ := ih
        (h.move .work (by simp [Move.isPossible, hturn.2]))
        (List.forall_mem_cons.mpr ⟨hwork, tame⟩) hbound' hrest
        (fun task' htask' => htasks task' (List.mem_cons_of_mem _ htask'))
        fun s hs => htold s (List.mem_cons_of_mem _ hs)
      refine ⟨ts', st', hrun, fun t ht => ?_, hagenda', ?_, ?_⟩
      · rcases hnew t ht with hold | hnew
        · rcases List.mem_cons.mp hold with rfl | hold
          · exact .inr ⟨rfl, hwork⟩
          · exact .inl hold
        · exact .inr hnew
      · exact (workOff_eq_step hagenda hturn).trans hsame
      · exact (delivers_step hagenda htask htold₀).trans hdelivers

end Delivery

/-! ## Resting states -/

/-- The run `ts`, in which no field was added to an observed record, has come to rest in `st`. It
has spared the nodes in which watchers show something, and there are no subscribers but the watchers
of bindings. -/
structure Resting (ts : List Transition) (st : State) : Prop where
  run : Run ts st
  tame : ∀ t ∈ ts, t.isTame = true
  spares : ∀ t ∈ ts, t.sparesShown = true
  bound : ∀ s ∈ st.subscribers.ids, st.isBound s = true
  rest : st.agenda = []

section Runs

variable {ts : List Transition} {st : State}

/-- At rest, a watcher of a binding has seen the value that its path leads to, and is on the
channels along the path. -/
theorem Run.follows_of_isBound (h : Run ts st) (tame : ∀ t ∈ ts, t.isTame = true)
    (rest : st.agenda = []) {s : SubscriberId} (hs : st.isBound s = true) {w : Watcher}
    (hw : st.watcher? s = some w) :
    w.seen.same (st.read w.root w.path) = true ∧ st.IsExact s w := by
  obtain ⟨v, hv⟩ := isBound_iff.mp hs
  obtain ⟨-, ho⟩ := h.consistent tame
  have halive : st.isAlive s = true := by
    rw [isAlive_iff, ho.holders v s hv]
    omega
  obtain ⟨u, hu, hlive, -⟩ := ho.watcher v s hv
  cases hw.symm.trans hu
  obtain ⟨u, hu, hreacts⟩ := h.reacts_of_isBound tame hs
  cases hw.symm.trans hu
  have htracked := h.tracked tame (h.startsObserved tame hs)
  refine ⟨?_, htracked.isExact rest hw halive hlive⟩
  exact (htracked.current_iff rest hw halive hlive).mpr (htracked.keeping.settled w hw hreacts)

/-- In a run after which there is nobody to tell but watchers of bindings, the library comes to
rest. -/
theorem Run.settles (h : Run ts st) (tame : ∀ t ∈ ts, t.isTame = true)
    (spares : ∀ t ∈ ts, t.sparesShown = true)
    (bound : ∀ s ∈ st.subscribers.ids, st.isBound s = true)
    (htasks : ∀ task ∈ st.agenda, task.isTelling = true) :
    ∃ ts', Resting ts' st.workOff ∧ Settled st st.workOff := by
  obtain ⟨hst, -⟩ := h.consistent tame
  have htold : ∀ s, .update s ∈ st.agenda → st.isBound s = true := fun s hs =>
    bound s ((Table.mem_ids_iff _ s).mpr (hst.scheduled.update s hs))
  obtain ⟨ts', st', hrun, hnew, hrest, hsame, hdelivers⟩ :=
    h.delivers tame (fun _ => id) (List.append_nil _).symm htasks htold
  have hsettled := hdelivers.settled
  rw [hsame, workOff_of_agenda_nil hrest]
  refine ⟨ts', ⟨hrun, fun t ht => ?_, fun t ht => ?_, fun s hs => ?_, hrest⟩, hsettled⟩
  · exact (hnew t ht).elim (tame t) And.right
  · refine (hnew t ht).elim (spares t) fun hwork => ?_
    rw [Transition.sparesShown, hwork.1]
  · rw [isBound_congr hsettled.views]
    refine bound s ((Table.mem_ids_iff _ s).mpr ?_)
    rw [← hsettled.subscribers_size]
    exact (Table.mem_ids_iff _ s).mp hs

/-- What writes at rest have made of the state, apart from the values that they have written. -/
structure Developed (st st' : State) : Prop where
  repainted : Repainted st st'
  observed : ∀ r, st.isObserved r = true → st'.isObserved r = true
  unobserved : ∀ r, st'.isObserved r = false → st'.records.get r = st.records.get r
  channel : ∀ p e, st.channel? p = some e → st'.channel? p = some e
  fresh : ∀ p e, st'.channel? p = some e → st.channel? p = some e ∨ st.channels.size ≤ e.index
  channels_size : st.channels.size ≤ st'.channels.size

theorem Developed.trans {st₁ st' : State} (h : Developed st st₁) (h' : Developed st₁ st') :
    Developed st st' where
  repainted := h.repainted.trans h'.repainted
  observed r hr := h'.observed r (h.observed r hr)
  unobserved r hr := by
    have hr₁ : st₁.isObserved r = false := by
      rw [Bool.eq_false_iff]
      exact fun htrue => Bool.noConfusion (hr.symm.trans (h'.observed r htrue))
    exact (h'.unobserved r hr).trans (h.unobserved r hr₁)
  channel p e he := h'.channel p e (h.channel p e he)
  fresh p e he := by
    rcases h'.fresh p e he with hold | hnew
    · exact h.fresh p e hold
    · exact .inr (Nat.le_trans h.channels_size hnew)
  channels_size := Nat.le_trans h.channels_size h'.channels_size

/-- After a write at rest there is rest again. -/
theorem Resting.written (h : Resting ts st) {p : Slot} {c : CellId} {v : Value}
    (hp : st.cell? p = some c) (hv : ∀ r, v.record? = some r → r.index < st.records.size) :
    ∃ ts', Resting ts' (st.written c v) ∧ Assigned st p c v (st.written c v) ∧
      Developed st (st.written c v) := by
  have hrun := h.run.assign h.rest c hv
  obtain ⟨hnodes, hviews⟩ := outside_assign st c v
  have hspares : Transition.sparesShown ⟨st, .operate (.assign c v)⟩ = true :=
    Transition.sparesShown_of_nodes hnodes
  have hbound : ∀ s ∈ (st.assign c v).subscribers.ids, (st.assign c v).isBound s = true := by
    intro s hs
    rw [isBound_congr hviews]
    refine h.bound s ((Table.mem_ids_iff _ s).mpr ?_)
    rw [← size_subscribers_assign st c v]
    exact (Table.mem_ids_iff _ s).mp hs
  have htasks : ∀ task ∈ (st.assign c v).agenda, task.isTelling = true := by
    obtain ⟨l, hl⟩ := assign_agenda st c v
    intro task htask
    rw [hl, h.rest, List.append_nil] at htask
    obtain ⟨s, -, rfl | rfl⟩ := mem_updates.mp htask
    · rfl
    · rfl
  obtain ⟨ts', hresting, hsettled⟩ := hrun.settles
    (List.forall_mem_cons.mpr ⟨isTame_assign st c v, h.tame⟩)
    (List.forall_mem_cons.mpr ⟨hspares, h.spares⟩) hbound htasks
  have hassigned : Assigned st p c v (st.assign c v).workOff := by
    obtain ⟨hst, -⟩ := h.run.consistent h.tame
    refine (assigned_assign h.run.graph hst.sound hp hv).congr hsettled.graph ?_
    exact Nat.le_of_eq hsettled.channels_size.symm
  have hpurpose : ∀ s, (st.assign c v).purpose? s = st.purpose? s :=
    (KeepsWatchers.of_watcher? fun _ => watcher?_assign).purpose
  rw [State.written, advance_eq_workOff htasks]
  refine ⟨ts', hresting, hassigned, (Repainted.of_nodes hpurpose hnodes).trans hsettled.repainted,
    hassigned.grows.kept, hassigned.grows.same, hassigned.channel, hassigned.fresh,
    hassigned.channels_size⟩

end Runs

end DataBinding
