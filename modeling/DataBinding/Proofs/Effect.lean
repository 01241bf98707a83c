import DataBinding.Proofs.Telling

set_option autoImplicit false

/-! # What any move is made of

`Proofs/Course.lean` takes the moves of tame runs apart. Here this is done for every run there
is, whatever fields are added or defined and whoever is subscribed by hand: apart from telling a
watcher and from a watcher's keeping a value, a move is a sequence of `Effect`s
(`Transition.deed`). There are fewer side conditions than for a `Change`, and so less is known
afterwards; what holds of every effect holds in every run.
-/

namespace DataBinding

open State Relation

/-- What the host takes the liberty to do with subscribers. -/
structure Liberty where
  /-- It subscribes and unsubscribes by hand. -/
  byHand : Prop
  /-- It takes one more handle of a subscriber. -/
  takes : SubscriberId → Prop

/-- One elementary effect on a state. -/
inductive Effect (lib : Liberty) (st : State) : State → Prop where
  /-- Nodes, views and the journal may become anything. -/
  | aside (nodes : Table .node Node) (views : Table .view View) (arrays : Nat)
      (journal : List Event) : Effect lib st { st with nodes, views, arrays, journal }
  | push (tasks : List Task) (h : ∀ t ∈ tasks, t.isNeutral = true) : Effect lib st (st.push tasks)
  | drop (t : Task) (rest : List Task) (h : st.agenda = t :: rest) (ht : t.isNeutral = true) :
      Effect lib st { st with agenda := rest }
  | newRecord : Effect lib st st.newRecord.2
  | putField (p : Slot) (v : Value) (hv : ∀ r, v.record? = some r → r.index < st.records.size) :
      Effect lib st (st.putField p (.plain v))
  /-- A field becomes reactive, whatever it was. -/
  | define (p : Slot) (v : Value) (hv : ∀ r, v.record? = some r → r.index < st.records.size) :
      Effect lib st ((st.newCell p.key v).2.putField p (.reactive (st.newCell p.key v).1))
  | store (c : CellId) (v : Value) (hv : ∀ r, v.record? = some r → r.index < st.records.size) :
      Effect lib st (st.store c v)
  | observe (r : RecordId) : Effect lib st (st.observe r)
  | newChannel : Effect lib st st.newChannel.2
  | subscribe (c : ChannelId) (s : SubscriberId) (h : lib.byHand) :
      Effect lib st (st.subscribe c s)
  | unsubscribe (c : ChannelId) (s : SubscriberId) (h : lib.byHand) :
      Effect lib st (st.unsubscribe c s)
  | newProbe (c : Callback) : Effect lib st (st.newProbe c).2
  | watch (root : RecordId) (path : String) (reaction : Reaction) :
      Effect lib st (st.watch root path reaction).2
  | hold (s : SubscriberId) (h : lib.takes s) : Effect lib st (st.hold s)
  | release (s : SubscriberId) : Effect lib st (st.release s)
  | dispose (s : SubscriberId) : Effect lib st (st.dispose s)
  | tell (s : SubscriberId) : Effect lib st (st.tell s)
  | letGo (s : SubscriberId) (rest : List Task) (h : st.agenda = .release s :: rest) :
      Effect lib st (({ st with agenda := rest } : State).release s)
  | notify (c : ChannelId) : Effect lib st (st.notify c)

/-- Some effects, one after another. -/
abbrev Effects (lib : Liberty) : State → State → Prop := ReflTransGen (Effect lib)

section Effects

variable {lib : Liberty} {st st' : State}

/-- A fold of operations that come down to effects. -/
theorem effects_foldl {α : Type} {f : State → α → State} (h : ∀ st a, Effects lib st (f st a))
    (l : List α) (st : State) : Effects lib st (l.foldl f st) := by
  induction l generalizing st with
  | nil => exact .refl
  | cons a rest ih => exact (h st a).trans (ih (f st a))

/-! ## Nodes, views and the journal -/

theorem effects_aside (h : st' = { st with
    nodes := st'.nodes, views := st'.views, arrays := st'.arrays, journal := st'.journal }) :
    Effects lib st st' := by
  rw [h]
  exact .single (.aside st'.nodes st'.views st'.arrays st'.journal)

theorem effects_updateNode (n : NodeId) (f : Node → Node) : Effects lib st (st.updateNode n f) :=
  effects_aside rfl

theorem effects_setText (n : NodeId) (text : String) : Effects lib st (st.setText n text) :=
  effects_aside (by rw [setText_rest])

theorem effects_report (e : Event) : Effects lib st (st.report e) := effects_aside rfl

theorem effects_push {tasks : List Task} (h : ∀ t ∈ tasks, t.isNeutral = true) :
    Effects lib st (st.push tasks) :=
  .single (.push tasks h)

theorem effects_dispatch (n : NodeId) (event : String) : Effects lib st (st.dispatch n event) := by
  refine effects_push ?_
  intro t ht
  obtain ⟨l, -, rfl⟩ := List.mem_map.mp ht
  rfl

/-! ## Writing -/

theorem effects_observe (r : RecordId) : Effects lib st (st.observe r) := .single (.observe r)

theorem effects_observeValue (v : Value) : Effects lib st (st.observeValue v) := by
  rw [observeValue_eq]
  cases v.record? with
  | none => exact .refl
  | some r => exact effects_observe r

section Value

variable {v : Value} (hv : ∀ r, v.record? = some r → r.index < st.records.size)

include hv

theorem effects_assign (c : CellId) : Effects lib st (st.assign c v) := by
  unfold assign
  split
  · have hstored : Effects lib st ((st.store c v).observeValue v) :=
      .head (.store c v hv) (effects_observeValue v)
    exact (hstored.trans (effects_report _)).tail (.notify _)
  · exact .refl

theorem effects_writeField (p : Slot) : Effects lib st (st.writeField p v) := by
  unfold writeField
  split
  · exact effects_assign hv _
  · exact .single (.putField p v hv)

theorem effects_writePath (root : RecordId) (path : String) :
    Effects lib st (st.writePath root path v) := by
  rcases writePath_eq st root path v with ⟨e, he⟩ | ⟨p, hp⟩
  · rw [he]
    exact effects_report e
  · rw [hp]
    exact effects_writeField hv p

theorem effects_writeView (view : ViewId) (key : String) :
    Effects lib st (st.writeView view key v) := by
  unfold writeView
  split
  · exact .refl
  · exact effects_writePath hv _ key

theorem effects_defineCell (p : Slot) : Effects lib st (st.defineCell p v).2 := by
  refine (effects_observeValue v).tail (.define p v fun r hr => ?_)
  rw [(observes_observeValue st v).records_size]
  exact hv r hr

end Value

/-! ## Views -/

theorem effects_holdView (v : ViewId) : Effects lib st (st.holdView v) := effects_aside rfl

theorem effects_callWith (v : ViewId) (c : Callback) : Effects lib st (st.callWith v c) :=
  (effects_holdView v).trans (effects_push (by simp [Task.isNeutral]))

theorem effects_releaseAll (l : List SubscriberId) : Effects lib st (l.foldl release st) :=
  effects_foldl (fun _ s => .single (.release s)) l st

theorem effects_detach (b : Binding) : Effects lib st (st.detach b) := by
  have hwatchers : Effects lib st
      (b.watchers.foldl (fun st s => (st.dispose s).release s) st) :=
    effects_foldl (fun _ s => .head (.dispose s) (.single (.release s))) b.watchers st
  exact hwatchers.trans
    (effects_foldl (fun _ a => effects_updateNode a.node _) b.listeners _)

theorem effects_abandon (bs : List Binding) : Effects lib st (st.abandon bs) :=
  effects_foldl (fun _ b => effects_releaseAll b.watchers) bs st

theorem effects_unmount (v : ViewId) : Effects lib st (st.unmount v) := by
  have hunbound : Effects lib st
      { st with views := st.views.modify v fun b => { b with bindings := [] } } :=
    effects_aside rfl
  exact hunbound.trans (effects_foldl (fun _ b => effects_detach b) _ _)

theorem effects_releaseView (v : ViewId) : Effects lib st (st.releaseView v) := by
  have hless : Effects lib st { st with
      views := st.views.modify v fun b => { b with holders := (st.view v).holders - 1 } } :=
    effects_aside rfl
  unfold releaseView
  simp only
  split
  · exact hless
  · exact hless.trans (effects_unmount v)

/-! ## Binding a tree -/

theorem Wire.effects {view : ViewId} {c c' : Compilation} (h : Wire view c c') :
    Effects lib c.state c'.state := by
  cases h with
  | report e => exact effects_report e
  | text n key _ _ => exact (effects_setText n _).tail (.watch _ key (.showText n))
  | model n key _ =>
      exact ((effects_updateNode n _).tail (.watch _ key (.showValue n))).trans
        (effects_updateNode n _)
  | click n method => exact effects_updateNode n _

theorem Wires.effects {view : ViewId} {c c' : Compilation} (h : Wires view c c') :
    Effects lib c.state c'.state := by
  induction h with
  | refl => exact .refl
  | tail _ hstep ih => exact ih.trans hstep.effects

theorem effects_compile (view : ViewId) (root : NodeId) :
    Effects lib st (st.compile view root).2 :=
  (wires_bindBelow view root ⟨st, []⟩ (st.height + 1)).effects

theorem effects_mount (document? : Option NodeId) (o : ViewOptions) :
    Effects lib st (st.mount document? o).2 := by
  cases hroot : st.resolveRoot document? o.root? with
  | error fault => rw [mount_eq_error hroot]
  | ok root =>
      rw [mount_eq hroot]
      have hview : Effects lib (st.observe o.data) (st.withView root o) := effects_aside rfl
      have htree : Effects lib (st.withView root o) (st.withTree root o) := effects_compile _ root
      exact (((effects_observe o.data).trans hview).trans htree).trans (effects_aside rfl)

/-! ## Tasks and operations -/

theorem effects_act (n : NodeId) (a : Action) : Effects lib st (st.act n a) := by
  cases a with
  | call c => exact effects_push (by simp [Task.isNeutral])
  | edit v key =>
      simp only [act]
      split
      · have hbase : Effects lib st ((st.holdView v).push [.releaseView v]) :=
          (effects_holdView v).trans (effects_push (by simp [Task.isNeutral]))
        -- What is typed is a text, so no record is written.
        exact hbase.trans (effects_writeView (by simp [Value.record?]) v key)
      · exact .refl
  | invoke v name =>
      simp only [act, callMethod]
      split
      · cases st.method? v name with
        | ok c => exact effects_callWith v c
        | error fault => exact effects_report _
      · exact .refl

/-- What a possible operation makes of the state comes down to effects. -/
theorem Operation.effects (o : Operation) (possible : o.isPossible st = true)
    (byHand : o.isByHand = true → lib.byHand) (takes : ∀ s, o = .hold s → lib.takes s) :
    Effects lib st (o.run st) := by
  simp only [isPossible, Bool.and_eq_true, List.all_eq_true, decide_eq_true_eq] at possible
  obtain ⟨⟨hrecords, -⟩, -⟩ := possible
  cases o with
  | newArray items => exact effects_aside rfl
  | newRecord => exact .single .newRecord
  | writeField p v => exact effects_writeField (fun r hr => hrecords r (by simp [records, hr])) p
  | writePath root path v =>
      exact effects_writePath (fun r hr => hrecords r (by simp [records, hr])) root path
  | assign c v => exact effects_assign (fun r hr => hrecords r (by simp [records, hr])) c
  | observe v => exact effects_observeValue v
  | define p v => exact effects_defineCell (fun r hr => hrecords r (by simp [records, hr])) p
  | newChannel => exact .single .newChannel
  | subscribe c s => exact .single (.subscribe c s (byHand rfl))
  | unsubscribe c s => exact .single (.unsubscribe c s (byHand rfl))
  | leave sources s =>
      exact effects_foldl (fun _ c => .single (.unsubscribe c s (byHand rfl))) sources st
  | leaveAbandoned previous next s =>
      exact effects_foldl (fun _ c => .single (.unsubscribe c s (byHand rfl))) _ st
  | track t root path =>
      exact effects_foldl (fun _ c => .single (.subscribe c t.reader (byHand rfl))) _ st
  | trackCell t c => exact .single (.subscribe _ t.reader (byHand rfl))
  | notify c => exact .single (.notify c)
  | newProbe c => exact .single (.newProbe c)
  | watch root path c => exact .single (.watch root path (.call c))
  | tell s => exact .single (.tell s)
  | dispose s => exact .single (.dispose s)
  | hold s => exact .single (.hold s (takes s rfl))
  | release s => exact .single (.release s)
  | newNode kind content => exact effects_aside rfl
  | appendChild n child => exact effects_updateNode n _
  | setAttribute n name value => exact effects_updateNode n _
  | setText n text => exact effects_setText n text
  | setValue n value => exact effects_updateNode n _
  | listen n event c => exact effects_updateNode n _
  | unlisten a => exact effects_updateNode a.node _
  | typeInto n value => exact (effects_updateNode n _).trans (effects_dispatch n "input")
  | dispatch n event => exact effects_dispatch n event
  | mount document? o => exact effects_mount document? o
  | compile v root => exact effects_compile v root
  | detach b => exact effects_detach b
  | abandon bs => exact effects_abandon bs
  | unmount v => exact effects_unmount v
  | holdView v => exact effects_holdView v
  | releaseView v => exact effects_releaseView v
  | writeView v key value =>
      exact effects_writeView (fun r hr => hrecords r (by simp [records, hr])) v key
  | callMethod v name =>
      simp only [run, State.callMethod]
      cases st.method? v name with
      | error fault => exact .refl
      | ok c => exact effects_callWith v c

end Effects

/-! ## Moves -/

/-- What a move takes the liberty to do. -/
def Move.liberty (m : Move) : Liberty where
  byHand := ∃ o, m = .operate o ∧ o.isByHand = true
  takes s := m = .operate (.hold s)

/-- The three kinds of moves: telling a watcher, a watcher's keeping a value, and all others. -/
inductive Deed (t : Transition) : Prop where
  | told (s : SubscriberId) (rest : List Task) (hmove : t.move = .work)
      (hagenda : t.before.agenda = .update s :: rest)
      (hafter : t.after = ({ t.before with agenda := rest } : State).update s)
  | kept (s : SubscriberId) (v : Value) (rest : List Task) (hmove : t.move = .work)
      (hagenda : t.before.agenda = .remember s v :: rest)
      (hafter : t.after = ({ t.before with agenda := rest } : State).remember s v)
  | done (h : Effects t.move.liberty t.before t.after)

theorem deed_work {t : Transition} (hmove : t.move = .work) : Deed t := by
  have hafter : t.after = t.before.step := by rw [Transition.after, hmove, Move.run]
  cases hagenda : t.before.agenda with
  | nil =>
      refine .done ?_
      rw [hafter, step, hagenda]
  | cons task rest =>
      rw [step, hagenda] at hafter
      cases task with
      | update s => exact .told s rest hmove hagenda hafter
      | remember s v => exact .kept s v rest hmove hagenda hafter
      | release s => exact .done (hafter ▸ .single (.letGo s rest hagenda))
      | act n a => exact .done (hafter ▸ .head (.drop _ rest hagenda rfl) (effects_act n a))
      | releaseView v =>
          exact .done (hafter ▸ .head (.drop _ rest hagenda rfl) (effects_releaseView v))
      | call _ | running => exact .done (hafter ▸ .single (.drop _ rest hagenda rfl))

/-- Every possible move is of one of the three kinds. -/
theorem Transition.deed (t : Transition) (possible : t.move.isPossible t.before = true) :
    Deed t := by
  cases hmove : t.move with
  | work => exact deed_work hmove
  | enter =>
      have hafter : t.after = t.before.enter := by rw [Transition.after, hmove, Move.run]
      refine .done ?_
      rw [hafter, enter]
      split
      · rename_i c rest hagenda
        have hpush : Effects t.move.liberty { t.before with agenda := rest }
            (State.push { t.before with agenda := rest } [.running]) :=
          effects_push (by simp [Task.isNeutral])
        exact .head (.drop _ rest hagenda rfl) hpush
      · exact .refl
  | finish =>
      have hafter : t.after = t.before.finish := by rw [Transition.after, hmove, Move.run]
      refine .done ?_
      rw [hafter, finish]
      split
      · rename_i rest hagenda
        exact .single (.drop _ rest hagenda rfl)
      · exact .refl
  | operate o =>
      have hafter : t.after = o.run t.before := by rw [Transition.after, hmove, Move.run]
      rw [hmove, Move.isPossible, Bool.and_eq_true] at possible
      refine .done ?_
      rw [hafter, hmove]
      exact o.effects possible.2 (fun h => ⟨o, rfl, h⟩) fun s hs => congrArg Move.operate hs

end DataBinding
