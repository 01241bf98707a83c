import DataBinding.Proofs.Template.Rooting

set_option autoImplicit false

/-! # What a move does to the data

A move does one thing to the data at most: it makes a record, puts a plain field, assigns to a
cell, observes a value or makes a field reactive by force (`DataStep`). What else it does concerns
neither records nor cells (`Alters`). A move that writes a field by one of these is told apart from
those that do not, and the field and the value can be read off the move and the state that it is
made in (`Transition.write?`).

What holds of every such thing therefore holds of every move (`Transition.alters`).
-/

namespace DataBinding

open State

namespace State

variable {free : Prop} {st st' : State} {p : Slot} {c : CellId} {v : Value}
  {w? : Option (Slot × Value)}

/-! ## One thing at a time -/

/-- One thing that may be done to the data, and the field that it writes, if it does, with the
value. Only if the host is `free` to do so is a reactive field made reactive again. -/
inductive DataStep (free : Prop) (st : State) : Option (Slot × Value) → State → Prop where
  | stay : DataStep free st none st
  | newRecord : DataStep free st none st.newRecord.2
  | putField (p : Slot) (v : Value) (hp : st.cell? p = none) :
      DataStep free st (some (p, v)) (st.putField p (.plain v))
  | assign (p : Slot) (c : CellId) (v : Value) (hp : st.cell? p = some c)
      (hv : ∀ r, v.record? = some r → r.index < st.records.size) :
      DataStep free st (some (p, v)) (st.assign c v)
  /-- The cell belongs to no field any more. -/
  | assignUnheld (c : CellId) (v : Value) (hc : ∀ p, st.cell? p ≠ some c)
      (hv : ∀ r, v.record? = some r → r.index < st.records.size) :
      DataStep free st none (st.assign c v)
  | observe (v : Value) (hv : ∀ r, v.record? = some r → r.index < st.records.size) :
      DataStep free st none (st.observeValue v)
  | define (p : Slot) (v : Value) (hp : free ∨ st.cell? p = none)
      (hv : ∀ r, v.record? = some r → r.index < st.records.size) :
      DataStep free st (some (p, v)) (st.defineCell p v).2

/-- Between `st` and `st'` one thing at most was done to the data. -/
def Alters (free : Prop) (st : State) (w? : Option (Slot × Value)) (st' : State) : Prop :=
  ∃ base done, SameGraph st base ∧ DataStep free base w? done ∧ SameGraph done st'

theorem Alters.of_sameGraph (h : SameGraph st st') : Alters free st none st' :=
  ⟨st, st, ⟨rfl, rfl⟩, .stay, h⟩

theorem Alters.after_sameGraph {base : State} (h : Alters free base w? st')
    (hbefore : SameGraph st base) : Alters free st w? st' := by
  obtain ⟨base', done, hbase, hstep, hafter⟩ := h
  exact ⟨base', done, hbefore.trans hbase, hstep, hafter⟩

theorem DataStep.alters (h : DataStep free st w? st') : Alters free st w? st' :=
  ⟨st, st', ⟨rfl, rfl⟩, h, ⟨rfl, rfl⟩⟩

/-! ## What leaves the data alone -/

theorem SameGraph.foldl {α : Type} {f : State → α → State} (h : ∀ st a, SameGraph st (f st a))
    (l : List α) (st : State) : SameGraph st (l.foldl f st) := by
  induction l generalizing st with
  | nil => exact ⟨rfl, rfl⟩
  | cons a rest ih => exact (h st a).trans (ih (f st a))

theorem sameGraph_detach (st : State) (b : Binding) : SameGraph st (st.detach b) := by
  have hwatchers : SameGraph st (b.watchers.foldl (fun st s => (st.dispose s).release s) st) :=
    .foldl (fun st s => (onlySubscriptions_dispose st s).graph.trans
      (onlySubscriptions_release _ s).graph) b.watchers st
  have hlisteners : ∀ st : State, SameGraph st (b.listeners.foldl unlisten st) :=
    .foldl (fun st a => (⟨rfl, rfl⟩ : SameGraph st (st.unlisten a))) b.listeners
  exact hwatchers.trans (hlisteners _)

theorem sameGraph_abandon (st : State) (bs : List Binding) : SameGraph st (st.abandon bs) := by
  refine SameGraph.foldl (fun st b => ?_) bs st
  exact .foldl (fun st s => (onlySubscriptions_release st s).graph) b.watchers st

theorem sameGraph_unmount (st : State) (v : ViewId) : SameGraph st (st.unmount v) := by
  have hunbound : SameGraph st
      { st with views := st.views.modify v fun b => { b with bindings := [] } } := ⟨rfl, rfl⟩
  exact hunbound.trans (.foldl sameGraph_detach _ _)

theorem sameGraph_releaseView (st : State) (v : ViewId) : SameGraph st (st.releaseView v) := by
  have hless : SameGraph st { st with
      views := st.views.modify v fun b => { b with holders := (st.view v).holders - 1 } } :=
    ⟨rfl, rfl⟩
  unfold releaseView
  simp only
  split
  · exact hless
  · exact hless.trans (sameGraph_unmount _ v)

theorem sameGraph_compile (st : State) (view : ViewId) (root : NodeId) :
    SameGraph st (st.compile view root).2 :=
  ⟨(wired_compile st view root).records, (wired_compile st view root).cells⟩

theorem sameGraph_callWith (v : ViewId) (c : Callback) : SameGraph st (st.callWith v c) :=
  ⟨rfl, rfl⟩

/-! ## Writing -/

/-- The field that a cell belongs to, if it belongs to one. -/
def fieldOf? (st : State) (c : CellId) : Option Slot :=
  (st.records.ids.flatMap fun r => (st.records.get r).fields.keys.map (Slot.mk r)).find?
    fun p => st.cell? p = some c

theorem cell?_of_fieldOf? (h : st.fieldOf? c = some p) : st.cell? p = some c := by
  simpa using List.find?_some h

theorem ne_of_fieldOf?_eq_none (h : st.fieldOf? c = none) (p : Slot) : st.cell? p ≠ some c := by
  intro hp
  have hfield : (st.field? p).isSome := by
    rw [cell?_eq_some.mp hp]
    rfl
  have hrecord := (st.records.mem_ids_iff p.record).mpr (lt_size_of_field? hfield)
  have hkey : p ∈ (st.records.get p.record).fields.keys.map (Slot.mk p.record) :=
    List.mem_map.mpr ⟨p.key, isSome_field?_iff.mp hfield, rfl⟩
  exact List.find?_eq_none.mp h p (List.mem_flatMap.mpr ⟨p.record, hrecord, hkey⟩)
    (by simpa using hp)

/-- What writing a key of a view writes: nothing if the value is there already. -/
def viewWrite? (st : State) (view : ViewId) (key : String) (v : Value) : Option (Slot × Value) :=
  if (st.readView view key).same v then none
  else (st.written? (st.view view).data key).map fun p => (p, v)

theorem SameGraph.viewWrite? (h : SameGraph st st') (view : ViewId)
    (hdata : (st'.view view).data = (st.view view).data) (key : String) (v : Value) :
    st'.viewWrite? view key v = st.viewWrite? view key v := by
  unfold State.viewWrite? readView
  rw [hdata, h.read, h.written?]

section Value

variable (hv : ∀ r, v.record? = some r → r.index < st.records.size)

include hv

theorem alters_writeField (p : Slot) : Alters free st (some (p, v)) (st.writeField p v) := by
  unfold writeField
  split
  · rename_i c hp
    exact (DataStep.assign p c v hp hv).alters
  · rename_i hp
    exact (DataStep.putField p v hp).alters

theorem alters_writePath (root : RecordId) (path : String) :
    Alters free st ((st.written? root path).map fun p => (p, v)) (st.writePath root path v) := by
  rw [writePath_eq_match]
  cases st.written? root path with
  | none => exact .of_sameGraph ⟨rfl, rfl⟩
  | some p => exact alters_writeField hv p

theorem alters_writeView (view : ViewId) (key : String) :
    Alters free st (st.viewWrite? view key v) (st.writeView view key v) := by
  unfold writeView viewWrite?
  split
  · exact .of_sameGraph ⟨rfl, rfl⟩
  · exact alters_writePath hv _ key

theorem alters_assign (c : CellId) :
    Alters free st ((st.fieldOf? c).map fun p => (p, v)) (st.assign c v) := by
  cases hp : st.fieldOf? c with
  | none => exact (DataStep.assignUnheld c v (ne_of_fieldOf?_eq_none hp) hv).alters
  | some p => exact (DataStep.assign p c v (cell?_of_fieldOf? hp) hv).alters

end Value

theorem alters_mount {document? : Option NodeId} {o : ViewOptions}
    (hdata : o.data.index < st.records.size) :
    Alters free st none (st.mount document? o).2 := by
  cases hroot : st.resolveRoot document? o.root? with
  | error fault =>
      rw [mount_eq_error hroot]
      exact .of_sameGraph ⟨rfl, rfl⟩
  | ok root =>
      rw [mount_eq hroot]
      have hstep : DataStep free st none (st.observe o.data) :=
        .observe (.record o.data) fun r hr => by cases hr; exact hdata
      exact ⟨st, _, ⟨rfl, rfl⟩, hstep, sameGraph_mounted⟩

end State

/-! ## Operations -/

/-- The field that an operation writes, if it writes one, with the value. -/
def Operation.write? (st : State) : Operation → Option (Slot × Value)
  | .writeField p v | .define p v => some (p, v)
  | .writePath root path v => (st.written? root path).map fun p => (p, v)
  | .assign c v => (st.fieldOf? c).map fun p => (p, v)
  | .writeView view key v => st.viewWrite? view key v
  | _ => none

/-- An operation does one thing to the data at most. -/
theorem Operation.alters {free : Prop} {st : State} (o : Operation)
    (possible : o.isPossible st = true)
    (hdefine : ∀ p v, o = .define p v → free ∨ st.cell? p = none) :
    Alters free st (o.write? st) (o.run st) := by
  simp only [isPossible, Bool.and_eq_true, List.all_eq_true, decide_eq_true_eq] at possible
  obtain ⟨⟨hrecords, -⟩, -⟩ := possible
  cases o with
  | newRecord => exact DataStep.newRecord.alters
  | writeField p v => exact alters_writeField (fun r hr => hrecords r (by simp [records, hr])) p
  | writePath root path v =>
      exact alters_writePath (fun r hr => hrecords r (by simp [records, hr])) root path
  | assign c v => exact alters_assign (fun r hr => hrecords r (by simp [records, hr])) c
  | observe v => exact (DataStep.observe v fun r hr => hrecords r (by simp [records, hr])).alters
  | define p v =>
      exact (DataStep.define p v (hdefine p v rfl) fun r hr =>
        hrecords r (by simp [records, hr])).alters
  | writeView v key value =>
      exact alters_writeView (fun r hr => hrecords r (by simp [records, hr])) v key
  | mount document? o => exact alters_mount (hrecords o.data (by simp [records]))
  | newArray | newChannel | newProbe | newNode | appendChild | setAttribute | setValue | listen |
    unlisten | typeInto | dispatch | holdView => exact .of_sameGraph ⟨rfl, rfl⟩
  | setText n text =>
      refine .of_sameGraph ?_
      rw [run, setText_rest]
      exact ⟨rfl, rfl⟩
  | subscribe c s => exact .of_sameGraph (onlySubscriptions_subscribe st c s).graph
  | unsubscribe c s => exact .of_sameGraph (onlySubscriptions_unsubscribe st c s).graph
  | leave sources s => exact .of_sameGraph (onlySubscriptions_leave st sources s).graph
  | leaveAbandoned previous next s => exact .of_sameGraph (onlySubscriptions_leave st _ s).graph
  | track t root path => exact .of_sameGraph (onlySubscriptions_track st t root path).graph
  | trackCell t c => exact .of_sameGraph (onlySubscriptions_subscribe st _ t.reader).graph
  | notify c => exact .of_sameGraph (onlySubscriptions_notify st c).graph
  | watch root path c =>
      exact .of_sameGraph (onlySubscriptions_watch st root path (.call c)).graph
  | tell s =>
      exact .of_sameGraph ((onlySubscriptions_hold st s).trans (onlySubscriptions_push _ _)).graph
  | dispose s => exact .of_sameGraph (onlySubscriptions_dispose st s).graph
  | hold s => exact .of_sameGraph (onlySubscriptions_hold st s).graph
  | release s => exact .of_sameGraph (onlySubscriptions_release st s).graph
  | compile v root => exact .of_sameGraph (sameGraph_compile st v root)
  | detach b => exact .of_sameGraph (sameGraph_detach st b)
  | abandon bs => exact .of_sameGraph (sameGraph_abandon st bs)
  | unmount v => exact .of_sameGraph (sameGraph_unmount st v)
  | releaseView v => exact .of_sameGraph (sameGraph_releaseView st v)
  | callMethod v name =>
      simp only [run, State.callMethod]
      cases st.method? v name with
      | error fault => exact .of_sameGraph ⟨rfl, rfl⟩
      | ok c => exact .of_sameGraph (sameGraph_callWith v c)

/-! ## Moves -/

/-- The field that a task writes, if it writes one, with the value: that is the one that a view's
listener changes when the user has typed. -/
def State.taskWrite? (st : State) : Task → Option (Slot × Value)
  | .act n (.edit v key) =>
    if st.isViewAlive v then st.viewWrite? v key (.text (st.node n).value) else none
  | _ => none

/-- What else there is to do makes no difference to what a task writes. -/
theorem State.taskWrite?_agenda (st : State) (tasks : List Task) (t : Task) :
    State.taskWrite? { st with agenda := tasks } t = st.taskWrite? t := by
  have hgraph : SameGraph st { st with agenda := tasks } := ⟨rfl, rfl⟩
  cases t with
  | act n a =>
      cases a with
      | edit v key =>
          have hwrite := hgraph.viewWrite? v rfl key (.text (st.node n).value)
          simp only [taskWrite?]
          split
          · rename_i halive
            exact hwrite.trans (if_pos halive).symm
          · rename_i halive
            exact (if_neg halive).symm
      | call _ | invoke _ _ => rfl
  | _ => rfl

theorem State.alters_act {free : Prop} {st : State} (n : NodeId) (a : Action) :
    Alters free st (st.taskWrite? (.act n a)) (st.act n a) := by
  cases a with
  | call c => exact .of_sameGraph ⟨rfl, rfl⟩
  | edit v key =>
      simp only [act, taskWrite?]
      split
      · -- The view is held while it is written, which leaves its data as it is.
        let base := (st.holdView v).push [.releaseView v]
        have hbase : SameGraph st base := ⟨rfl, rfl⟩
        have hdata : (base.view v).data = (st.view v).data := by
          have hheld := view_modify st v v fun b =>
            if 0 < b.holders then { b with holders := b.holders + 1 } else b
          refine (congrArg View.data hheld).trans ?_
          split
          · split <;> rfl
          · rfl
        have hwritten : Alters free base (base.viewWrite? v key (.text (st.node n).value))
            (base.writeView v key (.text (st.node n).value)) :=
          alters_writeView (by simp [Value.record?]) v key
        rw [hbase.viewWrite? v hdata] at hwritten
        exact hwritten.after_sameGraph hbase
      · exact .of_sameGraph ⟨rfl, rfl⟩
  | invoke v name =>
      simp only [act, callMethod]
      split
      · cases st.method? v name with
        | ok c => exact .of_sameGraph (sameGraph_callWith v c)
        | error fault => exact .of_sameGraph ⟨rfl, rfl⟩
      · exact .of_sameGraph ⟨rfl, rfl⟩

theorem State.alters_perform {free : Prop} (st : State) (t : Task) :
    Alters free st (st.taskWrite? t) (st.perform t) := by
  cases t with
  | update s => exact .of_sameGraph (telling_update st s).sameGraph
  | remember s v => exact .of_sameGraph ⟨rfl, rfl⟩
  | release s => exact .of_sameGraph (onlySubscriptions_release st s).graph
  | act n a => exact alters_act n a
  | releaseView v => exact .of_sameGraph (sameGraph_releaseView st v)
  | call _ | running => exact .of_sameGraph ⟨rfl, rfl⟩

/-- The field that a transition writes, if it writes one, with the value. -/
def Transition.write? (t : Transition) : Option (Slot × Value) :=
  match t.move, t.before.agenda with
  | .operate o, _ => o.write? t.before
  | .work, task :: _ => t.before.taskWrite? task
  | _, _ => none

/-- Whether the transition, if it makes a field reactive by force, takes one that is not reactive
yet. -/
def Transition.definesPlain (t : Transition) : Bool :=
  match t.move with
  | .operate (.define p _) => (t.before.cell? p).isNone
  | _ => true

/-- A move does one thing to the data at most. -/
theorem Transition.alters {free : Prop} (t : Transition)
    (possible : t.move.isPossible t.before = true) (hdefines : free ∨ t.definesPlain = true) :
    Alters free t.before t.write? t.after := by
  cases hmove : t.move with
  | work =>
      rw [Transition.after, hmove, Move.run, step]
      cases hagenda : t.before.agenda with
      | nil =>
          simp only [write?, hmove, hagenda]
          exact .of_sameGraph ⟨rfl, rfl⟩
      | cons task rest =>
          have halters : Alters free { t.before with agenda := rest } (t.before.taskWrite? task)
              (State.perform { t.before with agenda := rest } task) := by
            rw [← State.taskWrite?_agenda t.before rest]
            exact State.alters_perform _ task
          simp only [write?, hmove, hagenda]
          exact halters.after_sameGraph ⟨rfl, rfl⟩
  | enter =>
      simp only [write?, hmove]
      rw [Transition.after, hmove, Move.run, enter]
      split <;> exact .of_sameGraph ⟨rfl, rfl⟩
  | finish =>
      simp only [write?, hmove]
      rw [Transition.after, hmove, Move.run, finish]
      split <;> exact .of_sameGraph ⟨rfl, rfl⟩
  | operate o =>
      rw [Transition.after, hmove, Move.run]
      rw [hmove, Move.isPossible, Bool.and_eq_true] at possible
      simp only [write?, hmove]
      refine o.alters possible.2 fun p v ho => hdefines.imp_right fun hplain => ?_
      subst ho
      rw [definesPlain, hmove] at hplain
      exact Option.isNone_iff_eq_none.mp hplain

end DataBinding
