import DataBinding.Proofs.Ownership
import DataBinding.Proofs.Path
import DataBinding.Proofs.Template.Mounting

set_option autoImplicit false

/-! # What a move is made of

Every possible move of a tame run is the telling of a watcher, a watcher's keeping a value, or
a sequence of elementary changes (`Transition.course`). What is proved of these three holds of
every run.
-/

namespace DataBinding

open State Relation

/-- Some elementary changes, one after another. -/
abbrev Changes (sc : Scope) : State → State → Prop :=
  ReflTransGen (Change sc)

section Changes

variable {sc : Scope} {st st' : State}

theorem Changes.consistent (h : Changes sc st st') (hst : Consistent st) :
    Consistent st' := by
  induction h with
  | refl => exact hst
  | tail _ hstep ih => exact hstep.consistent ih

theorem Changes.owned (h : Changes sc st st') (hst : Owned st) : Owned st' := by
  induction h with
  | refl => exact hst
  | tail _ hstep ih => exact hstep.owned ih

/-! ## The tree and the log -/

theorem changes_tree (hrest : st' = { st with nodes := st'.nodes }) (hkinds : KeepsKinds st st') :
    Changes sc st st' := by
  rw [hrest] at hkinds ⊢
  exact .single (.tree st'.nodes hkinds.size hkinds.kind)

theorem changes_updateNode (n : NodeId) {f : Node → Node} (hf : ∀ b, (f b).kind = b.kind) :
    Changes sc st (st.updateNode n f) :=
  changes_tree rfl (.updateNode hf)

theorem changes_setText (n : NodeId) (text : String) :
    Changes sc st (st.setText n text) :=
  changes_tree (setText_rest st n text) (.setText text)

theorem changes_report (e : Event) : Changes sc st (st.report e) :=
  .single (.log st.arrays (st.journal ++ [e]))

theorem changes_push {tasks : List Task} (h : ∀ t ∈ tasks, t.isNeutral = true) :
    Changes sc st (st.push tasks) :=
  .single (.push tasks h)

theorem changes_dispatch (n : NodeId) (event : String) :
    Changes sc st (st.dispatch n event) := by
  refine changes_push ?_
  intro t ht
  obtain ⟨l, -, rfl⟩ := List.mem_map.mp ht
  rfl

/-! ## Writing -/

/-- Writing a field without adding one to an observed record. -/
theorem changes_writeField (hst : Consistent st) (p : Slot) {v : Value}
    (hv : ∀ r, v.record? = some r → r.index < st.records.size)
    (hkeys : st.isObserved p.record = true →
      ((st.writeField p v).records.get p.record).fields.keys =
        (st.records.get p.record).fields.keys) :
    Changes sc st (st.writeField p v) := by
  unfold writeField at hkeys ⊢
  cases hcell : st.cell? p with
  | some c => exact .single (.assign c v hv)
  | none =>
      simp only [hcell] at hkeys
      refine .single (.putField p v ?_ hv)
      -- Putting a field in an observed record would add one, since the field is not reactive.
      cases hobs : st.isObserved p.record with
      | false => rfl
      | true =>
          have hnone : st.field? p = none := by
            cases hf : st.field? p with
            | none => rfl
            | some f =>
                obtain ⟨c, rfl, -⟩ := hst.sound.cell_of_field? hobs hf
                rw [cell?_eq_some.mpr hf] at hcell
                cases hcell
          have hnew : p.key ∉ (st.records.get p.record).fields.keys := by
            rw [← isSome_field?_iff, hnone]
            exact Bool.false_ne_true
          have hlonger := hkeys hobs
          rw [keys_putField, if_pos ⟨rfl, lt_size_of_isObserved hobs⟩, if_neg hnew] at hlonger
          exact absurd hlonger (by simp)

theorem changes_writePath (hst : Consistent st) (root : RecordId) (path : String) {v : Value}
    (hv : ∀ r, v.record? = some r → r.index < st.records.size)
    (hkeys : ∀ r, st.isObserved r = true →
      ((st.writePath root path v).records.get r).fields.keys = (st.records.get r).fields.keys) :
    Changes sc st (st.writePath root path v) := by
  rcases writePath_eq st root path v with ⟨e, he⟩ | ⟨p, hp⟩
  · rw [he]
    exact changes_report e
  · rw [hp] at hkeys ⊢
    exact changes_writeField hst p hv (hkeys p.record)

theorem changes_writeView (hst : Consistent st) (view : ViewId) (key : String) {v : Value}
    (hv : ∀ r, v.record? = some r → r.index < st.records.size)
    (hkeys : ∀ r, st.isObserved r = true →
      ((st.writeView view key v).records.get r).fields.keys = (st.records.get r).fields.keys) :
    Changes sc st (st.writeView view key v) := by
  unfold writeView at hkeys ⊢
  split
  · exact .refl
  · rename_i hdiffers
    rw [if_neg hdiffers] at hkeys
    exact changes_writePath hst _ key hv hkeys

theorem changes_observeValue {v : Value}
    (hv : ∀ r, v.record? = some r → r.index < st.records.size) :
    Changes sc st (st.observeValue v) := by
  rw [observeValue_eq]
  cases hr : v.record? with
  | none => exact .refl
  | some r => exact .single (.observe r (hv r hr))

/-! ## Views -/

theorem changes_holdView (v : ViewId) : Changes sc st (st.holdView v) := by
  refine .single (.editView v _ ?_)
  intro b
  split <;> exact ⟨rfl, rfl⟩

theorem changes_callWith (v : ViewId) (c : Callback) : Changes sc st (st.callWith v c) := by
  refine (changes_holdView v).trans (changes_push ?_)
  intro t ht
  rcases List.mem_cons.mp ht with rfl | ht
  · rfl
  · rw [List.mem_singleton.mp ht]
    rfl

/-- A sequence of operations that leave the views alone. -/
theorem changes_foldl {α : Type} {f : State → α → State} (l : List α)
    (h : ∀ a ∈ l, ∀ st₁ : State, st₁.views = st.views →
      Changes sc st₁ (f st₁ a) ∧ (f st₁ a).views = st₁.views) :
    Changes sc st (l.foldl f st) ∧ (l.foldl f st).views = st.views := by
  induction l generalizing st with
  | nil => exact ⟨.refl, rfl⟩
  | cons a rest ih =>
      obtain ⟨hfirst, hviews⟩ := h a List.mem_cons_self st rfl
      have hrest : Changes sc (f st a) (rest.foldl f (f st a)) ∧
          (rest.foldl f (f st a)).views = (f st a).views :=
        ih fun b hb st₁ hst₁ => h b (List.mem_cons_of_mem _ hb) st₁ (hst₁.trans hviews)
      obtain ⟨hlater, hviews'⟩ := hrest
      exact ⟨hfirst.trans hlater, hviews'.trans hviews⟩

/-- Detaching a binding whose watchers belong to no view. -/
theorem changes_detach (b : Binding) (hb : ∀ s ∈ b.watchers, st.isBound s = false) :
    Changes sc st (st.detach b) ∧ (st.detach b).views = st.views := by
  let released := b.watchers.foldl (fun st s => (st.dispose s).release s) st
  have hwatchers : Changes sc st released ∧ released.views = st.views := by
    refine changes_foldl b.watchers ?_
    intro s hs st₁ hst₁
    have hdispose := (onlySubscriptions_dispose st₁ s).views
    have hunbound : st₁.isBound s = false := (isBound_congr hst₁ s).trans (hb s hs)
    refine ⟨.tail (.single (.dispose s hunbound)) (.release s ?_), ?_⟩
    · exact (isBound_congr hdispose s).trans hunbound
    · exact (onlySubscriptions_release _ s).views.trans hdispose
  have hlisteners : Changes sc released (b.listeners.foldl unlisten released) ∧
      (b.listeners.foldl unlisten released).views = released.views := by
    refine changes_foldl b.listeners ?_
    intro a _ st₁ _
    exact ⟨changes_updateNode a.node fun _ => rfl, rfl⟩
  exact ⟨hwatchers.1.trans hlisteners.1, hlisteners.2.trans hwatchers.2⟩

/-- Letting go of subscribers that belong to no view. -/
theorem changes_releaseAll (l : List SubscriberId) (hl : ∀ s ∈ l, st.isBound s = false) :
    Changes sc st (l.foldl release st) ∧ (l.foldl release st).views = st.views := by
  refine changes_foldl l ?_
  intro s hs st₁ hst₁
  have hunbound : st₁.isBound s = false := (isBound_congr hst₁ s).trans (hl s hs)
  exact ⟨.single (.release s hunbound), (onlySubscriptions_release st₁ s).views⟩

theorem changes_abandon (bs : List Binding)
    (hbs : ∀ b ∈ bs, ∀ s ∈ b.watchers, st.isBound s = false) : Changes sc st (st.abandon bs) := by
  refine (changes_foldl bs ?_).1
  intro b hb st₁ hst₁
  exact changes_releaseAll b.watchers fun s hs => (isBound_congr hst₁ s).trans (hbs b hb s hs)

/-- When a view has given up its bindings, their watchers belong to no view. -/
theorem isBound_unbind (ho : Owned st) {v : ViewId} {s : SubscriberId}
    (hs : st.isBoundBy v s = true) :
    ({ st with views := st.views.modify v fun b => { b with bindings := [] } } :
      State).isBound s = false := by
  rw [Bool.eq_false_iff]
  intro hbound
  obtain ⟨u, hu⟩ := isBound_iff.mp hbound
  have hview := view_modify st v u fun b => { b with bindings := [] }
  rw [isBoundBy, hview] at hu
  split at hu
  · cases hu
  · rename_i hne
    -- No other view has the subscriber, and `v` has given it up if there is a view `v` at all.
    have huv := ho.unique u v s hu hs
    rw [huv] at hne hu
    refine hne ⟨rfl, ?_⟩
    by_contra hsize
    rw [view_eq (by omega)] at hu
    cases hu

theorem changes_unmount (ho : Owned st) (v : ViewId) :
    Changes sc st (st.unmount v) := by
  -- The view gives up its bindings first, so that their watchers can be disposed of.
  refine ReflTransGen.head (.unbind v) ?_
  refine (changes_foldl (st.view v).bindings ?_).1
  intro b hb st₁ hst₁
  refine changes_detach b fun s hs => ?_
  rw [isBound_congr hst₁]
  exact isBound_unbind ho (isBoundBy_iff.mpr ⟨b, hb, hs⟩)

theorem changes_releaseView (ho : Owned st) (v : ViewId) :
    Changes sc st (st.releaseView v) := by
  have hedit : Change sc st { st with
      views := st.views.modify v fun b => { b with holders := (st.view v).holders - 1 } } :=
    .editView v _ fun _ => ⟨rfl, rfl⟩
  unfold releaseView
  simp only
  split
  · exact .single hedit
  · exact .head hedit (changes_unmount (hedit.owned ho) v)

/-! ## Binding a tree -/

theorem Wire.changes {view : ViewId} {c c' : Compilation} (h : Wire view c c')
    (hallowed : ∀ r, sc.allowed r) (hdata : c.state.isObserved (c.state.view view).data = true) :
    Changes sc c.state c'.state := by
  cases h with
  | report e => exact changes_report e
  | text n key _ _ =>
      refine (changes_setText n (c.state.read (c.state.view view).data key).display).tail ?_
      refine .watch _ key (.showText n) (hallowed _) (.inl ?_)
      rw [setText_rest]
      exact hdata
  | model n key _ =>
      have hvalue : Changes sc c.state (c.state.updateNode n
          (·.setValue (c.state.read (c.state.view view).data key).display)) :=
        changes_updateNode n fun _ => rfl
      have hwatch := hvalue.tail (.watch (c.state.view view).data key (.showValue n) (hallowed _)
        (.inl hdata))
      exact hwatch.trans (changes_updateNode n fun _ => rfl)
  | click n method => exact changes_updateNode n fun _ => rfl

theorem Wires.changes {view : ViewId} {c : Compilation} (h : Wires view ⟨st, []⟩ c)
    (hallowed : ∀ r, sc.allowed r) (hdata : st.isObserved (st.view view).data = true) :
    Changes sc st c.state := by
  induction h with
  | refl => exact .refl
  | tail hbefore hstep ih =>
      have hwired := Wires.wired hbefore (.start view st)
      refine ih.trans (hstep.changes hallowed ?_)
      rw [hwired.toSameStore.view, isObserved, hwired.records]
      exact hdata

theorem changes_compile (hallowed : ∀ r, sc.allowed r) {view : ViewId} (root : NodeId)
    (hdata : st.isObserved (st.view view).data = true) :
    Changes sc st (st.compile view root).2 :=
  (wires_bindBelow view root ⟨st, []⟩ (st.height + 1)).changes hallowed hdata

/-- The watchers that binding a tree makes can be handed to a view. -/
theorem bindable_compile (hst : Consistent st) (ho : Owned st) (view : ViewId) (root : NodeId) :
    ∀ b ∈ (st.compile view root).1, ∀ s ∈ b.watchers, st.subscribers.size ≤ s.index ∧
      (st.compile view root).2.isBound s = false ∧
      (st.compile view root).2.holders s = 1 + (st.compile view root).2.agenda.count (.release s) ∧
      ∃ w, (st.compile view root).2.watcher? s = some w ∧ w.disposed = false ∧
        w.root = ((st.compile view root).2.view view).data := by
  have hwired := wired_compile st view root
  intro b hb s hs
  obtain ⟨hnew, hholders, w, hw, hdisposed, hroot⟩ := hwired.made b hb s hs
  refine ⟨hnew, ?_, ?_, w, hw, hdisposed, ?_⟩
  · rw [isBound_congr hwired.views, Bool.eq_false_iff]
    intro hbound
    obtain ⟨v, hv⟩ := isBound_iff.mp hbound
    have hold := ho.lt_size hv
    omega
  · have hcount : (st.compile view root).2.agenda.count (.release s) = 0 := by
      rw [hwired.agenda]
      refine List.count_eq_zero.mpr fun hmem => ?_
      have hold := hst.scheduled.release s hmem
      omega
    rw [hcount]
    exact hholders
  · rw [hroot, hwired.toSameStore.view]

theorem changes_mount (hst : Consistent st) (ho : Owned st) (hallowed : ∀ r, sc.allowed r)
    (hbindable : ∀ s : SubscriberId, st.subscribers.size ≤ s.index → sc.bindable s)
    (document? : Option NodeId) {o : ViewOptions} (hdata : o.data.index < st.records.size) :
    Changes sc st (st.mount document? o).2 := by
  cases hroot : st.resolveRoot document? o.root? with
  | error fault => rw [mount_eq_error hroot]
  | ok root =>
      rw [mount_eq hroot]
      have hobserved : (st.withView root o).isObserved o.data = true := isObserved_withView hdata
      have hobserve : Change sc st (st.observe o.data) := .observe o.data hdata
      have hnew : Change sc (st.observe o.data) (st.withView root o) :=
        .newView (st.viewOn root o) rfl hobserved
      have htree : Changes sc (st.withView root o) (st.withTree root o) := by
        refine changes_compile hallowed root ?_
        rw [view_withView]
        exact hobserved
      have hbindings := bindable_compile (hnew.consistent (hobserve.consistent hst))
        (hnew.owned (hobserve.owned ho)) st.views.fresh root
      refine (ReflTransGen.head hobserve (.head hnew htree)).trans ?_
      refine (changes_report (.mounted _)).tail (.bind st.views.fresh _ lt_size_views_withTree ?_)
      intro b hb s hs
      obtain ⟨hsize, hrest⟩ := hbindings b hb s hs
      refine ⟨hbindable s ?_, hrest⟩
      rw [← subscribers_withView]
      exact hsize

/-! ## Tasks -/

theorem changes_act (hst : Consistent st) (n : NodeId) (a : Action)
    (hkeys : ∀ r, st.isObserved r = true →
      ((st.act n a).records.get r).fields.keys = (st.records.get r).fields.keys) :
    Changes sc st (st.act n a) := by
  cases a with
  | call c => exact changes_push (by simp [Task.isNeutral])
  | edit v key =>
      simp only [act] at hkeys ⊢
      split
      · rename_i halive
        simp only [halive, if_true] at hkeys
        have hbase : Changes sc st ((st.holdView v).push [.releaseView v]) :=
          (changes_holdView v).trans (changes_push (by simp [Task.isNeutral]))
        -- What is typed is a text, so no record is written.
        refine hbase.trans (changes_writeView (hbase.consistent hst) v key ?_ hkeys)
        simp [Value.record?]
      · exact .refl
  | invoke v name =>
      simp only [act, callMethod]
      split
      · cases st.method? v name with
        | ok c => exact changes_callWith v c
        | error fault => exact changes_report _
      · exact .refl

end Changes

/-! ## Operations -/

/-- Whether an operation binds a tree. -/
def Operation.isCompiling : Operation → Bool
  | .mount .. | .compile .. => true
  | _ => false

/-- Whether a transition binds a tree. -/
def Transition.isCompiling (t : Transition) : Bool :=
  match t.move with
  | .operate o => o.isCompiling
  | .work | .enter | .finish => false

/-- What an operation makes of the state comes down to elementary changes. -/
theorem Operation.changes {sc : Scope} {st : State}
    (hst : Consistent st) (ho : Owned st) (o : Operation) (hpossible : o.isPossible st = true)
    (htame : o.isByHand = false ∧ o.isDefinition = false)
    (hkeys : ∀ r, st.isObserved r = true →
      ((o.run st).records.get r).fields.keys = (st.records.get r).fields.keys)
    (hcall : ∀ c, sc.allowed (.call c)) (hcompiling : o.isCompiling = true → ∀ r, sc.allowed r)
    (hbindable : ∀ s : SubscriberId, st.subscribers.size ≤ s.index → sc.bindable s)
    (hearly : ∀ root path c, o = .watch root path c →
      st.isObserved root = true ∨ sc.early st.subscribers.fresh) :
    Changes sc st (o.run st) := by
  simp only [isPossible, Bool.and_eq_true, List.all_eq_true, decide_eq_true_eq,
    Bool.not_eq_true'] at hpossible
  obtain ⟨⟨hrecords, hviews⟩, hsubscribers⟩ := hpossible
  -- Whatever names a subscriber names none that belongs to a view.
  cases o with
  | newArray items => exact .single (.log (st.arrays + 1) st.journal)
  | newRecord => exact .single .newRecord
  | writeField p v =>
      exact changes_writeField hst p
        (fun r hr => hrecords r (by simp [records, hr])) (hkeys p.record)
  | writePath root path v =>
      exact changes_writePath hst root path (fun r hr => hrecords r (by simp [records, hr])) hkeys
  | assign c v => exact .single (.assign c v fun r hr => hrecords r (by simp [records, hr]))
  | observe v => exact changes_observeValue fun r hr => hrecords r (by simp [records, hr])
  | define p v => cases htame.2
  | newChannel => exact .single .newChannel
  | subscribe c s => cases htame.1
  | unsubscribe c s => cases htame.1
  | leave sources s => cases htame.1
  | leaveAbandoned previous next s => cases htame.1
  | track t root path => cases htame.1
  | trackCell t c => cases htame.1
  | notify c => exact .single (.notify c)
  | newProbe c => exact .single (.newProbe c)
  | watch root path c =>
      exact .single (.watch root path (.call c) (hcall c) (hearly root path c rfl))
  | tell s =>
      have hs := hsubscribers s (by simp [subscribers])
      exact .single (.tell s hs.1 hs.2)
  | dispose s => exact .single (.dispose s (hsubscribers s (by simp [subscribers])).2)
  | hold s => exact .single (.hold s (hsubscribers s (by simp [subscribers])).2)
  | release s => exact .single (.release s (hsubscribers s (by simp [subscribers])).2)
  | newNode kind content => exact changes_tree rfl (.newNode _)
  | appendChild n child => exact changes_updateNode n fun _ => rfl
  | setAttribute n name value => exact changes_updateNode n fun _ => rfl
  | setText n text => exact changes_setText n text
  | setValue n value => exact changes_updateNode n fun _ => rfl
  | listen n event c => exact changes_updateNode n fun _ => rfl
  | unlisten a => exact changes_updateNode a.node fun _ => rfl
  | typeInto n value =>
      have htyped : Changes sc st (st.updateNode n (·.typeValue value)) :=
        changes_updateNode n fun _ => rfl
      exact htyped.trans (changes_dispatch n "input")
  | dispatch n event => exact changes_dispatch n event
  | mount document? o =>
      have hdata := hrecords o.data (by simp [records])
      exact changes_mount hst ho (hcompiling rfl) hbindable document? hdata
  | compile v root =>
      exact changes_compile (hcompiling rfl) root (hst.view v (hviews v (by simp [views])))
  | detach b => exact (changes_detach b fun s hs => (hsubscribers s hs).2).1
  | abandon bs =>
      exact changes_abandon bs fun b hb s hs =>
        (hsubscribers s (List.mem_flatMap.mpr ⟨b, hb, hs⟩)).2
  | unmount v => exact changes_unmount ho v
  | holdView v => exact changes_holdView v
  | releaseView v => exact changes_releaseView ho v
  | writeView v key value =>
      exact changes_writeView hst v key (fun r hr => hrecords r (by simp [records, hr])) hkeys
  | callMethod v name =>
      simp only [run, State.callMethod]
      cases st.method? v name with
      | error fault => exact .refl
      | ok c => exact changes_callWith v c

/-! ## Transitions -/

/-- What the changes that a transition is made of may do. -/
def Transition.scope (t : Transition) : Scope where
  early s := t.startsObserved s = false
  allowed reaction := t.isCompiling = true ∨ ∃ c, reaction = .call c
  bindable s := t.before.subscribers.size ≤ s.index

/-- The three kinds of moves. -/
inductive Course (t : Transition) : Prop where
  /-- A subscriber is told of a change. -/
  | told (s : SubscriberId) (rest : List Task) (hmove : t.move = .work)
      (hagenda : t.before.agenda = .update s :: rest)
      (hafter : t.after = ({ t.before with agenda := rest } : State).update s)
  /-- A watcher keeps the value that it has reacted to. -/
  | kept (s : SubscriberId) (v : Value) (rest : List Task) (hmove : t.move = .work)
      (hagenda : t.before.agenda = .remember s v :: rest)
      (hafter : t.after = ({ t.before with agenda := rest } : State).remember s v)
  /-- Anything else comes down to elementary changes. -/
  | changed (h : Changes t.scope t.before t.after) (hnotes : ∀ s, t.notes s = [])

theorem Transition.keys_eq {t : Transition} (h : t.keepsKeys = true) {r : RecordId}
    (hr : t.before.isObserved r = true) :
    (t.after.records.get r).fields.keys = (t.before.records.get r).fields.keys := by
  rw [keepsKeys, List.all_eq_true] at h
  have hkeys := h r ((Table.mem_ids_iff _ r).mpr (lt_size_of_isObserved hr))
  simpa [hr] using hkeys

theorem course_work {t : Transition} (hst : Consistent t.before) (ho : Owned t.before)
    (hmove : t.move = .work) (hkeys : t.keepsKeys = true) : Course t := by
  have hafter : t.after = t.before.step := by rw [Transition.after, hmove, Move.run]
  cases hagenda : t.before.agenda with
  | nil =>
      refine .changed ?_ fun s => by rw [Transition.notes, hmove, hagenda]
      rw [hafter, step, hagenda]
  | cons task rest =>
      rw [step, hagenda] at hafter
      -- Only telling and keeping are more than elementary changes.
      cases task with
      | update s => exact .told s rest hmove hagenda hafter
      | remember s v => exact .kept s v rest hmove hagenda hafter
      | release s =>
          refine .changed ?_ fun s => by rw [Transition.notes, hmove, hagenda]
          rw [hafter]
          exact .single (.letGo s rest hagenda)
      | act n a =>
          refine .changed ?_ fun s => by rw [Transition.notes, hmove, hagenda]
          have hdrop : Change t.scope t.before { t.before with agenda := rest } :=
            .drop _ rest hagenda rfl
          rw [hafter]
          refine .head hdrop (changes_act (hdrop.consistent hst) n a ?_)
          intro r hr
          have hsame := t.keys_eq hkeys hr
          rw [hafter] at hsame
          exact hsame
      | releaseView v =>
          refine .changed ?_ fun s => by rw [Transition.notes, hmove, hagenda]
          have hdrop : Change t.scope t.before { t.before with agenda := rest } :=
            .drop _ rest hagenda rfl
          rw [hafter]
          exact .head hdrop (changes_releaseView (hdrop.owned ho) v)
      | call _ | running =>
          refine .changed ?_ fun s => by rw [Transition.notes, hmove, hagenda]
          rw [hafter]
          exact .single (.drop _ rest hagenda rfl)

/-- Every possible tame move is of one of the three kinds. -/
theorem Transition.course (t : Transition) (hst : Consistent t.before) (ho : Owned t.before)
    (hpossible : t.move.isPossible t.before = true) (htame : t.isTame = true) :
    Course t := by
  rw [isTame, Bool.and_eq_true] at htame
  cases hmove : t.move with
  | work => exact course_work hst ho hmove htame.2
  | enter =>
      refine .changed ?_ fun s => by rw [notes, hmove]
      have hafter : t.after = t.before.enter := by rw [Transition.after, hmove, Move.run]
      rw [hafter, enter]
      split
      · rename_i c rest hagenda
        have hdrop : Change t.scope t.before
            { t.before with agenda := rest } := .drop _ rest hagenda rfl
        have hpush : Changes t.scope { t.before with agenda := rest }
            (State.push { t.before with agenda := rest } [.running]) :=
          changes_push (by simp [Task.isNeutral])
        exact .head hdrop hpush
      · exact .refl
  | finish =>
      refine .changed ?_ fun s => by rw [notes, hmove]
      have hafter : t.after = t.before.finish := by rw [Transition.after, hmove, Move.run]
      rw [hafter, finish]
      split
      · rename_i rest hagenda
        exact .single (.drop _ rest hagenda rfl)
      · exact .refl
  | operate o =>
      refine .changed ?_ fun s => by rw [notes, hmove]
      have hafter : t.after = o.run t.before := by rw [Transition.after, hmove, Move.run]
      rw [hmove] at hpossible htame
      simp only [Move.isPossible, Bool.and_eq_true] at hpossible
      simp only [Move.isTame, Bool.and_eq_true, Bool.not_eq_true'] at htame
      rw [hafter]
      refine o.changes hst ho hpossible.2 htame.1 ?_ (fun c => .inr ⟨c, rfl⟩) ?_ (fun _ => id) ?_
      · intro r hr
        rw [← hafter]
        exact t.keys_eq htame.2 hr
      · intro hcompiling r
        refine .inl ?_
        rw [isCompiling, hmove]
        exact hcompiling
      · intro root path c hwatch
        -- The watcher is made now, so it is early unless its root is observed.
        have hbefore : t.before.watcher? t.before.subscribers.fresh = none :=
          watcher?_eq_none (Nat.le_refl _)
        have hmade : t.after.watcher? t.before.subscribers.fresh =
            some (t.before.firstWatcher root path (.call c)) := by
          rw [hafter, hwatch]
          exact watcher?_watch.trans (if_pos rfl)
        have hsame : t.after.isObserved root = t.before.isObserved root := by
          rw [hafter, hwatch, isObserved, Operation.run,
            (onlySubscriptions_watch t.before root path (.call c)).records, isObserved]
        show _ ∨ t.startsObserved t.before.subscribers.fresh = false
        rw [startsObserved, hbefore, hmade]
        show _ ∨ t.after.isObserved root = false
        rw [hsame]
        cases t.before.isObserved root with
        | true => exact .inl rfl
        | false => exact .inr rfl

end DataBinding
