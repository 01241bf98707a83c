import DataBinding.Proofs.Session
import DataBinding.Proofs.Writing

set_option autoImplicit false

/-! # Typing into a control

What is typed into a control is written to the field that the control is bound to, and the watchers
of the view are told of it, the control's own among them. That one finds its text in the form value
already, so nothing comes back to the control.
-/

namespace DataBinding

open State

/-! ## Paths through a field that is written -/

/-- The path comes to the field at its end, and not before. -/
structure State.EndsIn (st : State) (root : RecordId) (path : String) (p : Slot) : Prop where
  target : (st.trail root path).target? = some p
  once : p ∉ (st.trail root path).visited.dropLast

section Paths

variable {st st' : State} {root r : RecordId} {path : String} {keys : List String} {p : Slot}
  (hkeys : ∀ r, (st'.records.get r).fields.keys = (st.records.get r).fields.keys)
  (hothers : ∀ q, q ≠ p → st'.content q = st.content q)

include hkeys hothers

/-- A path that comes to the field at its end only is followed as before, if no other field has been
written. -/
theorem follow_eq_of_not_mem (hcomplete : (st.follow r keys).complete = true)
    (hp : p ∉ (st.follow r keys).visited.dropLast) : st'.follow r keys = st.follow r keys := by
  induction keys generalizing r with
  | nil => rfl
  | cons key rest ih =>
      have hnone : (st'.field? ⟨r, key⟩).isNone = (st.field? ⟨r, key⟩).isNone := by
        rw [← Option.not_isSome, isSome_field?_congr hkeys, Option.not_isSome]
      simp only [follow, hnone] at hcomplete hp ⊢
      split
      · rfl
      · rename_i hsome
        rw [if_neg hsome] at hcomplete hp
        split
        · rfl
        · rename_i hrest
          rw [if_neg hrest] at hcomplete hp
          cases hnext : (st.content ⟨r, key⟩).record? with
          | none =>
              rw [hnext] at hcomplete
              cases hcomplete
          | some next =>
              simp only [hnext] at hcomplete hp
              -- The field on the way is not the last one visited.
              rw [List.dropLast_cons_of_ne_nil (visited_ne_nil_of_complete hcomplete),
                List.mem_cons, not_or] at hp
              rw [hothers ⟨r, key⟩ (Ne.symm hp.1), hnext]
              simp only [ih hcomplete hp.2]

/-- A path that comes to the field on its way is not followed to its end, if the field does not
hold a record any longer. -/
theorem not_complete_of_mem (hp : p ∈ (st.follow r keys).visited.dropLast) :
    (st.content p).record?.isSome = true ∧
      ((st'.content p).record? = none → (st'.follow r keys).complete = false) := by
  induction keys generalizing r with
  | nil => cases hp
  | cons key rest ih =>
      have hnone : (st'.field? ⟨r, key⟩).isNone = (st.field? ⟨r, key⟩).isNone := by
        rw [← Option.not_isSome, isSome_field?_congr hkeys, Option.not_isSome]
      simp only [follow, hnone] at hp ⊢
      split at hp
      · cases hp
      · rename_i hsome
        split at hp
        · cases hp
        · rename_i hrest
          rw [if_neg hsome, if_neg hrest]
          cases hnext : (st.content ⟨r, key⟩).record? with
          | none =>
              simp only [hnext] at hp
              cases hp
          | some next =>
              simp only [hnext] at hp
              have hne : (st.follow next rest).visited ≠ [] := by
                intro hnil
                rw [hnil] at hp
                cases hp
              by_cases hhere : p = ⟨r, key⟩
              · subst hhere
                refine ⟨by rw [hnext]; rfl, fun hgone => ?_⟩
                rw [hgone]
              · rw [List.dropLast_cons_of_ne_nil hne, List.mem_cons] at hp
                have hlater := ih (hp.resolve_left hhere)
                rw [hothers _ (Ne.symm hhere), hnext]
                exact hlater

theorem State.EndsIn.trail_eq (h : st.EndsIn root path p) :
    st'.trail root path = st.trail root path := by
  obtain ⟨htarget, hp⟩ := h
  have hcomplete : (st.trail root path).complete = true := by
    by_contra hnot
    rw [Trail.target?, if_neg hnot] at htarget
    cases htarget
  unfold trail at hcomplete hp ⊢
  rw [isSome_field?_congr hkeys]
  split
  · rfl
  · rename_i hname
    rw [if_neg hname] at hcomplete hp
    exact follow_eq_of_not_mem hkeys hothers hcomplete hp

/-- What is read where a path comes to the field at its end. -/
theorem State.EndsIn.read_eq (h : st.EndsIn root path p) : st'.read root path = st'.content p := by
  rw [State.read, h.trail_eq hkeys hothers, h.target]
  rfl

/-- What is read where a path came to the field on its way, too. -/
theorem read_eq_undefined (hp : p ∈ (st.trail root path).visited.dropLast)
    (hgone : (st'.content p).record? = none) :
    (st.content p).record?.isSome = true ∧ st'.read root path = .undefined := by
  unfold trail at hp
  split at hp
  · cases hp
  · rename_i hname
    obtain ⟨hrecord, hstops⟩ := not_complete_of_mem hkeys hothers hp
    refine ⟨hrecord, ?_⟩
    rw [State.read, trail, isSome_field?_congr hkeys, if_neg hname, Trail.target?, hstops hgone]
    rfl

end Paths

/-! ## Writing what was typed -/

namespace State

/-- The state in which a text has been typed into a node, and the view that has heard of it is held
while it writes the text. -/
def heard (st : State) (v : ViewId) (n : NodeId) (text : String) : State :=
  (({ st.typeInto n text with agenda := [] } : State).holdView v).push [.releaseView v]

/-- Somebody is on the channel of the field. -/
def IsOn (st : State) (p : Slot) (s : SubscriberId) : Prop :=
  ∃ e, st.channel? p = some e ∧ st.isSubscribed e s = true

/-- From `st` to `st'` the field `p` has come to hold the text, and those who are on its channel are
about to be told if it did not hold it before. -/
structure WritesText (st : State) (p : Slot) (text : String) (st' : State) : Prop extends
    Writing st st' where
  content : st'.content p = .text text
  others : ∀ q, q ≠ p → st'.content q = st.content q
  keys : ∀ r, (st'.records.get r).fields.keys = (st.records.get r).fields.keys
  /-- One field at most is changed, and one channel is notified of it. -/
  journal : st'.journal = st.journal ∨
    ∃ key k, st'.journal = st.journal ++ [.changed key, .notifying k]
  told : ∀ s, .update s ∈ st'.agenda → .update s ∈ st.agenda ∨ st.IsOn p s

end State

section Write

variable {st : State} {p : Slot} {c : CellId} {text : String}

/-- But for numbers, values are the same only if they are equal. -/
theorem eq_of_same {v u : Value} (h : v.same u = true) (hu : ∀ x, u ≠ .number x) : v = u := by
  rcases (Value.same_iff _ _).mp h with heq | ⟨x, y, -, hy, -⟩
  · exact heq
  · exact absurd hy (hu y)

theorem eq_text_of_same {v : Value} (h : v.same (.text text) = true) : v = .text text :=
  eq_of_same h fun _ => Value.noConfusion

theorem writesText_self (h : st.content p = .text text) : WritesText st p text st where
  toWriting := .refl st
  content := h
  others _ _ := rfl
  keys _ := rfl
  journal := .inl rfl
  told _ := .inl

theorem writesText_assign (hcelled : Celled st) (hchannelled : Channelled st)
    (hc : st.cell? p = some c) (text : String) :
    WritesText st p text (st.assign c (.text text)) := by
  cases hdiffers : st.differs c (.text text) with
  | false =>
      rw [assign_of_same hdiffers]
      refine writesText_self ?_
      rw [content_eq_of_cell? hc]
      exact eq_text_of_same (by simpa [differs] using hdiffers)
  | true =>
      have hwrites := writesOnly_assign hcelled hc (.text text)
      refine ⟨writing_assign st c _, ?_, hwrites.others, hwrites.keys, .inr ?_, fun s hs => ?_⟩
      · refine hwrites.written.resolve_right fun hsame => ?_
        rw [content_eq_of_cell? hc] at hsame
        simp [differs, hsame.1] at hdiffers
      · rw [assign_of_differs hdiffers]
        have hnotified := journal_notify
          (((st.store c (.text text)).observeValue (.text text)).report
            (.changed (st.cells.get c).key)) (st.cells.get c).channel
        generalize List.length _ = k at hnotified
        refine ⟨(st.cells.get c).key, k, hnotified.trans ?_⟩
        show (st.journal ++ _) ++ _ = _
        rw [List.append_assoc]
        rfl
      · have hchannel := hchannelled.known c (hcelled.lt_size hc)
        rw [agenda_assign hdiffers hchannel, List.mem_append] at hs
        refine hs.symm.imp_right fun hs => ?_
        obtain ⟨u, hu, hsame | hsame⟩ := mem_updates.mp hs
        · cases hsame
          refine ⟨(st.cells.get c).channel, by rw [channel?, hc]; rfl, ?_⟩
          rw [isSubscribed, decide_eq_true_iff]
          exact List.mem_of_mem_filter hu
        · cases hsame

end Write

/-! ## The agenda -/

/-- An action that is all that is on the agenda is done first. -/
theorem advance_act {st : State} {n : NodeId} {a : Action} (hagenda : st.agenda = [.act n a]) :
    st.advance = st.step.workOff := by
  have hstays : st.workOff = st := by
    rw [workOff]
    split
    · rfl
    · rename_i t rest hfirst
      rw [hagenda] at hfirst
      cases hfirst
      rw [if_neg (fun hcondition => nomatch hcondition.1)]
  have hone : actions st.agenda = 1 := by
    rw [hagenda]
    rfl
  have hturn : st.turn = .library := by rw [turn, hagenda]
  rw [advance, hone, advanceBy]
  simp only [hstays, hturn, if_true, advanceBy]

/-- Letting go of the view when nothing else is left to do. -/
theorem step_releaseView {st : State} {v : ViewId} (hagenda : st.agenda = [.releaseView v])
    (hholders : (st.view v).holders = 2) :
    st.step = ({ st with agenda := [] } : State).lessHeld v := by
  have hview : ({ st with agenda := [] } : State).view v = st.view v := view_congr rfl _
  rw [step, hagenda]
  simp only [perform, releaseView_eq, hview, hholders]
  rfl

theorem lt_size_of_holders {st : State} {v : ViewId} (h : (st.view v).holders ≠ 0) :
    v.index < st.views.size := by
  by_contra hnot
  exact h (by rw [view_eq (Nat.le_of_not_lt hnot)])

theorem view_lessHeld_self {st : State} {v : ViewId} (hv : v.index < st.views.size) :
    (st.lessHeld v).view v = { st.view v with holders := (st.view v).holders - 1 } := by
  rw [lessHeld, view_modify, if_pos ⟨rfl, hv⟩]

/-- Where watchers of bindings are to be told and a view is to be let go of after that, the library
does so and comes to rest. -/
theorem Run.delivers_releaseView {ts : List Transition} {acted : State} {v : ViewId}
    {T : SubscriberId → Prop} {l : List SubscriberId} (h : Run ts acted)
    (tame : ∀ t ∈ ts, t.isTame = true) (hbound : ∀ s, T s → acted.isBound s = true)
    (hagenda : acted.agenda = updates l ++ [.releaseView v])
    (htold : ∀ s, .update s ∈ updates l → T s) (hholders : (acted.view v).holders = 2) :
    ∃ served, Delivers T acted served ∧
      acted.workOff = ({ served with agenda := [] } : State).lessHeld v ∧
      ∃ ts', Run ts' acted.workOff ∧ ∀ t ∈ ts', t.isTame = true := by
  obtain ⟨ts', served, hserved, hnew, hrest, hsame, hdelivers⟩ :=
    h.delivers tame hbound hagenda isTelling_updates htold
  have hstep := step_releaseView hrest
    (by rw [view_congr hdelivers.settled.views, hholders])
  have hturn : Task.isAct (.releaseView v) = false ∧ served.turn = .library :=
    ⟨rfl, by rw [turn, hrest]⟩
  have hlast : acted.workOff = served.step := by
    rw [hsame, workOff_eq_step hrest hturn, workOff_of_agenda_nil (by rw [hstep]; rfl)]
  refine ⟨served, hdelivers, hlast.trans hstep, ?_⟩
  rw [hlast]
  refine ⟨_, hserved.move .work (by simp [Move.isPossible, hturn.2]), ?_⟩
  refine List.forall_mem_cons.mpr ⟨Transition.isTame_of_records rfl ?_, fun t ht => ?_⟩
  · show served.step.records = served.records
    rw [hstep]
    rfl
  · exact (hnew t ht).elim (tame t) And.right

/-- Typing names no record, no view and no subscriber. -/
theorem isPossible_typeInto (st : State) (n : NodeId) (text : String) :
    (Operation.typeInto n text).isPossible st = true := by
  simp [Operation.isPossible, Operation.records, Operation.views, Operation.subscribers]

/-! ## From rest to rest -/

section Rest

variable {st₀ st : State} {root n : NodeId} {o : ViewOptions} (h : AtRest st₀ root o st)

include h

namespace AtRest

theorem lt_size_views : st₀.views.fresh.index < st.views.size :=
  lt_size_of_holders (by rw [h.holders]; decide)

theorem view_heard (text : String) : (st.heard st₀.views.fresh n text).view st₀.views.fresh =
    { st.view st₀.views.fresh with holders := 2 } := by
  have hheld := view_modify { st.typeInto n text with agenda := [] } st₀.views.fresh
    st₀.views.fresh fun b => if 0 < b.holders then { b with holders := b.holders + 1 } else b
  have hsame : ({ st.typeInto n text with agenda := [] } : State).view st₀.views.fresh =
      st.view st₀.views.fresh := view_congr rfl _
  rw [if_pos ⟨rfl, h.lt_size_views⟩, hsame, h.holders] at hheld
  exact hheld

/-- When a text is typed into a control, the view hears of it. -/
theorem agenda_typeInto (htree : st₀.IsTree root)
    (unheard : (st₀.node n).listenersFor "input" = []) (text : String) :
    (st.typeInto n text).agenda =
      (st₀.valueKeys root n).map fun key => .act n (.edit st₀.views.fresh key) := by
  have hlisteners : ((st.updateNode n (·.typeValue text)).node n).listenersFor "input" =
      (st.node n).listenersFor "input" := by
    rw [Node.listenersFor, map_node_typeValue (g := Node.listeners) text (fun _ => rfl) n]
    rfl
  have hactions := h.toKept.listenersFor_eq htree unheard
  have hagenda : (st.typeInto n text).agenda =
      (((st.node n).listenersFor "input").map fun l => .act n l.action) ++ st.agenda := by
    rw [← hlisteners]
    rfl
  have hmap := congrArg (List.map (Task.act n)) hactions
  rw [List.map_map, List.map_map] at hmap
  rw [hagenda, h.rest, List.append_nil]
  exact hmap

/-- The view writes the text that was typed. -/
theorem step_typeInto {key : String} (hn : n.index < st.nodes.size) {text : String}
    (hagenda : (st.typeInto n text).agenda = [.act n (.edit st₀.views.fresh key)]) :
    (st.typeInto n text).step =
      (st.heard st₀.views.fresh n text).writeView st₀.views.fresh key (.text text) := by
  have halive : ({ st.typeInto n text with agenda := [] } : State).isViewAlive st₀.views.fresh =
      true := by
    have hsame : ({ st.typeInto n text with agenda := [] } : State).view st₀.views.fresh =
        st.view st₀.views.fresh := view_congr rfl _
    rw [isViewAlive, hsame, h.holders]
    rfl
  have hvalue : (({ st.typeInto n text with agenda := [] } : State).node n).value = text := by
    have hnode : ({ st.typeInto n text with agenda := [] } : State).node n =
        (st.updateNode n (·.typeValue text)).node n := node_congr rfl n
    rw [hnode, node_updateNode_eq hn]
    rfl
  rw [step, hagenda]
  simp only [perform, act, halive, if_true, hvalue]
  rfl

/-- A field to which a path from the data comes is reactive. -/
theorem exists_cell {p : Slot} {path : String}
    (hread : (st.trail o.data path).target? = some p) : ∃ c, st.cell? p = some c := by
  obtain ⟨ts, hrun, htame⟩ := h.run
  obtain ⟨hst, -⟩ := hrun.consistent htame
  have hdata : st.isObserved o.data = true := h.data ▸ hst.view _ h.lt_size_views
  have hobserved := isObserved_of_mem_trail hst.sound hdata (target?_mem_visited hread)
  obtain ⟨f, hf⟩ := Option.isSome_iff_exists.mp (isSome_field?_of_target? hread)
  obtain ⟨c, rfl, -⟩ := hst.sound.cell_of_field? hobserved hf
  exact ⟨c, cell?_eq_some.mpr hf⟩

/-- What the view writes when it hears of a text. -/
theorem writesText_heard {p : Slot} {key : String} (hcomes : st.ComesTo o.data key p)
    (text : String) : WritesText (st.heard st₀.views.fresh n text) p text
      ((st.heard st₀.views.fresh n text).writeView st₀.views.fresh key (.text text)) := by
  obtain ⟨c, hc⟩ := h.exists_cell hcomes.read
  obtain ⟨ts, hrun, -⟩ := h.run
  have hgraph : SameGraph st (st.heard st₀.views.fresh n text) := ⟨rfl, rfl⟩
  have hdata : ((st.heard st₀.views.fresh n text).view st₀.views.fresh).data = o.data := by
    rw [h.view_heard, ← h.data]
  rw [writeView, readView, hdata, hgraph.read]
  split
  · rename_i hsame
    refine writesText_self ?_
    rw [State.read, hcomes.read, Option.map_some, Option.getD_some] at hsame
    rw [hgraph.content]
    exact eq_text_of_same hsame
  · rw [writePath_eq_writeField ((hgraph.written? o.data key).trans hcomes.written)]
    have hc' : (st.heard st₀.views.fresh n text).cell? p = some c := hc
    have hcelled : Celled (st.heard st₀.views.fresh n text) :=
      hrun.graph.celled.congr (fun _ => rfl) (Nat.le_refl _)
    have hchannelled : Channelled (st.heard st₀.views.fresh n text) :=
      hrun.channelled.of_cells rfl (Nat.le_refl _)
    simp only [writeField, hc']
    exact writesText_assign hcelled hchannelled hc' text

end AtRest

/-- A text that is typed into a control is written to the field `p` (in `acted`), those on the
channel of the field are told (up to `served`), and the view is let go of. -/
structure Types (st₀ : State) (root : NodeId) (o : ViewOptions) (st : State) (n : NodeId)
    (text : String) (p : Slot) (acted served : State) : Prop where
  before : AtRest st₀ root o st
  writes : WritesText (st.heard st₀.views.fresh n text) p text acted
  delivers : Delivers (st.IsOn p) acted served
  bound : ∀ s, st.IsOn p s → st.isBoundBy st₀.views.fresh s = true
  kept : Kept st₀ root o acted
  holders : (served.view st₀.views.fresh).holders = 2
  advance : (st.typeInto n text).advance =
    ({ served with agenda := [] } : State).lessHeld st₀.views.fresh
  run : ∃ ts, Run ts (st.typeInto n text).advance ∧ ∀ t ∈ ts, t.isTame = true

variable {st₁ : State} {v : ViewId}

theorem AtRest.types (hm : Mounting st₀ root o v st₁) (hn : n.index < st₀.nodes.size)
    (unheard : (st₀.node n).listenersFor "input" = []) {key : String}
    (hkey : key ∈ st₀.valueKeys root n) {p : Slot} (hcomes : st.ComesTo o.data key p)
    (only : st.TellsOnly st₀.views.fresh p) (text : String) :
    ∃ acted served, Types st₀ root o st n text p acted served := by
  have hagenda : (st.typeInto n text).agenda = [.act n (.edit st₀.views.fresh key)] := by
    rw [h.agenda_typeInto hm.tree unheard, hm.valueKeys_eq hkey]
    rfl
  have hwrites : WritesText (st.heard st₀.views.fresh n text) p text (st.typeInto n text).step := by
    rw [h.step_typeInto (Nat.lt_of_lt_of_le hn h.nodes) hagenda]
    exact h.writesText_heard hcomes text
  let acted := (st.typeInto n text).step
  have hviews : (acted.view st₀.views.fresh) = { st.view st₀.views.fresh with holders := 2 } := by
    rw [view_congr hwrites.views, h.view_heard]
  have hbound : ∀ s, acted.isBoundBy st₀.views.fresh s = st.isBoundBy st₀.views.fresh s :=
    isBoundBy_of_bindings (by rw [hviews])
  -- The host types, and the view writes what it hears of.
  obtain ⟨ts, hrun, htame⟩ := h.run
  have htyped : Run (⟨st, .operate (.typeInto n text)⟩ :: ts) (st.typeInto n text) :=
    hrun.operate h.rest (isPossible_typeInto st n text)
  have hacted : Run (⟨st.typeInto n text, .work⟩ :: ⟨st, .operate (.typeInto n text)⟩ :: ts)
      acted := htyped.move .work (by rw [Move.isPossible, turn, hagenda]; rfl)
  have htames : ∀ t ∈ (⟨st.typeInto n text, .work⟩ :: ⟨st, .operate (.typeInto n text)⟩ :: ts :
      List Transition), t.isTame = true := by
    refine List.forall_mem_cons.mpr ⟨Transition.isTame_of_keys rfl fun r _ => hwrites.keys r, ?_⟩
    exact List.forall_mem_cons.mpr ⟨Transition.isTame_of_records rfl rfl, htame⟩
  -- Those on the channel are told.
  obtain ⟨l, hl⟩ := hwrites.agenda
  have htold : ∀ s, .update s ∈ updates l → st.IsOn p s := by
    intro s hs
    have hmem : .update s ∈ acted.agenda := by
      rw [hl]
      exact List.mem_append_left _ hs
    refine (hwrites.told s hmem).resolve_left fun hnone => ?_
    cases List.mem_singleton.mp hnone
  have hon : ∀ s, st.IsOn p s → st.isBoundBy st₀.views.fresh s = true := by
    rintro s ⟨e, he, hs⟩
    exact only e s he hs
  obtain ⟨served, hdelivers, hadvance, hserved⟩ := hacted.delivers_releaseView htames
    (fun s hs => isBound_iff.mpr ⟨_, (hbound s).trans (hon s hs)⟩) hl htold (by rw [hviews])
  rw [← advance_act hagenda] at hadvance hserved
  have hheard : Kept st₀ root o (st.heard st₀.views.fresh n text) :=
    (h.toKept.typed n text).congr (by rw [h.view_heard]; rfl) (by rw [h.view_heard]; rfl) rfl rfl
  have hkept := hheard.writing hwrites.toWriting
  have hholders : (served.view st₀.views.fresh).holders = 2 := by
    rw [view_congr hdelivers.settled.views, hviews]
  exact ⟨acted, served, h, hwrites, hdelivers, hon, hkept, hholders, hadvance, hserved⟩

end Rest

namespace Types

variable {st₀ st₁ st acted served : State} {root n m : NodeId} {o : ViewOptions} {v : ViewId}
  {text : String} {p : Slot} {s : SubscriberId} {w w' : Watcher}
  (h : Types st₀ root o st n text p acted served)

include h

/-! ### Data -/

theorem graph : SameGraph acted (st.typeInto n text).advance := by
  have hgraph := h.delivers.settled.graph
  rw [h.advance]
  exact ⟨hgraph.records, hgraph.cells⟩

theorem content : (st.typeInto n text).advance.content p = .text text :=
  (h.graph.content p).trans h.writes.content

theorem others {q : Slot} (hq : q ≠ p) :
    (st.typeInto n text).advance.content q = st.content q :=
  (h.graph.content q).trans (h.writes.others q hq)

theorem keys (r : RecordId) : ((st.typeInto n text).advance.records.get r).fields.keys =
    (st.records.get r).fields.keys := by
  rw [h.graph.records]
  exact h.writes.keys r

theorem journal : (st.typeInto n text).advance.journal = st.journal ∨
    ∃ key k, (st.typeInto n text).advance.journal = st.journal ++ [.changed key, .notifying k] := by
  have hsame : (st.typeInto n text).advance.journal = acted.journal := by
    rw [h.advance]
    exact h.delivers.journal_eq
  rw [hsame]
  exact h.writes.journal

/-! ### Nodes -/

theorem node (m : NodeId) : (st.typeInto n text).advance.node m = served.node m := by
  rw [h.advance]
  exact node_congr rfl m

theorem watcher (s : SubscriberId) :
    (st.typeInto n text).advance.watcher? s = served.watcher? s := by
  rw [h.advance]
  exact watcher?_congr rfl

theorem node_acted (m : NodeId) :
    acted.node m = (st.updateNode n (·.typeValue text)).node m :=
  node_congr h.writes.nodes m

theorem lt_size_acted (hm : m.index < st.nodes.size) : m.index < acted.nodes.size := by
  rw [h.writes.nodes]
  exact Nat.lt_of_lt_of_eq hm (Table.size_modify ..).symm

/-- A watcher that there is afterwards was there before, and was for the same. -/
theorem exists_watcher (hw' : (st.typeInto n text).advance.watcher? s = some w') :
    ∃ w, st.watcher? s = some w ∧ acted.watcher? s = some w ∧ w.root = w'.root ∧
      w.path = w'.path ∧ w.reaction = w'.reaction := by
  rw [h.watcher] at hw'
  obtain ⟨w, hw, hsame⟩ := h.delivers.exists_watcher hw'
  exact ⟨w, (h.writes.watcher s).symm.trans hw, hw, hsame⟩

/-- There is a watcher afterwards where there was one before. -/
theorem exists_watcher_after (hw : st.watcher? s = some w) :
    ∃ w', (st.typeInto n text).advance.watcher? s = some w' ∧ w'.root = w.root ∧
      w'.path = w.path ∧ w'.reaction = w.reaction := by
  have hw₁ : acted.watcher? s = some w := (h.writes.watcher s).trans hw
  obtain ⟨w', hw', hsame⟩ := watcher?_of_purpose? (h.delivers.settled.repainted.purpose s) hw₁
  exact ⟨w', (h.watcher s).trans hw', hsame⟩

/-! ### Rest -/

theorem view_after : (st.typeInto n text).advance.view st₀.views.fresh =
    { served.view st₀.views.fresh with holders := 1 } := by
  have hsame : ({ served with agenda := [] } : State).view st₀.views.fresh =
      served.view st₀.views.fresh := view_congr rfl _
  rw [h.advance, view_lessHeld_self (lt_size_of_holders (by rw [hsame, h.holders]; decide)), hsame,
    h.holders]

theorem isBoundBy_acted (s : SubscriberId) :
    acted.isBoundBy st₀.views.fresh s = st.isBoundBy st₀.views.fresh s :=
  isBoundBy_of_bindings (h.kept.bindings.trans h.before.bindings.symm) s

/-- Those who are told are watchers of the view. -/
theorem bound_acted (s : SubscriberId) (hs : st.IsOn p s) :
    acted.isBoundBy st₀.views.fresh s = true :=
  (h.isBoundBy_acted s).trans (h.bound s hs)

theorem kept_after : Kept st₀ root o (st.typeInto n text).advance := by
  refine (h.kept.delivers h.bound_acted h.delivers).congr ?_ ?_ ?_ ?_
  · rw [h.view_after]
  · rw [h.view_after]
  · rw [h.advance]
    rfl
  · rw [h.advance]
    rfl

theorem agenda_after : (st.typeInto n text).advance.agenda = [] := by
  rw [h.advance]
  rfl

theorem isBoundBy_after (s : SubscriberId) :
    (st.typeInto n text).advance.isBoundBy st₀.views.fresh s = st.isBoundBy st₀.views.fresh s :=
  isBoundBy_of_bindings (h.kept_after.bindings.trans h.before.bindings.symm) s

/-! ### What watchers have seen -/

/-- A watcher whose path ended in the field has seen the text afterwards. -/
theorem seen_eq_text (hs : st.isBoundBy st₀.views.fresh s = true)
    (hw : st.watcher? s = some w) (hends : st.EndsIn o.data w.path p)
    (hw' : (st.typeInto n text).advance.watcher? s = some w') : w'.seen = .text text := by
  obtain ⟨u, hu, -, -, hpath, -⟩ := h.exists_watcher hw'
  cases hw.symm.trans hu
  obtain ⟨-, hseen, -⟩ := h.kept_after.follows h.run h.agenda_after
    ((h.isBoundBy_after s).trans hs) hw'
  rw [← hpath, hends.read_eq h.keys fun _ => h.others, h.content] at hseen
  exact eq_text_of_same hseen

/-- If a watcher whose path came to the field has seen nothing new, it had seen the text. -/
theorem seen_eq_text_of_kept (hs : st.isBoundBy st₀.views.fresh s = true)
    (hw : st.watcher? s = some w)
    (htarget : (st.trail o.data w.path).target? = some p)
    (hw' : (st.typeInto n text).advance.watcher? s = some w') (hkept : w'.seen = w.seen) :
    w'.seen = .text text := by
  by_cases hp : p ∈ (st.trail o.data w.path).visited.dropLast
  · -- The field held a record, which the watcher had seen, and now the path is broken.
    obtain ⟨u, hu, -, -, hpath, -⟩ := h.exists_watcher hw'
    cases hw.symm.trans hu
    obtain ⟨hrecord, hbroken⟩ := read_eq_undefined h.keys (fun _ => h.others) hp
      (by rw [h.content]; rfl)
    obtain ⟨-, hseen, -⟩ := h.before.toKept.follows h.before.run h.before.rest hs hw
    obtain ⟨-, hseen', -⟩ := h.kept_after.follows h.run h.agenda_after
      ((h.isBoundBy_after s).trans hs) hw'
    rw [State.read, htarget, Option.map_some, Option.getD_some] at hseen
    rw [← hpath, hbroken, hkept] at hseen'
    rw [eq_of_same hseen' fun _ => Value.noConfusion] at hseen
    have hnothing : st.content p = .undefined :=
      eq_of_same (Value.same_symm hseen) fun _ => Value.noConfusion
    rw [hnothing] at hrecord
    cases hrecord
  · exact h.seen_eq_text hs hw ⟨htarget, hp⟩ hw'

end Types

/-! ## Sessions come to rest -/

section Sessions

variable {st₀ st₁ st acted served : State} {root n : NodeId} {o : ViewOptions} {v : ViewId}
  {text : String} {p : Slot} {key : String}

/-- After a text has been typed into a control, the library comes to rest again. -/
theorem Types.atRest (h : Types st₀ root o st n text p acted served)
    (hm : Mounting st₀ root o v st₁) (hn : n.index < st₀.nodes.size)
    (hkey : key ∈ st₀.valueKeys root n) (htarget : (st.trail o.data key).target? = some p) :
    AtRest st₀ root o (st.typeInto n text).advance := by
  refine ⟨h.kept_after, h.run, h.agenda_after, by rw [h.view_after], ?_⟩
  intro s w' m hs hw' hreaction' hm₀
  have hs₀ : st.isBoundBy st₀.views.fresh s = true := (h.isBoundBy_after s).symm.trans hs
  obtain ⟨w, hw, hacted, -, -, hreaction⟩ := h.exists_watcher hw'
  have hreaction₀ := hreaction.trans hreaction'
  have hs₁ := (h.isBoundBy_acted s).trans hs₀
  rw [h.node m]
  rcases h.kept.value_cases hm h.bound_acted h.delivers hs₁ hacted hreaction₀ hm₀
    ((h.watcher s).symm.trans hw') with
    ⟨hseen, hvalue⟩ | hset
  · rw [hvalue, h.node_acted]
    by_cases hmn : m = n
    · -- The control's own watcher finds the text in the form value already.
      subst hmn
      have hpath : w.path = key := h.before.path_eq hm hn hkey hs₀ hw hreaction₀
      have htext := h.seen_eq_text_of_kept hs₀ hw (hpath ▸ htarget) hw' hseen
      rw [node_updateNode_eq (Nat.lt_of_lt_of_le hn h.before.nodes), htext]
      rfl
    · rw [node_updateNode_ne (Ne.symm hmn), h.before.values s w m hs₀ hw hreaction₀ hm₀, hseen]
  · exact hset

/-- After a text has been typed into a node whose form value is not bound, there is nothing to
do. -/
theorem AtRest.typed_unbound (h : AtRest st₀ root o st) (hm : Mounting st₀ root o v st₁)
    (unheard : (st₀.node n).listenersFor "input" = [])
    (hkeys : st₀.valueKeys root n = []) (text : String) :
    AtRest st₀ root o (st.typeInto n text).advance := by
  have hagenda : (st.typeInto n text).agenda = [] := by
    rw [h.agenda_typeInto hm.tree unheard, hkeys]
    rfl
  have hsame : (st.typeInto n text).advance = st.typeInto n text := by
    rw [advance_eq_workOff (fun task htask => by rw [hagenda] at htask; cases htask),
      workOff_of_agenda_nil hagenda]
  obtain ⟨ts, hrun, htame⟩ := h.run
  have hmove : Run (⟨st, .operate (.typeInto n text)⟩ :: ts) (st.typeInto n text) :=
    hrun.operate h.rest (isPossible_typeInto st n text)
  have hkept : Kept st₀ root o (st.typeInto n text) :=
    (h.toKept.typed n text).congr rfl rfl rfl rfl
  rw [hsame]
  refine ⟨hkept, ⟨_, hmove, ?_⟩, hagenda, h.holders, ?_⟩
  · exact List.forall_mem_cons.mpr ⟨Transition.isTame_of_records rfl rfl, htame⟩
  · intro s w m hs hw hreaction hm₀
    have hmn : m ≠ n := by
      rintro rfl
      have hmem := h.mem_valueKeys hm.tree hm₀ hs
        (valueKeyOf?_eq_some.mpr ⟨w, hw, hreaction, rfl⟩)
      rw [hkeys] at hmem
      cases hmem
    have hnode : (st.typeInto n text).node m = st.node m :=
      node_updateNode_ne (Ne.symm hmn) (·.typeValue text)
    rw [hnode]
    exact h.values s w m hs hw hreaction hm₀

/-- At every point of a session, the library is at rest. -/
theorem Session.atRest (h : Session st₀ root v st₁ st) (hm : Mounting st₀ root o v st₁) :
    AtRest st₀ root o st := by
  obtain ⟨rfl, hmounted⟩ := hm.eq
  induction h with
  | mounted =>
      rw [hmounted]
      exact .mounted hm
  | written op _ writes possible keeps tells ih => exact ih.written hm writes possible keeps tells
  | typed n text _ unheard comes ih =>
      cases hkeys : st₀.valueKeys root n with
      | nil => exact ih.typed_unbound hm unheard hkeys text
      | cons key keys =>
          have hkey : key ∈ st₀.valueKeys root n := hkeys ▸ List.mem_cons_self
          have known := lt_size_of_mem_demandsBelow hm.tree (mem_valueKeys_iff.mp hkey)
          obtain ⟨p, hcomes, only⟩ := comes key (mem_valueKeys_iff.mp hkey)
          rw [ih.data] at hcomes
          obtain ⟨acted, served, htypes⟩ := ih.types hm known unheard hkey hcomes only text
          exact htypes.atRest hm known hkey hcomes.read

end Sessions

end DataBinding
