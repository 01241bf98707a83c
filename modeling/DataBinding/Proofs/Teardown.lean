import DataBinding.Proofs.Reaction
import DataBinding.Proofs.Template.Attachment

set_option autoImplicit false

/-! # Teardown inside a pass

Telling the subscribers of a channel and running the listeners of a node go by a snapshot. A
watcher whose last handle is dropped in the meantime is still told, and a listener that is taken
off its node is still run. So teardown takes effect inside such a pass exactly if what is torn down
has nothing to do when the turn comes to it (`Run.takesEffect_iff`): the watcher has no news, and
the view of the listener is gone or has nothing to write or to call. A watcher that is disposed of
has no news, and a view that is dropped is gone; but a watcher that is dropped may have news, and a
view that is unmounted need not be gone (`not_always_takesEffect`).
-/

namespace DataBinding

open State

/-! ## What a listener does -/

/-- The node and the event of the dispatch that an operation begins. -/
def Operation.dispatches? : Operation → Option (NodeId × String)
  | .dispatch n event => some (n, event)
  | .typeInto n _ => some (n, "input")
  | _ => none

namespace State

/-- In `st₁` the turn comes to the listener `l` in a dispatch that began in `st`: the listeners in
front of it have had theirs, and those behind it wait. -/
def IsTurnOf (st st₁ : State) (n : NodeId) (event : String) (l : Listener) : Prop :=
  ∃ done rest, (st.node n).listenersFor event = done ++ l :: rest ∧
    st₁.agenda = (l :: rest).map (fun l => .act n l.action) ++ st.agenda

/-- The action of a listener of `n` finds its view gone, or has nothing to write or to call. -/
def IsIdle (st : State) (n : NodeId) : Action → Prop
  | .call _ => True
  | .edit v key =>
    st.isViewAlive v = true → SameGraph st (st.writeView v key (.text (st.node n).value))
  | .invoke v name => st.isViewAlive v = true → ∀ c, st.method? v name ≠ .ok c

end State

/-- The transition neither writes data nor asks the host to run a method. -/
structure Transition.IsInert (t : Transition) : Prop where
  graph : SameGraph t.before t.after
  uncalled : ∀ c v, t.after.agenda.head? ≠ some (.call (.invoked c v))

section Acting

variable {st st' : State} {n : NodeId}

/-- Assigning a text stores it, if it is another value than the one that is there. -/
theorem graph_assign_text (st : State) (c : CellId) (text : String) :
    (st.assign c (.text text)).records = st.records ∧ (st.assign c (.text text)).cells =
      if st.differs c (.text text) then (st.store c (.text text)).cells else st.cells := by
  unfold assign
  split
  · have hnotify := onlySubscriptions_notify
      (((st.store c (.text text)).observeValue (.text text)).report (.changed (st.cells.get c).key))
      (st.cells.get c).channel
    exact ⟨hnotify.records, hnotify.cells⟩
  · exact ⟨rfl, rfl⟩

namespace State.SameGraph

/-- What becomes of the data when a text is written depends on the data only. -/
theorem assign (h : SameGraph st st') (c : CellId) (text : String) :
    SameGraph (st.assign c (.text text)) (st'.assign c (.text text)) := by
  obtain ⟨hrecords, hcells⟩ := graph_assign_text st c text
  obtain ⟨hrecords', hcells'⟩ := graph_assign_text st' c text
  refine ⟨by rw [hrecords, hrecords', h.records], ?_⟩
  rw [hcells, hcells', differs, store, h.cells, differs, store]

theorem writeField (h : SameGraph st st') (p : Slot) (text : String) :
    SameGraph (st.writeField p (.text text)) (st'.writeField p (.text text)) := by
  have hcell : st'.cell? p = st.cell? p := by rw [cell?, h.field?, cell?]
  unfold State.writeField
  rw [hcell]
  split
  · exact h.assign _ text
  · exact ⟨by rw [putField, putField, h.records], h.cells⟩

theorem writePath (h : SameGraph st st') (root : RecordId) (path text : String) :
    SameGraph (st.writePath root path (.text text)) (st'.writePath root path (.text text)) := by
  unfold State.writePath
  rw [h.field?]
  split
  · exact h.writeField _ text
  · split
    · exact h.writeField _ text
    · rw [h.read]
      split
      · exact h.writeField _ text
      · exact ⟨h.records, h.cells⟩

theorem writeView (h : SameGraph st st') {v : ViewId} (hview : (st'.view v).data = (st.view v).data)
    (key text : String) :
    SameGraph (st.writeView v key (.text text)) (st'.writeView v key (.text text)) := by
  unfold State.writeView State.readView
  rw [hview, h.read]
  split
  · exact h
  · exact h.writePath _ key text

end State.SameGraph

theorem act_edit_of_gone {v : ViewId} (key : String) (h : st.isViewAlive v = false) :
    st.act n (.edit v key) = st := by
  simp [act, h]

theorem act_invoke_of_gone {v : ViewId} (name : String) (h : st.isViewAlive v = false) :
    st.act n (.invoke v name) = st := by
  simp [act, h]

variable {t : Transition} {rest : List Task} {v : ViewId}

/-- A listener of a form field whose view is there is inert exactly if the write that it makes leaves
the data as it is. -/
theorem isInert_edit_iff {key : String} (halive : t.before.isViewAlive v = true)
    (hafter : t.after = ({ t.before with agenda := rest } : State).act n (.edit v key)) :
    t.IsInert ↔
      SameGraph t.before (t.before.writeView v key (.text (t.before.node n).value)) := by
  let held := (({ t.before with agenda := rest } : State).holdView v).push [.releaseView v]
  let written := t.before.writeView v key (.text (t.before.node n).value)
  have hwritten : t.after = held.writeView v key (.text (t.before.node n).value) := by
    rw [hafter, act]
    exact if_pos halive
  have hheld : SameGraph t.before held := ⟨rfl, rfl⟩
  have hdata : (held.view v).data = (t.before.view v).data := by
    have hview : held.view v = _ := view_modify { t.before with agenda := rest } v v _
    rw [hview]
    split
    · split
      · rfl
      · rfl
    · rfl
  have hgraph : SameGraph written t.after :=
    hwritten ▸ hheld.writeView hdata key (t.before.node n).value
  -- The updates that the write brings about come first, and then the view is let go of.
  have huncalled : ∀ c v, t.after.agenda.head? ≠ some (.call (.invoked c v)) := by
    intro c u hcalled
    obtain ⟨l, hl⟩ := writeView_agenda held v key (.text (t.before.node n).value)
    rw [hwritten, hl] at hcalled
    cases l with
    | nil => cases hcalled
    | cons s l => cases hcalled
  constructor
  · intro hinert
    exact ⟨hgraph.records.symm.trans hinert.graph.records,
      hgraph.cells.symm.trans hinert.graph.cells⟩
  · intro hsame
    exact ⟨hsame.trans hgraph, huncalled⟩

/-- A listener that calls a method of a view that is there is inert exactly if there is no such
method. -/
theorem isInert_invoke_iff {name : String} (halive : t.before.isViewAlive v = true)
    (hafter : t.after = ({ t.before with agenda := rest } : State).act n (.invoke v name))
    (hrest : ∀ c, rest.head? ≠ some (.call c)) :
    t.IsInert ↔ ∀ c, t.before.method? v name ≠ .ok c := by
  have hlive : ({ t.before with agenda := rest } : State).isViewAlive v = true := halive
  rw [act, hlive, if_pos rfl, callMethod] at hafter
  cases hmethod : t.before.method? v name with
  | ok c =>
      have hfound : ({ t.before with agenda := rest } : State).method? v name = .ok c := hmethod
      rw [hfound] at hafter
      constructor
      · exact fun hinert => absurd (by rw [hafter]; rfl) (hinert.uncalled c v)
      · exact fun hnothing => absurd rfl (hnothing c)
  | error fault =>
      have hmissing : ({ t.before with agenda := rest } : State).method? v name = .error fault :=
        hmethod
      rw [hmissing] at hafter
      have hinert : t.IsInert :=
        ⟨by rw [hafter]; exact ⟨rfl, rfl⟩, fun c v => by rw [hafter]; exact hrest _⟩
      exact ⟨fun _ c => by simp, fun _ => hinert⟩

/-- A listener that has its turn is inert exactly if its action is idle. -/
theorem isInert_iff {a : Action} (h : CallsFirst t.before.agenda) (hmove : t.move = .work)
    (hagenda : t.before.agenda = .act n a :: rest) : t.IsInert ↔ t.before.IsIdle n a := by
  have hafter : t.after = ({ t.before with agenda := rest } : State).act n a :=
    t.after_of_work hmove hagenda
  rw [hagenda] at h
  -- What is left to do when the action is done with does not begin with a call.
  have hrest : ∀ c, rest.head? ≠ some (.call c) := by
    intro c hc
    cases h _ (List.mem_of_mem_head? hc)
  have hidle : t.after = { t.before with agenda := rest } → t.IsInert := by
    intro hsame
    refine ⟨?_, fun c v => ?_⟩
    · rw [hsame]
      exact ⟨rfl, rfl⟩
    · rw [hsame]
      exact hrest _
  cases a with
  | call c =>
      refine ⟨fun _ => trivial, fun _ => ⟨hafter ▸ ⟨rfl, rfl⟩, fun c v => ?_⟩⟩
      rw [hafter]
      simp [act]
  | edit v key =>
      cases halive : t.before.isViewAlive v with
      | true =>
          rw [isInert_edit_iff halive hafter, IsIdle, halive]
          exact ⟨fun hsame _ => hsame, fun hsame => hsame rfl⟩
      | false =>
          refine ⟨fun _ halive' => Bool.noConfusion (halive.symm.trans halive'), fun _ => ?_⟩
          exact hidle (hafter.trans (act_edit_of_gone key halive))
  | invoke v name =>
      cases halive : t.before.isViewAlive v with
      | true =>
          rw [isInert_invoke_iff halive hafter hrest, IsIdle, halive]
          exact ⟨fun hnone _ => hnone, fun hnone => hnone rfl⟩
      | false =>
          refine ⟨fun _ halive' => Bool.noConfusion (halive.symm.trans halive'), fun _ => ?_⟩
          exact hidle (hafter.trans (act_invoke_of_gone name halive))

end Acting

/-! ## Teardown -/

/-- Dropping takes effect at once in what is played from `st` on: a watcher that nobody but the
agenda holds any more, and that the host does not use, does not react. -/
def DroppingTakesEffect (st : State) (ms : List Move) : Prop :=
  ∀ s, Forsaken st s → (∀ o, .operate o ∈ ms → s ∉ o.subscribers) →
    ∀ t ∈ played [] st ms, t.reacts s = false

/-- Detaching takes effect at once in a dispatch that is played from `st` on: a listener that was
taken off its node meanwhile writes no data and calls no method when the turn comes to it. -/
def DetachingTakesEffect (st : State) (ms : List Move) : Prop :=
  ∀ o rest n event, ms = .operate o :: rest → o.dispatches? = some (n, event) →
    ∀ t ∈ played [] (o.run st) rest, t.move = .work → ∀ l, st.IsTurnOf t.before n event l →
      l ∉ (t.before.node n).listeners → t.IsInert

/-- A watcher that has been dropped has no news when it is told. -/
def DroppedHasNoNews (st : State) (ms : List Move) : Prop :=
  ∀ s, Forsaken st s → (∀ o, .operate o ∈ ms → s ∉ o.subscribers) →
    ∀ t ∈ played [] st ms, t.tells s = true → t.before.news? s = none

/-- A listener that was taken off its node is idle when the turn comes to it. -/
def DetachedIsIdle (st : State) (ms : List Move) : Prop :=
  ∀ o rest n event, ms = .operate o :: rest → o.dispatches? = some (n, event) →
    ∀ t ∈ played [] (o.run st) rest, t.move = .work → ∀ l, st.IsTurnOf t.before n event l →
      l ∉ (t.before.node n).listeners → t.before.IsIdle n l.action

section Teardown

variable {st : State}

theorem callsFirst_of_played (h : CallsFirst st.agenda) (ms : List Move)
    (hplay : st.canPlay ms = true) : ∀ t ∈ played [] st ms, CallsFirst t.before.agenda := by
  induction ms generalizing st with
  | nil => nofun
  | cons m ms ih =>
      rw [State.canPlay, Bool.and_eq_true] at hplay
      intro t ht
      rw [played, played_eq_append, List.mem_append, List.mem_singleton] at ht
      rcases ht with ht | rfl
      · exact ih (Transition.callsFirst ⟨st, m⟩ h hplay.1) hplay.2 t ht
      · exact h

/-- In what is played from any state of a run on, the host being free to act then and in the end,
teardown takes effect at once exactly if what is torn down would have nothing to do anyhow. -/
theorem Run.takesEffect_iff {ts : List Transition} (h : Run ts st) (hturn : st.turn = .host)
    (ms : List Move) (hplay : st.canPlay ms = true) (hend : (st.play ms).turn = .host) :
    (DroppingTakesEffect st ms ∧ DetachingTakesEffect st ms) ↔
      DroppedHasNoNews st ms ∧ DetachedIsIdle st ms := by
  have hunasked : ∀ s, isAsking s st.agenda = false :=
    fun s => isAsking_of_none (isCall_of_turn_host h.callsFirst hturn)
  have hdropping : DroppingTakesEffect st ms ↔ DroppedHasNoNews st ms := by
    refine forall_congr' fun s => imp_congr_right fun _ => imp_congr_right fun _ => ?_
    have hreacts := reacts_iff_of_play (s := s) h.callsFirst ms hplay hend
    rw [hunasked s] at hreacts
    constructor
    · intro hsilent t ht htells
      refine Option.not_isSome_iff_eq_none.mp fun hnews => ?_
      obtain ⟨t', ht', hreact⟩ := hreacts.mpr (.inr ⟨t, ht, htells, hnews⟩)
      exact Bool.noConfusion ((hsilent t' ht').symm.trans hreact)
    · intro hnone t ht
      refine Bool.eq_false_iff.mpr fun hreact => ?_
      obtain hasking | ⟨t', ht', htells, hnews⟩ := hreacts.mp ⟨t, ht, hreact⟩
      · cases hasking
      · rw [hnone t' ht' htells] at hnews
        cases hnews
  have hdetaching : DetachingTakesEffect st ms ↔ DetachedIsIdle st ms := by
    refine forall₄_congr fun o rest n event => ?_
    refine forall₄_congr fun hms _ t ht => ?_
    refine forall₄_congr fun hmove l hits _ => ?_
    subst hms
    have hfirst : CallsFirst t.before.agenda := by
      refine callsFirst_of_played h.callsFirst (.operate o :: rest) hplay t ?_
      rw [played, played_eq_append]
      exact List.mem_append_left _ ht
    obtain ⟨done, behind, -, hagenda⟩ := hits
    exact isInert_iff hfirst hmove hagenda
  exact and_congr hdropping hdetaching

end Teardown

/-- Two watchers of one field are told of a write. In the callback of the first the host drops the
second, which has still to be told. -/
def droppedMeanwhile : List Move :=
  [.operate .newRecord, .operate (.writeField ⟨⟨0⟩, "a"⟩ (.text "1")),
    .operate (.observe (.record ⟨0⟩)), .operate (.watch ⟨0⟩ "a" ⟨0⟩), .operate (.watch ⟨0⟩ "a" ⟨1⟩),
    .operate (.writeField ⟨⟨0⟩, "a"⟩ (.text "2")), .work, .enter, .operate (.release ⟨1⟩)]

/-- The rest of the telling. -/
def toldAnyhow : List Move := [.finish, .work, .work, .work, .enter]

/-- A field that the host listens to and then a view is mounted on. -/
def heardBefore : List Move :=
  [.operate .newRecord, .operate (.writeField ⟨⟨0⟩, "a"⟩ (.text "1")),
    .operate (.newNode .element "form"), .operate (.newNode .element "input"),
    .operate (.setAttribute ⟨1⟩ "v-model" "a"), .operate (.appendChild ⟨0⟩ ⟨1⟩),
    .operate (.listen ⟨1⟩ "input" ⟨0⟩),
    .operate (.mount none { root? := some (.node ⟨0⟩), data := ⟨0⟩ })]

/-- When something is typed into the field, the host unmounts the view, whose listener has still to
be run. -/
def unmountedMeanwhile : List Move :=
  [.work, .enter, .operate (.unmount ⟨0⟩), .finish, .work, .work]

/-- Teardown takes effect at once in the telling of the two watchers exactly if what is torn down
has nothing to do. -/
theorem takesEffect_droppedMeanwhile :
    let st := ({} : State).play droppedMeanwhile
    (DroppingTakesEffect st toldAnyhow ∧ DetachingTakesEffect st toldAnyhow) ↔
      DroppedHasNoNews st toldAnyhow ∧ DetachedIsIdle st toldAnyhow :=
  Run.takesEffect_iff (Run.play .start droppedMeanwhile (by decide +kernel)) (by decide +kernel)
    toldAnyhow (by decide +kernel) (by decide +kernel)

/-- The watcher that was dropped reacts all the same, and the listener of the view that was
unmounted writes what was typed. So it is not so that dropping always takes effect at once, nor
that detaching does. -/
theorem not_always_takesEffect :
    (¬ ∀ ts st ms, Run ts st → st.turn = .host → st.canPlay ms = true →
        (st.play ms).turn = .host → DroppingTakesEffect st ms) ∧
      ¬ ∀ ts st ms, Run ts st → st.turn = .host → st.canPlay ms = true →
        (st.play ms).turn = .host → DetachingTakesEffect st ms := by
  constructor
  · intro h
    have hsilent := h _ _ toldAnyhow (Run.play .start droppedMeanwhile (by decide +kernel))
      (by decide +kernel) (by decide +kernel) (by decide +kernel) ⟨1⟩
      ⟨by decide +kernel, by decide +kernel⟩ (fun o ho => by simp [toldAnyhow] at ho) _
      (mem_played [] _ [.finish, .work, .work, .work] .enter [])
    revert hsilent
    decide +kernel
  · intro h
    let typing : Operation := .typeInto ⟨1⟩ "2"
    have hinert := h _ _ (.operate typing :: unmountedMeanwhile)
      (Run.play .start heardBefore (by decide +kernel)) (by decide +kernel) (by decide +kernel)
      (by decide +kernel) typing unmountedMeanwhile ⟨1⟩ "input" rfl rfl _
      (mem_played [] _ [.work, .enter, .operate (.unmount ⟨0⟩), .finish] .work [.work]) rfl
      ⟨"input", 1, .edit ⟨0⟩ "a"⟩
      ⟨[⟨"input", 0, .call ⟨0⟩⟩], [], by decide +kernel, by decide +kernel⟩ (by decide +kernel)
    have hvalue := congrArg (fun cells => (cells.get ⟨0⟩).value) hinert.graph.cells
    revert hvalue
    decide +kernel

end DataBinding
