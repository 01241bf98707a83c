import DataBinding.Proofs.Template.Attachment
import DataBinding.Proofs.Waiting

set_option autoImplicit false

/-! # Listeners are addressed by number

Listeners of several views and of the host share the table of a node, and are removed in any order,
also while the listeners of the node run. That a number leads to the right one of them rests on two
facts: the numbers in a table are ascending (`Run.listeners_ordered`), and a number that was given
out never comes to belong to another listener (`Ages`). So to remove a listener removes one entry at
most (`removes_removeListener`), and it is the one that the number was given out for.

To dispatch an event runs the listeners that there are for it, in order and each once, whatever
these do to the table (`dispatches`).
-/

namespace DataBinding

open State

/-! ## One table -/

/-- What becomes of a node from which a listener is removed: the one entry of this event and number
is gone, or there is none and nothing has changed. -/
inductive Node.Removes (b : Node) (event : String) (number : Nat) : Node → Prop where
  | found (before : List Listener) (l : Listener) (behind : List Listener)
      (hlisteners : b.listeners = before ++ l :: behind) (hevent : l.event = event)
      (hnumber : l.number = number) :
      Removes b event number { b with listeners := before ++ behind }
  | missing (hnone : ∀ l ∈ b.listeners, l.event = event → l.number ≠ number) :
      Removes b event number b

theorem Node.IsOrdered.removes_removeListener {b : Node} (h : b.IsOrdered) (event : String)
    (number : Nat) : b.Removes event number (b.removeListener event number) := by
  by_cases hfound : ∃ l ∈ b.listeners, l.event = event ∧ l.number = number
  · obtain ⟨l, hl, hevent, hnumber⟩ := hfound
    obtain ⟨before, behind, hlisteners⟩ := List.append_of_mem hl
    have hascending := h.ascending
    rw [hlisteners, List.pairwise_append, List.pairwise_cons] at hascending
    obtain ⟨-, ⟨hlarger, -⟩, hsmaller⟩ := hascending
    -- The numbers before and behind the listener are others, so only the listener goes.
    have hbefore : before.filter (fun l => !(l.event = event && l.number = number)) = before := by
      refine List.filter_eq_self.mpr fun l' hl' => ?_
      have hlt := hsmaller l' hl' l List.mem_cons_self
      simp [show l'.number ≠ number by omega]
    have hbehind : behind.filter (fun l => !(l.event = event && l.number = number)) = behind := by
      refine List.filter_eq_self.mpr fun l' hl' => ?_
      have hlt := hlarger l' hl'
      simp [show l'.number ≠ number by omega]
    have hremoved : b.removeListener event number = { b with listeners := before ++ behind } := by
      rw [removeListener, hlisteners, List.filter_append, List.filter_cons, hbefore, hbehind]
      simp [hevent, hnumber]
    rw [hremoved]
    exact .found before l behind hlisteners hevent hnumber
  · have hnone : ∀ l ∈ b.listeners, l.event = event → l.number ≠ number :=
      fun l hl hevent hnumber => hfound ⟨l, hl, hevent, hnumber⟩
    have hkept : b.removeListener event number = b := by
      have hall : b.listeners.filter (fun l => !(l.event = event && l.number = number)) =
          b.listeners := by
        refine List.filter_eq_self.mpr fun l hl => ?_
        simpa [imp_iff_not_or] using hnone l hl
      rw [removeListener, hall]
    rw [hkept]
    exact .missing hnone

/-! ## Tables along a run -/

section Run

variable {ts : List Transition} {st : State} {t : Transition} (h : Run ts st) (ht : t ∈ ts)

include h ht

/-- Every state that a run comes to is that of a run. -/
theorem Run.earlier : ∃ ts', Run ts' t.after := by
  induction h with
  | start => cases ht
  | move m h possible ih =>
      rcases List.mem_cons.mp ht with rfl | ht
      · exact ⟨_, h.move m possible⟩
      · exact ih ht

theorem Run.ages : Ages t.after st := by
  induction h with
  | start => cases ht
  | @move ts st m _ _ ih =>
      rcases List.mem_cons.mp ht with rfl | ht
      · exact .of_nodes rfl
      · exact (ih ht).trans (Transition.ages ⟨st, m⟩)

/-- The next number of a node is larger than those of all listeners that it ever had. -/
theorem Run.number_lt_next (n : NodeId) {l : Listener} (hl : l ∈ (t.after.node n).listeners) :
    l.number < (st.node n).nextListener := by
  obtain ⟨ts', hearlier⟩ := h.earlier ht
  exact Nat.lt_of_lt_of_le ((hearlier.listeners_ordered n).given l hl) (h.ages ht n).next

/-- A number that was given out belongs to the listener that it belonged to then, or to none. -/
theorem Run.mem_listeners_of_given (n : NodeId) {l : Listener} (hl : l ∈ (st.node n).listeners)
    (hgiven : l.number < (t.after.node n).nextListener) : l ∈ (t.after.node n).listeners :=
  ((h.ages ht n).listener l hl).resolve_right fun hnew => by omega

end Run

/-! ## Dispatching -/

/-- The tasks of running the listeners that a node has for an event. -/
def State.listenerTasks (st : State) (n : NodeId) (event : String) : List Task :=
  ((st.node n).listenersFor event).map fun l => .act n l.action

/-- To dispatch the event runs the listeners that the node has for it. -/
structure State.Dispatches (st : State) (n : NodeId) (event : String) : Prop where
  /-- They run in order, each once, whatever they do. -/
  inOrder : ∀ ms, (st.dispatch n event).canPlay ms = true →
    (st.dispatch n event).doneAbove st.agenda.length ms <+: st.listenerTasks n event
  /-- When nothing is left to do but what there was before, all of them have run, and they are as
  many as the answer says. -/
  all : ∀ ms, (st.dispatch n event).canPlay ms = true →
    ((st.dispatch n event).play ms).agenda.length ≤ st.agenda.length →
    (st.dispatch n event).doneAbove st.agenda.length ms = st.listenerTasks n event ∧
      ((st.dispatch n event).doneAbove st.agenda.length ms).length = st.listenerCount n event
  /-- It can always go on until all of them have run. -/
  goesOn : ∀ ms, (st.dispatch n event).canPlay ms = true →
    ∃ ms', (st.dispatch n event).canPlay (ms ++ ms') = true ∧
      (st.dispatch n event).doneAbove st.agenda.length (ms ++ ms') = st.listenerTasks n event

theorem isWork_listenerTasks (st : State) (n : NodeId) (event : String) :
    ∀ task ∈ st.listenerTasks n event, task.isWork = true := by
  intro task htask
  obtain ⟨l, -, rfl⟩ := List.mem_map.mp htask
  rfl

theorem length_listenerTasks (st : State) (n : NodeId) (event : String) :
    (st.listenerTasks n event).length = st.listenerCount n event :=
  List.length_map _

theorem dispatches (st : State) (n : NodeId) (event : String) : st.Dispatches n event := by
  have htasks := isWork_listenerTasks st n event
  have hagenda : (st.dispatch n event).agenda = st.listenerTasks n event ++ st.agenda := rfl
  constructor
  case inOrder => exact fun ms possible => isPrefix_doneAbove htasks hagenda possible
  case all =>
    intro ms possible hends
    have hdone := doneAbove_eq htasks hagenda possible hends
    exact ⟨hdone, by rw [hdone, length_listenerTasks]⟩
  case goesOn => exact fun ms possible => exists_doneAbove_eq htasks hagenda possible

/-! ## The table of a node -/

/-- How a node's listeners are addressed after the transitions `ts`, in the state `st`. -/
structure AddressesListeners (ts : List Transition) (st : State) (n : NodeId) : Prop where
  ordered : (st.node n).IsOrdered
  /-- A number that was given out belongs to the listener that it belonged to then, or to none. -/
  lasting : ∀ t ∈ ts, ∀ l ∈ (st.node n).listeners,
    l.number < (t.after.node n).nextListener → l ∈ (t.after.node n).listeners
  /-- A listener that is added gets a number that none ever had, and comes behind the others. -/
  listen : ∀ event a, n.index < st.nodes.size →
    (st.listen n event a).1 = ⟨n, event, (st.node n).nextListener⟩ ∧
    ((st.listen n event a).2.node n).listeners =
      (st.node n).listeners ++ [⟨event, (st.node n).nextListener, a⟩] ∧
    ∀ t ∈ ts, ∀ l ∈ (t.after.node n).listeners, l.number < (st.node n).nextListener
  /-- To remove a listener removes that one, if it is there, and nothing else. -/
  unlisten : ∀ event number,
    (st.node n).Removes event number ((st.unlisten ⟨n, event, number⟩).node n) ∧
    ∀ m, m ≠ n → (st.unlisten ⟨n, event, number⟩).node m = st.node m
  dispatch : ∀ event, st.Dispatches n event

/-- In every state of a run, and so also while listeners run, the listeners of a node are addressed
by their numbers. -/
theorem Run.addressesListeners {ts : List Transition} {st : State} (h : Run ts st) (n : NodeId) :
    AddressesListeners ts st n := by
  have hordered := h.listeners_ordered n
  constructor
  case ordered => exact hordered
  case lasting => exact fun t ht l hl => h.mem_listeners_of_given ht n hl
  case listen =>
    intro event a hn
    refine ⟨rfl, ?_, fun t ht l hl => h.number_lt_next ht n hl⟩
    exact congrArg Node.listeners (node_updateNode_eq hn _)
  case unlisten =>
    intro event number
    refine ⟨?_, fun m hm => node_updateNode_ne (Ne.symm hm) _⟩
    rw [unlisten, node_updateNode]
    split
    · exact hordered.removes_removeListener event number
    · -- There is no such node, and so it has no listeners.
      rename_i hunknown
      refine .missing fun l hl => ?_
      rw [node_eq_default (Nat.not_lt.mp fun hn => hunknown ⟨rfl, hn⟩)] at hl
      cases hl
  case dispatch => exact fun event => dispatches st n event

/-- A button with two listeners for a click and one for an input. That the latter is to be removed
as one for a click does nothing. -/
def buttonHeard : List Move :=
  [.operate (.newNode .element "button"), .operate (.listen ⟨0⟩ "click" ⟨0⟩),
    .operate (.listen ⟨0⟩ "click" ⟨1⟩), .operate (.listen ⟨0⟩ "input" ⟨2⟩),
    .operate (.unlisten ⟨⟨0⟩, "click", 2⟩)]

/-- The first listener for the click removes the second one and adds another. -/
def removedMeanwhile : List Move :=
  [.work, .enter, .operate (.unlisten ⟨⟨0⟩, "click", 1⟩), .operate (.listen ⟨0⟩ "click" ⟨3⟩),
    .finish, .work, .enter, .finish]

/-- The second listener runs all the same and the new one does not; its number is a new one. -/
theorem addressesListeners_removedMeanwhile :
    let st := ({} : State).play buttonHeard
    let clicked := buttonHeard ++ .operate (.dispatch ⟨0⟩ "click") :: removedMeanwhile
    AddressesListeners (played [] {} clicked) (({} : State).play clicked) ⟨0⟩ ∧
      st.listenerCount ⟨0⟩ "click" = 2 ∧
      (st.dispatch ⟨0⟩ "click").doneAbove 0 removedMeanwhile =
        [.act ⟨0⟩ (.call ⟨0⟩), .act ⟨0⟩ (.call ⟨1⟩)] ∧
      ((({} : State).play clicked).node ⟨0⟩).listeners =
        [⟨"click", 0, .call ⟨0⟩⟩, ⟨"input", 2, .call ⟨2⟩⟩, ⟨"click", 3, .call ⟨3⟩⟩] := by
  intro st clicked
  have hrun : Run (played [] {} clicked) (({} : State).play clicked) :=
    Run.play .start clicked (by decide +kernel)
  exact ⟨Run.addressesListeners hrun ⟨0⟩, by decide +kernel, by decide +kernel, by decide +kernel⟩

end DataBinding
