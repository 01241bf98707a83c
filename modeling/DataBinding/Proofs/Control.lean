import DataBinding.Proofs.Display
import DataBinding.Proofs.Template.Valuing

set_option autoImplicit false

/-! # Form values at rest

A watcher that shows its value as a form value sets it when it keeps a new value. What is typed in
the meantime stands until the watcher keeps a value again (`Run.formValue`), and that it may not
do: when it is told of what was typed, somebody else who was told before may have written the older
value back, and then the watcher reads just what it has seen. The form value is *left behind* in
such a case. At rest it is the one that the data call for exactly if it was not left behind
(`Run.value_eq_iff`).
-/

namespace DataBinding

open State

/-! ## What happens to a form value -/

/-- What happens to the form value of a node that is left to a watcher and to typing. -/
inductive Entry where
  /-- A text was typed. -/
  | typed (text : String)
  /-- The watcher, when it was made or kept a new value, showed it. -/
  | shown (v : Value)
  deriving DecidableEq, Repr

/-- The value that the watcher showed last. -/
def lastShown : List Entry → Option Value
  | [] => none
  | .shown v :: _ => some v
  | .typed _ :: rest => lastShown rest

/-- The text that the form value is after all that happened, the newest first. -/
def formValue : List Entry → Option String
  | [] => none
  | .shown v :: _ => some v.display
  | .typed text :: _ => some text

/-- Whether the form value was left behind: the last that happened to it is that a text was typed,
and the watcher, which has kept no other value since, has seen one with another text. -/
def isLeftBehind : List Entry → Bool
  | .typed text :: rest => (lastShown rest).any fun v => v.display ≠ text
  | _ => false

/-- The value that a note tells of as kept. -/
def Note.kept? : Note → Option Value
  | .kept v => some v
  | .told _ => none

namespace Transition

/-- The text that is typed into the node, if the transition is such typing. -/
def typed? (t : Transition) (n : NodeId) : Option String :=
  match t.move with
  | .operate (.typeInto m text) => if m = n then some text else none
  | _ => none

/-- Whether the transition leaves the form value of the node to the watcher `s` and to typing. When
the watcher is made, no other one that is made with it shows its value there; from then on
nothing but the telling of the watcher and typing changes the form value. -/
def leavesValueTo (t : Transition) (s : SubscriberId) (n : NodeId) : Bool :=
  match t.before.watcher? s, t.after.watcher? s with
  | some _, _ =>
    t.tells s || (t.typed? n).isSome || (t.after.node n).value = (t.before.node n).value
  | none, some _ =>
    t.after.subscribers.ids.all fun s' =>
      s' = s || (t.before.watcher? s').isSome || !t.after.setsValueOf s' n
  | none, none => true

/-- What happens to the form value of the node, which is left to the watcher `s`. -/
def entries (s : SubscriberId) (n : NodeId) (t : Transition) : List Entry :=
  match t.before.watcher? s, t.after.watcher? s with
  | some _, _ =>
    match (t.notes s).findSome? Note.kept? with
    | some v => [.shown v]
    | none => (t.typed? n).toList.map .typed
  | none, some w => [.shown w.seen]
  | none, none => []

end Transition

/-- What happened to the form value in a run, the newest first. -/
def formHistory (s : SubscriberId) (n : NodeId) (ts : List Transition) : List Entry :=
  ts.flatMap (·.entries s n)

/-! ## Telling -/

section Telling

variable {st : State} {s : SubscriberId} {w w' : Watcher} {n : NodeId}

/-- A form value that is set is set to the text of the value that is kept. -/
theorem react_showValue (hw : st.watcher? s = some w) (hn : n.index < st.nodes.size) {v : Value}
    (hw' : (st.react s v (.showValue n)).watcher? s = some w') :
    w'.seen = v ∧ ((st.react s v (.showValue n)).node n).value = v.display := by
  simp only [react] at hw' ⊢
  split at hw'
  · rename_i hright
    rw [watcher?_remember, if_pos rfl, hw] at hw'
    cases hw'
    rw [if_pos hright]
    exact ⟨rfl, hright⟩
  · rename_i hwrong
    have hsame : (st.updateNode n (·.setValue v.display)).watcher? s = st.watcher? s := rfl
    rw [watcher?_remember, if_pos rfl, hsame, hw] at hw'
    cases hw'
    rw [if_neg hwrong]
    exact ⟨rfl, congrArg Node.value (node_updateNode_eq hn (·.setValue v.display))⟩

/-- A watcher that is told keeps nothing new and leaves the form value, or it sets the form value to
the new value that it keeps. -/
theorem update_showValue (hw : st.watcher? s = some w) (hreaction : w.reaction = .showValue n)
    (hn : n.index < st.nodes.size) (hw' : (st.update s).watcher? s = some w') :
    ((st.notesOfTelling s).findSome? Note.kept? = none ∧ w'.seen = w.seen ∧
        ((st.update s).node n).value = (st.node n).value) ∨
      ∃ v, (st.notesOfTelling s).findSome? Note.kept? = some v ∧ w'.seen = v ∧
        ((st.update s).node n).value = v.display := by
  let v := st.read w.root w.path
  have hnodes : (st.reread s w).nodes = st.nodes := (onlySubscriptions_reread st s w).nodes
  have hself := watcher?_reread_self (w := w) hw
  rw [update_eq hw] at hw' ⊢
  by_cases hdisposed : w.disposed = true
  · have hnotes : st.notesOfTelling s = [] := by simp [notesOfTelling, hw, hdisposed]
    rw [if_pos hdisposed] at hw' ⊢
    cases hw.symm.trans hw'
    rw [hnotes]
    exact .inl ⟨rfl, rfl, rfl⟩
  rw [if_neg hdisposed] at hw' ⊢
  by_cases hsame : v.same w.seen = true
  · have hnotes : st.notesOfTelling s = [.told v] := by
      simp [notesOfTelling, hw, hdisposed, hsame, v]
    rw [if_pos hsame] at hw' ⊢
    cases hself.symm.trans hw'
    rw [hnotes]
    exact .inl ⟨rfl, rfl, congrArg Node.value (node_congr hnodes n)⟩
  · have hnotes : st.notesOfTelling s = [.kept v, .told v] := by
      simp [notesOfTelling, hw, hdisposed, hsame, hreaction, v]
    rw [if_neg hsame, hreaction] at hw' ⊢
    rw [hnotes]
    refine .inr ⟨v, rfl, react_showValue hself ?_ hw'⟩
    rw [hnodes]
    exact hn

end Telling

/-! ## Accounts -/

/-- What the entries, the newest first, say about a form value and about what the watcher that it is
left to has seen. -/
structure Accounts (es : List Entry) (value : String) (seen : Value) : Prop where
  value : formValue es = some value
  seen : lastShown es = some seen

namespace Accounts

variable {es : List Entry} {value : String} {seen : Value}

theorem typed (h : Accounts es value seen) (text : String) :
    Accounts (.typed text :: es) text seen :=
  ⟨rfl, h.seen⟩

theorem shown (es : List Entry) (v : Value) : Accounts (.shown v :: es) v.display v := ⟨rfl, rfl⟩

/-- The form value is the text of the value seen unless it was left behind. -/
theorem eq_display_iff (h : Accounts es value seen) :
    value = seen.display ↔ isLeftBehind es = false := by
  obtain ⟨hvalue, hseen⟩ := h
  cases es with
  | nil => cases hvalue
  | cons entry rest =>
      cases entry with
      | shown v =>
          cases hvalue
          cases hseen
          exact iff_of_true rfl rfl
      | typed text =>
          cases hvalue
          have hseen' : lastShown rest = some seen := hseen
          rw [isLeftBehind, hseen', Option.any_some, decide_eq_false_iff_not, not_not]
          exact eq_comm

end Accounts

/-! ## Transitions -/

section Transitions

variable {t : Transition} {s : SubscriberId} {w w' : Watcher} {n : NodeId}

theorem Transition.notes_of_tells (h : t.tells s = true) :
    t.notes s = t.before.notesOfTelling s ∧ t.typed? n = none := by
  unfold tells at h
  split at h
  · rename_i s' rest hmove hagenda
    rw [notes, typed?, hmove, hagenda]
    exact ⟨if_pos (of_decide_eq_true h), rfl⟩
  · cases h

/-- A watcher that reacts without the host's help notes nothing but what it is told. -/
theorem Course.notes_eq_nil (h : Course t) (hst : Consistent t.before) (htells : t.tells s = false)
    (hw : t.before.watcher? s = some w) (hreacts : ∀ c, w.reaction ≠ .call c) :
    t.notes s = [] := by
  cases h with
  | told u rest hmove hagenda hafter =>
      rw [Transition.tells, hmove, hagenda] at htells
      rw [Transition.notes, hmove, hagenda]
      exact if_neg (of_decide_eq_false htells)
  | kept u v rest hmove hagenda hafter =>
      have hsu : u ≠ s := by
        rintro rfl
        obtain ⟨w', c, hw', hcall⟩ :=
          hst.scheduled.remember u v (by rw [hagenda]; exact List.mem_cons_self)
        cases hw.symm.trans hw'
        exact hreacts c hcall
      rw [Transition.notes, hmove, hagenda]
      exact if_neg hsu
  | changed hchanges hnotes => exact hnotes s

theorem Transition.value_of_typed {text : String} (h : t.typed? n = some text)
    (hn : n.index < t.before.nodes.size) : (t.after.node n).value = text := by
  unfold typed? at h
  split at h
  · rename_i m text' hmove
    split at h
    · rename_i hmn
      cases h
      rw [hmn] at hmove
      rw [after, hmove]
      exact congrArg Node.value (node_updateNode_eq hn (·.typeValue text))
    · cases h
  · cases h

/-- The account of a form value is carried on by a transition that leaves the form value to the
watcher and to typing. -/
theorem Course.accounts (h : Course t) (hst : Consistent t.before)
    (hn : n.index < t.before.nodes.size) (hw : t.before.watcher? s = some w)
    (hreaction : w.reaction = .showValue n) (halone : t.leavesValueTo s n = true)
    (hw' : t.after.watcher? s = some w') {es : List Entry}
    (hes : Accounts es (t.before.node n).value w.seen) :
    Accounts (t.entries s n ++ es) (t.after.node n).value w'.seen := by
  rw [Transition.entries, hw]
  simp only
  cases htells : t.tells s with
  | true =>
      obtain ⟨rest, -, hafter⟩ := Transition.after_of_tells htells
      obtain ⟨hnotes, htyped⟩ := Transition.notes_of_tells (n := n) htells
      let dropped : State := { t.before with agenda := rest }
      have hsame : dropped.notesOfTelling s = t.before.notesOfTelling s :=
        notesOfTelling_congr ⟨rfl, rfl⟩ rfl
      have hdropped : dropped.watcher? s = some w := hw
      have hcases := update_showValue hdropped hreaction hn (hafter ▸ hw')
      rw [hsame, ← hnotes, ← hafter] at hcases
      rcases hcases with ⟨hnone, hseen, hvalue⟩ | ⟨v, hkept, hseen, hvalue⟩
      · rw [hnone, htyped, hseen, hvalue]
        exact hes
      · rw [hkept, hseen, hvalue]
        exact .shown es v
  | false =>
      -- Beside its telling the watcher keeps what it has seen, and only typing sets the form value.
      have hreacts : ∀ c, w.reaction ≠ .call c := by
        intro c hcall
        cases hreaction.symm.trans hcall
      obtain ⟨u, hu, hseen⟩ := h.seen hst htells hw hreacts
      cases hw'.symm.trans hu
      rw [h.notes_eq_nil hst htells hw hreacts, hseen]
      rw [Transition.leavesValueTo, hw] at halone
      cases htyped : t.typed? n with
      | some text =>
          rw [Transition.value_of_typed htyped hn]
          exact hes.typed text
      | none =>
          simp only [htells, htyped, Option.isSome_none, Bool.false_or, decide_eq_true_eq] at halone
          rw [halone]
          exact hes

/-- The account of a form value begins when the watcher is made, if no other one that is made with
it sets the same form value. -/
theorem Course.accounts_made (h : Course t) (hnone : t.before.watcher? s = none)
    (hw : t.after.watcher? s = some w) (hreaction : w.reaction = .showValue n)
    (halone : t.leavesValueTo s n = true) (es : List Entry) :
    n.index < t.after.nodes.size ∧
      Accounts (t.entries s n ++ es) (t.after.node n).value w.seen := by
  obtain ⟨hnew, hcompiling⟩ := h.makes hnone hw
  have hbound : t.isCompiling = true := by
    rcases hcompiling with hbound | ⟨c, hcall⟩
    · exact hbound
    · cases hreaction.symm.trans hcall
  have hvaluing : Valuing t.before.subscribers.size t.after := by
    unfold Transition.isCompiling at hbound
    unfold Transition.after
    cases hmove : t.move with
    | operate o =>
        rw [hmove] at hbound
        exact valuing_run hbound (Nat.le_refl _) (valuing_self _)
    | work | enter | finish =>
        rw [hmove] at hbound
        cases hbound
  obtain ⟨hn, hshown | ⟨s', hne, hnew', hsets⟩⟩ := hvaluing s w n hnew hw hreaction
  · refine ⟨hn, ?_⟩
    rw [Transition.entries, hnone, hw, hshown]
    exact .shown es w.seen
  · -- Another new watcher sets the form value, which was ruled out.
    rw [Transition.leavesValueTo, hnone, hw, List.all_eq_true] at halone
    obtain ⟨u, hu, -⟩ := setsValueOf_iff.mp hsets
    have hother := halone s' ((Table.mem_ids_iff _ s').mpr (lt_size_of_watcher? hu))
    have hnone' : t.before.watcher? s' = none := watcher?_eq_none hnew'
    simp [hne, hnone', hsets] at hother

end Transitions

/-! ## Runs -/

section Runs

variable {ts : List Transition} {st : State} {s : SubscriberId} {w : Watcher} {n : NodeId}

/-- A form value that is left to a watcher and to typing is always the text that was typed last, or
that of the value that the watcher has shown since. -/
theorem Run.accounts (h : Run ts st) (tame : ∀ t ∈ ts, t.isTame = true)
    (alone : ∀ t ∈ ts, t.leavesValueTo s n = true) (hw : st.watcher? s = some w)
    (hreaction : w.reaction = .showValue n) : n.index < st.nodes.size ∧
      Accounts (formHistory s n ts) (st.node n).value w.seen := by
  -- What the watcher has seen changes in the course of the run.
  have haccounts : ∀ w, st.watcher? s = some w → w.reaction = .showValue n →
      n.index < st.nodes.size ∧ Accounts (formHistory s n ts) (st.node n).value w.seen := by
    revert alone
    refine h.tameInduction tame ?_ ?_
    · intro _ w hw
      cases hw
    · intro ts st m _ _ hst _ hcourse ih alone w hw hreaction
      have halone := alone _ List.mem_cons_self
      have hhistory : formHistory s n (⟨st, m⟩ :: ts) =
          Transition.entries s n ⟨st, m⟩ ++ formHistory s n ts := List.flatMap_cons
      rw [hhistory]
      cases hbefore : st.watcher? s with
      | none => exact hcourse.accounts_made hbefore hw hreaction halone _
      | some u =>
          obtain ⟨u', hu', hsame⟩ := hcourse.reaction hbefore
          cases hw.symm.trans hu'
          have hreaction₀ := hsame.symm.trans hreaction
          obtain ⟨hn, hes⟩ :=
            ih (fun t ht => alone t (List.mem_cons_of_mem _ ht)) u hbefore hreaction₀
          refine ⟨Nat.lt_of_lt_of_le hn hcourse.keepsKinds.size, ?_⟩
          exact hcourse.accounts hst hn hbefore hreaction₀ halone hw hes
  exact haccounts w hw hreaction

/-- At rest, a watcher of a view's binding has seen the value that its path leads to on the view's
data. -/
theorem Run.display_seen (h : Run ts st) (tame : ∀ t ∈ ts, t.isTame = true)
    (rest : st.agenda = []) {v : ViewId} {b : Binding} (bound : b ∈ (st.view v).bindings)
    (hs : s ∈ b.watchers) (hw : st.watcher? s = some w) (hreacts : ∀ c, w.reaction ≠ .call c) :
    w.seen.display = (st.readView v w.path).display := by
  have hbound : st.isBoundBy v s = true := isBoundBy_iff.mpr ⟨b, bound, hs⟩
  obtain ⟨-, ho⟩ := h.consistent tame
  have halive : st.isAlive s = true := by
    rw [isAlive_iff, ho.holders v s hbound]
    omega
  obtain ⟨u, hu, hlive, hroot⟩ := ho.watcher v s hbound
  cases hw.symm.trans hu
  have htracked := h.tracked tame (h.startsObserved tame (isBound_iff.mpr ⟨v, hbound⟩))
  have hsame : w.seen.same (st.read w.root w.path) = true :=
    (htracked.current_iff rest hw halive hlive).mpr (htracked.keeping.settled w hw hreacts)
  rw [Value.display_eq_of_same hsame, readView, hroot]

/-- At rest, a form value that is left to a binding of a view and to typing is the text of the value
that the binding's path leads to on the view's data, unless it was left behind; then it is not. -/
theorem Run.formValue_eq_iff (h : Run ts st) (tame : ∀ t ∈ ts, t.isTame = true)
    (rest : st.agenda = []) {v : ViewId} {b : Binding} (bound : b ∈ (st.view v).bindings)
    (hs : s ∈ b.watchers) (hw : st.watcher? s = some w) (hreaction : w.reaction = .showValue n)
    (alone : ∀ t ∈ ts, t.leavesValueTo s n = true) :
    (st.node n).value = (st.readView v w.path).display ↔
      isLeftBehind (formHistory s n ts) = false := by
  have hreacts : ∀ c, w.reaction ≠ .call c := by
    intro c hcall
    cases hreaction.symm.trans hcall
  obtain ⟨-, hes⟩ := h.accounts tame alone hw hreaction
  rw [← h.display_seen tame rest bound hs hw hreacts]
  exact hes.eq_display_iff

end Runs

/-- A field `a` and a form field that is bound to it. -/
def bindField : List Move :=
  [.operate .newRecord, .operate (.writeField ⟨⟨0⟩, "a"⟩ (.text "1")),
    .operate (.newNode .element "form"), .operate (.newNode .element "input"),
    .operate (.setAttribute ⟨1⟩ "v-model" "a"), .operate (.appendChild ⟨0⟩ ⟨1⟩),
    .operate (.mount none { root? := some (.node ⟨0⟩), data := ⟨0⟩ })]

/-- Somebody types into the field, and the library does what follows. -/
def retyped : List Move :=
  bindField ++ [.operate (.typeInto ⟨1⟩ "2"), .work, .work, .work, .work]

/-- What was typed is the value of `a`. -/
theorem formValue_retyped :
    ((({} : State).play retyped).node ⟨1⟩).value =
        ((({} : State).play retyped).readView ⟨0⟩ "a").display ↔
      isLeftBehind (formHistory ⟨0⟩ ⟨1⟩ (played [] {} retyped)) = false :=
  Run.formValue_eq_iff (Run.play .start retyped (by decide +kernel)) (by decide +kernel)
    (by decide +kernel) (b := { watchers := [⟨0⟩], listeners := [⟨⟨1⟩, "input", 0⟩] })
    (by decide +kernel) List.mem_cons_self
    (w := { root := ⟨0⟩, path := "a", reaction := .showValue ⟨1⟩, seen := .text "2",
            sources := [⟨0⟩] })
    (by decide +kernel) rfl (by decide +kernel)

/-- The same, but that the host has a watcher of `a`, made before the view was mounted, and writes
the old value back when it is handed the new one. -/
def writtenBack : List Move :=
  [.operate .newRecord, .operate (.writeField ⟨⟨0⟩, "a"⟩ (.text "1")),
    .operate (.observe (.record ⟨0⟩)), .operate (.watch ⟨0⟩ "a" ⟨0⟩),
    .operate (.newNode .element "form"), .operate (.newNode .element "input"),
    .operate (.setAttribute ⟨1⟩ "v-model" "a"), .operate (.appendChild ⟨0⟩ ⟨1⟩),
    .operate (.mount none { root? := some (.node ⟨0⟩), data := ⟨0⟩ }),
    .operate (.typeInto ⟨1⟩ "2"), .work, .work, .enter,
    .operate (.writeField ⟨⟨0⟩, "a"⟩ (.text "1")), .work, .work, .work, .work, .finish,
    .work, .work, .work, .work, .work]

/-- The form value is left behind: it is `2`, and the value of `a` is `1`. So it is not so that form
values are always the ones that the data call for at rest. -/
theorem not_always_formValue_eq :
    ¬ ∀ (ts : List Transition) (st : State) (v : ViewId) (b : Binding) (s : SubscriberId)
      (w : Watcher) (n : NodeId), Run ts st → (∀ t ∈ ts, t.isTame = true) → st.agenda = [] →
      b ∈ (st.view v).bindings → s ∈ b.watchers → st.watcher? s = some w →
      w.reaction = .showValue n → ((st.trail w.root w.path).target?.bind st.cell?).isSome →
      (∀ t ∈ ts, t.leavesValueTo s n = true) →
      (st.node n).value = (st.readView v w.path).display := by
  intro h
  have hvalue := h (played [] {} writtenBack) (({} : State).play writtenBack) ⟨0⟩
    { watchers := [⟨1⟩], listeners := [⟨⟨1⟩, "input", 0⟩] } ⟨1⟩
    { root := ⟨0⟩, path := "a", reaction := .showValue ⟨1⟩, seen := .text "1", sources := [⟨0⟩] }
    ⟨1⟩ (Run.play .start writtenBack (by decide +kernel)) (by decide +kernel) (by decide +kernel)
    (by decide +kernel) List.mem_cons_self (by decide +kernel) rfl (by decide +kernel)
    (by decide +kernel)
  have hnot : ((({} : State).play writtenBack).node ⟨1⟩).value ≠
      ((({} : State).play writtenBack).readView ⟨0⟩ "a").display := by decide +kernel
  exact hnot hvalue

end DataBinding
