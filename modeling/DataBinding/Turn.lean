import DataBinding.Agenda

set_option autoImplicit false

/-! # Turns

The library and the host take turns. While the first thing on the agenda is the library's, it
works through the agenda one task at a time (`step`), until it comes to something that is the
host's (`advance`). When that is a call, the host may run the code it is asked for: `enter`
marks the code as running, and `finish` ends it. The host is free to use any operation of the
library when it is not asked for anything; what such an operation puts on the agenda is done
before the host goes on.

The library's own work always comes to an end: a listener's action is replaced by tasks that
are no actions, and any other task by tasks of less weight in all (`perform_agenda`).
-/

namespace DataBinding

/-- Who acts next. -/
inductive Turn where
  /-- The library has work to do. -/
  | library
  /-- The host is asked to run code. -/
  | asked (c : Call)
  /-- The host is free to act. -/
  | host
  deriving DecidableEq, Repr

namespace Task

/-- Whether the task is a listener's action. -/
def isAct : Task → Bool
  | .act .. => true
  | _ => false

/-- More than the weight of all that the task puts on the agenda, unless it is an action. -/
def weight : Task → Nat
  | .update _ => 3
  | _ => 1

end Task

/-- How many listeners' actions are on an agenda. -/
def actions (agenda : List Task) : Nat := agenda.countP Task.isAct

/-- The weight of all tasks on an agenda. -/
def load : List Task → Nat
  | [] => 0
  | t :: rest => t.weight + load rest

theorem load_append (l rest : List Task) : load (l ++ rest) = load l + load rest := by
  induction l with
  | nil => simp [load]
  | cons t l ih => simp only [List.cons_append, load, ih, Nat.add_assoc]

namespace State

def turn (st : State) : Turn :=
  match st.agenda with
  | [] => .host
  | .running :: _ => .host
  | .call c :: _ => .asked c
  | _ => .library

/-- Runs the action of a listener on a node. The actions of a view do nothing when the view is
not alive; otherwise they hold it while they last. -/
def act (st : State) (n : NodeId) : Action → State
  | .call c => st.push [.call (.heard c)]
  | .edit v key =>
    if st.isViewAlive v then
      ((st.holdView v).push [.releaseView v]).writeView v key (.text (st.node n).value)
    else st
  | .invoke v name =>
    if st.isViewAlive v then
      match st.callMethod v name with
      | (.ok (), st) => st
      | (.error fault, st) => st.report (.clickFailed fault.message)
    else st

/-- Does one task of the library's. -/
def perform (st : State) : Task → State
  | .update s => st.update s
  | .remember s v => st.remember s v
  | .release s => st.release s
  | .act n a => st.act n a
  | .releaseView v => st.releaseView v
  | .call _ | .running => st

/-- Takes the first task off the agenda and does it. -/
def step (st : State) : State :=
  match st.agenda with
  | [] => st
  | task :: rest => { st with agenda := rest }.perform task

theorem step_eq {st : State} {t : Task} {rest : List Task} (h : st.agenda = t :: rest) :
    st.step = ({ st with agenda := rest } : State).perform t := by
  rw [step, h]

/-! ## The library's work ends -/

theorem actions_updates (l : List SubscriberId) : actions (updates l) = 0 := by
  induction l with
  | nil => rfl
  | cons s rest ih =>
    rw [actions, updates, List.flatMap_cons, List.countP_append]
    exact Nat.add_eq_zero_iff.mpr ⟨rfl, ih⟩

theorem act_agenda (st : State) (n : NodeId) (a : Action) :
    ∃ l, (st.act n a).agenda = l ++ st.agenda ∧ actions l = 0 := by
  cases a with
  | call c => exact ⟨_, rfl, rfl⟩
  | edit v key =>
    simp only [act]
    split
    · obtain ⟨l, hl⟩ := writeView_agenda ((st.holdView v).push [.releaseView v]) v key
        (.text (st.node n).value)
      refine ⟨updates l ++ [.releaseView v], by rw [hl]; simp, ?_⟩
      rw [actions, List.countP_append]
      exact Nat.add_eq_zero_iff.mpr ⟨actions_updates l, rfl⟩
    · exact ⟨[], rfl, rfl⟩
  | invoke v name =>
    simp only [act]
    split
    · unfold callMethod
      cases st.method? v name with
      | ok c => exact ⟨_, rfl, rfl⟩
      | error fault => exact ⟨[], rfl, rfl⟩
    · exact ⟨[], rfl, rfl⟩

/-- A task puts no action on the agenda, and unless it is an action itself, what it puts there
weighs less than the task. -/
theorem perform_agenda (st : State) (t : Task) :
    ∃ l, (st.perform t).agenda = l ++ st.agenda ∧ actions l = 0 ∧
      (t.isAct = false → load l < t.weight) := by
  cases t with
  | act n a =>
    obtain ⟨l, hl, ha⟩ := act_agenda st n a
    exact ⟨l, hl, ha, by simp [Task.isAct]⟩
  | update s =>
    rcases update_agenda st s with h | ⟨c, h⟩ | ⟨c, v, h⟩
    · exact ⟨[], h, rfl, fun _ => by simp [load, Task.weight]⟩
    · exact ⟨[.call c], h, rfl, fun _ => by simp [load, Task.weight]⟩
    · exact ⟨[.call c, .remember s v], h, rfl, fun _ => by simp [load, Task.weight]⟩
  | remember s v => exact ⟨[], rfl, rfl, fun _ => by simp [load, Task.weight]⟩
  | release s => exact ⟨[], agenda_release st s, rfl, fun _ => by simp [load, Task.weight]⟩
  | releaseView v => exact ⟨[], agenda_releaseView st v, rfl, fun _ => by simp [load, Task.weight]⟩
  | call c => exact ⟨[], rfl, rfl, fun _ => by simp [load, Task.weight]⟩
  | running => exact ⟨[], rfl, rfl, fun _ => by simp [load, Task.weight]⟩

theorem step_agenda {st : State} {t : Task} {rest : List Task} (h : st.agenda = t :: rest) :
    ∃ l, st.step.agenda = l ++ rest ∧ actions l = 0 ∧ (t.isAct = false → load l < t.weight) := by
  obtain ⟨l, hl, hrest⟩ := perform_agenda { st with agenda := rest } t
  exact ⟨l, (congrArg agenda (step_eq h)).trans hl, hrest⟩

/-- A step does away with an action, if it does one, and brings no new ones. -/
theorem actions_step {st : State} {t : Task} {rest : List Task} (h : st.agenda = t :: rest) :
    actions st.step.agenda = actions rest := by
  obtain ⟨l, hl, hl0, -⟩ := step_agenda h
  rw [hl, actions, List.countP_append]
  rw [actions] at hl0
  rw [hl0, Nat.zero_add, actions]

/-- A step that is no action makes the load lighter. -/
theorem load_step_lt {st : State} {t : Task} {rest : List Task} (h : st.agenda = t :: rest)
    (ht : t.isAct = false) : load st.step.agenda < load st.agenda := by
  obtain ⟨l, hl, -, hw⟩ := step_agenda h
  have := hw ht
  rw [hl, h]
  simp only [load, load_append] at *
  omega

/-- Works through the agenda up to a listener's action or to the host's turn. -/
def workOff (st : State) : State :=
  match _first : st.agenda with
  | [] => st
  | t :: _ => if t.isAct = false ∧ st.turn = .library then workOff st.step else st
termination_by load st.agenda
decreasing_by
  rename_i h
  exact load_step_lt _first h.1

/-- Works through the agenda until it is the host's turn, up to `n` listeners' actions. -/
def advanceBy : Nat → State → State
  | 0, st => st.workOff
  | n + 1, st =>
    let st := st.workOff
    if st.turn = .library then advanceBy n st.step else st

/-- Works through the agenda until it is the host's turn. -/
def advance (st : State) : State := advanceBy (actions st.agenda) st

theorem actions_workOff (st : State) : actions st.workOff.agenda = actions st.agenda := by
  induction st using workOff.induct with
  | case1 st h => rw [workOff]; split <;> simp_all
  | case2 st t rest hst h ih =>
    have : st.workOff = st.step.workOff := by rw [workOff]; split <;> simp_all
    rw [this, ih, actions_step hst, hst, actions, actions, List.countP_cons, h.1]
    simp
  | case3 st t rest hst h =>
    have : st.workOff = st := by rw [workOff]; split <;> simp_all
    rw [this]

/-- When the library has worked its tasks off, it is the host's turn or an action is next. -/
theorem workOff_turn (st : State) (h : st.workOff.turn = .library) :
    ∃ t rest, st.workOff.agenda = t :: rest ∧ t.isAct = true := by
  induction st using workOff.induct with
  | case1 st hst =>
    have : st.workOff = st := by rw [workOff]; split <;> simp_all
    rw [this] at h
    simp [turn, hst] at h
  | case2 st t rest hst ht ih =>
    have : st.workOff = st.step.workOff := by rw [workOff]; split <;> simp_all
    rw [this] at h ⊢
    exact ih h
  | case3 st t rest hst ht =>
    have : st.workOff = st := by rw [workOff]; split <;> simp_all
    rw [this] at h ⊢
    refine ⟨t, rest, hst, ?_⟩
    cases hb : t.isAct with
    | true => rfl
    | false => exact absurd ⟨hb, h⟩ ht

theorem turn_advanceBy (n : Nat) (st : State) (hn : actions st.agenda ≤ n) :
    (advanceBy n st).turn ≠ .library := by
  induction n generalizing st with
  | zero =>
    intro h
    obtain ⟨t, rest, ha, ht⟩ := workOff_turn st h
    have := actions_workOff st
    rw [ha, actions, List.countP_cons, ht] at this
    simp at this
    omega
  | succ n ih =>
    rw [advanceBy]
    split
    · rename_i h
      obtain ⟨t, rest, ha, ht⟩ := workOff_turn st h
      apply ih
      rw [actions_step ha]
      have := actions_workOff st
      rw [ha, actions, List.countP_cons, ht] at this
      simp only [if_true] at this
      rw [actions]
      omega
    · assumption

/-- After the library's work it is the host's turn. -/
theorem turn_advance (st : State) : st.advance.turn ≠ .library :=
  turn_advanceBy _ st (Nat.le_refl _)

/-! ## The host's code -/

/-- The host starts to run the code that it is asked for. -/
def enter (st : State) : State :=
  match st.agenda with
  | .call _ :: rest => { st with agenda := .running :: rest }
  | _ => st

/-- The code that the host runs returns. -/
def finish (st : State) : State :=
  match st.agenda with
  | .running :: rest => { st with agenda := rest }
  | _ => st

end State

end DataBinding
