import DataBinding.Proofs.Calling

set_option autoImplicit false

/-! # Tasks that wait

When the library sets out to do several things, their tasks wait on the agenda and are done one
after the other. Whatever one of them sets off is done first, on top of the others, and so is
whatever the host does when it is called. Still the tasks are done in their order, each once
(`doneOf_append`), and it can always go on until all of them have been done
(`exists_doneAbove_eq`).

Which tasks those are is told by their height. They fill the agenda up to some height, above the
floor of what was to be done before. Each time one of them is done, the height that is left goes
down; a task at a greater height was put on the agenda later.
-/

namespace DataBinding

open State

/-- Whether the task is the library's own to do, and no matter of the host's. -/
def Task.isWork : Task → Bool
  | .call _ | .running => false
  | _ => true

/-- Whether the library does one of some tasks in the transition: those that lie above the floor and
not above the height that is left of them. -/
def Transition.doesOf (t : Transition) (floor left : Nat) : Bool :=
  match t.move with
  | .work => floor < t.before.agenda.length && t.before.agenda.length ≤ left
  | _ => false

/-- The tasks between the floor and the height `left` that are done while the moves are made, in the
order in which they are done. What is put on top of them meanwhile does not count. -/
def State.doneOf (floor : Nat) : Nat → State → List Move → List Task
  | _, _, [] => []
  | left, st, m :: ms =>
    if (Transition.mk st m).doesOf floor left then
      st.agenda.head?.toList ++ doneOf floor (st.agenda.length - 1) (m.run st) ms
    else doneOf floor left (m.run st) ms

/-- The tasks above the floor, as they are now, that are done while the moves are made. -/
def State.doneAbove (st : State) (floor : Nat) (ms : List Move) : List Task :=
  st.doneOf floor st.agenda.length ms

/-- Some tasks wait on the agenda: those of `base` lie below them, and on top of them lies what was
put there later. -/
def State.Waits (tasks base : List Task) (st : State) : Prop :=
  ∃ top, st.agenda = top ++ (tasks ++ base)

section Tasks

variable {st : State} {m : Move} {ms : List Move} {t : Task} {tasks base rest : List Task}

theorem Transition.doesOf_iff {t : Transition} {floor left : Nat} :
    t.doesOf floor left = true ↔
      t.move = .work ∧ floor < t.before.agenda.length ∧ t.before.agenda.length ≤ left := by
  unfold doesOf
  split
  · rename_i hmove
    simp [hmove]
  · rename_i hmove
    simpa using fun h => absurd h hmove

/-- A move takes at most the first task off the agenda. -/
theorem agenda_run (m : Move) (h : st.agenda = t :: rest) : ∃ l, (m.run st).agenda = l ++ rest := by
  cases m with
  | work =>
      obtain ⟨l, hl, -⟩ := step_agenda h
      exact ⟨l, hl⟩
  | enter =>
      show ∃ l, st.enter.agenda = l ++ rest
      unfold enter
      split
      · rename_i c rest' hagenda
        obtain ⟨-, rfl⟩ := List.cons.inj (h.symm.trans hagenda)
        exact ⟨[.running], rfl⟩
      · exact ⟨[t], h⟩
  | finish =>
      show ∃ l, st.finish.agenda = l ++ rest
      unfold finish
      split
      · rename_i rest' hagenda
        obtain ⟨-, rfl⟩ := List.cons.inj (h.symm.trans hagenda)
        exact ⟨[], rfl⟩
      · exact ⟨[t], h⟩
  | operate o =>
      obtain ⟨l, hl, -⟩ : Puts st (o.run st) := o.puts
      refine ⟨l ++ [t], ?_⟩
      rw [Move.run, hl, h, List.append_assoc]
      rfl

/-- While it is the library's turn, the host can only let go of things. -/
theorem agenda_run_of_isWork (possible : m.isPossible st = true) (h : st.agenda = t :: rest)
    (ht : t.isWork = true) :
    m = .work ∨ ∃ o, m = .operate o ∧ (m.run st).agenda = st.agenda := by
  have hturn : st.turn = .library := by
    rw [turn, h]
    cases t with
    | update _ | remember _ _ | release _ | act _ _ | releaseView _ => rfl
    | call _ | running => cases ht
  cases m with
  | work => exact .inl rfl
  | enter => simp [Move.isPossible, hturn] at possible
  | finish =>
      simp only [Move.isPossible, h, List.head?_cons, decide_eq_true_eq, Option.some.injEq]
        at possible
      subst possible
      cases ht
  | operate o =>
      simp only [Move.isPossible, hturn, Bool.and_eq_true, Bool.or_eq_true, reduceCtorEq,
        decide_false, Bool.false_eq_true, false_or] at possible
      exact .inr ⟨o, rfl, agenda_of_isLettingGo possible.1⟩

/-! ## What is done of them -/

theorem doneOf_of_le (floor left : Nat) (h : left ≤ floor) (st : State) (ms : List Move) :
    doneOf floor left st ms = [] := by
  induction ms generalizing st with
  | nil => rfl
  | cons m ms ih =>
      have hnot : (Transition.mk st m).doesOf floor left = false := by
        rw [Bool.eq_false_iff]
        intro hdoes
        have hheight := (Transition.doesOf_iff.mp hdoes).2
        omega
      rw [doneOf, hnot]
      exact ih (m.run st)

/-- The first of the waiting tasks is done, or all of them go on waiting. -/
theorem State.Waits.step (h : Waits (t :: tasks) base st) (ht : t.isWork = true)
    (possible : m.isPossible st = true) :
    let does := (Transition.mk st m).doesOf base.length ((t :: tasks).length + base.length)
    (does = true ∧ st.agenda = t :: (tasks ++ base) ∧ Waits tasks base (m.run st)) ∨
      (does = false ∧ Waits (t :: tasks) base (m.run st)) := by
  obtain ⟨top, hagenda⟩ := h
  cases top with
  | nil =>
      have hfirst : st.agenda = t :: (tasks ++ base) := hagenda
      rcases agenda_run_of_isWork possible hfirst ht with rfl | ⟨o, rfl, hsame⟩
      · -- The library does the first of them.
        refine .inl ⟨?_, hfirst, agenda_run .work hfirst⟩
        simp only [Transition.doesOf_iff, hfirst, List.length_cons, List.length_append, true_and]
        omega
      · exact .inr ⟨rfl, [], hsame.trans hfirst⟩
  | cons t' top =>
      -- Something else was put in front of them, and it is dealt with first.
      obtain ⟨l, hl⟩ := agenda_run m hagenda
      refine .inr ⟨?_, l ++ top, hl.trans (List.append_assoc ..).symm⟩
      rw [Bool.eq_false_iff]
      intro hdoes
      have hheight := (Transition.doesOf_iff.mp hdoes).2.2
      simp only [hagenda, List.length_cons, List.length_append] at hheight
      omega

/-- In any play, the waiting tasks are done in their order, each once, and those that are not done
yet still wait. -/
theorem doneOf_append (htasks : ∀ t ∈ tasks, t.isWork = true) (h : Waits tasks base st)
    (possible : st.canPlay ms = true) :
    ∃ rest, tasks = doneOf base.length (tasks.length + base.length) st ms ++ rest ∧
      (rest = [] ∨ Waits rest base (st.play ms)) := by
  induction ms generalizing st tasks with
  | nil => exact ⟨tasks, rfl, .inr h⟩
  | cons m ms ih =>
      rw [State.canPlay, Bool.and_eq_true] at possible
      cases tasks with
      | nil =>
          refine ⟨[], ?_, .inl rfl⟩
          rw [doneOf_of_le _ _ (by simp), List.append_nil]
      | cons t tasks =>
          have hlater := fun t' ht' => htasks t' (List.mem_cons_of_mem _ ht')
          rcases State.Waits.step h (htasks t List.mem_cons_self) possible.1 with
            ⟨hdoes, hagenda, hwaits⟩ | ⟨hdoes, hwaits⟩
          · obtain ⟨rest, hrest, hleft⟩ := ih hlater hwaits possible.2
            refine ⟨rest, ?_, hleft⟩
            have hheight : st.agenda.length - 1 = tasks.length + base.length := by
              rw [hagenda, List.length_cons, List.length_append]
              omega
            rw [doneOf, hdoes, if_pos rfl, hheight, hagenda]
            exact congrArg (t :: ·) hrest
          · obtain ⟨rest, hrest, hleft⟩ := ih htasks hwaits possible.2
            refine ⟨rest, ?_, hleft⟩
            rw [doneOf, hdoes]
            exact hrest

/-! ## It comes to an end -/

/-- The first task on the agenda has given way to those that it put there: there are fewer actions
to do, or as many and less work. -/
theorem lex_of_done {l : List Task} (hactions : actions l = 0)
    (hload : t.isAct = false → load l < t.weight) :
    Prod.Lex (· < ·) (· < ·) (actions (l ++ rest), load (l ++ rest))
      (actions (t :: rest), load (t :: rest)) := by
  have hkept : actions (l ++ rest) = actions rest := by
    rw [actions, List.countP_append]
    exact (congrArg (· + _) hactions).trans (Nat.zero_add _)
  rw [hkept, load_append, load]
  cases hact : t.isAct with
  | true =>
      apply Prod.Lex.left
      simp [actions, hact]
  | false =>
      have hsame : actions (t :: rest) = actions rest := by simp [actions, hact]
      rw [hsame]
      apply Prod.Lex.right
      have hless := hload hact
      omega

/-- Whatever lies on top of the agenda can be done, if the host's code returns. -/
theorem exists_return (base top : List Task) (st : State) (h : st.agenda = top ++ base) :
    ∃ ms, st.canPlay ms = true ∧ (st.play ms).agenda = base := by
  cases htop : top with
  | nil => exact ⟨[], rfl, by rwa [htop] at h⟩
  | cons t rest =>
      rw [htop, List.cons_append] at h
      -- The first of them is done, and what it puts on the agenda comes before the others.
      obtain ⟨ms, l, hpossible, hagenda, hactions, hload⟩ : ∃ ms l, st.canPlay ms = true ∧
          (st.play ms).agenda = (l ++ rest) ++ base ∧ actions l = 0 ∧
            (t.isAct = false → load l < t.weight) := by
        have hwork : st.turn = .library → ∃ ms l, st.canPlay ms = true ∧
            (st.play ms).agenda = (l ++ rest) ++ base ∧ actions l = 0 ∧
              (t.isAct = false → load l < t.weight) := by
          intro hturn
          obtain ⟨l, hl, hless⟩ := step_agenda h
          refine ⟨[.work], l, by simp [canPlay, Move.isPossible, hturn], ?_, hless⟩
          exact hl.trans (List.append_assoc ..).symm
        cases t with
        | update _ | remember _ _ | release _ | act _ _ | releaseView _ =>
            exact hwork (by rw [turn, h])
        | call c =>
            obtain ⟨hpossible, hplay⟩ := play_enter_finish h
            exact ⟨_, [], hpossible, by rw [hplay]; rfl, rfl, fun _ => Nat.one_pos⟩
        | running =>
            refine ⟨[.finish], [], by simp [canPlay, Move.isPossible, h], ?_, rfl,
              fun _ => Nat.one_pos⟩
            simp [play, Move.run, finish, h]
      obtain ⟨ms', hpossible', hends⟩ := exists_return base (l ++ rest) (st.play ms) hagenda
      refine ⟨ms ++ ms', ?_, ?_⟩
      · rw [canPlay_append, hpossible, hpossible']
        rfl
      · rw [play_append, hends]
termination_by (actions top, load top)
decreasing_by
  rw [htop]
  exact lex_of_done hactions hload

/-! ## What lies above a floor -/

section Above

variable (htasks : ∀ t ∈ tasks, t.isWork = true) (hagenda : st.agenda = tasks ++ base)
  (possible : st.canPlay ms = true)

include htasks hagenda possible

/-- What has been done of the tasks and what still waits are together all of them. -/
theorem doneAbove_append : ∃ rest, tasks = st.doneAbove base.length ms ++ rest ∧
    (rest = [] ∨ Waits rest base (st.play ms)) := by
  obtain ⟨rest, hrest, hleft⟩ := doneOf_append htasks ⟨[], hagenda⟩ possible
  refine ⟨rest, ?_, hleft⟩
  rw [State.doneAbove, hagenda, List.length_append]
  exact hrest

theorem isPrefix_doneAbove : st.doneAbove base.length ms <+: tasks := by
  obtain ⟨rest, hrest, -⟩ := doneAbove_append htasks hagenda possible
  exact ⟨_, hrest.symm⟩

/-- When nothing lies above the floor any more, all of them have been done. -/
theorem doneAbove_eq (hends : (st.play ms).agenda.length ≤ base.length) :
    st.doneAbove base.length ms = tasks := by
  obtain ⟨rest, hrest, hleft⟩ := doneAbove_append htasks hagenda possible
  have hnone : rest = [] := by
    rcases hleft with hnone | ⟨top, htop⟩
    · exact hnone
    · rw [htop, List.length_append, List.length_append] at hends
      exact List.eq_nil_of_length_eq_zero (by omega)
  rw [hnone, List.append_nil] at hrest
  exact hrest.symm

/-- However far it has come, it can go on until all of them have been done. -/
theorem exists_doneAbove_eq : ∃ ms', st.canPlay (ms ++ ms') = true ∧
    st.doneAbove base.length (ms ++ ms') = tasks := by
  obtain ⟨rest, hrest, hnone | ⟨top, htop⟩⟩ := doneAbove_append htasks hagenda possible
  · -- All of them have been done already.
    refine ⟨[], by rwa [List.append_nil], ?_⟩
    rw [hnone, List.append_nil] at hrest
    rw [List.append_nil, ← hrest]
  · rw [← List.append_assoc] at htop
    obtain ⟨ms', hpossible', hends⟩ := exists_return base (top ++ rest) _ htop
    have hpossible : st.canPlay (ms ++ ms') = true := by
      rw [canPlay_append, possible, hpossible']
      rfl
    refine ⟨ms', hpossible, doneAbove_eq htasks hagenda hpossible (Nat.le_of_eq ?_)⟩
    rw [play_append, hends]

end Above

end Tasks

end DataBinding
