import DataBinding.Proofs.Delivery
import DataBinding.Proofs.Pass
import DataBinding.Proofs.Subscription.Distinct
import DataBinding.Proofs.Waiting

set_option autoImplicit false

/-! # Everybody is told once

A notification strikes the dead subscribers off its channel, takes down who is left, and tells these
one after the other. Whoever is told may do as he likes: subscribe others, take them off, let go of
them, or notify the same channel again. All that is done first, on top of the agenda. The tasks of
the notification wait below it and are done in their order, each once (`isPrefix_doneAbove`). So
those are told who were taken down, whatever becomes of the channel meanwhile (`Run.notifiesOnce`).
-/

namespace DataBinding

open State

/-! ## Who is told -/

/-- The subscribers that are told while the moves are made, because of the tasks that lie above the
floor now. -/
def State.toldAbove (st : State) (floor : Nat) (ms : List Move) : List SubscriberId :=
  toldBy (st.doneOf floor st.agenda.length ms)

theorem Task.eq_update_of_told? {t : Task} {s : SubscriberId} (h : t.told? = some s) :
    t = .update s := by
  cases t with
  | update u => exact congrArg Task.update (Option.some.inj h)
  | remember _ _ | release _ | act _ _ | releaseView _ | call _ | running => cases h

/-- Whoever is told because of a waiting task is told in one of the transitions. -/
theorem exists_tells_of_mem {st : State} {ms : List Move} {floor left : Nat} {s : SubscriberId}
    (h : s ∈ toldBy (doneOf floor left st ms)) : ∃ t ∈ played [] st ms, t.tells s = true := by
  induction ms generalizing st left with
  | nil => cases h
  | cons m ms ih =>
      rw [doneOf] at h
      split at h
      · rename_i hdoes
        obtain ⟨hmove, hheight, -⟩ := Transition.doesOf_iff.mp hdoes
        cases hagenda : st.agenda with
        | nil => simp [hagenda] at hheight
        | cons task rest =>
            rw [toldBy, hagenda, List.filterMap_append, List.mem_append] at h
            rcases h with hfirst | hlater
            · refine ⟨_, mem_played_cons.mpr (.inl rfl), Transition.tells_iff.mpr ⟨hmove, rest, ?_⟩⟩
              have htold : task.told? = some s := by simpa using hfirst
              rw [hagenda, Task.eq_update_of_told? htold]
            · obtain ⟨t, ht, htells⟩ := ih hlater
              exact ⟨t, mem_played_cons.mpr (.inr ht), htells⟩
      · obtain ⟨t, ht, htells⟩ := ih h
        exact ⟨t, mem_played_cons.mpr (.inr ht), htells⟩

/-- The living subscribers of a channel. -/
def State.living (st : State) (c : ChannelId) : List SubscriberId :=
  (st.channels.get c).filter st.isAlive

/-- What it means that a notification of the channel `c` tells everybody once, whatever those do who
are told. -/
structure State.NotifiesOnce (st : State) (c : ChannelId) : Prop where
  /-- No channel lists a subscriber twice. -/
  distinct : ∀ d, (st.channels.get d).Nodup
  /-- The dead are struck off the channel first, and nobody else is struck off anywhere. -/
  struck : ∀ d, (st.notify c).channels.get d = if d = c then st.living c else st.channels.get d
  /-- It is reported how many are alive. -/
  reported : (st.notify c).journal = st.journal ++ [.notifying (st.living c).length]
  /-- Those who are told were alive, and they are told in the order in which they were listed. -/
  inOrder : ∀ ms, (st.notify c).canPlay ms = true →
    (st.notify c).toldAbove st.agenda.length ms <+: st.living c
  /-- Each of them is indeed told in one of the transitions. -/
  told : ∀ ms, ∀ s ∈ (st.notify c).toldAbove st.agenda.length ms,
    ∃ t ∈ played [] (st.notify c) ms, t.tells s = true
  /-- Nobody is told twice. -/
  once : ∀ ms, (st.notify c).canPlay ms = true →
    ((st.notify c).toldAbove st.agenda.length ms).Nodup
  /-- When nothing is left to do but what there was before, everybody has been told. -/
  everybody : ∀ ms, (st.notify c).canPlay ms = true →
    ((st.notify c).play ms).agenda.length ≤ st.agenda.length →
    (st.notify c).toldAbove st.agenda.length ms = st.living c
  /-- It can always go on until everybody has been told. -/
  goesOn : ∀ ms, (st.notify c).canPlay ms = true → ∃ ms', (st.notify c).canPlay (ms ++ ms') = true ∧
    (st.notify c).toldAbove st.agenda.length (ms ++ ms') = st.living c

section Notification

variable {st : State} {c : ChannelId} {ms : List Move}

theorem isWork_updates {l : List SubscriberId} : ∀ task ∈ updates l, task.isWork = true := by
  intro task htask
  obtain ⟨s, -, rfl | rfl⟩ := mem_updates.mp htask
  · rfl
  · rfl

theorem agenda_notify_living (st : State) (c : ChannelId) :
    (st.notify c).agenda = updates (st.living c) ++ st.agenda := by
  rw [agenda_notify, get_prune, if_pos rfl, living]

theorem toldAbove_eq (possible : (st.notify c).canPlay ms = true)
    (hends : ((st.notify c).play ms).agenda.length ≤ st.agenda.length) :
    (st.notify c).toldAbove st.agenda.length ms = st.living c := by
  have hdone := doneAbove_eq isWork_updates (agenda_notify_living st c) possible hends
  exact (congrArg toldBy hdone).trans (toldBy_updates _)

theorem isPrefix_toldAbove (possible : (st.notify c).canPlay ms = true) :
    (st.notify c).toldAbove st.agenda.length ms <+: st.living c := by
  have hdone := isPrefix_doneAbove isWork_updates (agenda_notify_living st c) possible
  have htold : toldBy ((st.notify c).doneAbove st.agenda.length ms) <+:
      toldBy (updates (st.living c)) := hdone.filterMap Task.told?
  rw [toldBy_updates] at htold
  exact htold

/-- However far a notification has come, it can go on until everybody has been told. -/
theorem exists_toldAbove_eq (possible : (st.notify c).canPlay ms = true) :
    ∃ ms', (st.notify c).canPlay (ms ++ ms') = true ∧
      (st.notify c).toldAbove st.agenda.length (ms ++ ms') = st.living c := by
  obtain ⟨ms', hpossible, hdone⟩ :=
    exists_doneAbove_eq isWork_updates (agenda_notify_living st c) possible
  exact ⟨ms', hpossible, (congrArg toldBy hdone).trans (toldBy_updates _)⟩

end Notification

/-- A channel that is notified in any run, and be it in the middle of a move, tells each of its
living subscribers once and in order, whatever is done by those who are told. -/
theorem Run.notifiesOnce {ts : List Transition} {st mid : State} {lib : Liberty} (h : Run ts st)
    (hmid : Effects lib st mid) (c : ChannelId) : NotifiesOnce mid c := by
  have hdistinct : Distinct mid := hmid.distinct h.distinct
  constructor
  case distinct => exact hdistinct
  case struck =>
    intro d
    rw [get_notify, living]
    split
    · rename_i hd
      rw [hd]
    · rfl
  case reported => exact journal_notify mid c
  case inOrder => exact fun ms => isPrefix_toldAbove
  case told => exact fun ms s => exists_tells_of_mem
  case once =>
    intro ms possible
    have hliving : (mid.living c).Nodup := (hdistinct c).sublist List.filter_sublist
    exact hliving.sublist (isPrefix_toldAbove possible).sublist
  case everybody => exact fun ms => toldAbove_eq
  case goesOn => exact fun ms => exists_toldAbove_eq

/-- A channel with four probes, of which the second is not alive any more. -/
def deadAmongLiving : List Move :=
  [.operate .newChannel, .operate (.newProbe ⟨0⟩), .operate (.newProbe ⟨1⟩),
    .operate (.newProbe ⟨2⟩), .operate (.newProbe ⟨3⟩), .operate (.subscribe ⟨0⟩ ⟨0⟩),
    .operate (.subscribe ⟨0⟩ ⟨1⟩), .operate (.subscribe ⟨0⟩ ⟨0⟩), .operate (.subscribe ⟨0⟩ ⟨2⟩),
    .operate (.release ⟨1⟩)]

/-- The first probe, when it is told, takes off the one behind it, subscribes another one and
notifies the channel again, where it does nothing more. -/
def notifiedAgain : List Move :=
  [.work, .enter, .operate (.unsubscribe ⟨0⟩ ⟨2⟩), .operate (.subscribe ⟨0⟩ ⟨3⟩),
    .operate (.notify ⟨0⟩), .work, .enter, .finish, .work, .work, .enter, .finish, .work, .finish,
    .work, .work, .enter, .finish, .work]

/-- The notification within the other tells the new probe, and the outer one goes on to tell the one
that was taken off. -/
theorem notifiesOnce_deadAmongLiving :
    let st := ({} : State).play deadAmongLiving
    NotifiesOnce st ⟨0⟩ ∧ st.channels.get ⟨0⟩ = [⟨0⟩, ⟨1⟩, ⟨2⟩] ∧
      (st.notify ⟨0⟩).toldAbove 0 notifiedAgain = [⟨0⟩, ⟨2⟩] ∧
      ((st.notify ⟨0⟩).play notifiedAgain).channels.get ⟨0⟩ = [⟨0⟩, ⟨3⟩] := by
  intro st
  have hrun : Run _ st := Run.play .start deadAmongLiving (by decide +kernel)
  have hmid : Effects ⟨False, fun _ => False⟩ st st := .refl
  have hnotifies := Run.notifiesOnce hrun hmid ⟨0⟩
  have hagenda : st.agenda.length = 0 := by decide +kernel
  have htold := hnotifies.everybody notifiedAgain (by decide +kernel) (by decide +kernel)
  rw [hagenda] at htold
  exact ⟨hnotifies, by decide +kernel, htold.trans (by decide +kernel), by decide +kernel⟩

end DataBinding
