import DataBinding.Proofs.Lasting

set_option autoImplicit false

/-! # While a callback is under way

A watcher that hands its value to the host keeps the value when the host has dealt with it. Until
then its callback is *under way*: the value waits on the agenda behind the callback. What the host
does meanwhile goes in front of it (`Changes.front`), so the two are never mixed up.

If no subscriber is told while a callback is under way, no watcher is overtaken, and at rest each
has seen the value that its path leads to (`Run.seen_same`).
-/

namespace DataBinding

open State Relation

namespace Task

/-- Whether the task is to keep a value. -/
def isRemember : Task → Bool
  | .remember .. => true
  | _ => false

/-- The subscriber that the task tells, if it tells one. -/
def told? : Task → Option SubscriberId
  | .update s => some s
  | _ => none

end Task

/-- The subscribers that the tasks tell, in order. -/
def toldBy (tasks : List Task) : List SubscriberId := tasks.filterMap Task.told?

namespace State

/-- Whether the callback of a watcher is under way: asked for, or running. -/
def isAnswering (st : State) : Bool := st.agenda.tail.any Task.isRemember

end State

namespace Transition

/-- Whether the transition leaves to every cell its value. -/
def keepsValues (t : Transition) : Bool :=
  t.before.cells.ids.all fun c => (t.after.cells.get c).value = (t.before.cells.get c).value

/-- Whether the transition leaves every channel and every watcher's list of channels as they are,
makes no watcher and disposes of none. -/
def keepsSubscriptions (t : Transition) : Bool :=
  (t.after.channels.ids.all fun c => t.after.channels.get c = t.before.channels.get c) &&
    t.after.subscribers.ids.all fun s =>
      (t.after.watcher? s).map (fun w => (w.sources, w.disposed)) =
        (t.before.watcher? s).map fun w => (w.sources, w.disposed)

/-- Whether the transition, if the callback of a watcher is under way, writes nothing and leaves
the subscriptions alone. -/
def isPassive (t : Transition) : Bool :=
  !t.before.isAnswering || (t.keepsValues && t.keepsSubscriptions)

/-- Whether the transition, if the callback of a watcher is under way, leaves it as it is who is
still to be told. -/
def isDiscreet (t : Transition) : Bool :=
  !t.before.isAnswering || toldBy t.after.agenda = toldBy t.before.agenda

end Transition

section Agenda

variable {sc : Scope} {st st' : State} {s : SubscriberId} {v : Value} {pre rest : List Task}

theorem toldBy_append (l l' : List Task) : toldBy (l ++ l') = toldBy l ++ toldBy l' :=
  List.filterMap_append

theorem toldBy_updates (l : List SubscriberId) : toldBy (updates l) = l := by
  induction l with
  | nil => rfl
  | cons s rest ih => exact congrArg (s :: ·) ih

theorem isRemember_updates (l : List SubscriberId) :
    ∀ t ∈ updates l, t.isRemember = false := by
  intro t ht
  obtain ⟨s, -, rfl | rfl⟩ := mem_updates.mp ht <;> rfl

theorem isRemember_of_isNeutral {t : Task} (h : t.isNeutral = true) : t.isRemember = false := by
  cases t with
  | remember s v => cases h
  | update _ | release _ | act _ _ | releaseView _ | call _ | running => rfl

/-- A change puts tasks on the agenda, or takes the first one off. None of them is to keep a
value. -/
theorem Change.agenda (h : Change sc st st') :
    (∃ l, st'.agenda = l ++ st.agenda ∧ ∀ t ∈ l, t.isRemember = false) ∨
      ∃ t, st.agenda = t :: st'.agenda ∧ t.isRemember = false := by
  have hsame : st'.agenda = st.agenda →
      ∃ l, st'.agenda = l ++ st.agenda ∧ ∀ t ∈ l, t.isRemember = false :=
    fun h => ⟨[], h, nofun⟩
  cases h with
  | push tasks h => exact .inl ⟨tasks, rfl, fun t ht => isRemember_of_isNeutral (h t ht)⟩
  | drop t rest h ht => exact .inr ⟨t, h, isRemember_of_isNeutral ht⟩
  | letGo s rest h => exact .inr ⟨.release s, by rw [agenda_release]; exact h, rfl⟩
  | assign c v hv =>
      obtain ⟨l, hl⟩ := assign_agenda st c v
      exact .inl ⟨updates l, hl, isRemember_updates l⟩
  | notify c => exact .inl ⟨_, agenda_notify st c, isRemember_updates _⟩
  | tell s => exact .inl ⟨[.update s, .release s], rfl, by simp [Task.isRemember]⟩
  | observe r hr => exact .inl (hsame (observes_observe st r).agenda)
  | watch root path reaction => exact .inl (hsame agenda_watch)
  | release s => exact .inl (hsame (agenda_release st s))
  | dispose s => exact .inl (hsame (agenda_dispose st s))
  | log | tree | newRecord | newChannel | newProbe | putField | hold | newView | editView | unbind
  | bind => exact .inl (hsame rfl)

/-- Changes keep the values that are to be kept where they are on the agenda, and bring no new
ones. -/
theorem Changes.front (h : Changes sc st st') (hpre : ∀ t ∈ pre, t.isRemember = false)
    (hagenda : st.agenda = pre ++ .remember s v :: rest) :
    ∃ pre', st'.agenda = pre' ++ .remember s v :: rest ∧ ∀ t ∈ pre', t.isRemember = false := by
  induction h with
  | refl => exact ⟨pre, hagenda, hpre⟩
  | @tail st₁ st₂ _ hstep ih =>
      obtain ⟨pre₁, hagenda₁, hpre₁⟩ := ih
      rcases hstep.agenda with ⟨l, hl, hnone⟩ | ⟨t, ht, hnone⟩
      · refine ⟨l ++ pre₁, by rw [hl, hagenda₁, List.append_assoc], fun t ht => ?_⟩
        exact (List.mem_append.mp ht).elim (hnone t) (hpre₁ t)
      · rw [hagenda₁] at ht
        cases pre₁ with
        | nil =>
            -- The value that is to be kept is not what was taken off.
            cases ht
            cases hnone
        | cons t' pre₂ =>
            obtain ⟨-, hrest⟩ := List.cons.inj ht
            exact ⟨pre₂, hrest.symm, fun t ht => hpre₁ t (List.mem_cons_of_mem _ ht)⟩

/-- Changes bring no value that is to be kept. -/
theorem Changes.mem_remember (h : Changes sc st st') (hv : .remember s v ∈ st'.agenda) :
    .remember s v ∈ st.agenda := by
  induction h with
  | refl => exact hv
  | tail _ hstep ih =>
      rcases hstep.agenda with ⟨l, hl, hnone⟩ | ⟨t, ht, -⟩
      · rw [hl, List.mem_append] at hv
        exact ih (hv.resolve_left fun hmem => Bool.noConfusion (hnone _ hmem))
      · exact ih (ht ▸ List.mem_cons_of_mem t hv)

end Agenda

/-! ## Nobody is overtaken -/

/-- What the notes of a watcher say if nobody is told while a callback is under way: a value that is
still to be kept is the one that the watcher was told last. -/
structure CaughtUp (st : State) (s : SubscriberId) (notes : List Note) : Prop where
  pending : ∀ v, .remember s v ∈ st.agenda → ∃ u, lastTold notes = some u ∧ v.same u = true
  settled : isOvertaken notes = false

section CaughtUp

variable {st st' : State} {s : SubscriberId} {notes : List Note}

/-- A watcher that is told while no value is to be kept. -/
theorem Telling.caughtUp (h : Telling st s st') (hnone : ∀ v, .remember s v ∉ st.agenda)
    (hs : CaughtUp st s notes) : CaughtUp st' s (st.notesOfTelling s ++ notes) := by
  have hkept : ∀ v, isOvertaken (.kept v :: .told v :: notes) = false := by
    intro v
    rw [isOvertaken, lastTold, Option.any_some, Value.same_self]
    rfl
  have hsame : st'.agenda = st.agenda → isOvertaken (st.notesOfTelling s ++ notes) = false →
      CaughtUp st' s (st.notesOfTelling s ++ notes) := by
    intro hagenda hsettled
    refine ⟨fun v hv => ?_, hsettled⟩
    rw [hagenda] at hv
    exact absurd hv (hnone v)
  cases h with
  | probe c hwatcher =>
      refine ⟨fun v hv => ?_, ?_⟩
      · exact absurd ((List.mem_cons.mp hv).resolve_left (by simp)) (hnone v)
      · simpa [notesOfTelling, hwatcher] using hs.settled
  | disposed w hw hdisposed =>
      exact hsame rfl (by simpa [notesOfTelling, hw, hdisposed] using hs.settled)
  | unchanged w hw hlive hsame' =>
      exact hsame (agenda_reread st s w) (by simp [notesOfTelling, hw, hlive, hsame', isOvertaken])
  | shown w n hw hlive hdiffers hreaction =>
      refine hsame ?_ ?_
      · exact ((agenda_remember ..).trans (agenda_setText ..)).trans (agenda_reread st s w)
      · simpa [notesOfTelling, hw, hlive, hdiffers, hreaction] using hkept _
  | valued w n nodes hw hlive hdiffers hreaction hkinds =>
      refine hsame (agenda_reread st s w) ?_
      simpa [notesOfTelling, hw, hlive, hdiffers, hreaction] using hkept _
  | called w c hw hlive hdiffers hreaction =>
      have hnotes : st.notesOfTelling s = [.told (st.read w.root w.path)] := by
        simp [notesOfTelling, hw, hlive, hdiffers, hreaction]
      rw [hnotes]
      refine ⟨fun v hv => ⟨_, rfl, ?_⟩, rfl⟩
      -- The value that is to be kept from now on is the one that was read.
      simp only [agenda_push, agenda_reread, List.mem_append, List.mem_cons, reduceCtorEq,
        Task.remember.injEq, true_and, List.not_mem_nil, or_false, false_or] at hv
      rcases hv with rfl | hv
      · exact Value.same_self _
      · exact absurd hv (hnone v)

end CaughtUp

theorem State.isAnswering_eq_false {st : State} {t : Task} {rest : List Task}
    (hagenda : st.agenda = t :: rest) (h : st.isAnswering = false) :
    ∀ t' ∈ rest, t'.isRemember = false := by
  rw [isAnswering, hagenda] at h
  simpa using h

/-- A discreet transition in which a subscriber is told comes when no callback is under way. -/
theorem Transition.isAnswering_of_told {t : Transition} (h : t.isDiscreet = true) {s : SubscriberId}
    {rest : List Task} (hagenda : t.before.agenda = .update s :: rest)
    (hafter : t.after = ({ t.before with agenda := rest } : State).update s) :
    t.before.isAnswering = false := by
  have htold : toldBy t.after.agenda = toldBy rest := by
    rcases update_agenda { t.before with agenda := rest } s with h | ⟨c, h⟩ | ⟨c, v, h⟩ <;>
      rw [hafter, h] <;> rfl
  cases hanswering : t.before.isAnswering with
  | false => rfl
  | true =>
      rw [Transition.isDiscreet, hanswering, htold, hagenda] at h
      have hlonger : toldBy rest = s :: toldBy rest := of_decide_eq_true h
      exact absurd (congrArg List.length hlonger) (by simp)

theorem Course.caughtUp {t : Transition} (h : Course t) (discreet : t.isDiscreet = true)
    {s : SubscriberId} {notes : List Note} (hs : CaughtUp t.before s notes) :
    CaughtUp t.after s (t.notes s ++ notes) := by
  cases h with
  | told u rest hmove hagenda hafter =>
      have hanswering := t.isAnswering_of_told discreet hagenda hafter
      have hnone : ∀ v, Task.remember s v ∉ rest := fun v hv =>
        Bool.noConfusion (isAnswering_eq_false hagenda hanswering _ hv)
      have htelling := Telling.of_update hafter
      have hdropped : CaughtUp { t.before with agenda := rest } s notes :=
        ⟨fun v hv => absurd hv (hnone v), hs.settled⟩
      by_cases hsu : s = u
      · subst hsu
        have hsame : ({ t.before with agenda := rest } : State).notesOfTelling s =
            t.before.notesOfTelling s := notesOfTelling_congr ⟨rfl, rfl⟩ rfl
        have hnotes : t.notes s = ({ t.before with agenda := rest } : State).notesOfTelling s := by
          rw [Transition.notes, hmove, hagenda, hsame]
          exact if_pos rfl
        rw [hnotes]
        exact htelling.caughtUp hnone hdropped
      · have hnotes : t.notes s = [] := by
          rw [Transition.notes, hmove, hagenda]
          exact if_neg (Ne.symm hsu)
        rw [hnotes]
        refine ⟨fun v hv => ?_, hs.settled⟩
        exact absurd (((htelling.keeps hsu).remember v).mp hv) (hnone v)
  | kept u v rest hmove hagenda hafter =>
      have hrest : ∀ w, Task.remember s w ∈ t.after.agenda → .remember s w ∈ t.before.agenda := by
        intro w hw
        rw [hafter] at hw
        rw [hagenda]
        exact List.mem_cons_of_mem _ hw
      by_cases hsu : s = u
      · subst hsu
        have hnotes : t.notes s = [.kept v] := by
          rw [Transition.notes, hmove, hagenda]
          exact if_pos rfl
        obtain ⟨u, hu, hsame⟩ := hs.pending v (hagenda ▸ List.mem_cons_self)
        rw [hnotes]
        refine ⟨fun w hw => hs.pending w (hrest w hw), ?_⟩
        rw [List.singleton_append, isOvertaken, hu, Option.any_some, hsame]
        rfl
      · have hnotes : t.notes s = [] := by
          rw [Transition.notes, hmove, hagenda]
          exact if_neg (Ne.symm hsu)
        rw [hnotes]
        exact ⟨fun w hw => hs.pending w (hrest w hw), hs.settled⟩
  | changed hchanges hnotes =>
      rw [hnotes]
      exact ⟨fun v hv => hs.pending v (hchanges.mem_remember hv), hs.settled⟩

section Runs

variable {ts : List Transition} {st : State} {s : SubscriberId}

theorem Run.caughtUp (h : Run ts st) (tame : ∀ t ∈ ts, t.isTame = true)
    (discreet : ∀ t ∈ ts, t.isDiscreet = true) (s : SubscriberId) :
    CaughtUp st s (history s ts) := by
  revert discreet
  refine h.tameInduction tame (fun _ => ⟨nofun, rfl⟩) ?_
  intro ts st m _ _ _ _ hcourse ih discreet
  have hs := ih fun t ht => discreet t (List.mem_cons_of_mem _ ht)
  exact hcourse.caughtUp (discreet _ List.mem_cons_self) hs

/-- If nobody is told while a callback is under way, then at rest a living watcher that is not
disposed of has seen the value that its path leads to. -/
theorem Run.seen_same (h : Run ts st) (tame : ∀ t ∈ ts, t.isTame = true)
    (discreet : ∀ t ∈ ts, t.isDiscreet = true) (rest : st.agenda = [])
    (observed : ∀ t ∈ ts, t.startsObserved s = true) {w : Watcher} (hw : st.watcher? s = some w)
    (alive : st.isAlive s = true) (live : w.disposed = false) :
    w.seen.same (st.read w.root w.path) = true :=
  ((h.tracked tame observed).current_iff rest hw alive live).mpr
    (h.caughtUp tame discreet s).settled

end Runs

end DataBinding
