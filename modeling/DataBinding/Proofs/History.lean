import DataBinding.Proofs.Sameness
import DataBinding.Proofs.Telling

set_option autoImplicit false

/-! # What a watcher's history says

The notes that a run takes of a watcher tell what the watcher has kept (`Keeping`): the value
that it saw last is the one of the newest note, unless the host still deals with that one. With
the fact that watchers follow their paths, this is known of every watcher in the course of a
tame run (`Run.tracked`). What holds of all tame runs is shown by `Run.tameInduction`.
-/

namespace DataBinding

open State

/-- What the notes about the subscriber `s`, the newest first, say about the state. -/
structure Keeping (st : State) (s : SubscriberId) (notes : List Note) : Prop where
  /-- Of a subscriber that is no watcher there are no notes. -/
  unmade : st.watcher? s = none → notes = []
  /-- A watcher that has a value to keep was told. -/
  pending : ∀ v, .remember s v ∈ st.agenda → ∃ u, lastTold notes = some u
  /-- A value that was kept after all else is the one seen. -/
  kept : ∀ v rest w, notes = .kept v :: rest → st.watcher? s = some w →
    w.seen = v ∧ ∃ u, lastTold rest = some u
  /-- A value that was told after all else is the one seen, or there is one to keep still. -/
  told : ∀ v rest w, notes = .told v :: rest → st.watcher? s = some w →
    v.same w.seen = true ∨ ∃ u, .remember s u ∈ st.agenda
  /-- What reacts without the host's help is never overtaken. -/
  settled : ∀ w, st.watcher? s = some w → (∀ c, w.reaction ≠ .call c) → isOvertaken notes = false

namespace Keeping

variable {st st' : State} {s : SubscriberId} {notes : List Note}

theorem keep (h : Keeping st s notes) (hkeeps : Keeps s st st') : Keeping st' s notes := by
  have hsame : ∀ w', st'.watcher? s = some w' →
      ∃ w, st.watcher? s = some w ∧ w'.seen = w.seen ∧ w'.reaction = w.reaction := by
    intro w' hw'
    cases hw : st.watcher? s with
    | none => cases (hkeeps.unmade hw).symm.trans hw'
    | some w =>
        obtain ⟨w'', hw'', -, -, hreaction, hseen, -⟩ := hkeeps.watcher w hw
        cases hw'.symm.trans hw''
        exact ⟨w, rfl, hseen, hreaction⟩
  refine ⟨?_, ?_, ?_, ?_, ?_⟩
  · intro hs
    cases hw : st.watcher? s with
    | none => exact h.unmade hw
    | some w =>
        obtain ⟨w', hw', -⟩ := hkeeps.watcher w hw
        cases hs.symm.trans hw'
  · intro v hv
    exact h.pending v ((hkeeps.remember v).mp hv)
  · intro v rest w' hnotes hw'
    obtain ⟨w, hw, hseen, -⟩ := hsame w' hw'
    rw [hseen]
    exact h.kept v rest w hnotes hw
  · intro v rest w' hnotes hw'
    obtain ⟨w, hw, hseen, -⟩ := hsame w' hw'
    rw [hseen]
    exact (h.told v rest w hnotes hw).imp_right fun ⟨u, hu⟩ => ⟨u, (hkeeps.remember u).mpr hu⟩
  · intro w' hw' hreacts
    obtain ⟨w, hw, -, hreaction⟩ := hsame w' hw'
    rw [hreaction] at hreacts
    exact h.settled w hw hreacts

/-- A watcher that was told of a value has seen it, or has one to keep still. -/
theorem of_told {v : Value} {w : Watcher} (hw : st.watcher? s = some w)
    (h : v.same w.seen = true ∨ ∃ u, .remember s u ∈ st.agenda) :
    Keeping st s (.told v :: notes) := by
  refine ⟨?_, fun _ _ => ⟨v, rfl⟩, by simp, ?_, fun _ _ _ => rfl⟩
  · intro hnone
    cases hnone.symm.trans hw
  · intro u rest w' hhead hw'
    cases hhead
    cases hw.symm.trans hw'
    exact h

/-- What is kept as soon as it is told is not overtaken. -/
theorem of_kept {v : Value} {w : Watcher} (hw : st.watcher? s = some w) (hseen : w.seen = v) :
    Keeping st s (.kept v :: .told v :: notes) := by
  refine ⟨?_, fun _ _ => ⟨v, rfl⟩, ?_, by simp, ?_⟩
  · intro hnone
    cases hnone.symm.trans hw
  · intro u rest w' hhead hw'
    cases hhead
    cases hw.symm.trans hw'
    exact ⟨hseen, v, rfl⟩
  · intro _ _ _
    rw [isOvertaken, lastTold, Option.any_some, Value.same_self]
    rfl

end Keeping

/-- What is known of a subscriber in the course of a run, if it is a watcher. -/
structure Tracked (st : State) (s : SubscriberId) (notes : List Note) : Prop where
  following : st.Following s (lastTold notes)
  keeping : Keeping st s notes

section Steps

variable {st st' : State} {s : SubscriberId} {notes : List Note}

theorem Tracked.keep (h : Tracked st s notes) (hst : Consistent st) (hkeeps : Keeps s st st') :
    Tracked st' s notes :=
  ⟨h.following.keep hst.sound hkeeps, h.keeping.keep hkeeps⟩

/-- A subscriber that a consistent state does not know has no history. -/
theorem tracked_unmade (hst : Consistent st) (hs : st.watcher? s = none) : Tracked st s [] := by
  refine ⟨?_, fun _ => rfl, ?_, nofun, nofun, fun _ _ _ => rfl⟩
  · intro w hw
    cases hs.symm.trans hw
  · intro v hv
    obtain ⟨w, -, hw, -⟩ := hst.scheduled.remember s v hv
    cases hs.symm.trans hw

/-- An elementary change adds a subscriber by making a probe or a watcher, and in no other way. -/
theorem Change.subscribers {sc : Scope} (h : Change sc st st') :
    st'.subscribers.size = st.subscribers.size ∨ (∃ c, st' = (st.newProbe c).2) ∨
      ∃ root path reaction, st' = (st.watch root path reaction).2 ∧ sc.allowed reaction ∧
        (st.isObserved root = true ∨ sc.early st.subscribers.fresh) := by
  cases h with
  | newProbe c => exact .inr (.inl ⟨c, rfl⟩)
  | watch root path reaction hreaction hroot =>
      exact .inr (.inr ⟨root, path, reaction, rfl, hreaction, hroot⟩)
  | assign c v hv => exact .inl (size_subscribers_assign st c v)
  | observe r hr => exact .inl (congrArg Table.size (observes_observe st r).subscribers)
  | hold t ht => exact .inl (size_subscribers_hold st t)
  | release t ht => exact .inl (size_subscribers_release st t)
  | dispose t ht => exact .inl (size_subscribers_dispose st t)
  | tell t hknown ht => exact .inl (size_subscribers_hold st t)
  | letGo t rest hagenda => exact .inl (size_subscribers_release _ t)
  | notify c => exact .inl (size_subscribers_notify st c)
  | log | tree | push | drop | newRecord | newChannel | putField | newView | editView | unbind
  | bind => exact .inl rfl

theorem Change.subscribers_le {sc : Scope} (h : Change sc st st') :
    st.subscribers.size ≤ st'.subscribers.size := by
  rcases h.subscribers with hsize | ⟨c, rfl⟩ | ⟨root, path, reaction, rfl, -, -⟩
  · exact Nat.le_of_eq hsize.symm
  · show _ ≤ (st.subscribers.alloc _).size
    rw [Table.size_alloc]
    exact Nat.le_succ _
  · rw [size_subscribers_watch]
    exact Nat.le_succ _

/-- An elementary change makes no watcher but by making one. -/
theorem Change.makes {sc : Scope}
    (h : Change sc st st') (hs : st.subscribers.size ≤ s.index) {w : Watcher}
    (hw : st'.watcher? s = some w) :
    ∃ root path reaction, s = st.subscribers.fresh ∧ st' = (st.watch root path reaction).2 ∧
      sc.allowed reaction ∧ (st.isObserved root = true ∨ sc.early s) := by
  have hnone := watcher?_eq_none hs
  rcases h.subscribers with hsize | ⟨c, rfl⟩ | ⟨root, path, reaction, rfl, hreaction, hroot⟩
  · have hlt := lt_size_of_watcher? hw
    omega
  · rw [watcher?_newProbe, hnone] at hw
    cases hw
  · by_cases hfresh : s = st.subscribers.fresh
    · exact ⟨root, path, reaction, hfresh, rfl, hreaction, hfresh ▸ hroot⟩
    · rw [watcher?_watch, if_neg hfresh, hnone] at hw
      cases hw

theorem Change.tracked {sc : Scope}
    (h : Change sc st st') (hst : Consistent st) (hearly : ¬ sc.early s)
    (hs : Tracked st s notes) : Tracked st' s notes := by
  by_cases hknown : s.index < st.subscribers.size
  · exact hs.keep hst (h.keeps hknown)
  · have hnone : st.watcher? s = none := watcher?_eq_none (by omega)
    have hst' := h.consistent hst
    rw [hs.keeping.unmade hnone]
    cases hw : st'.watcher? s with
    | none => exact tracked_unmade hst' hw
    | some w =>
        -- The watcher is made by this change, and its root is observed already.
        obtain ⟨root, path, reaction, rfl, rfl, -, hroot⟩ := h.makes (by omega) hw
        have hobserved := hroot.resolve_right hearly
        refine ⟨following_watch hst hobserved path reaction, ?_, ?_, nofun, nofun, fun _ _ _ => rfl⟩
        · intro h
          cases h.symm.trans hw
        · intro v hv
          rw [agenda_watch] at hv
          obtain ⟨u, -, hu, -⟩ := hst.scheduled.remember _ v hv
          cases hnone.symm.trans hu

theorem Changes.tracked {sc : Scope}
    (h : Changes sc st st') (hst : Consistent st) (hearly : ¬ sc.early s)
    (hs : Tracked st s notes) : Tracked st' s notes := by
  induction h with
  | refl => exact hs
  | tail hbefore hstep ih => exact hstep.tracked (Changes.consistent hbefore hst) hearly ih

/-! ## Telling and keeping -/

theorem Keeping.drop (h : Keeping st s notes) {t : Task} {rest : List Task}
    (hagenda : st.agenda = t :: rest) (ht : ∀ v, t ≠ .remember s v) :
    Keeping { st with agenda := rest } s notes := by
  have hmem : ∀ v, .remember s v ∈ st.agenda ↔ .remember s v ∈ rest := by
    intro v
    rw [hagenda, List.mem_cons]
    exact or_iff_right (Ne.symm (ht v))
  refine ⟨h.unmade, ?_, h.kept, ?_, h.settled⟩
  · intro v hv
    exact h.pending v ((hmem v).mpr hv)
  · intro v rest' w hnotes hw
    exact (h.told v rest' w hnotes hw).imp_right fun ⟨u, hu⟩ => ⟨u, (hmem u).mp hu⟩

/-- What a watcher notes when it is told depends on what it reads and has seen. -/
theorem notesOfTelling_congr (hgraph : SameGraph st st')
    (hsubscribers : st'.subscribers = st.subscribers) :
    st'.notesOfTelling s = st.notesOfTelling s := by
  rw [notesOfTelling, watcher?_congr hsubscribers, funext fun r => funext (hgraph.read r),
    notesOfTelling]

theorem Telling.keeping (h : Telling st s st') (hs : Keeping st s notes) :
    Keeping st' s (st.notesOfTelling s ++ notes) := by
  cases h with
  | probe c hnone =>
      have hnotes : st.notesOfTelling s = [] := by simp [notesOfTelling, hnone]
      rw [hnotes]
      exact hs.keep ((Keeps.refl s st).push_other (by simp))
  | disposed w hw hdisposed =>
      have hnotes : st.notesOfTelling s = [] := by simp [notesOfTelling, hw, hdisposed]
      rw [hnotes]
      exact hs
  | unchanged w hw hlive hsame =>
      have hnotes : st.notesOfTelling s = [.told (st.read w.root w.path)] := by
        simp [notesOfTelling, hw, hlive, hsame]
      rw [hnotes]
      exact .of_told (watcher?_reread_self hw) (.inl hsame)
  | shown w n hw hlive hdiffers hreaction =>
      have hnotes : st.notesOfTelling s =
          [.kept (st.read w.root w.path), .told (st.read w.root w.path)] := by
        simp [notesOfTelling, hw, hlive, hdiffers, hreaction]
      rw [hnotes, setText_rest]
      exact .of_kept (watcher?_reread_remember hw _ _) rfl
  | valued w n nodes hw hlive hdiffers hreaction hkinds =>
      have hnotes : st.notesOfTelling s =
          [.kept (st.read w.root w.path), .told (st.read w.root w.path)] := by
        simp [notesOfTelling, hw, hlive, hdiffers, hreaction]
      rw [hnotes]
      exact .of_kept (watcher?_reread_remember hw nodes _) rfl
  | called w c hw hlive hdiffers hreaction =>
      have hnotes : st.notesOfTelling s = [.told (st.read w.root w.path)] := by
        simp [notesOfTelling, hw, hlive, hdiffers, hreaction]
      rw [hnotes]
      -- The host deals with the value first; keeping it is left on the agenda.
      exact .of_told (watcher?_reread_self hw) (.inr ⟨st.read w.root w.path, by simp [State.push]⟩)

/-- A watcher that keeps a value goes on following its path, since it was told. -/
theorem Following.remember {v : Value} {last? : Option Value} (h : st.Following s last?)
    (hlast : ∃ u, last? = some u) : (st.remember s v).Following s last? := by
  obtain ⟨u, rfl⟩ := hlast
  have hgraph : SameGraph st (st.remember s v) := ⟨rfl, rfl⟩
  intro w' hw'
  rw [watcher?_remember, if_pos rfl] at hw'
  obtain ⟨w, hw, rfl⟩ := Option.map_eq_some_iff.mp hw'
  obtain ⟨hroot, hfollows⟩ := h w hw
  refine ⟨hroot, fun ha hlive => ?_⟩
  rw [isAlive_remember] at ha
  refine (hfollows ha hlive).imp_right fun ⟨hexact, hsame⟩ => ⟨?_, ?_⟩
  · intro c
    rw [hgraph.channelsRead]
    exact hexact c
  · rw [hgraph.read]
    exact hsame

theorem Tracked.remember {v : Value} {rest : List Task} (h : Tracked st s notes)
    (hst : Consistent st) (hagenda : st.agenda = .remember s v :: rest) :
    Tracked (({ st with agenda := rest } : State).remember s v) s (.kept v :: notes) := by
  have hlast := h.keeping.pending v (by rw [hagenda]; exact List.mem_cons_self)
  have hdropped : ({ st with agenda := rest } : State).Following s (lastTold notes) := by
    have hgraph : SameGraph st { st with agenda := rest } := ⟨rfl, rfl⟩
    intro w hw
    obtain ⟨hroot, hfollows⟩ := h.following w hw
    refine ⟨hroot, fun ha hlive => ?_⟩
    rw [IsExact, hgraph.channelsRead, hgraph.read]
    rcases hfollows ha hlive with hmem | hexact
    · -- The task that is taken off is another one than the telling of the watcher.
      rw [hagenda] at hmem
      exact .inl ((List.mem_cons.mp hmem).resolve_left nofun)
    · exact .inr hexact
  refine ⟨Following.remember hdropped hlast, ?_, ?_, ?_, nofun, ?_⟩
  · intro hnone
    rw [watcher?_remember, if_pos rfl, Option.map_eq_none_iff] at hnone
    obtain ⟨u, hu⟩ := hlast
    rw [h.keeping.unmade hnone] at hu
    cases hu
  · intro u hu
    exact h.keeping.pending u (by rw [hagenda]; exact List.mem_cons_of_mem _ hu)
  · intro u rest' w' hhead hw'
    cases hhead
    rw [watcher?_remember, if_pos rfl] at hw'
    obtain ⟨w, -, rfl⟩ := Option.map_eq_some_iff.mp hw'
    exact ⟨rfl, hlast⟩
  · -- Only the host's reaction leaves a value to keep.
    intro w' hw' hreacts
    obtain ⟨w, c, hw, hreaction⟩ :=
      hst.scheduled.remember s v (by rw [hagenda]; exact List.mem_cons_self)
    rw [watcher?_remember, if_pos rfl] at hw'
    obtain ⟨u, hu, rfl⟩ := Option.map_eq_some_iff.mp hw'
    cases hw.symm.trans hu
    exact absurd hreaction (hreacts c)

/-! ## At rest -/

/-- When nothing is left to do, a living watcher that is not disposed of is on exactly the channels
along its path. -/
theorem Tracked.isExact (h : Tracked st s notes) (rest : st.agenda = []) {w : Watcher}
    (hw : st.watcher? s = some w) (alive : st.isAlive s = true) (live : w.disposed = false) :
    st.IsExact s w := by
  have hnone : .update s ∉ st.agenda := by
    rw [rest]
    exact List.not_mem_nil
  exact (((h.following w hw).2 alive live).resolve_left hnone).1

/-- When nothing is left to do, a living watcher that is not disposed of has seen the value that
its path leads to, unless it was overtaken; then it has not. -/
theorem Tracked.current_iff (h : Tracked st s notes) (rest : st.agenda = []) {w : Watcher}
    (hw : st.watcher? s = some w) (alive : st.isAlive s = true) (live : w.disposed = false) :
    w.seen.same (st.read w.root w.path) = true ↔ isOvertaken notes = false := by
  obtain ⟨hfollowing, hkeeping⟩ := h
  have hnone : ∀ t : Task, t ∉ st.agenda := by
    intro t
    rw [rest]
    exact List.not_mem_nil
  obtain ⟨-, hlast⟩ := ((hfollowing w hw).2 alive live).resolve_left (hnone _)
  cases notes with
  | nil =>
      -- It was never told of anything, so it has seen what it read first.
      exact iff_of_true hlast rfl
  | cons note older =>
      cases note with
      | told v =>
          obtain hsame | ⟨u, hpending⟩ := hkeeping.told v older w rfl hw
          · exact iff_of_true (Value.same_trans (Value.same_symm hsame) hlast) rfl
          · exact absurd hpending (hnone _)
      | kept v =>
          obtain ⟨hseen, u, hu⟩ := hkeeping.kept v older w rfl hw
          have hread : u.same (st.read w.root w.path) = true := by
            simpa [lastTold, hu] using hlast
          rw [hseen, isOvertaken, hu]
          simp only [Option.any_some, Bool.not_eq_false']
          rw [Value.same_congr_right hread]

end Steps

/-! ## Transitions and runs -/

theorem Course.consistent {t : Transition} (h : Course t) (hst : Consistent t.before)
    (ho : Owned t.before) : Consistent t.after ∧ Owned t.after := by
  cases h with
  | told s rest hmove hagenda hafter =>
      have hdropped : Consistent { t.before with agenda := rest } :=
        hst.dropTasks (hagenda ▸ List.subset_cons_self _ _)
      have howned := ho.dropTask hagenda fun _ => nofun
      have htelling := Telling.of_update hafter
      exact ⟨htelling.consistent hdropped, htelling.owned howned⟩
  | kept s v rest hmove hagenda hafter =>
      have hdropped : Consistent { t.before with agenda := rest } :=
        hst.dropTasks (hagenda ▸ List.subset_cons_self _ _)
      have howned := ho.dropTask hagenda fun _ => nofun
      rw [hafter]
      exact ⟨hdropped.remember s v, howned.remember s v⟩
  | changed h _ => exact ⟨h.consistent hst, h.owned ho⟩

theorem Course.tracked {t : Transition} (h : Course t) (hst : Consistent t.before)
    {s : SubscriberId} (hearly : t.startsObserved s = true) {notes : List Note}
    (hs : Tracked t.before s notes) : Tracked t.after s (t.notes s ++ notes) := by
  cases h with
  | told u rest hmove hagenda hafter =>
      have hdropped : Consistent { t.before with agenda := rest } :=
        hst.dropTasks (hagenda ▸ List.subset_cons_self _ _)
      have htelling := Telling.of_update hafter
      by_cases hsu : s = u
      · subst hsu
        -- The notes are taken before the task is off the agenda, which makes no difference.
        have hsame : ({ t.before with agenda := rest } : State).notesOfTelling s =
            t.before.notesOfTelling s := notesOfTelling_congr ⟨rfl, rfl⟩ rfl
        have hnotes : t.notes s = ({ t.before with agenda := rest } : State).notesOfTelling s := by
          rw [Transition.notes, hmove, hagenda, hsame]
          exact if_pos rfl
        rw [hnotes]
        refine ⟨htelling.following hdropped fun w hw => (hs.following w hw).1, ?_⟩
        exact htelling.keeping (hs.keeping.drop hagenda (by simp))
      · have hnotes : t.notes s = [] := by
          rw [Transition.notes, hmove, hagenda]
          exact if_neg (Ne.symm hsu)
        rw [hnotes]
        refine hs.keep hst (.of_dropped hagenda ?_ (by simp) (htelling.keeps hsu))
        exact fun h => hsu (Task.update.inj h).symm
  | kept u v rest hmove hagenda hafter =>
      by_cases hsu : s = u
      · subst hsu
        have hnotes : t.notes s = [.kept v] := by
          rw [Transition.notes, hmove, hagenda]
          exact if_pos rfl
        rw [hnotes, hafter]
        exact hs.remember hst hagenda
      · have hnotes : t.notes s = [] := by
          rw [Transition.notes, hmove, hagenda]
          exact if_neg (Ne.symm hsu)
        rw [hnotes, hafter]
        have hkeeps := (Keeps.refl s { t.before with agenda := rest }).remember_other hsu v
        refine hs.keep hst (.of_dropped hagenda (by simp) ?_ hkeeps)
        exact fun w h => hsu (Task.remember.inj h).1.symm
  | changed hchanges hnotes =>
      rw [hnotes]
      refine hchanges.tracked hst ?_ hs
      show ¬ t.startsObserved s = false
      rw [hearly]
      exact Bool.noConfusion

/-- Tame runs come to consistent states, in which the views have their watchers. -/
theorem Run.consistent {ts : List Transition} {st : State} (h : Run ts st)
    (tame : ∀ t ∈ ts, t.isTame = true) : Consistent st ∧ Owned st := by
  induction h with
  | start => exact ⟨consistent_empty, owned_empty⟩
  | @move ts st m _ possible ih =>
      obtain ⟨hst, ho⟩ := ih fun t ht => tame t (List.mem_cons_of_mem _ ht)
      have hcourse := Transition.course ⟨st, m⟩ hst ho possible (tame _ List.mem_cons_self)
      exact hcourse.consistent hst ho

/-- Induction over a tame run: the state before the last move is consistent, its views have their
watchers, and the move is of one of the three kinds. -/
@[elab_as_elim]
theorem Run.tameInduction {motive : List Transition → State → Prop} {ts : List Transition}
    {st : State} (h : Run ts st) (tame : ∀ t ∈ ts, t.isTame = true) (start : motive [] {})
    (move : ∀ ts st m, Run ts st → (∀ t ∈ ts, t.isTame = true) → Consistent st → Owned st →
      Course ⟨st, m⟩ → motive ts st → motive (⟨st, m⟩ :: ts) (m.run st)) : motive ts st := by
  induction h with
  | start => exact start
  | @move ts st m hrun possible ih =>
      have htame : ∀ t ∈ ts, t.isTame = true := fun t ht => tame t (List.mem_cons_of_mem _ ht)
      obtain ⟨hst, ho⟩ := hrun.consistent htame
      have hcourse := Transition.course ⟨st, m⟩ hst ho possible (tame _ List.mem_cons_self)
      exact move ts st m hrun htame hst ho hcourse (ih htame)

/-- What is known of a watcher, whose root was observed from the beginning, in the course of a
tame run. -/
theorem Run.tracked {ts : List Transition} {st : State} (h : Run ts st)
    (tame : ∀ t ∈ ts, t.isTame = true) {s : SubscriberId}
    (observed : ∀ t ∈ ts, t.startsObserved s = true) : Tracked st s (history s ts) := by
  revert observed
  refine h.tameInduction tame ?_ ?_
  · intro _
    exact tracked_unmade consistent_empty (watcher?_eq_none (Nat.zero_le _))
  · intro ts st m _ _ hst _ hcourse ih observed
    have hs := ih fun t ht => observed t (List.mem_cons_of_mem _ ht)
    exact hcourse.tracked hst (observed _ List.mem_cons_self) hs

end DataBinding
