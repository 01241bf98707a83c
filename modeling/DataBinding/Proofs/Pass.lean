import DataBinding.Proofs.Graph
import DataBinding.Proofs.Quiet
import DataBinding.Proofs.Reaction

set_option autoImplicit false

/-! # A pass

A notification tells the subscribers of a channel one after the other. This is a *pass*: the agenda
lists those who are still to be told, and in front of it there may be the callback of one watcher,
with the value that the watcher is to keep (`Stage`). As long as callbacks only read, what a watcher
will react to is decided when the pass begins: in each step, what is due is what happens in the step
and what is due afterwards (`Stage.step`). So in the whole pass exactly those react who had news,
once each and in order, and have seen the news in the end (`Stage.play`).
-/

namespace DataBinding

open State

/-- Whether the task tells a subscriber or lets go of one. -/
def Task.isTelling : Task → Bool
  | .update _ | .release _ => true
  | _ => false

theorem isTelling_updates {l : List SubscriberId} : ∀ task ∈ updates l, task.isTelling = true := by
  intro task htask
  obtain ⟨s, -, rfl | rfl⟩ := mem_updates.mp htask
  · rfl
  · rfl

/-- Whether the transition belongs to a pass: the library works, or the callback of a watcher is
under way. -/
def Transition.isInside (t : Transition) : Bool :=
  t.before.isAnswering ||
    match t.move with
    | .work => true
    | _ => false

/-! ## A watcher in the course of a pass -/

/-- The watcher `w` of the state `st₀` has become `w'` in `st`: nothing has happened to it but that
it may have seen something and moved to other channels, and its path leads to what it did. -/
structure Abides (st₀ : State) (w : Watcher) (st : State) (w' : Watcher) : Prop where
  root : w'.root = w.root
  path : w'.path = w.path
  reaction : w'.reaction = w.reaction
  disposed : w'.disposed = w.disposed
  observed : st.isObserved w.root = true
  read : st.read w.root w.path = st₀.read w.root w.path

section Abides

variable {st₀ st st' : State} {s u : SubscriberId} {w w' w'' : Watcher}

theorem Abides.trans (h : Abides st₀ w st w') (h' : Abides st w' st' w'') :
    Abides st₀ w st' w'' where
  root := h'.root.trans h.root
  path := h'.path.trans h.path
  reaction := h'.reaction.trans h.reaction
  disposed := h'.disposed.trans h.disposed
  observed := h.root ▸ h'.observed
  read := by
    have hread := h'.read
    rw [h.root, h.path] at hread
    exact hread.trans h.read

/-- What leaves records and cells alone, and of the watcher its path, its reaction and its mark. -/
theorem Abides.of_sameGraph (hgraph : SameGraph st st') (hobserved : st.isObserved w.root = true)
    (hroot : w'.root = w.root) (hpath : w'.path = w.path) (hreaction : w'.reaction = w.reaction)
    (hdisposed : w'.disposed = w.disposed) : Abides st w st' w' where
  root := hroot
  path := hpath
  reaction := hreaction
  disposed := hdisposed
  observed := by
    rw [isObserved, hgraph.records]
    exact hobserved
  read := hgraph.read w.root w.path

theorem abides_release (hw : st.watcher? s = some w) (hobserved : st.isObserved w.root = true)
    (u : SubscriberId) :
    ∃ w', (st.release u).watcher? s = some w' ∧ Abides st w (st.release u) w' ∧
      w'.seen = w.seen := by
  have hgraph := (onlySubscriptions_release st u).graph
  rw [watcher?_release, hw]
  split
  · exact ⟨_, rfl, .of_sameGraph hgraph hobserved rfl rfl rfl rfl, rfl⟩
  · exact ⟨w, rfl, .of_sameGraph hgraph hobserved rfl rfl rfl rfl, rfl⟩

theorem abides_remember (hw : st.watcher? s = some w) (hobserved : st.isObserved w.root = true)
    (u : SubscriberId) (v : Value) :
    ∃ w', (st.remember u v).watcher? s = some w' ∧ Abides st w (st.remember u v) w' ∧
      w'.seen = if s = u then v else w.seen := by
  have hgraph : SameGraph st (st.remember u v) := ⟨rfl, rfl⟩
  rw [watcher?_remember, hw]
  split
  · rename_i hus
    exact ⟨_, rfl, .of_sameGraph hgraph hobserved rfl rfl rfl rfl, (if_pos hus.symm).symm⟩
  · rename_i hus
    exact ⟨w, rfl, .of_sameGraph hgraph hobserved rfl rfl rfl rfl, (if_neg (Ne.symm hus)).symm⟩

/-- Telling a subscriber leaves the other watchers as they are. -/
theorem Telling.watcher?_ne (h : Telling st u st') (hsu : s ≠ u) :
    st'.watcher? s = st.watcher? s := by
  have hreread : ∀ w, (st.reread u w).watcher? s = st.watcher? s := by
    intro w
    rw [watcher?_reread, if_neg (Ne.symm hsu)]
  cases h with
  | probe | disposed => rfl
  | unchanged w | called w => exact hreread w
  | shown w n =>
      rw [setText_rest, watcher?_remember, if_neg (Ne.symm hsu)]
      exact hreread w
  | valued w n =>
      rw [watcher?_remember, if_neg (Ne.symm hsu)]
      exact hreread w

/-- A watcher that is told has seen the news, unless the host has to deal with them first. -/
theorem Telling.seen (h : Telling st u st') (hw : st.watcher? u = some w) :
    ∃ w', st'.watcher? u = some w' ∧ w'.root = w.root ∧ w'.path = w.path ∧
      w'.reaction = w.reaction ∧ w'.disposed = w.disposed ∧
      w'.seen = if st.callsHost u then w.seen else (st.news? u).getD w.seen := by
  have hnone : st.news? u = none →
      w.seen = if st.callsHost u then w.seen else (st.news? u).getD w.seen := by
    intro h
    rw [h]
    exact (ite_self _).symm
  cases h with
  | probe c hs => cases hs.symm.trans hw
  | disposed _ _ hdisposed =>
      cases hw.symm.trans ‹_›
      exact ⟨w, hw, rfl, rfl, rfl, rfl, hnone (news?_of_disposed hw hdisposed)⟩
  | unchanged _ hw' hlive hsame =>
      cases hw.symm.trans hw'
      exact ⟨_, watcher?_reread_self hw, rfl, rfl, rfl, rfl, hnone (news?_of_same hw hsame)⟩
  | shown _ n hw' hlive hdiffers hreaction =>
      cases hw.symm.trans hw'
      rw [setText_rest]
      refine ⟨_, watcher?_reread_remember hw _ _, rfl, rfl, rfl, rfl, ?_⟩
      rw [callsHost_of_shown hw (by simp [hreaction]), news?_of_differs hw hlive hdiffers]
      rfl
  | valued _ n nodes hw' hlive hdiffers hreaction hkinds =>
      cases hw.symm.trans hw'
      refine ⟨_, watcher?_reread_remember hw nodes _, rfl, rfl, rfl, rfl, ?_⟩
      rw [callsHost_of_shown hw (by simp [hreaction]), news?_of_differs hw hlive hdiffers]
      rfl
  | called _ c hw' hlive hdiffers hreaction =>
      cases hw.symm.trans hw'
      refine ⟨_, watcher?_reread_self hw, rfl, rfl, rfl, rfl, ?_⟩
      rw [callsHost_of_reaction hw hreaction]
      rfl

theorem Telling.abides (h : Telling st u st') (hw : st.watcher? s = some w)
    (hobserved : st.isObserved w.root = true) :
    ∃ w', st'.watcher? s = some w' ∧ Abides st w st' w' ∧
      w'.seen = if s = u ∧ st.callsHost u = false then (st.news? u).getD w.seen else w.seen := by
  by_cases hsu : s = u
  · subst hsu
    obtain ⟨w', hw', hroot, hpath, hreaction, hdisposed, hseen⟩ := h.seen hw
    refine ⟨w', hw', .of_sameGraph h.sameGraph hobserved hroot hpath hreaction hdisposed, ?_⟩
    rw [hseen]
    cases st.callsHost s with
    | true => simp
    | false => simp
  · refine ⟨w, (h.watcher?_ne hsu).trans hw, ?_, (if_neg fun h => hsu h.1).symm⟩
    exact .of_sameGraph h.sameGraph hobserved rfl rfl rfl rfl

/-- A watcher with news that calls the host is told: its callback is asked for. -/
theorem Telling.agenda_of_asks (h : Telling st u st') {v : Value} (hcalls : st.callsHost u = true)
    (hnews : st.news? u = some v) :
    ∃ c, st'.agenda = .call (.changed c v) :: .remember u v :: st.agenda := by
  cases h with
  | probe c hs =>
      rw [news?, hs] at hnews
      cases hnews
  | disposed w' hw' hdisposed => cases (news?_of_disposed hw' hdisposed).symm.trans hnews
  | unchanged w' hw' hlive hsame => cases (news?_of_same hw' hsame).symm.trans hnews
  | shown w' n hw' hlive hdiffers hshown =>
      cases (callsHost_of_shown hw' (by simp [hshown])).symm.trans hcalls
  | valued w' n nodes hw' hlive hdiffers hshown hkinds =>
      cases (callsHost_of_shown hw' (by simp [hshown])).symm.trans hcalls
  | called w' c hw' hlive hdiffers hcalled =>
      cases (news?_of_differs hw' hlive hdiffers).symm.trans hnews
      refine ⟨c, ?_⟩
      rw [agenda_push, agenda_reread]
      rfl

/-- Any other watcher that is told puts nothing on the agenda. -/
theorem Telling.agenda_of_reads (h : Telling st u st') (hw : st.watcher? u = some w)
    (hnot : st.callsHost u = false ∨ st.news? u = none) : st'.agenda = st.agenda := by
  cases h with
  | probe c hs => cases hs.symm.trans hw
  | disposed => rfl
  | unchanged w' => exact agenda_reread st u w'
  | shown w' n =>
      exact ((agenda_remember ..).trans (agenda_setText ..)).trans (agenda_reread st u w')
  | valued w' n nodes => exact agenda_reread st u w'
  | called w' c hw' hlive hdiffers hcalled =>
      rw [callsHost_of_reaction hw' hcalled, news?_of_differs hw' hlive hdiffers] at hnot
      simp at hnot

/-- Changes keep of a watcher its root, its path, its reaction and what it has seen, and they keep
the records that are observed. -/
theorem Changes.keepsWatcher {sc : Scope} (h : Changes sc st st') (hw : st.watcher? s = some w) :
    ∃ w', st'.watcher? s = some w' ∧ w'.root = w.root ∧ w'.path = w.path ∧
      w'.reaction = w.reaction ∧ w'.seen = w.seen ∧
      ∀ r, st.isObserved r = true → st'.records.get r = st.records.get r := by
  induction h with
  | refl => exact ⟨w, hw, rfl, rfl, rfl, rfl, fun _ _ => rfl⟩
  | @tail st₁ st₂ _ hstep ih =>
      obtain ⟨w₁, hw₁, hroot₁, hpath₁, hreaction₁, hseen₁, hrecords₁⟩ := ih
      have hkeeps := hstep.keeps (lt_size_of_watcher? hw₁)
      obtain ⟨w₂, hw₂, hroot₂, hpath₂, hreaction₂, hseen₂, -⟩ := hkeeps.watcher w₁ hw₁
      refine ⟨w₂, hw₂, hroot₂.trans hroot₁, hpath₂.trans hpath₁, hreaction₂.trans hreaction₁,
        hseen₂.trans hseen₁, fun r hr => ?_⟩
      have hobserved : st₁.isObserved r = true := by
        rw [isObserved, hrecords₁ r hr]
        exact hr
      exact (hkeeps.record r hobserved).trans (hrecords₁ r hr)

/-- While a callback is under way that only reads, nothing happens to a watcher. -/
theorem abides_passive {t : Transition} {sc : Scope} (h : Changes sc t.before t.after)
    (hsound : Sound t.before) (passive : t.isPassive = true)
    (hanswering : t.before.isAnswering = true) (hw : t.before.watcher? s = some w)
    (hobserved : t.before.isObserved w.root = true) :
    ∃ w', t.after.watcher? s = some w' ∧ Abides t.before w t.after w' ∧ w'.seen = w.seen := by
  obtain ⟨w', hw', hroot, hpath, hreaction, hseen, hrecords⟩ := h.keepsWatcher hw
  rw [Transition.isPassive, hanswering] at passive
  simp only [Bool.not_true, Bool.false_or, Bool.and_eq_true, Transition.keepsValues,
    Transition.keepsSubscriptions, List.all_eq_true, decide_eq_true_eq] at passive
  obtain ⟨hvalues, -, hwatchers⟩ := passive
  have hmark := hwatchers s ((Table.mem_ids_iff _ s).mpr (lt_size_of_watcher? hw'))
  rw [hw, hw'] at hmark
  have hdisposed : w'.disposed = w.disposed := (Prod.mk.inj (Option.some.inj hmark)).2
  refine ⟨w', hw', ⟨hroot, hpath, hreaction, hdisposed, ?_, ?_⟩, hseen⟩
  · rw [isObserved, hrecords w.root hobserved]
    exact hobserved
  · refine read_eq hsound hrecords hobserved fun p _ c hc => ?_
    exact hvalues c ((Table.mem_ids_iff _ c).mpr (hsound.cell?_lt hc))

end Abides

/-! ## All watchers in the course of a pass -/

/-- In the course of a pass that began in `st₀` and tells the subscribers `all`: nothing has
happened to the watchers but that those of `all` that are no longer `waiting` have seen the news. -/
def Settling (st₀ : State) (all waiting : List SubscriberId) (st : State) : Prop :=
  ∀ s w, st₀.watcher? s = some w → ∃ w', st.watcher? s = some w' ∧ Abides st₀ w st w' ∧
    w'.seen = if s ∈ all ∧ s ∉ waiting then (st₀.news? s).getD w.seen else w.seen

namespace Settling

variable {st₀ st st' : State} {all waiting : List SubscriberId} {s : SubscriberId}

theorem start (hobserved : ∀ s w, st₀.watcher? s = some w → st₀.isObserved w.root = true)
    (all : List SubscriberId) : Settling st₀ all all st₀ := by
  intro s w hw
  refine ⟨w, hw, .of_sameGraph ⟨rfl, rfl⟩ (hobserved s w hw) rfl rfl rfl rfl, ?_⟩
  rw [if_neg fun h => h.2 h.1]

/-- A step in which no watcher sees anything. -/
theorem keep (h : Settling st₀ all waiting st)
    (hstep : ∀ s w, st.watcher? s = some w → st.isObserved w.root = true →
      ∃ w', st'.watcher? s = some w' ∧ Abides st w st' w' ∧ w'.seen = w.seen) :
    Settling st₀ all waiting st' := by
  intro s w hw
  obtain ⟨w₁, hw₁, habides₁, hseen₁⟩ := h s w hw
  obtain ⟨w₂, hw₂, habides₂, hseen₂⟩ := hstep s w₁ hw₁ (habides₁.root ▸ habides₁.observed)
  exact ⟨w₂, hw₂, habides₁.trans habides₂, hseen₂.trans hseen₁⟩

/-- A step in which the first of those who wait sees the news, if there are any. -/
theorem next (h : Settling st₀ all (s :: waiting) st) (hall : s ∈ all) (honce : s ∉ waiting)
    (hstep : ∀ u w, st.watcher? u = some w → st.isObserved w.root = true →
      ∃ w', st'.watcher? u = some w' ∧ Abides st w st' w' ∧
        w'.seen = if u = s then (st₀.news? s).getD w.seen else w.seen) :
    Settling st₀ all waiting st' := by
  intro u w hw
  obtain ⟨w₁, hw₁, habides₁, hseen₁⟩ := h u w hw
  obtain ⟨w₂, hw₂, habides₂, hseen₂⟩ := hstep u w₁ hw₁ (habides₁.root ▸ habides₁.observed)
  refine ⟨w₂, hw₂, habides₁.trans habides₂, hseen₂.trans ?_⟩
  by_cases hus : u = s
  · subst hus
    rw [if_neg fun h => h.2 List.mem_cons_self] at hseen₁
    rw [if_pos rfl, if_pos ⟨hall, honce⟩, hseen₁]
  · rw [if_neg hus, hseen₁]
    simp only [List.mem_cons, hus, false_or]

theorem drop (h : Settling st₀ all waiting st) (rest : List Task) :
    Settling st₀ all waiting { st with agenda := rest } :=
  h.keep fun _ w hw hobserved =>
    ⟨w, hw, .of_sameGraph ⟨rfl, rfl⟩ hobserved rfl rfl rfl rfl, rfl⟩

/-- Who waits still has the news that it had in the beginning. -/
theorem news?_eq (h : Settling st₀ all waiting st) {w : Watcher} (hw : st₀.watcher? s = some w)
    (hs : s ∈ waiting) : st.news? s = st₀.news? s := by
  obtain ⟨w', hw', habides, hseen⟩ := h s w hw
  rw [if_neg fun h => h.2 hs] at hseen
  rw [news?, hw', news?, hw]
  simp only [habides.root, habides.path, habides.disposed, habides.read, hseen]

theorem callsHost_eq (h : Settling st₀ all waiting st) {w : Watcher}
    (hw : st₀.watcher? s = some w) : st.callsHost s = st₀.callsHost s := by
  obtain ⟨w', hw', habides, -⟩ := h s w hw
  rw [callsHost, hw', callsHost, hw]
  simp only [Option.map_some, habides.reaction]

end Settling

/-! ## The stages of a pass -/

/-- The reactions that are due when the subscribers are told, as things stand in `st`. -/
def State.due (st : State) (l : List SubscriberId) : List (SubscriberId × Value) :=
  l.filterMap fun s => (st.news? s).map fun v => (s, v)

/-- A pass that began in `st₀` and tells the subscribers `all` has come to the state `st`, and these
reactions are still due. -/
inductive Stage (st₀ : State) (all : List SubscriberId) (st : State) :
    List (SubscriberId × Value) → Prop where
  /-- The next subscriber is going to be told, or the last one let go. -/
  | between (htasks : ∀ t ∈ st.agenda, t.isTelling = true) (hall : toldBy st.agenda <:+ all)
      (hsettling : Settling st₀ all (toldBy st.agenda) st) :
      Stage st₀ all st (st₀.due (toldBy st.agenda))
  /-- The callback of a watcher is asked for. -/
  | asked (c : Callback) (s : SubscriberId) (v : Value) (rest : List Task)
      (hagenda : st.agenda = .call (.changed c v) :: .remember s v :: rest)
      (htasks : ∀ t ∈ rest, t.isTelling = true) (hall : s :: toldBy rest <:+ all)
      (hnews : st₀.news? s = some v) (hsettling : Settling st₀ all (s :: toldBy rest) st) :
      Stage st₀ all st ((s, v) :: st₀.due (toldBy rest))
  /-- The callback of a watcher has begun to run. -/
  | begun (pre : List Task) (s : SubscriberId) (v : Value) (rest : List Task)
      (hagenda : st.agenda = pre ++ .remember s v :: rest)
      (hpre : ∀ t ∈ pre, t.isRemember = false) (htold : toldBy pre = [])
      (hasked : ∀ s', isAsking s' st.agenda = false)
      (htasks : ∀ t ∈ rest, t.isTelling = true) (hall : s :: toldBy rest <:+ all)
      (hnews : st₀.news? s = some v) (hsettling : Settling st₀ all (s :: toldBy rest) st) :
      Stage st₀ all st (st₀.due (toldBy rest))

section Stage

variable {st₀ st : State} {all : List SubscriberId} {t : Transition}
  {l : List (SubscriberId × Value)}

theorem isRemember_of_isTelling {task : Task} (h : task.isTelling = true) :
    task.isRemember = false := by
  cases task with
  | update _ | release _ => rfl
  | remember _ _ | act _ _ | releaseView _ | call _ | running => cases h

theorem Transition.move_of_isInside (h : t.isInside = true) (hnone : t.before.isAnswering = false) :
    t.move = .work := by
  rw [isInside, hnone, Bool.false_or] at h
  split at h
  · assumption
  · cases h

theorem isAnswering_of_isTelling (h : ∀ task ∈ st.agenda, task.isTelling = true) :
    st.isAnswering = false := by
  rw [isAnswering, List.any_eq_false]
  intro task htask
  simp [isRemember_of_isTelling (h task (List.mem_of_mem_tail htask))]

/-- Nobody reacts in a transition in which nobody is told and no callback begins. -/
theorem Transition.reaction?_eq_none (htells : ∀ s, t.tells s = false)
    (hstarts : ∀ s, t.starts s = false) : t.reaction? = none := by
  cases h : t.reaction? with
  | none => rfl
  | some r =>
      have hreacts : t.reacts r.1 = true := by simp [reacts, h]
      rcases reacts_iff.mp hreacts with ⟨hs, -⟩ | hs
      · exact Bool.noConfusion ((htells r.1).symm.trans hs)
      · exact Bool.noConfusion ((hstarts r.1).symm.trans hs)

/-- The library's work at a task that is not telling somebody is no reaction. -/
theorem Transition.reaction?_of_work {task : Task} {rest : List Task} (hmove : t.move = .work)
    (hagenda : t.before.agenda = task :: rest) (htask : ∀ s, task ≠ .update s) :
    t.reaction? = none := by
  refine reaction?_eq_none (fun s => ?_) fun s => ?_
  · rw [Bool.eq_false_iff]
    intro htells
    obtain ⟨-, rest', hagenda'⟩ := tells_iff.mp htells
    exact htask s (List.cons.inj (hagenda.symm.trans hagenda')).1
  · rw [starts, hmove]

/-- A subscriber is let go of. -/
theorem Stage.letGo {s : SubscriberId} {rest : List Task} (hmove : t.move = .work)
    (hagenda : t.before.agenda = .release s :: rest)
    (htasks : ∀ task ∈ rest, task.isTelling = true) (hall : toldBy rest <:+ all)
    (hsettling : Settling st₀ all (toldBy rest) t.before) :
    Stage st₀ all t.after (st₀.due (toldBy rest)) := by
  have hafter : t.after = ({ t.before with agenda := rest } : State).release s :=
    t.after_of_work hmove hagenda
  have hrest : t.after.agenda = rest := by rw [hafter, agenda_release]
  have hreleased : Settling st₀ all (toldBy rest) t.after := by
    rw [hafter]
    exact (hsettling.drop rest).keep fun _ _ hw hobserved => abides_release hw hobserved s
  rw [← hrest] at htasks hall hreleased ⊢
  exact .between htasks hall hreleased

section Told

variable {s : SubscriberId} {rest : List Task} {w : Watcher} (hmove : t.move = .work)
  (hagenda : t.before.agenda = .update s :: rest)

include hmove hagenda

theorem Transition.telling_of_work :
    Telling { t.before with agenda := rest } s t.after :=
  .of_update (t.after_of_work hmove hagenda)

theorem Transition.reaction?_of_told : t.reaction? =
    if t.before.callsHost s then none else (t.before.news? s).map fun v => (s, v) := by
  simp only [reaction?, hmove, hagenda]

variable (htasks : ∀ task ∈ rest, task.isTelling = true) (hall : s :: toldBy rest <:+ all)
  (hw : st₀.watcher? s = some w)
  (hsettling : Settling st₀ all (s :: toldBy rest) t.before)

include htasks hall hw hsettling

/-- A watcher with news is told, and its callback is asked for. -/
theorem Stage.calls {v : Value} (hcalls : st₀.callsHost s = true) (hnews : st₀.news? s = some v) :
    t.reaction? = none ∧ Stage st₀ all t.after ((s, v) :: st₀.due (toldBy rest)) := by
  have htelling := t.telling_of_work hmove hagenda
  have hcalls' : t.before.callsHost s = true := (hsettling.callsHost_eq hw).trans hcalls
  have hnews' : t.before.news? s = some v := (hsettling.news?_eq hw List.mem_cons_self).trans hnews
  obtain ⟨c, hafter⟩ := htelling.agenda_of_asks hcalls' ((news?_drop ..).trans hnews')
  refine ⟨?_, .asked c s v rest hafter htasks hall hnews ?_⟩
  · rw [t.reaction?_of_told hmove hagenda, hcalls']
    rfl
  · refine (hsettling.drop rest).keep fun u w' hw' hobserved => ?_
    obtain ⟨w'', hw'', habides, hseen⟩ := htelling.abides hw' hobserved
    refine ⟨w'', hw'', habides, hseen.trans (if_neg fun h => ?_)⟩
    exact Bool.noConfusion (h.2.symm.trans hcalls')

/-- A watcher is told that has no news, or that shows its news. -/
theorem Stage.reads (hdistinct : all.Nodup)
    (hnot : st₀.callsHost s = false ∨ st₀.news? s = none) :
    t.reaction? = (st₀.news? s).map (fun v => (s, v)) ∧
      Stage st₀ all t.after (st₀.due (toldBy rest)) := by
  have htelling := t.telling_of_work hmove hagenda
  have hcalls : t.before.callsHost s = st₀.callsHost s := hsettling.callsHost_eq hw
  have hnews : t.before.news? s = st₀.news? s := hsettling.news?_eq hw List.mem_cons_self
  obtain ⟨w₁, hw₁, -⟩ := hsettling s w hw
  have hafter : t.after.agenda = rest := by
    refine htelling.agenda_of_reads hw₁ (hnot.imp ?_ ?_)
    · exact hcalls.trans
    · exact ((news?_drop ..).trans hnews).trans
  have honce : s ∉ toldBy rest := (List.nodup_cons.mp (hdistinct.sublist hall.sublist)).1
  have hrest : toldBy rest <:+ all := (List.suffix_cons s _).trans hall
  have hseen : Settling st₀ all (toldBy rest) t.after := by
    refine (hsettling.drop rest).next (hall.subset List.mem_cons_self) honce
      fun u w' hw' hobserved => ?_
    obtain ⟨w'', hw'', habides, hseen⟩ := htelling.abides hw' hobserved
    refine ⟨w'', hw'', habides, hseen.trans ?_⟩
    have hcalls' : State.callsHost { t.before with agenda := rest } s = st₀.callsHost s := hcalls
    rw [news?_drop, hnews, hcalls']
    -- Without news there is nothing to be seen, whoever would deal with them.
    rcases hnot with hnot | hnot
    · simp [hnot]
    · simp [hnot]
  refine ⟨?_, ?_⟩
  · rw [t.reaction?_of_told hmove hagenda, hcalls, hnews]
    rcases hnot with hnot | hnot
    · simp [hnot]
    · simp [hnot]
  · rw [← hafter] at htasks hrest hseen ⊢
    exact .between htasks hrest hseen

/-- A subscriber is told: it reacts, or its reaction is still due, or it has no news. -/
theorem Stage.told (hdistinct : all.Nodup) : ∃ l, Stage st₀ all t.after l ∧
    st₀.due (s :: toldBy rest) = t.reaction?.toList ++ l := by
  have hdue : st₀.due (s :: toldBy rest) =
      ((st₀.news? s).map fun v => (s, v)).toList ++ st₀.due (toldBy rest) := by
    rw [due, List.filterMap_cons]
    cases st₀.news? s <;> rfl
  have hreads := fun h => Stage.reads hmove hagenda htasks hall hw hsettling hdistinct h
  cases hcalls : st₀.callsHost s with
  | false =>
      obtain ⟨hreaction, hstage⟩ := hreads (.inl hcalls)
      exact ⟨_, hstage, by rw [hdue, hreaction]⟩
  | true =>
      cases hnews : st₀.news? s with
      | none =>
          obtain ⟨hreaction, hstage⟩ := hreads (.inr hnews)
          exact ⟨_, hstage, by rw [hdue, hreaction]⟩
      | some v =>
          obtain ⟨hreaction, hstage⟩ :=
            Stage.calls hmove hagenda htasks hall hw hsettling hcalls hnews
          exact ⟨_, hstage, by rw [hdue, hreaction, hnews]; rfl⟩

end Told

/-- A watcher keeps the value that the host has dealt with. -/
theorem Stage.kept {s : SubscriberId} {v : Value} {rest : List Task} (hmove : t.move = .work)
    (hagenda : t.before.agenda = .remember s v :: rest)
    (htasks : ∀ task ∈ rest, task.isTelling = true) (hall : s :: toldBy rest <:+ all)
    (hdistinct : all.Nodup) (hnews : st₀.news? s = some v)
    (hsettling : Settling st₀ all (s :: toldBy rest) t.before) :
    Stage st₀ all t.after (st₀.due (toldBy rest)) := by
  have hafter : t.after = ({ t.before with agenda := rest } : State).remember s v :=
    t.after_of_work hmove hagenda
  have hagenda' : t.after.agenda = rest := by rw [hafter, agenda_remember]
  have honce : s ∉ toldBy rest := (List.nodup_cons.mp (hdistinct.sublist hall.sublist)).1
  have hmem : s ∈ all := hall.subset List.mem_cons_self
  have hrest : toldBy rest <:+ all := (List.suffix_cons s _).trans hall
  have hseen : Settling st₀ all (toldBy rest) t.after := by
    rw [hafter]
    refine (hsettling.drop rest).next hmem honce fun u w hw hobserved => ?_
    rw [hnews]
    exact abides_remember hw hobserved s v
  rw [← hagenda'] at htasks hrest hseen ⊢
  exact .between htasks hrest hseen

section Answering

variable (hcourse : Course t) (hsound : Sound t.before) (passive : t.isPassive = true)

include hcourse hsound passive

/-- While a callback is under way, all watchers stay as they are. -/
theorem Settling.answering {waiting : List SubscriberId} (hanswering : t.before.isAnswering = true)
    (htold : toldBy (t.before.agenda.take 1) = [])
    (hkept : ∀ task ∈ t.before.agenda.take 1, task.isRemember = false)
    (hsettling : Settling st₀ all waiting t.before) :
    (∃ sc, Changes sc t.before t.after) ∧ Settling st₀ all waiting t.after := by
  cases hcourse with
  | told s rest hmove hagenda hafter =>
      rw [hagenda] at htold
      cases htold
  | kept s v rest hmove hagenda hafter =>
      rw [hagenda] at hkept
      cases hkept _ List.mem_cons_self
  | changed hchanges hnotes =>
      refine ⟨⟨_, hchanges⟩, hsettling.keep fun s w hw hobserved => ?_⟩
      exact abides_passive hchanges hsound passive hanswering hw hobserved

/-- A callback is asked for: the host begins to run it, or gives up handles first. -/
theorem Stage.answer {c : Callback} {s : SubscriberId} {v : Value} {rest : List Task}
    (possible : t.move.isPossible t.before = true)
    (hagenda : t.before.agenda = .call (.changed c v) :: .remember s v :: rest)
    (htasks : ∀ task ∈ rest, task.isTelling = true) (hall : s :: toldBy rest <:+ all)
    (hnews : st₀.news? s = some v) (hsettling : Settling st₀ all (s :: toldBy rest) t.before) :
    ∃ l, Stage st₀ all t.after l ∧ (s, v) :: st₀.due (toldBy rest) = t.reaction?.toList ++ l := by
  have hanswering : t.before.isAnswering = true := by
    rw [isAnswering, hagenda]
    rfl
  obtain ⟨-, hseen⟩ := hsettling.answering hcourse hsound passive hanswering
    (by rw [hagenda]; rfl) (by simp [hagenda, Task.isRemember])
  have hturn : t.before.turn = .asked (.changed c v) := by rw [turn, hagenda]
  cases hmove : t.move with
  | work => rw [hmove, Move.isPossible, hturn] at possible; cases possible
  | finish => rw [hmove, Move.isPossible, hagenda] at possible; cases possible
  | enter =>
      have hagenda' : t.after.agenda = [.running] ++ .remember s v :: rest := by
        rw [Transition.after, hmove, Move.run, enter, hagenda]
        rfl
      refine ⟨_, .begun [.running] s v rest hagenda' (by simp [Task.isRemember]) rfl ?_ htasks hall
        hnews hseen, ?_⟩
      · intro s'
        rw [hagenda']
        rfl
      · rw [Transition.reaction?, hmove, hagenda]
        rfl
  | operate o =>
      rw [hmove, Move.isPossible, hturn, Bool.and_eq_true, Bool.or_eq_true] at possible
      have hagenda' : t.after.agenda = t.before.agenda := by
        rw [Transition.after, hmove, Move.run]
        exact agenda_of_isLettingGo (possible.1.resolve_left (by simp))
      refine ⟨_, .asked c s v rest (hagenda'.trans hagenda) htasks hall hnews hseen, ?_⟩
      rw [Transition.reaction?, hmove]
      rfl

/-- A callback runs. -/
theorem Stage.runs {task : Task} {pre rest : List Task} {s : SubscriberId} {v : Value}
    (hfirst : CallsFirst t.before.agenda) (possible : t.move.isPossible t.before = true)
    (discreet : t.isDiscreet = true)
    (hagenda : t.before.agenda = task :: pre ++ .remember s v :: rest)
    (hpre : ∀ t ∈ task :: pre, t.isRemember = false) (htold : toldBy (task :: pre) = [])
    (hasked : ∀ s', isAsking s' t.before.agenda = false)
    (htasks : ∀ task ∈ rest, task.isTelling = true) (hall : s :: toldBy rest <:+ all)
    (hnews : st₀.news? s = some v) (hsettling : Settling st₀ all (s :: toldBy rest) t.before) :
    t.reaction? = none ∧ Stage st₀ all t.after (st₀.due (toldBy rest)) := by
  have hanswering : t.before.isAnswering = true := by
    rw [isAnswering, hagenda]
    simp [Task.isRemember]
  have htask : ∀ u, task ≠ .update u := by
    rintro u rfl
    cases htold
  have htold₁ : toldBy (t.before.agenda.take 1) = [] := by
    rw [hagenda]
    cases task with
    | update u => exact absurd rfl (htask u)
    | remember _ _ | release _ | act _ _ | releaseView _ | call _ | running => rfl
  obtain ⟨⟨sc, hchanges⟩, hseen⟩ := hsettling.answering hcourse hsound passive hanswering htold₁
    (by simpa [hagenda] using hpre task List.mem_cons_self)
  have htells : ∀ u, t.tells u = false := by
    intro u
    rw [Bool.eq_false_iff]
    intro hu
    obtain ⟨-, rest', hagenda'⟩ := Transition.tells_iff.mp hu
    exact htask u (List.cons.inj (hagenda.symm.trans hagenda')).1
  obtain ⟨pre', hagenda', hpre'⟩ := hchanges.front hpre hagenda
  have htold' : toldBy pre' = [] := by
    rw [Transition.isDiscreet, hanswering, hagenda, hagenda', toldBy_append, toldBy_append,
      htold] at discreet
    have hsame : toldBy pre' ++ toldBy (.remember s v :: rest) = toldBy (.remember s v :: rest) :=
      of_decide_eq_true discreet
    exact List.append_left_eq_self.mp hsame
  refine ⟨Transition.reaction?_eq_none htells fun u => ?_,
    .begun pre' s v rest hagenda' hpre' htold' (fun u => ?_) htasks hall hnews hseen⟩
  · rw [Bool.eq_false_iff]
    intro hstarts
    exact Bool.noConfusion ((hasked u).symm.trans (Transition.starts_iff.mp hstarts).2)
  · rw [Bool.eq_false_iff]
    intro hasking
    rcases t.asking hfirst possible hasking with hbefore | ⟨hu, -⟩
    · exact Bool.noConfusion ((hasked u).symm.trans hbefore)
    · exact Bool.noConfusion ((htells u).symm.trans hu)

end Answering

/-- In each step of a pass, what is due is what happens in the step and what is due afterwards. -/
theorem Stage.step (h : Stage st₀ all t.before l) (hdistinct : all.Nodup)
    (hwatchers : ∀ s ∈ all, (st₀.watcher? s).isSome = true) (hcourse : Course t)
    (hsound : Sound t.before) (hfirst : CallsFirst t.before.agenda)
    (possible : t.move.isPossible t.before = true) (inside : t.isInside = true)
    (passive : t.isPassive = true) (discreet : t.isDiscreet = true) :
    ∃ l', Stage st₀ all t.after l' ∧ l = t.reaction?.toList ++ l' := by
  cases h with
  | between htasks hall hsettling =>
      have hmove := t.move_of_isInside inside (isAnswering_of_isTelling htasks)
      rw [hmove] at possible
      have hturn : t.before.turn = .library := by simpa [Move.isPossible] using possible
      cases hagenda : t.before.agenda with
      | nil =>
          rw [turn, hagenda] at hturn
          cases hturn
      | cons task rest =>
          rw [hagenda] at htasks hall hsettling
          have hrest := fun task' htask' => htasks task' (List.mem_cons_of_mem _ htask')
          have htask := htasks task List.mem_cons_self
          cases task with
          | update s =>
              obtain ⟨w, hw⟩ :=
                Option.isSome_iff_exists.mp (hwatchers s (hall.subset List.mem_cons_self))
              exact Stage.told hmove hagenda hrest hall hw hsettling hdistinct
          | release s =>
              refine ⟨_, .letGo hmove hagenda hrest hall hsettling, ?_⟩
              rw [t.reaction?_of_work hmove hagenda (by simp)]
              rfl
          | remember _ _ | act _ _ | releaseView _ | call _ | running => cases htask
  | asked c s v rest hagenda htasks hall hnews hsettling =>
      exact Stage.answer hcourse hsound passive possible hagenda htasks hall hnews hsettling
  | begun pre s v rest hagenda hpre htold hasked htasks hall hnews hsettling =>
      cases pre with
      | nil =>
          -- The host has dealt with the value, and the library keeps it.
          have hnone : t.before.isAnswering = false := by
            rw [isAnswering, hagenda, List.any_eq_false]
            intro task htask
            simp [isRemember_of_isTelling (htasks task htask)]
          have hmove := t.move_of_isInside inside hnone
          refine ⟨_, .kept hmove hagenda htasks hall hdistinct hnews hsettling, ?_⟩
          rw [t.reaction?_of_work hmove hagenda (by simp)]
          rfl
      | cons task pre =>
          obtain ⟨hreaction, hstage⟩ := Stage.runs hcourse hsound passive hfirst possible discreet
            hagenda hpre htold hasked htasks hall hnews hsettling
          exact ⟨_, hstage, by rw [hreaction]; rfl⟩

end Stage

/-! ## The whole pass -/

/-- The reactions in a play from the state, in order. -/
def State.reactions (st : State) (ms : List Move) : List (SubscriberId × Value) :=
  (played [] st ms).reverse.filterMap Transition.reaction?

theorem reactions_cons (st : State) (m : Move) (ms : List Move) :
    st.reactions (m :: ms) =
      (Transition.mk st m).reaction?.toList ++ (m.run st).reactions ms := by
  rw [State.reactions, played, played_eq_append, List.reverse_append, List.filterMap_append]
  show List.filterMap _ [_] ++ _ = _
  rw [List.filterMap_cons]
  cases (Transition.mk st m).reaction? <;> rfl

/-- The play is a pass: nothing happens but the library's work and what belongs to the callbacks of
watchers, and in the end nothing is left to do. -/
structure IsPass (st : State) (ms : List Move) : Prop where
  possible : st.canPlay ms = true
  inside : ∀ t ∈ played [] st ms, t.isInside = true
  ends : (st.play ms).agenda = []

/-- Whether the transition is tame, and what belongs to a callback in it only reads and tells
nobody. -/
def Transition.isGentle (t : Transition) : Bool := t.isTame && t.isPassive && t.isDiscreet

theorem mem_played_cons {st : State} {m : Move} {ms : List Move} {t : Transition} :
    t ∈ played [] st (m :: ms) ↔ t = ⟨st, m⟩ ∨ t ∈ played [] (m.run st) ms := by
  rw [played, played_eq_append, List.mem_append, List.mem_singleton, or_comm]

/-- In a pass, those react who had news, in order, and have seen the news in the end. -/
theorem Stage.play {st₀ st : State} {all : List SubscriberId} {l : List (SubscriberId × Value)}
    {ts : List Transition} (h : Stage st₀ all st l) (hdistinct : all.Nodup)
    (hwatchers : ∀ s ∈ all, (st₀.watcher? s).isSome = true) (hrun : Run ts st)
    (htame : ∀ t ∈ ts, t.isTame = true) {ms : List Move} (hpass : IsPass st ms)
    (hgentle : ∀ t ∈ played [] st ms, t.isGentle = true) :
    st.reactions ms = l ∧ Settling st₀ all [] (st.play ms) := by
  induction ms generalizing ts st l with
  | nil =>
      have hends : st.agenda = [] := hpass.ends
      cases h with
      | between htasks hall hsettling =>
          rw [hends] at hsettling ⊢
          exact ⟨rfl, hsettling⟩
      | asked c s v rest hagenda => cases hends.symm.trans hagenda
      | begun pre s v rest hagenda => exact absurd (hends.symm.trans hagenda) (by simp)
  | cons m ms ih =>
      have hpossible := hpass.possible
      rw [State.canPlay, Bool.and_eq_true] at hpossible
      have hfirst : Transition.mk st m ∈ played [] st (m :: ms) := mem_played_cons.mpr (.inl rfl)
      have hlater : ∀ t ∈ played [] (m.run st) ms, t ∈ played [] st (m :: ms) :=
        fun t ht => mem_played_cons.mpr (.inr ht)
      have hgentle₀ := hgentle _ hfirst
      simp only [Transition.isGentle, Bool.and_eq_true] at hgentle₀
      obtain ⟨⟨htame₀, hpassive⟩, hdiscreet⟩ := hgentle₀
      obtain ⟨hst, ho⟩ := hrun.consistent htame
      have hcourse := Transition.course ⟨st, m⟩ hst ho hpossible.1 htame₀
      obtain ⟨l', hstage, hl⟩ : ∃ l', Stage st₀ all (m.run st) l' ∧
          l = (Transition.mk st m).reaction?.toList ++ l' :=
        h.step hdistinct hwatchers hcourse hst.sound hrun.callsFirst hpossible.1
          (hpass.inside _ hfirst) hpassive hdiscreet
      obtain ⟨hreactions, hsettling⟩ := ih hstage (hrun.move m hpossible.1)
        (List.forall_mem_cons.mpr ⟨htame₀, htame⟩)
        ⟨hpossible.2, fun t ht => hpass.inside t (hlater t ht), hpass.ends⟩
        fun t ht => hgentle t (hlater t ht)
      exact ⟨by rw [reactions_cons, hreactions, hl], hsettling⟩

/-! ## Every pass comes to an end

If callbacks return at once, a pass takes its course. -/

section Course

variable {t : Transition} {st : State} {m : Move} {ms : List Move} {s : SubscriberId}

theorem Transition.isTame_of_records (hmove : t.move.isTame = true)
    (hrecords : t.after.records = t.before.records) : t.isTame = true := by
  rw [isTame, hmove, keepsKeys, hrecords]
  simp

/-- The library's work between callbacks. -/
theorem Transition.isGentle_of_work (hmove : t.move = .work)
    (hrecords : t.after.records = t.before.records) (hnone : t.before.isAnswering = false) :
    t.isGentle = true := by
  rw [isGentle, isTame_of_records (by rw [hmove]; rfl) hrecords, isPassive, isDiscreet, hnone]
  rfl

/-- Callbacks begin and return. -/
theorem Transition.isGentle_of_agenda (tasks : List Task) (hmove : t.move.isTame = true)
    (hafter : t.after = { t.before with agenda := tasks })
    (htold : toldBy tasks = toldBy t.before.agenda) : t.isGentle = true := by
  have hwatchers : ∀ s, t.after.watcher? s = t.before.watcher? s := fun s => by
    rw [hafter]
    rfl
  rw [isGentle, isTame_of_records hmove (by rw [hafter]), isPassive, isDiscreet, keepsValues,
    keepsSubscriptions, funext hwatchers, hafter]
  simp [htold]

theorem isSome_watcher?_run (possible : m.isPossible st = true)
    (hs : (st.watcher? s).isSome = true) : ((m.run st).watcher? s).isSome = true := by
  obtain ⟨w, hw⟩ := Option.isSome_iff_exists.mp hs
  obtain ⟨w', hw', -⟩ := Transition.lasts ⟨st, m⟩ possible w hw
  exact Option.isSome_iff_exists.mpr ⟨w', hw'⟩

/-- The play is a pass in which callbacks only read and tell nobody. -/
def IsGentlePass (st : State) (ms : List Move) : Prop :=
  IsPass st ms ∧ ∀ t ∈ played [] st ms, t.isGentle = true

theorem IsGentlePass.cons (possible : m.isPossible st = true)
    (inside : (Transition.mk st m).isInside = true)
    (gentle : (Transition.mk st m).isGentle = true) (h : IsGentlePass (m.run st) ms) :
    IsGentlePass st (m :: ms) := by
  refine ⟨⟨?_, fun t ht => ?_, h.1.ends⟩, fun t ht => ?_⟩
  · rw [State.canPlay, possible, h.1.possible]
    rfl
  · rcases mem_played_cons.mp ht with rfl | ht
    · exact inside
    · exact h.1.inside t ht
  · rcases mem_played_cons.mp ht with rfl | ht
    · exact gentle
    · exact h.2 t ht

/-- A callback that is asked for returns at once, and the watcher keeps the value. -/
theorem IsGentlePass.answered {c : Call} {v : Value} {rest : List Task}
    (hagenda : st.agenda = .call c :: .remember s v :: rest)
    (hrest : ∀ t ∈ rest, t.isRemember = false)
    (h : IsGentlePass (((st.enter).finish).step) ms) :
    IsGentlePass st (.enter :: .finish :: .work :: ms) := by
  have henter : st.enter = { st with agenda := .running :: .remember s v :: rest } := by
    rw [enter, hagenda]
  have hfinish : st.enter.finish = { st with agenda := .remember s v :: rest } := by
    rw [henter]
    rfl
  have hkeep : st.enter.finish.step = ({ st with agenda := rest } : State).remember s v := by
    rw [hfinish]
    rfl
  refine .cons ?_ ?_ ?_ (.cons ?_ ?_ ?_ (.cons ?_ ?_ ?_ h))
  · rw [Move.isPossible, turn, hagenda]
  · rw [Transition.isInside, isAnswering, hagenda]
    rfl
  · refine Transition.isGentle_of_agenda (t := ⟨st, .enter⟩) _ rfl henter ?_
    rw [hagenda]
    rfl
  · show Move.isPossible st.enter .finish = true
    rw [henter]
    rfl
  · show (Transition.mk st.enter .finish).isInside = true
    rw [henter]
    rfl
  · refine Transition.isGentle_of_agenda (t := ⟨st.enter, .finish⟩) (.remember s v :: rest) rfl
      ?_ ?_
    · show st.enter.finish = _
      rw [hfinish, henter]
    · show _ = toldBy st.enter.agenda
      rw [henter]
      rfl
  · show Move.isPossible st.enter.finish .work = true
    rw [hfinish]
    rfl
  · show (Transition.mk st.enter.finish .work).isInside = true
    rw [Transition.isInside, Bool.or_true]
  · refine Transition.isGentle_of_work (t := ⟨st.enter.finish, .work⟩) rfl ?_ ?_
    · show st.enter.finish.step.records = st.enter.finish.records
      rw [hkeep, hfinish]
      rfl
    · show st.enter.finish.isAnswering = false
      rw [hfinish, isAnswering, List.any_eq_false]
      intro t ht
      simp [hrest t ht]

/-- Telling a watcher, whose callback returns at once if it is asked for. -/
theorem IsGentlePass.told {rest : List Task} {w : Watcher} (hagenda : st.agenda = .update s :: rest)
    (htasks : ∀ t ∈ rest, t.isTelling = true) (hw : st.watcher? s = some w)
    (hlater : ∀ st' : State, st'.agenda = rest →
      (∀ u, (st.watcher? u).isSome = true → (st'.watcher? u).isSome = true) →
      ∃ ms, IsGentlePass st' ms) : ∃ ms, IsGentlePass st ms := by
  let t : Transition := ⟨st, .work⟩
  have hnone : st.isAnswering = false := by
    rw [isAnswering, hagenda, List.any_eq_false]
    intro task htask
    simp [isRemember_of_isTelling (htasks task htask)]
  have hpossible : Move.isPossible st .work = true := by rw [Move.isPossible, turn, hagenda]; rfl
  have htelling : Telling { st with agenda := rest } s st.step :=
    t.telling_of_work rfl hagenda
  have hgentle : t.isGentle = true :=
    t.isGentle_of_work rfl htelling.sameGraph.records hnone
  have hinside : t.isInside = true := by rw [Transition.isInside, Bool.or_true]
  have hsome : ∀ u, (st.watcher? u).isSome = true → (st.step.watcher? u).isSome = true :=
    fun u hu => isSome_watcher?_run hpossible hu
  by_cases hreads : st.callsHost s = false ∨ st.news? s = none
  · have hafter : st.step.agenda = rest :=
      htelling.agenda_of_reads hw (hreads.imp id (news?_drop ..).trans)
    obtain ⟨ms, hms⟩ := hlater st.step hafter hsome
    exact ⟨_, .cons hpossible hinside hgentle hms⟩
  · rw [not_or, Bool.not_eq_false, ← ne_eq, Option.ne_none_iff_exists'] at hreads
    obtain ⟨hcalls, v, hnews⟩ := hreads
    obtain ⟨c, hafter⟩ := htelling.agenda_of_asks hcalls ((news?_drop ..).trans hnews)
    have hkeep : st.step.enter.finish.step =
        ({ st.step with agenda := rest } : State).remember s v := by
      rw [enter, hafter]
      rfl
    obtain ⟨ms, hms⟩ : ∃ ms, IsGentlePass st.step.enter.finish.step ms := by
      refine hlater _ ?_ fun u hu => ?_
      · rw [hkeep, agenda_remember]
      · obtain ⟨w', hw'⟩ := Option.isSome_iff_exists.mp (hsome u hu)
        rw [hkeep, watcher?_remember]
        have hsame : ({ st.step with agenda := rest } : State).watcher? u = some w' := hw'
        rw [hsame]
        split <;> rfl
    refine ⟨_, .cons hpossible hinside hgentle (.answered hafter (fun task htask => ?_) hms)⟩
    exact isRemember_of_isTelling (htasks task htask)

/-- Where watchers are to be told, there is a pass in which their callbacks only read. -/
theorem exists_isGentlePass {tasks : List Task} (hagenda : st.agenda = tasks)
    (htasks : ∀ t ∈ tasks, t.isTelling = true)
    (hwatchers : ∀ s ∈ toldBy tasks, (st.watcher? s).isSome = true) :
    ∃ ms, IsGentlePass st ms := by
  induction tasks generalizing st with
  | nil => exact ⟨[], ⟨rfl, nofun, hagenda⟩, nofun⟩
  | cons task rest ih =>
      have hrest := fun t ht => htasks t (List.mem_cons_of_mem _ ht)
      have htask := htasks task List.mem_cons_self
      cases task with
      | update s =>
          obtain ⟨w, hw⟩ := Option.isSome_iff_exists.mp (hwatchers s List.mem_cons_self)
          refine IsGentlePass.told hagenda hrest hw fun st' hst' hsome =>
            ih hst' hrest fun u hu => ?_
          exact hsome u (hwatchers u (List.mem_cons_of_mem _ hu))
      | release s =>
          let t : Transition := ⟨st, .work⟩
          have hpossible : Move.isPossible st .work = true := by
            rw [Move.isPossible, turn, hagenda]
            rfl
          have hafter : st.step = ({ st with agenda := rest } : State).release s := by
            rw [step, hagenda]
            rfl
          obtain ⟨ms, hms⟩ : ∃ ms, IsGentlePass st.step ms := by
            refine ih (by rw [hafter, agenda_release]) hrest fun u hu => ?_
            exact isSome_watcher?_run hpossible (hwatchers u hu)
          refine ⟨_, .cons hpossible ?_ (t.isGentle_of_work rfl ?_ ?_) hms⟩
          · rw [Transition.isInside, Bool.or_true]
          · show st.step.records = st.records
            rw [hafter]
            exact (onlySubscriptions_release _ s).records
          · show st.isAnswering = false
            rw [isAnswering, hagenda, List.any_eq_false]
            intro task htask
            simp [isRemember_of_isTelling (hrest task htask)]
      | remember _ _ | act _ _ | releaseView _ | call _ | running => cases htask

end Course

end DataBinding
