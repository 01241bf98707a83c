import DataBinding.Proofs.Subscription.Disposal

set_option autoImplicit false

/-! # When a callback runs

A watcher has *news* if it would read another value than the one it has seen, and is not disposed
of. It reacts exactly when it is told while it has news (`reacts_iff`): a watcher that shows its
value does so at once, and one that calls the host puts its callback first on the agenda, where
the host comes to it before anything else is done.
-/

namespace DataBinding

open State

/-! ## News and reactions -/

namespace State

/-- The value that the watcher would react to if it were told now. -/
def news? (st : State) (s : SubscriberId) : Option Value :=
  match st.watcher? s with
  | none => none
  | some w =>
    if w.disposed || (st.read w.root w.path).same w.seen then none
    else some (st.read w.root w.path)

/-- Whether the subscriber is a watcher that hands new values to the host. -/
def callsHost (st : State) (s : SubscriberId) : Bool :=
  match (st.watcher? s).map Watcher.reaction with
  | some (.call _) => true
  | _ => false

end State

namespace Transition

/-- The watcher that begins to react in the transition, with the value that it reacts to. One that
shows its value reacts when it is told, one that calls the host when the host enters its
callback. -/
def reaction? (t : Transition) : Option (SubscriberId × Value) :=
  match t.move, t.before.agenda with
  | .work, .update s :: _ =>
    if t.before.callsHost s then none else (t.before.news? s).map fun v => (s, v)
  | .enter, .call (.changed _ v) :: .remember s _ :: _ => some (s, v)
  | _, _ => none

/-- Whether the watcher begins to react in the transition. -/
def reacts (t : Transition) (s : SubscriberId) : Bool := t.reaction?.any (·.1 = s)

end Transition

section News

variable {st st' : State} {s : SubscriberId} {w : Watcher}

theorem news?_of_disposed (hw : st.watcher? s = some w) (h : w.disposed = true) :
    st.news? s = none := by
  rw [news?, hw]
  simp [h]

theorem news?_of_same (hw : st.watcher? s = some w)
    (h : (st.read w.root w.path).same w.seen = true) : st.news? s = none := by
  rw [news?, hw]
  simp [h]

theorem news?_of_differs (hw : st.watcher? s = some w) (hlive : w.disposed = false)
    (h : (st.read w.root w.path).same w.seen = false) :
    st.news? s = some (st.read w.root w.path) := by
  rw [news?, hw]
  simp [hlive, h]

theorem callsHost_of_reaction (hw : st.watcher? s = some w) {c : Callback}
    (h : w.reaction = .call c) : st.callsHost s = true := by
  rw [callsHost, hw, Option.map_some, h]

theorem callsHost_of_shown (hw : st.watcher? s = some w) (h : ∀ c, w.reaction ≠ .call c) :
    st.callsHost s = false := by
  rw [callsHost, hw, Option.map_some]
  split
  · rename_i c hc
    exact absurd (Option.some.inj hc) (h c)
  · rfl

theorem news?_congr (hgraph : SameGraph st st') (hsubscribers : st'.subscribers = st.subscribers)
    (s : SubscriberId) : st'.news? s = st.news? s := by
  rw [news?, watcher?_congr hsubscribers, news?]
  simp only [hgraph.read]

theorem news?_drop (st : State) (rest : List Task) (s : SubscriberId) :
    ({ st with agenda := rest } : State).news? s = st.news? s := by
  have hgraph : SameGraph st { st with agenda := rest } := ⟨rfl, rfl⟩
  exact news?_congr hgraph rfl s

/-- When a subscriber is told, its callback is asked for exactly if it is a watcher with news that
calls the host. -/
theorem Telling.isAsking_iff (h : Telling st s st') (hst : ∀ t ∈ st.agenda, t.isCall = false)
    (s' : SubscriberId) : isAsking s' st'.agenda = true ↔
      s' = s ∧ st.callsHost s = true ∧ (st.news? s).isSome = true := by
  have hsame : st'.agenda = st.agenda → st.news? s = none ∨ st.callsHost s = false →
      (isAsking s' st'.agenda = true ↔
        s' = s ∧ st.callsHost s = true ∧ (st.news? s).isSome = true) := by
    intro hagenda hnone
    rw [hagenda, isAsking_of_none hst]
    rcases hnone with hnone | hnone
    · simp [hnone]
    · simp [hnone]
  cases h with
  | probe c hs =>
      have hnews : st.news? s = none := by rw [news?, hs]
      rw [hnews]
      simp [isAsking]
  | disposed w hw hdisposed => exact hsame rfl (.inl (news?_of_disposed hw hdisposed))
  | unchanged w hw hlive hsame' =>
      exact hsame (agenda_reread st s w) (.inl (news?_of_same hw hsame'))
  | shown w n hw hlive hdiffers hreaction =>
      exact hsame (((agenda_remember ..).trans (agenda_setText ..)).trans (agenda_reread st s w))
        (.inr (callsHost_of_shown hw (by simp [hreaction])))
  | valued w n nodes hw hlive hdiffers hreaction hkinds =>
      exact hsame (agenda_reread st s w) (.inr (callsHost_of_shown hw (by simp [hreaction])))
  | called w c hw hlive hdiffers hreaction =>
      rw [callsHost_of_reaction hw hreaction, news?_of_differs hw hlive hdiffers]
      simp [isAsking, eq_comm]

end News

/-! ## Moves -/

section Moves

variable {t : Transition} {s : SubscriberId}

theorem Transition.tells_iff : t.tells s = true ↔
    t.move = .work ∧ ∃ rest, t.before.agenda = .update s :: rest := by
  rw [tells]
  split
  · rename_i s' rest hmove hagenda
    simp [hmove, hagenda]
  · rename_i hnot
    constructor
    · exact nofun
    · rintro ⟨hmove, rest, hagenda⟩
      exact absurd hagenda (hnot s rest hmove)

theorem Transition.starts_iff :
    t.starts s = true ↔ t.move = .enter ∧ isAsking s t.before.agenda = true := by
  rw [starts]
  split
  · rename_i hmove
    simp [hmove]
  · rename_i hmove
    exact ⟨fun h => Bool.noConfusion h, fun h => absurd h.1 hmove⟩

/-- A watcher reacts when it is told and shows its news, or when the host enters its callback. -/
theorem Transition.reacts_iff : t.reacts s = true ↔
    (t.tells s = true ∧ t.before.callsHost s = false ∧ (t.before.news? s).isSome = true) ∨
      t.starts s = true := by
  rw [tells_iff, starts_iff, reacts, reaction?]
  split
  · rename_i s' rest hmove hagenda
    simp only [hmove, hagenda, true_and, List.cons.injEq, Task.update.injEq, reduceCtorEq,
      false_and, or_false]
    by_cases hs : s' = s
    · subst hs
      cases t.before.callsHost s' with
      | true => simp
      | false => cases t.before.news? s' <;> simp
    · split
      · simp [hs]
      · cases t.before.news? s' <;> simp [hs]
  · rename_i c v s' v' rest hmove hagenda
    simp [hmove, hagenda, isAsking]
  · rename_i hwork henter
    simp only [Option.any_none, Bool.false_eq_true, false_iff, not_or, not_and]
    constructor
    · rintro ⟨hmove, rest, hagenda⟩
      exact absurd hagenda (hwork s rest hmove)
    · intro hmove hasking
      unfold isAsking at hasking
      split at hasking
      · rename_i c v s' v' rest hagenda
        exact henter c v s' v' rest hmove hagenda
      · cases hasking

/-- The library's work at a task other than telling puts harmless tasks on the agenda. -/
theorem harmless_work {rest : List Task} {task : Task} (hmove : t.move = .work)
    (hagenda : t.before.agenda = task :: rest) (htask : ∀ s, task ≠ .update s)
    (hcall : task.isCall = false) : ∃ l, t.after.agenda = l ++ rest ∧ Harmless l := by
  have hafter := t.after_of_work hmove hagenda
  have hnothing : t.after.agenda = rest → ∃ l, t.after.agenda = l ++ rest ∧ Harmless l :=
    fun h => ⟨[], h, .of_none (List.forall_mem_nil _)⟩
  cases task with
  | update s => exact absurd rfl (htask s)
  | act n a => exact hafter ▸ puts_act n a
  | release s => exact hnothing (hafter ▸ agenda_release _ s)
  | releaseView v => exact hnothing (hafter ▸ agenda_releaseView _ v)
  | remember s v => exact hnothing (hafter ▸ agenda_remember _ s v)
  | running => exact hnothing (by rw [hafter]; rfl)
  | call c => cases hcall

/-- If the callback of a watcher is asked for after a move, then it was before, or the watcher was
told in the move, with news. -/
theorem Transition.asking (h : CallsFirst t.before.agenda)
    (possible : t.move.isPossible t.before = true) (hasking : isAsking s t.after.agenda = true) :
    isAsking s t.before.agenda = true ∨
      t.tells s = true ∧ (t.before.news? s).isSome = true := by
  have hnever : ∀ {l rest : List Task}, t.after.agenda = l ++ rest → Harmless l →
      (∀ t' ∈ rest, t'.isCall = false) → False := by
    intro l rest hagenda hl hrest
    rw [hagenda, hl.isAsking_append hrest] at hasking
    cases hasking
  cases hmove : t.move with
  | work =>
      rw [hmove] at possible
      have hturn : t.before.turn = .library := by simpa [Move.isPossible] using possible
      cases hagenda : t.before.agenda with
      | nil =>
          rw [turn, hagenda] at hturn
          cases hturn
      | cons task rest =>
          rw [hagenda] at h
          cases task with
          | update s' =>
              have hafter : t.after = ({ t.before with agenda := rest } : State).update s' :=
                t.after_of_work hmove hagenda
              obtain ⟨rfl, -, hnews⟩ := ((Telling.of_update hafter).isAsking_iff h s).mp hasking
              exact .inr ⟨tells_iff.mpr ⟨hmove, rest, hagenda⟩, news?_drop t.before rest s ▸ hnews⟩
          | call c =>
              rw [turn, hagenda] at hturn
              cases hturn
          | remember _ _ | release _ | act _ _ | releaseView _ | running =>
              obtain ⟨l, hl, hharmless⟩ := harmless_work hmove hagenda (by simp) rfl
              exact (hnever hl hharmless h).elim
  | enter =>
      have hafter : t.after = t.before.enter := by rw [Transition.after, hmove, Move.run]
      rw [enter] at hafter
      split at hafter
      · rename_i c rest hagenda
        rw [hagenda] at h
        have hl : t.after.agenda = [.running] ++ rest := by rw [hafter]; rfl
        exact (hnever hl (.of_none (by simp [Task.isCall])) h).elim
      · exact .inl (hafter ▸ hasking)
  | finish =>
      have hafter : t.after = t.before.finish := by rw [Transition.after, hmove, Move.run]
      rw [finish] at hafter
      split at hafter
      · rename_i rest hagenda
        rw [hagenda] at h
        have hl : t.after.agenda = [] ++ rest := by rw [hafter]; rfl
        exact (hnever hl (.of_none (List.forall_mem_nil _)) h).elim
      · exact .inl (hafter ▸ hasking)
  | operate o =>
      have hafter : t.after = o.run t.before := by rw [Transition.after, hmove, Move.run]
      rw [hmove, Move.isPossible, Bool.and_eq_true, Bool.or_eq_true] at possible
      rcases possible.1 with hturn | hletting
      · have hputs : Puts t.before (o.run t.before) := o.puts
        obtain ⟨l, hl, hharmless⟩ := hputs
        exact (hnever (hafter ▸ hl) hharmless (isCall_of_turn_host h (by simpa using hturn))).elim
      · rw [hafter, agenda_of_isLettingGo hletting] at hasking
        exact .inl hasking

/-- A watcher that is told while it has news reacts at once, or its callback is asked for. -/
theorem Transition.news_told (h : CallsFirst t.before.agenda) (htells : t.tells s = true)
    (hnews : (t.before.news? s).isSome = true) :
    t.reacts s = true ∨ isAsking s t.after.agenda = true := by
  obtain ⟨hmove, rest, hagenda⟩ := tells_iff.mp htells
  cases hcalls : t.before.callsHost s with
  | false => exact .inl (reacts_iff.mpr (.inl ⟨htells, hcalls, hnews⟩))
  | true =>
      rw [hagenda] at h
      have hafter : t.after = ({ t.before with agenda := rest } : State).update s :=
        t.after_of_work hmove hagenda
      refine .inr (((Telling.of_update hafter).isAsking_iff h s).mpr ⟨rfl, hcalls, ?_⟩)
      rw [news?_drop]
      exact hnews

/-- When the callback of a watcher is asked for, the host enters it, or goes on asking for it. -/
theorem Transition.asked (possible : t.move.isPossible t.before = true)
    (hasking : isAsking s t.before.agenda = true) :
    t.starts s = true ∨ isAsking s t.after.agenda = true := by
  obtain ⟨c, v, v', rest, hagenda⟩ : ∃ c v v' rest,
      t.before.agenda = .call (.changed c v) :: .remember s v' :: rest := by
    unfold isAsking at hasking
    split at hasking
    · rename_i c v s' v' rest hagenda
      exact ⟨c, v, v', rest, of_decide_eq_true hasking ▸ hagenda⟩
    · cases hasking
  have hturn : t.before.turn = .asked (.changed c v) := by rw [turn, hagenda]
  cases hmove : t.move with
  | enter => exact .inl (starts_iff.mpr ⟨hmove, hasking⟩)
  | work => rw [hmove, Move.isPossible, hturn] at possible; cases possible
  | finish => rw [hmove, Move.isPossible, hagenda] at possible; cases possible
  | operate o =>
      rw [hmove, Move.isPossible, hturn, Bool.and_eq_true, Bool.or_eq_true] at possible
      refine .inr ?_
      rw [Transition.after, hmove, Move.run,
        agenda_of_isLettingGo (possible.1.resolve_left (by simp))]
      exact hasking

end Moves

/-! ## A play -/

/-- What is so in some transition of a play is so in the first or in a later one. -/
theorem exists_played_cons {p : Transition → Prop} (st : State) (m : Move) (ms : List Move) :
    (∃ t ∈ played [] st (m :: ms), p t) ↔ p ⟨st, m⟩ ∨ ∃ t ∈ played [] (m.run st) ms, p t := by
  rw [played, played_eq_append]
  simp only [List.mem_append, List.mem_singleton, or_and_right, exists_or, exists_eq_left]
  exact or_comm

theorem mem_played (ts : List Transition) (st : State) (ms : List Move) (m : Move)
    (rest : List Move) : ⟨st.play ms, m⟩ ∈ played ts st (ms ++ m :: rest) := by
  induction ms generalizing ts st with
  | nil =>
      rw [List.nil_append, played, played_eq_append]
      exact List.mem_append_right _ List.mem_cons_self
  | cons m' ms ih => exact ih _ (m'.run st)

/-- If the host has nothing to answer in the end, a watcher has reacted exactly if it was told while
it had news, unless its callback was asked for from the beginning. -/
theorem reacts_iff_of_play {st : State} {s : SubscriberId} (h : CallsFirst st.agenda)
    (ms : List Move) (hplay : st.canPlay ms = true) (hend : (st.play ms).turn = .host) :
    (∃ t ∈ played [] st ms, t.reacts s = true) ↔ isAsking s st.agenda = true ∨
      ∃ t ∈ played [] st ms, t.tells s = true ∧ (t.before.news? s).isSome = true := by
  induction ms generalizing st with
  | nil =>
      have hcalls := isCall_of_turn_host h hend
      simp [played, isAsking_of_none hcalls]
  | cons m ms ih =>
      rw [State.canPlay, Bool.and_eq_true] at hplay
      let t : Transition := ⟨st, m⟩
      have hlater := ih (t.callsFirst h hplay.1) hplay.2 hend
      rw [exists_played_cons, exists_played_cons]
      refine (or_congr_right hlater).trans ?_
      constructor
      · rintro (hreacts | hasking | htold)
        · rcases Transition.reacts_iff.mp hreacts with ⟨htells, -, hnews⟩ | hstarts
          · exact .inr (.inl ⟨htells, hnews⟩)
          · exact .inl (Transition.starts_iff.mp hstarts).2
        · exact (t.asking h hplay.1 hasking).imp_right .inl
        · exact .inr (.inr htold)
      · rintro (hasking | ⟨htells, hnews⟩ | htold)
        · rcases t.asked hplay.1 hasking with hstarts | hasking
          · exact .inl (Transition.reacts_iff.mpr (.inr hstarts))
          · exact .inr (.inl hasking)
        · exact (t.news_told h htells hnews).imp_right .inl
        · exact .inr (.inr htold)

end DataBinding
