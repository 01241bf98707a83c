import DataBinding.Proofs.Telling

set_option autoImplicit false

/-! # Calls to the host come first

A call to the host is only ever the first thing on the agenda: it is answered before anything
else is done (`Run.callsFirst`). So while the host acts no call is waiting, and whether a watcher
calls the host is decided when it is told (`Transition.calls`).
-/

namespace DataBinding

open State

/-- Whether the task is a call to the host. -/
def Task.isCall : Task → Bool
  | .call _ => true
  | _ => false

/-- Whether only the first of the tasks may be a call. -/
def CallsFirst (tasks : List Task) : Prop := ∀ t ∈ tasks.tail, t.isCall = false

/-- Whether the tasks begin with the callback of the watcher `s`. -/
def isAsking (s : SubscriberId) : List Task → Bool
  | .call (.changed ..) :: .remember s' _ :: _ => s' = s
  | _ => false

/-- Whether the host begins to run the callback of the watcher `s`. -/
def Transition.starts (t : Transition) (s : SubscriberId) : Bool :=
  match t.move with
  | .enter => isAsking s t.before.agenda
  | _ => false

section Tasks

variable {l rest : List Task} {s : SubscriberId}

theorem callsFirst_of_none (h : ∀ t ∈ l, t.isCall = false) : CallsFirst l :=
  fun t ht => h t (List.mem_of_mem_tail ht)

theorem CallsFirst.append (h : CallsFirst l) (hrest : ∀ t ∈ rest, t.isCall = false) :
    CallsFirst (l ++ rest) := by
  cases l with
  | nil => exact callsFirst_of_none hrest
  | cons t l =>
      intro t' ht'
      exact (List.mem_append.mp ht').elim (h t') (hrest t')

theorem isAsking_of_none (h : ∀ t ∈ l, t.isCall = false) : isAsking s l = false := by
  cases l with
  | nil => rfl
  | cons t l =>
      have ht := h t List.mem_cons_self
      cases t with
      | call c => cases ht
      | update _ | remember _ _ | release _ | act _ _ | releaseView _ | running => rfl

theorem isCall_updates (subscribers : List SubscriberId) :
    ∀ t ∈ updates subscribers, t.isCall = false := by
  intro t ht
  obtain ⟨s, -, rfl | rfl⟩ := mem_updates.mp ht <;> rfl

end Tasks

/-- Tasks that may come in front of others which are no calls: only the first of them may be a
call, and it is no watcher's. -/
structure Harmless (l : List Task) : Prop where
  first : CallsFirst l
  unasked : ∀ c v, .call (.changed c v) ∉ l

namespace Harmless

variable {l rest : List Task}

theorem of_none (h : ∀ t ∈ l, t.isCall = false) : Harmless l :=
  ⟨callsFirst_of_none h, fun _ _ hmem => Bool.noConfusion (h _ hmem)⟩

theorem isAsking_append (h : Harmless l) (hrest : ∀ t ∈ rest, t.isCall = false)
    (s : SubscriberId) : isAsking s (l ++ rest) = false := by
  cases l with
  | nil => exact isAsking_of_none hrest
  | cons t l =>
      cases t with
      | call c =>
          cases c with
          | changed c v => exact absurd List.mem_cons_self (h.unasked c v)
          | notified _ | heard _ | invoked _ _ => rfl
      | update _ | remember _ _ | release _ | act _ _ | releaseView _ | running => rfl

end Harmless

/-! ## What operations and tasks put on the agenda -/

/-- From `st` to `st'` harmless tasks were put on the agenda. -/
def Puts (st st' : State) : Prop := ∃ l, st'.agenda = l ++ st.agenda ∧ Harmless l

section Puts

variable {st st' : State}

theorem Puts.of_eq (h : st'.agenda = st.agenda) : Puts st st' := ⟨[], h, .of_none nofun⟩

theorem Puts.of_push {l : List Task} (hl : Harmless l) : Puts st (st.push l) := ⟨l, rfl, hl⟩

theorem Puts.of_updates (h : ∃ l, st'.agenda = updates l ++ st.agenda) : Puts st st' := by
  obtain ⟨l, hl⟩ := h
  exact ⟨updates l, hl, .of_none (isCall_updates l)⟩

theorem puts_dispatch (n : NodeId) (event : String) : Puts st (st.dispatch n event) := by
  refine .of_push (.of_none fun t ht => ?_)
  obtain ⟨l, -, rfl⟩ := List.mem_map.mp ht
  rfl

/-- To call a method is refused if there is no such method, and for no other reason, and then nothing
has been done. -/
theorem callMethod_eq_error_iff {v : ViewId} {name : String} {fault : Fault} :
    st.callMethod v name = (.error fault, st') ↔
      (st.view v).methods.lookup name = none ∧ fault = .missingMethod name ∧ st' = st := by
  rw [callMethod, method?]
  cases (st.view v).methods.lookup name with
  | none => simp [eq_comm]
  | some c => simp

theorem puts_callWith (v : ViewId) (c : Callback) : Puts st (st.callWith v c) := by
  refine ⟨[.call (.invoked c v), .releaseView v], rfl, ?_, by simp⟩
  simp [CallsFirst, Task.isCall]

theorem puts_act (n : NodeId) (a : Action) : Puts st (st.act n a) := by
  cases a with
  | call c => exact .of_push ⟨by simp [CallsFirst], by simp⟩
  | edit v key =>
      simp only [act]
      split
      · -- Behind the updates that the write brings about, the view is let go of.
        obtain ⟨l, hl⟩ := writeView_agenda ((st.holdView v).push [.releaseView v]) v key
          (.text (st.node n).value)
        refine ⟨updates l ++ [.releaseView v], by rw [hl]; simp, .of_none fun t ht => ?_⟩
        rcases List.mem_append.mp ht with ht | ht
        · exact isCall_updates l t ht
        · rw [List.mem_singleton.mp ht]
          rfl
      · exact .of_eq rfl
  | invoke v name =>
      simp only [act, callMethod]
      split
      · cases st.method? v name with
        | ok c => exact puts_callWith v c
        | error fault => exact .of_eq rfl
      · exact .of_eq rfl

theorem agenda_mounted (root : NodeId) (o : ViewOptions) :
    (st.mounted root o).agenda = st.agenda :=
  (wired_compile (st.withView root o) st.views.fresh root).agenda.trans
    (observes_observe st o.data).agenda

/-- Giving up handles leaves the agenda alone. -/
theorem agenda_of_isLettingGo {o : Operation} (h : o.isLettingGo = true) :
    (o.run st).agenda = st.agenda := by
  cases o with
  | release s => exact agenda_release st s
  | abandon bs => exact agenda_foldl _ (fun st b => agenda_foldl release agenda_release _ st) bs st
  | releaseView v => exact agenda_releaseView st v
  | _ => cases h

/-- What the host does puts harmless tasks on the agenda. -/
theorem Operation.puts (o : Operation) : Puts st (o.run st) := by
  cases o with
  | writeField p v => exact .of_updates (writeField_agenda st p v)
  | writePath root path v => exact .of_updates (writePath_agenda st root path v)
  | assign c v => exact .of_updates (assign_agenda st c v)
  | writeView v key value => exact .of_updates (writeView_agenda st v key value)
  | notify c => exact .of_updates (notify_agenda st c)
  | observe v => exact .of_eq (agenda_observeValue st v)
  | define p v => exact .of_eq (agenda_observeValue st v)
  | subscribe c s => exact .of_eq (agenda_subscribe st c s)
  | leave sources s => exact .of_eq (agenda_leave st sources s)
  | leaveAbandoned previous next s => exact .of_eq (agenda_leaveAbandoned st previous next s)
  | track t root path => exact .of_eq (agenda_track st t root path)
  | trackCell t c => exact .of_eq (agenda_subscribe st _ t.reader)
  | watch root path c => exact .of_eq agenda_watch
  | tell s => exact ⟨[.update s, .release s], rfl, .of_none (by simp [Task.isCall])⟩
  | dispose s => exact .of_eq (agenda_dispose st s)
  | setText n text => exact .of_eq (agenda_setText st n text)
  | typeInto n value =>
      let typed := st.updateNode n (·.typeValue value)
      have hdispatch : Puts typed (typed.dispatch n "input") := puts_dispatch n "input"
      exact hdispatch
  | dispatch n event => exact puts_dispatch n event
  | mount document? o =>
      simp only [run]
      cases hroot : st.resolveRoot document? o.root? with
      | error fault =>
          rw [mount_eq_error hroot]
          exact .of_eq rfl
      | ok root =>
          rw [mount_eq hroot]
          exact .of_eq (agenda_mounted root o)
  | compile v root => exact .of_eq (wired_compile st v root).agenda
  | detach b => exact .of_eq (agenda_detach st b)
  | unmount v => exact .of_eq (agenda_unmount st v)
  | callMethod v name =>
      simp only [run, State.callMethod]
      cases st.method? v name with
      | error fault => exact .of_eq rfl
      | ok c => exact puts_callWith v c
  | release s => exact .of_eq (agenda_release st s)
  | abandon bs => exact .of_eq (agenda_of_isLettingGo rfl)
  | releaseView v => exact .of_eq (agenda_releaseView st v)
  | newArray _ | newRecord | newChannel | unsubscribe _ _ | newProbe _ | hold _ | newNode _ _
  | appendChild _ _ | setAttribute _ _ _ | setValue _ _ | listen _ _ _ | unlisten _
  | holdView _ => exact .of_eq rfl

end Puts

/-! ## Moves -/

/-- What a move comes to, as far as calls are concerned: only the first thing to do may be a call,
and if it is the callback of a watcher, the watcher was not disposed of before the move. -/
structure Calls (st st' : State) : Prop where
  first : CallsFirst st'.agenda
  asking : ∀ s, isAsking s st'.agenda = true → ∃ w, st.watcher? s = some w ∧ w.disposed = false

section Moves

variable {st st' : State} {rest : List Task}

theorem Calls.of_none (h : ∀ t ∈ st'.agenda, t.isCall = false) : Calls st st' :=
  ⟨callsFirst_of_none h, fun _ hs => Bool.noConfusion ((isAsking_of_none h).symm.trans hs)⟩

theorem Puts.calls (h : Puts st st') (hst : ∀ t ∈ st.agenda, t.isCall = false) (before : State) :
    Calls before st' := by
  obtain ⟨l, hagenda, hl⟩ := h
  refine ⟨hagenda ▸ hl.first.append hst, fun s hs => ?_⟩
  rw [hagenda, hl.isAsking_append hst] at hs
  cases hs

/-- A watcher that is told may ask for its callback, unless it is disposed of. -/
theorem Telling.calls {s : SubscriberId} (h : Telling st s st')
    (hst : ∀ t ∈ st.agenda, t.isCall = false) : Calls st st' := by
  have hsame : st'.agenda = st.agenda → Calls st st' := by
    intro hagenda
    exact .of_none (hagenda ▸ hst)
  cases h with
  | probe c hs => exact (Puts.of_push ⟨by simp [CallsFirst], by simp⟩).calls hst st
  | disposed w hw hdisposed => exact hsame rfl
  | unchanged w hw hlive hsame' => exact hsame (agenda_reread st s w)
  | shown w n hw hlive hdiffers hreaction =>
      exact hsame (((agenda_remember ..).trans (agenda_setText ..)).trans (agenda_reread st s w))
  | valued w n nodes hw hlive hdiffers hreaction hkinds => exact hsame (agenda_reread st s w)
  | called w c hw hlive hdiffers hreaction =>
      have hagenda : ∀ v, ((st.reread s w).push [.call (.changed c v), .remember s v]).agenda =
          .call (.changed c v) :: .remember s v :: st.agenda := by
        intro v
        rw [agenda_push, agenda_reread]
        rfl
      constructor
      · intro t ht
        rw [hagenda] at ht
        rcases List.mem_cons.mp ht with rfl | ht
        · rfl
        · exact hst t ht
      · intro s' hs'
        rw [hagenda] at hs'
        obtain rfl : s = s' := by simpa [isAsking] using hs'
        exact ⟨w, hw, hlive⟩

theorem calls_work {t : Transition} (h : CallsFirst t.before.agenda) (hmove : t.move = .work)
    (hturn : t.before.turn = .library) : Calls t.before t.after := by
  have hafter : t.after = t.before.step := by rw [Transition.after, hmove, Move.run]
  cases hagenda : t.before.agenda with
  | nil =>
      rw [turn, hagenda] at hturn
      cases hturn
  | cons task rest =>
      rw [hagenda] at h
      rw [step, hagenda] at hafter
      have hrest : ∀ t' ∈ ({ t.before with agenda := rest } : State).agenda, t'.isCall = false := h
      cases task with
      | update s =>
          have htelling := (Telling.of_update hafter).calls hrest
          exact ⟨htelling.first, htelling.asking⟩
      | remember s v => exact hafter ▸ .of_none hrest
      | release s =>
          rw [hafter]
          exact .of_none (by simpa [perform] using hrest)
      | act n a => exact hafter ▸ (puts_act n a).calls hrest t.before
      | releaseView v =>
          rw [hafter]
          exact .of_none (by simpa [perform] using hrest)
      | call c =>
          rw [turn, hagenda] at hturn
          cases hturn
      | running => exact hafter ▸ .of_none hrest

/-- While the host acts, no call is waiting. -/
theorem isCall_of_turn_host (h : CallsFirst st.agenda) (hturn : st.turn = .host) :
    ∀ t ∈ st.agenda, t.isCall = false := by
  cases hagenda : st.agenda with
  | nil => nofun
  | cons task rest =>
      rw [hagenda] at h
      cases task with
      | running =>
          intro t ht
          rcases List.mem_cons.mp ht with rfl | ht
          · rfl
          · exact h t ht
      | update _ | remember _ _ | release _ | act _ _ | releaseView _ | call _ =>
          rw [turn, hagenda] at hturn
          cases hturn

/-- A move leaves the agenda as it is, or the first thing to do afterwards is what it put there. -/
theorem Transition.calls (t : Transition) (h : CallsFirst t.before.agenda)
    (possible : t.move.isPossible t.before = true) :
    t.after.agenda = t.before.agenda ∨ Calls t.before t.after := by
  cases hmove : t.move with
  | work =>
      rw [hmove] at possible
      exact .inr (calls_work h hmove (by simpa [Move.isPossible] using possible))
  | enter =>
      have hafter : t.after = t.before.enter := by rw [Transition.after, hmove, Move.run]
      rw [hafter, enter]
      split
      · rename_i c rest hagenda
        rw [hagenda] at h
        refine .inr (.of_none fun t' ht' => ?_)
        rcases List.mem_cons.mp ht' with rfl | ht'
        · rfl
        · exact h t' ht'
      · exact .inl rfl
  | finish =>
      have hafter : t.after = t.before.finish := by rw [Transition.after, hmove, Move.run]
      rw [hafter, finish]
      split
      · rename_i rest hagenda
        rw [hagenda] at h
        exact .inr (.of_none h)
      · exact .inl rfl
  | operate o =>
      have hafter : t.after = o.run t.before := by rw [Transition.after, hmove, Move.run]
      rw [hmove, Move.isPossible, Bool.and_eq_true, Bool.or_eq_true] at possible
      rw [hafter]
      rcases possible.1 with hturn | hletting
      · exact .inr (o.puts.calls (isCall_of_turn_host h (by simpa using hturn)) t.before)
      · exact .inl (agenda_of_isLettingGo hletting)

theorem Transition.callsFirst (t : Transition) (h : CallsFirst t.before.agenda)
    (possible : t.move.isPossible t.before = true) : CallsFirst t.after.agenda := by
  rcases t.calls h possible with hsame | hcalls
  · exact hsame ▸ h
  · exact hcalls.first

/-- In any run, only the first thing to do may be a call to the host. -/
theorem Run.callsFirst {ts : List Transition} {st : State} (h : Run ts st) :
    CallsFirst st.agenda := by
  induction h with
  | start => nofun
  | @move ts st m _ possible ih => exact Transition.callsFirst ⟨st, m⟩ ih possible

end Moves

end DataBinding
