import DataBinding.Proofs.Course
import DataBinding.Proofs.Following

set_option autoImplicit false

/-! # What telling a subscriber does

A subscriber that is told of a change takes one of six ways (`Telling`). Whichever it takes, the
state stays consistent, the views keep their watchers, and nothing concerns any other
subscriber. The watcher itself follows its path afterwards.
-/

namespace DataBinding

open State

/-- The ways that telling the subscriber `s` can take. -/
inductive Telling (st : State) (s : SubscriberId) : State → Prop where
  /-- It is no watcher: the host is called. -/
  | probe (c : Callback) (hs : st.watcher? s = none) :
      Telling st s (st.push [.call (.notified c)])
  /-- It is disposed of: nothing happens. -/
  | disposed (w : Watcher) (hw : st.watcher? s = some w) (hdisposed : w.disposed = true) :
      Telling st s st
  /-- It reads the value that it has seen. -/
  | unchanged (w : Watcher) (hw : st.watcher? s = some w) (hlive : w.disposed = false)
      (hsame : (st.read w.root w.path).same w.seen = true) : Telling st s (st.reread s w)
  /-- It shows a new value as the text of a node. -/
  | shown (w : Watcher) (n : NodeId) (hw : st.watcher? s = some w) (hlive : w.disposed = false)
      (hdiffers : (st.read w.root w.path).same w.seen = false)
      (hreaction : w.reaction = .showText n) :
      Telling st s (((st.reread s w).setText n (st.read w.root w.path).display).remember s
        (st.read w.root w.path))
  /-- It shows a new value as the form value of a node. -/
  | valued (w : Watcher) (n : NodeId) (nodes : Table .node Node) (hw : st.watcher? s = some w)
      (hlive : w.disposed = false) (hdiffers : (st.read w.root w.path).same w.seen = false)
      (hreaction : w.reaction = .showValue n)
      (hkinds : KeepsKinds st { st with nodes }) :
      Telling st s (({ st.reread s w with nodes } : State).remember s (st.read w.root w.path))
  /-- It is going to hand a new value to the host, and to keep it then. -/
  | called (w : Watcher) (c : Callback) (hw : st.watcher? s = some w) (hlive : w.disposed = false)
      (hdiffers : (st.read w.root w.path).same w.seen = false) (hreaction : w.reaction = .call c) :
      Telling st s ((st.reread s w).push [.call (.changed c (st.read w.root w.path)),
        .remember s (st.read w.root w.path)])

section Telling

variable {st st' : State} {s t : SubscriberId}

theorem watcher?_of_role {w : Watcher} (h : (st.subscribers.get s).role = .watcher w) :
    st.watcher? s = some w := by
  have hknown : s.index < st.subscribers.size := by
    by_contra hs
    rw [Table.get_eq_default (by omega)] at h
    cases h
  rw [watcher?, Table.get?_eq_some_get hknown, Option.bind_some, Subscriber.watcher?, h]

theorem watcher?_of_probe {c : Callback} (h : (st.subscribers.get s).role = .probe c) :
    st.watcher? s = none := by
  by_cases hknown : s.index < st.subscribers.size
  · rw [watcher?, Table.get?_eq_some_get hknown, Option.bind_some, Subscriber.watcher?, h]
  · exact watcher?_eq_none (by omega)

theorem role_of_watcher? {w : Watcher} (h : st.watcher? s = some w) :
    (st.subscribers.get s).role = .watcher w := by
  rw [watcher?, Table.get?_eq_some_get (lt_size_of_watcher? h), Option.bind_some,
    Subscriber.watcher?] at h
  split at h
  · rename_i u hrole
    rw [hrole, Option.some.inj h]
  · cases h

theorem update_eq {w : Watcher} (hw : st.watcher? s = some w) : st.update s =
    if w.disposed then st
    else if (st.read w.root w.path).same w.seen then st.reread s w
    else (st.reread s w).react s (st.read w.root w.path) w.reaction := by
  rw [update, role_of_watcher? hw]

theorem telling_update (st : State) (s : SubscriberId) : Telling st s (st.update s) := by
  unfold update
  -- The questions are asked in the order in which the update asks them.
  cases hrole : (st.subscribers.get s).role with
  | probe c => exact .probe c (watcher?_of_probe hrole)
  | watcher w =>
      have hw := watcher?_of_role hrole
      cases hdisposed : w.disposed with
      | true =>
          simp only [hdisposed, if_true]
          exact .disposed w hw hdisposed
      | false =>
          cases hsame : (st.read w.root w.path).same w.seen with
          | true =>
              simp only [hdisposed, hsame, if_true, Bool.false_eq_true, if_false]
              exact .unchanged w hw hdisposed hsame
          | false =>
              simp only [hdisposed, hsame, Bool.false_eq_true, if_false]
              cases hreaction : w.reaction with
              | showText n => exact .shown w n hw hdisposed hsame hreaction
              | call c => exact .called w c hw hdisposed hsame hreaction
              | showValue n =>
                  simp only [react]
                  have hnodes := (onlySubscriptions_reread st s w).nodes
                  split
                  · have hvalued := Telling.valued w n st.nodes hw hdisposed hsame hreaction
                      (.refl st)
                    rw [← hnodes] at hvalued
                    exact hvalued
                  · refine .valued w n _ hw hdisposed hsame hreaction ?_
                    rw [hnodes]
                    exact KeepsKinds.updateNode fun _ => rfl

theorem Telling.of_update (h : st' = st.update s) : Telling st s st' :=
  h ▸ telling_update st s

/-! ## Invariants -/

theorem Telling.consistent (h : Telling st s st') (hst : Consistent st) : Consistent st' := by
  cases h with
  | probe c hs =>
      have hpush : Change .closed st (st.push [.call (.notified c)]) :=
        .push _ (by simp [Task.isNeutral])
      exact hpush.consistent hst
  | disposed w hw hdisposed => exact hst
  | unchanged w hw hlive hsame => exact hst.reread hw
  | shown w n hw hlive hdiffers hreaction =>
      have htext : Changes .closed (st.reread s w)
          ((st.reread s w).setText n (st.read w.root w.path).display) := changes_setText n _
      exact (htext.consistent (hst.reread hw)).remember s _
  | valued w n nodes hw hlive hdiffers hreaction hkinds =>
      have hreread := hst.reread hw
      have htree : Consistent { st.reread s w with nodes } :=
        hreread.of_graph (hreread.sound.congr rfl rfl (Nat.le_refl _)) rfl (fun _ => rfl)
          (fun _ => .inl) hreread.view
      exact htree.remember s _
  | called w c hw hlive hdiffers hreaction =>
      have hreread := hst.reread hw
      refine hreread.of_onlySubscriptions (onlySubscriptions_push _ _) (Nat.le_refl _)
        (hreread.registered.congr rfl fun _ => rfl) ⟨?_, ?_, ?_⟩
      · intro t ht
        simp only [agenda_push, List.mem_append, List.mem_cons, reduceCtorEq, List.not_mem_nil,
          or_false, false_or] at ht
        exact hreread.scheduled.update t ht
      · intro t ht
        simp only [agenda_push, List.mem_append, List.mem_cons, reduceCtorEq, List.not_mem_nil,
          or_false, false_or] at ht
        exact hreread.scheduled.release t ht
      · intro t v ht
        simp only [agenda_push, List.mem_append, List.mem_cons, reduceCtorEq, List.not_mem_nil,
          or_false, false_or, Task.remember.injEq] at ht
        rcases ht with ⟨rfl, -⟩ | ht
        · exact ⟨_, c, watcher?_reread_self hw, hreaction⟩
        · exact hreread.scheduled.remember t v ht

theorem Telling.owned (h : Telling st s st') (ho : Owned st) : Owned st' := by
  cases h with
  | probe c hs =>
      have hpush : Change .closed st (st.push [.call (.notified c)]) :=
        .push _ (by simp [Task.isNeutral])
      exact hpush.owned ho
  | disposed w hw hdisposed => exact ho
  | unchanged w hw hlive hsame => exact ho.reread s w
  | shown w n hw hlive hdiffers hreaction =>
      have htext : Changes .closed (st.reread s w)
          ((st.reread s w).setText n (st.read w.root w.path).display) := changes_setText n _
      exact (htext.owned (ho.reread s w)).remember s _
  | valued w n nodes hw hlive hdiffers hreaction hkinds =>
      have htree : Owned { st.reread s w with nodes } := (ho.reread s w).of_same rfl rfl rfl
      exact htree.remember s _
  | called w c hw hlive hdiffers hreaction =>
      refine (ho.reread s w).of_views rfl ?_ fun _ _ w' hw' => ⟨w', hw', rfl, rfl⟩
      intro t _
      rw [agenda_push, List.count_append]
      simp [State.holders, State.push]

/-- Telling a subscriber does not concern the others. -/
theorem Telling.keeps (h : Telling st s st') (hts : t ≠ s) : Keeps t st st' := by
  have hreread : ∀ w, Keeps t st (st.reread s w) := fun w => .reread hts
  cases h with
  | probe c hs => exact (Keeps.refl t st).push_other (by simp)
  | disposed w hw hdisposed => exact .refl t st
  | unchanged w hw hlive hsame => exact hreread w
  | shown w n hw hlive hdiffers hreaction =>
      rw [setText_rest]
      exact ((hreread w).with_nodes _).remember_other hts _
  | valued w n nodes hw hlive hdiffers hreaction hkinds =>
      exact ((hreread w).with_nodes nodes).remember_other hts _
  | called w c hw hlive hdiffers hreaction => exact (hreread w).push_other (by simp [hts])

/-! ## The watcher that is told -/

/-- A living watcher that reads its path again is on the channels along it. -/
theorem exact_reread (hst : Consistent st) {w : Watcher} (hw : st.watcher? s = some w)
    (halive : st.isAlive s = true) (c : ChannelId) :
    s ∈ (st.reread s w).channels.get c ↔ c ∈ st.channelsRead w.root w.path := by
  rw [mem_reread fun c => hst.registered.source s w c hw, mem_sourcesReread]
  refine and_iff_left_of_imp fun hc => .inr ⟨halive, ?_⟩
  exact channelsRead_lt hst.sound hc

/-- A watcher that has been told what its path leads to, and has read its path again, follows
it. -/
theorem following_of_reread (hst : Consistent st) {w w' : Watcher} {last? : Option Value}
    (hw : st.watcher? s = some w) (hroot : st.isObserved w.root = true)
    (hgraph : SameGraph st st')
    (hmem : ∀ c, s ∈ st'.channels.get c ↔ s ∈ (st.reread s w).channels.get c)
    (halive : st'.isAlive s = st.isAlive s) (hw' : st'.watcher? s = some w')
    (hsame : w'.root = w.root ∧ w'.path = w.path)
    (hlast : last? = some (st.read w.root w.path)) : st'.Following s last? := by
  intro w'' hw''
  cases hw'.symm.trans hw''
  rw [hsame.1, hsame.2, hlast]
  constructor
  · rw [isObserved, hgraph.records]
    exact hroot
  · intro ha _
    rw [halive] at ha
    refine .inr ⟨?_, ?_⟩
    · intro c
      rw [hmem, exact_reread hst hw ha, hsame.1, hsame.2, hgraph.channelsRead]
    · rw [hgraph.read]
      exact Value.same_self _

/-- What a told watcher has come to: unless it is disposed of, it is on the channels along its
path, and the last value it was told is the one that the path leads to. -/
theorem Telling.following (h : Telling st s st') (hst : Consistent st) {notes : List Note}
    (hroot : ∀ w, st.watcher? s = some w → st.isObserved w.root = true) :
    st'.Following s (lastTold (st.notesOfTelling s ++ notes)) := by
  have hgraph : ∀ w, SameGraph st (st.reread s w) :=
    fun w => (onlySubscriptions_reread st s w).graph
  cases h with
  | probe c hs =>
      intro w hw
      cases hs.symm.trans hw
  | disposed w hw hdisposed =>
      -- It need not follow its path any more.
      intro w' hw'
      refine ⟨hroot w' hw', fun _ hlive => ?_⟩
      cases hw.symm.trans hw'
      rw [hdisposed] at hlive
      cases hlive
  | unchanged w hw hlive hsame =>
      refine following_of_reread hst hw (hroot w hw) (hgraph w) (fun _ => Iff.rfl) isAlive_reread
        (watcher?_reread_self hw) ⟨rfl, rfl⟩ ?_
      simp [notesOfTelling, hw, hlive, hsame, lastTold]
  | shown w n hw hlive hdiffers hreaction =>
      rw [setText_rest]
      refine following_of_reread hst hw (hroot w hw) ⟨(hgraph w).records, (hgraph w).cells⟩
        (fun _ => Iff.rfl) (isAlive_remember.trans isAlive_reread)
        (watcher?_reread_remember hw _ _) ⟨rfl, rfl⟩ ?_
      simp [notesOfTelling, hw, hlive, hdiffers, hreaction, lastTold]
  | valued w n nodes hw hlive hdiffers hreaction hkinds =>
      refine following_of_reread hst hw (hroot w hw) ⟨(hgraph w).records, (hgraph w).cells⟩
        (fun _ => Iff.rfl) (isAlive_remember.trans isAlive_reread)
        (watcher?_reread_remember hw _ _) ⟨rfl, rfl⟩ ?_
      simp [notesOfTelling, hw, hlive, hdiffers, hreaction, lastTold]
  | called w c hw hlive hdiffers hreaction =>
      refine following_of_reread hst hw (hroot w hw) ⟨(hgraph w).records, (hgraph w).cells⟩
        (fun _ => Iff.rfl) isAlive_reread (watcher?_reread_self hw) ⟨rfl, rfl⟩ ?_
      simp [notesOfTelling, hw, hlive, hdiffers, hreaction, lastTold]

end Telling

end DataBinding
