import DataBinding.Proofs.Lasting
import DataBinding.Proofs.Template.Showing

set_option autoImplicit false

/-! # What the tree shows at rest

A watcher that shows its value as the text of a node shows in every state the value that it has
seen, provided that nothing else writes the text (`Run.shows`). At rest it has seen the value that
its path leads to, so the node shows what it would show if it were bound afresh
(`Run.textContent_eq`).
-/

namespace DataBinding

open State

section Shows

variable {st st' : State} {s : SubscriberId} {w w' : Watcher} {n : NodeId}

/-- A watcher that is told shows the value that it has seen then. -/
theorem Telling.shows (h : Telling st s st') (hn : n.index < st.nodes.size)
    (hshows : st.Shows n w.seen.display) (hw : st.watcher? s = some w)
    (hreaction : w.reaction = .showText n) (hw' : st'.watcher? s = some w') :
    st'.Shows n w'.seen.display := by
  cases h with
  | probe c hs => cases hs.symm.trans hw
  | disposed u hu hdisposed =>
      cases hw.symm.trans hw'
      exact hshows
  | unchanged u hu hlive hsame =>
      cases (watcher?_reread_self hw).symm.trans hw'
      have hnodes := (onlySubscriptions_reread st s u).nodes
      refine hshows.keep hn (.of_nodes hnodes) ?_ ?_ ?_
      · rw [node_congr hnodes]
      · rw [node_congr hnodes]
      · intro m _ _
        rw [node_congr hnodes]
  | shown u m hu hlive hdiffers hshown =>
      cases hw.symm.trans hu
      cases hreaction.symm.trans hshown
      -- The text is set before the value is kept; what was shown before does not matter.
      have hnodes := (onlySubscriptions_reread st s w).nodes
      have htext : ((st.reread s w).setText n (st.read w.root w.path).display).Shows n
          (st.read w.root w.path).display := by
        refine shows_setText ?_ ?_
        · rw [hnodes]
          exact hn
        · rw [node_congr hnodes]
          exact hshows.kind_ne_other
      rw [watcher?_remember, if_pos rfl, setText_rest] at hw'
      obtain ⟨u, -, rfl⟩ := Option.map_eq_some_iff.mp hw'
      exact htext
  | valued u m nodes hu hlive hdiffers hvalued hkinds =>
      cases hw.symm.trans hu
      cases hreaction.symm.trans hvalued
  | called u c hu hlive hdiffers hcalled =>
      cases hw.symm.trans hu
      cases hreaction.symm.trans hcalled

end Shows

/-! ## Transitions -/

section Transitions

variable {t : Transition} {s : SubscriberId} {w w' : Watcher} {n : NodeId}

theorem Transition.after_of_tells (h : t.tells s = true) : ∃ rest,
    t.before.agenda = .update s :: rest ∧
      t.after = ({ t.before with agenda := rest } : State).update s := by
  unfold tells at h
  split at h
  · rename_i s' rest hmove hagenda
    cases of_decide_eq_true h
    exact ⟨rest, hagenda, after_of_work hmove hagenda⟩
  · cases h

/-- A watcher goes on showing what it has seen in a transition that leaves the text to it. -/
theorem Course.shows (h : Course t) (hst : Consistent t.before) (hn : n.index < t.before.nodes.size)
    (hshows : t.before.Shows n w.seen.display) (hw : t.before.watcher? s = some w)
    (hreaction : w.reaction = .showText n) (halone : t.leavesTextTo s n = true)
    (hw' : t.after.watcher? s = some w') : t.after.Shows n w'.seen.display := by
  rw [Transition.leavesTextTo, hw] at halone
  cases htells : t.tells s with
  | true =>
      obtain ⟨rest, hagenda, hafter⟩ := Transition.after_of_tells htells
      exact (Telling.of_update hafter).shows hn hshows hw hreaction hw'
  | false =>
      -- Beside its telling neither the text nor what the watcher has seen changes.
      have hreacts : ∀ c, w.reaction ≠ .call c := by
        intro c hcall
        cases hreaction.symm.trans hcall
      obtain ⟨u, hu, hseen⟩ := h.seen hst htells hw hreacts
      cases hw'.symm.trans hu
      rw [hseen]
      simp only [htells, Bool.false_or, Transition.keepsText, Bool.and_eq_true, decide_eq_true_eq,
        List.all_eq_true] at halone
      obtain ⟨⟨htext, hchildren⟩, hbelow⟩ := halone
      exact hshows.keep hn h.keepsKinds htext hchildren fun m hm _ => hbelow m hm

/-- A watcher shows what it has seen as soon as it is made, if no other one that is made with it
shows its value in the same place. -/
theorem Course.shows_made (h : Course t) (hnone : t.before.watcher? s = none)
    (hw : t.after.watcher? s = some w) (hreaction : w.reaction = .showText n)
    (halone : t.leavesTextTo s n = true) :
    n.index < t.after.nodes.size ∧ t.after.Shows n w.seen.display := by
  obtain ⟨hnew, hcompiling⟩ := h.makes hnone hw
  have hbound : t.isCompiling = true := by
    rcases hcompiling with hbound | ⟨c, hcall⟩
    · exact hbound
    · cases hreaction.symm.trans hcall
  have hshowing : Showing t.before.subscribers.size t.after := by
    unfold Transition.isCompiling at hbound
    unfold Transition.after
    cases hmove : t.move with
    | operate o =>
        rw [hmove] at hbound
        exact showing_run hbound (Nat.le_refl _) (showing_self _)
    | work | enter | finish =>
        rw [hmove] at hbound
        cases hbound
  obtain ⟨hn, hshows | ⟨s', hne, hnew', hhere⟩⟩ := hshowing s w n hnew hw hreaction
  · exact ⟨hn, hshows⟩
  · -- Another new watcher shows its value there, which was ruled out.
    rw [Transition.leavesTextTo, hnone, hw, List.all_eq_true] at halone
    obtain ⟨u, m, hu, -⟩ := showsIn_iff.mp hhere
    have hother := halone s' ((Table.mem_ids_iff _ s').mpr (lt_size_of_watcher? hu))
    have hnone' : t.before.watcher? s' = none := watcher?_eq_none hnew'
    simp [hne, hnone', hhere] at hother

end Transitions

/-! ## Runs -/

section Runs

variable {ts : List Transition} {st : State} {s : SubscriberId} {w : Watcher} {n : NodeId}

/-- What a node shows, whose text is left to a watcher, is always the value that the watcher has
seen. -/
theorem Run.shows (h : Run ts st) (tame : ∀ t ∈ ts, t.isTame = true)
    (alone : ∀ t ∈ ts, t.leavesTextTo s n = true) (hw : st.watcher? s = some w)
    (hreaction : w.reaction = .showText n) :
    n.index < st.nodes.size ∧ st.Shows n w.seen.display := by
  -- What the watcher has seen changes in the course of the run.
  have hshows : ∀ w, st.watcher? s = some w → w.reaction = .showText n →
      n.index < st.nodes.size ∧ st.Shows n w.seen.display := by
    revert alone
    refine h.tameInduction tame ?_ ?_
    · intro _ w hw
      cases hw
    · intro ts st m _ _ hst _ hcourse ih alone w hw hreaction
      have halone := alone _ List.mem_cons_self
      cases hbefore : st.watcher? s with
      | none => exact hcourse.shows_made hbefore hw hreaction halone
      | some u =>
          obtain ⟨u', hu', hsame⟩ := hcourse.reaction hbefore
          cases hw.symm.trans hu'
          have hreaction₀ := hsame.symm.trans hreaction
          obtain ⟨hn, hshows⟩ :=
            ih (fun t ht => alone t (List.mem_cons_of_mem _ ht)) u hbefore hreaction₀
          refine ⟨Nat.lt_of_lt_of_le hn hcourse.keepsKinds.size, ?_⟩
          exact hcourse.shows hst hn hshows hbefore hreaction₀ halone hw
  exact hshows w hw hreaction

/-- At rest, a node whose text is left to a binding of a view shows the value that the binding's
path leads to on the view's data. -/
theorem Run.textContent_eq (h : Run ts st) (tame : ∀ t ∈ ts, t.isTame = true)
    (rest : st.agenda = []) {v : ViewId} {b : Binding} (bound : b ∈ (st.view v).bindings)
    (hs : s ∈ b.watchers) (hw : st.watcher? s = some w) (hreaction : w.reaction = .showText n)
    (alone : ∀ t ∈ ts, t.leavesTextTo s n = true) :
    st.textContent n = (st.readView v w.path).display := by
  have hbound : st.isBoundBy v s = true := isBoundBy_iff.mpr ⟨b, bound, hs⟩
  obtain ⟨-, ho⟩ := h.consistent tame
  -- The view holds the watcher, which is on its data and not disposed of.
  have halive : st.isAlive s = true := by
    rw [isAlive_iff, ho.holders v s hbound]
    omega
  obtain ⟨u, hu, hlive, hroot⟩ := ho.watcher v s hbound
  cases hw.symm.trans hu
  have htracked := h.tracked tame (h.startsObserved tame (isBound_iff.mpr ⟨v, hbound⟩))
  have hreacts : ∀ c, w.reaction ≠ .call c := by
    intro c hcall
    cases hreaction.symm.trans hcall
  have hsame : w.seen.same (st.read w.root w.path) = true :=
    (htracked.current_iff rest hw halive hlive).mpr (htracked.keeping.settled w hw hreacts)
  obtain ⟨hn, hshows⟩ := h.shows tame alone hw hreaction
  calc st.textContent n
      = w.seen.display := textContent_of_shows hn hshows
    _ = (st.read w.root w.path).display := Value.display_eq_of_same hsame
    _ = (st.readView v w.path).display := by rw [readView, hroot]

end Runs

/-- An element shows the name of a user, and then another user takes the place of the first. -/
def userReplaced : List Move :=
  [.operate .newRecord, .operate .newRecord, .operate (.writeField ⟨⟨1⟩, "name"⟩ (.text "Ada")),
    .operate (.writeField ⟨⟨0⟩, "user"⟩ (.record ⟨1⟩)), .operate (.newNode .element "div"),
    .operate (.newNode .element "p"), .operate (.setAttribute ⟨1⟩ "v-text" "user.name"),
    .operate (.appendChild ⟨0⟩ ⟨1⟩),
    .operate (.mount none { root? := some (.node ⟨0⟩), data := ⟨0⟩ }),
    .operate .newRecord, .operate (.writeField ⟨⟨2⟩, "name"⟩ (.text "Grace")),
    .operate (.writeField ⟨⟨0⟩, "user"⟩ (.record ⟨2⟩)), .work, .work]

/-- The element shows the name of the new user. -/
theorem textContent_userReplaced :
    (({} : State).play userReplaced).textContent ⟨1⟩ =
      ((({} : State).play userReplaced).readView ⟨0⟩ "user.name").display :=
  Run.textContent_eq (Run.play .start userReplaced (by decide +kernel)) (by decide +kernel)
    (by decide +kernel) (b := { watchers := [⟨0⟩] }) (by decide +kernel) List.mem_cons_self
    (w := { root := ⟨0⟩, path := "user.name", reaction := .showText ⟨1⟩, seen := .text "Grace",
            sources := [⟨1⟩, ⟨2⟩] })
    (by decide +kernel) rfl (by decide +kernel)

end DataBinding
