import DataBinding.Proofs.History

set_option autoImplicit false

/-! # What lasts in a run

Whatever happens, a node keeps its kind and a watcher its reaction, and what a watcher has seen
changes only when it is told, or when the host has dealt with a value. New watchers are made for
the host, or by binding a tree. Those that a view has are on the view's data, so their root was
observed from the beginning (`Run.startsObserved`).
-/

namespace DataBinding

open State Relation

section Changes

variable {sc : Scope} {st st' : State} {s : SubscriberId}

/-- Assigning a value concerns neither nodes nor views. -/
theorem outside_assign (st : State) (c : CellId) (v : Value) :
    (st.assign c v).nodes = st.nodes ∧ (st.assign c v).views = st.views := by
  unfold assign
  split
  · have hobs := observes_observeValue (st.store c v) v
    have hnotify := onlySubscriptions_notify
      (((st.store c v).observeValue v).report (.changed (st.cells.get c).key))
      (st.cells.get c).channel
    exact ⟨hnotify.nodes.trans hobs.nodes, hnotify.views.trans hobs.views⟩
  · exact ⟨rfl, rfl⟩

theorem Change.keepsKinds (h : Change sc st st') : KeepsKinds st st' := by
  cases h with
  | tree nodes hsize hkind => exact ⟨hsize, hkind⟩
  | assign c v hv => exact .of_nodes (outside_assign st c v).1
  | observe r hr => exact .of_nodes (observes_observe st r).nodes
  | watch root path reaction _ _ =>
      exact .of_nodes (onlySubscriptions_watch st root path reaction).nodes
  | release t ht => exact .of_nodes (onlySubscriptions_release st t).nodes
  | dispose t ht => exact .of_nodes (onlySubscriptions_dispose st t).nodes
  | letGo t rest hagenda => exact .of_nodes (onlySubscriptions_release _ t).nodes
  | notify c => exact .of_nodes (onlySubscriptions_notify st c).nodes
  | log | push | drop | newRecord | newChannel | newProbe | putField | hold | tell | newView
  | editView | unbind | bind => exact .of_nodes rfl

theorem Changes.keepsKinds (h : Changes sc st st') : KeepsKinds st st' := by
  induction h with
  | refl => exact .refl st
  | tail _ hstep ih => exact ih.trans hstep.keepsKinds

theorem Changes.subscribers_le (h : Changes sc st st') :
    st.subscribers.size ≤ st'.subscribers.size := by
  induction h with
  | refl => exact Nat.le_refl _
  | tail _ hstep ih => exact Nat.le_trans ih hstep.subscribers_le

/-- Changes leave a watcher its reaction and what it has seen. -/
theorem Changes.watcher (h : Changes sc st st') {w : Watcher} (hw : st.watcher? s = some w) :
    ∃ w', st'.watcher? s = some w' ∧ w'.reaction = w.reaction ∧ w'.seen = w.seen := by
  induction h with
  | refl => exact ⟨w, hw, rfl, rfl⟩
  | tail _ hstep ih =>
      obtain ⟨w₁, hw₁, hreaction₁, hseen₁⟩ := ih
      obtain ⟨w₂, hw₂, -, -, hreaction₂, hseen₂, -⟩ :=
        (hstep.keeps (lt_size_of_watcher? hw₁)).watcher w₁ hw₁
      exact ⟨w₂, hw₂, hreaction₂.trans hreaction₁, hseen₂.trans hseen₁⟩

/-- A watcher that changes have made is a new subscriber, with a reaction that they may use. -/
theorem Changes.makes (h : Changes sc st st') (hs : st.watcher? s = none) {w : Watcher}
    (hw : st'.watcher? s = some w) : st.subscribers.size ≤ s.index ∧ sc.allowed w.reaction := by
  induction h generalizing w with
  | refl => cases hs.symm.trans hw
  | @tail st₁ st₂ hbefore hstep ih =>
      have hle := Changes.subscribers_le hbefore
      cases hw₁ : st₁.watcher? s with
      | some w₁ =>
          obtain ⟨w₂, hw₂, -, -, hreaction, -⟩ :=
            (hstep.keeps (lt_size_of_watcher? hw₁)).watcher w₁ hw₁
          cases hw.symm.trans hw₂
          rw [hreaction]
          exact ih hw₁
      | none =>
          -- A subscriber that is there already, and is no watcher, does not become one.
          by_cases hknown : s.index < st₁.subscribers.size
          · cases ((hstep.keeps hknown).unmade hw₁).symm.trans hw
          · obtain ⟨root, path, reaction, rfl, rfl, hallowed, -⟩ := hstep.makes (by omega) hw
            rw [watcher?_watch, if_pos rfl] at hw
            cases hw
            exact ⟨hle, hallowed⟩

/-- A change gives a view no other subscribers than those that may be handed to one. -/
theorem Change.isBoundBy (h : Change sc st st') {v : ViewId} (hs : st'.isBoundBy v s = true) :
    st.isBoundBy v s = true ∨ sc.bindable s := by
  have hsame : st'.views = st.views → st.isBoundBy v s = true := by
    intro hviews
    rw [isBoundBy_congr hviews] at hs
    exact hs
  cases h with
  | newView view hbindings hdata =>
      rw [State.isBoundBy, view_alloc] at hs
      split at hs
      · rw [hbindings] at hs
        cases hs
      · exact .inl hs
  | editView u f hf =>
      rw [State.isBoundBy, view_modify] at hs
      split at hs
      · rw [(hf _).2] at hs
        exact .inl hs
      · exact .inl hs
  | unbind u =>
      rw [State.isBoundBy, view_modify] at hs
      split at hs
      · cases hs
      · exact .inl hs
  | bind u bs hu hbs =>
      rw [State.isBoundBy, view_modify] at hs
      split at hs
      · -- The bindings that the view is given were made by binding a tree.
        obtain ⟨b, hb, hsb⟩ := List.any_eq_true.mp hs
        exact .inr (hbs b hb s (of_decide_eq_true hsb)).1
      · exact .inl hs
  | assign c w hw => exact .inl (hsame (outside_assign st c w).2)
  | observe r hr => exact .inl (hsame (observes_observe st r).views)
  | watch root path reaction _ _ =>
      exact .inl (hsame (onlySubscriptions_watch st root path reaction).views)
  | release t ht => exact .inl (hsame (onlySubscriptions_release st t).views)
  | dispose t ht => exact .inl (hsame (onlySubscriptions_dispose st t).views)
  | letGo t rest hagenda => exact .inl (hsame (onlySubscriptions_release _ t).views)
  | notify c => exact .inl (hsame (onlySubscriptions_notify st c).views)
  | log | tree | push | drop | newRecord | newChannel | newProbe | putField | hold | tell =>
      exact .inl (hsame rfl)

theorem Changes.isBound (h : Changes sc st st') (hs : st'.isBound s = true) :
    st.isBound s = true ∨ sc.bindable s := by
  induction h with
  | refl => exact .inl hs
  | tail _ hstep ih =>
      obtain ⟨v, hv⟩ := isBound_iff.mp hs
      rcases hstep.isBoundBy hv with hold | hnew
      · exact ih (isBound_iff.mpr ⟨v, hold⟩)
      · exact .inr hnew

end Changes

/-! ## Telling -/

section Telling

variable {st st' : State} {s t : SubscriberId}

/-- A subscriber that is told takes no part in views. -/
theorem Telling.views (h : Telling st s st') : st'.views = st.views := by
  have hreread : ∀ w, (st.reread s w).views = st.views :=
    fun w => (onlySubscriptions_reread st s w).views
  cases h with
  | probe c hs => rfl
  | disposed w hw hdisposed => rfl
  | unchanged w hw hlive hsame => exact hreread w
  | shown w n hw hlive hdiffers hreaction =>
      rw [setText_rest]
      exact hreread w
  | valued w n nodes hw hlive hdiffers hreaction hkinds => exact hreread w
  | called w c hw hlive hdiffers hreaction => exact hreread w

theorem Telling.keepsKinds (h : Telling st s st') : KeepsKinds st st' := by
  have hreread : ∀ w, KeepsKinds st (st.reread s w) :=
    fun w => .of_nodes (onlySubscriptions_reread st s w).nodes
  cases h with
  | probe c hs => exact .of_nodes rfl
  | disposed w hw hdisposed => exact .refl st
  | unchanged w hw hlive hsame => exact hreread w
  | shown w n hw hlive hdiffers hreaction =>
      exact ((hreread w).trans (.setText _)).trans (.of_nodes rfl)
  | valued w n nodes hw hlive hdiffers hreaction hkinds =>
      exact hkinds.trans (.of_nodes rfl)
  | called w c hw hlive hdiffers hreaction => exact (hreread w).trans (.of_nodes rfl)

/-- Being told leaves a watcher its reaction. -/
theorem Telling.reaction (h : Telling st s st') {w : Watcher} (hw : st.watcher? s = some w) :
    ∃ w', st'.watcher? s = some w' ∧ w'.reaction = w.reaction := by
  cases h with
  | probe c hs => cases hs.symm.trans hw
  | disposed u hu hdisposed => exact ⟨w, hw, rfl⟩
  | unchanged u hu hlive hsame => exact ⟨_, watcher?_reread_self hw, rfl⟩
  | shown u n hu hlive hdiffers hreaction =>
      rw [setText_rest]
      exact ⟨_, watcher?_reread_remember hw _ _, rfl⟩
  | valued u n nodes hu hlive hdiffers hreaction hkinds =>
      exact ⟨_, watcher?_reread_remember hw nodes _, rfl⟩
  | called u c hu hlive hdiffers hreaction => exact ⟨_, watcher?_reread_self hw, rfl⟩

/-- Being told makes no watcher of what is none. -/
theorem Telling.unmade (h : Telling st s st') (hs : st.watcher? s = none) :
    st'.watcher? s = none := by
  cases h with
  | probe c _ => exact hs
  | disposed w hw hdisposed => exact hs
  | unchanged w hw | shown w n hw | valued w n nodes hw | called w c hw => cases hs.symm.trans hw

end Telling

/-! ## Transitions -/

section Transitions

variable {t : Transition} {s : SubscriberId}

theorem Course.keepsKinds (h : Course t) : KeepsKinds t.before t.after := by
  cases h with
  | told u rest hmove hagenda hafter =>
      have hdropped : KeepsKinds t.before { t.before with agenda := rest } := .of_nodes rfl
      exact hdropped.trans (Telling.of_update hafter).keepsKinds
  | kept u v rest hmove hagenda hafter =>
      rw [hafter]
      exact .of_nodes rfl
  | changed hchanges _ => exact hchanges.keepsKinds

/-- Once made, a watcher stays one, with its reaction. -/
theorem Course.reaction (h : Course t) {w : Watcher} (hw : t.before.watcher? s = some w) :
    ∃ w', t.after.watcher? s = some w' ∧ w'.reaction = w.reaction := by
  cases h with
  | told u rest hmove hagenda hafter =>
      have htelling := Telling.of_update hafter
      by_cases hsu : s = u
      · subst hsu
        exact htelling.reaction hw
      · obtain ⟨w', hw', -, -, hreaction, -⟩ := (htelling.keeps hsu).watcher w hw
        exact ⟨w', hw', hreaction⟩
  | kept u v rest hmove hagenda hafter =>
      rw [hafter, watcher?_remember]
      split
      · exact ⟨{ w with seen := v }, congrArg (Option.map _) hw, rfl⟩
      · exact ⟨w, hw, rfl⟩
  | changed hchanges _ =>
      obtain ⟨w', hw', hreaction, -⟩ := hchanges.watcher hw
      exact ⟨w', hw', hreaction⟩

/-- A watcher that reacts without the host's help sees something else only by being told. -/
theorem Course.seen (h : Course t) (hst : Consistent t.before) (htells : t.tells s = false)
    {w : Watcher} (hw : t.before.watcher? s = some w) (hreacts : ∀ c, w.reaction ≠ .call c) :
    ∃ w', t.after.watcher? s = some w' ∧ w'.seen = w.seen := by
  cases h with
  | told u rest hmove hagenda hafter =>
      have hsu : s ≠ u := by
        rintro rfl
        rw [Transition.tells, hmove, hagenda] at htells
        exact of_decide_eq_false htells rfl
      have htelling := Telling.of_update hafter
      obtain ⟨w', hw', -, -, -, hseen, -⟩ := (htelling.keeps hsu).watcher w hw
      exact ⟨w', hw', hseen⟩
  | kept u v rest hmove hagenda hafter =>
      obtain ⟨w', c, hw', hcall⟩ :=
        hst.scheduled.remember u v (by rw [hagenda]; exact List.mem_cons_self)
      -- Only a watcher that calls the host has a value to keep later.
      have hsu : s ≠ u := by
        rintro rfl
        cases hw.symm.trans hw'
        exact hreacts c hcall
      rw [hafter, watcher?_remember, if_neg (Ne.symm hsu)]
      exact ⟨w, hw, rfl⟩
  | changed hchanges _ =>
      obtain ⟨w', hw', -, hseen⟩ := hchanges.watcher hw
      exact ⟨w', hw', hseen⟩

/-- A watcher that a transition has made is a new subscriber; it calls the host, or it belongs to a
tree that was bound. -/
theorem Course.makes (h : Course t) (hs : t.before.watcher? s = none) {w : Watcher}
    (hw : t.after.watcher? s = some w) : t.before.subscribers.size ≤ s.index ∧
      (t.isCompiling = true ∨ ∃ c, w.reaction = .call c) := by
  cases h with
  | told u rest hmove hagenda hafter =>
      have htelling := Telling.of_update hafter
      by_cases hsu : s = u
      · subst hsu
        cases (htelling.unmade hs).symm.trans hw
      · cases ((htelling.keeps hsu).unmade hs).symm.trans hw
  | kept u v rest hmove hagenda hafter =>
      have hnone : ({ t.before with agenda := rest } : State).watcher? s = none := hs
      rw [hafter, watcher?_remember, hnone] at hw
      split at hw
      · cases hw
      · cases hw
  | changed hchanges _ => exact hchanges.makes hs hw

/-- A subscriber that belongs to a view after a transition did before, or is new. -/
theorem Course.isBound (h : Course t) (hs : t.after.isBound s = true) :
    t.before.isBound s = true ∨ t.before.subscribers.size ≤ s.index := by
  cases h with
  | told u rest hmove hagenda hafter =>
      have htelling := Telling.of_update hafter
      rw [isBound_congr htelling.views] at hs
      exact .inl hs
  | kept u v rest hmove hagenda hafter =>
      rw [hafter] at hs
      exact .inl hs
  | changed hchanges _ => exact hchanges.isBound hs

end Transitions

/-! ## Runs -/

section Runs

variable {ts : List Transition} {st : State} {s : SubscriberId}

/-- What is no watcher at the end of a run has not been one. -/
theorem Run.unmade (h : Run ts st) (tame : ∀ t ∈ ts, t.isTame = true)
    (hs : st.watcher? s = none) : ∀ t ∈ ts, t.after.watcher? s = none := by
  revert hs
  refine h.tameInduction tame (fun _ => nofun) ?_
  intro ts st m _ _ _ _ hcourse ih hs
  have hbefore : st.watcher? s = none := by
    cases hw : st.watcher? s with
    | none => rfl
    | some w =>
        obtain ⟨w', hw', -⟩ := hcourse.reaction hw
        cases hs.symm.trans hw'
  intro t ht
  rcases List.mem_cons.mp ht with rfl | hold
  · exact hs
  · exact ih hbefore t hold

/-- The root of a watcher that a view has was observed when the watcher was made. -/
theorem Run.startsObserved (h : Run ts st) (tame : ∀ t ∈ ts, t.isTame = true)
    (hs : st.isBound s = true) : ∀ t ∈ ts, t.startsObserved s = true := by
  revert hs
  refine h.tameInduction tame (fun _ => nofun) ?_
  intro ts st m hrun htame hst ho hcourse ih hs t ht
  have hbefore : Transition.before ⟨st, m⟩ = st := rfl
  rcases hcourse.isBound hs with hbound | hnew
  · rcases List.mem_cons.mp ht with rfl | hold
    · -- The watcher is there already, so it is not made now.
      obtain ⟨v, hv⟩ := isBound_iff.mp hbound
      obtain ⟨w, hw, -⟩ := ho.watcher v s hv
      rw [Transition.startsObserved, hbefore, hw]
    · exact ih hbound t hold
  · have hnone : st.watcher? s = none := watcher?_eq_none hnew
    rcases List.mem_cons.mp ht with rfl | hold
    · -- It is made now, on the data of the view, which is observed.
      obtain ⟨hst', ho'⟩ := hcourse.consistent hst ho
      obtain ⟨v, hv⟩ := isBound_iff.mp hs
      obtain ⟨w, hw, -, hroot⟩ := ho'.watcher v s hv
      rw [Transition.startsObserved, hbefore, hnone, hw]
      show State.isObserved _ w.root = true
      rw [hroot]
      exact hst'.view v (lt_size_of_isBoundBy hv)
    · -- It was not there before, and so it was not made in an earlier transition.
      have hafter := hrun.unmade htame hnone t hold
      rw [Transition.startsObserved, hafter]
      cases t.before.watcher? s with
      | none => rfl
      | some w => rfl

end Runs

end DataBinding
