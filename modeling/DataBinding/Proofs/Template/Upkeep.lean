import DataBinding.Proofs.Template.Painting

set_option autoImplicit false

/-! # Texts and form values in the course of a run

As long as the host spares the nodes in which watchers show something (`Transition.sparesShown`),
each watcher shows what it has seen, or another one writes there, too (`Run.showing`,
`Run.valuing`). The watchers of a view's bindings are among those: none of them calls the host
(`Run.reacts_of_isBound`).
-/

namespace DataBinding

open State

/-- Whether the transition spares the nodes in which watchers show something. The library may write
there when it works, and when it binds a tree. -/
def Transition.sparesShown (t : Transition) : Bool :=
  match t.move with
  | .work => true
  | _ => t.isCompiling || t.before.subscribers.ids.all fun s =>
      match (t.before.watcher? s).map Watcher.reaction with
      | some (.showText n) => t.keepsText n
      | some (.showValue n) => (t.after.node n).value = (t.before.node n).value
      | _ => true

/-- What leaves the tree alone spares it. -/
theorem Transition.sparesShown_of_nodes {t : Transition} (h : t.after.nodes = t.before.nodes) :
    t.sparesShown = true := by
  have hnodes := node_congr h
  unfold sparesShown
  split
  · rfl
  · rw [Bool.or_eq_true, List.all_eq_true]
    refine .inr fun s _ => ?_
    split
    · simp [keepsText, hnodes]
    · simp [hnodes]
    · rfl

section Watchers

variable {st st' : State} {s : SubscriberId} {w w' : Watcher}

theorem purpose?_eq_some {root : RecordId} {path : String} {reaction : Reaction} :
    st.purpose? s = some (root, path, reaction) ↔
      ∃ w, st.watcher? s = some w ∧ w.root = root ∧ w.path = path ∧ w.reaction = reaction := by
  simp [purpose?, Option.map_eq_some_iff]

/-- A watcher is found again by its purpose. -/
theorem watcher?_of_purpose? (h : st'.purpose? s = st.purpose? s) (hw : st.watcher? s = some w) :
    ∃ w', st'.watcher? s = some w' ∧ w'.root = w.root ∧ w'.path = w.path ∧
      w'.reaction = w.reaction := by
  have hpurpose := purpose?_eq_some.mpr ⟨w, hw, rfl, rfl, rfl⟩
  exact purpose?_eq_some.mp (h.trans hpurpose)

theorem seen?_of_watcher? (hw : st.watcher? s = some w) : st.seen? s = some w.seen := by
  rw [seen?, hw]
  rfl

/-- What a watcher has seen, told by `seen?`. -/
theorem seen_eq {u : Value} (hw : st.watcher? s = some w) (h : st.seen? s = some u) :
    w.seen = u :=
  Option.some.inj ((seen?_of_watcher? hw).symm.trans h)

end Watchers

/-! ## Steps -/

section Steps

variable {st st' : State} {u : SubscriberId}

/-- A reaction that gives a node a text. -/
def Reaction.IsText (reaction : Reaction) : Prop := ∃ n, reaction = .showText n

/-- A reaction that sets a form value. -/
def Reaction.IsValue (reaction : Reaction) : Prop := ∃ n, reaction = .showValue n

/-- The watchers of `st` are still there in `st'`. There are no new ones that react in the way `P`,
and none of those has seen anything new. -/
structure KeepsSeen (P : Reaction → Prop) (st st' : State) : Prop where
  old : ∀ s w, st.watcher? s = some w → ∃ w', st'.watcher? s = some w' ∧ w'.reaction = w.reaction
  same : ∀ s w', st'.watcher? s = some w' → P w'.reaction →
    ∃ w, st.watcher? s = some w ∧ w'.reaction = w.reaction ∧ w'.seen = w.seen

/-- Who writes in the place of a node goes on doing so, as long as the node keeps its children. -/
theorem showsIn_of_kept {s : SubscriberId} {n : NodeId}
    (hkept : ∀ w, st.watcher? s = some w →
      ∃ w', st'.watcher? s = some w' ∧ w'.reaction = w.reaction)
    (hchildren : (st'.node n).children = (st.node n).children) (hs : st.showsIn s n = true) :
    st'.showsIn s n = true := by
  obtain ⟨w, m, hw, hreaction, hm⟩ := showsIn_iff.mp hs
  obtain ⟨w', hw', hsame⟩ := hkept w hw
  refine showsIn_iff.mpr ⟨w', m, hw', hsame.trans hreaction, ?_⟩
  rw [hchildren]
  exact hm

theorem setsValueOf_of_kept {s : SubscriberId} {n : NodeId}
    (hkept : ∀ w, st.watcher? s = some w →
      ∃ w', st'.watcher? s = some w' ∧ w'.reaction = w.reaction)
    (hs : st.setsValueOf s n = true) : st'.setsValueOf s n = true := by
  obtain ⟨w, hw, hreaction⟩ := setsValueOf_iff.mp hs
  obtain ⟨w', hw', hsame⟩ := hkept w hw
  exact setsValueOf_iff.mpr ⟨w', hw', hsame.trans hreaction⟩

/-- A step in which the nodes are spared that have a text shown. -/
theorem Showing.spared {size : Nat} (h : Showing size st) (hkinds : KeepsKinds st st')
    (hwatchers : KeepsSeen Reaction.IsText st st')
    (hnodes : ∀ s w n, st.watcher? s = some w → w.reaction = .showText n →
      (st'.node n).text = (st.node n).text ∧ (st'.node n).children = (st.node n).children ∧
        ∀ m ∈ (st.node n).children, (st'.node m).text = (st.node m).text) :
    Showing size st' := by
  intro s w' n hs hw' hreaction
  obtain ⟨w, hw, hsame, hseen⟩ := hwatchers.same s w' hw' ⟨n, hreaction⟩
  have hreaction₀ := hsame.symm.trans hreaction
  obtain ⟨hn, hshown⟩ := h s w n hs hw hreaction₀
  obtain ⟨htext, hchildren, hbelow⟩ := hnodes s w n hw hreaction₀
  refine ⟨Nat.lt_of_lt_of_le hn hkinds.size, hshown.imp ?_ ?_⟩
  · intro hshows
    rw [hseen]
    exact hshows.keep hn hkinds htext hchildren fun m hm _ => hbelow m hm
  · rintro ⟨s', hne, hs', hthere⟩
    exact ⟨s', hne, hs', showsIn_of_kept (hwatchers.old s') hchildren hthere⟩

/-- A step in which the nodes are spared that have a form value shown. -/
theorem Valuing.spared {size : Nat} (h : Valuing size st) (hsize : st.nodes.size ≤ st'.nodes.size)
    (hwatchers : KeepsSeen Reaction.IsValue st st')
    (hnodes : ∀ s w n, st.watcher? s = some w → w.reaction = .showValue n →
      (st'.node n).value = (st.node n).value) : Valuing size st' := by
  intro s w' n hs hw' hreaction
  obtain ⟨w, hw, hsame, hseen⟩ := hwatchers.same s w' hw' ⟨n, hreaction⟩
  have hreaction₀ := hsame.symm.trans hreaction
  obtain ⟨hn, hshown⟩ := h s w n hs hw hreaction₀
  refine ⟨Nat.lt_of_lt_of_le hn hsize, hshown.imp ?_ ?_⟩
  · intro hvalue
    rw [hseen, hnodes s w n hw hreaction₀]
    exact hvalue
  · rintro ⟨s', hne, hs', hthere⟩
    exact ⟨s', hne, hs', setsValueOf_of_kept (hwatchers.old s') hthere⟩

/-! ## Telling -/

/-- Only watchers that react in another way have seen something new. -/
theorem KeepsSeen.of_purpose? {P : Reaction → Prop} (hpurpose : ∀ s, st'.purpose? s = st.purpose? s)
    (hseen : ∀ s w, st.watcher? s = some w → P w.reaction → st'.seen? s = st.seen? s) :
    KeepsSeen P st st' := by
  constructor
  · intro s w hw
    obtain ⟨w', hw', -, -, hreaction⟩ := watcher?_of_purpose? (hpurpose s) hw
    exact ⟨w', hw', hreaction⟩
  · intro s w' hw' hP
    obtain ⟨w, hw, -, -, hreaction⟩ := watcher?_of_purpose? (hpurpose s).symm hw'
    rw [← hreaction] at hP
    exact ⟨w, hw, hreaction.symm, seen_eq hw' ((hseen s w hw hP).trans (seen?_of_watcher? hw))⟩

/-- Telling one watcher, which reacts in another way. -/
theorem KeepsSeen.of_told {P : Reaction → Prop} {w : Watcher} {v : Value}
    (hw : st.watcher? u = some w) (hother : ¬ P w.reaction)
    (hpurpose : ∀ s, st'.purpose? s = st.purpose? s)
    (hseen : ∀ s, st'.seen? s = if s = u then some v else st.seen? s) : KeepsSeen P st st' := by
  refine .of_purpose? hpurpose fun s w₀ hw₀ hP => ?_
  rw [hseen, if_neg]
  rintro rfl
  cases hw.symm.trans hw₀
  exact hother hP

section Text

variable {w : Watcher} {m : NodeId} {v : Value} {size : Nat} (h : Showing size st)
  (hu : size ≤ u.index) (hw : st.watcher? u = some w) (hreaction : w.reaction = .showText m)
  (hnodes : st'.nodes = (st.setText m v.display).nodes)
  (hpurpose : ∀ s, st'.purpose? s = st.purpose? s)

include h hu hw hreaction hnodes hpurpose

/-- A watcher that gives its node a text shows it, or another one writes there, too. -/
theorem Showing.text_self : st'.Shows m v.display ∨
    ∃ s, s ≠ u ∧ size ≤ s.index ∧ st'.showsIn s m = true := by
  have hkept : KeepsSeen (fun _ => False) st st' := .of_purpose? hpurpose fun _ _ _ => nofun
  obtain ⟨hm, hshown⟩ := h u w m hu hw hreaction
  by_cases hkind : (st.node m).kind = .other
  · -- Nothing is shown there, so somebody else writes in the same place.
    obtain ⟨s, hne, hs, hthere⟩ := hshown.resolve_left fun hshows => hshows.kind_ne_other hkind
    refine .inr ⟨s, hne, hs, showsIn_of_kept (hkept.old s) ?_ hthere⟩
    rw [node_congr hnodes, setText, hkind]
    exact map_node_updateNode (g := Node.children) fun _ => rfl
  · refine .inl ((shows_setText hm hkind).keep ?_ (.of_nodes hnodes) ?_ ?_ fun k _ _ => ?_)
    · exact Nat.lt_of_lt_of_le hm (KeepsKinds.setText v.display).size
    · rw [node_congr hnodes]
    · rw [node_congr hnodes]
    · rw [node_congr hnodes]

/-- Any other watcher goes on showing what it has seen, unless the text was written in its place. -/
theorem Showing.text_other {s : SubscriberId} {n : NodeId} {w₀ : Watcher} (hs : size ≤ s.index)
    (hsu : s ≠ u) (hw₀ : st.watcher? s = some w₀) (hreaction₀ : w₀.reaction = .showText n) :
    st'.Shows n w₀.seen.display ∨ ∃ s', s' ≠ s ∧ size ≤ s'.index ∧ st'.showsIn s' n = true := by
  have hkept : KeepsSeen (fun _ => False) st st' := .of_purpose? hpurpose fun _ _ _ => nofun
  obtain ⟨hn, hshown⟩ := h s w₀ n hs hw₀ hreaction₀
  have hother : ∀ k : NodeId, k.index < st.nodes.size → m ≠ k → st'.node k = st.node k := by
    intro k hk hmk
    rw [node_congr hnodes, node_setText_ne v.display hk hmk]
  by_cases hhit : m = n ∨ m ∈ (st.node n).children
  · obtain ⟨w', hw', hsame⟩ := hkept.old u w hw
    refine .inr ⟨u, Ne.symm hsu, hu,
      showsIn_iff.mpr ⟨w', m, hw', hsame.trans hreaction, ?_⟩⟩
    by_cases hmn : m = n
    · exact .inl hmn
    · rw [hother n hn hmn]
      exact hhit
  · rw [not_or] at hhit
    have hnode := hother n hn hhit.1
    have hkinds : KeepsKinds st st' := (KeepsKinds.setText v.display).trans (.of_nodes hnodes)
    refine hshown.imp ?_ ?_
    · intro hshows
      refine hshows.keep hn hkinds (by rw [hnode]) (by rw [hnode]) fun k hk hksize => ?_
      rw [hother k hksize fun hmk => hhit.2 (hmk ▸ hk)]
    · rintro ⟨s', hne, hs', hthere⟩
      exact ⟨s', hne, hs', showsIn_of_kept (hkept.old s') (by rw [hnode]) hthere⟩

end Text

/-- Whoever is told, the watchers go on showing what they have seen, unless they write over one
another. -/
theorem Paints.showing {size : Nat} (h : Paints st u st') (hu : size ≤ u.index)
    (hpurpose : ∀ s, st'.purpose? s = st.purpose? s) (hst : Showing size st) :
    Showing size st' := by
  cases h with
  | nothing hnodes hseen =>
      refine hst.spared (.of_nodes hnodes) (.of_purpose? hpurpose fun s _ _ _ => hseen s)
        fun _ _ n _ _ => ?_
      simp only [node_congr hnodes, implies_true, and_self]
  | value w m v hw hreaction hnodes hseen =>
      -- Form values are no texts, and the watcher that is told shows none.
      have hpainted : KeepsKinds st st' ∧ ∀ n, (st'.node n).text = (st.node n).text ∧
          (st'.node n).children = (st.node n).children := by
        rcases hnodes with ⟨hnodes, -⟩ | hnodes
        · exact ⟨.of_nodes hnodes, fun n => by simp only [node_congr hnodes, and_self]⟩
        · have hkinds : KeepsKinds st (st.updateNode m (·.setValue v.display)) :=
            .updateNode fun _ => rfl
          refine ⟨hkinds.trans (.of_nodes hnodes), fun n => ?_⟩
          rw [node_congr hnodes]
          exact ⟨map_node_updateNode (g := Node.text) fun _ => rfl,
            map_node_updateNode (g := Node.children) fun _ => rfl⟩
      have hother : ¬ w.reaction.IsText := by
        rintro ⟨n, htext⟩
        cases hreaction.symm.trans htext
      refine hst.spared hpainted.1 (.of_told hw hother hpurpose hseen) fun s _ n _ _ => ?_
      obtain ⟨htext, hchildren⟩ := hpainted.2 n
      exact ⟨htext, hchildren, fun k _ => (hpainted.2 k).1⟩
  | text w m v hw hreaction hnodes hseen =>
      intro s w' n hs hw' hreaction'
      obtain ⟨w₀, hw₀, -, -, hsame₀⟩ := watcher?_of_purpose? (hpurpose s).symm hw'
      have hreaction₀ := hsame₀.trans hreaction'
      have hkinds : KeepsKinds st st' := (KeepsKinds.setText v.display).trans (.of_nodes hnodes)
      refine ⟨Nat.lt_of_lt_of_le (hst s w₀ n hs hw₀ hreaction₀).1 hkinds.size, ?_⟩
      by_cases hsu : s = u
      · subst hsu
        cases hw.symm.trans hw₀
        cases hreaction.symm.trans hreaction₀
        rw [seen_eq hw' ((hseen s).trans (if_pos rfl))]
        exact hst.text_self hu hw hreaction hnodes hpurpose
      · have hvalue := ((hseen s).trans (if_neg hsu)).trans (seen?_of_watcher? hw₀)
        rw [seen_eq hw' hvalue]
        exact hst.text_other hu hw hreaction hnodes hpurpose hs hsu hw₀ hreaction₀

/-- The form values after a watcher has seen to it that its node has that of the value `v`. -/
theorem value_of_valued {m n : NodeId} {v : Value}
    (hnodes : (st'.nodes = st.nodes ∧ (st.node m).value = v.display) ∨
      st'.nodes = (st.updateNode m (·.setValue v.display)).nodes) (hn : n.index < st.nodes.size) :
    n.index < st'.nodes.size ∧
      (st'.node n).value = if m = n then v.display else (st.node n).value := by
  rcases hnodes with ⟨hnodes, hright⟩ | hnodes
  · refine ⟨hnodes ▸ hn, ?_⟩
    rw [node_congr hnodes]
    split
    · rename_i hmn
      rw [← hmn, hright]
    · rfl
  · have hkinds : KeepsKinds st (st.updateNode m (·.setValue v.display)) := .updateNode fun _ => rfl
    refine ⟨hnodes ▸ Nat.lt_of_lt_of_le hn hkinds.size, ?_⟩
    rw [node_congr hnodes, node_updateNode]
    by_cases hmn : m = n
    · rw [if_pos ⟨hmn, hn⟩, if_pos hmn]
      rfl
    · rw [if_neg fun h => hmn h.1, if_neg hmn]

/-- Whoever is told, a watcher has seen nothing new and its node has its form value, or that is the
value that the watcher has seen, unless the one that is told sets it, too. -/
theorem Paints.value_cases {s : SubscriberId} {w w' : Watcher} {n : NodeId} (h : Paints st u st')
    (hw : st.watcher? s = some w) (hreaction : w.reaction = .showValue n)
    (hn : n.index < st.nodes.size) (hw' : st'.watcher? s = some w') :
    (w'.seen = w.seen ∧ (st'.node n).value = (st.node n).value) ∨
      (st'.node n).value = w'.seen.display ∨ u ≠ s ∧ st.setsValueOf u n = true := by
  cases h with
  | nothing hnodes hseen =>
      refine .inl ⟨seen_eq hw' ((hseen s).trans (seen?_of_watcher? hw)), ?_⟩
      rw [node_congr hnodes]
  | text w₀ m v hw₀ hreaction₀ hnodes hseen =>
      have hsu : s ≠ u := by
        rintro rfl
        cases hw.symm.trans hw₀
        cases hreaction.symm.trans hreaction₀
      have hkept := ((hseen s).trans (if_neg hsu)).trans (seen?_of_watcher? hw)
      refine .inl ⟨seen_eq hw' hkept, ?_⟩
      rw [node_congr hnodes, value_setText _ hn]
  | value w₀ m v hw₀ hreaction₀ hnodes hseen =>
      rw [(value_of_valued hnodes hn).2]
      by_cases hsu : s = u
      · subst hsu
        cases hw.symm.trans hw₀
        cases hreaction.symm.trans hreaction₀
        rw [seen_eq hw' ((hseen s).trans (if_pos rfl)), if_pos rfl]
        exact .inr (.inl rfl)
      · by_cases hmn : m = n
        · subst hmn
          exact .inr (.inr ⟨Ne.symm hsu, setsValueOf_iff.mpr ⟨w₀, hw₀, hreaction₀⟩⟩)
        · have hkept := ((hseen s).trans (if_neg hsu)).trans (seen?_of_watcher? hw)
          rw [if_neg hmn]
          exact .inl ⟨seen_eq hw' hkept, rfl⟩

theorem Paints.keepsKinds (h : Paints st u st') : KeepsKinds st st' := by
  cases h with
  | nothing hnodes _ => exact .of_nodes hnodes
  | text w m v _ _ hnodes _ => exact (KeepsKinds.setText v.display).trans (.of_nodes hnodes)
  | value w m v _ _ hnodes _ =>
      have hset : KeepsKinds st (st.updateNode m (·.setValue v.display)) := .updateNode fun _ => rfl
      exact hnodes.elim (fun h => .of_nodes h.1) fun h => hset.trans (.of_nodes h)

/-- Whoever is told, the form values go on being what the watchers have seen, unless two of them set
the same one. -/
theorem Paints.valuing {size : Nat} (h : Paints st u st') (hu : size ≤ u.index)
    (hpurpose : ∀ s, st'.purpose? s = st.purpose? s) (hst : Valuing size st) :
    Valuing size st' := by
  have hkept : KeepsSeen (fun _ => False) st st' := .of_purpose? hpurpose fun _ _ _ => nofun
  intro s w' n hs hw' hreaction'
  obtain ⟨w, hw, -, -, hsame⟩ := watcher?_of_purpose? (hpurpose s).symm hw'
  have hreaction := hsame.trans hreaction'
  obtain ⟨hn, hshown⟩ := hst s w n hs hw hreaction
  refine ⟨Nat.lt_of_lt_of_le hn h.keepsKinds.size, ?_⟩
  rcases hshown with hvalue | ⟨s', hne, hs', hthere⟩
  · rcases h.value_cases hw hreaction hn hw' with ⟨hseen, hsame⟩ | hset | ⟨hus, hthere⟩
    · rw [hseen, hsame]
      exact .inl hvalue
    · exact .inl hset
    · exact .inr ⟨u, hus, hu, setsValueOf_of_kept (hkept.old u) hthere⟩
  · exact .inr ⟨s', hne, hs', setsValueOf_of_kept (hkept.old s') hthere⟩

end Steps

/-! ## Transitions -/

section Transitions

variable {t : Transition} {s : SubscriberId} {w : Watcher} {n : NodeId}

theorem Transition.agenda_of_not_tells (h : ∀ s, t.tells s = false) (hmove : t.move = .work)
    (s : SubscriberId) (rest : List Task) : t.before.agenda ≠ .update s :: rest := by
  intro hagenda
  have htells := h s
  rw [tells, hmove, hagenda] at htells
  exact of_decide_eq_false htells rfl

theorem Transition.exists_of_isCompiling (h : t.isCompiling = true) :
    ∃ o : Operation, o.isCompiling = true ∧ t.after = o.run t.before := by
  unfold isCompiling at h
  split at h
  · rename_i o hmove
    exact ⟨o, h, by rw [after, hmove, Move.run]⟩
  · cases h
  · cases h
  · cases h

/-- What a transition that spares the nodes does to one in which a watcher shows a text. -/
theorem Transition.keepsText_of_sparesShown (h : t.sparesShown = true)
    (htells : ∀ s, t.tells s = false) (hcompiling : t.isCompiling = false)
    (hw : t.before.watcher? s = some w) (hreaction : w.reaction = .showText n) :
    t.keepsText n = true := by
  have hs : s ∈ t.before.subscribers.ids :=
    (Table.mem_ids_iff _ s).mpr (lt_size_of_watcher? hw)
  rw [sparesShown, hcompiling, Bool.false_or] at h
  cases hmove : t.move with
  | work =>
      have hsight : SameSight t.before t.after := by
        rw [after, hmove]
        exact sameSight_step (agenda_of_not_tells htells hmove)
      simp [keepsText, hsight.text, hsight.children]
  | enter | finish | operate o =>
      rw [hmove] at h
      have hspared := List.all_eq_true.mp h s hs
      rw [hw, Option.map_some, hreaction] at hspared
      exact hspared

theorem Transition.value_of_sparesShown (h : t.sparesShown = true)
    (htells : ∀ s, t.tells s = false) (hcompiling : t.isCompiling = false)
    (hw : t.before.watcher? s = some w) (hreaction : w.reaction = .showValue n) :
    (t.after.node n).value = (t.before.node n).value := by
  have hs : s ∈ t.before.subscribers.ids :=
    (Table.mem_ids_iff _ s).mpr (lt_size_of_watcher? hw)
  rw [sparesShown, hcompiling, Bool.false_or] at h
  cases hmove : t.move with
  | work =>
      have hsight : SameSight t.before t.after := by
        rw [after, hmove]
        exact sameSight_step (agenda_of_not_tells htells hmove)
      exact hsight.value n
  | enter | finish | operate o =>
      rw [hmove] at h
      have hspared := List.all_eq_true.mp h s hs
      rw [hw, Option.map_some, hreaction] at hspared
      exact of_decide_eq_true hspared

/-- Unless a watcher is told or a tree is bound, the watchers that react without the host's help are
those there were, and have seen what they had. -/
theorem Course.keepsSeen (h : Course t) (hst : Consistent t.before)
    (htells : ∀ s, t.tells s = false) (hcompiling : t.isCompiling = false)
    {P : Reaction → Prop} (hP : ∀ c, ¬ P (.call c)) : KeepsSeen P t.before t.after := by
  refine ⟨fun s w hw => h.reaction hw, fun s w' hw' hreacts => ?_⟩
  have hnot : ∀ c, w'.reaction ≠ .call c := fun c hcall => hP c (hcall ▸ hreacts)
  cases hw : t.before.watcher? s with
  | none =>
      obtain ⟨-, hcompiled | ⟨c, hcall⟩⟩ := h.makes hw hw'
      · exact Bool.noConfusion (hcompiling.symm.trans hcompiled)
      · exact absurd hcall (hnot c)
  | some w =>
      obtain ⟨w₁, hw₁, hreaction⟩ := h.reaction hw
      cases hw'.symm.trans hw₁
      have hnot₀ : ∀ c, w.reaction ≠ .call c := fun c hcall => hnot c (hreaction.trans hcall)
      obtain ⟨w₂, hw₂, hseen⟩ := h.seen hst (htells s) hw hnot₀
      cases hw'.symm.trans hw₂
      exact ⟨w, rfl, hreaction, hseen⟩

theorem Course.showing (h : Course t) (hst : Consistent t.before) (hspares : t.sparesShown = true)
    (hbefore : Showing 0 t.before) : Showing 0 t.after := by
  by_cases htold : ∃ s, t.tells s = true
  · obtain ⟨s, hs⟩ := htold
    obtain ⟨rest, -, hafter⟩ := Transition.after_of_tells hs
    have hdropped : Showing 0 { t.before with agenda := rest } := hbefore.congr rfl rfl
    rw [hafter]
    exact (paints_update _ s).showing (Nat.zero_le _) (purpose?_update _ s) hdropped
  simp only [not_exists, Bool.not_eq_true] at htold
  cases hcompiling : t.isCompiling with
  | true =>
      obtain ⟨o, ho, hafter⟩ := Transition.exists_of_isCompiling hcompiling
      rw [hafter]
      exact showing_run ho (Nat.zero_le _) hbefore
  | false =>
      have hwatchers : KeepsSeen Reaction.IsText t.before t.after :=
        h.keepsSeen hst htold hcompiling fun c ⟨n, hn⟩ => nomatch hn
      refine hbefore.spared h.keepsKinds hwatchers fun s w n hw hreaction => ?_
      have hkept := Transition.keepsText_of_sparesShown hspares htold hcompiling hw hreaction
      simpa [Transition.keepsText, and_assoc] using hkept

theorem Course.valuing (h : Course t) (hst : Consistent t.before) (hspares : t.sparesShown = true)
    (hbefore : Valuing 0 t.before) : Valuing 0 t.after := by
  by_cases htold : ∃ s, t.tells s = true
  · obtain ⟨s, hs⟩ := htold
    obtain ⟨rest, -, hafter⟩ := Transition.after_of_tells hs
    have hdropped : Valuing 0 { t.before with agenda := rest } := hbefore.congr rfl rfl
    rw [hafter]
    exact (paints_update _ s).valuing (Nat.zero_le _) (purpose?_update _ s) hdropped
  simp only [not_exists, Bool.not_eq_true] at htold
  cases hcompiling : t.isCompiling with
  | true =>
      obtain ⟨o, ho, hafter⟩ := Transition.exists_of_isCompiling hcompiling
      rw [hafter]
      exact valuing_run ho (Nat.zero_le _) hbefore
  | false =>
      have hwatchers : KeepsSeen Reaction.IsValue t.before t.after :=
        h.keepsSeen hst htold hcompiling fun c ⟨n, hn⟩ => nomatch hn
      refine hbefore.spared h.keepsKinds.size hwatchers fun s w n hw hreaction => ?_
      exact Transition.value_of_sparesShown hspares htold hcompiling hw hreaction

end Transitions

/-! ## The watchers of bindings -/

section Bindings

variable {st : State} {s : SubscriberId} {w : Watcher}

/-- Binding a tree makes no watcher that calls the host. -/
theorem Wires.reacts {view : ViewId} {c c' : Compilation} (h : Wires view c c')
    (hs : c.state.watcher? s = none) (hw : c'.state.watcher? s = some w) :
    ∀ k, w.reaction ≠ .call k := by
  induction h with
  | refl => cases hs.symm.trans hw
  | @tail c₁ c₂ _ hstep ih =>
      cases hw₁ : c₁.state.watcher? s with
      | some w₁ =>
          cases hw.symm.trans (Wires.watcher? (.single hstep) hw₁)
          exact ih hw₁
      | none =>
          cases hstep with
          | report e => cases hw₁.symm.trans hw
          | text n key _ _ =>
              rw [(bindText_addsWatcher c₁.state view n key).watcher, hw₁] at hw
              split at hw
              · cases hw
                nofun
              · cases hw
          | model n key _ =>
              rw [(bindModel_addsWatcher c₁.state view n key).watcher, hw₁] at hw
              split at hw
              · cases hw
                nofun
              · cases hw
          | click n method _ => cases hw₁.symm.trans hw

theorem reacts_run {o : Operation} (h : o.isCompiling = true) (hs : st.watcher? s = none)
    (hw : (o.run st).watcher? s = some w) : ∀ k, w.reaction ≠ .call k := by
  cases o with
  | compile view root => exact (wires_bindBelow view root ⟨st, []⟩ _).reacts hs hw
  | mount document? o =>
      simp only [Operation.run] at hw
      cases hroot : st.resolveRoot document? o.root? with
      | error fault =>
          rw [mount_eq_error hroot] at hw
          cases hs.symm.trans hw
      | ok root =>
          rw [mount_eq hroot] at hw
          have hviewed : (st.withView root o).watcher? s = none :=
            (watcher?_congr subscribers_withView).trans hs
          exact (wires_bindBelow st.views.fresh root ⟨st.withView root o, []⟩ _).reacts hviewed hw
  | _ => cases h

end Bindings

/-- Unless a tree is bound, no view gets another subscriber. -/
theorem Transition.isBound_of_not_compiling {t : Transition} (h : t.isCompiling = false)
    {s : SubscriberId} (hs : t.after.isBound s = true) : t.before.isBound s = true := by
  obtain ⟨v, hv⟩ := isBound_iff.mp hs
  cases t.viewStep (v := v) (.inr h) with
  | kept _ hbindings =>
      refine isBound_iff.mpr ⟨v, ?_⟩
      rw [isBoundBy, ← hbindings]
      exact hv
  | unmounted base _ _ _ _ _ hafter =>
      rw [hafter, isBoundBy, view_unmount, if_pos rfl] at hv
      cases hv

/-! ## Runs -/

section Runs

variable {ts : List Transition} {st : State}

/-- The watchers that a view has do not call the host. -/
theorem Run.reacts_of_isBound (h : Run ts st) (tame : ∀ t ∈ ts, t.isTame = true)
    {s : SubscriberId} (hs : st.isBound s = true) :
    ∃ w, st.watcher? s = some w ∧ ∀ c, w.reaction ≠ .call c := by
  revert hs
  refine h.tameInduction tame ?_ ?_
  · intro hs
    obtain ⟨v, hv⟩ := isBound_iff.mp hs
    exact absurd (owned_empty.lt_size hv) (Nat.not_lt_zero _)
  intro ts st m _ _ hst ho hcourse ih hs
  have hold : st.isBound s = true → ∃ w, (m.run st).watcher? s = some w ∧
      ∀ c, w.reaction ≠ .call c := by
    intro hbefore
    obtain ⟨w, hw, hreacts⟩ := ih hbefore
    obtain ⟨w', hw', hreaction⟩ := hcourse.reaction hw
    refine ⟨w', hw', ?_⟩
    rw [hreaction]
    exact hreacts
  cases hcompiling : Transition.isCompiling ⟨st, m⟩ with
  | false => exact hold (Transition.isBound_of_not_compiling hcompiling hs)
  | true =>
      rcases hcourse.isBound hs with hbefore | hnew
      · exact hold hbefore
      · -- The watcher is made now, and handed to the view.
        obtain ⟨-, ho'⟩ := hcourse.consistent hst ho
        obtain ⟨v, hv⟩ := isBound_iff.mp hs
        obtain ⟨w, hw, -⟩ := ho'.watcher v s hv
        obtain ⟨o, ho, hafter⟩ := Transition.exists_of_isCompiling hcompiling
        exact ⟨w, hw, reacts_run ho (watcher?_eq_none hnew) (hafter ▸ hw)⟩

/-- In a run that spares the nodes in which watchers show something, every watcher shows what it has
seen, or another one writes there, too. -/
theorem Run.showing (h : Run ts st) (tame : ∀ t ∈ ts, t.isTame = true)
    (spares : ∀ t ∈ ts, t.sparesShown = true) : Showing 0 st := by
  revert spares
  refine h.tameInduction tame ?_ ?_
  · intro _
    exact showing_self {}
  · intro ts st m _ _ hst _ hcourse ih spares
    have hbefore := ih fun t ht => spares t (List.mem_cons_of_mem _ ht)
    exact hcourse.showing hst (spares _ List.mem_cons_self) hbefore

/-- The same of form values. -/
theorem Run.valuing (h : Run ts st) (tame : ∀ t ∈ ts, t.isTame = true)
    (spares : ∀ t ∈ ts, t.sparesShown = true) : Valuing 0 st := by
  revert spares
  refine h.tameInduction tame ?_ ?_
  · intro _
    exact valuing_self {}
  · intro ts st m _ _ hst _ hcourse ih spares
    have hbefore := ih fun t ht => spares t (List.mem_cons_of_mem _ ht)
    exact hcourse.valuing hst (spares _ List.mem_cons_self) hbefore

end Runs

end DataBinding
