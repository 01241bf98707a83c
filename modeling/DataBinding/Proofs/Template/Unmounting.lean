import DataBinding.Proofs.Reaction
import DataBinding.Proofs.Subscription.Retiring
import DataBinding.Proofs.Template.Attachment

set_option autoImplicit false

/-! # Unmounting undoes mounting

To mount a view makes subscribers and gives nodes listeners (`Transition.makes`,
`Transition.attaches`). Whatever happens meanwhile, to unmount the view takes exactly these away
again and leaves all else as it is (`Undoes`), and the watchers that it had do nothing any more.

The invariant behind this is `Standing`: as long as the view has bindings they are those that it
was mounted with, their watchers list the channels that they are on, and every listener with one of
the numbers that nodes gave out while the view was mounted is theirs; afterwards there is no such
listener left, and the watchers are disposed of.
-/

namespace DataBinding

open State

/-! ## Nodes without listeners -/

/-- A node without some of what is attached to `n`. -/
def Node.without (b : Node) (n : NodeId) (attachments : List Attachment) : Node :=
  { b with listeners := b.listeners.filter fun l => ⟨n, l.event, l.number⟩ ∉ attachments }

namespace Node

variable (b : Node) (n : NodeId)

theorem without_nil : b.without n [] = b := by
  simp [without]

theorem without_append (l l' : List Attachment) :
    (b.without n l).without n l' = b.without n (l ++ l') := by
  simp only [without, List.filter_filter, List.mem_append, not_or, Bool.decide_and, Bool.and_comm]

end Node

namespace State

variable {st : State} {n : NodeId}

theorem node_unlisten (a : Attachment) :
    (st.unlisten a).node n = (st.node n).without n [a] := by
  have hiff : ∀ l : Listener, (⟨n, l.event, l.number⟩ : Attachment) ∉ [a] ↔
      ¬ (a.node = n ∧ l.event = a.event ∧ l.number = a.number) := by
    intro l
    cases a
    simp [eq_comm]
  rw [unlisten, node_updateNode, Node.without]
  split
  · rename_i hn
    refine congrArg (fun listeners => { st.node n with listeners })
      (List.filter_congr fun l _ => ?_)
    rw [Bool.eq_iff_iff, decide_eq_true_iff, hiff]
    simp [hn.1, imp_iff_not_or]
  · -- The attachment is somewhere else, or the node does not exist and so has no listeners.
    rename_i hn
    have hkept : (st.node n).listeners.filter (fun l => ⟨n, l.event, l.number⟩ ∉ [a]) =
        (st.node n).listeners := by
      refine List.filter_eq_self.mpr fun l hl => decide_eq_true ((hiff l).mpr fun h => hn ⟨h.1, ?_⟩)
      by_contra hsize
      rw [node_eq_default (by omega)] at hl
      cases hl
    rw [hkept]

theorem node_foldl_unlisten (l : List Attachment) :
    (l.foldl unlisten st).node n = (st.node n).without n l := by
  induction l generalizing st with
  | nil => exact (Node.without_nil _ n).symm
  | cons a rest ih =>
      rw [List.foldl_cons, ih, node_unlisten, Node.without_append, List.singleton_append]

theorem node_detach (b : Binding) : (st.detach b).node n = (st.node n).without n b.listeners := by
  have hwatchers : OnlySubscriptions st (b.watchers.foldl retire st) :=
    .foldl (fun st s => (onlySubscriptions_dispose st s).trans (onlySubscriptions_release _ s)) _ st
  refine (node_foldl_unlisten b.listeners).trans ?_
  rw [← node_congr hwatchers.nodes]
  rfl

theorem node_foldl_detach (bs : List Binding) :
    (bs.foldl detach st).node n = (st.node n).without n (attachmentsOf bs) := by
  induction bs generalizing st with
  | nil => exact (Node.without_nil _ n).symm
  | cons b rest ih =>
      rw [List.foldl_cons, ih, node_detach, Node.without_append]
      rfl

/-! ## Unmounting -/

/-- The state in which a view knows of no bindings; what they attached is still there. -/
def unbound (st : State) (v : ViewId) : State :=
  { st with views := st.views.modify v fun b => { b with bindings := [] } }

/-- The state in which a view has one holder less. -/
def lessHeld (st : State) (v : ViewId) : State :=
  { st with views := st.views.modify v fun b => { b with holders := (st.view v).holders - 1 } }

theorem unmount_eq (v : ViewId) :
    st.unmount v = (st.view v).bindings.foldl detach (st.unbound v) := rfl

theorem releaseView_eq (v : ViewId) : st.releaseView v =
    if 0 < (st.view v).holders - 1 then st.lessHeld v else (st.lessHeld v).unmount v := rfl

theorem retires_unmount (v : ViewId) :
    Retires (st.unbound v) (watchersOf (st.view v).bindings) (st.unmount v) :=
  retires_foldl_detach _ _

theorem view_unmount (v u : ViewId) : (st.unmount v).view u =
    if v = u then { st.view u with bindings := [] } else st.view u := by
  rw [(retires_unmount v).store.view, unbound, view_modify]
  by_cases hu : u.index < st.views.size
  · simp [hu]
  · rw [view_eq (by omega)]
    simp [hu]

theorem node_unmount (v : ViewId) :
    (st.unmount v).node n = (st.node n).without n (attachmentsOf (st.view v).bindings) :=
  node_foldl_detach _

/-- To unmount a view that has no bindings does nothing. -/
theorem unmount_of_nil {v : ViewId} (h : (st.view v).bindings = []) : st.unmount v = st := by
  have hviews : (st.views.modify v fun b => { b with bindings := [] }) = st.views := by
    refine Table.modify_eq_self fun b hb => ?_
    have hview : st.view v = b := by rw [view, hb, Option.getD_some]
    rw [hview] at h
    rw [← h]
  rw [unmount_eq, h, List.foldl_nil, unbound, hviews]

end State

/-! ## The bindings of a view -/

/-- From `st` to `st'` the view `v` keeps its bindings, or it is unmounted. -/
inductive ViewStep (v : ViewId) (st st' : State) : Prop where
  | kept (hsize : st.views.size ≤ st'.views.size)
      (hbindings : (st'.view v).bindings = (st.view v).bindings)
  | unmounted (base : State) (hsubscribers : base.subscribers = st.subscribers)
      (hchannels : base.channels = st.channels) (hnodes : base.nodes = st.nodes)
      (hsize : base.views.size = st.views.size)
      (hbindings : (base.view v).bindings = (st.view v).bindings) (hafter : st' = base.unmount v)

section Views

variable {st st' : State} {v : ViewId}

theorem ViewStep.of_views (h : st'.views = st.views) : ViewStep v st st' :=
  .kept (Nat.le_of_eq (by rw [h])) (by rw [view_congr h])

theorem ViewStep.of_modify {u : ViewId} {f : View → View} (h : st'.views = st.views.modify u f)
    (hf : ∀ b, (f b).bindings = b.bindings) : ViewStep v st st' := by
  have hcongr : ∀ st₁ : State, st'.views = st₁.views → st'.view v = st₁.view v :=
    fun _ h => view_congr h v
  have hview := hcongr { st with views := st.views.modify u f } h
  refine .kept (Nat.le_of_eq (by rw [h, Table.size_modify])) ?_
  rw [hview, view_modify]
  split
  · exact hf _
  · rfl

theorem size_views_unmount (u : ViewId) : (st.unmount u).views.size = st.views.size := by
  rw [(retires_unmount u).store.views, unbound, Table.size_modify]

theorem viewStep_unmount (u : ViewId) : ViewStep v st (st.unmount u) := by
  by_cases huv : u = v
  · subst huv
    exact .unmounted st rfl rfl rfl rfl rfl rfl
  · refine .kept (Nat.le_of_eq (size_views_unmount u).symm) ?_
    rw [view_unmount, if_neg huv]

theorem view_lessHeld (u : ViewId) : ((st.lessHeld u).view v).bindings = (st.view v).bindings := by
  rw [lessHeld, view_modify]
  split
  · rfl
  · rfl

theorem viewStep_releaseView (u : ViewId) : ViewStep v st (st.releaseView u) := by
  rw [releaseView_eq]
  split
  · exact .of_modify rfl fun _ => rfl
  · by_cases huv : u = v
    · subst huv
      exact .unmounted (st.lessHeld u) rfl rfl rfl (Table.size_modify ..) (view_lessHeld u) rfl
    · refine .kept (Nat.le_of_eq ?_) ?_
      · rw [size_views_unmount, lessHeld, Table.size_modify]
      · rw [view_unmount, if_neg huv, view_lessHeld]

/-- To hold a view is not to change its bindings. -/
theorem ViewStep.of_hold {u : ViewId} (h : st'.views = (st.holdView u).views) :
    ViewStep v st st' := by
  refine .of_modify h fun b => ?_
  split
  · rfl
  · rfl

theorem viewStep_mounted (hv : v.index < st.views.size) (root : NodeId) (o : ViewOptions) :
    ViewStep v st (st.mounted root o) := by
  have hne : v ≠ st.views.fresh := Table.ne_fresh hv
  have htree : (st.withTree root o).views = (st.withView root o).views := wired_withTree.views
  have hobserved : (st.observe o.data).views = st.views := (observes_observe st o.data).views
  have hsize : (st.mounted root o).views.size = (st.withTree root o).views.size :=
    Table.size_modify ..
  refine .kept ?_ ?_
  · rw [hsize, htree, size_views_withView]
    exact Nat.le_succ _
  · have hmounted : (st.mounted root o).view v = (st.withTree root o).view v :=
      (view_modify ((st.withTree root o).report _) _ _ _).trans (if_neg fun h => hne h.1.symm)
    rw [hmounted, view_congr htree, withView, view_alloc, hobserved, if_neg hne,
      view_congr hobserved]

theorem Operation.viewStep (o : Operation)
    (hv : v.index < st.views.size ∨ o.isCompiling = false) : ViewStep v st (o.run st) := by
  cases o with
  | writeField p w => exact .of_views (outside_writeField st p w).2
  | writePath root path w => exact .of_views (outside_writePath st root path w).2
  | assign c w => exact .of_views (outside_assign st c w).2
  | writeView u key w => exact .of_views (outside_writeView st u key w).2
  | observe w => exact .of_views (observes_observeValue st w).views
  | define p w => exact .of_views (observes_observeValue st w).views
  | subscribe c s => exact .of_views (onlySubscriptions_subscribe st c s).views
  | leave sources s => exact .of_views (onlySubscriptions_leave st sources s).views
  | leaveAbandoned previous next s => exact .of_views (onlySubscriptions_leave st _ s).views
  | track t root path => exact .of_views (onlySubscriptions_track st t root path).views
  | trackCell t c => exact .of_views (onlySubscriptions_subscribe st _ t.reader).views
  | notify c => exact .of_views (onlySubscriptions_notify st c).views
  | watch root path c => exact .of_views (onlySubscriptions_watch st root path _).views
  | dispose s => exact .of_views (onlySubscriptions_dispose st s).views
  | release s => exact .of_views (onlySubscriptions_release st s).views
  | abandon bs =>
      have hwatchers : ∀ (st : State) (b : Binding),
          OnlySubscriptions st (b.watchers.foldl State.release st) :=
        fun st b => .foldl onlySubscriptions_release b.watchers st
      have habandon : OnlySubscriptions st (st.abandon bs) := .foldl hwatchers bs st
      exact .of_views habandon.views
  | setText n text => exact .of_views (by rw [run, setText_rest])
  | mount document? o =>
      simp only [run]
      cases hroot : st.resolveRoot document? o.root? with
      | error fault =>
          rw [mount_eq_error hroot]
          exact .of_views rfl
      | ok root =>
          rw [mount_eq hroot]
          exact viewStep_mounted (hv.resolve_right (by simp [isCompiling])) root o
  | compile u root => exact .of_views (wired_compile st u root).views
  | detach b => exact .of_views (retires_detach st b).store.views
  | unmount u => exact viewStep_unmount u
  | holdView u => exact .of_hold rfl
  | releaseView u => exact viewStep_releaseView u
  | callMethod u name =>
      simp only [run, State.callMethod]
      cases st.method? u name with
      | error fault => exact .of_views rfl
      | ok c => exact .of_hold rfl
  | newArray _ | newRecord | newChannel | unsubscribe _ _ | newProbe _ | tell _ | hold _
  | newNode _ _ | appendChild _ _ | setAttribute _ _ _ | setValue _ _ | listen _ _ _ | unlisten _
  | typeInto _ _ | dispatch _ _ => exact .of_views rfl

theorem viewStep_act (n : NodeId) (a : Action) : ViewStep v st (st.act n a) := by
  cases a with
  | call c => exact .of_views rfl
  | edit u key =>
      simp only [act]
      split
      · exact .of_hold (outside_writeView ((st.holdView u).push [.releaseView u]) u key _).2
      · exact .of_views rfl
  | invoke u name =>
      simp only [act, callMethod]
      split
      · cases st.method? u name with
        | ok c => exact .of_hold rfl
        | error fault => exact .of_views rfl
      · exact .of_views rfl

theorem ViewStep.drop (rest : List Task)
    (h : ViewStep v { st with agenda := rest } st') : ViewStep v st st' := by
  cases h with
  | kept hsize hbindings => exact .kept hsize hbindings
  | unmounted base hsubscribers hchannels hnodes hsize hbindings hafter =>
      exact .unmounted base hsubscribers hchannels hnodes hsize hbindings hafter

/-- Whatever is done, a view keeps its bindings, or it is unmounted. Only where a tree is bound, a
view may come into being. -/
theorem Transition.viewStep (t : Transition)
    (hv : v.index < t.before.views.size ∨ t.isCompiling = false) :
    ViewStep v t.before t.after := by
  cases hmove : t.move with
  | work =>
      rw [Transition.after, hmove, Move.run, step]
      split
      · exact .of_views rfl
      · rename_i task rest _
        refine ViewStep.drop rest ?_
        cases task with
        | update s => exact .of_views (Telling.of_update rfl).views
        | remember s w => exact .of_views rfl
        | release s => exact .of_views (onlySubscriptions_release _ s).views
        | act n a => exact viewStep_act n a
        | releaseView u => exact viewStep_releaseView u
        | call _ | running => exact .of_views rfl
  | enter =>
      rw [Transition.after, hmove, Move.run, enter]
      split
      · exact .of_views rfl
      · exact .of_views rfl
  | finish =>
      rw [Transition.after, hmove, Move.run, finish]
      split
      · exact .of_views rfl
      · exact .of_views rfl
  | operate o =>
      rw [Transition.isCompiling, hmove] at hv
      rw [Transition.after, hmove]
      exact o.viewStep hv

end Views

/-! ## What mounting makes -/

namespace Transition

/-- The transition mounts the view `v`. -/
def Mounts (t : Transition) (v : ViewId) : Prop :=
  ∃ document? o, t.move = .operate (.mount document? o) ∧
    t.before.mount document? o = (.ok v, t.after)

/-- Whether the subscriber was made in the transition. -/
def makes (t : Transition) (s : SubscriberId) : Bool :=
  t.before.subscribers.size ≤ s.index && s.index < t.after.subscribers.size

/-- Whether the listener of the node has a number that the node gave out in the transition. -/
def attaches (t : Transition) (n : NodeId) (l : Listener) : Bool :=
  (t.before.node n).nextListener ≤ l.number && l.number < (t.after.node n).nextListener

theorem makes_iff {t : Transition} {s : SubscriberId} : t.makes s = true ↔
    t.before.subscribers.size ≤ s.index ∧ s.index < t.after.subscribers.size := by
  rw [makes, Bool.and_eq_true, decide_eq_true_iff, decide_eq_true_iff]

theorem attaches_iff {t : Transition} {n : NodeId} {l : Listener} : t.attaches n l = true ↔
    (t.before.node n).nextListener ≤ l.number ∧ l.number < (t.after.node n).nextListener := by
  rw [attaches, Bool.and_eq_true, decide_eq_true_iff, decide_eq_true_iff]

end Transition

/-- From `st` to `st'` all that the transition `t` made for the view `v` is taken away again, and
nothing else is changed. -/
structure Undoes (t : Transition) (v : ViewId) (st st' : State) : Prop where
  bindings : (st'.view v).bindings = []
  /-- A channel loses the watchers that were made for the view; the others stay, in their order. -/
  channels : ∀ c, st'.channels.get c = (st.channels.get c).filter fun s => !t.makes s
  /-- A node loses the listeners that it was given for the view, and is otherwise as it was. -/
  node : ∀ n, st'.node n =
    { st.node n with listeners := (st.node n).listeners.filter fun l => !t.attaches n l }
  records : st'.records = st.records
  cells : st'.cells = st.cells
  agenda : st'.agenda = st.agenda
  views : ∀ u, u ≠ v → st'.view u = st.view u
  subscribers : ∀ s, t.makes s = false → st'.subscribers.get? s = st.subscribers.get? s
  /-- Whatever is done from then on, it does nothing to tell a watcher that was made for the
  view. -/
  silent : ∀ s, t.makes s = true → ∀ ms, st'.canPlay ms = true →
    ∀ t' ∈ played [] st' ms, t'.tells s = true →
      t'.after = { t'.before with agenda := t'.before.agenda.tail }
  again : st'.unmount v = st'

section Standing

variable {t₀ : Transition} {v : ViewId} {st st' : State} {s : SubscriberId}

/-- It does nothing to tell a watcher that is disposed of. -/
theorem after_of_tells {t : Transition} {w : Watcher} (hw : t.before.watcher? s = some w)
    (hdisposed : w.disposed = true) (htells : t.tells s = true) :
    t.after = { t.before with agenda := t.before.agenda.tail } := by
  rw [Transition.tells] at htells
  split at htells
  · rename_i s' rest hmove hagenda
    obtain rfl : s' = s := of_decide_eq_true htells
    have hafter : t.after = ({ t.before with agenda := rest } : State).update s' :=
      t.after_of_work hmove hagenda
    rw [hagenda, List.tail_cons]
    have hnever : ∀ u : Watcher, t.before.watcher? s' = some u → u.disposed = false → False := by
      intro u hu hlive
      cases hw.symm.trans hu
      exact Bool.noConfusion (hlive.symm.trans hdisposed)
    have htelling := Telling.of_update hafter
    generalize t.after = after at htelling
    cases htelling with
    | probe c hs => cases hw.symm.trans hs
    | disposed => rfl
    | unchanged u hu hlive | shown u n hu hlive | valued u n nodes hu hlive | called u c hu hlive =>
        exact absurd hlive (hnever u hu)
  · cases htells

theorem silent_of_disposed {w : Watcher} (hw : st.watcher? s = some w)
    (hdisposed : w.disposed = true) (ms : List Move) (hplay : st.canPlay ms = true) :
    ∀ t ∈ played [] st ms, t.tells s = true →
      t.after = { t.before with agenda := t.before.agenda.tail } := by
  induction ms generalizing st w with
  | nil => nofun
  | cons m ms ih =>
      rw [State.canPlay, Bool.and_eq_true] at hplay
      obtain ⟨w', hw', hdisposed'⟩ := Transition.lasts ⟨st, m⟩ hplay.1 w hw
      intro t ht
      rw [played, played_eq_append, List.mem_append, List.mem_singleton] at ht
      rcases ht with ht | rfl
      · exact ih hw' (hdisposed' hdisposed) hplay.2 t ht
      · exact after_of_tells hw hdisposed

/-- How the view `v` stands, some time after the transition `t₀` has mounted it. -/
structure Standing (t₀ : Transition) (v : ViewId) (st : State) : Prop where
  attached : Attached t₀.before (t₀.after.view v).bindings t₀.after
  numbers : ∀ n, ∀ l ∈ (t₀.before.node n).listeners, l.number < (t₀.before.node n).nextListener
  known : v.index < st.views.size
  ages : Ages t₀.after st
  lists : ∀ s, t₀.makes s = true → Lists st s
  bindings : (st.view v).bindings = (t₀.after.view v).bindings ∨
    (st.view v).bindings = [] ∧
      (∀ s, t₀.makes s = true → ∃ w, st.watcher? s = some w ∧ w.disposed = true) ∧
      ∀ n, ∀ l ∈ (st.node n).listeners, t₀.attaches n l = false

namespace Standing

theorem makes_iff (h : Standing t₀ v st) :
    t₀.makes s = true ↔ s ∈ watchersOf (t₀.after.view v).bindings := by
  rw [Transition.makes_iff, h.attached.watchers]

/-- What has one of the numbers given out for the view is attached by one of its bindings. -/
theorem attaches_iff (h : Standing t₀ v st) {n : NodeId} {l : Listener}
    (hl : l ∈ (st.node n).listeners) : t₀.attaches n l = true ↔
      ⟨n, l.event, l.number⟩ ∈ attachmentsOf (t₀.after.view v).bindings := by
  rw [Transition.attaches_iff]
  constructor
  · rintro ⟨hge, hlt⟩
    -- A listener of this number was there when the view had been mounted, and not before.
    rcases (h.ages n).listener l hl with hafter | hlater
    · rcases h.attached.listeners n l hafter with hbefore | hattached
      · have := h.numbers n l hbefore
        omega
      · exact hattached
    · omega
  · exact fun hmem => h.attached.numbers _ hmem

theorem not_mem (h : Standing t₀ v st) (hs : t₀.makes s = true)
    (hdisposed : ∃ w, st.watcher? s = some w ∧ w.disposed = true) (c : ChannelId) :
    s ∉ st.channels.get c := by
  intro hc
  obtain ⟨w, hw, hdisposed⟩ := hdisposed
  obtain ⟨w', hw', hlisted, hfinal⟩ := h.lists s hs
  obtain rfl : w' = w := Option.some.inj (hw'.symm.trans hw)
  have hmem := hlisted c hc
  rw [hfinal hdisposed] at hmem
  cases hmem

/-- To unmount the view undoes mounting it. -/
theorem undoes (h : Standing t₀ v st) : Undoes t₀ v st (st.unmount v) := by
  have hagain : (st.unmount v).unmount v = st.unmount v :=
    unmount_of_nil (by rw [view_unmount, if_pos rfl])
  rcases h.bindings with hbindings | ⟨hnone, hdisposed, hlisteners⟩
  · have hretires : Retires (st.unbound v) _ (st.unmount v) := retires_unmount v
    rw [hbindings] at hretires
    have hlists : ∀ s ∈ watchersOf (t₀.after.view v).bindings, Lists (st.unbound v) s :=
      fun s hs => (h.lists s (h.makes_iff.mpr hs)).congr rfl fun _ => rfl
    refine
      { bindings := by rw [view_unmount, if_pos rfl]
        channels := fun c => ?_
        node := fun n => ?_
        records := hretires.store.records
        cells := hretires.store.cells
        agenda := hretires.store.agenda
        views := fun u hu => by rw [view_unmount, if_neg (Ne.symm hu)]
        subscribers := fun s hs => ?_
        silent := fun s hs => ?_
        again := hagain }
    · rw [hretires.channels hlists]
      refine List.filter_congr fun s _ => ?_
      rw [Bool.eq_iff_iff, decide_eq_true_iff, ← h.makes_iff]
      simp
    · rw [node_unmount, hbindings, Node.without]
      refine congrArg (fun listeners => { st.node n with listeners })
        (List.filter_congr fun l hl => ?_)
      rw [Bool.eq_iff_iff, decide_eq_true_iff, ← h.attaches_iff hl]
      simp
    · refine hretires.others s fun hmem => ?_
      rw [h.makes_iff.mpr hmem] at hs
      cases hs
    · obtain ⟨w, hw, -⟩ := h.lists s hs
      have hretired : (st.unmount v).watcher? s = some w.retired := by
        rw [hretires.watcher, if_pos (h.makes_iff.mp hs)]
        exact congrArg (Option.map _) hw
      exact silent_of_disposed hretired rfl
  · -- The view was unmounted before, so there is nothing left to take away.
    rw [unmount_of_nil hnone] at hagain ⊢
    refine ⟨hnone, fun c => ?_, fun n => ?_, rfl, rfl, rfl, fun _ _ => rfl, fun _ _ => rfl,
      fun s hs => ?_, hagain⟩
    · refine (List.filter_eq_self.mpr fun s hs => ?_).symm
      cases hmakes : t₀.makes s with
      | false => rfl
      | true => exact absurd hs (h.not_mem hmakes (hdisposed s hmakes) c)
    · have hkept : (st.node n).listeners.filter (fun l => !t₀.attaches n l) =
          (st.node n).listeners :=
        List.filter_eq_self.mpr fun l hl => by rw [hlisteners n l hl]; rfl
      rw [hkept]
    · obtain ⟨w, hw, hgone⟩ := hdisposed s hs
      exact silent_of_disposed hw hgone

theorem congr (h : Standing t₀ v st) (hsubscribers : st'.subscribers = st.subscribers)
    (hchannels : st'.channels = st.channels) (hnodes : st'.nodes = st.nodes)
    (hsize : st'.views.size = st.views.size)
    (hbindings : (st'.view v).bindings = (st.view v).bindings) : Standing t₀ v st' where
  attached := h.attached
  numbers := h.numbers
  known := Nat.lt_of_lt_of_eq h.known hsize.symm
  ages := h.ages.trans (.of_nodes hnodes)
  lists s hs := (h.lists s hs).congr hsubscribers fun c => by rw [hchannels]
  bindings := by
    refine hbindings ▸ h.bindings.imp_right fun ⟨hnone, hdisposed, hlisteners⟩ => ?_
    refine ⟨hnone, fun s hs => ?_, fun n l hl => ?_⟩
    · rw [watcher?_congr hsubscribers]
      exact hdisposed s hs
    · rw [node_congr hnodes] at hl
      exact hlisteners n l hl

theorem unmount (h : Standing t₀ v st) : Standing t₀ v (st.unmount v) where
  attached := h.attached
  numbers := h.numbers
  known := Nat.lt_of_lt_of_eq h.known (size_views_unmount v).symm
  ages := h.ages.trans (ages_unmount v)
  lists s hs := (retires_unmount v).lists s ((h.lists s hs).congr rfl fun _ => rfl)
  bindings := by
    refine .inr ⟨h.undoes.bindings, fun s hs => ?_, fun n l hl => ?_⟩
    · obtain ⟨w, hw, -⟩ := h.lists s hs
      rcases h.bindings with hbindings | ⟨hnone, hdisposed, -⟩
      · refine ⟨w.retired, ?_, rfl⟩
        rw [(retires_unmount v).watcher, hbindings, if_pos (h.makes_iff.mp hs)]
        exact congrArg (Option.map _) hw
      · rw [unmount_of_nil hnone]
        exact hdisposed s hs
    · rw [h.undoes.node n] at hl
      simpa using (List.mem_filter.mp hl).2

/-- The view stands as the invariant says after any move that leaves its watchers alone. -/
theorem after {t : Transition} (h : Standing t₀ v t.before)
    (possible : t.move.isPossible t.before = true)
    (hands : ∀ s, t₀.makes s = true → t.move.handles s = false) : Standing t₀ v t.after := by
  have hlists : ∀ s, t₀.makes s = true → Lists t.after s :=
    fun s hs => t.lists possible (hands s hs) (h.lists s hs)
  have hages := t.ages
  cases t.viewStep (.inl h.known) with
  | kept hsize hbindings =>
      refine ⟨h.attached, h.numbers, Nat.lt_of_lt_of_le h.known hsize, h.ages.trans hages, hlists,
        ?_⟩
      refine hbindings ▸ h.bindings.imp_right fun ⟨hnone, hdisposed, hlisteners⟩ => ?_
      refine ⟨hnone, fun s hs => ?_, fun n l hl => ?_⟩
      · obtain ⟨w, hw, hgone⟩ := hdisposed s hs
        obtain ⟨w', hw', hlasts⟩ := t.lasts possible w hw
        exact ⟨w', hw', hlasts hgone⟩
      · -- A listener that has come since has a number that was not given out for the view.
        rcases (hages n).listener l hl with hold | ⟨hnew, -⟩
        · exact hlisteners n l hold
        · have hnext := (h.ages n).next
          refine Bool.eq_false_iff.mpr fun hattaches => ?_
          have := Transition.attaches_iff.mp hattaches
          omega
  | unmounted base hsubscribers hchannels hnodes hsize hbindings hafter =>
      exact hafter ▸ (h.congr hsubscribers hchannels hnodes hsize hbindings).unmount

end Standing

/-! ## Mounting -/

/-- What is done when a tree is bound takes no liberty. -/
abbrev Liberty.none : Liberty := ⟨False, fun _ => False⟩

/-- A watcher that a tree is bound with lists the channels that it is on. -/
theorem Wire.lists {view : ViewId} {c c' : Compilation} (h : Wire view c c')
    (hmembers : Members c.state) (hnew : c.state.subscribers.size ≤ s.index)
    (hmade : s.index < c'.state.subscribers.size) : Lists c'.state s := by
  -- There is only one that is new.
  have hfresh : c'.state.subscribers.size = c.state.subscribers.size + 1 →
      s = c.state.subscribers.fresh := by
    intro hsize
    obtain ⟨i⟩ := s
    simp only [Table.fresh, Id.mk.injEq]
    simp only at hnew hmade
    omega
  cases h with
  | report e => exact absurd hmade (Nat.not_lt.mpr hnew)
  | text n key =>
      let shown := c.state.setText n (c.state.readView view key).display
      have hrest : shown = { c.state with nodes := shown.nodes } := setText_rest ..
      have hsubscribers : shown.subscribers = c.state.subscribers := by rw [hrest]
      have hshown : Members shown := hmembers.congr hsubscribers fun d => by rw [hrest]
      rw [hfresh (bindText_addsWatcher c.state view n key).size, ← hsubscribers]
      exact .watch_fresh hshown (c.state.view view).data key (.showText n)
  | model n key =>
      let valued := c.state.updateNode n (·.setValue (c.state.readView view key).display)
      have hvalued : Members valued := hmembers.congr rfl fun _ => rfl
      rw [hfresh (bindModel_addsWatcher c.state view n key).size]
      have hwatched : Lists (valued.watch (c.state.view view).data key (.showValue n)).2
          c.state.subscribers.fresh := .watch_fresh hvalued _ key (.showValue n)
      exact hwatched.congr rfl fun _ => rfl
  | click n method => exact absurd hmade (Nat.not_lt.mpr hnew)

theorem Wires.lists {view : ViewId} {c c' : Compilation} (h : Wires view c c')
    (hmembers : Members c.state) (hnew : c.state.subscribers.size ≤ s.index)
    (hmade : s.index < c'.state.subscribers.size) : Lists c'.state s := by
  induction h with
  | refl => exact absurd hmade (Nat.not_lt.mpr hnew)
  | @tail c₁ c' hwires hstep ih =>
      have hbefore : Effects .none c.state c₁.state := Wires.effects hwires
      have hafter : Effects .none c₁.state c'.state := hstep.effects
      by_cases hs : s.index < c₁.state.subscribers.size
      · exact hafter.lists id (ih hs)
      · exact hstep.lists (hbefore.members hmembers) (Nat.not_lt.mp hs) hmade

theorem lists_mounted (hmembers : Members st) (root : NodeId) (o : ViewOptions)
    (hnew : st.subscribers.size ≤ s.index)
    (hmade : s.index < (st.mounted root o).subscribers.size) : Lists (st.mounted root o) s := by
  have hobserve : Effects .none st (st.observe o.data) := effects_observe o.data
  have hview : Members (st.withView root o) :=
    (hobserve.members hmembers).congr rfl fun _ => rfl
  have hsubscribers : (st.withView root o).subscribers = st.subscribers := subscribers_withView
  have htree : Lists (st.withTree root o) s :=
    (wires_bindBelow st.views.fresh root ⟨st.withView root o, []⟩ _).lists hview
      (by rw [hsubscribers]; exact hnew) (by rwa [subscribers_mounted] at hmade)
  exact htree.congr subscribers_mounted fun c => by rw [channels_mounted]

/-- A view that has just been mounted stands as the invariant says. -/
theorem standing_mounted {ts : List Transition} (h : Run ts t₀.before) (hmounts : t₀.Mounts v) :
    Standing t₀ v t₀.after := by
  obtain ⟨document?, o, hmove, hmount⟩ := hmounts
  cases hroot : t₀.before.resolveRoot document? o.root? with
  | error fault =>
      rw [mount_eq_error hroot] at hmount
      cases hmount
  | ok root =>
      rw [mount_eq hroot, Prod.mk.injEq, Except.ok.injEq] at hmount
      obtain ⟨rfl, hafter⟩ := hmount
      have hbindings : (t₀.after.view t₀.before.views.fresh).bindings =
          t₀.before.bindingsOn root o := by
        rw [← hafter, view_mounted]
      have hgiven := fun n => (h.listeners_ordered n).given
      refine ⟨?_, hgiven, ?_, .of_nodes rfl, fun s hs => ?_, .inl rfl⟩
      · rw [hbindings, ← hafter]
        exact attached_mounted t₀.before root o
      · rw [← hafter]
        exact Nat.lt_of_lt_of_eq lt_size_views_withTree (Table.size_modify ..).symm
      · rw [Transition.makes_iff, ← hafter] at hs
        rw [← hafter]
        exact lists_mounted h.members root o hs.1 hs.2

/-- Some time after a view was mounted, it stands as the invariant says. -/
theorem Run.standing {ts : List Transition} (h : Run ts st) (ht₀ : t₀ ∈ ts) (hmounts : t₀.Mounts v)
    (hands : ∀ t ∈ ts, ∀ s, t₀.makes s = true → t.move.handles s = false) : Standing t₀ v st := by
  induction h with
  | start => cases ht₀
  | @move ts st m hrun possible ih =>
      rcases List.mem_cons.mp ht₀ with rfl | ht₀
      · exact standing_mounted hrun hmounts
      · have hbefore := ih ht₀ fun t ht => hands t (List.mem_cons_of_mem _ ht)
        exact hbefore.after (t := ⟨st, m⟩) possible (hands _ List.mem_cons_self)

/-- Whatever has happened since a view was mounted, as long as nobody subscribes or unsubscribes its
watchers by hand: what mounting made are the watchers and listeners of the bindings that the view
got. To unmount the view, or to let go of its last handle, takes them all away, and nothing else. -/
theorem Run.unmount_undoes {ts : List Transition} (h : Run ts st) (ht₀ : t₀ ∈ ts)
    (hmounts : t₀.Mounts v)
    (hands : ∀ t ∈ ts, ∀ s, t₀.makes s = true → t.move.handles s = false) :
    (∀ s, t₀.makes s = true ↔ s ∈ watchersOf (t₀.after.view v).bindings) ∧
      (∀ n, ∀ l ∈ (st.node n).listeners, t₀.attaches n l = true ↔
        ⟨n, l.event, l.number⟩ ∈ attachmentsOf (t₀.after.view v).bindings) ∧
      Undoes t₀ v st (st.unmount v) ∧
      ((st.view v).holders ≤ 1 → Undoes t₀ v st (st.releaseView v)) := by
  have hstanding := h.standing ht₀ hmounts hands
  refine ⟨fun s => hstanding.makes_iff, fun n l hl => hstanding.attaches_iff hl, hstanding.undoes,
    fun hlast => ?_⟩
  have hreleased : st.releaseView v = (st.lessHeld v).unmount v := by
    rw [releaseView_eq, if_neg (by omega)]
  have hless : Standing t₀ v (st.lessHeld v) :=
    hstanding.congr rfl rfl rfl (Table.size_modify ..) (view_lessHeld v)
  have hundoes := hless.undoes
  rw [hreleased]
  refine { hundoes with views := fun u hu => (hundoes.views u hu).trans ?_ }
  rw [lessHeld, view_modify, if_neg fun h => hu h.1.symm]

end Standing

theorem mounts_of_resolveRoot {st : State} {document? : Option NodeId} {o : ViewOptions}
    {root : NodeId} (hroot : st.resolveRoot document? o.root? = .ok root) :
    Transition.Mounts ⟨st, .operate (.mount document? o)⟩ st.views.fresh := by
  refine ⟨document?, o, rfl, ?_⟩
  rw [Transition.after, Move.run, Operation.run, mount_eq hroot]

/-- A field whose form value is bound by one view, a watcher and a listener of the host's, all on
the same data and node. -/
def oneView : List Move :=
  [.operate .newRecord, .operate (.writeField ⟨⟨0⟩, "a"⟩ (.text "1")),
    .operate (.newNode .element "form"), .operate (.newNode .element "input"),
    .operate (.setAttribute ⟨1⟩ "v-model" "a"), .operate (.appendChild ⟨0⟩ ⟨1⟩),
    .operate (.mount none { root? := some (.node ⟨0⟩), data := ⟨0⟩ }),
    .operate (.watch ⟨0⟩ "a" ⟨0⟩), .operate (.listen ⟨1⟩ "input" ⟨1⟩)]

/-- A second view of them, and then a write, with the host in the callback of its watcher; the
watcher of the second view has still to be told. -/
def otherView : List Move :=
  [.operate (.mount none { root? := some (.node ⟨0⟩), data := ⟨0⟩ }),
    .operate (.writeField ⟨⟨0⟩, "a"⟩ (.text "2")), .work, .work, .work, .enter]

/-- In the callback, to unmount the second view undoes mounting it. -/
theorem unmount_undoes_otherView :
    let st := ({} : State).play oneView
    let mounting : Transition :=
      ⟨st, .operate (.mount none { root? := some (.node ⟨0⟩), data := ⟨0⟩ })⟩
    mounting.Mounts ⟨1⟩ ∧ Undoes mounting ⟨1⟩ (st.play otherView) ((st.play otherView).unmount ⟨1⟩) ∧
      ((st.play otherView).node ⟨1⟩).listeners.length = 3 ∧
      (((st.play otherView).unmount ⟨1⟩).node ⟨1⟩).listeners.length = 2 := by
  intro st mounting
  have hmounts : mounting.Mounts ⟨1⟩ := by
    have hfresh : st.views.fresh = ⟨1⟩ := by decide +kernel
    exact hfresh ▸ mounts_of_resolveRoot rfl
  have hrun : Run (played [] {} (oneView ++ otherView))
      (({} : State).play (oneView ++ otherView)) := Run.play .start _ (by decide +kernel)
  have hands : ∀ t ∈ played [] {} (oneView ++ otherView), t.move.isHandsOff = true := by
    decide +kernel
  have hundoes := Run.unmount_undoes hrun (mem_played [] {} oneView _ _) hmounts
    fun t ht s _ => Move.handles_of_isHandsOff (hands t ht) s
  have hplay : ({} : State).play (oneView ++ otherView) = st.play otherView :=
    List.foldl_append
  rw [hplay] at hundoes
  exact ⟨hmounts, hundoes.2.2.1, by decide +kernel, by decide +kernel⟩

end DataBinding
