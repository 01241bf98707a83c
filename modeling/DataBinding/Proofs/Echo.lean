import DataBinding.Proofs.Typing

set_option autoImplicit false

/-! # Typing reaches every control once

A text that is typed into a control comes to the field that the control is bound to, and from there
to the other controls and texts whose paths end in the field. It does not come back to the control
that it was typed into: one field is changed at most, one channel is notified, no form value is
written that was the text already, and a node that no path through the field is bound to is left
alone (`Session.typesOnce`).
-/

namespace DataBinding

open State

/-- The text `text` has been typed into the node `n`, which led from `st` to `st'`, and the library
has come to rest. The form value of `n` is bound to the field `p` by the view `v` on the tree below
`root`, which was mounted in `st₀`. -/
structure TypesOnce (st₀ : State) (root : NodeId) (v : ViewId) (st : State) (n : NodeId)
    (text : String) (p : Slot) (st' : State) : Prop where
  rest : st'.agenda = []
  content : st'.content p = .text text
  others : ∀ q, q ≠ p → st'.content q = st.content q
  /-- One field at most is changed, and one channel is notified of it. -/
  journal : st'.journal = st.journal ∨
    ∃ key k, st'.journal = st.journal ++ [.changed key, .notifying k]
  value : (st'.node n).value = text
  /-- The form value that the user typed is not written again. -/
  valueWrites : (st'.node n).valueWrites = (st.node n).valueWrites
  /-- Another control shows the text, too, and was written once if it did not show it already. -/
  control : ∀ m key, m ≠ n → (m, .value key) ∈ st₀.demandsBelow root →
    st.EndsIn (st.view v).data key p → (st'.node m).value = text ∧
      ((st'.node m).valueWrites = (st.node m).valueWrites ∨
        (st.node m).value ≠ text ∧ (st'.node m).valueWrites = (st.node m).valueWrites + 1)
  /-- A text shows the text, too, if no other one is shown in the same place. -/
  shown : ∀ s w m, st.isBoundBy v s = true → st.watcher? s = some w → w.reaction = .showText m →
    st.EndsIn (st.view v).data w.path p →
    (∀ s', st.isBoundBy v s' = true → st.showsIn s' m = true → s' = s) → st'.textContent m = text
  /-- A node to which no path through the field is bound is left alone. -/
  node : ∀ m : NodeId, m.index < st.nodes.size →
    (∀ s w, st.isBoundBy v s = true → st.watcher? s = some w → w.reaction.node? = some m →
      p ∉ (st.trail (st.view v).data w.path).visited) → st'.node m = st.node m

section Echo

variable {st₀ st₁ st acted served : State} {root n m : NodeId} {o : ViewOptions} {v : ViewId}
  {text : String} {p : Slot} {key : String} {s : SubscriberId} {w : Watcher}

namespace Types

variable (h : Types st₀ root o st n text p acted served)

include h

/-- What is read while those on the channel are told. -/
theorem read_eq_text {path : String} (hends : st.EndsIn o.data path p) :
    acted.read o.data path = .text text := by
  rw [← h.graph.read, hends.read_eq h.keys fun _ => h.others, h.content]

/-- A node whose form value is bound to the field takes the text. -/
theorem takes (hm : Mounting st₀ root o v st₁) (hm₀ : m.index < st₀.nodes.size)
    (hkey : key ∈ st₀.valueKeys root m) (hends : st.EndsIn o.data key p) :
    (acted.node m).Takes text ((st.typeInto n text).advance.node m) := by
  rw [h.node m]
  refine h.delivers.takes (h.lt_size_acted (Nat.lt_of_lt_of_le hm₀ h.before.nodes)) ?_
  intro s w hs hw hreaction
  have hw₀ : st.watcher? s = some w := (h.writes.watcher s).symm.trans hw
  have hpath : w.path = key := h.before.path_eq hm hm₀ hkey (h.bound s hs) hw₀ hreaction
  obtain ⟨hroot, -⟩ := h.before.toKept.follows h.before.run h.before.rest (h.bound s hs) hw₀
  rw [hroot, hpath, h.read_eq_text hends]
  rfl

/-- A node whose form value is bound to the field has the text. -/
theorem value_eq (hm : Mounting st₀ root o v st₁) (hrest : AtRest st₀ root o
    (st.typeInto n text).advance) (hm₀ : m.index < st₀.nodes.size)
    (hkey : key ∈ st₀.valueKeys root m) (hends : st.EndsIn o.data key p) :
    ((st.typeInto n text).advance.node m).value = text := by
  obtain ⟨s, w, hs, hw, hreaction, hpath⟩ := h.before.exists_watcher hm.tree hm₀ hkey
  obtain ⟨w', hw', -, -, hreaction'⟩ := h.exists_watcher_after hw
  have hs' := (h.isBoundBy_after s).trans hs
  rw [hrest.values s w' m hs' hw' (hreaction'.trans hreaction) hm₀,
    h.seen_eq_text hs hw (hpath ▸ hends) hw']
  rfl

/-- Those who are told have paths that visit the field. -/
theorem mem_visited (hs : st.IsOn p s) (hw : st.watcher? s = some w) :
    p ∈ (st.trail o.data w.path).visited := by
  obtain ⟨hroot, -, hexact⟩ := h.before.toKept.follows h.before.run h.before.rest (h.bound s hs) hw
  obtain ⟨e, he, hmem⟩ := hs
  rw [isSubscribed, decide_eq_true_iff, hexact, hroot] at hmem
  obtain ⟨q, hq, hchannel⟩ := List.mem_filterMap.mp hmem
  obtain ⟨ts, hrun, -⟩ := h.before.run
  rwa [channel?_inj hrun.graph.celled hrun.channelled he hchannel]

/-- A node to which no path through the field is bound is left alone by those who are told. -/
theorem node_eq (hm : m.index < st.nodes.size)
    (hnone : ∀ s w, st.isBoundBy st₀.views.fresh s = true → st.watcher? s = some w →
      w.reaction.node? = some m → p ∉ (st.trail o.data w.path).visited) :
    (st.typeInto n text).advance.node m = acted.node m := by
  rw [h.node m]
  refine h.delivers.node_eq (h.lt_size_acted hm) fun s w hs hw hnode => ?_
  have hw₀ : st.watcher? s = some w := (h.writes.watcher s).symm.trans hw
  exact hnone s w (h.bound s hs) hw₀ hnode (h.mem_visited hs hw₀)

/-- Who shows a text in a node afterwards has shown it there before. -/
theorem showsIn_before {s' : SubscriberId} (hm : m.index < st.nodes.size)
    (hs' : st.isBoundBy st₀.views.fresh s' = true)
    (hshows : (st.typeInto n text).advance.showsIn s' m = true) : st.showsIn s' m = true := by
  obtain ⟨w', k, hw', hreaction', hk⟩ := showsIn_iff.mp hshows
  obtain ⟨w, hw, -, -, -, hreaction⟩ := h.exists_watcher hw'
  refine showsIn_iff.mpr ⟨w, k, hw, hreaction.trans hreaction', hk.imp_right fun hk => ?_⟩
  have hchildren : (acted.node m).children = (st.node m).children := by
    rw [h.node_acted]
    exact map_node_typeValue (g := Node.children) text (fun _ => rfl) m
  rw [h.node m] at hk
  rcases h.delivers.settled.repainted.children m (h.lt_size_acted hm) with hsame | ⟨-, hnew⟩
  · rw [← hchildren, ← hsame]
    exact hk
  · -- The text of `s'` is older than the children that the node has got.
    obtain ⟨hold, -⟩ := h.before.showing s' w k (h.before.isBoundBy_iff.mp hs').1 hw
      (hreaction.trans hreaction')
    exact absurd (h.lt_size_acted hold) (Nat.not_lt_of_le (hnew k hk))

/-- A text whose path ended in the field is shown, if no other one is shown in its place. -/
theorem textContent_of_ends (hs : st.isBoundBy st₀.views.fresh s = true)
    (hw : st.watcher? s = some w)
    (hreaction : w.reaction = .showText m) (hends : st.EndsIn o.data w.path p)
    (halone : ∀ s', st.isBoundBy st₀.views.fresh s' = true → st.showsIn s' m = true → s' = s) :
    (st.typeInto n text).advance.textContent m = text := by
  obtain ⟨w', hw', -, -, hreaction'⟩ := h.exists_watcher_after hw
  obtain ⟨hm, -⟩ := h.before.showing s w m (h.before.isBoundBy_iff.mp hs).1 hw hreaction
  have hs' := h.kept_after.isBoundBy_iff.mp ((h.isBoundBy_after s).trans hs)
  obtain ⟨hm', hshown | ⟨u, hne, hnew, hshows⟩⟩ :=
    h.kept_after.showing s w' m hs'.1 hw' (hreaction'.trans hreaction)
  · rw [textContent_of_shows hm' hshown, h.seen_eq_text hs hw hends hw']
    rfl
  · obtain ⟨u', -, hu, -⟩ := showsIn_iff.mp hshows
    have hbound := h.kept_after.isBoundBy_iff.mpr ⟨hnew, lt_size_of_watcher? hu⟩
    rw [h.isBoundBy_after] at hbound
    exact absurd (halone u hbound (h.showsIn_before hm hbound hshows)) hne

end Types

/-- In a session, a text that is typed into a control whose path ends in a field comes to the field
and to every other control and text whose path ends there, and comes back to nobody. -/
theorem Session.typesOnce (h : Session st₀ root v st₁ st) (hm : Mounting st₀ root o v st₁)
    (bound : (n, .value key) ∈ st₀.demandsBelow root)
    (unheard : (st₀.node n).listenersFor "input" = [])
    (comes : st.ComesTo (st.view v).data key p)
    (once : p ∉ (st.trail (st.view v).data key).visited.dropLast)
    (only : st.TellsOnly v p) (text : String) :
    TypesOnce st₀ root v st n text p (st.typeInto n text).advance := by
  have hbefore := h.atRest hm
  obtain rfl := hm.eq.1
  have hn := lt_size_of_mem_demandsBelow hm.tree bound
  have hkey := mem_valueKeys_iff.mpr bound
  rw [hbefore.data] at comes once
  obtain ⟨acted, served, htypes⟩ := hbefore.types hm hn unheard hkey comes only text
  have hrest := htypes.atRest hm hn hkey comes.read
  have hends : st.EndsIn o.data key p := ⟨comes.read, once⟩
  have htyped : acted.node n = (st.node n).typeValue text := by
    rw [htypes.node_acted, node_updateNode_eq (Nat.lt_of_lt_of_le hn hbefore.nodes)]
  have hother : ∀ m, m ≠ n → acted.node m = st.node m := fun m hmn => by
    rw [htypes.node_acted, node_updateNode_ne (Ne.symm hmn)]
  refine ⟨htypes.agenda_after, htypes.content, fun _ => htypes.others, htypes.journal,
    htypes.value_eq hm hrest hn hkey hends, ?_, ?_, ?_, ?_⟩
  · -- The control has the text already when its watcher is told.
    have htakes := htypes.takes hm hn hkey hends
    rw [htyped] at htakes
    rcases htakes with ⟨-, hwrites⟩ | ⟨hdiffers, -⟩
    · exact hwrites
    · exact absurd rfl hdiffers
  · intro m key' hmn hbound hends'
    rw [hbefore.data] at hends'
    have hm₀ := lt_size_of_mem_demandsBelow hm.tree hbound
    have hkey' := mem_valueKeys_iff.mpr hbound
    refine ⟨htypes.value_eq hm hrest hm₀ hkey' hends', ?_⟩
    have htakes := htypes.takes hm hm₀ hkey' hends'
    rw [hother m hmn] at htakes
    exact htakes.imp And.right fun htaken => ⟨htaken.1, htaken.2.2⟩
  · intro s w m hs hw hreaction hends' halone
    rw [hbefore.data] at hends'
    exact htypes.textContent_of_ends hs hw hreaction hends' halone
  · intro m hm₁ hnone
    rw [hbefore.data] at hnone
    rw [htypes.node_eq hm₁ hnone]
    refine hother m ?_
    rintro rfl
    -- The path of the control visits the field.
    obtain ⟨s, w, hs, hw, hreaction, hpath⟩ := hbefore.exists_watcher hm.tree hn hkey
    refine hnone s w hs hw (by rw [hreaction]; rfl) ?_
    rw [hpath]
    exact target?_mem_visited comes.read

end Echo

/-! ## Forms -/

/-- A user's name in two form fields and in a paragraph. There is another user. -/
def nameFields : List Move :=
  [.operate .newRecord, .operate .newRecord, .operate .newRecord,
    .operate (.writeField ⟨⟨1⟩, "name"⟩ (.text "Ada")),
    .operate (.writeField ⟨⟨2⟩, "name"⟩ (.text "Grace")),
    .operate (.writeField ⟨⟨0⟩, "user"⟩ (.record ⟨1⟩)), .operate (.newNode .element "form"),
    .operate (.newNode .element "input"), .operate (.setAttribute ⟨1⟩ "v-model" "user.name"),
    .operate (.newNode .element "input"), .operate (.setAttribute ⟨2⟩ "v-model" "user.name"),
    .operate (.newNode .element "p"), .operate (.setAttribute ⟨3⟩ "v-text" "user.name"),
    .operate (.appendChild ⟨0⟩ ⟨1⟩), .operate (.appendChild ⟨0⟩ ⟨2⟩),
    .operate (.appendChild ⟨0⟩ ⟨3⟩)]

/-- The first record is bound to the tree below the first node. -/
def onForm : ViewOptions := { root? := some (.node ⟨0⟩), data := ⟨0⟩ }

/-- A view has been mounted on the form that the moves have made. -/
def formOf (moves : List Move) : State := (({} : State).play moves).mounted ⟨0⟩ onForm

/-- On the form that the moves have made, the third record takes the place of the user. -/
def otherUser (moves : List Move) : State :=
  ((Operation.writeField ⟨⟨0⟩, "user"⟩ (.record ⟨2⟩)).run (formOf moves)).advance

theorem mount_formOf {moves : List Move}
    (hviews : (({} : State).play moves).views.fresh = ⟨0⟩) :
    (({} : State).play moves).mount none onForm = (.ok ⟨0⟩, formOf moves) := by
  have hroot : (({} : State).play moves).resolveRoot none onForm.root? = .ok ⟨0⟩ := rfl
  rw [mount_eq hroot, hviews]
  rfl

theorem mounting_formOf {moves : List Move} (possible : ({} : State).canPlay moves = true)
    (tame : ∀ t ∈ played [] {} moves, t.isTame = true)
    (rest : (({} : State).play moves).agenda = [])
    (hdata : 0 < (({} : State).play moves).records.size)
    (hviews : (({} : State).play moves).views.fresh = ⟨0⟩)
    (tree : (({} : State).play moves).IsTree ⟨0⟩) :
    Mounting (({} : State).play moves) ⟨0⟩ onForm ⟨0⟩ (formOf moves) where
  run := ⟨_, Run.play .start moves possible, tame⟩
  rest := rest
  data := hdata
  mount := ⟨none, rfl, mount_formOf hviews⟩
  tree := tree

/-- The other user takes the place of the first, and her name is typed into the first field and then
into the second one. -/
theorem typesOnce_nameFields :
    let st := ((otherUser nameFields).typeInto ⟨1⟩ "Hopper").advance
    TypesOnce (({} : State).play nameFields) ⟨0⟩ ⟨0⟩ st ⟨2⟩ "Grace Hopper" ⟨⟨2⟩, "name"⟩
      (st.typeInto ⟨2⟩ "Grace Hopper").advance := by
  have hmounting : Mounting (({} : State).play nameFields) ⟨0⟩ onForm ⟨0⟩ (formOf nameFields) :=
    mounting_formOf (by decide +kernel) (by decide +kernel) (by decide +kernel)
      (by decide +kernel) (by decide +kernel) (by decide +kernel)
  have hagenda : ((Operation.writeField ⟨⟨0⟩, "user"⟩ (.record ⟨2⟩)).run
      (formOf nameFields)).agenda = updates [⟨0⟩, ⟨1⟩, ⟨2⟩] := by decide +kernel
  have hbound : ∀ s : SubscriberId, s ∈ [⟨0⟩, ⟨1⟩, ⟨2⟩] →
      (formOf nameFields).isBoundBy ⟨0⟩ s = true := by decide +kernel
  have hwritten : Session (({} : State).play nameFields) ⟨0⟩ ⟨0⟩ (formOf nameFields)
      (otherUser nameFields) := by
    refine .written _ .mounted rfl (by decide +kernel) (by decide +kernel) fun s hs => hbound s ?_
    rw [hagenda] at hs
    obtain ⟨s', hs', hsame | hsame⟩ := mem_updates.mp hs
    · cases hsame
      exact hs'
    · cases hsame
  have hdemands : (({} : State).play nameFields).demandsBelow ⟨0⟩ =
      [(⟨1⟩, .value "user.name"), (⟨2⟩, .value "user.name"), (⟨3⟩, .text "user.name")] := by
    decide +kernel
  have htyped : Session (({} : State).play nameFields) ⟨0⟩ ⟨0⟩ (formOf nameFields)
      ((otherUser nameFields).typeInto ⟨1⟩ "Hopper").advance := by
    refine .typed ⟨1⟩ "Hopper" hwritten (by decide +kernel) fun key hkey => ?_
    have hname : key = "user.name" := by simpa [hdemands] using hkey
    subst hname
    exact ⟨⟨⟨2⟩, "name"⟩, by decide +kernel, by decide +kernel⟩
  have hfield : (⟨2⟩, .value "user.name") ∈ (({} : State).play nameFields).demandsBelow ⟨0⟩ := by
    rw [hdemands]
    decide
  exact htyped.typesOnce hmounting hfield (by decide +kernel) (by decide +kernel)
    (by decide +kernel) (by decide +kernel) "Grace Hopper"

/-- A user's name and a guest's name in two form fields. The user is added to data that have been
observed already. -/
def userAddedLate : List Move :=
  [.operate .newRecord, .operate .newRecord, .operate .newRecord,
    .operate (.writeField ⟨⟨1⟩, "name"⟩ (.text "Ada")),
    .operate (.writeField ⟨⟨2⟩, "name"⟩ (.text "Grace")),
    .operate (.writeField ⟨⟨0⟩, "guest"⟩ (.record ⟨2⟩)), .operate (.observe (.record ⟨0⟩)),
    .operate (.observe (.record ⟨1⟩)), .operate (.writeField ⟨⟨0⟩, "user"⟩ (.record ⟨1⟩)),
    .operate (.newNode .element "form"),
    .operate (.newNode .element "input"), .operate (.setAttribute ⟨1⟩ "v-model" "user.name"),
    .operate (.newNode .element "input"), .operate (.setAttribute ⟨2⟩ "v-model" "guest.name"),
    .operate (.appendChild ⟨0⟩ ⟨1⟩), .operate (.appendChild ⟨0⟩ ⟨2⟩)]

/-- A name in a form field that the host listens to. -/
def heardByHost : List Move :=
  [.operate .newRecord, .operate (.writeField ⟨⟨0⟩, "name"⟩ (.text "Ada")),
    .operate (.newNode .element "form"), .operate (.newNode .element "input"),
    .operate (.setAttribute ⟨1⟩ "v-model" "name"), .operate (.appendChild ⟨0⟩ ⟨1⟩),
    .operate (.listen ⟨1⟩ "input" ⟨0⟩)]

/-- The host puts another name in the place of what was typed. -/
def renamed : List Move :=
  [.work, .enter, .operate (.writeField ⟨⟨0⟩, "name"⟩ (.text "Lovelace")), .work, .work, .finish,
    .work, .work]

/-- A name in a form field that is the root itself. -/
def fieldAtRoot : List Move :=
  [.operate .newRecord, .operate (.writeField ⟨⟨0⟩, "name"⟩ (.text "Ada")),
    .operate (.newNode .element "input"), .operate (.setAttribute ⟨0⟩ "v-model" "name")]

/-- A field that was added to an observed record is not reactive, so a control may miss that its
path ends in another field from now on. A host that listens may put another text in the place of
what was typed. And the form value of the root itself is not bound. -/
theorem not_always_typesOnce :
    (¬ ∀ (ts : List Transition) (st₀ st₁ st : State) (root n : NodeId) (o : ViewOptions)
        (v : ViewId) (key : String) (p : Slot) (text : String), Run ts st₀ →
        (∀ t ∈ ts, t.move.isTame = true) → st₀.agenda = [] → o.data.index < st₀.records.size →
        (∃ document?, st₀.resolveRoot document? o.root? = .ok root ∧
          st₀.mount document? o = (.ok v, st₁)) → st₀.IsTree root → Session st₀ root v st₁ st →
        (n, .value key) ∈ st₀.demandsBelow root → (st₀.node n).listenersFor "input" = [] →
        st.ComesTo (st.view v).data key p →
        p ∉ (st.trail (st.view v).data key).visited.dropLast →
        (∀ c ∈ st.channels.ids, ∀ s ∈ st.channels.get c, st.isBoundBy v s = true) →
        TypesOnce st₀ root v st n text p (st.typeInto n text).advance) ∧
      (¬ ∀ (st₀ st₁ st : State) (root n : NodeId) (o : ViewOptions) (v : ViewId) (key : String)
        (p : Slot) (text : String) (ms : List Move), Mounting st₀ root o v st₁ →
        Session st₀ root v st₁ st → (n, .value key) ∈ st₀.demandsBelow root →
        st.ComesTo (st.view v).data key p →
        p ∉ (st.trail (st.view v).data key).visited.dropLast →
        (∀ c ∈ st.channels.ids, ∀ s ∈ st.channels.get c, st.isBoundBy v s = true) →
        (st.typeInto n text).canPlay ms = true → ((st.typeInto n text).play ms).agenda = [] →
        (∀ t ∈ played [] (st.typeInto n text) ms, t.isTame = true) →
        TypesOnce st₀ root v st n text p ((st.typeInto n text).play ms)) ∧
      ¬ ∀ (st₀ st₁ st : State) (root n : NodeId) (o : ViewOptions) (v : ViewId) (key : String)
        (p : Slot) (text : String), Mounting st₀ root o v st₁ → Session st₀ root v st₁ st →
        n ∈ root :: st₀.below st₀.height root → .value key ∈ (st₀.node n).demands →
        (st₀.node n).listenersFor "input" = [] → st.ComesTo (st.view v).data key p →
        p ∉ (st.trail (st.view v).data key).visited.dropLast →
        (∀ c ∈ st.channels.ids, ∀ s ∈ st.channels.get c, st.isBoundBy v s = true) →
        TypesOnce st₀ root v st n text p (st.typeInto n text).advance := by
  refine ⟨fun h => ?_, fun h => ?_, fun h => ?_⟩
  · have hagenda : ((Operation.writeField ⟨⟨0⟩, "user"⟩ (.record ⟨2⟩)).run
        (formOf userAddedLate)).agenda = [] := by decide +kernel
    have hwritten : Session (({} : State).play userAddedLate) ⟨0⟩ ⟨0⟩ (formOf userAddedLate)
        (otherUser userAddedLate) := by
      refine .written _ .mounted rfl (by decide +kernel) (by decide +kernel) fun s hs => ?_
      rw [hagenda] at hs
      cases hs
    have htyped := h _ _ _ _ ⟨0⟩ ⟨2⟩ onForm ⟨0⟩ "guest.name" ⟨⟨2⟩, "name"⟩ "Hopper"
      (Run.play .start userAddedLate (by decide +kernel)) (by decide +kernel) (by decide +kernel)
      (by decide +kernel) ⟨none, rfl, mount_formOf (by decide +kernel)⟩ (by decide +kernel)
      hwritten (by decide +kernel) (by decide +kernel) (by decide +kernel) (by decide +kernel)
      (by decide +kernel)
    have hother := htyped.control ⟨1⟩ "user.name" (by decide) (by decide +kernel)
      ⟨by decide +kernel, by decide +kernel⟩
    have hmissed : (((otherUser userAddedLate).typeInto ⟨2⟩ "Hopper").advance.node ⟨1⟩).value ≠
        "Hopper" := by decide +kernel
    exact hmissed hother.1
  · have hmounting : Mounting _ ⟨0⟩ onForm ⟨0⟩ (formOf heardByHost) :=
      mounting_formOf (by decide +kernel) (by decide +kernel) (by decide +kernel)
        (by decide +kernel) (by decide +kernel) (by decide +kernel)
    have htyped := h _ _ _ ⟨0⟩ ⟨1⟩ onForm ⟨0⟩ "name" ⟨⟨0⟩, "name"⟩ "Hopper" renamed hmounting
      .mounted (by decide +kernel) (by decide +kernel) (by decide +kernel) (by decide +kernel)
      (by decide +kernel) (by decide +kernel) (by decide +kernel)
    have hanother : (((formOf heardByHost).typeInto ⟨1⟩ "Hopper").play renamed).content
        ⟨⟨0⟩, "name"⟩ ≠ .text "Hopper" := by decide +kernel
    exact hanother htyped.content
  · have hmounting : Mounting _ ⟨0⟩ onForm ⟨0⟩ (formOf fieldAtRoot) :=
      mounting_formOf (by decide +kernel) (by decide +kernel) (by decide +kernel)
        (by decide +kernel) (by decide +kernel) (by decide +kernel)
    have htyped := h _ _ _ ⟨0⟩ ⟨0⟩ onForm ⟨0⟩ "name" ⟨⟨0⟩, "name"⟩ "Hopper" hmounting .mounted
      List.mem_cons_self (by decide +kernel) (by decide +kernel) (by decide +kernel)
      (by decide +kernel) (by decide +kernel)
    have hold : ((formOf fieldAtRoot).typeInto ⟨0⟩ "Hopper").advance.content ⟨⟨0⟩, "name"⟩ ≠
        .text "Hopper" := by decide +kernel
    exact hold htyped.content

end DataBinding
