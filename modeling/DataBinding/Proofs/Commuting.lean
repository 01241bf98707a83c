import DataBinding.Proofs.Settlement

set_option autoImplicit false

/-! # The order of independent writes

Two writes of different fields come to the same in either order (`Resting.written_comm`), although
a watcher may read other values in between, and join other channels. What it has come to in the end
depends on the data alone, and so does what it shows, provided that no two watchers write in the
same place.
-/

namespace DataBinding

open State

/-! ## The same data -/

/-- The two states have the same records, with the same fields and values, and the same of them are
observed. The cells of the fields may be different ones. -/
structure SameData (one two : State) : Prop where
  content : ∀ p, one.content p = two.content p
  keys : ∀ r, (one.records.get r).fields.keys = (two.records.get r).fields.keys
  observed : ∀ r, one.isObserved r = two.isObserved r

namespace SameData

variable {one two : State} (h : SameData one two)

include h

theorem isSome_field? (p : Slot) : (one.field? p).isSome = (two.field? p).isSome :=
  isSome_field?_congr h.keys p

theorem trail (root : RecordId) (path : String) : one.trail root path = two.trail root path :=
  trail_congr h.keys (fun p => congrArg Value.record? (h.content p)) root path

theorem read (root : RecordId) (path : String) : one.read root path = two.read root path :=
  read_congr h.keys h.content root path

/-- A field is reactive in both states or in neither, if the records that are not observed are the
same. -/
theorem isSome_cell? (hone : Sound one) (htwo : Sound two)
    (hsame : ∀ r, one.isObserved r = false → one.records.get r = two.records.get r) (p : Slot) :
    (one.cell? p).isSome = (two.cell? p).isSome := by
  have hreactive : ∀ st : State, Sound st → st.isObserved p.record = true →
      (st.cell? p).isSome = (st.field? p).isSome := by
    intro st hst hobserved
    rw [cell?]
    cases hf : st.field? p with
    | none => rfl
    | some f =>
        obtain ⟨c, rfl, -⟩ := hst.cell_of_field? hobserved hf
        rfl
  cases hobserved : one.isObserved p.record with
  | true =>
      rw [hreactive one hone hobserved, hreactive two htwo (h.observed p.record ▸ hobserved),
        h.isSome_field?]
  | false => rw [cell?, field?, hsame p.record hobserved, ← field?, ← cell?]

end SameData

/-! ## Watchers at rest -/

section Watchers

variable {ts : List Transition} {st : State} {s : SubscriberId} {w : Watcher}

/-- In a resting state every watcher has seen the value that its path leads to, and is on the
channels along the path. -/
theorem Resting.follows (h : Resting ts st) (hw : st.watcher? s = some w) :
    w.seen.same (st.read w.root w.path) = true ∧ st.IsExact s w :=
  h.run.follows_of_isBound h.tame h.rest
    (h.bound s ((Table.mem_ids_iff _ s).mpr (lt_size_of_watcher? hw))) hw

/-- Nobody but watchers is on a channel of a resting state. -/
theorem Resting.watcher_of_mem (h : Resting ts st) {c : ChannelId} (hs : s ∈ st.channels.get c) :
    ∃ w, st.watcher? s = some w := by
  obtain ⟨hst, ho⟩ := h.run.consistent h.tame
  have hknown := hst.registered.member s c hs
  obtain ⟨v, hv⟩ := isBound_iff.mp (h.bound s ((Table.mem_ids_iff _ s).mpr hknown))
  obtain ⟨w, hw, -⟩ := ho.watcher v s hv
  exact ⟨w, hw⟩

end Watchers

/-! ## What is shown -/

namespace State

/-- Whether no two watchers write in the same place: where one shows its value as a text, no other
one shows its own in the node or in a child of it, and no two set the same form value. -/
def isApart (st : State) : Bool :=
  st.subscribers.ids.all fun s =>
    match (st.watcher? s).map Watcher.reaction with
    | some (.showText n) => st.subscribers.ids.all fun s' => s' = s || !st.showsIn s' n
    | some (.showValue n) => st.subscribers.ids.all fun s' => s' = s || !st.setsValueOf s' n
    | _ => true

/-- Whether the children of all nodes exist. -/
def knowsChildren (st : State) : Bool :=
  st.nodes.ids.all fun n => (st.node n).children.all fun m => m.index < st.nodes.size

end State

section Apart

variable {st st' : State} {s s' : SubscriberId} {w w' : Watcher} {n : NodeId}

theorem showsIn_of_isApart (h : st.isApart = true) (hw : st.watcher? s = some w)
    (hreaction : w.reaction = .showText n) (hne : s' ≠ s) : st.showsIn s' n = false := by
  have hs := List.all_eq_true.mp h s ((Table.mem_ids_iff _ s).mpr (lt_size_of_watcher? hw))
  rw [hw, Option.map_some, hreaction] at hs
  by_contra hshows
  rw [Bool.not_eq_false] at hshows
  obtain ⟨w', m, hw', -⟩ := showsIn_iff.mp hshows
  have hother := List.all_eq_true.mp hs s' ((Table.mem_ids_iff _ s').mpr (lt_size_of_watcher? hw'))
  simp [hne, hshows] at hother

theorem setsValueOf_of_isApart (h : st.isApart = true) (hw : st.watcher? s = some w)
    (hreaction : w.reaction = .showValue n) (hne : s' ≠ s) : st.setsValueOf s' n = false := by
  have hs := List.all_eq_true.mp h s ((Table.mem_ids_iff _ s).mpr (lt_size_of_watcher? hw))
  rw [hw, Option.map_some, hreaction] at hs
  by_contra hsets
  rw [Bool.not_eq_false] at hsets
  obtain ⟨w', hw', -⟩ := setsValueOf_iff.mp hsets
  have hother := List.all_eq_true.mp hs s' ((Table.mem_ids_iff _ s').mpr (lt_size_of_watcher? hw'))
  simp [hne, hsets] at hother

theorem lt_size_of_knowsChildren (h : st.knowsChildren = true) (hn : n.index < st.nodes.size)
    {m : NodeId} (hm : m ∈ (st.node n).children) : m.index < st.nodes.size := by
  have hchildren := List.all_eq_true.mp h n ((Table.mem_ids_iff _ n).mpr hn)
  exact of_decide_eq_true (List.all_eq_true.mp hchildren m hm)

end Apart

/-- Writes at rest have led from `st`, where no two watchers write in the same place, to `st'`. -/
structure Evolved (st st' : State) : Prop where
  before : ∃ ts, Resting ts st
  after : ∃ ts, Resting ts st'
  apart : st.isApart = true
  developed : Developed st st'

namespace Evolved

variable {st st' : State} {s : SubscriberId} {w : Watcher} {n : NodeId}

/-- A text that a watcher gave a node is still there. -/
theorem shows (h : Evolved st st') (hw : st'.watcher? s = some w)
    (hreaction : w.reaction = .showText n) :
    n.index < st'.nodes.size ∧ st'.Shows n w.seen.display := by
  obtain ⟨⟨ts, hbefore⟩, ⟨ts', hafter⟩, apart, hdeveloped⟩ := h
  have hpainted := hdeveloped.repainted
  have hshowing := hbefore.run.showing hbefore.tame hbefore.spares
  have hkept : KeepsSeen (fun _ => False) st' st :=
    .of_purpose? (fun s => (hpainted.purpose s).symm) fun _ _ _ => nofun
  obtain ⟨hn, hshown | ⟨s', hne, -, hthere⟩⟩ :=
    hafter.run.showing hafter.tame hafter.spares s w n (Nat.zero_le _) hw hreaction
  · exact ⟨hn, hshown⟩
  -- Another watcher that writes there would have done so before.
  obtain ⟨w', m, hw', hreaction', hm⟩ := showsIn_iff.mp hthere
  obtain ⟨w₀, hw₀, hsame₀⟩ := hkept.old s w hw
  obtain ⟨w₁, hw₁, hsame₁⟩ := hkept.old s' w' hw'
  have hreaction₀ := hsame₀.trans hreaction
  have hreaction₁ := hsame₁.trans hreaction'
  have hn₀ := (hshowing s w₀ n (Nat.zero_le _) hw₀ hreaction₀).1
  have hm₀ := (hshowing s' w₁ m (Nat.zero_le _) hw₁ hreaction₁).1
  have hbefore : st.showsIn s' n = true := by
    refine showsIn_iff.mpr ⟨w₁, m, hw₁, hreaction₁, hm.imp_right fun hm => ?_⟩
    rcases hpainted.children n hn₀ with hsame | ⟨-, hnew⟩
    · exact hsame ▸ hm
    · exact absurd hm₀ (Nat.not_lt_of_le (hnew m hm))
  exact Bool.noConfusion ((showsIn_of_isApart apart hw₀ hreaction₀ hne).symm.trans hbefore)

/-- A form value that a watcher set is still there. -/
theorem value (h : Evolved st st') (hw : st'.watcher? s = some w)
    (hreaction : w.reaction = .showValue n) : (st'.node n).value = w.seen.display := by
  obtain ⟨-, ⟨ts', hafter⟩, apart, hdeveloped⟩ := h
  have hkept : KeepsSeen (fun _ => False) st' st :=
    .of_purpose? (fun s => (hdeveloped.repainted.purpose s).symm) fun _ _ _ => nofun
  obtain ⟨-, hshown | ⟨s', hne, -, hthere⟩⟩ :=
    hafter.run.valuing hafter.tame hafter.spares s w n (Nat.zero_le _) hw hreaction
  · exact hshown
  obtain ⟨w₀, hw₀, hsame₀⟩ := hkept.old s w hw
  have hbefore := setsValueOf_of_kept (hkept.old s') hthere
  have hnot := setsValueOf_of_isApart apart hw₀ (hsame₀.trans hreaction) hne
  exact Bool.noConfusion (hnot.symm.trans hbefore)

/-- A watcher that was there at first is still there. -/
theorem watcher (h : Evolved st st') {reaction : Reaction} {root : RecordId} {path : String}
    (hs : st.purpose? s = some (root, path, reaction)) :
    ∃ w, st'.watcher? s = some w ∧ w.root = root ∧ w.path = path ∧ w.reaction = reaction :=
  purpose?_eq_some.mp ((h.developed.repainted.purpose s).trans hs)

end Evolved

section Pair

variable {st one two : State} {s : SubscriberId} {w w' : Watcher} {n : NodeId}
  (h : Evolved st one) (h' : Evolved st two) (hdata : SameData one two)

include h h' in
theorem Evolved.purpose?_eq (s : SubscriberId) : one.purpose? s = two.purpose? s :=
  (h.developed.repainted.purpose s).trans (h'.developed.repainted.purpose s).symm

include h h' hdata

/-- A watcher has seen the same value in the end, whichever way it was. -/
theorem Evolved.seen_same (hw : one.watcher? s = some w) (hw' : two.watcher? s = some w') :
    w.seen.same w'.seen = true := by
  obtain ⟨u, hu, hroot, hpath, -⟩ := watcher?_of_purpose? (h.purpose?_eq h' s).symm hw
  cases hw'.symm.trans hu
  obtain ⟨ts, hone⟩ := h.after
  obtain ⟨ts', htwo⟩ := h'.after
  have hseen := (hone.follows hw).1
  have hseen' := (htwo.follows hw').1
  rw [hroot, hpath, ← hdata.read] at hseen'
  exact Value.same_trans hseen (Value.same_symm hseen')

/-- A node in which a watcher shows a text shows the same one. -/
theorem Evolved.shows_same (hreacts : st.Reacts (.showText n)) :
    ∃ text, one.Shows n text ∧ two.Shows n text := by
  obtain ⟨s, root, path, hs⟩ := hreacts
  obtain ⟨w, hw, -, -, hreaction⟩ := h.watcher hs
  obtain ⟨w', hw', -, -, hreaction'⟩ := h'.watcher hs
  refine ⟨w.seen.display, (h.shows hw hreaction).2, ?_⟩
  rw [Value.display_eq_of_same (h.seen_same h' hdata hw hw')]
  exact (h'.shows hw' hreaction').2

/-- Every form value is the same. -/
theorem Evolved.value_eq (hn : n.index < st.nodes.size) :
    (one.node n).value = (two.node n).value := by
  by_cases hreacts : st.Reacts (.showValue n)
  · obtain ⟨s, root, path, hs⟩ := hreacts
    obtain ⟨w, hw, -, -, hreaction⟩ := h.watcher hs
    obtain ⟨w', hw', -, -, hreaction'⟩ := h'.watcher hs
    rw [h.value hw hreaction, h'.value hw' hreaction']
    exact Value.display_eq_of_same (h.seen_same h' hdata hw hw')
  · rw [h.developed.repainted.value n hn hreacts, h'.developed.repainted.value n hn hreacts]

end Pair

/-! ## Texts of nodes -/

section Texts

variable {st st' one two : State} {n : NodeId} {text : String}

/-- Two levels are enough to read the text that a node shows; one level of an element has none. -/
theorem textWithin_of_shows (h : st.Shows n text) (depth : Nat) : st.textWithin (depth + 1) n =
    if (st.node n).kind = .element ∧ depth = 0 then "" else text := by
  rcases h with ⟨hkind, htext⟩ | ⟨hkind, ⟨rfl, hempty⟩ | ⟨t, hchild, -, -, htkind, htext⟩⟩
  · rw [textWithin_text hkind, htext, hkind, if_neg nofun]
  · rw [textWithin_element hkind, hempty, ite_self]
    rfl
  · rw [textWithin_element hkind, hchild, List.map_singleton, join_singleton, hkind]
    cases depth with
    | zero => rfl
    | succ depth => rw [textWithin_text htkind, htext, if_neg nofun]

theorem textWithin_eq_of_shows (h : one.Shows n text) (h' : two.Shows n text)
    (hkind : (one.node n).kind = (two.node n).kind) (depth : Nat) :
    one.textWithin depth n = two.textWithin depth n := by
  cases depth with
  | zero => rfl
  | succ depth => rw [textWithin_of_shows h, textWithin_of_shows h', hkind]

/-- Reading one level deeper depends on what is read of the children. -/
theorem textWithin_succ_congr {depth depth' : Nat} (hkind : (one.node n).kind = (two.node n).kind)
    (htext : (one.node n).text = (two.node n).text)
    (hchildren : (one.node n).children = (two.node n).children)
    (hbelow : ∀ m ∈ (two.node n).children, one.textWithin depth m = two.textWithin depth' m) :
    one.textWithin (depth + 1) n = two.textWithin (depth' + 1) n := by
  rw [textWithin, textWithin, hkind, htext, hchildren, List.map_congr_left hbelow]

section Same

variable (h : Evolved st one) (h' : Evolved st two) (hdata : SameData one two)
  (known : st.knowsChildren = true)

include h h' hdata known

/-- The text of a node that there was is the same, down to any depth. -/
theorem Evolved.textWithin_eq (depth : Nat) (hn : n.index < st.nodes.size) :
    one.textWithin depth n = two.textWithin depth n := by
  have hpainted := h.developed.repainted
  have hpainted' := h'.developed.repainted
  induction depth generalizing n with
  | zero => rfl
  | succ depth ih =>
      have hkind : (one.node n).kind = (two.node n).kind :=
        (hpainted.kinds.kind n hn).trans (hpainted'.kinds.kind n hn).symm
      by_cases hreacts : st.Reacts (.showText n)
      · obtain ⟨text, hshows, hshows'⟩ := h.shows_same h' hdata hreacts
        exact textWithin_eq_of_shows hshows hshows' hkind _
      · have hchildren := (hpainted.children n hn).resolve_right fun hnew => hreacts hnew.1
        have hchildren' := (hpainted'.children n hn).resolve_right fun hnew => hreacts hnew.1
        have htext := (hpainted.text n hn hreacts).trans (hpainted'.text n hn hreacts).symm
        refine textWithin_succ_congr hkind htext (hchildren.trans hchildren'.symm) fun m hm => ?_
        exact ih (lt_size_of_knowsChildren known hn (hchildren' ▸ hm))

end Same

section Deep

variable (h : Evolved st st') (hn : n.index < st.nodes.size)

include h hn

/-- What is read of a node in which a watcher shows a text. An element without children, in a tree
without new nodes, can show the empty text only. -/
theorem Evolved.textWithin_succ_of_reacts (hreacts : st.Reacts (.showText n)) {depth : Nat}
    (hempty : depth = 0 → (st.node n).children = [] ∧ st'.nodes.size = st.nodes.size) :
    st'.textWithin (depth + 1) n = st'.textWithin (depth + 2) n := by
  obtain ⟨s, root, path, hs⟩ := hreacts
  obtain ⟨w, hw, -, -, hreaction⟩ := h.watcher hs
  obtain ⟨-, hshows⟩ := h.shows hw hreaction
  have hdeep : st'.textWithin (depth + 2) n = w.seen.display :=
    (textWithin_of_shows hshows (depth + 1)).trans (if_neg fun h => nomatch h.2)
  rw [hdeep, textWithin_of_shows hshows]
  split
  · rename_i hshallow
    obtain ⟨hkind, hzero⟩ := hshallow
    obtain ⟨hchildren, hsize⟩ := hempty hzero
    rcases hshows with ⟨hkind', -⟩ | ⟨-, ⟨htext, -⟩ | ⟨t, hchild, -, hknown, -⟩⟩
    · cases hkind.symm.trans hkind'
    · exact htext.symm
    · rcases h.developed.repainted.children n hn with hsame | ⟨-, hnew⟩
      · rw [hsame, hchildren] at hchild
        cases hchild
      · have hlarge := hnew t (hchild ▸ List.mem_singleton_self t)
        omega
  · rfl

/-- Where the tree ended within a depth, one level more is enough to read a text, and another one if
there are new nodes. -/
theorem Evolved.textWithin_succ (known : st.knowsChildren = true) {ends depth : Nat}
    (hends : st.EndsWithin ends n) (hdepth : ends ≤ depth)
    (hnew : st'.nodes.size = st.nodes.size ∨ ends < depth) :
    st'.textWithin (depth + 1) n = st'.textWithin (depth + 2) n := by
  induction ends generalizing n depth with
  | zero =>
      by_cases hreacts : st.Reacts (.showText n)
      · exact h.textWithin_succ_of_reacts hn hreacts fun hzero => ⟨hends, by omega⟩
      · have hchildren := (h.developed.repainted.children n hn).resolve_right fun hnew =>
          hreacts hnew.1
        refine textWithin_succ_congr rfl rfl rfl fun m hm => ?_
        rw [hchildren, hends] at hm
        cases hm
  | succ ends ih =>
      obtain ⟨depth, rfl⟩ : ∃ k, depth = k + 1 := ⟨depth - 1, by omega⟩
      by_cases hreacts : st.Reacts (.showText n)
      · exact h.textWithin_succ_of_reacts hn hreacts nofun
      · have hchildren := (h.developed.repainted.children n hn).resolve_right fun hnew =>
          hreacts hnew.1
        refine textWithin_succ_congr rfl rfl rfl fun m hm => ?_
        rw [hchildren] at hm
        exact ih (lt_size_of_knowsChildren known hn hm) (hends m hm) (by omega) (by omega)

/-- The text of a node of a tree that ends is read with any depth from the height of the tree on. -/
theorem Evolved.textContent_eq_textWithin (known : st.knowsChildren = true)
    (hends : st.EndsWithin (st.height - 1) n) {depth : Nat} (hdepth : st'.height ≤ depth) :
    st'.textContent n = st'.textWithin depth n := by
  have hsize : st.height ≤ st'.height := h.developed.repainted.kinds.size
  have hpos : 0 < st.height := Nat.lt_of_le_of_lt (Nat.zero_le _) hn
  obtain ⟨more, rfl⟩ := Nat.exists_eq_add_of_le hdepth
  induction more with
  | zero => rfl
  | succ more ih =>
      obtain ⟨k, hk⟩ : ∃ k, st'.height + more = k + 1 := ⟨st'.height + more - 1, by omega⟩
      have hnew : st'.height = st.height ∨ st.height - 1 < k := by omega
      have hnext : st'.textWithin (k + 1) n = st'.textWithin (k + 2) n :=
        h.textWithin_succ hn known hends (by omega) hnew
      rw [ih (Nat.le_add_right _ _), ← Nat.add_assoc, hk]
      exact hnext

end Deep

end Texts

/-! ## Subscriptions -/

namespace State

/-- Whether the subscriber is on the channel of the field. -/
def isOnField (st : State) (p : Slot) (s : SubscriberId) : Bool :=
  (st.channel? p).any fun e => st.isSubscribed e s

end State

section Subscriptions

variable {st st' one two : State} {s : SubscriberId} {w w' : Watcher} {p : Slot} {e : ChannelId}

theorem isOnField_iff : st.isOnField p s = true ↔
    ∃ e, st.channel? p = some e ∧ s ∈ st.channels.get e := by
  simp [isOnField, isSubscribed, Option.any_eq_true]

theorem isSome_channel? : (st.channel? p).isSome = (st.cell? p).isSome := Option.isSome_map

/-- In a resting state a watcher is on the channels of the reactive fields that its path visits. -/
theorem Resting.isOnField_iff_visited {ts : List Transition} (h : Resting ts st)
    (hw : st.watcher? s = some w) : st.isOnField p s = true ↔
      (st.cell? p).isSome = true ∧ p ∈ (st.trail w.root w.path).visited := by
  obtain ⟨-, hexact⟩ := h.follows hw
  rw [isOnField_iff, ← isSome_channel?, Option.isSome_iff_exists]
  constructor
  · rintro ⟨e, he, hs⟩
    obtain ⟨q, hq, he'⟩ := List.mem_filterMap.mp ((hexact e).mp hs)
    have hpq : p = q := channel?_inj h.run.graph.celled h.run.channelled he he'
    exact ⟨⟨e, he⟩, hpq ▸ hq⟩
  · rintro ⟨⟨e, he⟩, hp⟩
    exact ⟨e, he, (hexact e).mpr (List.mem_filterMap.mpr ⟨p, hp, he⟩)⟩

/-- Whoever is on a channel of a resting state is on that of a field. -/
theorem Resting.exists_channel?_of_mem {ts : List Transition} (h : Resting ts st)
    (hs : s ∈ st.channels.get e) : ∃ p, st.channel? p = some e := by
  obtain ⟨w, hw⟩ := h.watcher_of_mem hs
  obtain ⟨p, -, hp⟩ := List.mem_filterMap.mp (((h.follows hw).2 e).mp hs)
  exact ⟨p, hp⟩

section Pair

variable (h : Evolved st one) (h' : Evolved st two) (hdata : SameData one two)

include h h' hdata

theorem Evolved.isSome_cell?_eq (p : Slot) : (one.cell? p).isSome = (two.cell? p).isSome := by
  obtain ⟨ts, hone⟩ := h.after
  obtain ⟨ts', htwo⟩ := h'.after
  obtain ⟨hsound, -⟩ := hone.run.consistent hone.tame
  obtain ⟨hsound', -⟩ := htwo.run.consistent htwo.tame
  refine hdata.isSome_cell? hsound.sound hsound'.sound (fun r hr => ?_) p
  have hr' : two.isObserved r = false := (hdata.observed r).symm.trans hr
  exact (h.developed.unobserved r hr).trans (h'.developed.unobserved r hr').symm

/-- A subscriber is on the channel of a field in both states or in neither. -/
theorem Evolved.isOnField_eq (p : Slot) (s : SubscriberId) :
    one.isOnField p s = two.isOnField p s := by
  obtain ⟨ts, hone⟩ := h.after
  obtain ⟨ts', htwo⟩ := h'.after
  have hpurpose := h.purpose?_eq h' s
  cases hw : one.watcher? s with
  | none =>
      -- There is no watcher in either state, and nobody else is on a channel.
      have hoff : ∀ {ts : List Transition} {st : State}, Resting ts st → st.watcher? s = none →
          st.isOnField p s = false := by
        intro ts st hst hnone
        rw [Bool.eq_false_iff]
        intro hon
        obtain ⟨e, -, hs⟩ := isOnField_iff.mp hon
        obtain ⟨w, hw⟩ := hst.watcher_of_mem hs
        cases hnone.symm.trans hw
      have hnone : two.watcher? s = none := by
        rw [purpose?, hw, purpose?] at hpurpose
        exact Option.map_eq_none_iff.mp hpurpose.symm
      rw [hoff hone hw, hoff htwo hnone]
  | some w =>
      obtain ⟨w', hw', hroot, hpath, -⟩ := watcher?_of_purpose? hpurpose.symm hw
      rw [Bool.eq_iff_iff, hone.isOnField_iff_visited hw, htwo.isOnField_iff_visited hw', hroot,
        hpath, ← hdata.trail, h.isSome_cell?_eq h' hdata]

/-- The channels that there were have the same subscribers. -/
theorem Evolved.isSubscribed_eq (he : e.index < st.channels.size) (s : SubscriberId) :
    one.isSubscribed e s = two.isSubscribed e s := by
  have hold : ∀ {one two : State}, Evolved st one → Evolved st two → SameData one two →
      s ∈ one.channels.get e → s ∈ two.channels.get e := by
    intro one two h h' hdata hs
    obtain ⟨ts, hone⟩ := h.after
    obtain ⟨p, hp⟩ := hone.exists_channel?_of_mem hs
    have hon : two.isOnField p s = true := by
      rw [← h.isOnField_eq h' hdata]
      exact isOnField_iff.mpr ⟨e, hp, hs⟩
    obtain ⟨e', hp', hs'⟩ := isOnField_iff.mp hon
    -- The field had the channel from the beginning, since the channel is an old one.
    have hfield : st.channel? p = some e :=
      (h.developed.fresh p e hp).resolve_right (Nat.not_le_of_lt he)
    cases (h'.developed.channel p e hfield).symm.trans hp'
    exact hs'
  have hdata' : SameData two one :=
    ⟨fun p => (hdata.content p).symm, fun r => (hdata.keys r).symm,
      fun r => (hdata.observed r).symm⟩
  rw [isSubscribed, isSubscribed, Bool.eq_iff_iff, decide_eq_true_eq, decide_eq_true_eq]
  exact ⟨hold h h' hdata, hold h' h hdata'⟩

end Pair

end Subscriptions

/-! ## Two writes -/

/-- From `st` to `st'` the fields have kept their channels, and fields that have come to be reactive
have new ones. Different fields have different channels, and nobody is on any other channel. -/
structure KeepsChannels (st st' : State) : Prop where
  kept : ∀ p e, st.channel? p = some e → st'.channel? p = some e
  new : ∀ p e, st'.channel? p = some e → st.channel? p = some e ∨ st.channels.size ≤ e.index
  distinct : ∀ p q e, st'.channel? p = some e → st'.channel? q = some e → p = q
  only : ∀ e s, st'.isSubscribed e s = true → ∃ p, st'.channel? p = some e

/-- Two states, to either of which writes have led from `st`, hold the same data; their watchers have
seen the same values and are on the channels of the same fields; and the texts and form values of
their nodes are the same. The order of subscribers, the names of new cells and channels and how often
form values were set may differ. -/
structure SameOutcome (st one two : State) : Prop extends SameData one two where
  /-- Nothing is left to do. -/
  rest : one.agenda = [] ∧ two.agenda = []
  /-- The same fields are reactive, each with a channel of its own. -/
  reactive : ∀ p, (one.cell? p).isSome = (two.cell? p).isSome
  channels : KeepsChannels st one ∧ KeepsChannels st two
  /-- The watchers are those that there were, and have seen the same values. -/
  purpose : ∀ s, one.purpose? s = st.purpose? s ∧ two.purpose? s = st.purpose? s
  seen : ∀ s w w', one.watcher? s = some w → two.watcher? s = some w' → w.seen.same w'.seen = true
  /-- They are on the channels of the same fields. -/
  onField : ∀ p s, one.isOnField p s = two.isOnField p s
  /-- The channels that there were have the same subscribers. -/
  subscribed : ∀ (e : ChannelId) (s : SubscriberId), e.index < st.channels.size →
    one.isSubscribed e s = two.isSubscribed e s
  /-- The nodes that there were have the same texts, read down to any depth, and so the same text
  contents unless they are part of an endless tree. -/
  text : ∀ (n : NodeId) (depth : Nat), n.index < st.nodes.size →
    one.textWithin depth n = two.textWithin depth n
  textContent : ∀ n : NodeId, n.index < st.nodes.size → st.EndsWithin (st.height - 1) n →
    one.textContent n = two.textContent n
  /-- They have the same form values. -/
  value : ∀ n : NodeId, n.index < st.nodes.size → (one.node n).value = (two.node n).value

section Outcome

variable {st one two : State}

theorem Evolved.keepsChannels (h : Evolved st one) : KeepsChannels st one := by
  obtain ⟨ts, hone⟩ := h.after
  refine ⟨h.developed.channel, h.developed.fresh, fun p q e hp hq => ?_, fun e s hs => ?_⟩
  · exact channel?_inj hone.run.graph.celled hone.run.channelled hp hq
  · exact hone.exists_channel?_of_mem (of_decide_eq_true hs)

theorem Evolved.rest (h : Evolved st one) : one.agenda = [] := by
  obtain ⟨ts, hone⟩ := h.after
  exact hone.rest

/-- Writes at rest that lead to the same data lead to the same outcome. -/
theorem Evolved.sameOutcome (h : Evolved st one) (h' : Evolved st two) (hdata : SameData one two)
    (known : st.knowsChildren = true) : SameOutcome st one two where
  toSameData := hdata
  rest := ⟨h.rest, h'.rest⟩
  reactive := h.isSome_cell?_eq h' hdata
  channels := ⟨h.keepsChannels, h'.keepsChannels⟩
  purpose s := ⟨h.developed.repainted.purpose s, h'.developed.repainted.purpose s⟩
  seen _ _ _ hw hw' := h.seen_same h' hdata hw hw'
  onField := h.isOnField_eq h' hdata
  subscribed _ s he := h.isSubscribed_eq h' hdata he s
  text _ depth hn := h.textWithin_eq h' hdata known depth hn
  textContent n hn hends := by
    let depth := max one.height two.height
    calc one.textContent n
        = one.textWithin depth n := h.textContent_eq_textWithin hn known hends (Nat.le_max_left ..)
      _ = two.textWithin depth n := h.textWithin_eq h' hdata known depth hn
      _ = two.textContent n :=
        (h'.textContent_eq_textWithin hn known hends (Nat.le_max_right ..)).symm
  value _ hn := h.value_eq h' hdata hn

variable {ts : List Transition} {p q : Slot} {c d : CellId} {v w : Value}

/-- At rest, after views have been mounted and values been written, where there are no subscribers
but the watchers of bindings and no two of them write in the same place, two writes of different
fields have the same outcome in either order. -/
theorem Resting.written_comm (h : Resting ts st) (apart : st.isApart = true)
    (known : st.knowsChildren = true) (hp : st.cell? p = some c) (hq : st.cell? q = some d)
    (hpq : p ≠ q) (hv : ∀ r, v.record? = some r → r.index < st.records.size)
    (hw : ∀ r, w.record? = some r → r.index < st.records.size) :
    SameOutcome st ((st.written c v).written d w) ((st.written d w).written c v) := by
  obtain ⟨ts₁, hresting₁, hassigned₁, hdeveloped₁⟩ := h.written hp hv
  obtain ⟨ts₁', hresting₁', hassigned₁', hdeveloped₁'⟩ := h.written hq hw
  -- The other field is still there after the first write, and so is the record of the other value.
  have hq₁ := hassigned₁.cell q d hq
  have hp₁ := hassigned₁'.cell p c hp
  rw [← hassigned₁.size] at hw
  rw [← hassigned₁'.size] at hv
  obtain ⟨ts₂, hresting₂, hassigned₂, hdeveloped₂⟩ := hresting₁.written hq₁ hw
  obtain ⟨ts₂', hresting₂', hassigned₂', hdeveloped₂'⟩ := hresting₁'.written hp₁ hv
  have hone : Evolved st ((st.written c v).written d w) :=
    ⟨⟨ts, h⟩, ⟨ts₂, hresting₂⟩, apart, hdeveloped₁.trans hdeveloped₂⟩
  have htwo : Evolved st ((st.written d w).written c v) :=
    ⟨⟨ts, h⟩, ⟨ts₂', hresting₂'⟩, apart, hdeveloped₁'.trans hdeveloped₂'⟩
  refine hone.sameOutcome htwo ⟨fun x => ?_, fun r => ?_, fun r => ?_⟩ known
  · exact content_eq_of_assigned hassigned₁ hassigned₂ hassigned₁' hassigned₂' hp hq hpq x
  · rw [hassigned₂.keys, hassigned₁.keys, hassigned₂'.keys, hassigned₁'.keys]
  · exact isObserved_eq_of_assigned hassigned₁ hassigned₂ hassigned₁' hassigned₂' hp hq hpq r

end Outcome

/-- Two views of the same data, one of which shows the name of a user as a text, the other one in a
form field. Another user, who leads to herself, has not been observed. -/
def nameShownTwice : List Move :=
  [.operate .newRecord, .operate .newRecord, .operate .newRecord,
    .operate (.writeField ⟨⟨1⟩, "name"⟩ (.text "Ada")),
    .operate (.writeField ⟨⟨0⟩, "user"⟩ (.record ⟨1⟩)),
    .operate (.writeField ⟨⟨2⟩, "name"⟩ (.text "Grace")),
    .operate (.writeField ⟨⟨2⟩, "friend"⟩ (.record ⟨2⟩)),
    .operate (.newNode .element "div"), .operate (.newNode .element "p"),
    .operate (.setAttribute ⟨1⟩ "v-text" "user.name"), .operate (.appendChild ⟨0⟩ ⟨1⟩),
    .operate (.newNode .element "form"), .operate (.newNode .element "input"),
    .operate (.setAttribute ⟨3⟩ "v-model" "user.name"), .operate (.appendChild ⟨2⟩ ⟨3⟩),
    .operate (.mount none { root? := some (.node ⟨0⟩), data := ⟨0⟩ }),
    .operate (.mount none { root? := some (.node ⟨2⟩), data := ⟨0⟩ })]

/-- The other user takes the place of the first, whose name is changed: it does not matter which
comes first, although the watchers read the changed name in one of the two cases only. -/
theorem written_comm_nameShownTwice :
    let st := ({} : State).play nameShownTwice
    SameOutcome st ((st.written ⟨1⟩ (.record ⟨2⟩)).written ⟨0⟩ (.text "Countess"))
      ((st.written ⟨0⟩ (.text "Countess")).written ⟨1⟩ (.record ⟨2⟩)) := by
  have hresting : Resting (played [] {} nameShownTwice) (({} : State).play nameShownTwice) :=
    ⟨Run.play .start nameShownTwice (by decide +kernel), by decide +kernel, by decide +kernel,
      by decide +kernel, by decide +kernel⟩
  refine Resting.written_comm hresting (by decide +kernel) (by decide +kernel)
    (p := ⟨⟨0⟩, "user"⟩) (q := ⟨⟨1⟩, "name"⟩) (by decide +kernel) (by decide +kernel)
    (by decide +kernel) ?_ nofun
  rintro r ⟨⟩
  decide +kernel

end DataBinding
