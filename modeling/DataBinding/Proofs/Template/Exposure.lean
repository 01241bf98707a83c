import Mathlib.Data.List.Nodup
import Mathlib.Data.List.Perm.Subperm
import DataBinding.Proofs.Tree

set_option autoImplicit false

/-! # The nodes that binding a tree comes to

Binding a tree walks down from the root. Where it comes to an element with a bound text, the
nodes below have given way to the text, so the walk comes to the nodes that are *exposed*: not
below such an element. In a tree no node is met twice, and so no walk is longer than the table
of nodes (`IsTree.endsWithin`).
-/

namespace DataBinding

/-- The path that a `v-text` attribute names. -/
def Attribute.textKey? (a : Attribute) : Option String :=
  if Directive.ofName? a.name = some .text then some (Text.trim a.value) else none

/-- The path whose value an element shows as its text, if it has a `v-text`; were there several,
the last one would count. -/
def Node.textKey? (b : Node) : Option String :=
  match b.kind with
  | .element => (b.attributes.filterMap Attribute.textKey?).getLast?
  | .text | .other => none

namespace State

variable {st : State} {n m root : NodeId} {depth : Nat}

/-- The nodes below a node, in document order, down to a depth. -/
def below (st : State) : Nat → NodeId → List NodeId
  | 0, _ => []
  | depth + 1, n => (st.node n).children.flatMap fun c => c :: st.below depth c

/-- The nodes below a node that are not below an element with a bound text, down to a depth. -/
def exposed (st : State) : Nat → NodeId → List NodeId
  | 0, _ => []
  | depth + 1, n =>
    (st.node n).children.flatMap fun c =>
      c :: if (st.node c).textKey?.isSome then [] else st.exposed depth c

/-- What is exposed from a child down, the child included. -/
def exposedFrom (st : State) (depth : Nat) (child : NodeId) : List NodeId :=
  child :: if (st.node child).textKey?.isSome then [] else st.exposed depth child

theorem exposed_succ (st : State) (depth : Nat) (n : NodeId) :
    st.exposed (depth + 1) n = (st.node n).children.flatMap (st.exposedFrom depth) := rfl

/-- The nodes from a root down exist, and none of them is met twice. -/
structure IsTree (st : State) (root : NodeId) : Prop where
  known : ∀ n ∈ root :: st.below st.height root, n.index < st.nodes.size
  distinct : (root :: st.below st.height root).Nodup

instance : Decidable (st.IsTree root) :=
  decidable_of_iff ((∀ n ∈ root :: st.below st.height root, n.index < st.nodes.size) ∧
    (root :: st.below st.height root).Nodup) ⟨fun h => ⟨h.1, h.2⟩, fun h => ⟨h.known, h.distinct⟩⟩

theorem below_congr {st' : State} (h : st'.nodes = st.nodes) (depth : Nat) (n : NodeId) :
    st'.below depth n = st.below depth n := by
  induction depth generalizing n with
  | zero => rfl
  | succ depth ih => simp only [below, node_congr h, ih]

theorem exposed_congr {st' : State} (h : st'.nodes = st.nodes) (depth : Nat) (n : NodeId) :
    st'.exposed depth n = st.exposed depth n := by
  induction depth generalizing n with
  | zero => rfl
  | succ depth ih => simp only [exposed, node_congr h, ih]

theorem IsTree.congr {st' : State} (h : st.IsTree root) (hnodes : st'.nodes = st.nodes) :
    st'.IsTree root := by
  have hbelow : st'.below st'.height root = st.below st.height root := by
    rw [below_congr hnodes, height, hnodes, height]
  constructor
  · rw [hbelow, hnodes]
    exact h.known
  · rw [hbelow]
    exact h.distinct

/-- No way down from a node is longer than the depth. -/
def EndsWithin (st : State) : Nat → NodeId → Prop
  | 0, n => (st.node n).children = []
  | depth + 1, n => ∀ c ∈ (st.node n).children, st.EndsWithin depth c

theorem exposed_sublist (depth : Nat) (n : NodeId) :
    (st.exposed depth n).Sublist (st.below depth n) := by
  induction depth generalizing n with
  | zero => exact .slnil
  | succ depth ih =>
      simp only [exposed, below]
      induction (st.node n).children with
      | nil => exact .slnil
      | cons c rest ih' =>
          rw [List.flatMap_cons, List.flatMap_cons]
          refine List.Sublist.append ?_ ih'
          split
          · exact (List.nil_sublist _).cons_cons c
          · exact (ih c).cons_cons c

/-- A way down that is longer than a depth passes through as many nodes. -/
theorem exists_sublist_below (h : ¬ st.EndsWithin depth n) :
    ∃ l : List NodeId, l.length = depth ∧ l.Sublist (st.below depth n) := by
  induction depth generalizing n with
  | zero => exact ⟨[], rfl, .slnil⟩
  | succ depth ih =>
      rw [EndsWithin] at h
      push Not at h
      obtain ⟨c, hc, hlong⟩ := h
      -- The child is the first node of the way, and the rest of it is below the child.
      obtain ⟨l, hlength, hl⟩ := ih hlong
      refine ⟨c :: l, by rw [List.length_cons, hlength], ?_⟩
      have hbelow : (c :: st.below depth c).Sublist (st.below (depth + 1) n) := by
        rw [below, List.flatMap_def]
        exact List.sublist_flatten_of_mem (List.mem_map_of_mem hc)
      exact (hl.cons_cons c).trans hbelow

/-- So many different nodes need a table of as many places. -/
theorem length_le_size {l : List NodeId} (hdistinct : l.Nodup)
    (hknown : ∀ n ∈ l, n.index < st.nodes.size) : l.length ≤ st.nodes.size := by
  have hindices : (l.map Id.index).Nodup := by
    refine List.Nodup.map ?_ hdistinct
    rintro ⟨i⟩ ⟨j⟩ rfl
    rfl
  have hrange : l.map Id.index ⊆ List.range st.nodes.size := by
    intro i hi
    obtain ⟨n, hn, rfl⟩ := List.mem_map.mp hi
    exact List.mem_range.mpr (hknown n hn)
  calc l.length
      = (l.map Id.index).length := (List.length_map _).symm
    _ ≤ (List.range st.nodes.size).length := (hindices.subperm hrange).length_le
    _ = st.nodes.size := List.length_range

/-- No way down a tree is longer than the table of nodes. -/
theorem IsTree.endsWithin (h : st.IsTree root) : st.EndsWithin st.height root := by
  by_contra hlong
  -- With the root, the way would have more nodes than there are.
  obtain ⟨l, hlength, hl⟩ := exists_sublist_below hlong
  have hway : (root :: l).Sublist (root :: st.below st.height root) := hl.cons_cons root
  have hle := length_le_size (h.distinct.sublist hway) fun n hn => h.known n (hway.subset hn)
  rw [List.length_cons, hlength] at hle
  exact absurd hle (Nat.not_succ_le_self _)

end State

end DataBinding
