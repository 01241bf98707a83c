import Mathlib.Data.List.Forall2
import DataBinding.Proofs.Template.Rooting
import DataBinding.Proofs.Text.Words

set_option autoImplicit false

/-! # Searching a tree

The search goes down as soon as a node does not satisfy the property, and stops where one does. What
it finds is the first node in the listing of the tree in which a node stands before the trees of its
children, and these stand one after another (`IsListed`). A selector finds the first element in that
listing that it matches (`IsTree.searches`).
-/

namespace DataBinding

open Text

/-! ## Matching -/

/-- Two characters that are the same but for the case of an ASCII letter. -/
def SameButCase (a b : Char) : Prop :=
  a = b ∨ (a.isUpper = true ∧ b.toNat = a.toNat + 32) ∨ (b.isUpper = true ∧ a.toNat = b.toNat + 32)

/-- The node is an element that the selector `s` matches. -/
inductive Node.Matches (b : Node) (s : String) : Prop
  | name {x} (hkind : b.kind = .element) (hs : s.toList = '#' :: x)
      (hx : b.attribute? "id" = some (String.ofList x))
  | word {x words} (hkind : b.kind = .element) (hs : s.toList = '.' :: x)
      (hwords : b.attribute? "class" = some words) (hx : IsWordOf x words.toList)
  | tag (hkind : b.kind = .element) (hs : ∀ x, s.toList ≠ '#' :: x ∧ s.toList ≠ '.' :: x)
      (htag : List.Forall₂ SameButCase b.tag.toList s.toList)

theorem isUpper_iff (a : Char) : a.isUpper = true ↔ 65 ≤ a.toNat ∧ a.toNat ≤ 90 := by
  have hupper : a.isUpper = true ↔ a.val ≥ 'A'.val ∧ a.val ≤ 'Z'.val := decide_eq_true_iff
  rw [hupper, ge_iff_le, UInt32.le_iff_toNat_le, UInt32.le_iff_toNat_le]
  exact Iff.rfl

theorem toNat_toLower (a : Char) :
    a.toLower.toNat = if 65 ≤ a.toNat ∧ a.toNat ≤ 90 then a.toNat + 32 else a.toNat := by
  have hupper : a.isUpper = true ↔ a.val ≥ 'A'.val ∧ a.val ≤ 'Z'.val := decide_eq_true_iff
  rw [isUpper_iff] at hupper
  by_cases h : 65 ≤ a.toNat ∧ a.toNat ≤ 90
  · have hlower : a.toLower.val = a.val + 32 := congrArg Char.val (dif_pos (hupper.mp h))
    have hval : a.toNat = a.val.toNat := rfl
    rw [if_pos h]
    show a.toLower.val.toNat = a.toNat + 32
    rw [hlower, UInt32.toNat_add, ← hval]
    have hstep : (32 : UInt32).toNat = 32 := rfl
    omega
  · have hsame : a.toLower = a := dif_neg fun hrange => h (hupper.mpr hrange)
    rw [if_neg h, hsame]

theorem toLower_eq_iff (a b : Char) : a.toLower = b.toLower ↔ SameButCase a b := by
  have hext : ∀ c d : Char, c = d ↔ c.toNat = d.toNat := fun c d =>
    ⟨congrArg _, fun h => Char.ext (UInt32.toNat_inj.mp h)⟩
  rw [SameButCase, hext a.toLower, hext a b, toNat_toLower, toNat_toLower]
  simp only [isUpper_iff]
  split <;> split <;> omega

theorem lower_eq_iff (s t : String) :
    Selector.lower s = Selector.lower t ↔ List.Forall₂ SameButCase s.toList t.toList := by
  have hsame : SameButCase = fun a b : Char => a.toLower = b.toLower := by
    funext a b
    exact propext (toLower_eq_iff a b).symm
  rw [hsame, Selector.lower, Selector.lower, ← List.forall₂_eq_eq_eq, List.forall₂_map_left_iff,
    List.forall₂_map_right_iff]

variable {s : String} {x : List Char}

theorem Selector.ofText_name (hs : s.toList = '#' :: x) :
    Selector.ofText s = .named (String.ofList x) := by
  rw [Selector.ofText, hs]
  rfl

theorem Selector.ofText_word (hs : s.toList = '.' :: x) :
    Selector.ofText s = .classed (String.ofList x) := by
  rw [Selector.ofText, hs]
  rfl

theorem Selector.ofText_tag (hs : ∀ x, s.toList ≠ '#' :: x ∧ s.toList ≠ '.' :: x) :
    Selector.ofText s = .tagged s := by
  unfold Selector.ofText
  split
  · exact absurd ‹_› (hs _).1
  · exact absurd ‹_› (hs _).2
  · rfl

/-- The selector picks what it matches. -/
theorem Node.isPicked_iff (b : Node) (s : String) :
    b.isPicked (.ofText s) = true ↔ b.Matches s := by
  unfold Node.isPicked
  rw [Bool.and_eq_true, decide_eq_true_eq]
  constructor
  · rintro ⟨hkind, hpicked⟩
    by_cases hname : ∃ x, s.toList = '#' :: x
    · obtain ⟨x, hs⟩ := hname
      rw [Selector.ofText_name hs] at hpicked
      exact .name hkind hs (of_decide_eq_true hpicked)
    by_cases hword : ∃ x, s.toList = '.' :: x
    · obtain ⟨x, hs⟩ := hword
      rw [Selector.ofText_word hs] at hpicked
      obtain ⟨words, hwords, hmem⟩ := (Option.any_eq_true _ _).mp hpicked
      have hx := (mem_words_iff _ _).mp (of_decide_eq_true hmem)
      rw [String.toList_ofList] at hx
      exact .word hkind hs hwords hx
    · have hs : ∀ x, s.toList ≠ '#' :: x ∧ s.toList ≠ '.' :: x := fun x =>
        ⟨fun hs => hname ⟨x, hs⟩, fun hs => hword ⟨x, hs⟩⟩
      rw [Selector.ofText_tag hs] at hpicked
      exact .tag hkind hs ((lower_eq_iff b.tag s).mp (of_decide_eq_true hpicked))
  · intro h
    cases h with
    | name hkind hs hx =>
        rw [Selector.ofText_name hs]
        exact ⟨hkind, decide_eq_true hx⟩
    | @word x words hkind hs hwords hx =>
        have hmem : String.ofList x ∈ Text.words words := by
          rw [mem_words_iff, String.toList_ofList]
          exact hx
        rw [Selector.ofText_word hs]
        exact ⟨hkind, (Option.any_eq_true _ _).mpr ⟨words, hwords, decide_eq_true hmem⟩⟩
    | tag hkind hs htag =>
        rw [Selector.ofText_tag hs]
        exact ⟨hkind, decide_eq_true ((lower_eq_iff b.tag s).mpr htag)⟩

/-! ## The listing of a tree -/

namespace State

/-- `l` lists the tree below `n`: the node itself, and then the trees of its children one after
another. -/
inductive IsListed (st : State) : NodeId → List NodeId → Prop
  | node {n : NodeId} {ls : List (List NodeId)}
      (h : List.Forall₂ (IsListed st) (st.node n).children ls) : IsListed st n (n :: ls.flatten)

variable {st : State} {root n : NodeId} {depth : Nat}

/-- The nodes down to a depth are the whole tree if it ends there. -/
theorem isListed_below (h : st.EndsWithin depth n) : st.IsListed n (n :: st.below (depth + 1) n) := by
  induction depth generalizing n with
  | zero =>
      have hnone : (st.node n).children = [] := h
      have hempty : List.Forall₂ (IsListed st) (st.node n).children [] := by
        rw [hnone]
        exact .nil
      rw [below, hnone]
      exact .node hempty
  | succ depth ih =>
      have hchildren : List.Forall₂ (IsListed st) (st.node n).children
          ((st.node n).children.map fun c => c :: st.below (depth + 1) c) := by
        rw [List.forall₂_map_right_iff, List.forall₂_same]
        exact fun c hc => ih (h c hc)
      rw [below, List.flatMap_def]
      exact .node hchildren

theorem IsTree.isListed (h : st.IsTree root) : st.IsListed root (st.documentOrder root) := by
  have hroot : root.index < st.height := h.known root List.mem_cons_self
  obtain ⟨depth, hdepth⟩ : ∃ depth, st.height = depth + 1 := ⟨st.height - 1, by omega⟩
  rw [documentOrder, hdepth]
  exact isListed_below (h.endsWithin_of_height hdepth)

/-! ## What is found -/

/-- `n` is the first one in `l` of those with the property `P`. -/
def IsFirst (l : List NodeId) (P : NodeId → Prop) (n : NodeId) : Prop :=
  ∃ before after, l = before ++ n :: after ∧ P n ∧ ∀ m ∈ before, ¬ P m

/-- What the search of a tree finds, for every property and every selector. -/
structure Searches (st : State) (root : NodeId) : Prop where
  listed : st.IsListed root (st.documentOrder root)
  found : ∀ p n, st.findNode? p root = some n ↔
    IsFirst (st.documentOrder root) (fun m => p m = true) n
  missing : ∀ p, st.findNode? p root = none ↔ ∀ m ∈ st.documentOrder root, ¬ p m = true
  selected : ∀ s n, st.select? (.ofText s) root = some n ↔
    IsFirst (st.documentOrder root) (fun m => (st.node m).Matches s) n
  unmatched : ∀ s, st.select? (.ofText s) root = none ↔
    ∀ m ∈ st.documentOrder root, ¬ (st.node m).Matches s

/-- The first node in document order is found, if there is one. -/
theorem IsTree.searches (h : st.IsTree root) : st.Searches root := by
  have hfound : ∀ p n, st.findNode? p root = some n ↔
      IsFirst (st.documentOrder root) (fun m => p m = true) n := by
    intro p n
    rw [h.findNode?_eq_find?, List.find?_eq_some_iff_append, IsFirst]
    simp only [Bool.not_eq_true', Bool.not_eq_true]
    constructor
    · rintro ⟨hp, before, after, hsplit, hbefore⟩
      exact ⟨before, after, hsplit, hp, hbefore⟩
    · rintro ⟨before, after, hsplit, hp, hbefore⟩
      exact ⟨hp, before, after, hsplit, hbefore⟩
  have hmissing : ∀ p, st.findNode? p root = none ↔
      ∀ m ∈ st.documentOrder root, ¬ p m = true := by
    intro p
    rw [h.findNode?_eq_find?, List.find?_eq_none]
  refine ⟨h.isListed, hfound, hmissing, fun s n => ?_, fun s => ?_⟩
  · simp only [← Node.isPicked_iff]
    exact hfound _ n
  · simp only [← Node.isPicked_iff]
    exact hmissing _

/-- A heading, a comment, a paragraph with a text in it, and a button, all below one element. -/
def menu : State where
  nodes := ⟨#[
    { kind := .element, tag := "div", attributes := [⟨"id", "app"⟩], children := [⟨1⟩, ⟨2⟩, ⟨3⟩, ⟨5⟩] },
    { kind := .element, tag := "H1", attributes := [⟨"class", "wide  big"⟩] },
    .comment "big",
    { kind := .element, tag := "p", children := [⟨4⟩] },
    .ofText "big",
    { kind := .element, tag := "button", attributes := [⟨"class", "big"⟩] }]⟩

theorem searches_menu : menu.IsTree ⟨0⟩ ∧ menu.Searches ⟨0⟩ ∧
    menu.documentOrder ⟨0⟩ = [⟨0⟩, ⟨1⟩, ⟨2⟩, ⟨3⟩, ⟨4⟩, ⟨5⟩] ∧
    menu.select? (.ofText ".big") ⟨0⟩ = some ⟨1⟩ ∧ menu.select? (.ofText "Button") ⟨0⟩ = some ⟨5⟩ ∧
    menu.select? (.ofText "#comment") ⟨0⟩ = none := by
  have htree : menu.IsTree ⟨0⟩ := by decide +kernel
  exact ⟨htree, htree.searches, by decide +kernel, by decide +kernel, by decide +kernel,
    by decide +kernel⟩

end State

end DataBinding
