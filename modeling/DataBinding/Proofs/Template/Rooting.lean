import DataBinding.Proofs.Closure
import DataBinding.Proofs.Template.Exposure
import DataBinding.Proofs.Template.Mounting

set_option autoImplicit false

/-! # Mounting is all or nothing

Mounting fails when no root is chosen or when the chosen one is not there, and then it has done
nothing at all. Otherwise the view gets the root that was asked for: a selector stands for the first
element in document order that it picks (`select?_eq_find?`). The records that the data lead to are
observed then, and what is read from the data is what was read before
(`Run.mountsWhollyOrNot`).
-/

namespace DataBinding

open State

namespace State

variable {st : State} {root n : NodeId} {depth k : Nat}

/-! ## Document order -/

/-- The nodes of the tree below a root, the root first, each before those below it and before its
later siblings. -/
def documentOrder (st : State) (root : NodeId) : List NodeId := root :: st.below st.height root

/-- Looking further down than the ways down lead finds no more nodes. -/
theorem below_of_endsWithin (h : st.EndsWithin depth n) (hk : depth ≤ k) :
    st.below k n = st.below depth n := by
  induction depth generalizing n k with
  | zero =>
      cases k with
      | zero => rfl
      | succ k =>
          have hnone : (st.node n).children = [] := h
          simp only [below, hnone, List.flatMap_nil]
  | succ depth ih =>
      cases k with
      | zero => exact absurd hk (Nat.not_succ_le_zero _)
      | succ k =>
          rw [below, below]
          refine List.flatMap_congr fun c hc => ?_
          rw [ih (h c hc) (Nat.le_of_succ_le_succ hk)]

/-- A way down that goes on beyond a depth passes through one more node. -/
theorem exists_sublist_below_succ (h : ¬ st.EndsWithin depth n) :
    ∃ l : List NodeId, l.length = depth + 1 ∧ l.Sublist (st.below (depth + 1) n) := by
  induction depth generalizing n with
  | zero =>
      obtain ⟨c, rest, hchildren⟩ := List.exists_cons_of_ne_nil h
      refine ⟨[c], rfl, ?_⟩
      rw [below, hchildren, List.flatMap_cons]
      exact (List.nil_sublist _).cons_cons c
  | succ depth ih =>
      rw [EndsWithin] at h
      push Not at h
      obtain ⟨c, hc, hlong⟩ := h
      obtain ⟨l, hlength, hl⟩ := ih hlong
      refine ⟨c :: l, by rw [List.length_cons, hlength], ?_⟩
      have hbelow : (c :: st.below (depth + 1) c).Sublist (st.below (depth + 2) n) := by
        rw [below, List.flatMap_def]
        exact List.sublist_flatten_of_mem (List.mem_map_of_mem hc)
      exact (hl.cons_cons c).trans hbelow

/-- A way down a tree has fewer steps than there are nodes. -/
theorem IsTree.endsWithin_of_height (h : st.IsTree root) (hdepth : st.height = depth + 1) :
    st.EndsWithin depth root := by
  by_contra hlong
  obtain ⟨l, hlength, hl⟩ := exists_sublist_below_succ hlong
  rw [← hdepth] at hl
  have hway : (root :: l).Sublist (root :: st.below st.height root) := hl.cons_cons root
  have hle := length_le_size (h.distinct.sublist hway) fun n hn => h.known n (hway.subset hn)
  have hheight : st.height = st.nodes.size := rfl
  rw [List.length_cons, hlength] at hle
  omega

/-- The search comes to the nodes in document order. -/
theorem findWithin_eq_find? (st : State) (p : NodeId → Bool) (depth : Nat) (n : NodeId) :
    st.findWithin p (depth + 1) n = (n :: st.below depth n).find? p := by
  induction depth generalizing n with
  | zero =>
      rw [findWithin, below, List.find?_cons]
      cases p n with
      | true => rfl
      | false =>
          have hnone : (st.node n).children.findSome? (st.findWithin p 0) = none :=
            List.findSome?_eq_none_iff.mpr fun _ _ => rfl
          simpa using hnone
  | succ depth ih =>
      rw [findWithin, below, List.find?_cons, List.find?_flatMap, funext ih]
      cases p n <;> rfl

/-- What is found in a tree: the first node of the whole tree that satisfies the property. -/
theorem IsTree.findNode?_eq_find? (h : st.IsTree root) (p : NodeId → Bool) :
    st.findNode? p root = (st.documentOrder root).find? p := by
  have hroot : root.index < st.height := h.known root List.mem_cons_self
  obtain ⟨depth, hdepth⟩ : ∃ depth, st.height = depth + 1 := ⟨st.height - 1, by omega⟩
  have hbelow : st.below st.height root = st.below depth root :=
    below_of_endsWithin (h.endsWithin_of_height hdepth) (by omega)
  rw [documentOrder, hbelow, findNode?, hdepth, findWithin_eq_find?]

/-- What a selector stands for in a tree: the first node that it picks. -/
theorem IsTree.select?_eq_find? (h : st.IsTree root) (s : Selector) :
    st.select? s root = (st.documentOrder root).find? fun n => (st.node n).isPicked s :=
  h.findNode?_eq_find? _

/-! ## The outcome -/

/-- Whether a node is the root that is chosen: the node that is given, or the first one of the
document, if there is a document, that the selector picks. -/
def IsRoot (st : State) (document? : Option NodeId) : RootChoice → NodeId → Prop
  | .node n, root => root = n
  | .selector s, root => ∃ d, document? = some d ∧
    (st.documentOrder d).find? (fun n => (st.node n).isPicked (.ofText s)) = some root

/-- Whether the selector picks no node of the document, or there is no document. -/
def PicksNone (st : State) (document? : Option NodeId) (s : String) : Prop :=
  ∀ d, document? = some d → ∀ n ∈ st.documentOrder d, (st.node n).isPicked (.ofText s) = false

variable {document? : Option NodeId}

theorem picksNone_iff (htree : ∀ d, document? = some d → st.IsTree d) (s : String) :
    st.PicksNone document? s ↔ document?.bind (st.select? (.ofText s)) = none := by
  cases document? with
  | none => exact iff_of_true nofun rfl
  | some d =>
      rw [Option.bind_some, (htree d rfl).select?_eq_find?, List.find?_eq_none]
      constructor
      · intro h n hn
        rw [h d rfl n hn]
        exact Bool.false_ne_true
      · rintro h _ ⟨⟩ n hn
        exact Bool.eq_false_iff.mpr (h n hn)

/-- There are two reasons for which no root is found. -/
theorem resolveRoot_eq_error_iff (htree : ∀ d, document? = some d → st.IsTree d)
    (choice? : Option RootChoice) (fault : Fault) :
    st.resolveRoot document? choice? = .error fault ↔
      (choice? = none ∧ fault = .missingRoot) ∨
        ∃ s, choice? = some (.selector s) ∧ st.PicksNone document? s ∧ fault = .rootNotFound s := by
  cases choice? with
  | none => simp [resolveRoot, eq_comm]
  | some choice =>
      cases choice with
      | node n => simp [resolveRoot]
      | selector s =>
          have hpicks := picksNone_iff htree s
          rw [resolveRoot]
          cases hselect : document?.bind (st.select? (.ofText s)) with
          | none => simp [hpicks.mpr hselect, eq_comm]
          | some root =>
              rw [hselect] at hpicks
              simp [hpicks]

/-- The root that is found is the right one. -/
theorem isRoot_of_resolveRoot (htree : ∀ d, document? = some d → st.IsTree d)
    {choice? : Option RootChoice} (h : st.resolveRoot document? choice? = .ok root) :
    ∃ choice, choice? = some choice ∧ st.IsRoot document? choice root := by
  cases choice? with
  | none => cases h
  | some choice =>
      refine ⟨choice, rfl, ?_⟩
      cases choice with
      | node n =>
          cases h
          rfl
      | selector s =>
          rw [resolveRoot] at h
          split at h
          · rename_i n hselect
            cases h
            obtain ⟨d, hd, hroot⟩ := Option.bind_eq_some_iff.mp hselect
            exact ⟨d, hd, (htree d hd).select?_eq_find? _ ▸ hroot⟩
          · cases h

/-- What mounting a view has made of the state `st`: there is a view of the data with the right
root, the records that the data lead to are observed, and the same is read from the data. -/
structure Mounts (st : State) (document? : Option NodeId) (o : ViewOptions) (v : ViewId)
    (st' : State) : Prop where
  root : ∃ choice, o.root? = some choice ∧ st.IsRoot document? choice (st'.view v).root
  data : (st'.view v).data = o.data
  observed : ∀ a, st.LeadsTo o.data a → st'.isObserved a = true
  read : ∀ path, st'.read o.data path = st.read o.data path

/-- How mounting a view may end. -/
structure MountsWhollyOrNot (st : State) (document? : Option NodeId) (o : ViewOptions) : Prop where
  missing : (st.mount document? o).1 = .error .missingRoot ↔ o.root? = none
  notFound : ∀ s, (st.mount document? o).1 = .error (.rootNotFound s) ↔
    o.root? = some (.selector s) ∧ st.PicksNone document? s
  /-- There is no third way to fail, and a failure leaves everything as it was: the state that comes
  with the fault is the one before, with every record, every channel and every node. -/
  refused : ∀ fault st', st.mount document? o = (.error fault, st') →
    (fault = .missingRoot ∨ ∃ s, fault = .rootNotFound s) ∧ st' = st
  mounts : ∀ v st', st.mount document? o = (.ok v, st') → st.Mounts document? o v st'

variable {o : ViewOptions}

theorem mount_eq_error_iff {fault : Fault} :
    (st.mount document? o).1 = .error fault ↔ st.resolveRoot document? o.root? = .error fault := by
  cases hroot : st.resolveRoot document? o.root? with
  | error fault' => rw [mount_eq_error hroot]; simp
  | ok root => rw [mount_eq hroot]; simp

theorem view_root_mounted (st : State) (root : NodeId) (o : ViewOptions) :
    ((st.mounted root o).view st.views.fresh).root = root ∧
    ((st.mounted root o).view st.views.fresh).data = o.data := by
  have hview : (st.withTree root o).view st.views.fresh = st.viewOn root o :=
    (wired_withTree.toSameStore.view _).trans view_withView
  rw [view_mounted, hview]
  exact ⟨rfl, rfl⟩

/-- Observing the data changes nothing in what is read. -/
theorem read_mounted (hcelled : Celled st) (r : RecordId) (path : String) :
    (st.mounted root o).read r path = st.read r path := by
  have hconv := onlyConverts_observe hcelled o.data
  rw [sameGraph_mounted.read, read_congr hconv.keys hconv.content]

theorem isObserved_mounted (hknows : KnowsHeld st) (hcelled : Celled st)
    (hchannelled : Channelled st) (hdata : o.data.index < st.records.size) {a : RecordId}
    (ha : st.LeadsTo o.data a) : (st.mounted root o).isObserved a = true := by
  rw [isObserved, sameGraph_mounted.records, ← isObserved]
  exact ((observesAll_observe hknows hcelled hchannelled hdata).observed a).mpr (.inr ha)

end State

variable {ts : List Transition} {st : State}

/-- In any state, with any data and for any document, mounting a view is all or nothing. -/
theorem Run.mountsWhollyOrNot (h : Run ts st) {document? : Option NodeId} {o : ViewOptions}
    (hdata : o.data.index < st.records.size) (htree : ∀ d, document? = some d → st.IsTree d) :
    st.MountsWhollyOrNot document? o := by
  refine ⟨?_, fun s => ?_, fun fault st' hfault => ⟨?_, ?_⟩, fun v st' hok => ?_⟩
  · rw [mount_eq_error_iff, resolveRoot_eq_error_iff htree]
    simp
  · rw [mount_eq_error_iff, resolveRoot_eq_error_iff htree]
    simp
  · have hroot := mount_eq_error_iff.mp (congrArg Prod.fst hfault)
    rcases (resolveRoot_eq_error_iff htree _ _).mp hroot with ⟨-, hmissing⟩ | ⟨s, -, -, hnotFound⟩
    · exact .inl hmissing
    · exact .inr ⟨s, hnotFound⟩
  · -- The root is looked for before anything else is done.
    have hroot := mount_eq_error_iff.mp (congrArg Prod.fst hfault)
    exact (congrArg Prod.snd ((mount_eq_error hroot).symm.trans hfault)).symm
  · cases hroot : st.resolveRoot document? o.root? with
    | error fault => cases (mount_eq_error hroot).symm.trans hok
    | ok root =>
        cases (mount_eq hroot).symm.trans hok
        obtain ⟨choice, hchoice, hisRoot⟩ := isRoot_of_resolveRoot htree hroot
        obtain ⟨hviewRoot, hviewData⟩ := view_root_mounted st root o
        refine ⟨⟨choice, hchoice, ?_⟩, hviewData, fun a ha => ?_, fun path => ?_⟩
        · rw [hviewRoot]
          exact hisRoot
        · exact isObserved_mounted h.knowsHeld h.graph.celled h.channelled hdata ha
        · exact read_mounted h.graph.celled o.data path

/-- A document with two paragraphs of one class, the second of which has an identity. The data lead
to a record and back. -/
def twoParagraphs : List Move :=
  [.operate .newRecord, .operate .newRecord,
    .operate (.writeField ⟨⟨0⟩, "user"⟩ (.record ⟨1⟩)),
    .operate (.writeField ⟨⟨1⟩, "owner"⟩ (.record ⟨0⟩)),
    .operate (.writeField ⟨⟨1⟩, "name"⟩ (.text "Ada")),
    .operate (.newNode .element "div"), .operate (.newNode .element "p"),
    .operate (.setAttribute ⟨1⟩ "class" "wide note"),
    .operate (.setAttribute ⟨1⟩ "v-text" "user.name"), .operate (.newNode .element "p"),
    .operate (.setAttribute ⟨2⟩ "class" "note"),
    .operate (.setAttribute ⟨2⟩ "id" "last"), .operate (.appendChild ⟨0⟩ ⟨1⟩),
    .operate (.appendChild ⟨0⟩ ⟨2⟩)]

theorem mountsWhollyOrNot_twoParagraphs :
    (({} : State).play twoParagraphs).MountsWhollyOrNot (some ⟨0⟩)
      { root? := some (.selector ".note"), data := ⟨0⟩ } := by
  refine Run.mountsWhollyOrNot (Run.play .start twoParagraphs (by decide +kernel))
    (by decide +kernel) ?_
  rintro d ⟨⟩
  decide +kernel

example :
    let st := ({} : State).play twoParagraphs
    st.resolveRoot (some ⟨0⟩) (some (.selector ".note")) = .ok ⟨1⟩ ∧
      st.resolveRoot (some ⟨0⟩) (some (.selector "#first")) = .error (.rootNotFound "#first") := by
  decide +kernel

end DataBinding
