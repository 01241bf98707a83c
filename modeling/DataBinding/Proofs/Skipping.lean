import DataBinding.Proofs.Display
import DataBinding.Proofs.Assignment
import DataBinding.Proofs.Number.Magnitude
import DataBinding.Proofs.Sameness

set_option autoImplicit false

/-! # Skipped writes

To write the value that is there already is skipped, and so is the reaction of a watcher to the
value that it saw last. What counts as the same value is told by a *trait*: of a number, what it
stands for; of an array or a record, its identity; of anything else, its content
(`Value.same_iff_trait_eq`). What a value shows as, and the number it stands for, depend on no more
than that. So nobody can tell from the texts that something was skipped (`Run.skipsUnseen`): they
are those that would be there if it had been done.
-/

namespace DataBinding

namespace Number

/-! ## What a number stands for -/

/-- What a number stands for: all bits of "not a number" are one, and so are the two zeros. -/
inductive Meaning where
  | nan
  | infinite (negative : Bool)
  | finite (q : ℚ)

def meaning (n : Number) : Meaning :=
  if n.isNaN then .nan else if n.isInfinite then .infinite n.isNegative else .finite n.value

variable {a b : Number}

theorem value_of_isZero (h : a.isZero) : a.value = 0 := by
  have hrank : a.rank = 0 := of_decide_eq_true h
  rw [value, hrank, magnitude_zero, neg_zero, ite_self]

theorem meaning_of_isZero (h : a.isZero) : a.meaning = .finite 0 := by
  have hrank : a.rank = 0 := of_decide_eq_true h
  have hfinite : a.isInfinite = false := by
    rw [isInfinite, hrank]
    rfl
  rw [meaning, isNaN_eq_false_of_isZero h, hfinite, value_of_isZero h]
  rfl

theorem eq_of_rank (hsign : a.isNegative = b.isNegative) (hrank : a.rank = b.rank) : a = b := by
  rw [← ofRank_rank a, ← ofRank_rank b, hsign, hrank]

/-- Two numbers that stand for one rational are equal, or they are the two zeros. -/
theorem eq_or_isZero_of_value (h : a.value = b.value) : a = b ∨ (a.isZero ∧ b.isZero) := by
  have hinj := magnitude_strictMono.injective
  have hzeros : magnitude a.rank = -magnitude b.rank → a.isZero ∧ b.isZero := by
    intro hneg
    have ha := magnitude_nonneg a.rank
    have hb := magnitude_nonneg b.rank
    have ha0 : magnitude a.rank = magnitude 0 := by
      rw [magnitude_zero]
      linarith
    have hb0 : magnitude b.rank = magnitude 0 := by
      rw [magnitude_zero]
      linarith
    exact ⟨decide_eq_true (hinj ha0), decide_eq_true (hinj hb0)⟩
  unfold value at h
  cases ha : a.isNegative <;> cases hb : b.isNegative <;> simp only [ha, hb] at h
  · exact .inl (eq_of_rank (ha.trans hb.symm) (hinj h))
  · exact .inr (hzeros h)
  · exact .inr (hzeros (neg_eq_iff_eq_neg.mp h))
  · exact .inl (eq_of_rank (ha.trans hb.symm) (hinj (neg_injective h)))

theorem same_iff_meaning_eq (a b : Number) :
    a.same b = true ↔ a.meaning = b.meaning := by
  rw [same_iff]
  constructor
  · rintro (⟨ha, hb⟩ | ⟨ha, hb⟩ | hbits)
    · rw [meaning, if_pos ha, meaning, if_pos hb]
    · rw [meaning_of_isZero ha, meaning_of_isZero hb]
    · cases a
      cases b
      cases hbits
      rfl
  · intro h
    unfold meaning at h
    by_cases ha : a.isNaN
    · by_cases hb : b.isNaN
      · exact .inl ⟨ha, hb⟩
      · rw [if_pos ha, if_neg hb] at h
        split at h <;> cases h
    by_cases hb : b.isNaN
    · rw [if_neg ha, if_pos hb] at h
      split at h <;> cases h
    rw [if_neg ha, if_neg hb] at h
    -- Both are numbers: infinite ones go by their sign, finite ones by their rational.
    by_cases ha' : a.isInfinite
    · by_cases hb' : b.isInfinite
      · rw [if_pos ha', if_pos hb'] at h
        have hrank : a.rank = b.rank := (of_decide_eq_true ha').trans (of_decide_eq_true hb').symm
        rw [eq_of_rank (Meaning.infinite.inj h) hrank]
        exact .inr (.inr rfl)
      · rw [if_pos ha', if_neg hb'] at h
        cases h
    · by_cases hb' : b.isInfinite
      · rw [if_neg ha', if_pos hb'] at h
        cases h
      · rw [if_neg ha', if_neg hb'] at h
        rcases eq_or_isZero_of_value (Meaning.finite.inj h) with rfl | hzero
        · exact .inr (.inr rfl)
        · exact .inr (.inl hzero)

end Number

namespace Value

/-! ## What a value is told apart by -/

/-- What a value is told apart by. -/
inductive Trait where
  | undefined
  | null
  | bool (b : Bool)
  | number (d : Number.Meaning)
  | text (s : String)
  | array (identity : Nat)
  | record (r : RecordId)

def trait : Value → Trait
  | .undefined => .undefined
  | .null => .null
  | .bool b => .bool b
  | .number n => .number n.meaning
  | .text s => .text s
  | .array identity _ => .array identity
  | .record r => .record r

/-- Whether the value, if it is an array, has the items that belong to its identity. -/
def IsFrom (items : Nat → List Value) : Value → Prop
  | .array identity xs => xs = items identity
  | _ => True

variable {a b : Value}

theorem same_iff_trait_eq {items : Nat → List Value} (ha : a.IsFrom items) (hb : b.IsFrom items) :
    a.same b = true ↔ a.trait = b.trait := by
  cases a with
  | number x =>
      cases b with
      | number y => exact (Number.same_iff_meaning_eq x y).trans (by simp [trait])
      | _ => simp [same, trait]
  | array i xs =>
      cases b with
      | array j ys =>
          -- The identity fixes the items.
          rw [IsFrom] at ha hb
          subst ha hb
          simp only [same, trait, decide_eq_true_eq, Value.array.injEq, Trait.array.injEq]
          exact and_iff_left_of_imp (congrArg items)
      | _ => simp [same, trait]
  | _ => cases b <;> simp [same, trait]

theorem toNumber_same (h : a.same b = true) : a.toNumber.same b.toNumber = true := by
  rcases (same_iff a b).mp h with rfl | ⟨x, y, rfl, rfl, hxy⟩
  · exact (Number.same_iff _ _).mpr (.inr (.inr rfl))
  · exact hxy

theorem record?_eq_of_same (h : a.same b = true) : a.record? = b.record? := by
  rcases (same_iff a b).mp h with rfl | ⟨x, y, rfl, rfl, -⟩
  · rfl
  · rfl

/-- What is true of sameness: it is an equivalence, it tells values apart by their traits, and
texts and numbers do not go beyond it. -/
structure Sameness : Prop where
  equivalence : Equivalence fun a b : Value => a.same b = true
  nan : ∀ x y : Number, x.isNaN → y.isNaN → (number x).same (number y) = true
  zeros : ∀ x y : Number, x.isZero → y.isZero → (number x).same (number y) = true
  trait : ∀ (items : Nat → List Value) (a b : Value), a.IsFrom items → b.IsFrom items →
    (a.same b = true ↔ a.trait = b.trait)
  display : ∀ a b : Value, a.same b = true → a.display = b.display
  toNumber : ∀ a b : Value, a.same b = true → a.toNumber.same b.toNumber = true

theorem sameness : Sameness where
  equivalence := ⟨same_self, same_symm, same_trans⟩
  nan x y hx hy := (Number.same_iff x y).mpr (.inl ⟨hx, hy⟩)
  zeros x y hx hy := (Number.same_iff x y).mpr (.inr (.inl ⟨hx, hy⟩))
  trait _ _ _ := same_iff_trait_eq
  display _ _ := display_eq_of_same
  toNumber _ _ := toNumber_same

end Value

namespace State

variable {st st' : State} {c : CellId} {v : Value} {p : Slot} {s : SubscriberId} {w : Watcher}

/-! ## States that hold the same values -/

/-- The two states have the same fields, and what these hold is the same. -/
structure HoldsSame (st st' : State) : Prop where
  keys : ∀ r, (st'.records.get r).fields.keys = (st.records.get r).fields.keys
  content : ∀ p, (st'.content p).same (st.content p) = true

namespace HoldsSame

theorem trans_onlyConverts {st₁ : State} (h : HoldsSame st st₁) (hconv : OnlyConverts st₁ st') :
    HoldsSame st st' where
  keys r := (hconv.keys r).trans (h.keys r)
  content p := by rw [hconv.content, h.content]

theorem trans_sameGraph {st₁ : State} (h : HoldsSame st st₁) (hgraph : SameGraph st₁ st') :
    HoldsSame st st' where
  keys r := by rw [hgraph.records, h.keys]
  content p := by rw [hgraph.content, h.content]

/-- Values that are the same lead a path to the same records, and so to the same value. -/
theorem read (h : HoldsSame st st') (root : RecordId) (path : String) :
    (st'.read root path).same (st.read root path) = true := by
  have htrail := trail_congr h.keys (fun p => Value.record?_eq_of_same (h.content p)) root path
  rw [State.read, htrail, State.read]
  cases (st.trail root path).target? with
  | none => rfl
  | some p => exact h.content p

end HoldsSame

theorem holdsSame_store (h : st.differs c v = false) : HoldsSame st (st.store c v) where
  keys _ := rfl
  content p := by
    have hsame : v.same (st.cells.get c).value = true := by
      rw [differs, Bool.not_eq_false'] at h
      exact Value.same_symm h
    cases hf : st.field? p with
    | none =>
        have hf' : (st.store c v).field? p = none := hf
        rw [content_eq_of_none hf, content_eq_of_none hf']
        rfl
    | some f =>
        cases f with
        | plain u =>
            have hf' : (st.store c v).field? p = some (.plain u) := hf
            rw [content_eq_of_plain hf, content_eq_of_plain hf']
            exact u.same_self
        | reactive d =>
            have hd := cell?_eq_some.mpr hf
            have hd' : (st.store c v).cell? p = some d := hd
            rw [content_eq_of_cell? hd, content_eq_of_cell? hd', get_store]
            split
            · rename_i hcd
              rw [← hcd.1]
              exact hsame
            · exact Value.same_self _

theorem holdsSame_putField (hp : (st.field? p).isSome) (h : (st.content p).same v = true) :
    HoldsSame st (st.putField p (.plain v)) where
  keys r := by
    have hkey : p.key ∈ (st.records.get p.record).fields.keys := isSome_field?_iff.mp hp
    rw [keys_putField]
    split
    · rename_i hr
      rw [if_pos (hr.1 ▸ hkey)]
    · rfl
  content q := by
    rw [content_putField]
    split
    · rename_i hq
      rw [← hq.1]
      exact Value.same_symm h
    · exact Value.same_self _

/-! ## Writing without asking -/

/-- Gives a cell a value without asking whether it is there already. -/
def assignAnyway (st : State) (c : CellId) (v : Value) : State :=
  (((st.store c v).observeValue v).report (.changed (st.cells.get c).key)).notify
    (st.cells.get c).channel

/-- Writes a field without asking whether the value is there already. -/
def writeAnyway (st : State) (p : Slot) (v : Value) : State :=
  match st.cell? p with
  | some c => st.assignAnyway c v
  | none => st.putField p (.plain v)

theorem holdsSame_assignAnyway (hcelled : Celled st) (h : st.differs c v = false) :
    HoldsSame st (st.assignAnyway c v) := by
  have hconv := onlyConverts_observeValue (hcelled.store c v) v
  have hobserved := (holdsSame_store h).trans_onlyConverts hconv
  have hreported := hobserved.trans_sameGraph
    (onlySubscriptions_report _ (.changed (st.cells.get c).key)).graph
  exact hreported.trans_sameGraph (onlySubscriptions_notify _ _).graph

theorem holdsSame_writeAnyway (hcelled : Celled st) (hp : (st.field? p).isSome)
    (h : (st.content p).same v = true) : HoldsSame st (st.writeAnyway p v) := by
  unfold writeAnyway
  cases hc : st.cell? p with
  | none => exact holdsSame_putField hp h
  | some c =>
      refine holdsSame_assignAnyway hcelled ?_
      rw [differs, ← content_eq_of_cell? hc, h]
      rfl

/-- A write tells of itself and calls nobody yet, and so it touches neither nodes nor watchers. -/
theorem nodes_assignAnyway : (st.assignAnyway c v).nodes = st.nodes :=
  (onlySubscriptions_notify _ _).nodes.trans (observes_observeValue (st.store c v) v).nodes

theorem watcher?_assignAnyway : (st.assignAnyway c v).watcher? s = st.watcher? s :=
  watcher?_notify.trans (watcher?_congr (observes_observeValue (st.store c v) v).subscribers)

/-! ## Telling a watcher of the value that it has seen -/

/-- What a node shows depends on the nodes only. -/
theorem shows_congr (h : st'.nodes = st.nodes) (n : NodeId) (text : String) :
    st'.Shows n text = st.Shows n text := by
  simp only [Shows, node_congr h, h]

theorem nodes_update_of_same (hw : st.watcher? s = some w)
    (hsame : (st.read w.root w.path).same w.seen = true) : (st.update s).nodes = st.nodes := by
  rw [update_eq hw, if_pos hsame]
  split
  · rfl
  · exact (onlySubscriptions_reread st s w).nodes

theorem agenda_update_of_same (hw : st.watcher? s = some w)
    (hsame : (st.read w.root w.path).same w.seen = true) : (st.update s).agenda = st.agenda := by
  rw [update_eq hw, if_pos hsame]
  split
  · rfl
  · exact agenda_reread st s w

/-! ## What is skipped -/

/-- What a path leads to in the one state shows as the same text as in the other, and stands for
the same number. -/
structure ReadsSame (st st' : State) (root : RecordId) (path : String) : Prop where
  display : (st'.read root path).display = (st.read root path).display
  toNumber : (st'.read root path).toNumber.same (st.read root path).toNumber = true

theorem HoldsSame.readsSame (h : HoldsSame st st') (root : RecordId) (path : String) :
    ReadsSame st st' root path :=
  ⟨Value.display_eq_of_same (h.read root path), Value.toNumber_same (h.read root path)⟩

/-- In this state, whatever is skipped makes no difference to any text. -/
structure SkipsUnseen (st : State) : Prop where
  /-- An assignment that is skipped: all paths lead to what they would lead to after it. -/
  assign : ∀ c v, st.differs c v = false → st.assign c v = st ∧
    ∀ root path, ReadsSame st (st.assignAnyway c v) root path
  /-- Had it been done, a watcher that has seen what its path leads to would show nothing new. -/
  told : ∀ c v s w, st.differs c v = false → st.watcher? s = some w →
    (st.read w.root w.path).same w.seen = true →
    ((st.assignAnyway c v).update s).nodes = st.nodes
  /-- A write through a view that is skipped: its path leads to the text of the new value, and all
  paths lead to what they would lead to if the value were put where this path leads. -/
  writeView : ∀ view key v, (st.readView view key).same v = true → st.writeView view key v = st ∧
    (st.readView view key).display = v.display ∧
    ∀ p, (st.trail (st.view view).data key).target? = some p →
      ∀ root path, ReadsSame st (st.writeAnyway p v) root path
  /-- A reaction that is skipped: the host is not called, and a node that shows the value seen last,
  as it does all through a run that leaves its text to the watcher (`Run.shows`), shows the new
  one. -/
  update : ∀ s w, st.watcher? s = some w → (st.read w.root w.path).same w.seen = true →
    (st.update s).agenda = st.agenda ∧ (st.update s).nodes = st.nodes ∧
    ∀ n, (st.Shows n w.seen.display → (st.update s).Shows n (st.read w.root w.path).display) ∧
      ((st.node n).value = w.seen.display →
        ((st.update s).node n).value = (st.read w.root w.path).display)

theorem skipsUnseen_of_celled (hcelled : Celled st) : SkipsUnseen st where
  assign c v h := ⟨assign_of_same h, (holdsSame_assignAnyway hcelled h).readsSame⟩
  told c v s w h hw hsame := by
    have hholds := holdsSame_assignAnyway hcelled h
    have hw' : (st.assignAnyway c v).watcher? s = some w := watcher?_assignAnyway.trans hw
    have hsame' := Value.same_trans (hholds.read w.root w.path) hsame
    exact (nodes_update_of_same hw' hsame').trans nodes_assignAnyway
  writeView view key v h := by
    refine ⟨by rw [State.writeView, if_pos h], Value.display_eq_of_same h, fun p hp => ?_⟩
    have hcontent : st.readView view key = st.content p := by
      rw [readView, State.read, hp]
      rfl
    rw [hcontent] at h
    exact (holdsSame_writeAnyway hcelled (isSome_field?_of_target? hp) h).readsSame
  update s w hw hsame := by
    have hnodes := nodes_update_of_same hw hsame
    have htext := Value.display_eq_of_same hsame
    refine ⟨agenda_update_of_same hw hsame, hnodes, fun n => ⟨fun hshows => ?_, fun hvalue => ?_⟩⟩
    · rw [shows_congr hnodes, htext]
      exact hshows
    · rw [node_congr hnodes, htext, hvalue]

end State

/-- Sameness is an equivalence that texts and numbers respect. In every state that a run comes to,
what is skipped because a value is the same can be told from no text. -/
theorem Run.skipsUnseen {ts : List Transition} {st : State} (h : Run ts st) :
    Value.Sameness ∧ st.SkipsUnseen :=
  ⟨Value.sameness, State.skipsUnseen_of_celled h.graph.celled⟩

/-- An element shows a field that holds zero. -/
def zeroShown : List Move :=
  [.operate .newRecord, .operate (.writeField ⟨⟨0⟩, "n"⟩ (.number .zero)),
    .operate (.newNode .element "p"), .operate (.setAttribute ⟨0⟩ "v-text" "n"),
    .operate (.mount none { root? := some (.node ⟨0⟩), data := ⟨0⟩ })]

/-- To write the other zero is skipped. -/
theorem skipsUnseen_zeroShown :
    (({} : State).play zeroShown).read ⟨0⟩ "n" = .number .zero ∧
      (({} : State).play zeroShown).differs ⟨0⟩ (.number (.ofRank true 0)) = false ∧
      Value.Sameness ∧ (({} : State).play zeroShown).SkipsUnseen :=
  ⟨by decide +kernel, by decide +kernel,
    Run.skipsUnseen (Run.play .start zeroShown (by decide +kernel))⟩

end DataBinding
