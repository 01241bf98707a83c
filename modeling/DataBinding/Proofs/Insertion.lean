import DataBinding.Proofs.Altering
import DataBinding.Proofs.Writing
import Mathlib.Data.Finset.Card

set_option autoImplicit false

/-! # Records keep the order of insertion

Whatever has been written in the course of a run, a record is a map in the order of insertion: each
name that was written stands once among its fields, where it was written first, and holds what was
written last (`Run.insertionOrdered`). The index of the record leads from each name to the field's
place, and from no other name to any.

What was put into a record is read off the transitions (`entered`). Since a move does one thing to
the data at most (`Alters`), it is enough to say what each of these things enters into a record
(`Enters`): observing a value enters nothing, even if it makes fields of the record reactive, and
the others enter the one field that they write.
-/

namespace DataBinding

open State

/-! ## What is put into a record -/

namespace State

/-- A write as far as it concerns one record: the name and the value, if the field belongs to the
record. Into a record that is not there nothing is put. -/
def entryOf (st : State) (r : RecordId) (w : Slot × Value) : Option (String × Value) :=
  if w.1.record = r ∧ r.index < st.records.size then some (w.1.key, w.2) else none

variable {free : Prop} {st st' : State} {r : RecordId} {p : Slot} {v : Value}
  {w? : Option (Slot × Value)} {e? : Option (String × Value)}

/-- From `st` to `st'` the entry `e?`, if it is one, was put into the record `r`. -/
structure Enters (r : RecordId) (e? : Option (String × Value)) (st st' : State) : Prop where
  kept : e? = none → (st'.records.get r).fields.keys = (st.records.get r).fields.keys
  /-- A name that is not in use goes to the end. -/
  inserted : ∀ key v, e? = some (key, v) → (st'.records.get r).fields.keys =
    if key ∈ (st.records.get r).fields.keys then (st.records.get r).fields.keys
    else (st.records.get r).fields.keys ++ [key]
  written : ∀ key v, e? = some (key, v) → (st'.content ⟨r, key⟩).same v = true
  others : ∀ key, e?.map Prod.fst ≠ some key → st'.content ⟨r, key⟩ = st.content ⟨r, key⟩

namespace Enters

theorem of_eq (hkeys : (st'.records.get r).fields.keys = (st.records.get r).fields.keys)
    (hcontent : ∀ key, st'.content ⟨r, key⟩ = st.content ⟨r, key⟩) :
    Enters r none st st' :=
  ⟨fun _ => hkeys, nofun, nofun, fun key _ => hcontent key⟩

/-- The states before and after matter for their records and cells only. -/
theorem congr {base done : State} (h : Enters r e? base done) (hbefore : SameGraph st base)
    (hafter : SameGraph done st') : Enters r e? st st' := by
  have hkeys : (base.records.get r).fields.keys = (st.records.get r).fields.keys := by
    rw [hbefore.records]
  have hkeys' : (st'.records.get r).fields.keys = (done.records.get r).fields.keys := by
    rw [hafter.records]
  refine ⟨fun he => ?_, fun key v he => ?_, fun key v he => ?_, fun key he => ?_⟩
  · rw [hkeys', h.kept he, hkeys]
  · rw [hkeys', h.inserted key v he, hkeys]
  · rw [hafter.content]
    exact h.written key v he
  · rw [hafter.content, h.others key he, hbefore.content]

theorem mem_keys {key : String} (h : Enters r e? st st')
    (hkey : key ∈ (st.records.get r).fields.keys) :
    key ∈ (st'.records.get r).fields.keys := by
  cases e? with
  | none => rwa [h.kept rfl]
  | some e =>
      rw [h.inserted e.1 e.2 rfl]
      split
      · exact hkey
      · exact List.mem_append_left _ hkey

/-- A field was put into its record, plain or reactive. -/
theorem of_put
    (hkeys : (st'.records.get r).fields.keys =
      if p.record = r ∧ r.index < st.records.size then
        if p.key ∈ (st.records.get r).fields.keys then (st.records.get r).fields.keys
        else (st.records.get r).fields.keys ++ [p.key]
      else (st.records.get r).fields.keys)
    (hcontent : ∀ q, st'.content q =
      if p = q ∧ p.record.index < st.records.size then v else st.content q) :
    Enters r (st.entryOf r (p, v)) st st' := by
  by_cases hp : p.record = r ∧ r.index < st.records.size
  · rw [if_pos hp] at hkeys
    rw [entryOf, if_pos hp]
    obtain ⟨rfl, hsize⟩ := hp
    refine ⟨nofun, ?_, ?_, fun key he => ?_⟩
    · rintro key v ⟨⟩
      exact hkeys
    · rintro key v ⟨⟩
      rw [hcontent, if_pos ⟨rfl, hsize⟩]
      exact Value.same_self v
    · refine (hcontent _).trans (if_neg ?_)
      rintro ⟨hq, -⟩
      exact he (congrArg (fun q : Slot => some q.key) hq)
  · rw [if_neg hp] at hkeys
    rw [entryOf, if_neg hp]
    refine .of_eq hkeys fun key => (hcontent _).trans (if_neg ?_)
    rintro ⟨rfl, hsize⟩
    exact hp ⟨rfl, hsize⟩

/-- A reactive field was given a value. -/
theorem of_writesOnly (h : WritesOnly st st' p v) (hp : (st.field? p).isSome) :
    Enters r (st.entryOf r (p, v)) st st' := by
  have hkey : p.key ∈ (st.records.get p.record).fields.keys := isSome_field?_iff.mp hp
  by_cases hr : p.record = r ∧ r.index < st.records.size
  · rw [entryOf, if_pos hr]
    obtain ⟨rfl, -⟩ := hr
    refine ⟨nofun, ?_, ?_, fun key he => ?_⟩
    · rintro key v ⟨⟩
      rw [if_pos hkey]
      exact h.keys _
    · rintro key v ⟨⟩
      rcases h.written with hv | ⟨hsame, rfl⟩
      · exact hv ▸ Value.same_self v
      · exact hsame
    · refine h.others _ fun hq => he ?_
      exact congrArg (fun q : Slot => some q.key) hq.symm
  · rw [entryOf, if_neg hr]
    refine .of_eq (h.keys r) fun key => h.others _ ?_
    rintro rfl
    exact hr ⟨rfl, lt_size_of_field? hp⟩

end Enters

theorem enters_putField (p : Slot) (v : Value) :
    Enters r (st.entryOf r (p, v)) st (st.putField p (.plain v)) :=
  .of_put (keys_putField st p _ r) fun q => content_putField st p q _

theorem enters_defineCell (h : Celled st) (p : Slot) (v : Value) :
    Enters r (st.entryOf r (p, v)) st (st.defineCell p v).2 := by
  -- Observing the value enters nothing, even if it makes this very field reactive.
  let observed := st.observeValue v
  have hdone : (st.defineCell p v).2 = observed.withCell p v := rfl
  have hconv := onlyConverts_observeValue h v
  rw [hdone]
  refine .of_put ?_ fun q => ?_
  · have hkeys := keys_putField (observed.newCell p.key v).2 p
      (.reactive (observed.newCell p.key v).1) r
    have hrecords : (observed.newCell p.key v).2.records = observed.records := rfl
    rw [hrecords, hconv.keys, hconv.size] at hkeys
    exact hkeys
  · have hcontent := content_withCell hconv.celled p q v
    rw [hconv.size, hconv.content] at hcontent
    exact hcontent

theorem enters_assignUnheld (h : Celled st) {c : CellId} (hc : ∀ p, st.cell? p ≠ some c)
    (v : Value) : Enters r none st (st.assign c v) := by
  cases hdiffers : st.differs c v with
  | false =>
      rw [assign_of_same hdiffers]
      exact .of_eq rfl fun _ => rfl
  | true =>
      have hconv := onlyConverts_observeValue (h.store c v) v
      have hgraph : SameGraph ((st.store c v).observeValue v) (st.assign c v) := by
        rw [assign_of_differs hdiffers]
        exact (onlySubscriptions_report _ _).graph.trans (onlySubscriptions_notify _ _).graph
      refine .of_eq ?_ fun key => ?_
      · rw [hgraph.records, hconv.keys]
        rfl
      · rw [hgraph.content, hconv.content, h.content_store, if_neg (hc _)]

/-- Each thing that may be done to the data enters what it writes, and nothing else. -/
theorem DataStep.enters (h : DataStep free st w? st') (hcelled : Celled st) (r : RecordId) :
    Enters r (w?.bind (st.entryOf r)) st st' := by
  cases h with
  | stay => exact .of_eq rfl fun _ => rfl
  | newRecord =>
      have hget : st.newRecord.2.records.get r = st.records.get r :=
        Table.get_alloc_default st.records r
      refine .of_eq (by rw [hget]) fun key => ?_
      rw [content, content, State.field?, hget]
      rfl
  | putField p v hp => exact enters_putField p v
  | assign p c v hp hv =>
      refine .of_writesOnly (writesOnly_assign hcelled hp v) ?_
      rw [cell?_eq_some.mp hp]
      rfl
  | assignUnheld c v hc hv => exact enters_assignUnheld hcelled hc v
  | observe v hv =>
      have hconv := onlyConverts_observeValue hcelled v
      exact .of_eq (hconv.keys r) fun key => hconv.content _
  | define p v hp hv => exact enters_defineCell hcelled p v

theorem Alters.enters (h : Alters free st w? st') (hcelled : Celled st) (r : RecordId) :
    Enters r (w?.bind (st.entryOf r)) st st' := by
  obtain ⟨base, done, hbefore, hstep, hafter⟩ := h
  have hentry : base.entryOf r = st.entryOf r := by
    funext w
    rw [entryOf, hbefore.records, entryOf]
  have henters := (hstep.enters (hcelled.of_sameGraph hbefore) r).congr hbefore hafter
  rwa [hentry] at henters

end State

/-! ## What was put into a record in a run -/

/-- What a transition puts into a record, if it puts something there. -/
def Transition.entered? (r : RecordId) (t : Transition) : Option (String × Value) :=
  t.write?.bind (t.before.entryOf r)

/-- All that was put into a record in the course of a run, the newest first: names with values. -/
def entered (r : RecordId) (ts : List Transition) : List (String × Value) :=
  ts.filterMap (·.entered? r)

variable {ts : List Transition} {st : State}

theorem entered_cons (r : RecordId) (t : Transition) (ts : List Transition) :
    entered r (t :: ts) = (t.entered? r).toList ++ entered r ts := by
  rw [entered, List.filterMap_cons]
  cases t.entered? r <;> rfl

theorem Run.enters {m : Move} (h : Run ts st) (possible : m.isPossible st = true) (r : RecordId) :
    Enters r (Transition.entered? r ⟨st, m⟩) st (m.run st) := by
  have halters : Alters True st _ (m.run st) := Transition.alters ⟨st, m⟩ possible (.inl trivial)
  exact halters.enters h.graph.celled r

/-- A name is added behind the others, unless it is there already. -/
theorem eraseDups_concat (names : List String) (key : String) :
    (names ++ [key]).eraseDups =
      if key ∈ names.eraseDups then names.eraseDups else names.eraseDups ++ [key] := by
  rw [List.eraseDups_append]
  by_cases hkey : key ∈ names
  · simp [List.removeAll, hkey]
  · simp [List.removeAll, hkey, List.eraseDups_cons]

/-- The names that were entered, each where it came first, are those of the fields. -/
theorem Run.keys_eq (h : Run ts st) (r : RecordId) :
    (st.records.get r).fields.keys = ((entered r ts).map Prod.fst).reverse.eraseDups := by
  induction h with
  | start => rfl
  | @move ts st m h possible ih =>
      have henters := h.enters possible r
      rw [entered_cons]
      cases hentry : Transition.entered? r ⟨st, m⟩ with
      | none => exact (henters.kept hentry).trans ih
      | some e =>
          rw [henters.inserted e.1 e.2 hentry, ih, Option.toList_some, List.singleton_append,
            List.map_cons, List.reverse_cons, eraseDups_concat]

/-- A field holds what was written last under its name. -/
theorem Run.content_same (h : Run ts st) (r : RecordId) {key : String} {v : Value}
    (hlast : (entered r ts).lookup key = some v) : (st.content ⟨r, key⟩).same v = true := by
  induction h with
  | start => cases hlast
  | @move ts st m h possible ih =>
      have henters := h.enters possible r
      rw [entered_cons] at hlast
      cases hentry : Transition.entered? r ⟨st, m⟩ with
      | none =>
          rw [hentry] at hlast
          rw [henters.others key (by rw [hentry]; nofun)]
          exact ih hlast
      | some e =>
          obtain ⟨key', v'⟩ := e
          rw [hentry, Option.toList_some, List.singleton_append, List.lookup_cons] at hlast
          by_cases hkey : key = key'
          · subst hkey
            obtain rfl : v' = v := by simpa using hlast
            exact henters.written key v' hentry
          · have hdiffers : (key == key') = false := by simpa using hkey
            rw [hdiffers] at hlast
            rw [henters.others key fun h => ?_]
            · exact ih hlast
            · rw [hentry] at h
              exact hkey (Option.some.inj h).symm

/-! ## Records as maps -/

/-- The name of a field is read as such, even if it has dots in it. -/
theorem State.read_eq_content {r : RecordId} {key : String}
    (h : key ∈ (st.records.get r).fields.keys) : st.read r key = st.content ⟨r, key⟩ := by
  have hfield : (st.field? ⟨r, key⟩).isSome := isSome_field?_iff.mpr h
  rw [State.read, trail, if_pos hfield]
  rfl

/-- What the record `r` is in the state `st`, to which the transitions `ts` have led: a map in the
order of insertion of all that was put into it. -/
structure InsertionOrdered (ts : List Transition) (st : State) (r : RecordId) : Prop where
  /-- No name has two fields. -/
  distinct : (st.records.get r).fields.keys.Nodup
  /-- The index has one entry for every field, and no others. -/
  index : (st.records.get r).index.Perm (st.records.get r).fields.keys.zipIdx
  /-- It leads from a name to the field of that name. -/
  place : ∀ key i, (st.records.get r).index.lookup key = some i ↔
    ∃ f, (st.records.get r).fields[i]? = some (key, f)
  /-- The names stand in the order in which they came first. -/
  keys : (st.records.get r).fields.keys = ((entered r ts).map Prod.fst).reverse.eraseDups
  /-- There are as many fields as different names. -/
  length : (st.records.get r).fields.length = ((entered r ts).map Prod.fst).toFinset.card
  contains : ∀ key,
    (st.records.get r).contains key = true ↔ key ∈ (entered r ts).map Prod.fst
  /-- What was written last under a name is read there. -/
  read : ∀ key v, (entered r ts).lookup key = some v → (st.read r key).same v = true
  /-- A move that puts nothing there under a name leaves what is read there as it is. -/
  undisturbed : ∀ m key, m.isPossible st = true → (st.records.get r).contains key = true →
    (Transition.entered? r ⟨st, m⟩).map Prod.fst ≠ some key →
      (m.run st).read r key = st.read r key

/-- In any run every record is a map in the order of insertion. -/
theorem Run.insertionOrdered (h : Run ts st) (r : RecordId) : InsertionOrdered ts st r := by
  let b := st.records.get r
  have hkeys := h.keys_eq r
  have hmem : ∀ key, key ∈ b.fields.keys ↔ key ∈ (entered r ts).map Prod.fst := by
    intro key
    rw [hkeys, List.mem_eraseDups, List.mem_reverse]
  refine ⟨b.distinct, b.indexed, b.lookup_index_iff, hkeys, ?_, fun key => ?_,
    fun key v hlast => ?_, fun m key possible hkey hother => ?_⟩
  · have hnames : b.fields.keys.toFinset = ((entered r ts).map Prod.fst).toFinset :=
      List.toFinset.ext hmem
    rw [← hnames, List.toFinset_card_of_nodup b.distinct, Fields.keys, List.length_map]
  · rw [b.contains_iff, hmem]
  · have hkey : key ∈ b.fields.keys := by
      obtain ⟨later, earlier, hsplit, -⟩ := List.lookup_eq_some_iff.mp hlast
      rw [hmem, hsplit]
      simp
    rw [read_eq_content hkey]
    exact h.content_same r hlast
  · have henters := h.enters possible r
    have hbefore := (b.contains_iff key).mp hkey
    rw [read_eq_content hbefore, read_eq_content (henters.mem_keys hbefore)]
    exact henters.others key hother

/-- Two records that hold each other. Making a field of the first one reactive by force observes the
second one, and with it the first one, before the field is put there. Then names are written again:
one in a cell, one in a plain field that came in late, and one along a path through both records. -/
def writtenAgain : List Move :=
  [.operate .newRecord, .operate .newRecord,
    .operate (.writeField ⟨⟨0⟩, "name"⟩ (.text "Ada")),
    .operate (.writeField ⟨⟨0⟩, "friend"⟩ (.record ⟨1⟩)),
    .operate (.writeField ⟨⟨1⟩, "friend"⟩ (.record ⟨0⟩)),
    .operate (.writeField ⟨⟨0⟩, "name"⟩ (.text "Eve")),
    .operate (.define ⟨⟨0⟩, "mentor"⟩ (.record ⟨1⟩)),
    .operate (.writeField ⟨⟨0⟩, "age"⟩ (.text "36")),
    .operate (.writeField ⟨⟨0⟩, "mentor"⟩ .null),
    .operate (.define ⟨⟨0⟩, "age"⟩ (.text "37")),
    .operate (.writePath ⟨1⟩ "friend.name" (.text "Zoe"))]

theorem insertionOrdered_writtenAgain :
    InsertionOrdered (played [] {} writtenAgain) (({} : State).play writtenAgain) ⟨0⟩ :=
  Run.insertionOrdered (Run.play .start writtenAgain (by decide +kernel)) ⟨0⟩

example :
    let b := (({} : State).play writtenAgain).records.get ⟨0⟩
    b.fields.keys = ["name", "friend", "mentor", "age"] ∧ b.index.lookup "mentor" = some 2 ∧
      (({} : State).play writtenAgain).read ⟨0⟩ "name" = .text "Zoe" ∧
      (entered ⟨0⟩ (played [] {} writtenAgain)).map Prod.fst =
        ["name", "age", "mentor", "age", "mentor", "name", "friend", "name"] := by
  decide +kernel

end DataBinding
