import DataBinding.Proofs.Graph

set_option autoImplicit false

/-! # Where reading and writing a path meet

Reading a path and writing it look for the same field in two ways. Reading follows the pieces of
the path one by one; writing reads the part before the last dot, as a path of its own, and so
takes a field whose whole name is that part before the pieces of it. When such a field leads
elsewhere, the path is *shadowed*. A path that is not shadowed is written where it is read, and
a shadowed one is not (`Run.meetsRead_iff`).
-/

namespace DataBinding

namespace State

variable {st st' : State} {p : Slot} {v : Value} {root r : RecordId} {path : String}

/-! ## What a write should do -/

/-- From `st` to `st'` the field `p` was written, and no other field. -/
structure WritesOnly (st st' : State) (p : Slot) (v : Value) : Prop where
  /-- The field holds the value, unless it held the same before: then nothing may have been done. -/
  written : st'.content p = v ∨ ((st.content p).same v = true ∧ st' = st)
  /-- It is reactive, by the same cell, exactly if it was. -/
  cell : st'.cell? p = st.cell? p
  others : ∀ q, q ≠ p → st'.content q = st.content q
  keys : ∀ r, Fields.keys (st'.records.get r).fields = Fields.keys (st.records.get r).fields

/-- From `st` to `st'` the plain field `p` was added to its record, and nothing else was done to
records and cells. -/
structure AddsOnly (st st' : State) (p : Slot) (v : Value) : Prop where
  missing : st.field? p = none
  fields : (st'.records.get p.record).fields =
    (st.records.get p.record).fields ++ [(p.key, .plain v)]
  observed : (st'.records.get p.record).observed = (st.records.get p.record).observed
  others : ∀ r, r ≠ p.record → st'.records.get r = st.records.get r
  cells : st'.cells = st.cells

/-- The record that all pieces of a path but the last lead to. -/
def holder? (st : State) : RecordId → List String → Option RecordId
  | _, [] => none
  | r, [_] => some r
  | r, key :: next :: rest =>
    (st.content ⟨r, key⟩).record?.bind fun r' => st.holder? r' (next :: rest)

/-- The last piece of a path. -/
def lastPiece (path : String) : String := (pieces path).getLastD ""

/-- Writing the path meets reading it: what is written is the field that is read; when only the
last piece of the path is missing, it is added to the record that the others lead to; and nothing
is written when the path leads nowhere. -/
def MeetsRead (st : State) (root : RecordId) (path : String) (v : Value) : Prop :=
  match (st.trail root path).target? with
  | some p => st.WritesOnly (st.writePath root path v) p v
  | none =>
    match st.holder? root (pieces path) with
    | some r => st.AddsOnly (st.writePath root path v) ⟨r, lastPiece path⟩ v
    | none => st.SameGraph (st.writePath root path v)

/-- Whether the path, which is no field's whole name, has a part before its last dot that is read
as another record than the one that the pieces of the path lead to. -/
def isShadowed (st : State) (root : RecordId) (path : String) : Bool :=
  (st.field? ⟨root, path⟩).isNone &&
    match Text.splitLast '.' path.toList with
    | none => false
    | some (parent, _) =>
      (st.read root (String.ofList parent)).record? ≠ st.holder? root (pieces path)

/-! ## Writing a field -/

theorem WritesOnly.of_sameGraph {st₁ : State} (h : WritesOnly st st₁ p v)
    (hcontent : st₁.content p = v) (hgraph : SameGraph st₁ st') : WritesOnly st st' p v := by
  have hcell : st'.cell? p = st₁.cell? p := by rw [cell?, hgraph.field?, cell?]
  refine ⟨.inl ((hgraph.content p).trans hcontent), hcell.trans h.cell, ?_, ?_⟩
  · intro q hq
    exact (hgraph.content q).trans (h.others q hq)
  · intro r
    rw [hgraph.records]
    exact h.keys r

theorem writesOnly_assign (h : Celled st) {c : CellId} (hc : st.cell? p = some c) (v : Value) :
    WritesOnly st (st.assign c v) p v := by
  unfold assign
  split
  · -- The store is seen in the field of the cell only, and observing the value is not seen.
    have hconv := onlyConverts_observeValue (h.store c v) v
    have hp : (st.store c v).content p = v := by rw [h.content_store, if_pos hc]
    have hwritten : WritesOnly st ((st.store c v).observeValue v) p v := by
      refine ⟨.inl ((hconv.content p).trans hp), ?_, ?_, hconv.keys⟩
      · rw [hc]
        exact hconv.cell p c hc
      · intro q hq
        rw [hconv.content, h.content_store, if_neg fun hqc => hq (h.own q p c hqc hc)]
    refine hwritten.of_sameGraph ((hconv.content p).trans hp) ?_
    exact ((onlySubscriptions_report _ _).trans (onlySubscriptions_notify _ _)).graph
  · rename_i hsame
    refine ⟨.inr ⟨?_, rfl⟩, rfl, fun _ _ => rfl, fun _ => rfl⟩
    rw [content_eq_of_cell? hc]
    simpa [differs] using hsame

/-- Writing a field that exists writes it alone. -/
theorem writesOnly_writeField (h : Celled st) {f : Field} (hf : st.field? p = some f) (v : Value) :
    WritesOnly st (st.writeField p v) p v := by
  unfold writeField
  cases hcell : st.cell? p with
  | some c => exact writesOnly_assign h hcell v
  | none =>
      have hsize : p.record.index < st.records.size := lt_size_of_field? (by rw [hf]; rfl)
      have hput := fun q => field?_putField st p q (.plain v)
      refine ⟨.inl ?_, ?_, ?_, ?_⟩
      · rw [content_putField, if_pos ⟨rfl, hsize⟩]
        rfl
      · rw [hcell, cell?, hput, if_pos ⟨rfl, hsize⟩]
      · intro q hq
        rw [content_putField, if_neg fun h => hq h.1.symm]
      · intro r
        rw [fields_putField]
        split
        · rename_i hr
          rw [Fields.keys_put, if_pos]
          rw [← hr.1, ← isSome_field?_iff, hf]
          rfl
        · rfl

/-- Writing a field that does not exist adds it to its record. -/
theorem addsOnly_writeField (hp : p.record.index < st.records.size) (hf : st.field? p = none)
    (v : Value) : AddsOnly st (st.writeField p v) p v := by
  have hcell : st.cell? p = none := by rw [cell?, hf]
  simp only [writeField, hcell]
  refine ⟨hf, ?_, ?_, ?_, rfl⟩
  · rw [fields_putField, if_pos ⟨rfl, hp⟩]
    exact Fields.put_of_get?_eq_none ((field?_eq_get? st p).symm.trans hf)
  · rw [putField, Table.get_modify_eq hp, Record.observed_put]
  · intro r hr
    exact Table.get_modify_ne st.records (Ne.symm hr) _

/-- An added field holds what it was added with. -/
theorem AddsOnly.content (h : AddsOnly st st' p v) : st'.content p = v := by
  have hfield : st'.field? p = some (.plain v) := by
    have hmissing : (st.records.get p.record).fields.get? p.key = none :=
      (field?_eq_get? st p).symm.trans h.missing
    rw [field?_eq_get?, h.fields, ← Fields.put_of_get?_eq_none hmissing, Fields.get?_put,
      if_pos rfl]
  exact content_eq_of_plain hfield

/-- A field of another record is not touched when one is added. -/
theorem AddsOnly.content_of_ne (h : AddsOnly st st' p v) {q : Slot} (hq : q.record ≠ p.record) :
    st'.content q = st.content q := by
  have hvalue : st'.fieldValue = st.fieldValue := by
    funext f
    cases f with
    | plain u => rfl
    | reactive c => rw [fieldValue, h.cells, fieldValue]
  rw [State.content, State.field?, h.others q.record hq, hvalue, State.content, State.field?]

/-! ## The pieces of a path -/

/-- A path without a dot is its only piece. -/
theorem pieces_of_splitLast_eq_none (h : Text.splitLast '.' path.toList = none) :
    pieces path = [Text.trim path] := by
  rw [pieces, List.splitOn_eq_singleton (Text.splitLast_eq_none_iff.mp h)]
  rfl

/-- The last piece of a path is what stands behind its last dot; the others are those of the part
before the dot. -/
theorem pieces_of_splitLast_eq_some {parent key : List Char}
    (h : Text.splitLast '.' path.toList = some (parent, key)) :
    pieces path = pieces (String.ofList parent) ++ [String.ofList (Text.trimChars key)] := by
  obtain ⟨hpath, hkey⟩ := Text.splitLast_eq_some h
  rw [pieces, hpath, List.splitOn_append_cons_self, List.map_append,
    List.splitOn_eq_singleton hkey, pieces, String.toList_ofList]
  rfl

/-! ## Where the pieces of a path lead -/

/-- A path that could be followed to its end has visited a field. -/
theorem visited_ne_nil_of_complete {keys : List String} (h : (st.follow r keys).complete = true) :
    (st.follow r keys).visited ≠ [] := by
  cases keys with
  | nil => cases h
  | cons key rest =>
      rw [follow] at h ⊢
      split at h
      · cases h
      · rename_i hsome
        rw [if_neg hsome]
        split
        · exact List.cons_ne_nil _ _
        · split
          · exact List.cons_ne_nil _ _
          · exact List.cons_ne_nil _ _

/-- The field that pieces lead to is the one that the last of them names in the record that the
others lead to. -/
theorem target?_follow (st : State) (r : RecordId) (keys : List String) :
    (st.follow r keys).target? =
      (st.holder? r keys).bind fun h =>
        if (st.field? ⟨h, keys.getLastD ""⟩).isSome then some ⟨h, keys.getLastD ""⟩ else none := by
  induction keys generalizing r with
  | nil => rfl
  | cons key rest ih =>
      rw [follow]
      simp only
      cases rest with
      | nil =>
          -- The last piece names a field of the record itself.
          cases hf : st.field? ⟨r, key⟩ with
          | none => simp [Trail.target?, holder?, hf]
          | some f => simp [Trail.target?, holder?, hf]
      | cons next rest =>
          have hlast : (key :: next :: rest).getLastD "" = (next :: rest).getLastD "" := rfl
          rw [holder?, hlast]
          cases hf : st.field? ⟨r, key⟩ with
          | none =>
              have hnone : (st.content ⟨r, key⟩).record? = none := by
                rw [content_eq_of_none hf]
                rfl
              simp [Trail.target?, hnone]
          | some f =>
              cases hnext : (st.content ⟨r, key⟩).record? with
              | none => simp [Trail.target?]
              | some r' =>
                  rw [Option.bind_some, ← ih r']
                  simp only [Option.isNone_some, Bool.false_eq_true, if_false, List.isEmpty_cons,
                    Trail.target?]
                  -- The field that is passed on the way is not the last one visited.
                  split
                  · rename_i hcomplete
                    exact List.getLast?_cons_of_ne_nil (visited_ne_nil_of_complete hcomplete)
                  · rfl

theorem Graph.holder?_lt (h : Graph st) {keys : List String} (hroot : root.index < st.records.size)
    (hr : st.holder? root keys = some r) : r.index < st.records.size := by
  induction keys generalizing root with
  | nil => cases hr
  | cons key rest ih =>
      cases rest with
      | nil =>
          cases hr
          exact hroot
      | cons next rest =>
          obtain ⟨r', hr', hlater⟩ := Option.bind_eq_some_iff.mp hr
          exact ih (h.held ⟨root, key⟩ r' hr') hlater

/-! ## Reading against writing -/

section NoWholeName

variable (hname : st.field? ⟨root, path⟩ = none)

include hname

/-- A path that is no field's whole name is read along its pieces. -/
theorem target?_trail : (st.trail root path).target? =
    (st.holder? root (pieces path)).bind fun h =>
      if (st.field? ⟨h, lastPiece path⟩).isSome then some ⟨h, lastPiece path⟩ else none := by
  rw [trail, if_neg (by simp [hname]), target?_follow]
  rfl

/-- Such a path is written in the record that is read at the part before its last dot. -/
theorem writePath_of_splitLast {parent key : List Char}
    (h : Text.splitLast '.' path.toList = some (parent, key)) (v : Value) :
    st.writePath root path v =
      match (st.read root (String.ofList parent)).record? with
      | some r => st.writeField ⟨r, lastPiece path⟩ v
      | none => st.report (.unwritable path) := by
  have hlast : lastPiece path = String.ofList (Text.trimChars key) := by
    rw [lastPiece, pieces_of_splitLast_eq_some h, List.getLastD_eq_getLast?,
      List.getLast?_concat]
    rfl
  cases hr : (st.read root (String.ofList parent)).record? with
  | some r => simp [writePath, hname, h, hr, hlast]
  | none => simp [writePath, hname, h, hr]

/-- A path that is not shadowed is written in the record that its pieces lead to. -/
theorem writePath_of_holder? (hshadow : st.isShadowed root path = false) (v : Value) :
    st.writePath root path v =
      match st.holder? root (pieces path) with
      | some r => st.writeField ⟨r, lastPiece path⟩ v
      | none => st.report (.unwritable path) := by
  cases hsplit : Text.splitLast '.' path.toList with
  | none =>
      have hpieces := pieces_of_splitLast_eq_none hsplit
      rw [writePath, if_neg (by simp [hname]), lastPiece, hpieces]
      simp only [hsplit]
      rfl
  | some parts =>
      have hsame : (st.read root (String.ofList parts.1)).record? =
          st.holder? root (pieces path) := by
        simpa [isShadowed, hname, hsplit] using hshadow
      rw [writePath_of_splitLast hname hsplit, hsame]

theorem meetsRead_of_not_shadowed (hg : Graph st) (hroot : root.index < st.records.size)
    (hshadow : st.isShadowed root path = false) (v : Value) : st.MeetsRead root path v := by
  rw [MeetsRead, target?_trail hname, writePath_of_holder? hname hshadow]
  cases hholder : st.holder? root (pieces path) with
  | none => exact (onlySubscriptions_report st _).graph
  | some r =>
      -- The last piece names a field of the record, or it is missing there.
      cases hf : st.field? ⟨r, lastPiece path⟩ with
      | some f =>
          simp only [Option.bind_some, hf, Option.isSome_some, if_true]
          exact writesOnly_writeField hg.celled hf v
      | none =>
          simp only [Option.bind_some, hf, Option.isSome_none, Bool.false_eq_true, if_false]
          exact addsOnly_writeField (hg.holder?_lt hroot hholder) hf v

/-- Where reading and writing meet, fields of other records than the one that the pieces lead to
are as they were. -/
theorem MeetsRead.content_of_ne (h : st.MeetsRead root path v) {q : Slot}
    (hq : ∀ r, st.holder? root (pieces path) = some r → q.record ≠ r) :
    (st.writePath root path v).content q = st.content q := by
  rw [MeetsRead, target?_trail hname] at h
  cases hholder : st.holder? root (pieces path) with
  | none =>
      simp only [hholder, Option.bind_none] at h
      exact h.content q
  | some r =>
      have hqr := hq r hholder
      cases hf : st.field? ⟨r, lastPiece path⟩ with
      | some f =>
          simp only [hholder, Option.bind_some, hf, Option.isSome_some, if_true] at h
          exact h.others q fun hqp => hqr (congrArg Slot.record hqp)
      | none =>
          simp only [hholder, Option.bind_some, hf, Option.isSome_none, Bool.false_eq_true,
            if_false] at h
          exact AddsOnly.content_of_ne h hqr

/-- Where reading and writing meet, what is written stands in the record that the pieces lead
to. -/
theorem MeetsRead.content_eq (h : st.MeetsRead root path v)
    (hr : st.holder? root (pieces path) = some r) :
    (st.writePath root path v).content ⟨r, lastPiece path⟩ = v ∨
      (st.content ⟨r, lastPiece path⟩).same v = true := by
  rw [MeetsRead, target?_trail hname] at h
  cases hf : st.field? ⟨r, lastPiece path⟩ with
  | some f =>
      simp only [hr, Option.bind_some, hf, Option.isSome_some, if_true] at h
      exact h.written.imp_right And.left
  | none =>
      simp only [hr, Option.bind_some, hf, Option.isSome_none, Bool.false_eq_true, if_false] at h
      exact .inl (AddsOnly.content h)

end NoWholeName

/-- No value is the same as all values. -/
theorem exists_not_same (a : Value) : ∃ v : Value, a.same v = false := by
  by_cases ha : a = .null
  · exact ⟨.undefined, by rw [ha]; rfl⟩
  · refine ⟨.null, ?_⟩
    cases a <;> simp_all [Value.same]

/-- The record that is read exists. -/
theorem Graph.read_lt (h : Graph st) (hr : (st.read root path).record? = some r) :
    r.index < st.records.size := by
  unfold read at hr
  cases htarget : (st.trail root path).target? with
  | none =>
      rw [htarget] at hr
      cases hr
  | some p =>
      rw [htarget] at hr
      exact h.held p r hr

/-- When a field is written with a value that it does not hold, it holds another one than
before. -/
theorem content_writeField_ne (hg : Graph st) (hp : p.record.index < st.records.size)
    (hv : (st.content p).same v = false) : (st.writeField p v).content p ≠ st.content p := by
  have hnew : (st.writeField p v).content p = v := by
    cases hf : st.field? p with
    | some f =>
        refine (writesOnly_writeField hg.celled hf v).written.resolve_right fun hsame => ?_
        exact Bool.false_ne_true (hv.symm.trans hsame.1)
    | none => exact (addsOnly_writeField hp hf v).content
  intro hsame
  rw [← hsame, hnew, Value.same_self] at hv
  cases hv

theorem eq_of_isShadowed (h : st.isShadowed root path = true) :
    st.field? ⟨root, path⟩ = none ∧ ∃ parent key,
      Text.splitLast '.' path.toList = some (parent, key) ∧
        (st.read root (String.ofList parent)).record? ≠ st.holder? root (pieces path) := by
  rw [isShadowed, Bool.and_eq_true, Option.isNone_iff_eq_none] at h
  refine ⟨h.1, ?_⟩
  cases hsplit : Text.splitLast '.' path.toList with
  | none => simp [hsplit] at h
  | some parts => exact ⟨parts.1, parts.2, rfl, by simpa [hsplit] using h.2⟩

/-- A shadowed path is not written where it is read, for some value: the value is put into another
record, or nowhere. -/
theorem exists_not_meetsRead (hg : Graph st) (hshadow : st.isShadowed root path = true) :
    ∃ v, ¬ st.MeetsRead root path v := by
  obtain ⟨hname, parent, key, hsplit, hne⟩ := eq_of_isShadowed hshadow
  cases hwritten : (st.read root (String.ofList parent)).record? with
  | some r =>
      -- The value is put into `r`, which the pieces do not lead to.
      obtain ⟨v, hv⟩ := exists_not_same (st.content ⟨r, lastPiece path⟩)
      refine ⟨v, fun hmeets => ?_⟩
      have hsame := hmeets.content_of_ne hname (q := ⟨r, lastPiece path⟩) (by
        rintro r' hr' rfl
        exact hne (hwritten.trans hr'.symm))
      rw [writePath_of_splitLast hname hsplit, hwritten] at hsame
      exact content_writeField_ne hg (hg.read_lt hwritten) hv hsame
  | none =>
      -- Nothing is written, while the pieces lead to a record.
      rw [hwritten] at hne
      obtain ⟨r, hr⟩ := Option.ne_none_iff_exists'.mp hne.symm
      obtain ⟨v, hv⟩ := exists_not_same (st.content ⟨r, lastPiece path⟩)
      refine ⟨v, fun hmeets => ?_⟩
      have hread := hmeets.content_eq hname hr
      rw [writePath_of_splitLast hname hsplit, hwritten] at hread
      rcases hread with hnew | hsame
      · have hold : st.content ⟨r, lastPiece path⟩ = v := hnew
        rw [hold, Value.same_self] at hv
        cases hv
      · exact Bool.false_ne_true (hv.symm.trans hsame)

/-- A path that is a field's whole name is written in that field. -/
theorem meetsRead_of_name (hg : Graph st) {f : Field} (hf : st.field? ⟨root, path⟩ = some f)
    (v : Value) : st.MeetsRead root path v := by
  have htarget : (st.trail root path).target? = some ⟨root, path⟩ := by
    simp [trail, hf, Trail.target?]
  have hwrite : st.writePath root path v = st.writeField ⟨root, path⟩ v := by
    simp [writePath, hf]
  rw [MeetsRead, htarget, hwrite]
  exact writesOnly_writeField hg.celled hf v

end State

open State

/-- In the state of any run, a path of an existing record is written where it is read, whatever
the value, exactly if it is not shadowed. -/
theorem Run.meetsRead_iff {ts : List Transition} {st : State} (h : Run ts st) {root : RecordId}
    (known : root.index < st.records.size) (path : String) :
    (∀ v, st.MeetsRead root path v) ↔ st.isShadowed root path = false := by
  constructor
  · intro hmeets
    by_contra hshadow
    obtain ⟨v, hv⟩ := exists_not_meetsRead h.graph (by simpa using hshadow)
    exact hv (hmeets v)
  · intro hshadow v
    cases hname : st.field? ⟨root, path⟩ with
    | none => exact meetsRead_of_not_shadowed hname h.graph known hshadow v
    | some f => exact meetsRead_of_name h.graph hname v

/-- A record whose field `a` holds a record with a field `b`. -/
def nested : List Move :=
  [.operate .newRecord, .operate .newRecord,
    .operate (.writeField ⟨⟨0⟩, "a"⟩ (.record ⟨1⟩)), .operate (.writeField ⟨⟨1⟩, "b"⟩ (.text "1")),
    .operate (.observe (.record ⟨0⟩))]

/-- Blanks around the pieces of a path make no difference. -/
theorem meetsRead_nested :
    (∀ v, (({} : State).play nested).MeetsRead ⟨0⟩ " a . b " v) ↔
      (({} : State).play nested).isShadowed ⟨0⟩ " a . b " = false :=
  Run.meetsRead_iff (Run.play .start nested (by decide +kernel)) (by decide +kernel) _

/-- A record with fields `a.b` and `a`, where the pieces `a` and `b` lead to another record than
the name `a.b`. -/
def shadowing : List Move :=
  [.operate .newRecord, .operate .newRecord, .operate .newRecord, .operate .newRecord,
    .operate (.writeField ⟨⟨0⟩, "a.b"⟩ (.record ⟨1⟩)),
    .operate (.writeField ⟨⟨0⟩, "a"⟩ (.record ⟨2⟩)),
    .operate (.writeField ⟨⟨2⟩, "b"⟩ (.record ⟨3⟩)),
    .operate (.writeField ⟨⟨1⟩, "c"⟩ (.text "1")),
    .operate (.writeField ⟨⟨3⟩, "c"⟩ (.text "2"))]

/-- The path `a.b.c` is read in one of the records and written in the other. So it is not so that
reading and writing a path always meet. -/
theorem not_always_meetsRead :
    ¬ ∀ (ts : List Transition) (st : State) (root : RecordId) (path : String) (v : Value),
      Run ts st → root.index < st.records.size → st.MeetsRead root path v := by
  intro h
  have hmeets := h (played [] {} shadowing) (({} : State).play shadowing) ⟨0⟩ "a.b.c" (.text "3")
    (Run.play .start shadowing (by decide +kernel)) (by decide +kernel)
  have hread := hmeets.content_eq (r := ⟨3⟩) (by decide +kernel) (by decide +kernel)
  have hnot : ¬ (((({} : State).play shadowing).writePath ⟨0⟩ "a.b.c" (.text "3")).content
      ⟨⟨3⟩, lastPiece "a.b.c"⟩ = .text "3" ∨
      ((({} : State).play shadowing).content ⟨⟨3⟩, lastPiece "a.b.c"⟩).same (.text "3") =
        true) := by
    decide +kernel
  exact hnot hread

end DataBinding
