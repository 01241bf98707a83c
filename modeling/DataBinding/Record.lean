import DataBinding.Value

set_option autoImplicit false

/-! # Records

A record is a list of named fields in the order in which they were added, no two of the same name,
together with an index that tells where the field of a name stands. A field is plain, and then
holds its value itself, or reactive, and then names the cell that holds it. Putting a field under a
name that is in use replaces the field in its place; a new name goes to the end, and its place into
the index.

Looking a name up in the index comes to the same as looking for it among the fields one by one
(`Record.field?_eq`), and so does putting a field by means of the index (`Record.fields_put`). What
is proved about records rests on the fields alone: on `Fields.get?` and `Fields.put`.
-/

namespace DataBinding

/-- A field of a record. -/
inductive Field where
  | plain (v : Value)
  | reactive (c : CellId)
  deriving DecidableEq, Repr, Inhabited

/-- Named fields in the order of their addition. -/
abbrev Fields := List (String × Field)

namespace Fields

def get? : Fields → String → Option Field
  | [], _ => none
  | (k, f) :: rest, key => if k = key then some f else get? rest key

/-- Puts a field under a name: in the place of the old one, else at the end. -/
def put : Fields → String → Field → Fields
  | [], key, field => [(key, field)]
  | (k, f) :: rest, key, field =>
    if k = key then (k, field) :: rest else (k, f) :: put rest key field

def keys (fs : Fields) : List String := fs.map Prod.fst

/-- The plain fields with their values. -/
def plain (fs : Fields) : List (String × Value) :=
  fs.filterMap fun
    | (k, .plain v) => some (k, v)
    | (_, .reactive _) => none

theorem get?_put (fs : Fields) (key key' : String) (f : Field) :
    get? (put fs key f) key' = if key = key' then some f else get? fs key' := by
  induction fs with
  | nil => simp [put, get?]
  | cons e rest ih =>
    obtain ⟨k, f'⟩ := e
    by_cases hk : k = key
    · subst hk
      by_cases h' : k = key' <;> simp [put, get?, h']
    · by_cases h' : k = key'
      · subst h'
        simp [put, get?, hk, Ne.symm hk]
      · simp [put, get?, hk, h', ih]

/-- Putting a field adds its name at the end, unless the name is in use. -/
theorem keys_put (fs : Fields) (key : String) (f : Field) :
    keys (put fs key f) = if key ∈ keys fs then keys fs else keys fs ++ [key] := by
  induction fs with
  | nil => simp [put, keys]
  | cons e rest ih =>
    obtain ⟨k, f'⟩ := e
    by_cases hk : k = key
    · subst hk
      simp [put, keys]
    · have hk' : ¬ key = k := fun h => hk h.symm
      simp only [keys] at ih
      simp only [put, hk, if_false, keys, List.map_cons, List.mem_cons, hk', false_or, ih]
      split <;> simp [*]

/-- A field of a new name is put at the end. -/
theorem put_of_get?_eq_none {fs : Fields} {key : String} {f : Field} (h : get? fs key = none) :
    put fs key f = fs ++ [(key, f)] := by
  induction fs with
  | nil => rfl
  | cons e rest ih =>
    obtain ⟨k, g⟩ := e
    rw [get?] at h
    split at h
    · cases h
    · rename_i hk
      rw [put, if_neg hk, ih h, List.cons_append]

theorem isSome_get?_iff (fs : Fields) (key : String) : (get? fs key).isSome ↔ key ∈ keys fs := by
  induction fs with
  | nil => simp [get?, keys]
  | cons e rest ih =>
    obtain ⟨k, f⟩ := e
    simp only [get?, keys, List.map_cons, List.mem_cons]
    split
    · subst k; simp
    · rename_i h
      rw [ih]
      simp only [keys, Ne.symm h, false_or]

theorem get?_eq_none_iff (fs : Fields) (key : String) : get? fs key = none ↔ key ∉ keys fs := by
  rw [← isSome_get?_iff, Option.not_isSome_iff_eq_none]

theorem nodup_keys_put {fs : Fields} (h : (keys fs).Nodup) (key : String) (f : Field) :
    (keys (put fs key f)).Nodup := by
  rw [keys_put]
  split
  · exact h
  · rename_i hkey
    refine List.nodup_append.mpr ⟨h, List.nodup_cons.mpr ⟨nofun, .nil⟩, ?_⟩
    rintro k hk _ hkey' rfl
    exact hkey (List.mem_singleton.mp hkey' ▸ hk)

/-- Another field at a place leaves the names as they are. -/
theorem keys_modify (fs : Fields) (i : Nat) (f : Field) :
    keys (fs.modify i fun e => (e.1, f)) = keys fs := by
  apply List.ext_getElem?
  intro j
  simp only [keys, List.getElem?_map, List.getElem?_modify]
  cases fs[j]? with
  | none => rfl
  | some e => split <;> rfl

section Place

variable {fs : Fields} {key : String} {i : Nat}

/-- No name but the first one stands at the first place, if no name is there twice. -/
theorem eq_zero_of_getElem?_cons {f : Field} (hdistinct : (keys ((key, f) :: fs)).Nodup)
    (h : (keys ((key, f) :: fs))[i]? = some key) : i = 0 := by
  cases i with
  | zero => rfl
  | succ j =>
    have hmem : key ∈ keys fs := List.mem_of_getElem? (by simpa [keys] using h)
    exact absurd hmem (List.nodup_cons.mp hdistinct).1

/-- The field at the place of a name is the field of that name. -/
theorem map_snd_getElem? (hdistinct : (keys fs).Nodup) (h : (keys fs)[i]? = some key) :
    (fs[i]?).map Prod.snd = get? fs key := by
  induction fs generalizing i with
  | nil => cases h
  | cons e rest ih =>
    obtain ⟨k, f⟩ := e
    rw [get?]
    by_cases hk : k = key
    · subst hk
      obtain rfl := eq_zero_of_getElem?_cons hdistinct h
      simp
    · cases i with
      | zero => exact absurd (Option.some.inj h) hk
      | succ j =>
        rw [if_neg hk, ← ih (List.nodup_cons.mp hdistinct).2 h, List.getElem?_cons_succ]

/-- A field of a name that is in use is put in the place of the old one. -/
theorem modify_eq_put (hdistinct : (keys fs).Nodup) (h : (keys fs)[i]? = some key) (f : Field) :
    fs.modify i (fun e => (e.1, f)) = put fs key f := by
  induction fs generalizing i with
  | nil => cases h
  | cons e rest ih =>
    obtain ⟨k, g⟩ := e
    rw [put]
    by_cases hk : k = key
    · subst hk
      obtain rfl := eq_zero_of_getElem?_cons hdistinct h
      simp
    · cases i with
      | zero => exact absurd (Option.some.inj h) hk
      | succ j =>
        rw [if_neg hk, ← ih (List.nodup_cons.mp hdistinct).2 h, List.modify_succ_cons]

end Place

end Fields

/-- Where the field of each name stands. -/
abbrev Index := List (String × Nat)

namespace Index

variable {index : Index} {key : String} {i : Nat}

/-- Where no name has two entries, looking a name up finds its entry. -/
theorem lookup_eq_some_iff_mem (hunique : (index.map Prod.fst).Nodup) :
    index.lookup key = some i ↔ (key, i) ∈ index := by
  induction index with
  | nil => exact ⟨nofun, nofun⟩
  | cons e rest ih =>
    obtain ⟨k, j⟩ := e
    obtain ⟨hk, hrest⟩ := List.nodup_cons.mp hunique
    rw [List.lookup_cons]
    by_cases hkey : key = k
    · subst hkey
      have hother : (key, i) ∉ rest := fun hi => hk (List.mem_map.mpr ⟨_, hi, rfl⟩)
      simp [hother, eq_comm]
    · have hdiffers : (key == k) = false := by simpa using hkey
      simp only [hdiffers, ih hrest, List.mem_cons, Prod.mk.injEq, hkey, false_and, false_or]

/-- If the index has an entry for each name, it leads from a name to where it stands. -/
theorem lookup_eq_some_iff {names : List String} (hdistinct : names.Nodup)
    (h : index.Perm names.zipIdx) : index.lookup key = some i ↔ names[i]? = some key := by
  have hunique : (index.map Prod.fst).Nodup := by
    rw [(h.map Prod.fst).nodup_iff, List.zipIdx_map_fst]
    exact hdistinct
  rw [lookup_eq_some_iff_mem hunique, h.mem_iff, List.mk_mem_zipIdx_iff_getElem?]

theorem lookup_eq_none_iff {names : List String} (hdistinct : names.Nodup)
    (h : index.Perm names.zipIdx) : index.lookup key = none ↔ key ∉ names := by
  constructor
  · intro hnone hkey
    obtain ⟨i, hi⟩ := List.mem_iff_getElem?.mp hkey
    rw [(lookup_eq_some_iff hdistinct h).mpr hi] at hnone
    cases hnone
  · intro hkey
    rw [Option.eq_none_iff_forall_ne_some]
    intro i hi
    exact hkey (List.mem_of_getElem? ((lookup_eq_some_iff hdistinct h).mp hi))

end Index

/-- A record: its fields, an index of them, and whether it is observed. -/
structure Record where
  fields : Fields := []
  index : Index := []
  observed : Bool := false
  /-- No two fields have the same name. -/
  distinct : fields.keys.Nodup := by exact List.Pairwise.nil
  /-- The index has one entry for every field, which says where it stands, and no others. -/
  indexed : index.Perm fields.keys.zipIdx := by exact List.Perm.nil
  deriving DecidableEq, Repr

/-- The record without fields. -/
instance : Inhabited Record := ⟨{}⟩

namespace Record

variable (r : Record) (key : String) (f : Field)

/-- Whether a name is in use. -/
def contains : Bool := (r.index.lookup key).isSome

/-- The field of a name, by the index. -/
def field? : Option Field :=
  (r.index.lookup key).bind fun i => (r.fields[i]?).map Prod.snd

/-- The fields after one was put: where the index says, else at the end. -/
def putFields : Fields :=
  match r.index.lookup key with
  | some i => r.fields.modify i fun e => (e.1, f)
  | none => r.fields ++ [(key, f)]

/-- The index after a field was put: a new name is given the place at the end. -/
def putIndex : Index :=
  match r.index.lookup key with
  | some _ => r.index
  | none => (key, r.fields.length) :: r.index

theorem lookup_eq_some_iff {key : String} {i : Nat} :
    r.index.lookup key = some i ↔ r.fields.keys[i]? = some key :=
  Index.lookup_eq_some_iff r.distinct r.indexed

theorem lookup_eq_none_iff {key : String} :
    r.index.lookup key = none ↔ key ∉ r.fields.keys :=
  Index.lookup_eq_none_iff r.distinct r.indexed

theorem putFields_eq : r.putFields key f = r.fields.put key f := by
  unfold putFields
  split
  · rename_i i hi
    exact Fields.modify_eq_put r.distinct (r.lookup_eq_some_iff.mp hi) f
  · rename_i hnone
    have hnew := r.lookup_eq_none_iff.mp hnone
    exact (Fields.put_of_get?_eq_none ((r.fields.get?_eq_none_iff key).mpr hnew)).symm

/-- When a field was put, the index still has one entry for every field. -/
theorem perm_putIndex : (r.putIndex key).Perm (r.putFields key f).keys.zipIdx := by
  unfold putIndex putFields
  split
  · rw [Fields.keys_modify]
    exact r.indexed
  · have hkeys : Fields.keys (r.fields ++ [(key, f)]) = r.fields.keys ++ [key] := by
      simp [Fields.keys]
    have hlast : (r.fields.keys ++ [key]).zipIdx =
        r.fields.keys.zipIdx ++ [(key, r.fields.length)] := by
      simp [Fields.keys, List.zipIdx_append]
    rw [hkeys, hlast]
    exact (r.indexed.cons _).trans (List.perm_append_singleton _ _).symm

/-- Puts a field under a name. -/
def put : Record where
  fields := r.putFields key f
  index := r.putIndex key
  observed := r.observed
  distinct := by
    rw [putFields_eq]
    exact Fields.nodup_keys_put r.distinct key f
  indexed := r.perm_putIndex key f

theorem field?_eq : r.field? key = r.fields.get? key := by
  rw [field?]
  cases hlookup : r.index.lookup key with
  | none => exact ((r.fields.get?_eq_none_iff key).mpr (r.lookup_eq_none_iff.mp hlookup)).symm
  | some i => exact Fields.map_snd_getElem? r.distinct (r.lookup_eq_some_iff.mp hlookup)

theorem contains_iff : r.contains key = true ↔ key ∈ r.fields.keys := by
  rw [contains, Option.isSome_iff_ne_none, ne_eq, r.lookup_eq_none_iff, Classical.not_not]

/-- The index leads from a name to the place of its field, and from no other name to any. -/
theorem lookup_index_iff (i : Nat) :
    r.index.lookup key = some i ↔ ∃ f, r.fields[i]? = some (key, f) := by
  rw [r.lookup_eq_some_iff, Fields.keys, List.getElem?_map, Option.map_eq_some_iff]
  constructor
  · rintro ⟨⟨_, f⟩, hf, rfl⟩
    exact ⟨f, hf⟩
  · rintro ⟨f, hf⟩
    exact ⟨(key, f), hf, rfl⟩

@[simp] theorem fields_put : (r.put key f).fields = r.fields.put key f := r.putFields_eq key f

@[simp] theorem observed_put : (r.put key f).observed = r.observed := rfl

end Record

/-- What holds the value of a reactive field: the field's name, the value, and the channel of
those who want to hear of a change. -/
structure Cell where
  key : String := ""
  value : Value := .undefined
  channel : ChannelId := default
  deriving DecidableEq, Repr, Inhabited

end DataBinding
