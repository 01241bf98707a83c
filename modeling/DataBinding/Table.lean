set_option autoImplicit false

/-! # Identities and tables

Records, cells, channels, subscribers, nodes and views have an identity: two handles to one of
them see the same changes. An `Id k` names an entity of the kind `k`, and a `Table k α` holds
what is known of each. Entities are only ever added, so an identity stays good for ever and a
fresh one (`Table.alloc`) differs from all earlier ones.

The table is described by `Table.get?`: `get?_modify` and `get?_alloc` say what the two
operations do to it.
-/

namespace DataBinding

/-- What an identity names. -/
inductive Kind where
  | record | cell | channel | subscriber | node | view
  deriving DecidableEq, Repr

/-- The identity of an entity of kind `k`. -/
structure Id (k : Kind) where
  index : Nat
  deriving DecidableEq, Repr, Inhabited

abbrev RecordId := Id .record
abbrev CellId := Id .cell
abbrev ChannelId := Id .channel
abbrev SubscriberId := Id .subscriber
abbrev NodeId := Id .node
abbrev ViewId := Id .view

/-- Identities are compared by one and the same test, whichever kind they are of. -/
instance (k : Kind) : LawfulBEq (Id k) := inferInstance

/-- The entities of one kind, by identity. -/
structure Table (k : Kind) (α : Type) where
  entries : Array α := #[]

namespace Table

variable {k : Kind} {α : Type}

instance : Inhabited (Table k α) := ⟨{}⟩

/-- How many entities there are. -/
def size (t : Table k α) : Nat := t.entries.size

/-- The identity that the next entity gets. -/
def fresh (t : Table k α) : Id k := ⟨t.size⟩

/-- What is known of `i`; `none` when no entity has that identity. -/
def get? (t : Table k α) (i : Id k) : Option α := t.entries[i.index]?

/-- What is known of `i`, and the default when no entity has that identity. -/
def get [Inhabited α] (t : Table k α) (i : Id k) : α := (t.get? i).getD default

/-- Adds an entity under the identity `fresh`. -/
def alloc (t : Table k α) (a : α) : Table k α := ⟨t.entries.push a⟩

/-- Changes what is known of `i`; without effect when no entity has that identity. -/
def modify (t : Table k α) (i : Id k) (f : α → α) : Table k α := ⟨t.entries.modify i.index f⟩

/-- All identities in the table, oldest first. -/
def ids (t : Table k α) : List (Id k) := (List.range t.size).map Id.mk

theorem get?_modify (t : Table k α) (i j : Id k) (f : α → α) :
    (t.modify i f).get? j = if i = j then (t.get? j).map f else t.get? j := by
  cases i with | mk i => cases j with | mk j =>
  simp only [get?, modify, Array.getElem?_modify, Id.mk.injEq]

theorem get?_modify_eq (t : Table k α) (i : Id k) (f : α → α) :
    (t.modify i f).get? i = (t.get? i).map f := by
  simp [get?_modify]

theorem get?_modify_ne (t : Table k α) {i j : Id k} (h : i ≠ j) (f : α → α) :
    (t.modify i f).get? j = t.get? j := by
  simp [get?_modify, h]

theorem get?_alloc (t : Table k α) (a : α) (j : Id k) :
    (t.alloc a).get? j = if j = t.fresh then some a else t.get? j := by
  cases j with | mk j =>
  simp only [get?, alloc, fresh, size, Id.mk.injEq, Array.getElem?_push]

@[simp] theorem size_modify (t : Table k α) (i : Id k) (f : α → α) :
    (t.modify i f).size = t.size := by
  simp [size, modify]

@[simp] theorem size_alloc (t : Table k α) (a : α) : (t.alloc a).size = t.size + 1 := by
  simp [size, alloc]

/-- An identity is in use exactly when it is older than the next one. -/
theorem isSome_get?_iff (t : Table k α) (i : Id k) : (t.get? i).isSome ↔ i.index < t.size := by
  simp [get?, size]

theorem mem_ids_iff (t : Table k α) (i : Id k) : i ∈ t.ids ↔ i.index < t.size := by
  cases i with | mk i =>
  simp [ids]

end Table

end DataBinding
