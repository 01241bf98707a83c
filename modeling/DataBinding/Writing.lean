import DataBinding.Observation
import DataBinding.Path

set_option autoImplicit false

/-! # Writing

Assigning a new value to a cell stores it, observes it and notifies the cell's channel;
assigning the value that is there already does nothing. Writing a field assigns to its cell if
it is reactive, and otherwise just puts the value there. Writing a path writes the field that
the path names; only its last piece may be new.
-/

namespace DataBinding.State

/-- Whether a value differs from the one a cell holds. -/
def differs (st : State) (c : CellId) (v : Value) : Bool := !(st.cells.get c).value.same v

/-- Puts a value into a cell, and nothing else. -/
def store (st : State) (c : CellId) (v : Value) : State :=
  { st with cells := st.cells.modify c fun cell => { cell with value := v } }

/-- Gives a cell a value. -/
def assign (st : State) (c : CellId) (v : Value) : State :=
  if st.differs c v then
    let cell := st.cells.get c
    (((st.store c v).observeValue v).report (.changed cell.key)).notify cell.channel
  else st

/-- Writes a field of a record. -/
def writeField (st : State) (s : Slot) (v : Value) : State :=
  match st.cell? s with
  | some c => st.assign c v
  | none => st.putField s (.plain v)

/-- Writes the field that a path names. A field whose name is the whole path comes first;
otherwise what stands before the last dot must lead to a record, and what stands behind it,
trimmed, is the name of the field. -/
def writePath (st : State) (root : RecordId) (path : String) (v : Value) : State :=
  if (st.field? ⟨root, path⟩).isSome then st.writeField ⟨root, path⟩ v
  else
    match Text.splitLast '.' path.toList with
    | none => st.writeField ⟨root, Text.trim path⟩ v
    | some (parent, key) =>
      match (st.read root (String.ofList parent)).record? with
      | some r => st.writeField ⟨r, String.ofList (Text.trimChars key)⟩ v
      | none => st.report (.unwritable path)

end DataBinding.State
