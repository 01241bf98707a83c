import DataBinding.Mounting

set_option autoImplicit false

/-! # Inspection

Texts that show how things are built, for a developer's eyes: every value names its kind, texts
are quoted, and a record shows its field names only, since it may contain itself.
-/

namespace DataBinding

namespace Inspection

/-- A name with named parts in braces. -/
def named (name : String) (parts : List (String × String)) : String :=
  name ++ " \x7b " ++ ", ".intercalate (parts.map fun p => p.1 ++ ": " ++ p.2) ++ " \x7d"

/-- A name with one part in parentheses. -/
def wrapped (name part : String) : String := name ++ "(" ++ part ++ ")"

/-- A list in brackets. -/
def listed (parts : List String) : String := "[" ++ ", ".intercalate parts ++ "]"

def ofBool (b : Bool) : String := if b then "true" else "false"

def ofKeys (keys : List String) : String := listed (keys.map Text.quote)

end Inspection

namespace State

open Inspection

def inspectRecord (st : State) (r : RecordId) : String :=
  let record := st.records.get r
  named "Object" [("keys", ofKeys record.fields.keys), ("observed", ofBool record.observed)]

mutual

def inspectValue (st : State) : Value → String
  | .undefined => "Undefined"
  | .null => "Null"
  | .bool b => wrapped "Bool" (ofBool b)
  | .number n => wrapped "Number" n.inspect
  | .text s => wrapped "String" (Text.quote s)
  | .array _ items => wrapped "Array" (listed (st.inspectItems items))
  | .record r => wrapped "Object" (st.inspectRecord r)

def inspectItems (st : State) : List Value → List String
  | [] => []
  | v :: vs => st.inspectValue v :: st.inspectItems vs

end

def inspectChannel (st : State) (c : ChannelId) : String :=
  named "DependencySet" [("subscribers", Nat.repr (st.channels.get c).length)]

def inspectCell (st : State) (c : CellId) : String :=
  let cell := st.cells.get c
  named "ObservableProperty"
    [("key", Text.quote cell.key), ("dependencies", st.inspectChannel cell.channel)]

def inspectWatcher (st : State) (s : SubscriberId) : String :=
  match st.watcher? s with
  | some w => named "Watcher" [("key", Text.quote w.path), ("value", st.inspectValue w.seen)]
  | none => ""

def inspectNode (st : State) (n : NodeId) : String :=
  named "MemoryNode"
    [("tag", Text.quote (st.node n).tag), ("text", Text.quote (st.textContent n))]

def inspectBinding (st : State) (b : Binding) : String :=
  named "Binding"
    [("watchers", listed (b.watchers.map st.inspectWatcher)),
     ("listeners", Nat.repr b.listeners.length)]

def inspectView (st : State) (v : ViewId) : String :=
  let view := st.view v
  named "Instance"
    [("keys", ofKeys view.keys), ("methods", Nat.repr view.methods.length),
     ("bindings", Nat.repr view.bindings.length)]

end State

end DataBinding
