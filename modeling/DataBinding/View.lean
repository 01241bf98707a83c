import DataBinding.Node

set_option autoImplicit false

/-! # Views

A view is a data record bound to a node tree. It keeps what it attached, as a list of bindings,
so that all of it can be detached again. Listeners of a view act only while the view is alive,
that is, while somebody holds it.
-/

namespace DataBinding

/-- Why something was refused. -/
inductive Fault where
  /-- No root was named for a view. -/
  | missingRoot
  /-- No element matches the selector of a view's root. -/
  | rootNotFound (selector : String)
  /-- A view has no method of this name. -/
  | missingMethod (name : String)
  deriving DecidableEq, Repr, Inhabited

namespace Fault

def message : Fault → String
  | .missingRoot => "no root element was configured"
  | .rootNotFound selector => "root element `" ++ selector ++ "` was not found"
  | .missingMethod name => "method `" ++ name ++ "` is not defined"

end Fault

/-- Where a listener is attached. -/
structure Attachment where
  node : NodeId
  event : String
  number : Nat
  deriving DecidableEq, Repr, Inhabited

/-- Everything that one directive or interpolation attached. -/
structure Binding where
  watchers : List SubscriberId := []
  listeners : List Attachment := []
  deriving DecidableEq, Repr, Inhabited

/-- The methods of a view, by name. -/
abbrev Methods := List (String × Callback)

namespace Methods

/-- Adds a method; one of the same name is replaced. -/
def put : Methods → String → Callback → Methods
  | [], name, c => [(name, c)]
  | (n, d) :: rest, name, c => if n = name then (n, c) :: rest else (n, d) :: put rest name c

/-- The methods of a list, the last of each name. -/
def ofList (l : List (String × Callback)) : Methods := l.foldl (fun m e => m.put e.1 e.2) []

end Methods

structure View where
  root : NodeId := default
  data : RecordId := default
  methods : Methods := []
  /-- The names of the data fields when the view was made. -/
  keys : List String := []
  bindings : List Binding := []
  holders : Nat := 0
  deriving DecidableEq, Repr, Inhabited

end DataBinding
