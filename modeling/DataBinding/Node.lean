import DataBinding.Subscriber

set_option autoImplicit false

/-! # Nodes

A node of the tree is an element, a text or something else (a comment). Every node carries a
text of its own, a form value, attributes in the order of their addition, the identities of its
children, and a table of listeners. A listener is addressed by its event and a number; numbers
are given out in ascending order and never twice, so a removed listener cannot be mistaken for
a later one.
-/

namespace DataBinding

inductive NodeKind where
  | element | text | other
  deriving DecidableEq, Repr, Inhabited

structure Attribute where
  name : String
  value : String
  deriving DecidableEq, Repr, Inhabited

/-- What a listener does. -/
inductive Action where
  /-- Writes the node's form value to a path of a view's data. -/
  | edit (view : ViewId) (key : String)
  /-- Calls a method of a view. -/
  | invoke (view : ViewId) (method : String)
  /-- Calls the host. -/
  | call (c : Callback)
  deriving DecidableEq, Repr, Inhabited

structure Listener where
  event : String
  number : Nat
  action : Action
  deriving DecidableEq, Repr, Inhabited

structure Node where
  kind : NodeKind
  tag : String
  text : String := ""
  value : String := ""
  /-- How often the form value was set from outside; typing does not count. -/
  valueWrites : Nat := 0
  attributes : List Attribute := []
  children : List NodeId := []
  listeners : List Listener := []
  /-- The number of the next listener. -/
  nextListener : Nat := 0
  deriving DecidableEq, Repr, Inhabited

namespace Node

def element (tag : String) : Node := { kind := .element, tag }

def ofText (text : String) : Node := { kind := .text, tag := "#text", text }

def comment (text : String) : Node := { kind := .other, tag := "#comment", text }

/-! ## Attributes -/

/-- The value of the attribute `name`, if the node has it. -/
def attribute? (n : Node) (name : String) : Option String :=
  (n.attributes.find? (·.name = name)).map Attribute.value

/-- Sets an attribute in its place in the list, or adds it at the end. -/
def putAttribute (name value : String) : List Attribute → List Attribute
  | [] => [⟨name, value⟩]
  | a :: rest =>
    if a.name = name then { a with value } :: rest else a :: putAttribute name value rest

def setAttribute (n : Node) (name value : String) : Node :=
  { n with attributes := putAttribute name value n.attributes }

/-! ## Form value -/

/-- Sets the form value from outside. -/
def setValue (n : Node) (value : String) : Node :=
  { n with value, valueWrites := n.valueWrites + 1 }

/-- Sets the form value as typing does. -/
def typeValue (n : Node) (value : String) : Node := { n with value }

/-! ## Listeners -/

/-- Adds a listener under the number `nextListener`. -/
def addListener (n : Node) (event : String) (action : Action) : Node :=
  { n with
    listeners := n.listeners ++ [⟨event, n.nextListener, action⟩]
    nextListener := n.nextListener + 1 }

/-- Removes the listener with this event and number, if it is there. -/
def removeListener (n : Node) (event : String) (number : Nat) : Node :=
  { n with listeners := n.listeners.filter fun l => !(l.event = event && l.number = number) }

/-- The listeners for an event, in the order of their addition. -/
def listenersFor (n : Node) (event : String) : List Listener :=
  n.listeners.filter (·.event = event)

end Node

end DataBinding
