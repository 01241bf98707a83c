import DataBinding.Template.Directive
import DataBinding.Template.Interpolation
import DataBinding.Watching

set_option autoImplicit false

/-! # Binding a tree

The nodes below a root are bound in document order. A text node with an interpolation and an
element with a directive are given what they ask for: first the present value is shown, then a
watcher or a listener is attached. The children of a node are looked up after the node itself
was bound, because a text binding replaces them.
-/

namespace DataBinding

/-- A state together with the bindings made so far. -/
structure Compilation where
  state : State
  bindings : List Binding := []

namespace State

def view (st : State) (v : ViewId) : View := (st.views.get? v).getD {}

/-- Adds a listener to a node and says where it is attached. -/
def listen (st : State) (n : NodeId) (event : String) (a : Action) : Attachment × State :=
  (⟨n, event, (st.node n).nextListener⟩, st.updateNode n (·.addListener event a))

/-- Takes a listener off its node. -/
def unlisten (st : State) (a : Attachment) : State :=
  st.updateNode a.node (·.removeListener a.event a.number)

/-! ## One binding -/

/-- Shows the value at a path as the text of a node, from now on. -/
def bindText (st : State) (view : ViewId) (n : NodeId) (key : String) : Binding × State :=
  let data := (st.view view).data
  let st := st.setText n (st.read data key).display
  let (s, st) := st.watch data key (.showText n)
  ({ watchers := [s] }, st)

/-- Shows the value at a path as the form value of a node, from now on, and writes the form
value back when something is typed. -/
def bindModel (st : State) (view : ViewId) (n : NodeId) (key : String) : Binding × State :=
  let data := (st.view view).data
  let st := st.updateNode n (·.setValue (st.read data key).display)
  let (s, st) := st.watch data key (.showValue n)
  let (a, st) := st.listen n "input" (.edit view key)
  ({ watchers := [s], listeners := [a] }, st)

/-- Calls a method when a node is clicked. -/
def bindClick (st : State) (view : ViewId) (n : NodeId) (method : String) : Binding × State :=
  let (a, st) := st.listen n "click" (.invoke view method)
  ({ listeners := [a] }, st)

/-! ## A node -/

/-- Binds the interpolation of a text node, if it has one. -/
def bindTextNode (view : ViewId) (n : NodeId) (c : Compilation) : Compilation :=
  match Interpolation.key? (c.state.textContent n) with
  | none => c
  | some key =>
    let (b, st) := (c.state.report (.interpolation key)).bindText view n key
    ⟨st, c.bindings ++ [b]⟩

/-- Binds what one attribute of an element asks for. -/
def bindAttribute (view : ViewId) (n : NodeId) (c : Compilation) (a : Attribute) : Compilation :=
  let key := Text.trim a.value
  let bound (p : Binding × State) : Compilation :=
    ⟨p.2.report (.directive a.name key), c.bindings ++ [p.1]⟩
  match Directive.ofName? a.name with
  | some .text => bound (c.state.bindText view n key)
  | some .model => bound (c.state.bindModel view n key)
  | some (.on event) =>
    if event = "click" then bound (c.state.bindClick view n key)
    else { c with state := c.state.report (.unsupportedEvent event) }
  | none =>
    if Directive.isMarked a.name then
      { c with state := c.state.report (.unknownDirective a.name) }
    else c

/-- Binds what a node asks for, apart from what is below it. -/
def bindNode (view : ViewId) (n : NodeId) (c : Compilation) : Compilation :=
  match (c.state.node n).kind with
  | .text => bindTextNode view n c
  | .element => (c.state.node n).attributes.foldl (bindAttribute view n) c
  | .other => c

/-! ## A tree -/

/-- Binds the nodes below a node, down to a depth. -/
def bindBelow (view : ViewId) : Nat → NodeId → Compilation → Compilation
  | 0, _, c => c
  | depth + 1, n, c =>
    (c.state.node n).children.foldl
      (fun c child => bindBelow view depth child (bindNode view child c)) c

/-- Binds everything below a root to a view. One level more than the tree had before is enough,
since all that binding adds to it is a text below an element. -/
def compile (st : State) (view : ViewId) (root : NodeId) : List Binding × State :=
  let c := bindBelow view (st.height + 1) root ⟨st, []⟩
  (c.bindings, c.state)

end State

end DataBinding
