import DataBinding.State
import DataBinding.Node.Selector

set_option autoImplicit false

/-! # The node tree

The children of a node are nodes again. Walks down the tree are given a depth; the number of
nodes is always enough, because no path down a tree meets a node twice.
-/

namespace DataBinding.State

def node (st : State) (n : NodeId) : Node := (st.nodes.get? n).getD (Node.ofText "")

/-- A depth that no walk down the tree exceeds. -/
def height (st : State) : Nat := st.nodes.size

/-! ## Text -/

/-- The text of a node, read down to a depth: that of an element is the text of its children,
that of a text is its own, and that of anything else is empty. -/
def textWithin (st : State) : Nat → NodeId → String
  | 0, _ => ""
  | depth + 1, n =>
    match (st.node n).kind with
    | .element => String.join ((st.node n).children.map (st.textWithin depth))
    | .text => (st.node n).text
    | .other => ""

/-- The text of a node. -/
def textContent (st : State) (n : NodeId) : String := st.textWithin st.height n

/-- Gives a node a text. The children of an element give way to one new text node, or to
nothing if the text is empty; any other node gets a new text of its own. -/
def setText (st : State) (n : NodeId) (text : String) : State :=
  match (st.node n).kind with
  | .element =>
    if text = "" then st.updateNode n fun b => { b with children := [] }
    else
      let (t, st) := st.newNode (.ofText text)
      st.updateNode n fun b => { b with children := [t] }
  | _ => st.updateNode n fun b => { b with text }

/-- Adds a child at the end. -/
def appendChild (st : State) (n child : NodeId) : State :=
  st.updateNode n fun b => { b with children := b.children ++ [child] }

/-! ## Search -/

/-- The first node in document order, from `n` down to a depth, that satisfies `p`. -/
def findWithin (st : State) (p : NodeId → Bool) : Nat → NodeId → Option NodeId
  | 0, _ => none
  | depth + 1, n =>
    if p n then some n
    else (st.node n).children.findSome? (st.findWithin p depth)

/-- The first node in document order, from `n` down, that satisfies `p`. -/
def findNode? (st : State) (p : NodeId → Bool) (n : NodeId) : Option NodeId :=
  st.findWithin p st.height n

/-- The same for a property that depends on what the node itself holds. -/
def find? (st : State) (p : Node → Bool) (n : NodeId) : Option NodeId :=
  st.findNode? (fun m => p (st.node m)) n

/-- The first element in document order, from `n` down, that the selector picks. -/
def select? (st : State) (s : Selector) (n : NodeId) : Option NodeId :=
  st.find? (·.isPicked s) n

/-! ## Events -/

/-- How many listeners a node has for an event. To dispatch the event answers with this number. -/
def listenerCount (st : State) (n : NodeId) (event : String) : Nat :=
  ((st.node n).listenersFor event).length

/-- Sets out to run the listeners of a node for an event: those that are there now, in order. -/
def dispatch (st : State) (n : NodeId) (event : String) : State :=
  st.push (((st.node n).listenersFor event).map fun l => .act n l.action)

/-- Types a value into a node: sets its form value and dispatches `input`. -/
def typeInto (st : State) (n : NodeId) (value : String) : State :=
  (st.updateNode n (·.typeValue value)).dispatch n "input"

end DataBinding.State
