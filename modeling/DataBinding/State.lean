import DataBinding.Event
import DataBinding.Record
import DataBinding.View

set_option autoImplicit false

/-! # The state

The state holds every entity the library knows, the journal of reported events, and the
*agenda*: what the library still has to do, first things first.

The agenda is how re-entrance is described. Notifying a channel puts one update per subscriber
at the front of the agenda; an update that concerns the host puts a `call` there. While host
code runs, its place is kept by `running`, and whatever the host sets off goes in front of that
mark. So the tasks before the first `running` belong to the operation that is under way, and
the tasks behind it wait until the host code has returned.
-/

namespace DataBinding

/-- A call to the host. -/
inductive Call where
  /-- A watcher saw a new value. -/
  | changed (c : Callback) (v : Value)
  /-- A probe was told. -/
  | notified (c : Callback)
  /-- A listener of the host heard its event. -/
  | heard (c : Callback)
  /-- A method of a view was called. -/
  | invoked (c : Callback) (view : ViewId)
  deriving DecidableEq, Repr, Inhabited

/-- Something the library still has to do. -/
inductive Task where
  /-- Tells a subscriber. -/
  | update (s : SubscriberId)
  /-- Keeps the value that a watcher has reacted to. -/
  | remember (s : SubscriberId) (v : Value)
  /-- Lets go of a subscriber. -/
  | release (s : SubscriberId)
  /-- Runs the action of a listener. -/
  | act (node : NodeId) (a : Action)
  /-- Lets go of a view. -/
  | releaseView (v : ViewId)
  /-- Calls the host. -/
  | call (c : Call)
  /-- Host code runs. -/
  | running
  deriving DecidableEq, Repr, Inhabited

structure State where
  records : Table .record Record := {}
  cells : Table .cell Cell := {}
  channels : Table .channel (List SubscriberId) := {}
  subscribers : Table .subscriber Subscriber := {}
  nodes : Table .node Node := {}
  views : Table .view View := {}
  /-- How many arrays were made. -/
  arrays : Nat := 0
  agenda : List Task := []
  journal : List Event := []
  deriving Inhabited

namespace State

/-! ## Entities -/

/-- A new array of the given items. -/
def newArray (st : State) (items : List Value) : Value × State :=
  (.array st.arrays items, { st with arrays := st.arrays + 1 })

/-- A new record without fields. -/
def newRecord (st : State) : RecordId × State :=
  (st.records.fresh, { st with records := st.records.alloc default })

/-- A new channel without subscribers. -/
def newChannel (st : State) : ChannelId × State :=
  (st.channels.fresh, { st with channels := st.channels.alloc [] })

/-- A new node. -/
def newNode (st : State) (n : Node) : NodeId × State :=
  (st.nodes.fresh, { st with nodes := st.nodes.alloc n })

/-- A new probe, held once. -/
def newProbe (st : State) (c : Callback) : SubscriberId × State :=
  (st.subscribers.fresh,
    { st with subscribers := st.subscribers.alloc { role := .probe c, holders := 1 } })

def updateNode (st : State) (n : NodeId) (f : Node → Node) : State :=
  { st with nodes := st.nodes.modify n f }

def updateWatcher (st : State) (s : SubscriberId) (f : Watcher → Watcher) : State :=
  { st with subscribers := st.subscribers.modify s (Subscriber.mapWatcher f) }

/-- The watcher of this identity, if there is one. -/
def watcher? (st : State) (s : SubscriberId) : Option Watcher :=
  (st.subscribers.get? s).bind Subscriber.watcher?

/-! ## Agenda and journal -/

/-- Puts tasks at the front of the agenda. -/
def push (st : State) (tasks : List Task) : State := { st with agenda := tasks ++ st.agenda }

/-- Reports an event. -/
def report (st : State) (e : Event) : State := { st with journal := st.journal ++ [e] }

/-! ## Fields -/

end State

/-- The place of a field: a record and a name. -/
structure Slot where
  record : RecordId
  key : String
  deriving DecidableEq, Repr, Inhabited

namespace State

/-- The field at a place, if there is one. -/
def field? (st : State) (s : Slot) : Option Field := (st.records.get s.record).field? s.key

/-- The value that a field holds. -/
def fieldValue (st : State) : Field → Value
  | .plain v => v
  | .reactive c => (st.cells.get c).value

/-- The value at a place; `undefined` when there is no field. -/
def content (st : State) (s : Slot) : Value := ((st.field? s).map st.fieldValue).getD .undefined

/-- The cell of the reactive field at a place, if there is one. -/
def cell? (st : State) (s : Slot) : Option CellId :=
  match st.field? s with
  | some (.reactive c) => some c
  | _ => none

/-- The channel of the reactive field at a place, if there is one. -/
def channel? (st : State) (s : Slot) : Option ChannelId :=
  (st.cell? s).map fun c => (st.cells.get c).channel

/-- Puts a field at a place. -/
def putField (st : State) (s : Slot) (f : Field) : State :=
  { st with records := st.records.modify s.record fun r => r.put s.key f }

theorem field?_eq_get? (st : State) (s : Slot) :
    st.field? s = (st.records.get s.record).fields.get? s.key :=
  Record.field?_eq ..

end State

end DataBinding
