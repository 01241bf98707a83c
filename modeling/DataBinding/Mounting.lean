import DataBinding.Template.Compilation

set_option autoImplicit false

/-! # Mounting

To mount a view is to find its root, observe its data and bind the tree below the root. A view
that is unmounted, or that nobody holds any longer, detaches all that it attached. Reading and
writing through a view is reading and writing its data, except that writing the value that is
there already does nothing at all.
-/

namespace DataBinding

/-- Where the root of a view comes from. -/
inductive RootChoice where
  | selector (s : String)
  | node (n : NodeId)
  deriving DecidableEq, Repr

/-- What a view is made of. -/
structure ViewOptions where
  root? : Option RootChoice := none
  data : RecordId
  methods : Methods := []

namespace State

/-- The root node that is chosen, looked up below the root of a document if there is one. -/
def resolveRoot (st : State) (document? : Option NodeId) :
    Option RootChoice → Except Fault NodeId
  | none => .error .missingRoot
  | some (.node n) => .ok n
  | some (.selector s) =>
    match document?.bind (st.select? (Selector.ofText s)) with
    | some n => .ok n
    | none => .error (.rootNotFound s)

/-- Mounts a view, which is held once. A refusal, too, comes with the state that it leaves: by then
the root has been looked for, and nothing else has been done. -/
def mount (st : State) (document? : Option NodeId) (o : ViewOptions) :
    Except Fault ViewId × State :=
  match st.resolveRoot document? o.root? with
  | .error fault => (.error fault, st)
  | .ok root =>
    let v := st.views.fresh
    let keys := (st.records.get o.data).fields.keys
    let st := st.observe o.data
    let st := { st with
      views := st.views.alloc { root, data := o.data, methods := o.methods, keys, holders := 1 } }
    let (bindings, st) := st.compile v root
    let st := st.report (.mounted bindings.length)
    (.ok v, { st with views := st.views.modify v fun b => { b with bindings } })

/-! ## Detaching -/

/-- Takes what a binding attached off channels and nodes, and lets go of its watchers. -/
def detach (st : State) (b : Binding) : State :=
  let st := b.watchers.foldl (fun st s => (st.dispose s).release s) st
  b.listeners.foldl unlisten st

/-- Lets go of the watchers of bindings and leaves all else as it is. -/
def abandon (st : State) (bs : List Binding) : State :=
  bs.foldl (fun st b => b.watchers.foldl release st) st

/-- Detaches all bindings of a view. -/
def unmount (st : State) (v : ViewId) : State :=
  let bindings := (st.view v).bindings
  bindings.foldl detach { st with views := st.views.modify v fun b => { b with bindings := [] } }

/-! ## Holding -/

/-- Whether somebody holds the view. -/
def isViewAlive (st : State) (v : ViewId) : Bool := 0 < (st.view v).holders

/-- One more holder for a living view. -/
def holdView (st : State) (v : ViewId) : State :=
  { st with
    views := st.views.modify v fun b =>
      if 0 < b.holders then { b with holders := b.holders + 1 } else b }

/-- One holder less; when the last one goes, the view is unmounted. -/
def releaseView (st : State) (v : ViewId) : State :=
  let left := (st.view v).holders - 1
  let st := { st with views := st.views.modify v fun b => { b with holders := left } }
  if 0 < left then st else st.unmount v

/-! ## Reading, writing, calling -/

/-- The value at a path of a view's data. -/
def readView (st : State) (v : ViewId) (key : String) : Value := st.read (st.view v).data key

/-- Writes a path of a view's data, unless the value is there already. -/
def writeView (st : State) (v : ViewId) (key : String) (value : Value) : State :=
  if (st.readView v key).same value then st else st.writePath (st.view v).data key value

/-- The method of a view that has this name. -/
def method? (st : State) (v : ViewId) (name : String) : Except Fault Callback :=
  match (st.view v).methods.lookup name with
  | some c => .ok c
  | none => .error (.missingMethod name)

/-- Sets out to call code of the host with a view, which is held meanwhile. -/
def callWith (st : State) (v : ViewId) (c : Callback) : State :=
  (st.holdView v).push [.call (.invoked c v), .releaseView v]

/-- Sets out to call a method of a view. -/
def callMethod (st : State) (v : ViewId) (name : String) : Except Fault Unit × State :=
  match st.method? v name with
  | .error fault => (.error fault, st)
  | .ok c => (.ok (), st.callWith v c)

end State

end DataBinding
