import DataBinding.Turn

set_option autoImplicit false

/-! # Operations

What the host can do with the library when it is free to act, as data: `Operation.run` says
what an operation makes of the state. Operations that only look at the state are left out,
since they change nothing.

The host can name only what it has got. It gets records and views by making them, and it never
gets the watchers of a view's bindings, which the view keeps to itself (`Operation.isPossible`).
-/

namespace DataBinding

/-- Something that the host does. -/
inductive Operation where
  -- Records and values
  | newArray (items : List Value)
  | newRecord
  | writeField (p : Slot) (v : Value)
  | writePath (root : RecordId) (path : String) (v : Value)
  | assign (c : CellId) (v : Value)
  | observe (v : Value)
  | define (p : Slot) (v : Value)
  -- Channels, by hand
  | newChannel
  | subscribe (c : ChannelId) (s : SubscriberId)
  | unsubscribe (c : ChannelId) (s : SubscriberId)
  | leave (sources : Sources) (s : SubscriberId)
  | leaveAbandoned (previous next : Sources) (s : SubscriberId)
  | track (t : Tracking) (root : RecordId) (path : String)
  | trackCell (t : Tracking) (c : CellId)
  | notify (c : ChannelId)
  -- Subscribers
  | newProbe (c : Callback)
  | watch (root : RecordId) (path : String) (c : Callback)
  | tell (s : SubscriberId)
  | dispose (s : SubscriberId)
  | hold (s : SubscriberId)
  | release (s : SubscriberId)
  -- Nodes
  | newNode (kind : NodeKind) (content : String)
  | appendChild (n child : NodeId)
  | setAttribute (n : NodeId) (name value : String)
  | setText (n : NodeId) (text : String)
  | setValue (n : NodeId) (value : String)
  | listen (n : NodeId) (event : String) (c : Callback)
  | unlisten (a : Attachment)
  | typeInto (n : NodeId) (value : String)
  | dispatch (n : NodeId) (event : String)
  -- Views
  | mount (document? : Option NodeId) (o : ViewOptions)
  | compile (v : ViewId) (root : NodeId)
  | detach (b : Binding)
  | abandon (bs : List Binding)
  | unmount (v : ViewId)
  | holdView (v : ViewId)
  | releaseView (v : ViewId)
  | writeView (v : ViewId) (key : String) (value : Value)
  | callMethod (v : ViewId) (name : String)

/-- A node as it is made: an element of a tag, a text or a comment. -/
def Node.bare (kind : NodeKind) (content : String) : Node :=
  match kind with
  | .element => .element content
  | .text => .ofText content
  | .other => .comment content

namespace Operation

/-- What an operation makes of the state. -/
def run (st : State) : Operation → State
  | .newArray items => (st.newArray items).2
  | .newRecord => st.newRecord.2
  | .writeField p v => st.writeField p v
  | .writePath root path v => st.writePath root path v
  | .assign c v => st.assign c v
  | .observe v => st.observeValue v
  | .define p v => (st.defineCell p v).2
  | .newChannel => st.newChannel.2
  | .subscribe c s => st.subscribe c s
  | .unsubscribe c s => st.unsubscribe c s
  | .leave sources s => st.leave sources s
  | .leaveAbandoned previous next s => st.leaveAbandoned previous next s
  | .track t root path => (st.track t root path).2
  | .trackCell t c => (st.trackCell t c).2
  | .notify c => st.notify c
  | .newProbe c => (st.newProbe c).2
  | .watch root path c => (st.watch root path (.call c)).2
  | .tell s => st.tell s
  | .dispose s => st.dispose s
  | .hold s => st.hold s
  | .release s => st.release s
  | .newNode kind content => (st.newNode (.bare kind content)).2
  | .appendChild n child => st.appendChild n child
  | .setAttribute n name value => st.updateNode n (·.setAttribute name value)
  | .setText n text => st.setText n text
  | .setValue n value => st.updateNode n (·.setValue value)
  | .listen n event c => (st.listen n event (.call c)).2
  | .unlisten a => st.unlisten a
  | .typeInto n value => st.typeInto n value
  | .dispatch n event => st.dispatch n event
  | .mount document? o => (st.mount document? o).2
  | .compile v root => (st.compile v root).2
  | .detach b => st.detach b
  | .abandon bs => st.abandon bs
  | .unmount v => st.unmount v
  | .holdView v => st.holdView v
  | .releaseView v => st.releaseView v
  | .writeView v key value => st.writeView v key value
  | .callMethod v name => (st.callMethod v name).2

/-! ## What an operation names -/

/-- The records that an operation puts somewhere or reads from. -/
def records : Operation → List RecordId
  | .writeField p v | .define p v => p.record :: v.record?.toList
  | .writePath root _ v => root :: v.record?.toList
  | .assign _ v | .observe v | .writeView _ _ v => v.record?.toList
  | .watch root .. | .track _ root _ => [root]
  | .mount _ o => [o.data]
  | _ => []

/-- The views that an operation uses. -/
def views : Operation → List ViewId
  | .compile v _ | .unmount v | .holdView v | .releaseView v | .writeView v .. | .callMethod v _ =>
    [v]
  | _ => []

/-- The subscribers that an operation uses by a handle of the host's. -/
def subscribers : Operation → List SubscriberId
  | .tell s | .dispose s | .hold s | .release s => [s]
  | .detach b => b.watchers
  | .abandon bs => bs.flatMap Binding.watchers
  | _ => []

/-- Whether the operation only gives up handles. -/
def isLettingGo : Operation → Bool
  | .release _ | .abandon _ | .releaseView _ => true
  | _ => false

/-- Whether the operation subscribes or unsubscribes by hand, past the watchers. -/
def isByHand : Operation → Bool
  | .subscribe .. | .unsubscribe .. | .leave .. | .leaveAbandoned .. | .track .. | .trackCell .. =>
    true
  | _ => false

/-- Whether the operation makes a field reactive by force. -/
def isDefinition : Operation → Bool
  | .define .. => true
  | _ => false

end Operation

namespace State

/-- Whether a subscriber belongs to a binding of a view. -/
def isBoundBy (st : State) (v : ViewId) (s : SubscriberId) : Bool :=
  (st.view v).bindings.any fun b => s ∈ b.watchers

/-- Whether a subscriber belongs to a binding of some view. -/
def isBound (st : State) (s : SubscriberId) : Bool := st.views.ids.any fun v => st.isBoundBy v s

end State

/-- Whether the host can do the operation: the records, views and subscribers that it names
exist, and the subscribers are not a view's own. -/
def Operation.isPossible (st : State) (o : Operation) : Bool :=
  o.records.all (fun r => r.index < st.records.size) &&
    o.views.all (fun v => v.index < st.views.size) &&
    o.subscribers.all fun s => s.index < st.subscribers.size && !st.isBound s

end DataBinding
