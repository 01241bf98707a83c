import DataBinding.Subscription
import DataBinding.Text.Blank
import DataBinding.Text.Split

set_option autoImplicit false

/-! # Paths

A path names a field of a record, or, through dots, a field of a record inside it. A field whose
name is the whole path comes first; otherwise the path is cut at its dots, the pieces are
trimmed, and each piece names a field of the record that the piece before it led to.

Following a path leaves a *trail*: the fields visited, in order, and whether the path could be
followed to its end. Reading takes the value of the last field; a tracked read also subscribes
the reader to every reactive field on the trail.
-/

namespace DataBinding

/-- What following a path came to: the fields that exist along it, and whether the last of them
is the one the path names. -/
structure Trail where
  visited : List Slot
  complete : Bool
  deriving DecidableEq, Repr

/-- The field that the path names, if it exists. -/
def Trail.target? (t : Trail) : Option Slot := if t.complete then t.visited.getLast? else none

/-- The trimmed pieces of a path between its dots. -/
def pieces (path : String) : List String :=
  (path.toList.splitOn '.').map fun p => String.ofList (Text.trimChars p)

/-- A reader and the channels it has read from so far. -/
structure Tracking where
  reader : SubscriberId
  sources : Sources := []
  deriving DecidableEq, Repr, Inhabited

namespace State

/-- Follows field names from record to record. -/
def follow (st : State) : RecordId → List String → Trail
  | _, [] => ⟨[], false⟩
  | r, key :: rest =>
    let here : Slot := ⟨r, key⟩
    if (st.field? here).isNone then ⟨[], false⟩
    else if rest.isEmpty then ⟨[here], true⟩
    else
      match (st.content here).record? with
      | some next =>
        let t := st.follow next rest
        ⟨here :: t.visited, t.complete⟩
      | none => ⟨[here], false⟩

/-- The trail of a path. -/
def trail (st : State) (root : RecordId) (path : String) : Trail :=
  if (st.field? ⟨root, path⟩).isSome then ⟨[⟨root, path⟩], true⟩
  else st.follow root (pieces path)

/-- The value that a path leads to; `undefined` when it leads nowhere. -/
def read (st : State) (root : RecordId) (path : String) : Value :=
  ((st.trail root path).target?.map st.content).getD .undefined

/-- The channels of the reactive fields that a path visits. -/
def channelsRead (st : State) (root : RecordId) (path : String) : List ChannelId :=
  (st.trail root path).visited.filterMap st.channel?

/-- Subscribes a reader to channels. -/
def subscribeAll (st : State) (channels : List ChannelId) (s : SubscriberId) : State :=
  channels.foldl (fun st c => st.subscribe c s) st

/-- Notes the channels that the reader is on, of those just read from. A dead reader is on no
channel that it was not on before. -/
def noteReads (st : State) (t : Tracking) (channels : List ChannelId) : Tracking :=
  { t with
    sources := (channels.filter fun c => st.isSubscribed c t.reader).foldl Sources.note t.sources }

/-- The effect of a tracked read on the channels. -/
def track (st : State) (t : Tracking) (root : RecordId) (path : String) : Tracking × State :=
  let channels := st.channelsRead root path
  let st := st.subscribeAll channels t.reader
  (st.noteReads t channels, st)

/-- The effect of a tracked read of a single cell. -/
def trackCell (st : State) (t : Tracking) (c : CellId) : Tracking × State :=
  let channel := (st.cells.get c).channel
  let st := st.subscribe channel t.reader
  (st.noteReads t [channel], st)

end State

end DataBinding
