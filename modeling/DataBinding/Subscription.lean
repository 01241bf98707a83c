import DataBinding.State

set_option autoImplicit false

/-! # Subscriptions

A channel lists its subscribers in the order in which they joined, each once. Only a living
subscriber can join. Notifying a channel first strikes the dead ones off, then takes a snapshot:
every subscriber on it is held, told, and let go again, whatever happens to the list meanwhile.
-/

namespace DataBinding.State

/-- Whether somebody holds the subscriber. -/
def isAlive (st : State) (s : SubscriberId) : Bool := 0 < (st.subscribers.get s).holders

/-! ## Membership -/

def isSubscribed (st : State) (c : ChannelId) (s : SubscriberId) : Bool :=
  s ∈ st.channels.get c

/-- Whether `subscribe` would add the subscriber: it is alive and not on the list yet. -/
def canSubscribe (st : State) (c : ChannelId) (s : SubscriberId) : Bool :=
  st.isAlive s && !st.isSubscribed c s

/-- Adds a subscriber at the end of a channel's list, if it can be added. -/
def subscribe (st : State) (c : ChannelId) (s : SubscriberId) : State :=
  if st.canSubscribe c s then { st with channels := st.channels.modify c (· ++ [s]) } else st

/-- Takes a subscriber off a channel's list. -/
def unsubscribe (st : State) (c : ChannelId) (s : SubscriberId) : State :=
  { st with channels := st.channels.modify c (·.filter (· ≠ s)) }

/-- Takes a subscriber off several channels' lists. -/
def leave (st : State) (sources : Sources) (s : SubscriberId) : State :=
  sources.foldl (fun st c => st.unsubscribe c s) st

/-- Takes a subscriber off the lists of the channels that it no longer reads from. -/
def leaveAbandoned (st : State) (previous next : Sources) (s : SubscriberId) : State :=
  st.leave (previous.filter (· ∉ next)) s

/-- Puts another list in the place of a subscriber's list of channels and takes the subscriber off
those that are not part of it. -/
def swapSources (st : State) (sources next : Sources) (s : SubscriberId) : Sources × State :=
  (next, st.leaveAbandoned sources next s)

/-- Empties a subscriber's list of channels and takes the subscriber off all of them. -/
def dropSources (st : State) (sources : Sources) (s : SubscriberId) : Sources × State :=
  ([], st.leave sources s)

/-! ## Holding -/

/-- One more holder for a living subscriber. -/
def hold (st : State) (s : SubscriberId) : State :=
  { st with
    subscribers := st.subscribers.modify s fun b =>
      if 0 < b.holders then { b with holders := b.holders + 1 } else b }

/-- One holder less; when the last one goes, a watcher leaves its channels. -/
def release (st : State) (s : SubscriberId) : State :=
  let left := (st.subscribers.get s).holders - 1
  let st := { st with subscribers := st.subscribers.modify s fun b => { b with holders := left } }
  if 0 < left then st
  else
    match st.watcher? s with
    | some w => (st.leave w.sources s).updateWatcher s fun w => { w with sources := [] }
    | none => st

/-! ## Notification -/

/-- Strikes the dead subscribers off a channel's list. -/
def prune (st : State) (c : ChannelId) : State :=
  { st with channels := st.channels.modify c (·.filter st.isAlive) }

/-- Holds each of the subscribers. -/
def holdAll (st : State) (subscribers : List SubscriberId) : State :=
  subscribers.foldl hold st

/-- The tasks of telling each of the subscribers and letting go of it right afterwards. -/
def updates (subscribers : List SubscriberId) : List Task :=
  subscribers.flatMap fun s => [.update s, .release s]

/-- Sets out to tell the living subscribers of a channel. -/
def notify (st : State) (c : ChannelId) : State :=
  let st := st.prune c
  let live := st.channels.get c
  ((st.holdAll live).report (.notifying live.length)).push (updates live)

end DataBinding.State
