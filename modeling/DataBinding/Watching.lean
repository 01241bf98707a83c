import DataBinding.Tree
import DataBinding.Writing

set_option autoImplicit false

/-! # Watching

A watcher reads its path when it is made and again whenever it is told. Each read subscribes it
to the reactive fields along the path as it runs now, and takes it off those that the path no
longer visits. If the value is not the one seen last, the watcher reacts, and only then keeps
the new value: while the host deals with it, the old one is still kept.
-/

namespace DataBinding.State

/-- A new watcher, held once. It has read its path, but not reacted. -/
def watch (st : State) (root : RecordId) (path : String) (reaction : Reaction) :
    SubscriberId × State :=
  let s := st.subscribers.fresh
  let st := { st with
    subscribers := st.subscribers.alloc
      { role := .watcher { root, path, reaction }, holders := 1 } }
  let (t, st) := st.track { reader := s } root path
  let st := st.updateWatcher s fun w =>
    { w with seen := st.read root path, sources := t.sources }
  (s, st.report (.watching path t.sources.length))

/-- Reads the path of a watcher again and moves its subscriptions along. -/
def reread (st : State) (s : SubscriberId) (w : Watcher) : State :=
  let (t, st) := st.track { reader := s } w.root w.path
  (st.updateWatcher s fun w => { w with sources := t.sources }).leaveAbandoned
    w.sources t.sources s

/-- Keeps the value that a watcher has seen. -/
def remember (st : State) (s : SubscriberId) (v : Value) : State :=
  st.updateWatcher s fun w => { w with seen := v }

/-- Does what a watcher does with a new value. A form value that is right already is not set
again. -/
def react (st : State) (s : SubscriberId) (v : Value) : Reaction → State
  | .showText n => (st.setText n v.display).remember s v
  | .showValue n =>
    if (st.node n).value = v.display then st.remember s v
    else (st.updateNode n (·.setValue v.display)).remember s v
  | .call c => st.push [.call (.changed c v), .remember s v]

/-- Tells a subscriber that something it read has changed. -/
def update (st : State) (s : SubscriberId) : State :=
  match (st.subscribers.get s).role with
  | .probe c => st.push [.call (.notified c)]
  | .watcher w =>
    if w.disposed then st
    else
      let v := st.read w.root w.path
      let st := st.reread s w
      if v.same w.seen then st else st.react s v w.reaction

/-- Sets out to tell one subscriber, which is held meanwhile. -/
def tell (st : State) (s : SubscriberId) : State := (st.hold s).push [.update s, .release s]

/-- Takes a watcher off all channels for good. -/
def dispose (st : State) (s : SubscriberId) : State :=
  match st.watcher? s with
  | some w =>
    (st.updateWatcher s fun w => { w with disposed := true, sources := [] }).leave w.sources s
  | none => st

end DataBinding.State
