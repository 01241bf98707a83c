import DataBinding.Value

set_option autoImplicit false

/-! # Subscribers

A subscriber is told when a channel it is subscribed to is notified. A *probe* passes this on to
the host, the program that uses the library. A *watcher* reads its path again and, when the
value has changed, reacts: it shows the value in a node, or hands it to the host.

Subscribers are counted by their holders, because the last holder's going has an effect: the
watcher leaves its channels.
-/

namespace DataBinding

/-- Code of the host, by a number of the host's choice. -/
structure Callback where
  number : Nat
  deriving DecidableEq, Repr, Inhabited

/-- The channels that a subscriber was registered in, each once, in the order of the reads. -/
abbrev Sources := List ChannelId

/-- Notes one more channel. -/
def Sources.note (sources : Sources) (c : ChannelId) : Sources :=
  if c ∈ sources then sources else sources ++ [c]

/-- What a watcher does with a new value. -/
inductive Reaction where
  /-- Makes the value's text the text of a node. -/
  | showText (node : NodeId)
  /-- Makes the value's text the form value of a node. -/
  | showValue (node : NodeId)
  /-- Hands the value to the host. -/
  | call (c : Callback)
  deriving DecidableEq, Repr, Inhabited

/-- A reader of one path that reacts to changes. -/
structure Watcher where
  root : RecordId
  path : String
  reaction : Reaction
  /-- The value read last. -/
  seen : Value := .undefined
  sources : Sources := []
  disposed : Bool := false
  deriving DecidableEq, Repr, Inhabited

/-- What a subscriber does when it is told. -/
inductive Role where
  | probe (c : Callback)
  | watcher (w : Watcher)
  deriving DecidableEq, Repr, Inhabited

/-- A subscriber; it is alive as long as somebody holds it. -/
structure Subscriber where
  role : Role
  holders : Nat := 0
  deriving DecidableEq, Repr, Inhabited

namespace Subscriber

/-- The watcher that the subscriber is, if it is one. -/
def watcher? (s : Subscriber) : Option Watcher :=
  match s.role with
  | .watcher w => some w
  | .probe _ => none

/-- Changes the watcher that the subscriber is; a probe stays as it is. -/
def mapWatcher (f : Watcher → Watcher) (s : Subscriber) : Subscriber :=
  match s.role with
  | .watcher w => { s with role := .watcher (f w) }
  | .probe _ => s

end Subscriber

end DataBinding
