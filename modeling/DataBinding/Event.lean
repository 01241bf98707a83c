set_option autoImplicit false

/-! # Events

What the library reports while it works, for a log. An event has a level, a message and named
details; nothing that the library does depends on them.
-/

namespace DataBinding

/-- How much an event matters. -/
inductive Level where
  | error | warn | debug | trace
  deriving DecidableEq, Repr

/-- Something the library reports. -/
inductive Event where
  /-- A watcher was made. -/
  | watching (key : String) (sources : Nat)
  /-- A reactive field got a new value. -/
  | changed (key : String)
  /-- The subscribers of a channel are about to be told. -/
  | notifying (subscribers : Nat)
  /-- An interpolation was found. -/
  | interpolation (key : String)
  /-- A directive was bound. -/
  | directive (name key : String)
  /-- A directive for an event other than a click was passed over. -/
  | unsupportedEvent (event : String)
  /-- An attribute that looks like a directive was passed over. -/
  | unknownDirective (name : String)
  /-- A view was mounted. -/
  | mounted (bindings : Nat)
  /-- A write was dropped because its path runs through something that is no record. -/
  | unwritable (path : String)
  /-- A click could not be handled. -/
  | clickFailed (reason : String)
  deriving DecidableEq, Repr

namespace Event

def level : Event → Level
  | .watching .. | .changed _ | .notifying _ => .trace
  | .interpolation _ | .directive .. | .unsupportedEvent _ | .unknownDirective _ | .mounted _ =>
    .debug
  | .unwritable _ => .warn
  | .clickFailed _ => .error

def message : Event → String
  | .watching .. => "watching"
  | .changed _ => "changed"
  | .notifying _ => "notify"
  | .interpolation _ => "interpolation"
  | .directive .. => "directive"
  | .unsupportedEvent _ => "unsupported event directive ignored"
  | .unknownDirective _ => "unknown directive ignored"
  | .mounted _ => "mounted"
  | .unwritable _ => "cannot write through a non-object"
  | .clickFailed _ => "click handler failed"

/-- The details of an event, by name. -/
def details : Event → List (String × String)
  | .watching key sources => [("key", key), ("dependencies", Nat.repr sources)]
  | .changed key => [("key", key)]
  | .notifying subscribers => [("subscribers", Nat.repr subscribers)]
  | .interpolation key => [("key", key)]
  | .directive name key => [("directive", name), ("key", key)]
  | .unsupportedEvent event => [("event", event)]
  | .unknownDirective name => [("name", name)]
  | .mounted bindings => [("bindings", Nat.repr bindings)]
  | .unwritable path => [("path", path)]
  | .clickFailed reason => [("error", reason)]

end Event

namespace Level

def name : Level → String
  | .error => "ERROR"
  | .warn => "WARN"
  | .debug => "DEBUG"
  | .trace => "TRACE"

/-- Levels in order of weight, the weightiest first. -/
def depth : Level → Nat
  | .error => 0
  | .warn => 1
  | .debug => 2
  | .trace => 3

end Level

end DataBinding
