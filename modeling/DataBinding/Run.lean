import DataBinding.Operation

set_option autoImplicit false

/-! # Runs

A run starts without any entity and goes on move by move: the library does its next task, the
host enters or ends the code that it is asked for, or the host, when it is free to act, does an
operation. Host code is not described; it is whatever operations come between its beginning and
its end, nested to any depth. The outermost operation has returned when the agenda is empty.

A run is recorded as the list of its transitions, the newest first, so that what happened to one
watcher can be read off (`history`).
-/

namespace DataBinding

/-- One move of the library or the host. -/
inductive Move where
  /-- The library does its next task. -/
  | work
  /-- The host begins to run the code that it is asked for. -/
  | enter
  /-- The host code that runs returns. -/
  | finish
  /-- The host does an operation. -/
  | operate (o : Operation)

namespace Move

def run (st : State) : Move → State
  | .work => st.step
  | .enter => st.enter
  | .finish => st.finish
  | .operate o => o.run st

/-- Whether it can come to this move. Handles may be given up at any time, since host code that
is given up gives up what it holds. -/
def isPossible (st : State) : Move → Bool
  | .work => st.turn = .library
  | .enter =>
    match st.turn with
    | .asked _ => true
    | _ => false
  | .finish => st.agenda.head? = some .running
  | .operate o => (st.turn = .host || o.isLettingGo) && o.isPossible st

end Move

/-- A move together with the state that it is made in. -/
structure Transition where
  before : State
  move : Move

/-- The state after the move. -/
def Transition.after (t : Transition) : State := t.move.run t.before

/-- When the library works, it does the first task on the agenda. -/
theorem Transition.after_of_work {t : Transition} {task : Task} {rest : List Task}
    (hmove : t.move = .work) (hagenda : t.before.agenda = task :: rest) :
    t.after = ({ t.before with agenda := rest } : State).perform task := by
  rw [after, hmove, Move.run, State.step_eq hagenda]

/-- A run with its transitions and the state that it has come to. -/
inductive Run : List Transition → State → Prop where
  | start : Run [] {}
  | move {ts : List Transition} {st : State} (m : Move) (h : Run ts st)
      (possible : m.isPossible st = true) : Run (⟨st, m⟩ :: ts) (m.run st)

/-- The transitions of playing some moves, put in front of those of the run before them. -/
def played (ts : List Transition) (st : State) : List Move → List Transition
  | [] => ts
  | m :: ms => played (⟨st, m⟩ :: ts) (m.run st) ms

/-- The state after playing some moves. -/
def State.play (st : State) (ms : List Move) : State := ms.foldl Move.run st

/-- Whether each of the moves is possible when it comes to it. -/
def State.canPlay (st : State) : List Move → Bool
  | [] => true
  | m :: ms => m.isPossible st && (m.run st).canPlay ms

theorem State.play_append (st : State) (ms ms' : List Move) :
    st.play (ms ++ ms') = (st.play ms).play ms' :=
  List.foldl_append

theorem State.canPlay_append (st : State) (ms ms' : List Move) :
    st.canPlay (ms ++ ms') = (st.canPlay ms && (st.play ms).canPlay ms') := by
  induction ms generalizing st with
  | nil => rfl
  | cons m ms ih =>
      rw [List.cons_append, canPlay, canPlay, ih, Bool.and_assoc]
      rfl

/-- A call to the host may be answered by doing nothing. -/
theorem State.play_enter_finish {st : State} {c : Call} {rest : List Task}
    (h : st.agenda = .call c :: rest) : st.canPlay [.enter, .finish] = true ∧
      st.play [.enter, .finish] = { st with agenda := rest } := by
  simp [canPlay, Move.isPossible, turn, play, Move.run, enter, finish, h]

theorem Run.play {ts : List Transition} {st : State} (h : Run ts st) (ms : List Move)
    (possible : st.canPlay ms = true) : Run (played ts st ms) (st.play ms) := by
  induction ms generalizing ts st with
  | nil => exact h
  | cons m ms ih =>
      rw [State.canPlay, Bool.and_eq_true] at possible
      exact ih (h.move m possible.1) possible.2

/-! ## Tame runs -/

def State.isObserved (st : State) (r : RecordId) : Bool := (st.records.get r).observed

/-- Whether the move keeps to what a host should do: it makes no field reactive by force, and
subscribes or unsubscribes nobody by hand. -/
def Move.isTame : Move → Bool
  | .operate o => !o.isByHand && !o.isDefinition
  | .work | .enter | .finish => true

/-- Whether the transition adds no field to an observed record. -/
def Transition.keepsKeys (t : Transition) : Bool :=
  t.before.records.ids.all fun r => !t.before.isObserved r ||
    (t.after.records.get r).fields.keys = (t.before.records.get r).fields.keys

/-- Whether the transition is a tame move that adds no field to an observed record. -/
def Transition.isTame (t : Transition) : Bool := t.move.isTame && t.keepsKeys

/-- Whether the subscriber, if the transition makes it a watcher, is one whose root is observed
already. -/
def Transition.startsObserved (t : Transition) (s : SubscriberId) : Bool :=
  match t.before.watcher? s, t.after.watcher? s with
  | none, some w => t.after.isObserved w.root
  | _, _ => true

/-! ## History of a watcher -/

/-- What happens to a watcher. -/
inductive Note where
  /-- It was told of a change and read its path. -/
  | told (v : Value)
  /-- It kept a value, its reaction to it being over. -/
  | kept (v : Value)
  deriving DecidableEq, Repr

/-- What a watcher that is told notes: the value that it reads and, if it reacts to the value
without the host's help, that it keeps it. -/
def State.notesOfTelling (st : State) (s : SubscriberId) : List Note :=
  match st.watcher? s with
  | none => []
  | some w =>
    if w.disposed then []
    else
      let v := st.read w.root w.path
      if v.same w.seen then [.told v]
      else
        match w.reaction with
        | .call _ => [.told v]
        | .showText _ | .showValue _ => [.kept v, .told v]

/-- What happens to a watcher in a transition, the newest first. -/
def Transition.notes (s : SubscriberId) (t : Transition) : List Note :=
  match t.move, t.before.agenda with
  | .work, .update s' :: _ => if s' = s then t.before.notesOfTelling s else []
  | .work, .remember s' v :: _ => if s' = s then [.kept v] else []
  | _, _ => []

/-- What happened to a watcher in a run, the newest first. -/
def history (s : SubscriberId) (ts : List Transition) : List Note := ts.flatMap (·.notes s)

/-- The value that a watcher read when it was told last. -/
def lastTold : List Note → Option Value
  | [] => none
  | .told v :: _ => some v
  | .kept _ :: rest => lastTold rest

/-- Whether the watcher was overtaken: the last that happened to it is that it kept a value, at
the end of its reaction, after it had been told of another one. -/
def isOvertaken : List Note → Bool
  | .kept v :: rest => (lastTold rest).any fun v' => !v.same v'
  | _ => false

/-! ## Who writes the text of a node -/

/-- Whether the subscriber is a watcher that shows its value as the text of the node or of a
child of the node. -/
def State.showsIn (st : State) (s : SubscriberId) (n : NodeId) : Bool :=
  match (st.watcher? s).map Watcher.reaction with
  | some (.showText m) => m = n || m ∈ (st.node n).children
  | _ => false

namespace Transition

/-- Whether the transition is the telling of the subscriber. -/
def tells (t : Transition) (s : SubscriberId) : Bool :=
  match t.move, t.before.agenda with
  | .work, .update s' :: _ => s' = s
  | _, _ => false

/-- Whether the transition leaves the node its text, its children and the texts of these. -/
def keepsText (t : Transition) (n : NodeId) : Bool :=
  (t.after.node n).text = (t.before.node n).text &&
    (t.after.node n).children = (t.before.node n).children &&
    (t.before.node n).children.all fun c => (t.after.node c).text = (t.before.node c).text

/-- Whether the transition leaves the text of the node to the watcher `s`. When the watcher is
made, no other one that is made with it shows its value there; from then on nothing but the
telling of the watcher changes the node's text, its children or their texts. -/
def leavesTextTo (t : Transition) (s : SubscriberId) (n : NodeId) : Bool :=
  match t.before.watcher? s, t.after.watcher? s with
  | some _, _ => t.tells s || t.keepsText n
  | none, some _ =>
    t.after.subscribers.ids.all fun s' =>
      s' = s || (t.before.watcher? s').isSome || !t.after.showsIn s' n
  | none, none => true

end Transition

end DataBinding
