import DataBinding.State

set_option autoImplicit false

/-! # Observation

Observing a record makes its plain fields reactive, and does the same to the records that these
fields hold, and so on. A record is marked as observed before anything else is done to it. So a
record on a cycle is left alone when it is reached again, though only some of its fields may have
been made reactive by then.

From a record the recursion goes to values and to fields, and from these to records again: what
concerns values and fields takes as an argument how records are observed, and `observeWithin` closes
the circle. The depth of the recursion is bounded there, but by more than is ever needed: every
level marks one more record. So the bound, and what is done there, make no difference
(`observeWithin_eq_observe`), and `observe` satisfies the equation of the recursion, in which there
is no bound (`observe_eq`).
-/

namespace DataBinding

namespace State

/-- A new cell with a new channel. -/
def newCell (st : State) (key : String) (v : Value) : CellId × State :=
  let (channel, st) := st.newChannel
  (st.cells.fresh, { st with cells := st.cells.alloc { key, value := v, channel } })

/-- Whether a record is not observed. -/
def isUnobserved (st : State) (r : RecordId) : Bool := !(st.records.get r).observed

/-- The records that are not observed. -/
def unobserved (st : State) : List RecordId := st.records.ids.filter st.isUnobserved

/-- Marks a record as observed. -/
def markObserved (st : State) (r : RecordId) : State :=
  { st with records := st.records.modify r fun b => { b with observed := true } }

/-- Observes a value if it is a record, in the way that is given for records. -/
def observeValueBy (observe : State → RecordId → State) (st : State) : Value → State
  | .record r => observe st r
  | _ => st

theorem observeValueBy_eq (observe : State → RecordId → State) (st : State) (v : Value) :
    observeValueBy observe st v = v.record?.elim st (observe st) := by
  cases v <;> rfl

/-- Makes a field reactive, whatever it was before, and gives it a value that is observed first. -/
def defineCellBy (observe : State → RecordId → State) (st : State) (s : Slot) (v : Value) :
    CellId × State :=
  let (c, st) := (observeValueBy observe st v).newCell s.key v
  (c, st.putField s (.reactive c))

/-- Observes a record, unless it is observed already: marks it, and makes those of its fields
reactive that are plain then. `depth` bounds the recursion, and `atBound` is what is done there. -/
def observeWithin (atBound : State → RecordId → State) : Nat → State → RecordId → State
  | 0, st, r => atBound st r
  | depth + 1, st, r =>
    if st.isUnobserved r then
      let st := st.markObserved r
      (st.records.get r).fields.plain.foldl
        (fun st e => (defineCellBy (observeWithin atBound depth) st ⟨r, e.1⟩ e.2).2) st
    else st

/-- Observes a record. -/
@[irreducible] def observe (st : State) (r : RecordId) : State :=
  observeWithin (fun st _ => st) (st.unobserved.length + 1) st r

/-- Observes a value if it is a record. -/
def observeValue (st : State) (v : Value) : State := observeValueBy observe st v

theorem observeValue_eq (st : State) (v : Value) :
    st.observeValue v = v.record?.elim st st.observe :=
  observeValueBy_eq observe st v

/-- Makes a field reactive, whatever it was before, and gives it a value. -/
def defineCell (st : State) (s : Slot) (v : Value) : CellId × State := defineCellBy observe st s v

end State

end DataBinding
