import DataBinding.Proofs.History
import DataBinding.Proofs.Subscription.Channelled

set_option autoImplicit false

/-! # Assigning a value

To assign a value that is there already is to do nothing. To assign another one leaves watchers
and what is on the channels as they are, and sets out to tell the living subscribers of the cell's
channel. At rest the host may do so at any time (`Run.assign`).
-/

namespace DataBinding

open State

section Assign

variable {st : State} {c : CellId} {v : Value} {s : SubscriberId}

theorem assign_of_differs (h : st.differs c v = true) : st.assign c v =
    (((st.store c v).observeValue v).report (.changed (st.cells.get c).key)).notify
      (st.cells.get c).channel :=
  if_pos h

theorem assign_of_same (h : st.differs c v = false) : st.assign c v = st := by
  rw [assign, h]
  rfl

theorem watcher?_assign : (st.assign c v).watcher? s = st.watcher? s := by
  cases h : st.differs c v with
  | false => rw [assign_of_same h]
  | true =>
      have hobs := observes_observeValue (st.store c v) v
      rw [assign_of_differs h, watcher?_notify]
      exact watcher?_congr hobs.subscribers

/-- A write of a new value sets out to tell the living subscribers of the channel. -/
theorem agenda_assign (h : st.differs c v = true)
    (hchannel : (st.cells.get c).channel.index < st.channels.size) : (st.assign c v).agenda =
      updates ((st.channels.get (st.cells.get c).channel).filter st.isAlive) ++ st.agenda := by
  have hobs := observes_observeValue (st.store c v) v
  have halive : ((st.store c v).observeValue v).isAlive = st.isAlive := by
    funext s
    rw [isAlive, hobs.subscribers]
    rfl
  let stored := ((st.store c v).observeValue v).report (.changed (st.cells.get c).key)
  have hlist : (stored.prune (st.cells.get c).channel).channels.get (st.cells.get c).channel =
      (st.channels.get (st.cells.get c).channel).filter st.isAlive := by
    have hsize : (st.cells.get c).channel.index < stored.channels.size :=
      Nat.lt_of_lt_of_le hchannel hobs.channels_size
    calc (stored.prune (st.cells.get c).channel).channels.get (st.cells.get c).channel
        = (stored.channels.get (st.cells.get c).channel).filter stored.isAlive :=
          Table.get_modify_eq hsize _
      _ = (st.channels.get (st.cells.get c).channel).filter st.isAlive := by
          show List.filter ((st.store c v).observeValue v).isAlive
            (((st.store c v).observeValue v).channels.get _) = _
          rw [halive, hobs.channels]
          rfl
  rw [assign_of_differs h, agenda_notify, hlist]
  show _ ++ ((st.store c v).observeValue v).agenda = _
  rw [hobs.agenda]
  rfl

/-- Assigning a value adds no field to an observed record. -/
theorem isTame_assign (st : State) (c : CellId) (v : Value) :
    (Transition.mk st (.operate (.assign c v))).isTame = true := by
  have hkeeps : Keeps ⟨0⟩ st (st.assign c v) := .assign c v
  rw [Transition.isTame, Transition.keepsKeys, Bool.and_eq_true, List.all_eq_true]
  refine ⟨rfl, fun r _ => ?_⟩
  cases hr : st.isObserved r with
  | false => simp
  | true =>
      have hsame : (Transition.mk st (.operate (.assign c v))).after.records.get r =
          st.records.get r := hkeeps.record r hr
      rw [hsame]
      simp

end Assign

section Run

variable {ts : List Transition} {st : State} {p : Slot} {c : CellId} {v : Value} (h : Run ts st)
  (rest : st.agenda = [])

include h rest

/-- At rest the host may use any operation whose entities there are. -/
theorem Run.operate {o : Operation} (possible : o.isPossible st = true) :
    Run (⟨st, .operate o⟩ :: ts) (o.run st) := by
  have hturn : st.turn = .host := by rw [turn, rest]
  exact h.move (.operate o) (by simp [Move.isPossible, hturn, possible])

/-- At rest the host may assign a value. -/
theorem Run.assign (c : CellId) (hv : ∀ r, v.record? = some r → r.index < st.records.size) :
    Run (⟨st, .operate (.assign c v)⟩ :: ts) (st.assign c v) := by
  refine h.operate rest ?_
  simpa [Operation.isPossible, Operation.records, Operation.views, Operation.subscribers] using hv

/-- At rest, assigning another value sets out to tell the living ones on the channel, and nothing
else is on the agenda then. -/
theorem Run.agenda_assign (hp : st.cell? p = some c) (hdiffers : st.differs c v = true) :
    (st.assign c v).agenda =
      updates ((st.channels.get (st.cells.get c).channel).filter st.isAlive) := by
  have hchannel := h.channelled.known c (h.graph.celled.lt_size hp)
  rw [DataBinding.agenda_assign hdiffers hchannel, rest, List.append_nil]

end Run

end DataBinding
