import DataBinding.Proofs.History

set_option autoImplicit false

/-! # What watchers have seen at rest

A watcher keeps a value only after its reaction to the value is over. When the host, dealing
with a value, writes the property that it is told of, the watcher is told again in between, and
the older value is kept last: the watcher is *overtaken*. At rest it has seen what its path leads
to exactly if that did not happen (`Run.seen_same_iff`).
-/

namespace DataBinding

open State

/-- At rest, a living watcher that is not disposed of has seen the value that its path leads to,
unless it was overtaken; then it has not. -/
theorem Run.seen_same_iff {ts : List Transition} {st : State} (h : Run ts st)
    (tame : ∀ t ∈ ts, t.isTame = true) (rest : st.agenda = []) {s : SubscriberId}
    (observed : ∀ t ∈ ts, t.startsObserved s = true) {w : Watcher}
    (hw : st.watcher? s = some w) (alive : st.isAlive s = true) (live : w.disposed = false) :
    w.seen.same (st.read w.root w.path) = true ↔ isOvertaken (history s ts) = false :=
  (h.tracked tame observed).current_iff rest hw alive live

/-- A watcher of `a` is made and told of a new value, which the host lets stand. -/
def answered : List Move :=
  [.operate .newRecord, .operate (.writeField ⟨⟨0⟩, "a"⟩ (.text "1")),
    .operate (.observe (.record ⟨0⟩)), .operate (.watch ⟨0⟩ "a" ⟨0⟩),
    .operate (.writeField ⟨⟨0⟩, "a"⟩ (.text "2")), .work, .enter, .finish, .work, .work]

/-- Nothing overtakes the watcher: it has seen the new value. -/
theorem seen_same_answered :
    (Value.text "2").same ((({} : State).play answered).read ⟨0⟩ "a") = true ↔
      isOvertaken (history ⟨0⟩ (played [] {} answered)) = false :=
  Run.seen_same_iff (Run.play .start answered (by decide +kernel)) (by decide +kernel)
    (by decide +kernel) (by decide +kernel)
    (w := { root := ⟨0⟩, path := "a", reaction := .call ⟨0⟩, seen := .text "2",
            sources := [⟨0⟩] })
    (by decide +kernel) (by decide +kernel) rfl

/-- The same, but that the host, when it is handed the value `2`, writes the value `3`. -/
def answeredBack : List Move :=
  [.operate .newRecord, .operate (.writeField ⟨⟨0⟩, "a"⟩ (.text "1")),
    .operate (.observe (.record ⟨0⟩)), .operate (.watch ⟨0⟩ "a" ⟨0⟩),
    .operate (.writeField ⟨⟨0⟩, "a"⟩ (.text "2")), .work, .enter,
    .operate (.writeField ⟨⟨0⟩, "a"⟩ (.text "3")), .work, .enter,
    .operate (.writeField ⟨⟨0⟩, "a"⟩ (.text "3")), .finish, .work, .work,
    .finish, .work, .work]

/-- The watcher is overtaken: it has seen `2`, and its path leads to `3`. So it is not so that
watchers have always seen the present value at rest. -/
theorem not_always_seen_same :
    ¬ ∀ (ts : List Transition) (st : State) (s : SubscriberId) (w : Watcher), Run ts st →
      (∀ t ∈ ts, t.isTame = true) → st.agenda = [] → (∀ t ∈ ts, t.startsObserved s = true) →
      st.watcher? s = some w → st.isAlive s = true → w.disposed = false →
      w.seen.same (st.read w.root w.path) = true := by
  intro h
  have hseen := h (played [] {} answeredBack) (({} : State).play answeredBack) ⟨0⟩
    { root := ⟨0⟩, path := "a", reaction := .call ⟨0⟩, seen := .text "2", sources := [⟨0⟩] }
    (Run.play .start answeredBack (by decide +kernel)) (by decide +kernel) (by decide +kernel)
    (by decide +kernel) (by decide +kernel) (by decide +kernel) rfl
  have hnot : (Value.text "2").same ((({} : State).play answeredBack).read ⟨0⟩ "a") = false := by
    decide +kernel
  exact Bool.noConfusion (hnot.symm.trans hseen)

end DataBinding
