import DataBinding.Proofs.History

set_option autoImplicit false

/-! # Subscriptions at rest

When the outermost operation of a tame run has returned, every watcher is subscribed to the
reactive fields that its path visits as the records are now, and to nothing else. No update can
be pending then, so this is what following a path comes to (`State.Following`).
-/

namespace DataBinding

open State

/-- At rest, a living watcher that is not disposed of is on a channel exactly if the channel is
one of a reactive field that its path visits. -/
theorem Run.isSubscribed_iff {ts : List Transition} {st : State} (h : Run ts st)
    (tame : ∀ t ∈ ts, t.isTame = true) (rest : st.agenda = []) {s : SubscriberId}
    (observed : ∀ t ∈ ts, t.startsObserved s = true) {w : Watcher}
    (hw : st.watcher? s = some w) (alive : st.isAlive s = true) (live : w.disposed = false)
    (c : ChannelId) :
    st.isSubscribed c s = true ↔
      ∃ p ∈ (st.trail w.root w.path).visited, st.channel? p = some c := by
  obtain ⟨-, hfollows⟩ := (h.tracked tame observed).following w hw
  have hnone : .update s ∉ st.agenda := by
    rw [rest]
    exact List.not_mem_nil
  obtain ⟨hexact, -⟩ := (hfollows alive live).resolve_left hnone
  calc st.isSubscribed c s = true
      ↔ s ∈ st.channels.get c := decide_eq_true_iff
    _ ↔ c ∈ st.channelsRead w.root w.path := hexact c
    _ ↔ ∃ p ∈ (st.trail w.root w.path).visited, st.channel? p = some c := List.mem_filterMap

/-- A watcher of `a.b` is made, and then the record under `a` is replaced. -/
def replacement : List Move :=
  [.operate .newRecord, .operate .newRecord, .operate .newRecord,
    .operate (.writeField ⟨⟨0⟩, "a"⟩ (.record ⟨1⟩)),
    .operate (.writeField ⟨⟨1⟩, "b"⟩ (.text "old")),
    .operate (.writeField ⟨⟨2⟩, "b"⟩ (.text "new")),
    .operate (.observe (.record ⟨0⟩)),
    .operate (.watch ⟨0⟩ "a.b" ⟨0⟩),
    .operate (.writeField ⟨⟨0⟩, "a"⟩ (.record ⟨2⟩)),
    .work, .enter, .finish, .work, .work]

/-- The watcher has moved to the field `b` of the record that took the place of the old one. -/
theorem isSubscribed_replacement :
    (({} : State).play replacement).isSubscribed ⟨2⟩ ⟨0⟩ = true ↔
      ∃ p ∈ ((({} : State).play replacement).trail ⟨0⟩ "a.b").visited,
        (({} : State).play replacement).channel? p = some ⟨2⟩ :=
  Run.isSubscribed_iff (Run.play .start replacement (by decide +kernel)) (by decide +kernel)
    (by decide +kernel) (by decide +kernel)
    (w := { root := ⟨0⟩, path := "a.b", reaction := .call ⟨0⟩, seen := .text "new",
            sources := [⟨1⟩, ⟨2⟩] })
    (by decide +kernel) (by decide +kernel) rfl ⟨2⟩

end DataBinding
