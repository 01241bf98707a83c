import DataBinding.Proofs.Assignment
import DataBinding.Proofs.Pass
import DataBinding.Proofs.Subscription.Distinct

set_option autoImplicit false

/-! # Whom a write concerns

A write of a new value to a reactive field concerns the watchers whose path visits the field and
leads to another value afterwards. If callbacks only read and tell nobody, it is exactly these whose
callbacks run, each once, in the order of the field's channel (`Run.runsAffected`).
-/

namespace DataBinding

open State

namespace State

/-- The value that the path of the watcher leads to now. -/
def reading (st : State) (s : SubscriberId) : Value :=
  match st.watcher? s with
  | some w => st.read w.root w.path
  | none => .undefined

/-- Whether the subscriber is a watcher that is alive and not disposed of, and whose path visits the
field. -/
def isWatching (st : State) (p : Slot) (s : SubscriberId) : Bool :=
  match st.watcher? s with
  | some w => st.isAlive s && !w.disposed && p ∈ (st.trail w.root w.path).visited
  | none => false

/-- Whether a write of the field, which leads from `st` to `st'`, concerns the watcher: its path
visits the field before, and leads to another value afterwards. -/
def isAffected (st : State) (p : Slot) (st' : State) (s : SubscriberId) : Bool :=
  st.isWatching p s && !(st'.reading s).same (st.reading s)

end State

/-- From the state `st` a write of the field `p`, whose channel is `c`, has led to `st'`, and then
`ms` is played: the callbacks of the watchers that it concerns run, and nobody else's. -/
structure RunsAffected (st : State) (p : Slot) (c : ChannelId) (st' : State) (ms : List Move) :
    Prop where
  /-- Whoever reacts is concerned and reacts to its new value, and the other way round. -/
  exactly : ∀ s v, (s, v) ∈ st'.reactions ms ↔ st.isAffected p st' s = true ∧ v = st'.reading s
  /-- Nobody reacts twice. -/
  once : ((st'.reactions ms).map Prod.fst).Nodup
  /-- They react in the order of the channel. -/
  order : ((st'.reactions ms).map Prod.fst).Sublist (st.channels.get c)
  /-- Who reacts has seen the new value in the end, and the others what they had seen before. -/
  seen : ∀ s w, st.watcher? s = some w → ∃ w', (st'.play ms).watcher? s = some w' ∧
    w'.seen = if st.isAffected p st' s then st'.reading s else w.seen
  /-- The paths lead to the new values in the end, too. -/
  read : ∀ s w, st.watcher? s = some w → (st'.play ms).reading s = st'.reading s

section Due

variable {st : State} {l : List SubscriberId} {s : SubscriberId} {v : Value}

theorem mem_due : (s, v) ∈ st.due l ↔ s ∈ l ∧ st.news? s = some v := by
  simp only [due, List.mem_filterMap, Option.map_eq_some_iff, Prod.mk.injEq]
  constructor
  · rintro ⟨s', hs', v', hv', rfl, rfl⟩
    exact ⟨hs', hv'⟩
  · rintro ⟨hs, hv⟩
    exact ⟨s, hs, v, hv, rfl, rfl⟩

theorem map_fst_due (st : State) (l : List SubscriberId) :
    (st.due l).map Prod.fst = l.filter fun s => (st.news? s).isSome := by
  induction l with
  | nil => rfl
  | cons s rest ih =>
      rw [due] at ih ⊢
      rw [List.filterMap_cons, List.filter_cons]
      cases hnews : st.news? s with
      | none => exact ih
      | some v => exact congrArg (s :: ·) ih

/-- What is seen after the pass, told in two ways: by those who were told and had news, and by those
who are concerned. -/
theorem seen_eq_of_news?_iff {st' : State} {p : Slot} (hnews : ∀ u,
      s ∈ l ∧ st'.news? s = some u ↔ st.isAffected p st' s = true ∧ u = st'.reading s)
    (seen : Value) :
    (if s ∈ l ∧ s ∉ ([] : List SubscriberId) then (st'.news? s).getD seen else seen) =
      if st.isAffected p st' s then st'.reading s else seen := by
  cases haffected : st.isAffected p st' s with
  | true =>
      obtain ⟨hmem, hsome⟩ := (hnews _).mpr ⟨haffected, rfl⟩
      rw [if_pos ⟨hmem, List.not_mem_nil⟩, hsome]
      rfl
  | false =>
      have hnone : s ∈ l → st'.news? s = none := by
        intro hmem
        cases hsome : st'.news? s with
        | none => rfl
        | some u =>
            have haffected' := ((hnews u).mp ⟨hmem, hsome⟩).1
            exact Bool.noConfusion (haffected.symm.trans haffected')
      split
      · rename_i hmem
        rw [hnone hmem.1]
        rfl
      · rfl

end Due

/-! ## Watchers at rest -/

section Rest

variable {ts : List Transition} {st : State} {p : Slot} {c : CellId} {v : Value} {s : SubscriberId}
  {w : Watcher}

/-- At rest, those on the channel of a field are the watchers whose path visits the field. -/
theorem Run.mem_channel_iff (h : Run ts st) (tame : ∀ t ∈ ts, t.isTame = true)
    (rest : st.agenda = []) (observed : ∀ t ∈ ts, t.startsObserved s = true)
    (hp : st.cell? p = some c) (hw : st.watcher? s = some w) :
    s ∈ (st.channels.get (st.cells.get c).channel).filter st.isAlive ↔
      st.isWatching p s = true := by
  have hchannel : st.channel? p = some (st.cells.get c).channel := by
    rw [channel?, hp]
    rfl
  have hexact := fun halive hlive =>
    (h.tracked tame observed).isExact rest hw halive hlive (st.cells.get c).channel
  rw [List.mem_filter, isWatching, hw]
  simp only [Bool.and_eq_true, Bool.not_eq_true', decide_eq_true_eq]
  constructor
  · rintro ⟨hmem, halive⟩
    have htidy : Tidy st := h.tidy fun t ht => t.isHandsOff_of_isTame (tame t ht)
    have hlive : w.disposed = false := by
      cases hdisposed : w.disposed with
      | false => rfl
      | true => exact absurd hmem (htidy.not_mem hw (by rw [isGone, hdisposed]; rfl) _)
    obtain ⟨q, hq, hchannel'⟩ := List.mem_filterMap.mp ((hexact halive hlive).mp hmem)
    have hpq : p = q := channel?_inj h.graph.celled h.channelled hchannel hchannel'
    exact ⟨⟨halive, hlive⟩, hpq ▸ hq⟩
  · rintro ⟨⟨halive, hlive⟩, hvisited⟩
    exact ⟨(hexact halive hlive).mpr (List.mem_filterMap.mpr ⟨p, hvisited, hchannel⟩), halive⟩

variable (h : Run ts st) (rest : st.agenda = []) (tame : ∀ t ∈ ts, t.isTame = true)
  (observed : ∀ s ∈ st.subscribers.ids, ∀ t ∈ ts, t.startsObserved s = true)

include h rest tame observed

/-- Assigning another value begins a pass over the living ones on the channel. -/
theorem Run.stage_assign (hp : st.cell? p = some c) (hdiffers : st.differs c v = true)
    {told : List SubscriberId}
    (htold : told = (st.channels.get (st.cells.get c).channel).filter st.isAlive) :
    Stage (st.assign c v) told (st.assign c v) ((st.assign c v).due told) := by
  have hagenda : (st.assign c v).agenda = updates told := by
    rw [h.agenda_assign rest hp hdiffers, htold]
  have htasks : ∀ t ∈ (st.assign c v).agenda, t.isTelling = true := by
    intro t ht
    rw [hagenda] at ht
    obtain ⟨s, -, rfl | rfl⟩ := mem_updates.mp ht <;> rfl
  have hstart : Settling (st.assign c v) told told (st.assign c v) := by
    refine .start (fun s w hw => ?_) told
    rw [watcher?_assign] at hw
    have hknown := observed s ((Table.mem_ids_iff _ s).mpr (lt_size_of_watcher? hw))
    obtain ⟨hroot, -⟩ := (h.tracked tame hknown).following w hw
    have hkeeps : Keeps s st (st.assign c v) := .assign c v
    rw [isObserved, hkeeps.record _ hroot]
    exact hroot
  have htoldBy : toldBy (st.assign c v).agenda = told := by rw [hagenda, toldBy_updates]
  rw [← htoldBy] at hstart ⊢
  exact .between htasks List.suffix_rfl hstart

variable (discreet : ∀ t ∈ ts, t.isDiscreet = true)

include discreet

/-- Who watches a field that is written has news exactly if its path leads to another value now. -/
theorem Run.news?_assign (c : CellId) (hs : st.isWatching p s = true) :
    (st.assign c v).news? s =
      if ((st.assign c v).reading s).same (st.reading s) then none
      else some ((st.assign c v).reading s) := by
  cases hw : st.watcher? s with
  | none =>
      rw [isWatching, hw] at hs
      cases hs
  | some w =>
      rw [isWatching, hw] at hs
      simp only [Bool.and_eq_true, Bool.not_eq_true'] at hs
      obtain ⟨⟨halive, hlive⟩, -⟩ := hs
      have hknown := observed s ((Table.mem_ids_iff _ s).mpr (lt_size_of_watcher? hw))
      have hseen := h.seen_same tame discreet rest hknown hw halive hlive
      rw [news?, reading, reading, watcher?_assign, hw]
      simp only [hlive, Bool.false_or, Value.same_congr_right hseen]

/-- Those on the channel who have news are the watchers that the write concerns. -/
theorem Run.news?_iff (hp : st.cell? p = some c) {u : Value} :
    s ∈ (st.channels.get (st.cells.get c).channel).filter st.isAlive ∧
        (st.assign c v).news? s = some u ↔
      st.isAffected p (st.assign c v) s = true ∧ u = (st.assign c v).reading s := by
  cases hw : st.watcher? s with
  | none => simp [news?, watcher?_assign, hw, isAffected, isWatching]
  | some w =>
      have hknown := observed s ((Table.mem_ids_iff _ s).mpr (lt_size_of_watcher? hw))
      rw [h.mem_channel_iff tame rest hknown hp hw, isAffected]
      cases hs : st.isWatching p s with
      | false => simp
      | true =>
          rw [h.news?_assign rest tame observed discreet c hs]
          cases ((st.assign c v).reading s).same (st.reading s) with
          | true => simp
          | false => simp [eq_comm]

variable (watchers : ∀ s ∈ st.subscribers.ids, (st.watcher? s).isSome = true)

include watchers

/-- Assigning a value that is there already does nothing at all. Assigning another one runs the
callbacks of the watchers that it concerns, and nobody else's; and it can run them. -/
theorem Run.runsAffected (hp : st.cell? p = some c)
    (hv : ∀ r, v.record? = some r → r.index < st.records.size) :
    (st.differs c v = false → st.assign c v = st) ∧
      (st.differs c v = true → (∃ ms, IsGentlePass (st.assign c v) ms) ∧
        ∀ ms, IsGentlePass (st.assign c v) ms → RunsAffected st p (st.cells.get c).channel
          (st.assign c v) ms) := by
  refine ⟨assign_of_same, fun hdiffers => ?_⟩
  let told := (st.channels.get (st.cells.get c).channel).filter st.isAlive
  have hagenda : (st.assign c v).agenda = updates told := h.agenda_assign rest hp hdiffers
  have hstage := h.stage_assign rest tame observed hp hdiffers (rfl : told = _)
  have hdistinct : told.Nodup := (h.distinct _).filter _
  have hwatchers : ∀ s ∈ told, ((st.assign c v).watcher? s).isSome = true := by
    intro s hs
    rw [watcher?_assign]
    exact watchers s ((Table.mem_ids_iff _ s).mpr (lt_size_of_isAlive (List.mem_filter.mp hs).2))
  have hnews : ∀ s u, s ∈ told ∧ (st.assign c v).news? s = some u ↔
      st.isAffected p (st.assign c v) s = true ∧ u = (st.assign c v).reading s :=
    fun _ _ => h.news?_iff rest tame observed discreet hp
  constructor
  · refine exists_isGentlePass hagenda (fun t ht => ?_) fun s hs => hwatchers s ?_
    · obtain ⟨s, -, rfl | rfl⟩ := mem_updates.mp ht <;> rfl
    · rwa [toldBy_updates] at hs
  · intro ms hms
    obtain ⟨hreactions, hsettling⟩ := hstage.play hdistinct hwatchers (h.assign rest c hv)
      (List.forall_mem_cons.mpr ⟨isTame_assign st c v, tame⟩) hms.1 hms.2
    refine ⟨fun s u => ?_, ?_, ?_, fun s w hw => ?_, fun s w hw => ?_⟩
    · rw [hreactions, mem_due]
      exact hnews s u
    · rw [hreactions, map_fst_due]
      exact hdistinct.filter _
    · rw [hreactions, map_fst_due]
      exact List.filter_sublist.trans List.filter_sublist
    · obtain ⟨w', hw', -, hseen⟩ := hsettling s w (watcher?_assign.trans hw)
      exact ⟨w', hw', hseen.trans (seen_eq_of_news?_iff (hnews s) w.seen)⟩
    · obtain ⟨w', hw', habides, -⟩ := hsettling s w (watcher?_assign.trans hw)
      rw [reading, hw', reading, watcher?_assign, hw]
      simp only [habides.root, habides.path, habides.read]

end Rest

/-! ## Watchers of one field -/

/-- Three watchers of one field, and one of the whole record that holds it. -/
def watchedThrice : List Move :=
  [.operate .newRecord, .operate (.writeField ⟨⟨0⟩, "a"⟩ (.text "1")),
    .operate .newRecord, .operate (.writeField ⟨⟨1⟩, "o"⟩ (.record ⟨0⟩)),
    .operate (.observe (.record ⟨1⟩)), .operate (.watch ⟨1⟩ "o.a" ⟨0⟩),
    .operate (.watch ⟨1⟩ "o" ⟨1⟩), .operate (.watch ⟨0⟩ "a" ⟨2⟩), .operate (.watch ⟨0⟩ "a" ⟨3⟩)]

/-- A write of the field can run the callbacks of the three, and not the callback of the fourth. -/
theorem runsAffected_watchedThrice :
    let st := ({} : State).play watchedThrice
    let st' := st.assign ⟨0⟩ (.text "2")
    ∃ ms, IsGentlePass st' ms ∧
      RunsAffected st ⟨⟨0⟩, "a"⟩ (st.cells.get ⟨0⟩).channel st' ms ∧
      ∀ s v, (s, v) ∈ st'.reactions ms → s ∈ [⟨0⟩, ⟨2⟩, ⟨3⟩] := by
  intro st st'
  have hruns := Run.runsAffected (v := .text "2")
    (Run.play .start watchedThrice (by decide +kernel)) (by decide +kernel) (by decide +kernel)
    (by decide +kernel) (by decide +kernel) (by decide +kernel)
    (p := ⟨⟨0⟩, "a"⟩) (c := ⟨0⟩) (by decide +kernel) nofun
  obtain ⟨⟨ms, hms⟩, hall⟩ := hruns.2 (by decide +kernel)
  have hruns := hall ms hms
  refine ⟨ms, hms, hruns, fun s v hs => ?_⟩
  have hmem := hruns.order.subset (List.mem_map_of_mem hs)
  have hlist : st.channels.get (st.cells.get ⟨0⟩).channel = [⟨0⟩, ⟨2⟩, ⟨3⟩] := by decide +kernel
  exact hlist ▸ hmem

/-- Whether the transition makes no field reactive by force. -/
def Transition.definesNothing (t : Transition) : Bool :=
  match t.move with
  | .operate o => !o.isDefinition
  | _ => true

/-- A watcher of a field is taken off the field's channel by hand. -/
def takenOff : List Move :=
  [.operate .newRecord, .operate (.writeField ⟨⟨0⟩, "a"⟩ (.text "1")),
    .operate (.observe (.record ⟨0⟩)), .operate (.watch ⟨0⟩ "a" ⟨0⟩),
    .operate (.unsubscribe ⟨0⟩ ⟨0⟩)]

/-- The callback of the first of three watchers tells the last one by hand, so that it is the last
one that reacts next. -/
def toldByHand : List Move :=
  [.work, .enter, .operate (.tell ⟨3⟩), .work, .enter, .finish, .work, .work, .finish, .work, .work,
    .work, .enter, .finish, .work, .work, .work, .work]

/-- A watcher that was taken off by hand is not told, and a callback that tells a watcher by hand
changes the order. So it does not suffice that callbacks write nothing and move no subscriptions. -/
theorem not_always_runsAffected :
    (¬ ∀ (ts : List Transition) (st : State) (p : Slot) (c : CellId) (v : Value), Run ts st →
        (∀ t ∈ ts, (t.keepsKeys && t.definesNothing && t.isPassive && t.isDiscreet) = true) →
        st.agenda = [] → (∀ s ∈ st.subscribers.ids, ∀ t ∈ ts, t.startsObserved s = true) →
        (∀ s ∈ st.subscribers.ids, (st.watcher? s).isSome = true) → st.cell? p = some c →
        st.differs c v = true → ∀ ms, IsGentlePass (st.assign c v) ms →
        RunsAffected st p (st.cells.get c).channel (st.assign c v) ms) ∧
      ¬ ∀ (ts : List Transition) (st : State) (p : Slot) (c : CellId) (v : Value), Run ts st →
        (∀ t ∈ ts, (t.isTame && t.isPassive) = true) → st.agenda = [] →
        (∀ s ∈ st.subscribers.ids, ∀ t ∈ ts, t.startsObserved s = true) →
        (∀ s ∈ st.subscribers.ids, (st.watcher? s).isSome = true) → st.cell? p = some c →
        st.differs c v = true → ∀ ms, IsPass (st.assign c v) ms →
        (∀ t ∈ played [] (st.assign c v) ms, (t.isTame && t.isPassive) = true) →
        RunsAffected st p (st.cells.get c).channel (st.assign c v) ms := by
  constructor
  · intro h
    have hruns := h _ _ ⟨⟨0⟩, "a"⟩ ⟨0⟩ (.text "2")
      (Run.play .start takenOff (by decide +kernel)) (by decide +kernel) (by decide +kernel)
      (by decide +kernel) (by decide +kernel) (by decide +kernel) (by decide +kernel) []
      ⟨⟨rfl, nofun, by decide +kernel⟩, nofun⟩
    have hreacts := (hruns.exactly ⟨0⟩ (.text "2")).mpr ⟨by decide +kernel, by decide +kernel⟩
    cases hreacts
  · intro h
    have hruns := h _ _ ⟨⟨0⟩, "a"⟩ ⟨0⟩ (.text "2")
      (Run.play .start watchedThrice (by decide +kernel)) (by decide +kernel) (by decide +kernel)
      (by decide +kernel) (by decide +kernel) (by decide +kernel) (by decide +kernel) toldByHand
      ⟨by decide +kernel, by decide +kernel, by decide +kernel⟩ (by decide +kernel)
    have horder := hruns.order
    revert horder
    decide +kernel

end DataBinding
