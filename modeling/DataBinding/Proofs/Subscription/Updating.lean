import DataBinding.Proofs.Subscription.Disposal
import DataBinding.Proofs.Tracking

set_option autoImplicit false

/-! # Telling a watcher twice

A watcher that is told reads its path again and moves to the channels along it. If it is told once
more, and nobody has written a record or changed a subscription in the meantime, it finds all as it
left it: it is on the channels along its path, its list names just these, and it has seen the value
that it reads (`UpToDate`). So telling it twice comes to the same as telling it once
(`Run.updates_twice`).

That the path is read again must be neutral then, which it is if the watcher has just read it
(`Joined.reread`). While the watcher is told it is held once more; that it has the same holders
afterwards is said by `step_letGo`.
-/

namespace DataBinding

namespace Subscriber

theorem holders_mapWatcher (f : Watcher → Watcher) (b : Subscriber) :
    (b.mapWatcher f).holders = b.holders := by
  unfold mapWatcher
  split <;> rfl

/-- How many hold a watcher has no part in how it changes. -/
theorem mapWatcher_holders (f : Watcher → Watcher) (b : Subscriber) (n : Nat) :
    ({ b with holders := n } : Subscriber).mapWatcher f = { b.mapWatcher f with holders := n } := by
  obtain ⟨role, holders⟩ := b
  cases role <;> rfl

end Subscriber

namespace State

variable {st st₁ st' : State} {s u : SubscriberId} {w : Watcher} {l : List ChannelId}

/-! ## Reading a path again changes nothing else -/

theorem reread_rest (st : State) (s : SubscriberId) (w : Watcher) :
    st.reread s w = { st with
      channels := (st.reread s w).channels
      subscribers := st.subscribers.modify s
        (Subscriber.mapWatcher fun w' => { w' with sources := st.sourcesReread s w }) } := by
  have htracked : (st.track { reader := s } w.root w.path).2 =
      { st with channels := (st.track { reader := s } w.root w.path).2.channels } :=
    subscribeAll_rest st _ s
  rw [reread_eq, leave_rest, htracked]
  rfl

/-! ### The others on a channel -/

theorem filter_subscribe (st : State) (d : ChannelId) (s : SubscriberId) (c : ChannelId) :
    ((st.subscribe d s).channels.get c).filter (· ≠ s) = (st.channels.get c).filter (· ≠ s) := by
  unfold subscribe
  split
  · show ((st.channels.modify d (· ++ [s])).get c).filter (· ≠ s) = _
    rw [Table.get_modify]
    split
    · simp
    · rfl
  · rfl

theorem filter_subscribeAll (st : State) (l : List ChannelId) (s : SubscriberId) (c : ChannelId) :
    ((st.subscribeAll l s).channels.get c).filter (· ≠ s) =
      (st.channels.get c).filter (· ≠ s) := by
  induction l generalizing st with
  | nil => rfl
  | cons d rest ih => exact (ih (st.subscribe d s)).trans (filter_subscribe st d s c)

/-- Whoever else is on a channel stays there, in the order in which they were. -/
theorem filter_reread (st : State) (s : SubscriberId) (w : Watcher) (c : ChannelId) :
    ((st.reread s w).channels.get c).filter (· ≠ s) = (st.channels.get c).filter (· ≠ s) := by
  rw [reread_eq, filter_leave]
  exact filter_subscribeAll st _ s c

/-! ### What reading again depends on -/

theorem channels_subscribeAll_congr (hchannels : st'.channels = st.channels)
    (halive : st'.isAlive s = st.isAlive s) (l : List ChannelId) :
    (st'.subscribeAll l s).channels = (st.subscribeAll l s).channels := by
  induction l generalizing st st' with
  | nil => exact hchannels
  | cons c rest ih =>
      have hfirst : (st'.subscribe c s).channels = (st.subscribe c s).channels := by
        have hcan : st'.canSubscribe c s = st.canSubscribe c s := by
          simp only [canSubscribe, isSubscribed, hchannels, halive]
        unfold subscribe
        rw [hcan]
        split
        · exact congrArg (fun t => Table.modify t c (· ++ [s])) hchannels
        · exact hchannels
      exact ih hfirst (isAlive_subscribe.trans (halive.trans isAlive_subscribe.symm))

theorem channels_leave_congr (hchannels : st'.channels = st.channels) (l : Sources) :
    (st'.leave l s).channels = (st.leave l s).channels := by
  induction l generalizing st st' with
  | nil => exact hchannels
  | cons c rest ih =>
      have hfirst : (st'.unsubscribe c s).channels = (st.unsubscribe c s).channels := by
        unfold unsubscribe
        rw [hchannels]
      exact ih hfirst

section Congr

variable (hgraph : SameGraph st st') (hchannels : st'.channels = st.channels)
  (halive : st'.isAlive s = st.isAlive s)

include hgraph hchannels halive

theorem sourcesReread_congr (w : Watcher) : st'.sourcesReread s w = st.sourcesReread s w := by
  have htracked := channels_subscribeAll_congr hchannels halive (st.channelsRead w.root w.path)
  simp only [sourcesReread, track, noteReads, isSubscribed, hgraph.channelsRead, htracked]

theorem channels_reread_congr (w : Watcher) :
    (st'.reread s w).channels = (st.reread s w).channels := by
  rw [reread_eq, reread_eq, sourcesReread_congr hgraph hchannels halive]
  apply channels_leave_congr
  show (st'.subscribeAll (st'.channelsRead w.root w.path) s).channels = _
  rw [hgraph.channelsRead]
  exact channels_subscribeAll_congr hchannels halive _

end Congr

/-! ## A watcher that has just read its path -/

/-- The watcher `w` is on all channels along its path, and its list names these, in the order in
which they are visited. -/
structure Joined (st : State) (s : SubscriberId) (w : Watcher) : Prop where
  on : ∀ c ∈ st.channelsRead w.root w.path, s ∈ st.channels.get c
  sources : w.sources = (st.channelsRead w.root w.path).eraseDups

theorem subscribeAll_eq_self (h : ∀ c ∈ l, s ∈ st.channels.get c) : st.subscribeAll l s = st := by
  induction l with
  | nil => rfl
  | cons c rest ih =>
      have hfirst : st.subscribe c s = st := by
        simp [subscribe, canSubscribe, isSubscribed, h c List.mem_cons_self]
      show (st.subscribe c s).subscribeAll rest s = st
      rw [hfirst]
      exact ih fun d hd => h d (List.mem_cons_of_mem _ hd)

theorem role_of_get? {b : Subscriber} (hw : st.watcher? s = some w)
    (hb : st.subscribers.get? s = some b) : b.role = .watcher w := by
  have hrole := role_of_watcher? hw
  rw [Table.get, hb] at hrole
  exact hrole

/-- Reading the path again changes nothing when the watcher has just read it. -/
theorem Joined.reread (h : Joined st s w) (hw : st.watcher? s = some w) : st.reread s w = st := by
  have htracked : (st.track { reader := s } w.root w.path).2 = st := subscribeAll_eq_self h.on
  have hon : (st.channelsRead w.root w.path).filter (fun c => st.isSubscribed c s) =
      st.channelsRead w.root w.path :=
    List.filter_eq_self.mpr fun c hc => decide_eq_true (h.on c hc)
  have hsources : st.sourcesReread s w = w.sources := by
    show (((st.track { reader := s } w.root w.path).2).noteReads _ _).sources = _
    rw [htracked, h.sources]
    simp only [noteReads, hon, foldl_note_eq]
    simp
  have hlisted : st.updateWatcher s (fun w' => { w' with sources := w.sources }) = st := by
    have hsubscribers : st.subscribers.modify s
        (Subscriber.mapWatcher fun w' => { w' with sources := w.sources }) = st.subscribers := by
      apply Table.modify_eq_self
      intro b hb
      obtain ⟨role, holders⟩ := b
      cases role_of_get? hw hb
      rfl
    rw [updateWatcher, hsubscribers]
  rw [reread_eq, htracked, hsources, hlisted, List.filter_eq_nil_iff.mpr (by simp)]
  rfl

/-- A living watcher that reads its path has joined the channels along it afterwards. -/
theorem joined_reread (alive : st.isAlive s = true)
    (known : ∀ c ∈ st.channelsRead w.root w.path, c.index < st.channels.size) (v : Value) :
    Joined (st.reread s w) s { w with sources := st.sourcesReread s w, seen := v } := by
  have hgraph : SameGraph st (st.reread s w) := (onlySubscriptions_reread st s w).graph
  constructor
  · intro c hc
    rw [hgraph.channelsRead] at hc
    rw [reread_eq, mem_leave, mem_updateWatcher, mem_track]
    have hlisted : c ∈ st.sourcesReread s w :=
      mem_sourcesReread.mpr ⟨hc, .inr ⟨alive, known c hc⟩⟩
    refine ⟨.inr ⟨hc, rfl, alive, known c hc⟩, fun hleft => ?_⟩
    simp [hlisted] at hleft
  · show st.sourcesReread s w = _
    rw [hgraph.channelsRead, sourcesReread, track_noted alive known]
    simp

/-! ## Nobody writes or subscribes -/

/-- From `st` to `st'` no record is written and no subscription is changed: every channel has the
same subscribers in the same order, and every watcher has its path and its list as before. -/
structure Spares (st st' : State) : Prop where
  records : ∀ r, st'.records.get r = st.records.get r
  cells : ∀ c, st'.cells.get c = st.cells.get c
  channels : ∀ c, st'.channels.get c = st.channels.get c
  watcher : ∀ s w, st.watcher? s = some w → ∃ w', st'.watcher? s = some w' ∧ w'.root = w.root ∧
    w'.path = w.path ∧ w'.sources = w.sources

namespace Spares

theorem of_same (hrecords : st'.records = st.records) (hcells : st'.cells = st.cells)
    (hchannels : st'.channels = st.channels) (hsubscribers : st'.subscribers = st.subscribers) :
    Spares st st' where
  records _ := by rw [hrecords]
  cells _ := by rw [hcells]
  channels _ := by rw [hchannels]
  watcher _ w hw := ⟨w, (watcher?_congr hsubscribers).trans hw, rfl, rfl, rfl⟩

/-- A subscriber is let go that somebody else still holds. -/
theorem release (s : SubscriberId) (h : 1 < st.holders s) : Spares st (st.release s) := by
  have hpos : 0 < (st.subscribers.get s).holders - 1 := by
    show 0 < st.holders s - 1
    omega
  have hwatcher : ∀ u, (st.release s).watcher? u = st.watcher? u := by
    intro u
    rw [watcher?_release, if_neg (by omega)]
  simp only [State.release, hpos, if_true] at hwatcher ⊢
  exact ⟨fun _ => rfl, fun _ => rfl, fun _ => rfl,
    fun u w hw => ⟨w, (hwatcher u).trans hw, rfl, rfl, rfl⟩⟩

variable (h : Spares st st')

include h

theorem field? (p : Slot) : st'.field? p = st.field? p := by
  rw [State.field?, h.records, State.field?]

theorem content (p : Slot) : st'.content p = st.content p := by
  have hvalue : st'.fieldValue = st.fieldValue := by
    funext f
    cases f with
    | plain v => rfl
    | reactive c => rw [fieldValue, h.cells, fieldValue]
  rw [State.content, h.field?, hvalue, State.content]

theorem read (root : RecordId) (path : String) : st'.read root path = st.read root path :=
  read_congr (fun r => by rw [h.records]) h.content root path

theorem channelsRead (root : RecordId) (path : String) :
    st'.channelsRead root path = st.channelsRead root path := by
  have hchannel : st'.channel? = st.channel? := by
    funext p
    simp only [channel?, cell?, h.field?, h.cells]
  have htrail := trail_congr (fun r => by rw [h.records])
    (fun p => congrArg Value.record? (h.content p)) root path
  rw [State.channelsRead, htrail, hchannel, State.channelsRead]

end Spares

theorem Joined.spared (h : Joined st s w) (hspares : Spares st st') {w' : Watcher}
    (hroot : w'.root = w.root) (hpath : w'.path = w.path) (hsources : w'.sources = w.sources) :
    Joined st' s w' := by
  have hchannels : st'.channelsRead w'.root w'.path = st.channelsRead w.root w.path := by
    rw [hroot, hpath, hspares.channelsRead]
  refine ⟨fun c hc => ?_, ?_⟩
  · rw [hspares.channels]
    exact h.on c (hchannels ▸ hc)
  · rw [hsources, h.sources, hchannels]

/-- The watcher `s` has just read its path, which leads to `v`. -/
def HasRead (st : State) (s : SubscriberId) (v : Value) : Prop :=
  ∃ w, st.watcher? s = some w ∧ Joined st s w ∧ st.read w.root w.path = v

theorem HasRead.spared {v : Value} (h : HasRead st s v) (hspares : Spares st st') :
    HasRead st' s v := by
  obtain ⟨w, hw, hjoined, hread⟩ := h
  obtain ⟨w', hw', hroot, hpath, hsources⟩ := hspares.watcher s w hw
  refine ⟨w', hw', hjoined.spared hspares hroot hpath hsources, ?_⟩
  rw [hspares.read, hroot, hpath, hread]

/-- Telling the watcher would be in vain: it is disposed of, or it has just read its path and has
seen the value that it read. -/
def UpToDate (st : State) (s : SubscriberId) : Prop :=
  ∃ w, st.watcher? s = some w ∧
    (w.disposed = true ∨ Joined st s w ∧ (st.read w.root w.path).same w.seen = true)

theorem UpToDate.spared (h : UpToDate st s) (hspares : Spares st st')
    (hwatcher : st'.watcher? s = st.watcher? s) : UpToDate st' s := by
  obtain ⟨w, hw, hup⟩ := h
  refine ⟨w, hwatcher.trans hw, hup.imp id fun hjoined => ⟨?_, ?_⟩⟩
  · exact hjoined.1.spared hspares rfl rfl rfl
  · rw [hspares.read]
    exact hjoined.2

/-- A watcher that keeps what it has just read is up to date. -/
theorem HasRead.remember {v : Value} (h : HasRead st s v) : UpToDate (st.remember s v) s := by
  obtain ⟨w, hw, hjoined, hread⟩ := h
  have hnow : (st.remember s v).watcher? s = some { w with seen := v } := by
    rw [watcher?_remember, if_pos rfl, hw]
    rfl
  have hgraph : SameGraph st (st.remember s v) := ⟨rfl, rfl⟩
  refine ⟨_, hnow, .inr ⟨⟨?_, ?_⟩, ?_⟩⟩
  · rw [hgraph.channelsRead]
    exact hjoined.on
  · rw [hgraph.channelsRead]
    exact hjoined.sources
  · rw [hgraph.read, hread]
    exact Value.same_self _

/-! ## Telling a watcher -/

/-- The state in which a subscriber that is told does what it does: it is held, and will be let go
afterwards. -/
def beingTold (st : State) (s : SubscriberId) : State :=
  { st.hold s with agenda := .release s :: st.agenda }

theorem step_tell (st : State) (s : SubscriberId) :
    (st.tell s).step = (st.beingTold s).update s := rfl

theorem watcher?_beingTold : (st.beingTold s).watcher? u = st.watcher? u := watcher?_hold

theorem isAlive_beingTold : (st.beingTold s).isAlive u = st.isAlive u := isAlive_hold

theorem sameGraph_beingTold (st : State) (s : SubscriberId) : SameGraph st (st.beingTold s) :=
  ⟨rfl, rfl⟩

/-- Whoever else still holds the watcher, it stays up to date when it is let go. -/
theorem UpToDate.letGo {rest : List Task} (h : UpToDate st s)
    (hagenda : st.agenda = .release s :: rest) (alive : st.step.isAlive s = true) :
    UpToDate st.step s := by
  have hstep : st.step = ({ st with agenda := rest } : State).release s := step_eq hagenda
  rw [hstep] at alive ⊢
  have hheld : 1 < ({ st with agenda := rest } : State).holders s := by
    rw [isAlive_iff, holders_release, if_pos rfl] at alive
    omega
  have hup : UpToDate { st with agenda := rest } s :=
    h.spared (.of_same rfl rfl rfl rfl) (watcher?_congr rfl)
  apply hup.spared (.release s hheld)
  rw [watcher?_release, if_neg (by omega)]

/-- When a subscriber that was held has changed and is let go, it has the same holders as before. -/
theorem step_letGo (alive : st.isAlive s = true) {f : Subscriber → Subscriber}
    (hholders : ∀ b, (f b).holders = b.holders)
    (hf : ∀ b n, f { b with holders := n } = { f b with holders := n })
    (hagenda : st₁.agenda = .release s :: st.agenda)
    (hsubscribers : st₁.subscribers = (st.hold s).subscribers.modify s f) :
    st₁.step = { st₁ with agenda := st.agenda, subscribers := st.subscribers.modify s f } := by
  have hlive : 0 < st.holders s := isAlive_iff.mp alive
  have hsize : s.index < st.subscribers.size := lt_size_of_isAlive alive
  have hheld : (st₁.subscribers.get s).holders = st.holders s + 1 := by
    rw [hsubscribers, Table.get_modify_eq (by simpa using hsize), hholders]
    show (st.hold s).holders s = _
    rw [holders_hold, if_pos ⟨rfl, hlive⟩]
  have hback : (st₁.subscribers.modify s fun b => { b with holders := st.holders s + 1 - 1 }) =
      st.subscribers.modify s f := by
    rw [hsubscribers, State.hold, Table.modify_modify, Table.modify_modify]
    refine Table.modify_congr fun b hb => ?_
    have hb' : st.holders s = b.holders := by
      rw [holders, Table.get, hb]
      rfl
    rw [hb'] at hlive ⊢
    show ({ f (if 0 < b.holders then _ else b) with holders := b.holders } : Subscriber) = f b
    rw [if_pos hlive, hf]
    rw [← hholders b]
  have hstep : st₁.step = ({ st₁ with agenda := st.agenda } : State).release s := step_eq hagenda
  have hpos : 0 < st.holders s + 1 - 1 := by omega
  rw [hstep, State.release]
  simp only [hheld, hpos, if_true, hback]

/-- A watcher that is disposed of, or that reads what it has seen, calls nobody when it is told. -/
theorem tell_of_silent (hw : st.watcher? s = some w) (alive : st.isAlive s = true)
    (hsilent : w.disposed = true ∨ (st.read w.root w.path).same w.seen = true) :
    (st.tell s).step.agenda = .release s :: st.agenda ∧
      (st.tell s).step.step = if w.disposed then st else st.reread s w := by
  have hsame : ∀ t : Table .subscriber Subscriber, t.modify s id = t :=
    fun t => Table.modify_eq_self fun _ _ => rfl
  rw [step_tell, update_eq (watcher?_beingTold.trans hw)]
  cases hdisposed : w.disposed with
  | true =>
      refine ⟨rfl, ?_⟩
      simp only [if_true]
      have hback : (st.beingTold s).step = { st.beingTold s with
          agenda := st.agenda, subscribers := st.subscribers.modify s id } :=
        step_letGo alive (fun _ => rfl) (fun _ _ => rfl) rfl (hsame _).symm
      rw [hback, hsame]
      rfl
  | false =>
      have hseen : (st.read w.root w.path).same w.seen = true := by simpa [hdisposed] using hsilent
      have hgraph := sameGraph_beingTold st s
      have hsubscribers : ((st.beingTold s).reread s w).subscribers =
          (st.hold s).subscribers.modify s
            (Subscriber.mapWatcher fun w' => { w' with sources := st.sourcesReread s w }) := by
        rw [reread_rest, sourcesReread_congr hgraph rfl isAlive_beingTold]
        rfl
      have hchannels : ((st.beingTold s).reread s w).channels = (st.reread s w).channels :=
        channels_reread_congr hgraph rfl isAlive_beingTold w
      simp only [hgraph.read, hseen, if_true, Bool.false_eq_true, if_false]
      refine ⟨agenda_reread _ s w, ?_⟩
      rw [step_letGo alive ?_ ?_ (agenda_reread _ s w) hsubscribers, reread_rest st,
        reread_rest (st.beingTold s), hchannels]
      · rfl
      · exact Subscriber.holders_mapWatcher _
      · exact Subscriber.mapWatcher_holders _

/-- A watcher that is up to date stays as it is when it is told, and so does everything else. -/
theorem UpToDate.tell (h : UpToDate st s) (alive : st.isAlive s = true) :
    (st.tell s).step.agenda = .release s :: st.agenda ∧ (st.tell s).step.step = st := by
  obtain ⟨w, hw, hup⟩ := h
  obtain ⟨hagenda, htold⟩ := tell_of_silent hw alive (hup.imp id (·.2))
  refine ⟨hagenda, ?_⟩
  rw [htold]
  split
  · rfl
  · rename_i hlive
    rcases hup with hdisposed | ⟨hjoined, -⟩
    · exact absurd hdisposed hlive
    · exact hjoined.reread hw

/-- The watcher `s` is told in `st`, and when all that follows is over, the state is `st'`. -/
inductive Updates (s : SubscriberId) (st : State) : State → Prop where
  /-- It calls nobody. -/
  | silent (quiet : (st.tell s).step.agenda = .release s :: st.agenda) :
      Updates s st (st.tell s).step.step
  /-- It calls the host, and whatever the host does with the call, it writes no record and changes
  no subscription. -/
  | called (c : Callback) (v : Value) (ms : List Move)
      (asks : (st.tell s).step.agenda =
        .call (.changed c v) :: .remember s v :: .release s :: st.agenda)
      (possible : (st.tell s).step.canPlay ms = true)
      (returned : ((st.tell s).step.play ms).agenda = .remember s v :: .release s :: st.agenda)
      (spares : Spares (st.tell s).step ((st.tell s).step.play ms)) :
      Updates s st ((st.tell s).step.play ms).step.step

/-- The host may do nothing when it is called. -/
theorem Updates.answered {c : Callback} {v : Value} (asks : (st.tell s).step.agenda =
      .call (.changed c v) :: .remember s v :: .release s :: st.agenda) :
    Updates s st ((st.tell s).step.play [.enter, .finish]).step.step := by
  obtain ⟨hpossible, hplay⟩ := play_enter_finish asks
  refine .called c v _ asks hpossible ?_ ?_
  · rw [hplay]
  · rw [hplay]
    exact .of_same rfl rfl rfl rfl

section Told

variable (hw : st.watcher? s = some w) (alive : st.isAlive s = true)
  (known : ∀ c ∈ st.channelsRead w.root w.path, c.index < st.channels.size)

include hw alive known

/-- A watcher that is told and reads its path has joined the channels along it. -/
theorem joined_reread_beingTold :
    let w' := { w with sources := (st.beingTold s).sourcesReread s w }
    ((st.beingTold s).reread s w).watcher? s = some w' ∧
      Joined ((st.beingTold s).reread s w) s w' ∧
      ((st.beingTold s).reread s w).read w.root w.path = (st.beingTold s).read w.root w.path := by
  refine ⟨watcher?_reread_self (watcher?_beingTold.trans hw), ?_, ?_⟩
  · apply joined_reread (isAlive_beingTold.trans alive) _ w.seen
    rw [(sameGraph_beingTold st s).channelsRead]
    exact known
  · exact (onlySubscriptions_reread (st.beingTold s) s w).graph.read w.root w.path

theorem hasRead_reread_beingTold :
    HasRead ((st.beingTold s).reread s w) s ((st.beingTold s).read w.root w.path) :=
  ⟨_, joined_reread_beingTold hw alive known⟩

/-- A watcher that is told calls nobody, and then it is up to date, or it hands to the host what it
has just read. -/
theorem tell_cases :
    ((st.tell s).step.agenda = .release s :: st.agenda ∧ UpToDate (st.tell s).step s) ∨
      ∃ c v, (st.tell s).step.agenda =
          .call (.changed c v) :: .remember s v :: .release s :: st.agenda ∧
        HasRead (st.tell s).step s v := by
  have htelling := telling_update (st.beingTold s) s
  have hagenda : (st.beingTold s).agenda = .release s :: st.agenda := rfl
  have hread := hasRead_reread_beingTold hw alive known
  rw [step_tell]
  generalize (st.beingTold s).update s = told at htelling ⊢
  cases htelling with
  | probe c hs =>
      rw [watcher?_beingTold, hw] at hs
      cases hs
  | disposed w₁ hw₁ hdisposed => exact .inl ⟨hagenda, w₁, hw₁, .inl hdisposed⟩
  | unchanged w₁ hw₁ hlive hsame =>
      cases hw.symm.trans (watcher?_beingTold.symm.trans hw₁)
      obtain ⟨hw', hjoined, hagain⟩ := joined_reread_beingTold hw alive known
      refine .inl ⟨(agenda_reread ..).trans hagenda, _, hw', .inr ⟨hjoined, ?_⟩⟩
      rw [hagain]
      exact hsame
  | shown w₁ n hw₁ hlive hdiffers hreaction =>
      cases hw.symm.trans (watcher?_beingTold.symm.trans hw₁)
      refine .inl ⟨?_, ?_⟩
      · rw [agenda_remember, agenda_setText, agenda_reread, hagenda]
      · rw [setText_rest]
        apply HasRead.remember
        exact hread.spared (.of_same rfl rfl rfl rfl)
  | valued w₁ n nodes hw₁ hlive hdiffers hreaction hkinds =>
      cases hw.symm.trans (watcher?_beingTold.symm.trans hw₁)
      refine .inl ⟨?_, ?_⟩
      · rw [agenda_remember]
        exact (agenda_reread ..).trans hagenda
      · apply HasRead.remember
        exact hread.spared (.of_same rfl rfl rfl rfl)
  | called w₁ c hw₁ hlive hdiffers hreaction =>
      cases hw.symm.trans (watcher?_beingTold.symm.trans hw₁)
      refine .inr ⟨c, (st.beingTold s).read w.root w.path, ?_, ?_⟩
      · rw [agenda_push, agenda_reread, hagenda]
        rfl
      · exact hread.spared (.of_same rfl rfl rfl rfl)

/-- Telling a watcher can always come to an end: if it calls the host, the host may do nothing. -/
theorem exists_updates : ∃ st', Updates s st st' := by
  rcases tell_cases hw alive known with ⟨hquiet, -⟩ | ⟨c, v, hasks, -⟩
  · exact ⟨_, .silent hquiet⟩
  · exact ⟨_, .answered hasks⟩

/-- A living watcher that has been told is up to date when all is over. -/
theorem Updates.upToDate (h : Updates s st st') (alive' : st'.isAlive s = true) :
    UpToDate st' s := by
  cases h with
  | silent quiet =>
      rcases tell_cases hw alive known with ⟨-, hup⟩ | ⟨c, v, hasks, -⟩
      · exact hup.letGo quiet alive'
      · cases quiet.symm.trans hasks
  | called c v ms asks possible returned spares =>
      have hread : HasRead (st.tell s).step s v := by
        rcases tell_cases hw alive known with ⟨hquiet, -⟩ | ⟨c', v', hasks, hread⟩
        · cases hquiet.symm.trans asks
        · cases asks.symm.trans hasks
          exact hread
      -- The value is kept that was read before the call, and the path still leads to it.
      have hstep : ((st.tell s).step.play ms).step =
          ({ (st.tell s).step.play ms with agenda := .release s :: st.agenda } : State).remember s v :=
        step_eq returned
      have hkept : UpToDate ((st.tell s).step.play ms).step s := by
        rw [hstep]
        apply HasRead.remember
        exact (hread.spared spares).spared (.of_same rfl rfl rfl rfl)
      exact hkept.letGo (by rw [hstep, agenda_remember]) alive'

end Told

/-! ## Who is told without a call -/

/-- What follows when a watcher is told is settled if it calls nobody. -/
theorem updates_iff (quiet : (st.tell s).step.agenda = .release s :: st.agenda) :
    Updates s st st' ↔ st' = (st.tell s).step.step := by
  constructor
  · rintro (_ | ⟨c, v, ms, asks⟩)
    · rfl
    · rw [quiet] at asks
      cases asks
  · rintro rfl
    exact .silent quiet

/-- From `st` to `st'` nothing has changed but which channels the watcher `s` is on and which of
them its list names. -/
structure OnlyMoves (s : SubscriberId) (st st' : State) : Prop where
  watcher : ∀ w, st.watcher? s = some w → ∃ l, st'.watcher? s = some { w with sources := l }
  holders : st'.holders s = st.holders s
  subscribers : ∀ u, u ≠ s → st'.subscribers.get? u = st.subscribers.get? u
  /-- The others on a channel are the same, in the same order. -/
  channels : ∀ c, (st'.channels.get c).filter (· ≠ s) = (st.channels.get c).filter (· ≠ s)
  others : st' = { st with channels := st'.channels, subscribers := st'.subscribers }

theorem OnlyMoves.refl (s : SubscriberId) (st : State) : OnlyMoves s st st :=
  ⟨fun w hw => ⟨w.sources, hw⟩, rfl, fun _ _ => rfl, fun _ => rfl, rfl⟩

theorem onlyMoves_reread (st : State) (s : SubscriberId) (w : Watcher) :
    OnlyMoves s st (st.reread s w) where
  watcher _ hw := ⟨_, watcher?_reread_self hw⟩
  holders := holders_reread w
  subscribers u hu := by
    rw [reread_rest]
    exact Table.get?_modify_ne _ (Ne.symm hu) _
  channels := filter_reread st s w
  others := by
    rw [reread_rest]

end State

open State

/-- Telling a watcher twice, while the host neither writes a record nor changes a subscription,
comes to the same as telling it once, and the second time nobody is called. A watcher that reads
what it has seen calls nobody even the first time, and nothing changes but its own subscriptions. -/
theorem Run.updates_twice {ts : List Transition} {st : State} (h : Run ts st) {s : SubscriberId}
    {w : Watcher} (hw : st.watcher? s = some w) (alive : st.isAlive s = true) :
    (∃ st', Updates s st st') ∧
    (∀ st', Updates s st st' → st'.isAlive s = true →
      (st'.tell s).step.agenda = .release s :: st'.agenda ∧
        ∀ st'', Updates s st' st'' ↔ st'' = st') ∧
    ((st.read w.root w.path).same w.seen = true →
      (st.tell s).step.agenda = .release s :: st.agenda ∧
        ∃ st', OnlyMoves s st st' ∧ ∀ st'', Updates s st st'' ↔ st'' = st') := by
  have hknown : ∀ c ∈ st.channelsRead w.root w.path, c.index < st.channels.size :=
    fun c => channelsRead_lt_size h.graph.celled h.channelled
  refine ⟨?_, fun st' hupdates alive' => ?_, fun hsame => ?_⟩
  · exact exists_updates hw alive hknown
  · obtain ⟨hquiet, hback⟩ := (hupdates.upToDate hw alive hknown alive').tell alive'
    refine ⟨hquiet, fun st'' => ?_⟩
    rw [updates_iff hquiet, hback]
  · obtain ⟨hquiet, htold⟩ := tell_of_silent hw alive (.inr hsame)
    refine ⟨hquiet, (st.tell s).step.step, ?_, fun st'' => updates_iff hquiet⟩
    rw [htold]
    split
    · exact .refl s st
    · exact onlyMoves_reread st s w

/-- A watcher of the path `a.x` that has missed that another record was put in the place of `a`. -/
def missedReplacement : List Move :=
  [.operate .newRecord, .operate .newRecord, .operate .newRecord,
    .operate (.writeField ⟨⟨1⟩, "x"⟩ (.text "one")),
    .operate (.writeField ⟨⟨2⟩, "x"⟩ (.text "two")),
    .operate (.writeField ⟨⟨0⟩, "a"⟩ (.record ⟨1⟩)), .operate (.observe (.record ⟨0⟩)),
    .operate (.watch ⟨0⟩ "a.x" ⟨0⟩), .operate (.unsubscribe ⟨1⟩ ⟨0⟩),
    .operate (.writePath ⟨0⟩ "a" (.record ⟨2⟩))]

/-- It joins one channel again, another one for the first time, leaves a third and calls the host;
when it is told once more, it does nothing. -/
theorem updates_twice_missedReplacement :
    let st := ({} : State).play missedReplacement
    let s : SubscriberId := ⟨0⟩
    let st' := ((st.tell s).step.play [.enter, .finish]).step.step
    Updates s st st' ∧ st.channels.ids.map st.channels.get = [[s], [], []] ∧
      st'.channels.ids.map st'.channels.get = [[], [s], [s]] ∧
      (st'.tell s).step.agenda = [.release s] ∧ ∀ st'', Updates s st' st'' ↔ st'' = st' := by
  intro st s st'
  have hrun : Run _ st := Run.play .start missedReplacement (by decide +kernel)
  have hw : st.watcher? s = some (((st.watcher? s)).getD default) := by decide +kernel
  have htwice := Run.updates_twice hrun hw (by decide +kernel)
  have hupdates : Updates s st st' :=
    .answered (c := ⟨0⟩) (v := .text "two") (by decide +kernel)
  obtain ⟨hquiet, hfixed⟩ := htwice.2.1 st' hupdates (by decide +kernel)
  have hagenda : st'.agenda = [] := by decide +kernel
  rw [hagenda] at hquiet
  exact ⟨hupdates, by decide +kernel, by decide +kernel, hquiet, hfixed⟩

end DataBinding
