import DataBinding.Proofs.Subscription.Channelled
import DataBinding.Proofs.Writing

set_option autoImplicit false

/-! # Tracked reads

A tracked read goes along a path field by field. The field that it comes to is tracked first: if it
is reactive, the reader joins its channel. Only then is the value taken, and if it is a record, the
read goes on there (`readTracking`). So reading and subscribing take turns. They do not get in each
other's way: the value is the one that is read without tracking, and the reader comes to be on the
channels along the path, as if the path had been followed first (`readTracking_eq`).

What becomes of the channels and of the reader's list is said entry by entry (`Run.tracksVisits`).
-/

namespace DataBinding

namespace State

/-! ## Field by field -/

/-- Tracks the field at a place, if it is reactive. -/
def trackField (st : State) (t : Tracking) (p : Slot) : Tracking × State :=
  match st.cell? p with
  | some c => st.trackCell t c
  | none => (t, st)

/-- Goes from record to record along field names and tracks each field before it takes its value. -/
def goAlong (st : State) (t : Tracking) : RecordId → List String → Value × Tracking × State
  | _, [] => (.undefined, t, st)
  | r, key :: rest =>
    if (st.field? ⟨r, key⟩).isNone then (.undefined, t, st)
    else
      let (t', st') := st.trackField t ⟨r, key⟩
      let v := st'.content ⟨r, key⟩
      if rest.isEmpty then (v, t', st')
      else
        match v.record? with
        | some next => st'.goAlong t' next rest
        | none => (.undefined, t', st')

/-- Reads a path for a reader, which is subscribed on the way. -/
def readTracking (st : State) (t : Tracking) (root : RecordId) (path : String) :
    Value × Tracking × State :=
  if (st.field? ⟨root, path⟩).isSome then
    let (t', st') := st.trackField t ⟨root, path⟩
    (st'.content ⟨root, path⟩, t', st')
  else st.goAlong t root (pieces path)

/-- Subscribes a reader to channels and notes those that it is on then. -/
def trackAll (st : State) (t : Tracking) (channels : List ChannelId) : Tracking × State :=
  ((st.subscribeAll channels t.reader).noteReads t channels, st.subscribeAll channels t.reader)

variable {st st' : State} {t : Tracking} {s : SubscriberId} {root r : RecordId} {path : String}
  {p : Slot} {l l' : List ChannelId}

/-! ## Channels one after another -/

theorem track_eq_trackAll (st : State) (t : Tracking) (root : RecordId) (path : String) :
    st.track t root path = st.trackAll t (st.channelsRead root path) := rfl

theorem trackField_eq_trackAll (st : State) (t : Tracking) (p : Slot) :
    st.trackField t p = st.trackAll t (st.channel? p).toList := by
  unfold trackField channel?
  cases st.cell? p with
  | none => rfl
  | some c => rfl

theorem subscribeAll_append (st : State) (l l' : List ChannelId) (s : SubscriberId) :
    st.subscribeAll (l ++ l') s = (st.subscribeAll l s).subscribeAll l' s :=
  List.foldl_append

/-- Whether the reader is on a channel that it has been subscribed to does not change any more when
it is subscribed to others. -/
theorem isSubscribed_subscribeAll_append {c : ChannelId} (hc : c ∈ l) :
    (st.subscribeAll (l ++ l') s).isSubscribed c s = (st.subscribeAll l s).isSubscribed c s := by
  simp only [isSubscribed, mem_subscribeAll, List.mem_append, hc, true_or]

/-- It makes no difference whether channels are tracked together or one after another. -/
theorem trackAll_append (st : State) (t : Tracking) (l l' : List ChannelId) :
    st.trackAll t (l ++ l') =
      (st.trackAll t l).2.trackAll (st.trackAll t l).1 l' := by
  have hfilter : l.filter (fun c => (st.subscribeAll (l ++ l') t.reader).isSubscribed c t.reader) =
      l.filter fun c => (st.subscribeAll l t.reader).isSubscribed c t.reader :=
    List.filter_congr fun c hc => isSubscribed_subscribeAll_append hc
  rw [subscribeAll_append] at hfilter
  simp only [trackAll, noteReads, List.filter_append, List.foldl_append, subscribeAll_append,
    hfilter]

/-! ## Reading and subscribing -/

theorem sameGraph_trackAll (st : State) (t : Tracking) (l : List ChannelId) :
    SameGraph st (st.trackAll t l).2 :=
  (onlySubscriptions_subscribeAll st l t.reader).graph

/-- The value that following field names leads to. -/
def valueAlong (st : State) (r : RecordId) (keys : List String) : Value :=
  ((st.follow r keys).target?.map st.content).getD .undefined

theorem target?_cons {keys : List String} (p : Slot) :
    (Trail.mk (p :: (st.follow r keys).visited) (st.follow r keys).complete).target? =
      (st.follow r keys).target? := by
  simp only [Trail.target?]
  split
  · rename_i hcomplete
    exact List.getLast?_cons_of_ne_nil (visited_ne_nil_of_complete hcomplete)
  · rfl

theorem filterMap_toList_append {α β : Type} (f : α → Option β) (a : α) (l : List α) :
    (a :: l).filterMap f = (f a).toList ++ l.filterMap f := by
  rw [List.filterMap_cons]
  cases f a <;> rfl

/-- Going along field names, the reader reads what they lead to and is subscribed to every reactive
field that is visited. -/
theorem goAlong_eq (st : State) (t : Tracking) (r : RecordId) (keys : List String) :
    st.goAlong t r keys = (st.valueAlong r keys,
      st.trackAll t ((st.follow r keys).visited.filterMap st.channel?)) := by
  induction keys generalizing st t r with
  | nil => rfl
  | cons key rest ih =>
      rw [goAlong, valueAlong, follow, trackField_eq_trackAll]
      simp only
      -- The field here is tracked first, which leaves the records and their values alone.
      generalize hnext : st.trackAll t (st.channel? ⟨r, key⟩).toList = next
      have hgraph : SameGraph st next.2 := hnext ▸ sameGraph_trackAll st t _
      have hone : st.trackAll t ([⟨r, key⟩].filterMap st.channel?) = next := by
        rw [filterMap_toList_append, List.filterMap_nil, List.append_nil, hnext]
      simp only [hgraph.content]
      split
      · rfl
      · split
        · simp only [Trail.target?, if_true, List.getLast?_singleton, Option.map_some,
            Option.getD_some, hone]
        · cases hrecord : (st.content ⟨r, key⟩).record? with
          | none =>
              simp only [Trail.target?, Bool.false_eq_true, if_false, Option.map_none,
                Option.getD_none, hone]
          | some r' =>
              have hchannels : st.channel? = next.2.channel? := by
                funext p
                exact (hgraph.channel? p).symm
              have hlater := ih next.2 next.1 r'
              rw [valueAlong, hgraph.follow, funext hgraph.content, ← hchannels] at hlater
              simp only [hlater, target?_cons, filterMap_toList_append, trackAll_append, hnext]

/-- Reading a path in turns with subscribing comes to the same as reading it and then subscribing to
the channels along it. -/
theorem readTracking_eq (st : State) (t : Tracking) (root : RecordId) (path : String) :
    st.readTracking t root path = (st.read root path, st.track t root path) := by
  rw [readTracking, track_eq_trackAll, read, channelsRead, trail]
  split
  · have hgraph := sameGraph_trackAll st t (st.channel? ⟨root, path⟩).toList
    simp only [trackField_eq_trackAll, hgraph.content, Trail.target?, if_true,
      List.getLast?_singleton, Option.map_some, Option.getD_some, filterMap_toList_append,
      List.filterMap_nil, List.append_nil]
  · exact goAlong_eq st t root (pieces path)

/-! ## What a tracked read leaves behind -/

/-- Noting channels one after another puts those that are new behind the others, each once, in the
order in which they came first. -/
theorem foldl_note_eq (l : List ChannelId) (sources : Sources) :
    l.foldl Sources.note sources = sources ++ (l.filter (· ∉ sources)).eraseDups := by
  induction l generalizing sources with
  | nil => simp
  | cons c rest ih =>
      rw [List.foldl_cons, ih]
      by_cases hc : c ∈ sources
      · simp [Sources.note, hc]
      · have hnote : Sources.note sources c = sources ++ [c] := if_neg hc
        have hhead : (c :: rest).filter (· ∉ sources) = c :: rest.filter (· ∉ sources) := by
          simp [hc]
        have hmore : rest.filter (· ∉ sources ++ [c]) =
            (rest.filter (· ∉ sources)).filter fun d => !d == c := by
          rw [List.filter_filter]
          apply List.filter_congr
          intro d _
          by_cases hd : d = c
          · simp [hd]
          · simp [hd]
        rw [hnote, hmore, hhead, List.eraseDups_cons, List.append_assoc]
        rfl

theorem subscribeAll_rest (st : State) (l : List ChannelId) (s : SubscriberId) :
    st.subscribeAll l s = { st with channels := (st.subscribeAll l s).channels } := by
  induction l generalizing st with
  | nil => rfl
  | cons c rest ih =>
      have hfirst : ∀ channels, { st.subscribe c s with channels } = { st with channels } := by
        intro channels
        unfold subscribe
        split <;> rfl
      show (st.subscribe c s).subscribeAll rest s = _
      rw [ih, hfirst]
      rfl

theorem channelsRead_lt_size (hcelled : Celled st) (hchannelled : Channelled st) {c : ChannelId}
    (hc : c ∈ st.channelsRead root path) : c.index < st.channels.size := by
  obtain ⟨p, -, hp⟩ := List.mem_filterMap.mp hc
  obtain ⟨cell, hcell, rfl⟩ := Option.map_eq_some_iff.mp hp
  exact hchannelled.known cell (hcelled.lt_size hcell)

/-- A living reader is on all channels that exist along the path, so all of them are noted. -/
theorem track_noted (alive : st.isAlive t.reader = true)
    (known : ∀ c ∈ st.channelsRead root path, c.index < st.channels.size) :
    (st.track t root path).1 = { t with
      sources := t.sources ++ ((st.channelsRead root path).filter (· ∉ t.sources)).eraseDups } := by
  let channels := st.channelsRead root path
  have hjoined : ∀ c ∈ channels,
      (st.subscribeAll channels t.reader).isSubscribed c t.reader = true :=
    fun c hc => decide_eq_true (mem_subscribeAll.mpr (.inr ⟨hc, rfl, alive, known c hc⟩))
  show (st.subscribeAll channels t.reader).noteReads t channels = _
  rw [noteReads, List.filter_eq_self.mpr hjoined, foldl_note_eq]

/-- The reader of `t` has read a path of `st` and was tracked. So it has come to `t'`, and the state
to `st'`. -/
structure TracksVisits (st : State) (t : Tracking) (root : RecordId) (path : String) (t' : Tracking)
    (st' : State) : Prop where
  /-- The reader is on the channel of each reactive field that the path visits. -/
  joined : ∀ p ∈ (st.trail root path).visited, ∀ c, st.channel? p = some c →
    st'.isSubscribed c t.reader = true
  /-- Its list goes on with those of the channels visited that were not on it, each once, in the
  order of the first visits. -/
  noted : t' = { t with
    sources := t.sources ++ ((st.channelsRead root path).filter (· ∉ t.sources)).eraseDups }
  /-- Those who were on a channel keep their places. The reader comes behind them if the channel was
  visited and the reader was not on it, and nobody else comes. -/
  channels : ∀ c, st'.channels.get c = st.channels.get c ++
    if c ∈ st.channelsRead root path ∧ t.reader ∉ st.channels.get c then [t.reader] else []
  /-- Nothing else has changed. -/
  others : st' = { st with channels := st'.channels }

end State

open State

/-- A path is read the same with and without tracking. What a living reader leaves behind are
subscriptions to just the reactive fields that the path visits. -/
theorem Run.tracksVisits {ts : List Transition} {st : State} (h : Run ts st) {t : Tracking}
    (alive : st.isAlive t.reader = true) (root : RecordId) (path : String) :
    st.readTracking t root path = (st.read root path, st.track t root path) ∧
      TracksVisits st t root path (st.track t root path).1 (st.track t root path).2 := by
  refine ⟨readTracking_eq st t root path, ?_⟩
  let channels := st.channelsRead root path
  have hknown : ∀ c ∈ channels, c.index < st.channels.size :=
    fun c => channelsRead_lt_size h.graph.celled h.channelled
  constructor
  · intro p hp c hc
    have hread : c ∈ channels := List.mem_filterMap.mpr ⟨p, hp, hc⟩
    exact decide_eq_true (mem_subscribeAll.mpr (.inr ⟨hread, rfl, alive, hknown c hread⟩))
  · exact track_noted alive hknown
  · intro c
    show (st.subscribeAll channels t.reader).channels.get c = _
    by_cases hc : c.index < st.channels.size
    · exact get_subscribeAll alive channels hc
    · have hnone : ∀ table : Table .channel (List SubscriberId),
          table.size = st.channels.size → table.get c = [] :=
        fun table hsize => Table.get_eq_default (by omega)
      rw [hnone st.channels rfl, hnone _ (size_channels_subscribeAll st channels t.reader),
        if_neg fun hread => hc (hknown c hread.1)]
      rfl
  · exact subscribeAll_rest st channels t.reader

/-- A record that holds itself, a probe, and a channel that belongs to no field. -/
def selfHolding : List Move :=
  [.operate .newRecord, .operate (.writeField ⟨⟨0⟩, "me"⟩ (.record ⟨0⟩)),
    .operate (.observe (.record ⟨0⟩)), .operate .newChannel, .operate (.newProbe ⟨0⟩)]

/-- A path that visits one field twice and then ends early: the channel of the field is noted once,
behind the one that was noted before. -/
theorem tracksVisits_selfHolding :
    let st := ({} : State).play selfHolding
    let t : Tracking := ⟨⟨0⟩, [⟨1⟩]⟩
    let path := "me. me .x"
    TracksVisits st t ⟨0⟩ path (st.track t ⟨0⟩ path).1 (st.track t ⟨0⟩ path).2 ∧
      st.channelsRead ⟨0⟩ path = [⟨0⟩, ⟨0⟩] ∧
      (st.track t ⟨0⟩ path).1.sources = [⟨1⟩, ⟨0⟩] := by
  intro st t path
  have htracks := Run.tracksVisits (Run.play .start selfHolding (by decide +kernel))
    (t := t) (by decide +kernel) ⟨0⟩ path
  exact ⟨htracks.2, by decide +kernel, by decide +kernel⟩

end DataBinding
