import DataBinding.Proofs.Graph

set_option autoImplicit false

/-! # Every field has a channel of its own

A cell gets a new channel when it is made, and keeps it. So in any run different cells have
different channels (`Run.channelled`), and with the fact that different fields have different
cells: a channel is that of one field at most (`channel?_inj`).
-/

namespace DataBinding

open State

namespace State

/-- Every cell has a channel, and no two cells have the same. -/
structure Channelled (st : State) : Prop where
  known : ∀ c : CellId, c.index < st.cells.size →
    (st.cells.get c).channel.index < st.channels.size
  own : ∀ c d : CellId, c.index < st.cells.size → d.index < st.cells.size →
    (st.cells.get c).channel = (st.cells.get d).channel → c = d

namespace Channelled

variable {st st' : State}

theorem empty : Channelled {} where
  known _ hc := absurd hc (Nat.not_lt_zero _)
  own _ _ hc := absurd hc (Nat.not_lt_zero _)

/-- The cells have the channels that they had. -/
theorem congr (h : Channelled st) (hcells : st'.cells.size = st.cells.size)
    (hsame : ∀ c : CellId, (st'.cells.get c).channel = (st.cells.get c).channel)
    (hchannels : st.channels.size ≤ st'.channels.size) : Channelled st' := by
  constructor
  · intro c hc
    rw [hsame]
    exact Nat.lt_of_lt_of_le (h.known c (hcells ▸ hc)) hchannels
  · intro c d hc hd hcd
    rw [hsame, hsame] at hcd
    exact h.own c d (hcells ▸ hc) (hcells ▸ hd) hcd

/-- What leaves the cells alone. -/
theorem of_cells (h : Channelled st) (hcells : st'.cells = st.cells)
    (hchannels : st.channels.size ≤ st'.channels.size) : Channelled st' :=
  h.congr (by rw [hcells]) (fun c => by rw [hcells]) hchannels

theorem newCell (h : Channelled st) (key : String) (v : Value) :
    Channelled (st.newCell key v).2 := by
  let new : Cell := { key, value := v, channel := st.channels.fresh }
  have hcells : (st.newCell key v).2.cells = st.cells.alloc new := rfl
  have hchannels : (st.newCell key v).2.channels.size = st.channels.size + 1 := Table.size_alloc ..
  have hget : ∀ c : CellId, c.index < (st.newCell key v).2.cells.size →
      (c = st.cells.fresh ∧ (st.newCell key v).2.cells.get c = new) ∨
        (c.index < st.cells.size ∧ (st.newCell key v).2.cells.get c = st.cells.get c) := by
    intro c hc
    rw [hcells, Table.size_alloc] at hc
    rw [hcells, Table.get_alloc]
    by_cases hfresh : c = st.cells.fresh
    · exact .inl ⟨hfresh, if_pos hfresh⟩
    · have hne : c.index ≠ st.cells.size := fun h => hfresh (congrArg Id.mk h)
      exact .inr ⟨by omega, if_neg hfresh⟩
  constructor
  · intro c hc
    rw [hchannels]
    rcases hget c hc with ⟨-, hnew⟩ | ⟨hold, hsame⟩
    · rw [hnew]
      exact Nat.lt_succ_self _
    · rw [hsame]
      exact Nat.lt_succ_of_lt (h.known c hold)
  · intro c d hc hd hcd
    rcases hget c hc with ⟨hfresh, hnew⟩ | ⟨hold, hsame⟩
    · rcases hget d hd with ⟨hfresh', -⟩ | ⟨hold', hsame'⟩
      · exact hfresh.trans hfresh'.symm
      · rw [hnew, hsame'] at hcd
        exact absurd hcd.symm (Table.ne_fresh (h.known d hold'))
    · rcases hget d hd with ⟨-, hnew'⟩ | ⟨hold', hsame'⟩
      · rw [hsame, hnew'] at hcd
        exact absurd hcd (Table.ne_fresh (h.known c hold))
      · rw [hsame, hsame'] at hcd
        exact h.own c d hold hold' hcd

theorem withCells (h : Channelled st) (ds : List (Slot × Value)) :
    Channelled (st.withCells ds) := by
  induction ds generalizing st with
  | nil => exact h
  | cons d rest ih => exact ih ((h.newCell d.1.key d.2).of_cells rfl (Nat.le_refl _))

theorem observe (h : Channelled st) (r : RecordId) : Channelled (st.observe r) := by
  obtain ⟨rs, ds, hwalk⟩ := walk_observe st r
  have hmarked : Channelled (st.markAll rs) := by
    rw [rest_markAll]
    exact h.of_cells rfl (Nat.le_refl _)
  rw [hwalk.state]
  exact hmarked.withCells ds

end Channelled

/-- A channel is that of one field at most. -/
theorem channel?_inj {st : State} (hcelled : Celled st) (hchannelled : Channelled st) {p q : Slot}
    {c : ChannelId} (hp : st.channel? p = some c) (hq : st.channel? q = some c) : p = q := by
  obtain ⟨cp, hcp, hchannel⟩ := Option.map_eq_some_iff.mp hp
  obtain ⟨cq, hcq, hchannel'⟩ := Option.map_eq_some_iff.mp hq
  have hsame : cp = cq := hchannelled.own cp cq (hcelled.lt_size hcp) (hcelled.lt_size hcq)
    (hchannel.trans hchannel'.symm)
  exact hcelled.own p q cp hcp (hsame ▸ hcq)

end State

section Moves

variable {lib : Liberty} {st st' : State} {s : SubscriberId}

theorem Effect.channelled (h : Effect lib st st') (hst : Channelled st) : Channelled st' := by
  cases h with
  | aside | push | drop | newRecord | putField | newProbe | hold | tell =>
      exact hst.of_cells rfl (Nat.le_refl _)
  | define p v => exact (hst.newCell p.key v).of_cells rfl (Nat.le_refl _)
  | store c v =>
      refine hst.congr (Table.size_modify ..) (fun d => ?_) (Nat.le_refl _)
      rw [get_store]
      split <;> rfl
  | observe r => exact hst.observe r
  | newChannel => exact hst.of_cells rfl ((Table.size_alloc ..).symm ▸ Nat.le_succ _)
  | subscribe c s =>
      exact hst.of_cells (onlySubscriptions_subscribe st c s).cells
        (Nat.le_of_eq (size_channels_subscribe st c s).symm)
  | unsubscribe c s => exact hst.of_cells rfl (Nat.le_of_eq (Table.size_modify ..).symm)
  | watch root path reaction =>
      exact hst.of_cells (onlySubscriptions_watch st root path reaction).cells
        (Nat.le_of_eq size_channels_watch.symm)
  | release s =>
      exact hst.of_cells (onlySubscriptions_release st s).cells
        (Nat.le_of_eq (size_channels_release st s).symm)
  | dispose s =>
      exact hst.of_cells (onlySubscriptions_dispose st s).cells
        (Nat.le_of_eq (size_channels_dispose st s).symm)
  | letGo s rest =>
      exact hst.of_cells (onlySubscriptions_release { st with agenda := rest } s).cells
        (Nat.le_of_eq (size_channels_release { st with agenda := rest } s).symm)
  | notify c =>
      exact hst.of_cells (onlySubscriptions_notify st c).cells
        (Nat.le_of_eq (size_channels_notify st c).symm)

theorem Effects.channelled (h : Effects lib st st') (hst : Channelled st) : Channelled st' := by
  induction h with
  | refl => exact hst
  | tail _ hstep ih => exact hstep.channelled ih

theorem Telling.channelled (h : Telling st s st') (hst : Channelled st) : Channelled st' := by
  have hreread : ∀ w, st.channels.size ≤ (st.reread s w).channels.size :=
    fun w => Nat.le_of_eq (size_channels_reread st s w).symm
  refine hst.of_cells h.sameGraph.cells ?_
  cases h with
  | probe | disposed => exact Nat.le_refl _
  | unchanged w | valued w | called w => exact hreread w
  | shown w n =>
      rw [setText_rest]
      exact hreread w

/-- In any run, different cells have different channels. -/
theorem Run.channelled {ts : List Transition} (h : Run ts st) : Channelled st := by
  induction h with
  | start => exact .empty
  | @move ts st m _ possible ih =>
      cases Transition.deed ⟨st, m⟩ possible with
      | told s rest hmove hagenda hafter =>
          have hdropped : Channelled { st with agenda := rest } :=
            Channelled.of_cells ih rfl (Nat.le_refl _)
          exact (Telling.of_update hafter).channelled hdropped
      | kept s v rest hmove hagenda hafter =>
          rw [show m.run st = _ from hafter]
          exact Channelled.of_cells ih rfl (Nat.le_refl _)
      | done heffects => exact heffects.channelled ih

end Moves

end DataBinding
