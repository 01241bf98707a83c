import DataBinding.Proofs.Change
import DataBinding.Proofs.Template.Wiring

set_option autoImplicit false

/-! # What mounting comes to

To mount a view is to observe the data, to make the view (`withView`), to bind the tree below its
root and to note the bindings in the view (`mount_eq`). The last step leaves alone what the
bindings and their watchers are and what is read through the view.
-/

namespace DataBinding.State

/-- The view that is made for a root, without any binding yet. -/
def viewOn (st : State) (root : NodeId) (o : ViewOptions) : View :=
  { root, data := o.data, methods := o.methods, keys := (st.records.get o.data).fields.keys,
    holders := 1 }

/-- The state in which the data are observed and the view is made. -/
def withView (st : State) (root : NodeId) (o : ViewOptions) : State :=
  { st.observe o.data with views := (st.observe o.data).views.alloc (st.viewOn root o) }

/-- The state in which the tree is bound, too. -/
def withTree (st : State) (root : NodeId) (o : ViewOptions) : State :=
  ((st.withView root o).compile st.views.fresh root).2

/-- The bindings that the view gets. -/
def bindingsOn (st : State) (root : NodeId) (o : ViewOptions) : List Binding :=
  ((st.withView root o).compile st.views.fresh root).1

/-- The state in which the view has its bindings. -/
def mounted (st : State) (root : NodeId) (o : ViewOptions) : State :=
  { (st.withTree root o).report (.mounted (st.bindingsOn root o).length) with
    views := (st.withTree root o).views.modify st.views.fresh fun b =>
      { b with bindings := st.bindingsOn root o } }

variable {st : State} {root : NodeId} {o : ViewOptions}

theorem mount_eq {document? : Option NodeId}
    (hroot : st.resolveRoot document? o.root? = .ok root) :
    st.mount document? o = (.ok st.views.fresh, st.mounted root o) := by
  rw [mount, hroot]
  rfl

theorem mount_eq_error {document? : Option NodeId} {fault : Fault}
    (hroot : st.resolveRoot document? o.root? = .error fault) :
    st.mount document? o = (.error fault, st) := by
  rw [mount, hroot]

/-! ## The view -/

theorem size_views_withView : (st.withView root o).views.size = st.views.size + 1 := by
  have hviews : (st.observe o.data).views = st.views := (observes_observe st o.data).views
  show ((st.observe o.data).views.alloc _).size = _
  rw [Table.size_alloc, hviews]

theorem subscribers_withView : (st.withView root o).subscribers = st.subscribers :=
  (observes_observe st o.data).subscribers

theorem nodes_withView : (st.withView root o).nodes = st.nodes :=
  (observes_observe st o.data).nodes

theorem view_withView : (st.withView root o).view st.views.fresh = st.viewOn root o := by
  have hviews : (st.observe o.data).views = st.views := (observes_observe st o.data).views
  rw [withView, view_alloc, hviews, if_pos rfl]

theorem isObserved_withView (hdata : o.data.index < st.records.size) :
    (st.withView root o).isObserved o.data = true := by
  obtain ⟨rs, ds, hwalk⟩ := walk_observe st o.data
  exact hwalk.isObserved_start List.mem_cons_self hdata

/-! ## The tree -/

theorem wired_withTree : Wired st.views.fresh (st.withView root o)
    ⟨st.withTree root o, st.bindingsOn root o⟩ :=
  wired_compile ..

theorem subscribers_mounted :
    (st.mounted root o).subscribers = (st.withTree root o).subscribers := by
  rw [mounted, report]

theorem nodes_mounted : (st.mounted root o).nodes = (st.withTree root o).nodes := by
  rw [mounted, report]

theorem channels_mounted : (st.mounted root o).channels = (st.withTree root o).channels := by
  rw [mounted, report]

/-- Noting the bindings leaves the data alone. -/
theorem sameGraph_withTree : SameGraph (st.withTree root o) (st.mounted root o) := by
  rw [mounted, report]
  exact ⟨rfl, rfl⟩

/-- What mounting does to the data is to observe them. -/
theorem sameGraph_mounted : SameGraph (st.observe o.data) (st.mounted root o) := by
  have hview : SameGraph (st.observe o.data) (st.withView root o) := ⟨rfl, rfl⟩
  have htree : SameGraph (st.withView root o) (st.withTree root o) :=
    ⟨wired_withTree.records, wired_withTree.cells⟩
  exact (hview.trans htree).trans sameGraph_withTree

/-- The view is there when the tree is bound. -/
theorem lt_size_views_withTree : st.views.fresh.index < (st.withTree root o).views.size := by
  have hviews : (st.withTree root o).views = (st.withView root o).views := wired_withTree.views
  rw [hviews, size_views_withView]
  exact Nat.lt_succ_self _

theorem view_mounted : (st.mounted root o).view st.views.fresh =
    { (st.withTree root o).view st.views.fresh with bindings := st.bindingsOn root o } :=
  (view_modify ((st.withTree root o).report _) _ _ _).trans
    (if_pos ⟨rfl, lt_size_views_withTree⟩)

/-- Noting the bindings leaves the data of the view alone. -/
theorem readView_mounted (key : String) : (st.mounted root o).readView st.views.fresh key =
    (st.withTree root o).readView st.views.fresh key := by
  rw [readView, view_mounted, sameGraph_withTree.read, readView]

end DataBinding.State
