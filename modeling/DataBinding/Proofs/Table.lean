import DataBinding.Table

set_option autoImplicit false

/-! # What tables hold after a change

`Table.get` reads an entity and falls back to the default. `get_modify` and `get_alloc` say
what it reads after the two operations on tables; every other theorem about a change of the
state rests on them.
-/

namespace DataBinding.Table

variable {k : Kind} {α : Type}

theorem get?_eq_none {t : Table k α} {i : Id k} (h : t.size ≤ i.index) : t.get? i = none := by
  cases hi : t.get? i with
  | none => rfl
  | some a =>
      have : i.index < t.size := (t.isSome_get?_iff i).mp (by rw [hi]; rfl)
      omega

theorem ne_fresh {t : Table k α} {i : Id k} (h : i.index < t.size) : i ≠ t.fresh := by
  rintro rfl
  exact Nat.lt_irrefl _ h

/-- A change that leaves the entity as it is leaves the table as it is. -/
theorem modify_eq_self {t : Table k α} {i : Id k} {f : α → α}
    (h : ∀ a, t.get? i = some a → f a = a) : t.modify i f = t := by
  refine congrArg Table.mk (Array.ext_getElem? fun j => ?_)
  rw [Array.getElem?_modify]
  split
  · rename_i hij
    subst hij
    cases ha : t.entries[i.index]? with
    | none => rfl
    | some a => exact congrArg some (h a ha)
  · rfl

theorem modify_modify (t : Table k α) (i : Id k) (f g : α → α) :
    (t.modify i f).modify i g = t.modify i (g ∘ f) := by
  refine congrArg Table.mk (Array.ext_getElem? fun j => ?_)
  simp only [modify, Array.getElem?_modify]
  split
  · rw [Option.map_map]
  · rfl

/-- Changes that may come in either order at one entity may come in either order at any two. -/
theorem modify_comm (t : Table k α) (i j : Id k) {f g : α → α} (h : ∀ a, f (g a) = g (f a)) :
    (t.modify i g).modify j f = (t.modify j f).modify i g := by
  refine congrArg Table.mk (Array.ext_getElem? fun n => ?_)
  simp only [modify, Array.getElem?_modify]
  cases t.entries[n]? with
  | none => split <;> split <;> rfl
  | some a =>
      by_cases hi : i.index = n
      · by_cases hj : j.index = n
        · simp [hi, hj, h]
        · simp [hi, hj]
      · by_cases hj : j.index = n
        · simp [hi, hj]
        · simp [hi, hj]

/-- Only what a change does to the entity itself matters. -/
theorem modify_congr {t : Table k α} {i : Id k} {f g : α → α}
    (h : ∀ a, t.get? i = some a → f a = g a) : t.modify i f = t.modify i g := by
  refine congrArg Table.mk (Array.ext_getElem? fun j => ?_)
  rw [Array.getElem?_modify, Array.getElem?_modify]
  split
  · rename_i hij
    subst hij
    cases ha : t.entries[i.index]? with
    | none => rfl
    | some a => exact congrArg some (h a ha)
  · rfl

variable [Inhabited α]

theorem get?_eq_some_get {t : Table k α} {i : Id k} (h : i.index < t.size) :
    t.get? i = some (t.get i) := by
  obtain ⟨a, ha⟩ := Option.isSome_iff_exists.mp ((t.isSome_get?_iff i).mpr h)
  rw [get, ha]
  rfl

/-- Where there is no entity, the default is read. -/
theorem get_eq_default {t : Table k α} {i : Id k} (h : t.size ≤ i.index) : t.get i = default := by
  rw [get, get?_eq_none h]
  rfl

theorem get_modify_eq {t : Table k α} {i : Id k} (h : i.index < t.size) (f : α → α) :
    (t.modify i f).get i = f (t.get i) := by
  rw [get, get?_modify_eq, get?_eq_some_get h]
  rfl

theorem get_modify_ne (t : Table k α) {i j : Id k} (h : i ≠ j) (f : α → α) :
    (t.modify i f).get j = t.get j := by
  rw [get, get?_modify_ne t h, get]

theorem get_modify (t : Table k α) (i j : Id k) (f : α → α) :
    (t.modify i f).get j = if i = j ∧ j.index < t.size then f (t.get j) else t.get j := by
  by_cases hij : i = j
  · subst hij
    by_cases hi : i.index < t.size
    · simp [hi, get_modify_eq hi]
    · have hsize : t.size ≤ i.index := by omega
      rw [get_eq_default (by simpa using hsize), get_eq_default hsize]
      simp [hi]
  · simp [hij, get_modify_ne t hij]

/-- A change that leaves a property of the entity alone is not seen through that property. -/
theorem map_get_modify {β : Type} (t : Table k α) (i j : Id k) {f : α → α} {g : α → β}
    (h : ∀ a, g (f a) = g a) : g ((t.modify i f).get j) = g (t.get j) := by
  rw [get_modify]
  split
  · exact h _
  · rfl

theorem get_alloc (t : Table k α) (a : α) (j : Id k) :
    (t.alloc a).get j = if j = t.fresh then a else t.get j := by
  rw [get, get?_alloc]
  split
  · rfl
  · rfl

theorem get_alloc_fresh (t : Table k α) (a : α) : (t.alloc a).get t.fresh = a := by
  simp [get_alloc]

theorem get_alloc_of_lt {t : Table k α} {i : Id k} (h : i.index < t.size) (a : α) :
    (t.alloc a).get i = t.get i := by
  rw [get_alloc, if_neg (ne_fresh h)]

theorem get_fresh (t : Table k α) : t.get t.fresh = default := get_eq_default (Nat.le_refl _)

/-- A new entity that is the default is not seen. -/
theorem get_alloc_default (t : Table k α) (j : Id k) : (t.alloc default).get j = t.get j := by
  rw [get_alloc]
  split
  · rename_i h
    rw [h, get_fresh]
  · rfl

end DataBinding.Table
