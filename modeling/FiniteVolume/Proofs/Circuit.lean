import FiniteVolume.Circuit
import FiniteVolume.Ordered.Set

/-!
Rows of circuit nodes: those that follow the rows of the regions, in the order in which the nodes were
registered.
-/
namespace FiniteVolume.Circuit

variable {β : Type} {c : Circuit β} {name : String} {row : Nat} {value : β}

theorem row?_eq_some_iff : c.row? name = some row ↔ ∃ i, c.nodes.keys[i]? = some name ∧ c.base + i = row := by
  simp only [row?, index?, Option.map_eq_some_iff, Table.position?_eq_some_iff]

/-- The names of the nodes, in the order in which they were registered. -/
def names (c : Circuit β) : OrderedSet String := ⟨c.nodes.keys, c.nodes.nodup⟩

theorem names_eq_iff {names : OrderedSet String} : c.names = names ↔ c.nodes.keys = names.elems := by
  refine ⟨congrArg OrderedSet.elems, fun same => ?_⟩
  cases names
  cases same
  rfl

/-- Every node stands at its row with its value. -/
theorem mem_toList_iff : (name, row, value) ∈ c.toList ↔
    c.row? name = some row ∧ c.value? name = some value := by
  rw [toList, row?_eq_some_iff, value?, Table.get?_eq_some_iff]
  simp only [List.mem_map, List.mem_zipIdx_iff_getElem?, Table.toList, Prod.exists, Prod.mk.injEq]
  constructor
  · rintro ⟨_, _, i, here, rfl, rfl, rfl⟩
    refine ⟨⟨i, ?_, rfl⟩, List.mem_of_getElem? here⟩
    rw [Table.keys, List.getElem?_map, here, Option.map_some]
  · rintro ⟨⟨i, key, rfl⟩, member⟩
    obtain ⟨⟨_, other⟩, here, rfl⟩ := Option.map_eq_some_iff.mp ((List.getElem?_map ..).symm.trans key)
    have same := Table.get?_eq_some_iff.mpr (List.mem_of_getElem? here)
    cases same.symm.trans (Table.get?_eq_some_iff.mpr member)
    exact ⟨_, _, i, here, rfl, rfl, rfl⟩

theorem names_toList (c : Circuit β) : c.toList.map (·.1) = c.nodes.keys := by
  refine List.ext_getElem (by simp [toList, Table.keys, Table.toList]) fun i low high => ?_
  simp [toList, Table.keys, Table.toList]

theorem exists_row?_eq (held : c.value? name = some value) : ∃ row, c.row? name = some row := by
  have member : name ∈ c.nodes.keys := List.mem_map.mpr ⟨_, Table.get?_eq_some_iff.mp held, rfl⟩
  obtain ⟨i, here⟩ := List.getElem?_of_mem member
  exact ⟨_, row?_eq_some_iff.mpr ⟨i, here, rfl⟩⟩

theorem row?_bounds (found : c.row? name = some row) : c.base ≤ row ∧ row < c.base + c.size := by
  obtain ⟨i, key, rfl⟩ := row?_eq_some_iff.mp found
  have bound := (List.getElem?_eq_some_iff.mp key).1
  rw [Table.length_keys] at bound
  rw [size]
  omega

end FiniteVolume.Circuit
