import Mathlib.Algebra.Ring.Nat
import FiniteVolume.Device.Parts
import FiniteVolume.Proofs.Model.Layout

/-!
The rows of the regions of a device.

Once the regions are numbered through, every place, that is a node of a region under an equation, has a
row of its own (`Parts.Numbered.row?_injective`), below the rows of circuit nodes
(`Parts.Numbered.row?_lt`).
-/
namespace FiniteVolume

variable {β α : Type}

/-- A node of a region, as the place of an equation. -/
@[ext]
structure Place where
  region : String
  equation : String
  node : Nat
  deriving Repr, DecidableEq

namespace Region

variable {r : Region β α} {equation : String}

theorem row?_eq (r : Region β α) (equation : String) (node : Nat) :
    r.row? equation node = (r.firstRow? equation).map (· + node) := by
  cases found : r.equationIndex? equation <;> simp [row?, firstRow?, found]

theorem isSome_firstRow?_iff :
    (r.firstRow? equation).isSome = true ↔ r.slots.contains equation = true := by
  rw [firstRow?, row?, Option.isSome_map, equationIndex?, Table.position?, Table.contains_iff,
    List.isSome_idxOf?]

/-- A solution variable has an equation that solves for it, with rows. -/
theorem exists_firstRow?_of_mem_variableNames {variableName : String}
    (member : variableName ∈ r.variableNames) : ∃ equation start,
      r.equationFor? variableName = some equation ∧ r.firstRow? equation = some start := by
  obtain ⟨slot, inSlots, rfl⟩ := List.mem_map.mp member
  obtain ⟨found, search⟩ : ∃ found, r.slots.toList.find? (fun x => decide (x.2 = slot.2)) = some found :=
    Option.isSome_iff_exists.mp (List.find?_isSome.mpr ⟨slot, inSlots, by simp⟩)
  have slotted : r.slots.contains found.1 = true :=
    Table.contains_iff.mpr (List.mem_map_of_mem (f := Prod.fst) (List.mem_of_find?_eq_some search))
  obtain ⟨start, here⟩ := Option.isSome_iff_exists.mp (isSome_firstRow?_iff.mpr slotted)
  exact ⟨found.1, start, by rw [equationFor?, search, Option.map_some], here⟩

theorem equationIndex?_lt {i : Nat} (found : r.equationIndex? equation = some i) :
    i < r.slots.size ∧ r.slots.keys[i]? = some equation := by
  have key := Table.position?_eq_some_iff.mp found
  have bound := (List.getElem?_eq_some_iff.mp key).1
  rw [Table.length_keys] at bound
  exact ⟨bound, key⟩

/-- The rows of a region follow its first row. -/
theorem row?_bounds {node row : Nat} (found : r.row? equation node = some row)
    (inside : node < r.nodeCount) : r.base ≤ row ∧ row < r.base + r.rowCount := by
  obtain ⟨i, index, rfl⟩ := Option.map_eq_some_iff.mp found
  have slot := Nat.mul_le_mul_right r.nodeCount (equationIndex?_lt index).1
  rw [Nat.succ_mul] at slot
  rw [rowCount]
  omega

theorem exists_row?_eq {row : Nat} (low : r.base ≤ row) (high : row < r.base + r.rowCount) :
    ∃ equation, r.slots.contains equation = true ∧
      ∃ node < r.nodeCount, r.row? equation node = some row := by
  have inside : row - r.base < r.nodeCount * r.slots.size := by
    rw [rowCount, Nat.mul_comm] at high
    omega
  have positive : 0 < r.nodeCount := Nat.pos_of_lt_mul_right inside
  have slot : (row - r.base) / r.nodeCount < r.slots.keys.length := by
    rw [Table.length_keys]
    exact Nat.div_lt_of_lt_mul inside
  refine ⟨r.slots.keys[(row - r.base) / r.nodeCount], Table.contains_iff.mpr (List.getElem_mem slot),
    (row - r.base) % r.nodeCount, Nat.mod_lt _ positive, ?_⟩
  rw [row?, equationIndex?, Table.position?_eq_some_iff.mpr (List.getElem?_eq_getElem slot),
    Option.map_some]
  have split := Nat.div_add_mod' (row - r.base) r.nodeCount
  exact congrArg some (by omega)

theorem row?_injective {equation' : String} {node node' row : Nat}
    (found : r.row? equation node = some row) (found' : r.row? equation' node' = some row)
    (inside : node < r.nodeCount) (inside' : node' < r.nodeCount) :
    equation = equation' ∧ node = node' := by
  obtain ⟨i, index, rfl⟩ := Option.map_eq_some_iff.mp found
  obtain ⟨i', index', same⟩ := Option.map_eq_some_iff.mp found'
  have divided : ∀ {j n}, n < r.nodeCount → (j * r.nodeCount + n) / r.nodeCount = j ∧
      (j * r.nodeCount + n) % r.nodeCount = n := fun {j n} bound => by
    rw [Nat.mul_comm, Nat.mul_add_div (by omega), Nat.mul_add_mod, Nat.div_eq_of_lt bound]
    exact ⟨rfl, Nat.mod_eq_of_lt bound⟩
  have equal : i' * r.nodeCount + node' = i * r.nodeCount + node := by omega
  obtain rfl : i = i' := by rw [← (divided (j := i) inside).1, ← equal, (divided inside').1]
  refine ⟨Option.some.inj ?_, by omega⟩
  rw [← (equationIndex?_lt index).2, ← (equationIndex?_lt index').2]

end Region

/-! ## Blocks -/

/-- Where the block of a name starts when blocks of the given sizes follow one another. -/
def blockStart (name : String) (blocks : List (String × Nat)) : Nat :=
  ((blocks.takeWhile (·.1 ≠ name)).map (·.2)).sum

section

variable {blocks : List (String × Nat)} {name name' : String} {size size' : Nat}

theorem blockStart_cons_self : blockStart name ((name, size) :: blocks) = 0 := by simp [blockStart]

theorem blockStart_cons_of_ne (apart : name' ≠ name) :
    blockStart name ((name', size) :: blocks) = size + blockStart name blocks := by
  simp [blockStart, apart]

/-- Under distinct names, the first block is the only one of its name. -/
theorem size_eq_of_mem_cons (distinct : (((name, size) :: blocks).map (·.1)).Nodup)
    (member : (name, size') ∈ (name, size) :: blocks) : size' = size := by
  rcases List.mem_cons.mp member with here | later
  · exact (Prod.mk.inj here).2
  · exact absurd (List.mem_map_of_mem (f := (·.1)) later) (List.nodup_cons.mp distinct).1

theorem mem_of_mem_cons_of_ne (apart : name' ≠ name)
    (member : (name, size) ∈ (name', size') :: blocks) : (name, size) ∈ blocks :=
  (List.mem_cons.mp member).resolve_left fun here => apart (Prod.mk.inj here).1.symm

theorem blockStart_add_le (distinct : (blocks.map (·.1)).Nodup) (member : (name, size) ∈ blocks) :
    blockStart name blocks + size ≤ (blocks.map (·.2)).sum := by
  induction blocks with
  | nil => cases member
  | cons block rest ih =>
    obtain ⟨k, n⟩ := block
    rw [List.map_cons, List.sum_cons]
    by_cases same : k = name
    · subst same
      rw [blockStart_cons_self, size_eq_of_mem_cons distinct member]
      omega
    · rw [blockStart_cons_of_ne same]
      have := ih (List.nodup_cons.mp distinct).2 (mem_of_mem_cons_of_ne same member)
      omega

/-- Below the sum of the sizes, everything lies in a block. -/
theorem exists_block {row : Nat} (distinct : (blocks.map (·.1)).Nodup)
    (below : row < (blocks.map (·.2)).sum) : ∃ block ∈ blocks,
      blockStart block.1 blocks ≤ row ∧ row < blockStart block.1 blocks + block.2 := by
  induction blocks generalizing row with
  | nil => simp at below
  | cons block rest ih =>
    obtain ⟨k, n⟩ := block
    rw [List.map_cons, List.sum_cons] at below
    obtain ⟨absent, distinct⟩ := List.nodup_cons.mp distinct
    by_cases here : row < n
    · refine ⟨_, List.mem_cons_self, ?_⟩
      rw [blockStart_cons_self]
      omega
    · have below' : row - n < (rest.map (·.2)).sum := by omega
      obtain ⟨later, inRest, bounds⟩ := ih distinct below'
      have apart : k ≠ later.1 := by
        rintro rfl
        exact absent (List.mem_map_of_mem (f := (·.1)) inRest)
      refine ⟨later, List.mem_cons_of_mem _ inRest, ?_⟩
      rw [blockStart_cons_of_ne apart]
      omega

theorem blockStart_apart (distinct : (blocks.map (·.1)).Nodup) (member : (name, size) ∈ blocks)
    (member' : (name', size') ∈ blocks) (apart : name ≠ name') :
    blockStart name blocks + size ≤ blockStart name' blocks ∨
      blockStart name' blocks + size' ≤ blockStart name blocks := by
  induction blocks with
  | nil => cases member
  | cons block rest ih =>
    obtain ⟨k, n⟩ := block
    by_cases here : k = name
    · subst here
      rw [blockStart_cons_self, blockStart_cons_of_ne apart, size_eq_of_mem_cons distinct member]
      omega
    · by_cases here' : k = name'
      · subst here'
        rw [blockStart_cons_self, blockStart_cons_of_ne here, size_eq_of_mem_cons distinct member']
        omega
      · rw [blockStart_cons_of_ne here, blockStart_cons_of_ne here']
        have := ih (List.nodup_cons.mp distinct).2 (mem_of_mem_cons_of_ne here member)
          (mem_of_mem_cons_of_ne here' member')
        omega

end

/-! ## Numbering -/

namespace Parts

variable (p : Parts β α) {x y : Place} {row : Nat}

def row? (x : Place) : Option Nat := (p.regions.get? x.region).bind (·.row? x.equation x.node)

def Inside (x : Place) : Prop := ∃ r, p.regions.get? x.region = some r ∧ x.node < r.nodeCount

def IsPlace (x : Place) : Prop := ∃ r, p.regions.get? x.region = some r ∧
  r.slots.contains x.equation = true ∧ x.node < r.nodeCount

/-- Every region starts where the regions before it end. -/
def Numbered : Prop := ∀ name r, p.regions.get? name = some r → r.base = p.rowsBefore name

def blocks : List (String × Nat) := p.regions.entries.map fun x => (x.1, x.2.rowCount)

theorem foldl_rowCount {ι : Type} (f : ι → Nat) (items : List ι) (start : Nat) :
    items.foldl (fun rows x => rows + f x) start = start + (items.map f).sum := by
  induction items generalizing start with
  | nil => rfl
  | cons x rest ih => rw [List.foldl_cons, ih, List.map_cons, List.sum_cons, Nat.add_assoc]

theorem rowsBefore_eq (name : String) : p.rowsBefore name = blockStart name p.blocks := by
  rw [rowsBefore, foldl_rowCount, blockStart, blocks, List.takeWhile_map, Nat.zero_add, List.map_map]
  rfl

theorem rowCount_eq : p.rowCount = (p.blocks.map (·.2)).sum := by
  rw [rowCount, foldl_rowCount, blocks, Table.values, Nat.zero_add, List.map_map, List.map_map]
  rfl

theorem distinct_blocks : (p.blocks.map (·.1)).Nodup := by
  rw [blocks, List.map_map]
  exact p.regions.nodup

variable {p}

theorem mem_blocks {name : String} {r : Region β α} (found : p.regions.get? name = some r) :
    (name, r.rowCount) ∈ p.blocks :=
  List.mem_map.mpr ⟨_, Table.get?_eq_some_iff.mp found, rfl⟩

theorem exists_of_row? (found : p.row? x = some row) : ∃ r, p.regions.get? x.region = some r ∧
    r.row? x.equation x.node = some row := Option.bind_eq_some_iff.mp found

theorem Inside.lt {r : Region β α} (inside : p.Inside x) (found : p.regions.get? x.region = some r) :
    x.node < r.nodeCount := by
  obtain ⟨r', found', bound⟩ := inside
  cases found.symm.trans found'
  exact bound

theorem IsPlace.inside (place : p.IsPlace x) : p.Inside x := by
  obtain ⟨r, found, -, bound⟩ := place
  exact ⟨r, found, bound⟩

theorem IsPlace.exists_row? (place : p.IsPlace x) : ∃ row, p.row? x = some row := by
  obtain ⟨r, found, slot, -⟩ := place
  obtain ⟨start, here⟩ := Option.isSome_iff_exists.mp (Region.isSome_firstRow?_iff.mpr slot)
  exact ⟨start + x.node, by rw [row?, found, Option.bind_some, Region.row?_eq, here, Option.map_some]⟩

variable (numbered : p.Numbered)

include numbered

/-- The rows of a region end within the rows of all regions. -/
theorem Numbered.base_add_le {name : String} {r : Region β α} (found : p.regions.get? name = some r) :
    r.base + r.rowCount ≤ p.rowCount := by
  rw [numbered _ _ found, p.rowsBefore_eq, p.rowCount_eq]
  exact blockStart_add_le p.distinct_blocks (mem_blocks found)

/-- The rows of places come before those of circuit nodes. -/
theorem Numbered.row?_lt (found : p.row? x = some row) (inside : p.Inside x) : row < p.rowCount := by
  obtain ⟨r, region, here⟩ := exists_of_row? found
  exact Nat.lt_of_lt_of_le (Region.row?_bounds here (inside.lt region)).2 (numbered.base_add_le region)

theorem Numbered.row?_injective (found : p.row? x = some row) (found' : p.row? y = some row)
    (inside : p.Inside x) (inside' : p.Inside y) : x = y := by
  obtain ⟨r, region, here⟩ := exists_of_row? found
  obtain ⟨r', region', here'⟩ := exists_of_row? found'
  have same : x.region = y.region := by
    by_contra apart
    have bounds := Region.row?_bounds here (inside.lt region)
    have bounds' := Region.row?_bounds here' (inside'.lt region')
    rw [numbered _ _ region, p.rowsBefore_eq] at bounds
    rw [numbered _ _ region', p.rowsBefore_eq] at bounds'
    have := blockStart_apart p.distinct_blocks (mem_blocks region) (mem_blocks region') apart
    omega
  rw [← same] at region'
  cases region.symm.trans region'
  obtain ⟨equation, node⟩ :=
    Region.row?_injective here here' (inside.lt region) (inside'.lt (same ▸ region'))
  exact Place.ext same equation node

/-- Every row of the regions is that of one place. -/
theorem Numbered.existsUnique_place (below : row < p.rowCount) :
    ∃! x, p.IsPlace x ∧ p.row? x = some row := by
  rw [p.rowCount_eq] at below
  obtain ⟨block, inBlocks, low, high⟩ := exists_block p.distinct_blocks below
  obtain ⟨⟨name, r⟩, member, rfl⟩ := List.mem_map.mp inBlocks
  have found := Table.get?_eq_some_iff.mpr member
  rw [← p.rowsBefore_eq, ← numbered _ _ found] at low high
  obtain ⟨equation, slot, node, inside, here⟩ := Region.exists_row?_eq low high
  refine ⟨⟨name, equation, node⟩, ⟨⟨r, found, slot, inside⟩, ?_⟩, fun y ⟨place, there⟩ => ?_⟩
  · rw [row?, found, Option.bind_some, here]
  · refine numbered.row?_injective there ?_ place.inside ⟨r, found, inside⟩
    rw [row?, found, Option.bind_some, here]

omit numbered

theorem blocks_renumber (p : Parts β α) : p.renumber.blocks = p.blocks := by
  rw [blocks, renumber, Table.mapEntries, List.map_map]
  rfl

theorem rowCount_renumber (p : Parts β α) : p.renumber.rowCount = p.rowCount := by
  rw [rowCount_eq, rowCount_eq, blocks_renumber]

theorem numbered_renumber (p : Parts β α) : p.renumber.Numbered := by
  intro name r found
  rw [renumber, Table.get?_mapEntries] at found
  obtain ⟨r₀, found₀, rfl⟩ := Option.map_eq_some_iff.mp found
  rw [rowsBefore_eq p.renumber, blocks_renumber, ← rowsBefore_eq]

end Parts

end FiniteVolume
