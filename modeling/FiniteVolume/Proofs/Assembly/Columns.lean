import FiniteVolume.Proofs.Assembly.Rows
import FiniteVolume.Proofs.Device.Numbering
import FiniteVolume.Proofs.Mesh.Corners

/-!
The columns that terms write to: every matrix record lies in the column of an equation of the region at
a node of the mesh, or in that of the circuit node (`Integrand.reaches_of_mem_assembled`).
-/
namespace FiniteVolume

variable {β α : Type}

namespace Records

/-- All records lie on the first rows, and in the first columns. -/
structure Below (r : Records α) (count : Nat) : Prop where
  rows : ∀ row ∈ r.rows, row < count
  columns : ∀ entry ∈ r.matrix, entry.column < count

theorem Below.empty (count : Nat) : ({} : Records α).Below count :=
  ⟨fun _ member => (by cases member), fun _ member => (by cases member)⟩

theorem Below.append {r s : Records α} {count : Nat} (first : r.Below count) (second : s.Below count) :
    (r.append s).Below count where
  rows row member := (mem_rows_append.mp member).elim (first.rows row) (second.rows row)
  columns entry member := (List.mem_append.mp member).elim (first.columns entry) (second.columns entry)

end Records

namespace Region

variable {r : Region β α}

/-- A row or column of an equation at a node, or of the circuit node. -/
def Reaches (r : Region β α) (circuit : Option CircuitColumn) (i : Nat) : Prop :=
  (∃ equation, ∃ n < r.nodeCount, r.row? equation n = some i) ∨ ∃ c ∈ circuit, c.column = i

theorem Reaches.lt {circuit : Option CircuitColumn} {i count : Nat} (reaches : r.Reaches circuit i)
    (rows : r.base + r.rowCount ≤ count) (column : ∀ c ∈ circuit, c.column < count) : i < count := by
  rcases reaches with ⟨equation, n, inside, here⟩ | ⟨c, isCircuit, rfl⟩
  · exact Nat.lt_of_lt_of_le (row?_bounds here inside).2 rows
  · exact column c isCircuit

/-- A variable of the region has the columns of an equation that solves for it. -/
theorem exists_firstRow?_eq_firstColumn {variableName : String} (member : variableName ∈ r.variableNames) :
    ∃ equation, r.firstRow? equation = some (r.firstColumn variableName) := by
  obtain ⟨equation, start, solves, here⟩ := exists_firstRow?_of_mem_variableNames member
  exact ⟨equation, by rw [firstColumn, solves, Option.bind_some, here, Option.getD_some]⟩

end Region

namespace Integrand

variable [Scalar α] (i : Integrand) {mesh : Mesh β} {rows : Rows} {values : Array α}

theorem lt_of_mem_corners (cornered : mesh.Cornered) (covers : values.size ≤ mesh.size i.domain)
    {c : Contribution α} (member : c ∈ i.contributions mesh rows values) {n : Nat}
    (corner : n ∈ c.corners) : n < mesh.nodeCount := by
  cases i with
  | node model =>
    obtain ⟨⟨v, n'⟩, inValues, landed⟩ := List.mem_filterMap.mp member
    obtain ⟨row, -, rfl⟩ := Option.map_eq_some_iff.mp landed
    obtain rfl := List.mem_singleton.mp corner
    have inside := (List.getElem?_eq_some_iff.mp (List.mem_zipIdx_iff_getElem?.mp inValues)).1
    exact Nat.lt_of_lt_of_le inside covers
  | flux f =>
    obtain ⟨⟨corners, v⟩, inStencil, atEnd⟩ := List.mem_flatMap.mp member
    obtain ⟨side, -, landed⟩ := List.mem_filterMap.mp atEnd
    obtain ⟨factor, -, landed⟩ := Option.bind_eq_some_iff.mp landed
    obtain ⟨n', -, landed⟩ := Option.bind_eq_some_iff.mp landed
    obtain ⟨row, -, same⟩ := Option.bind_eq_some_iff.mp landed
    obtain rfl := Option.some.inj same
    have entity := Array.mem_toList_iff.mp (List.of_mem_zip inStencil).1
    exact (cornered.of_mem_stencil entity).2 n corner

variable {r : Region β α} {circuit : Option CircuitColumn} {select : Selector}

theorem reaches_of_mem_matrix {measure : Array α} (cornered : r.mesh.Cornered)
    (covers : measure.size ≤ r.size i.domain) {entry : MatrixRecord α}
    (member : entry ∈ i.matrix rows r measure circuit) : r.Reaches circuit entry.column := by
  rcases List.mem_append.mp member with byVariable | byCircuit
  · obtain ⟨v, isVariable, inDerivative⟩ := List.mem_flatMap.mp byVariable
    obtain ⟨⟨name, corner⟩, -, inCorner⟩ := List.mem_flatMap.mp inDerivative
    obtain ⟨c, contributed, same⟩ := List.mem_filterMap.mp inCorner
    obtain ⟨node, found, rfl⟩ := Option.map_eq_some_iff.mp same
    obtain ⟨equation, start⟩ := Region.exists_firstRow?_eq_firstColumn isVariable
    have inside := i.lt_of_mem_corners cornered
      (Nat.le_trans (size_weigh_le measure _) covers) contributed (List.mem_of_getElem? found)
    exact .inl ⟨equation, node, inside, by rw [Region.row?_eq, start, Option.map_some]⟩
  · obtain ⟨column, isCircuit, inColumn⟩ := List.mem_flatMap.mp byCircuit
    obtain ⟨c, -, rfl⟩ := List.mem_map.mp inColumn
    exact .inr ⟨column, Option.mem_toList.mp isCircuit, rfl⟩

theorem reaches_of_mem_records {measure : Array α} (cornered : r.mesh.Cornered)
    (covers : measure.size ≤ r.size i.domain) {entry : MatrixRecord α}
    (member : entry ∈ (i.records rows r measure circuit select).matrix) :
    r.Reaches circuit entry.column := by
  by_cases wanted : select.wantsMatrix = true
  · rw [records, if_pos wanted] at member
    exact i.reaches_of_mem_matrix cornered covers member
  · rw [records, if_neg wanted] at member
    cases member

/-- Every matrix record of a list of terms lies in the column of an equation at a node, or in that of
the circuit node. -/
theorem reaches_of_mem_assembled {measures : MeasureNames} {terms : List (Rows × Integrand)}
    (cornered : r.mesh.Cornered) (sized : r.Sized) {entry : MatrixRecord α}
    (member : entry ∈ (assembled measures circuit select terms r).matrix) :
    r.Reaches circuit entry.column := by
  obtain ⟨part, isPart, inPart⟩ := List.mem_flatMap.mp member
  obtain ⟨term, -, same⟩ := List.mem_map.mp isPart
  subst same
  exact term.2.reaches_of_mem_records cornered (sized.size_values_le _ _) inPart

end Integrand

end FiniteVolume
