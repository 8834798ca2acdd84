import FiniteVolume.Proofs.Assembly.Integrand
import FiniteVolume.Proofs.Mesh.Stencil

/-!
The rows that terms write to: every record lies on the row that the term has for a node
(`Integrand.exists_row?_of_mem_rows`), and in a well-formed mesh this is a node of the mesh
(`Integrand.exists_node_of_mem_rows`).
-/
namespace FiniteVolume

variable {β α : Type}

namespace Records

def rows (r : Records α) : List Nat := r.matrix.map (·.row) ++ r.residual.map (·.row)

theorem mem_rows_append {r s : Records α} {row : Nat} :
    row ∈ (r.append s).rows ↔ row ∈ r.rows ∨ row ∈ s.rows := by
  simp only [rows, append, List.map_append, List.mem_append]
  grind

theorem mem_rows_join {parts : List (Records α)} {row : Nat} :
    row ∈ (join parts).rows ↔ ∃ part ∈ parts, row ∈ part.rows := by
  induction parts with
  | nil => simp [rows]
  | cons part rest ih => simp [mem_rows_append, ih]

end Records

namespace Integrand

variable [Scalar α] (i : Integrand) {mesh : Mesh β} {rows : Rows} {values : Array α}

theorem exists_row?_of_mem_contributions {c : Contribution α}
    (member : c ∈ i.contributions mesh rows values) : ∃ n, rows.row? n = some c.row := by
  cases i with
  | node model =>
    obtain ⟨⟨v, n⟩, -, landed⟩ := List.mem_filterMap.mp member
    obtain ⟨row, target, rfl⟩ := Option.map_eq_some_iff.mp landed
    exact ⟨n, target⟩
  | flux f =>
    obtain ⟨⟨corners, v⟩, -, atEnd⟩ := List.mem_flatMap.mp member
    obtain ⟨side, -, landed⟩ := List.mem_filterMap.mp atEnd
    obtain ⟨factor, -, landed⟩ := Option.bind_eq_some_iff.mp landed
    obtain ⟨n, -, landed⟩ := Option.bind_eq_some_iff.mp landed
    obtain ⟨row, target, same⟩ := Option.bind_eq_some_iff.mp landed
    obtain rfl := Option.some.inj same
    exact ⟨n, target⟩

theorem exists_node_of_mem_contributions (wellFormed : mesh.WellFormed)
    (covers : values.size ≤ mesh.size i.domain) {c : Contribution α}
    (member : c ∈ i.contributions mesh rows values) :
    ∃ n < mesh.nodeCount, rows.row? n = some c.row := by
  cases i with
  | node model =>
    obtain ⟨⟨v, n⟩, inValues, landed⟩ := List.mem_filterMap.mp member
    obtain ⟨row, target, rfl⟩ := Option.map_eq_some_iff.mp landed
    have inside := (List.getElem?_eq_some_iff.mp (List.mem_zipIdx_iff_getElem?.mp inValues)).1
    exact ⟨n, Nat.lt_of_lt_of_le inside covers, target⟩
  | flux f =>
    obtain ⟨⟨corners, v⟩, inStencil, atEnd⟩ := List.mem_flatMap.mp member
    obtain ⟨k, below, entry⟩ := List.mem_iff_getElem.mp inStencil
    obtain ⟨side, -, landed⟩ := List.mem_filterMap.mp atEnd
    obtain ⟨factor, -, landed⟩ := Option.bind_eq_some_iff.mp landed
    obtain ⟨n, corner, landed⟩ := Option.bind_eq_some_iff.mp landed
    obtain ⟨row, target, same⟩ := Option.bind_eq_some_iff.mp landed
    obtain rfl := Option.some.inj same
    rw [List.length_zip, Nat.lt_min] at below
    rw [List.getElem_zip] at entry
    have here : (mesh.stencil f.domain)[k]? = some corners := by
      rw [← (Prod.mk.inj entry).1, ← Array.getElem?_toList, List.getElem?_eq_getElem below.1]
    have ends := wellFormed.getElem?_corner (d := f.domain)
      (Nat.lt_of_lt_of_le below.2 covers) side
    rw [here, Option.getD_some, corner] at ends
    exact ⟨n, wellFormed.endOf?_lt ends.symm, target⟩

variable {r : Region β α} {measure : Array α} {circuit : Option CircuitColumn} {select : Selector}

theorem exists_contribution_of_mem_matrix {entry : MatrixRecord α}
    (member : entry ∈ i.matrix rows r measure circuit) :
    ∃ values, ∃ c ∈ i.contributions r.mesh rows (weigh measure values), c.row = entry.row := by
  rcases List.mem_append.mp member with byVariable | byCircuit
  · obtain ⟨v, -, inDerivative⟩ := List.mem_flatMap.mp byVariable
    obtain ⟨⟨name, corner⟩, -, inCorner⟩ := List.mem_flatMap.mp inDerivative
    obtain ⟨c, contributed, same⟩ := List.mem_filterMap.mp inCorner
    obtain ⟨node, -, rfl⟩ := Option.map_eq_some_iff.mp same
    exact ⟨_, c, contributed, rfl⟩
  · obtain ⟨column, -, inColumn⟩ := List.mem_flatMap.mp byCircuit
    obtain ⟨c, contributed, rfl⟩ := List.mem_map.mp inColumn
    exact ⟨_, c, contributed, rfl⟩

theorem exists_contribution_of_mem_residual {entry : ResidualRecord α}
    (member : entry ∈ i.residual rows r measure) :
    ∃ values, ∃ c ∈ i.contributions r.mesh rows (weigh measure values), c.row = entry.row := by
  obtain ⟨c, contributed, rfl⟩ := List.mem_map.mp member
  exact ⟨_, c, contributed, rfl⟩

theorem exists_contribution_of_mem_rows {row : Nat}
    (member : row ∈ (i.records rows r measure circuit select).rows) :
    ∃ values, ∃ c ∈ i.contributions r.mesh rows (weigh measure values), c.row = row := by
  rw [Records.rows, List.mem_append, List.mem_map, List.mem_map] at member
  rcases member with ⟨entry, inMatrix, rfl⟩ | ⟨entry, inResidual, rfl⟩
  · by_cases wanted : select.wantsMatrix = true
    · rw [records, if_pos wanted] at inMatrix
      exact i.exists_contribution_of_mem_matrix inMatrix
    · rw [records, if_neg wanted] at inMatrix
      cases inMatrix
  · by_cases wanted : select.wantsResidual = true
    · rw [records, if_pos wanted] at inResidual
      exact i.exists_contribution_of_mem_residual inResidual
    · rw [records, if_neg wanted] at inResidual
      cases inResidual

theorem exists_row?_of_mem_rows {row : Nat}
    (member : row ∈ (i.records rows r measure circuit select).rows) :
    ∃ n, rows.row? n = some row := by
  obtain ⟨values, c, contributed, rfl⟩ := i.exists_contribution_of_mem_rows member
  exact i.exists_row?_of_mem_contributions contributed

theorem exists_node_of_mem_rows (wellFormed : r.mesh.WellFormed)
    (covers : measure.size ≤ r.size i.domain) {row : Nat}
    (member : row ∈ (i.records rows r measure circuit select).rows) :
    ∃ n < r.nodeCount, rows.row? n = some row := by
  obtain ⟨values, c, contributed, rfl⟩ := i.exists_contribution_of_mem_rows member
  exact i.exists_node_of_mem_contributions wellFormed
    (Nat.le_trans (size_weigh_le measure values) covers) contributed

section

variable {measures : MeasureNames} {terms : List (Rows × Integrand)} {row : Nat}
  (member : row ∈ (assembled measures circuit select terms r).rows)

include member

/-- Every record of a list of terms lies on a row of one of the terms. -/
theorem exists_row?_of_mem_assembled : ∃ term ∈ terms, ∃ n, term.1.row? n = some row := by
  obtain ⟨part, isPart, inPart⟩ := Records.mem_rows_join.mp member
  obtain ⟨term, inTerms, same⟩ := List.mem_map.mp isPart
  subst same
  exact ⟨term, inTerms, term.2.exists_row?_of_mem_rows inPart⟩

/-- Every record of a list of terms lies on the row of a node for one of the terms. -/
theorem exists_node_of_mem_assembled (wellFormed : r.mesh.WellFormed)
    (sized : ∀ d name, (r.values d name).size ≤ r.size d) :
    ∃ term ∈ terms, ∃ n < r.nodeCount, term.1.row? n = some row := by
  obtain ⟨part, isPart, inPart⟩ := Records.mem_rows_join.mp member
  obtain ⟨term, inTerms, same⟩ := List.mem_map.mp isPart
  subst same
  exact ⟨term, inTerms, term.2.exists_node_of_mem_rows wellFormed (sized _ _) inPart⟩

end

end Integrand

end FiniteVolume
