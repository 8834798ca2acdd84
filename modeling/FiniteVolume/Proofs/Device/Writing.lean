import FiniteVolume.Proofs.Assembly.Rows
import FiniteVolume.Proofs.Device.Claims
import FiniteVolume.Proofs.Equation.Coupling
import FiniteVolume.Proofs.Equation.Terms

/-!
The rows that boundary equations write to: the rows of the places that they own, and rows of circuit
nodes (`Boundary.writes_step`).
-/
namespace FiniteVolume

variable {β α : Type} [BaseScalar β] [Scalar α] {mask : Array Bool} {settings : Settings β}
  {select : Selector} {time : TimeMode}

/-- The rows of circuit nodes come from the first one on. -/
theorem ContactEquation.base_le_column {e : ContactEquation β} {circuit : Circuit β}
    {c : CircuitColumn} (found : e.column? circuit = some c) : circuit.base ≤ c.column := by
  obtain ⟨node, -, found⟩ := Option.bind_eq_some_iff.mp found
  obtain ⟨row, here, rfl⟩ := Option.map_eq_some_iff.mp found
  obtain ⟨i, -, rfl⟩ := Option.map_eq_some_iff.mp here
  exact Nat.le_add_right ..

theorem ContactEquation.writes_rows (e : ContactEquation β) {circuit : Circuit β}
    (numeric : select ≠ .rows) :
    (e.assemble mask circuit settings select time : RegionPass β α Unit).Writes fun _ r records =>
      ∀ row ∈ records.rows, (∃ n, isActive mask n = true ∧ r.row? e.name n = some row) ∨
        circuit.base ≤ row := by
  refine (e.writes_assemble numeric).mono ?_
  rintro _ r _ ⟨start, slot, rfl⟩ row member
  obtain ⟨term, inTerms, n, landed⟩ := Integrand.exists_row?_of_mem_assembled member
  rcases List.mem_append.mp inTerms with onContact | onCircuit
  · obtain ⟨i, -, rfl⟩ := List.mem_map.mp onContact
    obtain ⟨active, rfl⟩ : isActive mask n = true ∧ start + n = row := by
      simpa [Rows.row?] using landed
    exact .inl ⟨n, active, by rw [Region.row?_eq, slot]; rfl⟩
  · obtain ⟨c, column, inModels⟩ := List.mem_flatMap.mp onCircuit
    obtain ⟨i, -, rfl⟩ := List.mem_map.mp inModels
    obtain ⟨-, rfl⟩ : isActive mask n = true ∧ c.column = row := by simpa [Rows.row?] using landed
    exact .inr (base_le_column (by simpa using column))

theorem PairRows.exists_side_of_mem_weigh {p : PairRows} {coupling : Coupling}
    {area0 area1 values : Array α} {w : Nat × α} (member : w ∈ p.weigh coupling area0 area1 values) :
    ∃ side, p.row side = w.1 := by
  obtain ⟨side, -, landed⟩ := List.mem_filterMap.mp member
  obtain ⟨factor, -, landed⟩ := Option.bind_eq_some_iff.mp landed
  obtain ⟨v, -, same⟩ := Option.bind_eq_some_iff.mp landed
  obtain rfl := Option.some.inj same
  exact ⟨side, rfl⟩

namespace InterfaceEquation

variable {e : InterfaceEquation}

omit [BaseScalar β] in
theorem exists_pair_of_mem_rows {c : Coupled β α} {area0 area1 : Array α} {pairs : List PairRows}
    {row : Nat} (member : row ∈ (e.recordsWith c area0 area1 pairs select).rows) :
    ∃ p ∈ pairs, ∃ side, p.row side = row := by
  rw [Records.rows, List.mem_append, List.mem_map, List.mem_map] at member
  rcases member with ⟨entry, inMatrix, rfl⟩ | ⟨entry, inResidual, rfl⟩
  · by_cases wanted : select.wantsMatrix = true
    · rw [recordsWith, if_pos wanted] at inMatrix
      obtain ⟨d, -, inPairs⟩ := List.mem_flatMap.mp inMatrix
      obtain ⟨p, isPair, weighed⟩ := List.mem_flatMap.mp inPairs
      obtain ⟨w, member, rfl⟩ := List.mem_map.mp weighed
      exact ⟨p, isPair, p.exists_side_of_mem_weigh member⟩
    · rw [recordsWith, if_neg wanted] at inMatrix
      cases inMatrix
  · by_cases wanted : select.wantsResidual = true
    · rw [recordsWith, if_pos wanted] at inResidual
      obtain ⟨p, isPair, weighed⟩ := List.mem_flatMap.mp inResidual
      obtain ⟨w, member, rfl⟩ := List.mem_map.mp weighed
      exact ⟨p, isPair, p.exists_side_of_mem_weigh member⟩
    · rw [recordsWith, if_neg wanted] at inResidual
      cases inResidual

theorem writes_rows (e : InterfaceEquation) (numeric : select ≠ .rows) :
    (e.assemble mask settings select time : CoupledPass β α Unit).Writes fun _ c records =>
      ∀ row ∈ records.rows, ∃ pair ∈ c.junction.geometry.activePairs mask, ∃ side,
        (c.region side).row? (e.sideName side) (Interface.nodeOf side pair) = some row := by
  refine (e.writes_assemble numeric).mono ?_
  intro _ c records holds row member
  cases time with
  | transient =>
    rw [holds] at member
    cases member
  | steady =>
    obtain ⟨start0, start1, slot0, slot1, complete, incomplete⟩ := holds
    by_cases here : e.Complete settings.measures c
    · rw [complete here] at member
      obtain ⟨p, isPair, side, rfl⟩ := exists_pair_of_mem_rows member
      obtain ⟨⟨pair, index⟩, active, rfl⟩ := List.mem_map.mp isPair
      refine ⟨pair, List.mem_map.mpr ⟨_, active, rfl⟩, side, ?_⟩
      rw [Region.row?_eq]
      cases side
      · exact congrArg _ slot0
      · exact congrArg _ slot1
    · rw [incomplete here] at member
      cases member

end InterfaceEquation

/-! ## All equations -/

/-- A boundary equation writes to the rows of the places that it owns, and to rows of circuit
nodes. -/
theorem Boundary.writes_step (d : Device β α) (numeric : select ≠ .rows) (b : Boundary β) :
    (b.step d select time).Writes fun _ p records => ∀ row ∈ records.rows,
      (∃ x, b.Owns p x ∧ p.row? x = some row) ∨ d.circuit.base ≤ row := by
  cases b with
  | contact region e mask =>
    refine (Parts.writes_onRegion (e.writes_rows numeric) ?_).mono ?_
    · intro r r' records same holds row member
      rw [show r'.row? = r.row? from Region.eq_of_bare_eq (fun _ => rfl) same]
      exact holds row member
    · rintro _ p records (⟨-, rfl⟩ | ⟨r, found, holds⟩) row member
      · cases member
      · refine (holds row member).imp_left ?_
        rintro ⟨n, active, here⟩
        refine ⟨⟨region, e.name, n⟩, ⟨rfl, rfl, active⟩, ?_⟩
        rw [Parts.row?, found]
        exact here
  | interface name e mask =>
    refine (Parts.writes_onCoupled (e.writes_rows numeric) ?_).mono ?_
    · intro c c' records junction regions holds row member
      obtain ⟨pair, active, side, here⟩ := holds row member
      refine ⟨pair, Junction.bare_eq_iff.mp junction ▸ active, side, ?_⟩
      rw [← here]
      exact congrFun (congrFun (Region.eq_of_bare_eq (f := Region.row?) (fun _ => rfl)
        (regions side)) _) _
    · rintro _ p records (⟨-, rfl⟩ | ⟨c, found, holds⟩) row member
      · cases member
      · obtain ⟨pair, active, side, here⟩ := holds row member
        obtain ⟨junction, regions⟩ := Parts.coupled?_eq_some_iff.mp found
        refine .inl ⟨_, ⟨c.junction, junction, pair, active, side, rfl⟩, ?_⟩
        rw [Parts.row?, InterfaceEquation.placeAt, regions side]
        exact here

end FiniteVolume
