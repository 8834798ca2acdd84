import Mathlib.Algebra.BigOperators.Ring.Finset
import Mathlib.Algebra.BigOperators.Ring.List
import Mathlib.Tactic.Ring
import FiniteVolume.Proofs.Numeric.Exact
import FiniteVolume.Proofs.Assembly.Integrand

/-!
Sums of records in exact arithmetic.

Contributions on a row add up to a sum over the entities, each value times the share of its entity in
the row (`Integrand.sumAt_contributions`). The sum over the matrix records of a row, each times a
number for its column, is therefore the residual of the directional model (`Integrand.matrixAt_eq`).
-/
namespace FiniteVolume

open Finset

variable {β α : Type} [Scalar α] [ExactScalar α]

/-! ## Sums on a row -/

namespace Records

def residualAt (r : Records α) (row : Nat) : α :=
  (r.residual.map fun m => if m.row = row then m.value else 0).sum

/-- The sum of the matrix records on a row, each times a number for its column. -/
def matrixAt (r : Records α) (x : Nat → α) (row : Nat) : α :=
  (r.matrix.map fun m => if m.row = row then m.value * x m.column else 0).sum

variable {r s : Records α} {x : Nat → α} {row : Nat}

theorem residualAt_append : (r.append s).residualAt row = r.residualAt row + s.residualAt row := by
  simp [residualAt, append]

theorem matrixAt_append : (r.append s).matrixAt x row = r.matrixAt x row + s.matrixAt x row := by
  simp [matrixAt, append]

theorem residualAt_join (parts : List (Records α)) :
    (join parts).residualAt row = (parts.map (·.residualAt row)).sum := by
  induction parts with
  | nil => rfl
  | cons part rest ih => rw [join_cons, residualAt_append, ih, List.map_cons, List.sum_cons]

theorem matrixAt_join (parts : List (Records α)) :
    (join parts).matrixAt x row = (parts.map (·.matrixAt x row)).sum := by
  induction parts with
  | nil => rfl
  | cons part rest ih => rw [join_cons, matrixAt_append, ih, List.map_cons, List.sum_cons]

theorem matrixAt_flatMap {ι : Type} (items : List ι) (f : ι → List (MatrixRecord α)) :
    matrixAt ⟨items.flatMap f, []⟩ x row = (items.map fun i => matrixAt ⟨f i, []⟩ x row).sum := by
  induction items with
  | nil => rfl
  | cons i rest ih =>
    rw [List.flatMap_cons, List.map_cons, List.sum_cons, ← ih]
    exact matrixAt_append (r := ⟨f i, []⟩) (s := ⟨rest.flatMap f, []⟩)

end Records

/-- The sum of contributions on a row, each times a number for the corners it comes from. -/
def sumAt (row : Nat) (g : List Nat → α) (contributions : List (Contribution α)) : α :=
  (contributions.map fun c => if c.row = row then g c.corners * c.value else 0).sum

section

variable {row : Nat} {x : Nat → α} {g : List Nat → α} {contributions : List (Contribution α)}

theorem sumAt_flatMap {ι : Type} (items : List ι) (f : ι → List (Contribution α)) :
    sumAt row g (items.flatMap f) = (items.map fun i => sumAt row g (f i)).sum := by
  induction items with
  | nil => rfl
  | cons i rest ih =>
    rw [List.flatMap_cons, List.map_cons, List.sum_cons, ← ih]
    simp [sumAt]

theorem residualAt_residualRecords :
    Records.residualAt ⟨[], residualRecords contributions⟩ row =
      sumAt row (fun _ => 1) contributions := by
  simp [Records.residualAt, residualRecords, sumAt, Function.comp_def]

/-- The number for the node at a corner, zero where there is no such corner. -/
def atCorner (x : Nat → α) (start corner : Nat) (corners : List Nat) : α :=
  (corners[corner]?).elim 0 fun node => x (start + node)

theorem matrixAt_cornerRecords {start corner : Nat} :
    Records.matrixAt ⟨cornerRecords start corner contributions, []⟩ x row =
      sumAt row (atCorner x start corner) contributions := by
  induction contributions with
  | nil => rfl
  | cons c rest ih =>
    simp only [Records.matrixAt, cornerRecords, sumAt, atCorner, List.filterMap_cons, List.map_cons,
      List.sum_cons] at ih ⊢
    cases node : c.corners[corner]? with
    | none => simp [ih]
    | some n => simp [ih, mul_comm]

theorem matrixAt_columnRecords {column : Nat} :
    Records.matrixAt ⟨columnRecords column contributions, []⟩ x row =
      sumAt row (fun _ => x column) contributions := by
  simp [Records.matrixAt, columnRecords, sumAt, Function.comp_def, mul_comm]

end

/-! ## Shares of entities -/

/-- One where a node's contribution lands on the row, zero elsewhere. -/
def Rows.lands (rows : Rows) (row : Nat) (node : Option Nat) : α :=
  if node.bind rows.row? = some row then 1 else 0

def EndWeights.weight (ends : EndWeights) (side : Side) : α := (ends.factor? side).getD 0

namespace Integrand

variable (i : Integrand) (mesh : Mesh β) (rows : Rows) (row : Nat)

omit [Scalar α] [ExactScalar α] in
def cornersOf (k : Nat) : List Nat :=
  match i with
  | node _ => [k]
  | flux f => ((mesh.stencil f.domain)[k]?).getD []

/-- The share of an entity in a row. -/
def share (k : Nat) : α :=
  match i with
  | node _ => rows.lands row (some k)
  | flux f => f.ends.weight .first * rows.lands row ((i.cornersOf mesh k)[0]?)
      + f.ends.weight .second * rows.lands row ((i.cornersOf mesh k)[1]?)

end Integrand

section

variable {rows : Rows} {row : Nat} {g : List Nat → α}

theorem sum_map_eq_sum_range {ι : Type} (f : ι → α) (items : List ι) {count : Nat}
    (covers : items.length ≤ count) :
    (items.map f).sum = ∑ k ∈ range count, (items[k]?.map f).getD 0 := by
  induction items generalizing count with
  | nil => simp
  | cons x rest ih =>
    obtain ⟨m, rfl⟩ : ∃ m, count = m + 1 := ⟨count - 1, by simp at covers; omega⟩
    rw [Finset.sum_range_succ', List.map_cons, List.sum_cons, ih (by simpa using covers)]
    simp [add_comm]

theorem sumAt_atEnds (ends : EndWeights) (corners : List Nat) (value : α) :
    sumAt row g (atEnds ends rows corners value) =
      (ends.weight .first * rows.lands row corners[0]? + ends.weight .second * rows.lands row corners[1]?)
        * (g corners * value) := by
  have side : ∀ s : Side, sumAt row g (Option.toList do
      let factor ← ends.factor? s
      let node ← corners[s.index]?
      let row ← rows.row? node
      return (⟨row, corners, factor * value⟩ : Contribution α)) =
        ends.weight s * rows.lands row corners[s.index]? * (g corners * value) := by
    intro s
    cases factor : (ends.factor? s : Option α) with
    | none => simp [sumAt, EndWeights.weight, factor]
    | some w =>
      cases node : corners[s.index]? with
      | none => simp [sumAt, Rows.lands]
      | some n =>
        cases target : rows.row? n with
        | none => simp [sumAt, Rows.lands, target]
        | some row' =>
          by_cases same : row' = row
          · simp [sumAt, Rows.lands, EndWeights.weight, factor, target, same]
            ring
          · simp [sumAt, Rows.lands, target, same]
  rw [atEnds, List.filterMap_eq_flatMap_toList, sumAt_flatMap, Side.both, List.map_cons,
    List.map_cons, List.map_nil, List.sum_cons, List.sum_cons, List.sum_nil, side, side]
  simp only [Side.index]
  ring

/-- The values on the entities of a stencil reach a row by the shares of their ends. -/
theorem sumAt_scatter (stencil : Array (List Nat)) (ends : EndWeights) (values : Array α) {count : Nat}
    (covers : values.size ≤ count) :
    sumAt row g (scatter stencil ends rows values) = ∑ k ∈ range count,
      (ends.weight .first * rows.lands row ((stencil[k]?.getD [])[0]?)
        + ends.weight .second * rows.lands row ((stencil[k]?.getD [])[1]?))
        * (g (stencil[k]?.getD []) * values[k]?.getD 0) := by
  have length : (stencil.toList.zip values.toList).length ≤ count := by
    rw [List.length_zip]
    exact Nat.le_trans (Nat.min_le_right ..) covers
  rw [scatter, sumAt_flatMap, sum_map_eq_sum_range _ _ length]
  refine Finset.sum_congr rfl fun k _ => ?_
  rw [List.zip, List.getElem?_zipWith, Array.getElem?_toList, Array.getElem?_toList]
  cases corners : stencil[k]? with
  | none => simp [Rows.lands]
  | some c =>
    cases value : values[k]? with
    | none => simp
    | some v => exact sumAt_atEnds ends c v

theorem sumAt_atNodes (values : Array α) {count : Nat} (covers : values.size ≤ count) :
    sumAt row g (atNodes rows values) = ∑ k ∈ range count,
      rows.lands row (some k) * (g [k] * values[k]?.getD 0) := by
  rw [atNodes, List.filterMap_eq_flatMap_toList, sumAt_flatMap,
    sum_map_eq_sum_range _ _ (Nat.le_trans (by simp) covers)]
  refine Finset.sum_congr rfl fun k _ => ?_
  rw [List.getElem?_zipIdx, Array.getElem?_toList]
  cases value : values[k]? with
  | none => simp
  | some v =>
    cases target : rows.row? k with
    | none => simp [sumAt, Rows.lands, target]
    | some row' => by_cases same : row' = row <;> simp [sumAt, Rows.lands, target, same]

/-- Contributions on a row are the values of the entities by their shares in the row. -/
theorem Integrand.sumAt_contributions (i : Integrand) (mesh : Mesh β) (values : Array α) {count : Nat}
    (covers : values.size ≤ count) :
    sumAt row g (i.contributions mesh rows values) = ∑ k ∈ range count,
      i.share mesh rows row k * (g (i.cornersOf mesh k) * values[k]?.getD 0) := by
  cases i with
  | node model => exact sumAt_atNodes values covers
  | flux f => exact sumAt_scatter (mesh.stencil f.domain) f.ends values covers

end

/-! ## Terms -/

theorem getD_weigh (measure values : Array α) (k : Nat) :
    (weigh measure values)[k]?.getD 0 = measure[k]?.getD 0 * values[k]?.getD 0 := by
  rw [weigh, Array.getElem?_zipWith]
  cases measure[k]? <;> cases values[k]? <;> simp

/-- Sums over a list and over numbers may be taken in either order. -/
theorem sum_map_sum_comm {ι : Type} (items : List ι) (f : ι → Nat → α) (count : Nat) :
    (items.map fun x => ∑ k ∈ range count, f x k).sum =
      ∑ k ∈ range count, (items.map fun x => f x k).sum := by
  induction items with
  | nil => simp
  | cons x rest ih => simp [ih, Finset.sum_add_distrib]

namespace Integrand

variable (i : Integrand) {rows : Rows} {r : Region β α} {measure : Array α} {row count : Nat}
  {x : Nat → α} {circuit : Option CircuitColumn}

/-- The directional model at an entity: its derivatives times the numbers of their columns. -/
def direction (r : Region β α) (x : Nat → α) (circuit : Option CircuitColumn) (k : Nat) : α :=
  (r.variableNames.map fun u => ((i.derivativeNames u).zipIdx.map fun (name, corner) =>
      r.valueAt i.domain name k * atCorner x (r.firstColumn u) corner (i.cornersOf r.mesh k)).sum).sum
    + (circuit.toList.map fun c =>
        r.valueAt i.domain (derivativeName i.model c.name) k * x c.column).sum

variable (covers : measure.size ≤ count)

include covers

theorem sumAt_weigh (g : List Nat → α) (name : String) :
    sumAt row g (i.contributions r.mesh rows (weigh measure (r.values i.domain name))) =
      ∑ k ∈ range count, i.share r.mesh rows row k *
        (measure[k]?.getD 0 * (r.valueAt i.domain name k * g (i.cornersOf r.mesh k))) := by
  rw [i.sumAt_contributions r.mesh _ (Nat.le_trans (size_weigh_le ..) covers)]
  refine Finset.sum_congr rfl fun k _ => ?_
  rw [getD_weigh, Region.valueAt]
  ring

theorem residualAt_eq : Records.residualAt ⟨[], i.residual rows r measure⟩ row =
    ∑ k ∈ range count, i.share r.mesh rows row k *
      (measure[k]?.getD 0 * r.valueAt i.domain i.model k) := by
  rw [residual, residualAt_residualRecords, i.sumAt_weigh covers]
  simp only [mul_one]

/-- On every row, the matrix of a term applied to numbers for the columns is the residual with the
directional model. -/
theorem matrixAt_eq : Records.matrixAt ⟨i.matrix rows r measure circuit, []⟩ x row =
    ∑ k ∈ range count, i.share r.mesh rows row k *
      (measure[k]?.getD 0 * i.direction r x circuit k) := by
  have both : Records.matrixAt ⟨i.matrix rows r measure circuit, []⟩ x row =
      Records.matrixAt ⟨r.variableNames.flatMap (i.derivative rows r measure), []⟩ x row
        + Records.matrixAt ⟨circuit.toList.flatMap (i.circuitDerivative rows r measure), []⟩ x row :=
    Records.matrixAt_append (r := ⟨_, []⟩) (s := ⟨_, []⟩)
  rw [both, Records.matrixAt_flatMap, Records.matrixAt_flatMap]
  simp only [derivative, Records.matrixAt_flatMap, matrixAt_cornerRecords, circuitDerivative,
    matrixAt_columnRecords, i.sumAt_weigh covers, sum_map_sum_comm, ← Finset.sum_add_distrib]
  refine Finset.sum_congr rfl fun k _ => ?_
  simp only [direction, mul_add, ← List.sum_map_mul_left]

end Integrand

end FiniteVolume
