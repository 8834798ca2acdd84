import FiniteVolume.Proofs.Assembly.Amounts
import FiniteVolume.Proofs.Assembly.Integrand
import FiniteVolume.Proofs.Mesh.Stencil

/-!
Records that sum to zero.

In exact arithmetic, what crosses an entity leaves the row of its first end and enters that of its
second, so that the records of opposed fluxes are balanced: every quantity sums to zero over all rows
(`Flux.balanced_crossed`). Moving records keeps the sums, as long as no row is dropped or copied
(`Records.total_permute`).
-/
namespace FiniteVolume

variable {β α : Type} [Scalar α]

/-! ## Sums over all rows -/

/-- No row is dropped or copied. -/
def RowMap.Transfers (m : RowMap) : Prop := ∀ row, ∃ target, m.destinations row = [target]

namespace Records

variable {r s : Records α} {q : Quantity}

omit [Scalar α] in
theorem join_matrix {ι : Type} (items : List ι) (f : ι → List (MatrixRecord α)) :
    join (items.map fun i => ⟨f i, []⟩) = ⟨items.flatMap f, []⟩ := by
  simp [join, List.flatMap_map]

omit [Scalar α] in
theorem join_residual {ι : Type} (items : List ι) (f : ι → List (ResidualRecord α)) :
    join (items.map fun i => ⟨[], f i⟩) = ⟨[], items.flatMap f⟩ := by
  simp [join, List.flatMap_map]

def total (r : Records α) (q : Quantity) : α := ((r.listed q).map (·.2)).sum

/-- Records that move to other rows keep their sums. -/
theorem total_permute {moves : RowMap} (transfers : moves.Transfers) :
    (r.permute moves).total q = r.total q := by
  rw [total, listed_permute, total]
  induction r.listed q with
  | nil => rfl
  | cons x rest ih =>
    obtain ⟨target, moved⟩ := transfers x.1
    simp [moved, ih]

/-- Every quantity sums to zero. -/
def Balanced (r : Records α) : Prop := ∀ q, r.total q = 0

theorem Balanced.empty : ({} : Records α).Balanced := fun q => by cases q <;> simp [total, listed]

theorem Balanced.permute {moves : RowMap} (transfers : moves.Transfers) (balanced : r.Balanced) :
    (r.permute moves).Balanced := fun q => (total_permute transfers).trans (balanced q)

variable [ExactScalar α]

theorem total_append : (r.append s).total q = r.total q + s.total q := by
  cases q <;> simp [total, listed, append]

theorem Balanced.append (first : r.Balanced) (second : s.Balanced) : (r.append s).Balanced :=
  fun q => by rw [total_append, first, second, add_zero]

theorem Balanced.join {parts : List (Records α)} (each : ∀ part ∈ parts, part.Balanced) :
    (join parts).Balanced := by
  induction parts with
  | nil => exact .empty
  | cons part rest ih =>
    obtain ⟨first, later⟩ := List.forall_mem_cons.mp each
    exact first.append (ih later)

theorem Balanced.flatMap_matrix {ι : Type} {items : List ι} {f : ι → List (MatrixRecord α)}
    (each : ∀ i ∈ items, Balanced ⟨f i, []⟩) : Balanced ⟨items.flatMap f, []⟩ := by
  rw [← join_matrix]
  refine .join fun part member => ?_
  obtain ⟨i, isItem, rfl⟩ := List.mem_map.mp member
  exact each i isItem

theorem Balanced.flatMap_residual {ι : Type} {items : List ι} {f : ι → List (ResidualRecord α)}
    (each : ∀ i ∈ items, Balanced ⟨[], f i⟩) : Balanced ⟨[], items.flatMap f⟩ := by
  rw [← join_residual]
  refine .join fun part member => ?_
  obtain ⟨i, isItem, rfl⟩ := List.mem_map.mp member
  exact each i isItem

theorem balanced_residual_pair (row0 row1 : Nat) (v : α) :
    Balanced ⟨[], [⟨row0, v⟩, ⟨row1, -v⟩]⟩ := fun q => by cases q <;> simp [total, listed]

theorem balanced_matrix_pair (row0 row1 column : Nat) (v : α) :
    Balanced ⟨[⟨row0, column, v⟩, ⟨row1, column, -v⟩], []⟩ := by
  intro q
  cases q with
  | residual => simp [total, listed]
  | column other => by_cases same : column = other <;> simp [total, listed, same]

end Records

/-! ## What crosses entities -/

/-- A value that crosses an entity, from the row of its first end to the row of its second. -/
structure Crossing (α : Type) where
  row0 : Nat
  row1 : Nat
  corners : List Nat
  value : α

namespace Crossing

/-- The value on the row of the first end, and its opposite on the row of the second. -/
def residual (x : Crossing α) : List (ResidualRecord α) := [⟨x.row0, x.value⟩, ⟨x.row1, -x.value⟩]

def matrix (x : Crossing α) (column : Nat) : List (MatrixRecord α) :=
  [⟨x.row0, column, x.value⟩, ⟨x.row1, column, -x.value⟩]

def atCorner (x : Crossing α) (start corner : Nat) : List (MatrixRecord α) :=
  (x.corners[corner]?).toList.flatMap fun node => x.matrix (start + node)

end Crossing

namespace Flux

variable (f : Flux) (mesh : Mesh β) (start : Nat)

def crossings (values : Array α) : List (Crossing α) :=
  ((mesh.stencil f.domain).toList.zip values.toList).map fun (corners, v) =>
    ⟨start + corners[0]?.getD 0, start + corners[1]?.getD 0, corners, v⟩

/-- What a flux assembles when its values cross the entities. -/
def crossed (r : Region β α) (measure : Array α) (select : Selector) : Records α where
  matrix := if select.wantsMatrix then
      r.variableNames.flatMap fun u => ((Integrand.flux f).derivativeNames u).zipIdx.flatMap
        fun (name, corner) => (f.crossings r.mesh start (weigh measure (r.values f.domain name))).flatMap
          (·.atCorner (r.firstColumn u) corner)
    else []
  residual := if select.wantsResidual then
      (f.crossings r.mesh start (weigh measure (r.values f.domain f.model))).flatMap Crossing.residual
    else []

variable [ExactScalar α]

theorem balanced_crossed {r : Region β α} {measure : Array α} {select : Selector} :
    (f.crossed start r measure select).Balanced := by
  have matrix : Records.Balanced ⟨(f.crossed start r measure select).matrix, []⟩ := by
    unfold crossed
    dsimp only
    split
    · refine .flatMap_matrix fun u _ => .flatMap_matrix fun _ _ => .flatMap_matrix fun x _ => ?_
      exact .flatMap_matrix fun node _ => Records.balanced_matrix_pair x.row0 x.row1 _ x.value
    · exact .empty
  have residual : Records.Balanced ⟨[], (f.crossed start r measure select).residual⟩ := by
    unfold crossed
    dsimp only
    split
    · exact .flatMap_residual fun x _ => Records.balanced_residual_pair x.row0 x.row1 x.value
    · exact .empty
  simpa [Records.append] using matrix.append residual

variable (opposed : f.ends = .opposed)

include opposed

/-- An opposed flux contributes what crosses the entities. -/
theorem contributions_eq_crossings (values : Array α) :
    (Integrand.flux f).contributions mesh (.block start) values =
      (f.crossings mesh start values).flatMap fun x =>
        [⟨x.row0, x.corners, x.value⟩, ⟨x.row1, x.corners, -x.value⟩] := by
  rw [Integrand.contributions, scatter, opposed, crossings, List.flatMap_map]
  refine List.flatMap_congr ?_
  rintro ⟨corners, v⟩ member
  obtain ⟨n0, n1, rest, rfl⟩ := Mesh.exists_ends_of_mem_stencil
    (Array.mem_toList_iff.mp (List.of_mem_zip member).1)
  simp [atEnds, Side.both, EndWeights.factor?, Side.index, Rows.row?]

theorem records_eq_crossed {r : Region β α} {measure : Array α} {select : Selector} :
    (Integrand.flux f).records (.block start) r measure none select =
      f.crossed start r measure select := by
  have corner : ∀ values : Array α, ∀ first k : Nat,
      cornerRecords first k ((Integrand.flux f).contributions r.mesh (.block start) values) =
        (f.crossings r.mesh start values).flatMap (·.atCorner first k) := by
    intro values first k
    rw [f.contributions_eq_crossings r.mesh start opposed, cornerRecords, List.filterMap_flatMap]
    refine List.flatMap_congr fun x _ => ?_
    cases node : x.corners[k]? <;> simp [Crossing.atCorner, Crossing.matrix, node]
  have onRows : ∀ values : Array α,
      residualRecords ((Integrand.flux f).contributions r.mesh (.block start) values) =
        (f.crossings r.mesh start values).flatMap Crossing.residual := by
    intro values
    rw [f.contributions_eq_crossings r.mesh start opposed, residualRecords, List.map_flatMap]
    rfl
  have derivative : (Integrand.flux f).derivative (.block start) r measure = fun u =>
      ((Integrand.flux f).derivativeNames u).zipIdx.flatMap fun (name, k) =>
        (f.crossings r.mesh start (weigh measure (r.values f.domain name))).flatMap
          (·.atCorner (r.firstColumn u) k) := by
    funext u
    exact List.flatMap_congr fun _ _ => corner ..
  simp only [Integrand.records, Integrand.matrix, Integrand.residual, Integrand.domain,
    Integrand.model, derivative, onRows, Option.toList_none, List.flatMap_nil, List.append_nil, crossed]

end Flux

end FiniteVolume
