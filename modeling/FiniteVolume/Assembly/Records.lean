import FiniteVolume.Assembly.RowMap
import FiniteVolume.Numeric.Scalar

/-!
What an assembly produces: contributions to the entries of a sparse matrix and to a residual, in the
order in which they were assembled. Contributions to one entry add up; nothing is merged until they
are summed.
-/
namespace FiniteVolume

structure MatrixRecord (α : Type) where
  row : Nat
  column : Nat
  value : α
  deriving Repr, DecidableEq

structure ResidualRecord (α : Type) where
  row : Nat
  value : α
  deriving Repr, DecidableEq

structure Records (α : Type) where
  matrix : List (MatrixRecord α) := []
  residual : List (ResidualRecord α) := []
  deriving Repr, DecidableEq

namespace Records

variable {β α γ : Type}

def isEmpty (r : Records α) : Bool := r.matrix.isEmpty && r.residual.isEmpty

def addMatrix (r : Records α) (records : List (MatrixRecord α)) : Records α :=
  { r with matrix := r.matrix ++ records }

def addResidual (r : Records α) (records : List (ResidualRecord α)) : Records α :=
  { r with residual := r.residual ++ records }

def convert [Precision β α] [Precision β γ] (r : Records α) : Records γ where
  matrix := r.matrix.map fun m => ⟨m.row, m.column, Precision.convert m.value⟩
  residual := r.residual.map fun m => ⟨m.row, Precision.convert m.value⟩

/-- All contributions of the first, then those of the second. -/
def append (r s : Records α) : Records α :=
  ⟨r.matrix ++ s.matrix, r.residual ++ s.residual⟩

/-- Every contribution on each row where it lands. -/
def permute (r : Records α) (rows : RowMap) : Records α where
  matrix := r.matrix.flatMap fun m => (rows.destinations m.row).map (⟨·, m.column, m.value⟩)
  residual := r.residual.flatMap fun m => (rows.destinations m.row).map (⟨·, m.value⟩)

/-- Add a value under a key to a list of sums in ascending order of key. -/
def addUnder {κ : Type} [DecidableEq κ] [Add α] [Zero α] (below : κ → κ → Bool) (key : κ) (value : α) :
    List (κ × α) → List (κ × α)
  | [] => [(key, 0 + value)]
  | (k, v) :: rest =>
    if key = k then (k, v + value) :: rest
    else if below key k then (key, 0 + value) :: (k, v) :: rest
    else (k, v) :: addUnder below key value rest

variable [Scalar α]

def residualByRow (r : Records α) : List (Nat × α) :=
  r.residual.foldl (fun sums m => addUnder (fun a b => decide (a < b)) m.row m.value sums) []

/-- The matrix summed by entry, in ascending order of row and column. -/
def matrixByEntry (r : Records α) : List ((Nat × Nat) × α) :=
  r.matrix.foldl (fun sums m => addUnder
    (fun a b => decide (a.1 < b.1 ∨ a.1 = b.1 ∧ a.2 < b.2)) (m.row, m.column) m.value sums) []

end Records

end FiniteVolume
