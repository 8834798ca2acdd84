import FiniteVolume.Mesh.Boundary
import FiniteVolume.Name
import FiniteVolume.Numeric.Scalar

/-!
How the values of entities spread over the rows of their nodes.

A value on an edge goes to both ends, each end with a weight: with opposed weights, what leaves one
node enters the other. `scatter` lists all contributions of the entities of a domain.
-/
namespace FiniteVolume

inductive Rows where
  /-- Every node on a row of its own. -/
  | block (start : Nat)
  /-- The nodes of a mask on rows of their own. -/
  | nodes (start : Nat) (mask : Array Bool)
  /-- The nodes of a mask on one row. -/
  | single (row : Nat) (mask : Array Bool)

def Rows.row? : Rows → Nat → Option Nat
  | block start, node => some (start + node)
  | nodes start mask, node => if isActive mask node then some (start + node) else none
  | single row mask, node => if isActive mask node then some row else none

/-- How the value of an entity is shared by its two ends. -/
inductive EndWeights where
  /-- Added at the first end, subtracted at the second. -/
  | opposed
  /-- Added at both ends. -/
  | shared
  | firstOnly
  | secondOnly
  deriving Repr, DecidableEq

/-- The factor at an end, nothing where the end takes no part. -/
def EndWeights.factor? {α : Type} [Scalar α] : EndWeights → Side → Option α
  | opposed, .first | shared, _ | firstOnly, .first | secondOnly, .second => some 1
  | opposed, .second => some (-1)
  | firstOnly, .second | secondOnly, .first => none

/-- A model on an edge or element-edge domain, integrated with a measure. -/
structure Flux where
  model : String
  domain : Domain
  measure : String
  ends : EndWeights
  deriving Repr, DecidableEq

/-- Integration of a model over the shares of the two ends: in one go when both shares are given by
the same model and the same measure, otherwise each share at its own end. -/
def Flux.overShares (domain : Domain) (model0 model1 : Option String) (measure0 measure1 : String) :
    List Flux :=
  if model0.isSome ∧ model0 = model1 ∧ measure0 = measure1 then
    model0.toList.map (⟨·, domain, measure0, .shared⟩)
  else
    model0.toList.map (⟨·, domain, measure0, .firstOnly⟩)
      ++ model1.toList.map (⟨·, domain, measure1, .secondOnly⟩)

def Domain.cornerSuffixes : Domain → List Suffix
  | .node => []
  | .edge => Suffix.ends
  | .triangleEdge => Suffix.corners.take 3
  | .tetrahedronEdge => Suffix.corners

/-- A value that lands on a row, with the corners of the entity that it comes from. -/
structure Contribution (α : Type) where
  row : Nat
  corners : List Nat
  value : α
  deriving Repr

variable {α : Type}

def atNodes (rows : Rows) (values : Array α) : List (Contribution α) :=
  values.toList.zipIdx.filterMap fun (v, node) => (rows.row? node).map fun row => ⟨row, [node], v⟩

variable [Scalar α]

def atEnds (ends : EndWeights) (rows : Rows) (corners : List Nat) (value : α) :
    List (Contribution α) :=
  Side.both.filterMap fun side => do
    let factor ← ends.factor? side
    let node ← corners[side.index]?
    let row ← rows.row? node
    return ⟨row, corners, factor * value⟩

def scatter (stencil : Array (List Nat)) (ends : EndWeights) (rows : Rows) (values : Array α) :
    List (Contribution α) :=
  (stencil.toList.zip values.toList).flatMap fun (corners, v) => atEnds ends rows corners v

/-- The sum of values from the left, starting at zero. -/
def total (values : List α) : α := values.foldl (· + ·) 0

def sumOverNodes (mask : Array Bool) (values : Array α) : α :=
  total ((values.toList.zipIdx.filter fun (_, node) => isActive mask node).map (·.1))

/-- What one entity carries through the nodes of a mask. With opposed weights, an entity between two
nodes of the mask carries nothing out of it. -/
def throughMask (ends : EndWeights) (mask : Array Bool) (corners : List Nat) (value : α) : List α :=
  if ends = .opposed ∧ (corners.take 2).all (isActive mask) then []
  else Side.both.filterMap fun side => do
    let factor ← ends.factor? side
    let node ← corners[side.index]?
    if isActive mask node then some (factor * value) else none

def sumThroughMask (stencil : Array (List Nat)) (ends : EndWeights) (mask : Array Bool)
    (values : Array α) : α :=
  total ((stencil.toList.zip values.toList).flatMap fun (corners, v) =>
    throughMask ends mask corners v)

end FiniteVolume
