/-!
The four domains that models live on, and which of them combine.

Values on edges may be read on the local edges of elements; no other domain is read as another.
-/
namespace FiniteVolume

/-- The geometric entities that carry one value each. -/
inductive Domain where
  | node
  | edge
  /-- Local edges of triangles, three per triangle. -/
  | triangleEdge
  /-- Local edges of tetrahedra, six per tetrahedron. -/
  | tetrahedronEdge
  deriving Repr, DecidableEq

namespace Domain

/-- All domains, in the order in which a name of unknown domain is looked up. -/
def all : List Domain := [node, edge, triangleEdge, tetrahedronEdge]

def text : Domain → String
  | node => "node"
  | edge => "edge"
  | triangleEdge => "triangle_edge"
  | tetrahedronEdge => "tetrahedron_edge"

def fieldText : Domain → String
  | node => "nodedata"
  | edge => "edgedata"
  | triangleEdge => "triangleedgedata"
  | tetrahedronEdge => "tetrahedronedgedata"

def isElementEdge : Domain → Bool
  | triangleEdge | tetrahedronEdge => true
  | node | edge => false

def edgesPerElement : Domain → Option Nat
  | triangleEdge => some 3
  | tetrahedronEdge => some 6
  | node | edge => none

def corners : Domain → Nat
  | node => 1
  | edge => 2
  | triangleEdge => 3
  | tetrahedronEdge => 4

/-- Whether values on the first domain may be read on the second. -/
def widensTo (source target : Domain) : Bool :=
  source == target || (source == edge && target.isElementEdge)

end Domain

end FiniteVolume
