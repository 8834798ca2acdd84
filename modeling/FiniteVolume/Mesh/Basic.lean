import FiniteVolume.Domain
import FiniteVolume.Ordered.Set

/-!
Meshes of line segments, triangles or tetrahedra.

Edges join a lower to a higher node and are numbered in order of first appearance. Every element
knows the numbers of its local edges; these *element edges* are numbered through, element by
element, and each reaches the corners of its element, the two ends of the edge first.
-/
namespace FiniteVolume

inductive MeshError where
  | tooFewNodes (count least : Nat)
  | nodeOutOfRange (element node nodeCount : Nat)
  | degenerateElement (element : Nat)
  | emptyBoundary (name : String)
  | boundaryNodeOutOfRange (name : String) (node nodeCount : Nat)
  deriving Repr, DecidableEq

def MeshError.message : MeshError → String
  | tooFewNodes count least => s!"topology needs at least {least} nodes, got {count}"
  | nodeOutOfRange element node nodeCount =>
    s!"element {element} refers to node {node}, but there are {nodeCount} nodes"
  | degenerateElement element => s!"element {element} repeats a node"
  | emptyBoundary name => "boundary \"" ++ name ++ "\" has no nodes"
  | boundaryNodeOutOfRange name node nodeCount =>
    "boundary \"" ++ name ++ s!"\" refers to node {node}, but the region has {nodeCount} nodes"

structure Point (β : Type) where
  x : β
  y : β
  z : β
  deriving Repr

inductive Shape where
  | segment
  | triangle
  | tetrahedron
  deriving Repr, DecidableEq

namespace Shape

def dimension : Shape → Nat
  | segment => 1
  | triangle => 2
  | tetrahedron => 3

/-- Corners of one element, and the least number of nodes of a mesh. -/
def corners (s : Shape) : Nat := s.dimension + 1

/-- The local corner pairs joined by an edge. The local edge `j` of a triangle is opposite its
corner `j`. Segments have no element edges. -/
def localEdges : Shape → List (Nat × Nat)
  | segment => []
  | triangle => [(1, 2), (0, 2), (0, 1)]
  | tetrahedron => [(0, 1), (0, 2), (0, 3), (1, 2), (1, 3), (2, 3)]

def elementDomain : Shape → Option Domain
  | segment => none
  | triangle => some .triangleEdge
  | tetrahedron => some .tetrahedronEdge

end Shape

/-- An edge from a lower to a higher node. -/
structure Edge where
  n0 : Nat
  n1 : Nat
  deriving Repr, DecidableEq

def Edge.between (a b : Nat) : Edge := if a < b then ⟨a, b⟩ else ⟨b, a⟩

/-- An element: its corner nodes and the numbers of its local edges. -/
structure Element where
  nodes : List Nat
  edges : List Nat
  deriving Repr, DecidableEq

/-- A local edge of an element: which element and edge it is, and the corners it reaches, the ends of
the edge first and then the other corners in local order. -/
structure ElementEdge where
  element : Nat
  edge : Nat
  corners : List Nat
  deriving Repr, DecidableEq

structure Mesh (β : Type) where
  shape : Shape
  points : Array (Point β)
  edges : Array Edge
  elements : Array Element
  deriving Repr

namespace Mesh

variable {β : Type}

/-- The edges of an element with the given corners, in local order. -/
def edgesOf (shape : Shape) (nodes : List Nat) : List Edge :=
  shape.localEdges.map fun (a, b) => .between (nodes[a]?.getD 0) (nodes[b]?.getD 0)

/-- The first fault of an element: of its corners, in order, one that is not a node or repeats an
earlier corner. -/
def elementFault? (nodeCount element : Nat) (nodes : List Nat) : Option MeshError :=
  nodes.zipIdx.findSome? fun (n, i) =>
    if nodeCount ≤ n then some (.nodeOutOfRange element n nodeCount)
    else if n ∈ nodes.take i then some (.degenerateElement element)
    else none

/-- Number edges in turn: an edge not met before gets the next number. -/
def numberEdges : OrderedSet Edge → List Edge → List Nat × OrderedSet Edge
  | known, [] => ([], known)
  | known, e :: rest =>
    let known := known.insert e
    let (numbers, all) := numberEdges known rest
    (known.position e :: numbers, all)

/-- Check elements in turn and number their edges, from the element of number `element` on. -/
def numberElements (shape : Shape) (nodeCount : Nat) :
    (element : Nat) → OrderedSet Edge → List (List Nat) →
      Except MeshError (List Element × OrderedSet Edge)
  | _, known, [] => .ok ([], known)
  | element, known, nodes :: rest =>
    match elementFault? nodeCount element nodes with
    | some fault => .error fault
    | none =>
      let (numbers, known) := numberEdges known (edgesOf shape nodes)
      match numberElements shape nodeCount (element + 1) known rest with
      | .error fault => .error fault
      | .ok (elements, all) => .ok (⟨nodes, numbers⟩ :: elements, all)

/-- A chain of nodes along the first axis, joined to their neighbours. -/
def line [Zero β] (xs : List β) : Except MeshError (Mesh β) :=
  if xs.length < 2 then .error (.tooFewNodes xs.length 2)
  else
    let (_, edges) := numberEdges ∅ ((List.range (xs.length - 1)).map fun i => .between i (i + 1))
    .ok {
      shape := .segment
      points := (xs.map fun x => ⟨x, 0, 0⟩).toArray
      edges := edges.elems.toArray
      elements := #[] }

def ofElements (shape : Shape) (points : Array (Point β)) (elements : List (List Nat)) :
    Except MeshError (Mesh β) :=
  if points.size < shape.corners then .error (.tooFewNodes points.size shape.corners)
  else
    match numberElements shape points.size 0 ∅ elements with
    | .error fault => .error fault
    | .ok (elements, edges) =>
      .ok { shape, points, edges := edges.elems.toArray, elements := elements.toArray }

def triangles (points : Array (Point β)) (elements : List (List Nat)) : Except MeshError (Mesh β) :=
  ofElements .triangle points elements

def tetrahedra (points : Array (Point β)) (elements : List (List Nat)) : Except MeshError (Mesh β) :=
  ofElements .tetrahedron points elements

def nodeCount (m : Mesh β) : Nat := m.points.size

def elementDomain (m : Mesh β) : Option Domain := m.shape.elementDomain

def size (m : Mesh β) : Domain → Nat
  | .node => m.nodeCount
  | .edge => m.edges.size
  | d => if m.elementDomain = some d then m.shape.localEdges.length * m.elements.size else 0

/-- Numbers of the edges at every node: each edge in turn is added at both of its ends. -/
def incidences (m : Mesh β) : Array (List Nat) :=
  m.edges.toList.zipIdx.foldl
    (fun table (e, i) => (table.modify e.n0 (· ++ [i])).modify e.n1 (· ++ [i]))
    (Array.replicate m.nodeCount [])

def edgesAt (m : Mesh β) (node : Nat) : List Nat := m.incidences[node]?.getD []

def edgeEnd? (m : Mesh β) (edge node : Nat) : Option Nat :=
  m.edges[edge]?.bind fun e => [e.n0, e.n1].idxOf? node

def reach (e : Edge) (nodes : List Nat) : List Nat :=
  e.n0 :: e.n1 :: nodes.filter fun n => n ≠ e.n0 ∧ n ≠ e.n1

def elementEdge? (m : Mesh β) (d : Domain) (i : Nat) : Option ElementEdge :=
  if m.elementDomain = some d then do
    let per := m.shape.localEdges.length
    let element ← m.elements[i / per]?
    let edge ← element.edges[i % per]?
    let ends ← m.edges[edge]?
    return ⟨i / per, edge, reach ends element.nodes⟩
  else none

def elementEdgeMap (m : Mesh β) (d : Domain) : Array Nat :=
  if m.elementDomain = some d then m.elements.flatMap (·.edges.toArray) else #[]

/-- The corner nodes of every entity of an edge or element-edge domain. -/
def stencil (m : Mesh β) : Domain → Array (List Nat)
  | .node => #[]
  | .edge => m.edges.map fun e => [e.n0, e.n1]
  | d => ((List.range (m.size d)).filterMap fun i => (m.elementEdge? d i).map (·.corners)).toArray

end Mesh

end FiniteVolume
