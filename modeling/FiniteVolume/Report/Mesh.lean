import FiniteVolume.Mesh.Boundary
import FiniteVolume.Report.Device

/-!
Reports of meshes and of the interfaces between them.
-/
namespace FiniteVolume

/-- The fields of the report of a mesh. What a mesh answers for a number is told for one number more
than it has nodes or element edges. -/
def Mesh.reportFields (m : Mesh Float) : List (String × Report) :=
  let perDomain {ρ : Type} [Reportable ρ] (f : Domain → ρ) : Report := report (Domain.all.map f)
  let elements (s : Shape) : List Element := if m.shape = s then m.elements.toList else []
  let corners (s : Shape) : Report := report ((elements s).map fun e => (e.nodes, e.edges))
  let edgeReport (d : Domain) (i : Nat) : Report :=
    report ((m.elementEdge? d i).map fun e => (e.element, e.edge, e.corners))
  [("coordinates", report (m.points.toList.map fun p => (p.x, p.y, p.z))),
    ("counts", report (m.edges.size, (elements .triangle).length, (elements .tetrahedron).length)),
    ("dimension", report m.shape.dimension),
    ("domain_len", perDomain m.size),
    ("edge_maps", perDomain fun d => (m.elementEdgeMap d).toList),
    ("edges", report (m.edges.toList.map fun e => (e.n0, e.n1))),
    ("element_edges", perDomain fun d => (List.range (m.size d + 1)).map (edgeReport d)),
    ("element_kind", report m.elementDomain),
    ("node_edges", report ((List.range (m.nodeCount + 1)).map m.edgesAt)),
    ("nodes", .count m.nodeCount),
    ("tetrahedra", corners .tetrahedron),
    ("triangles", corners .triangle)]

instance : Reportable Interface :=
  ⟨fun i => .record [("empty", .truth i.pairs.isEmpty), ("len", .count i.size),
    ("name", .text i.name), ("nodes", report (Side.both.map i.nodes)),
    ("regions", report (Side.both.map i.region))]⟩

end FiniteVolume
