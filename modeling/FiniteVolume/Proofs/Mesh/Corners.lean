import Mathlib.Data.List.Perm.Subperm
import FiniteVolume.Proofs.Mesh.Stencil

/-!
Meshes as their constructors give them.

Elements have the corners of their shape, which are distinct nodes (`Mesh.Cornered`). So every entity
of an edge or element-edge domain reaches as many nodes as its domain says, all of them nodes of the
mesh (`Mesh.Cornered.of_mem_stencil`).
-/
namespace FiniteVolume.Mesh

variable {β : Type} {m : Mesh β} {d : Domain}

/-- A well-formed mesh whose elements have the corners of their shape, distinct nodes of the mesh. -/
structure Cornered (m : Mesh β) : Prop extends WellFormed m where
  corners : ∀ {i : Nat} {x : Element}, m.elements[i]? = some x →
    x.nodes.length = m.shape.corners ∧ x.nodes.Nodup ∧ ∀ n ∈ x.nodes, n < m.nodeCount

/-- The mesh is a line, or one of triangles or tetrahedra. -/
inductive Built [Zero β] (m : Mesh β) : Prop
  | line (xs : List β) (made : Mesh.line xs = .ok m)
  | triangles (points : Array (Point β)) (elements : List (List Nat))
    (corners : ∀ nodes ∈ elements, nodes.length = 3) (made : Mesh.triangles points elements = .ok m)
  | tetrahedra (points : Array (Point β)) (elements : List (List Nat))
    (corners : ∀ nodes ∈ elements, nodes.length = 4) (made : Mesh.tetrahedra points elements = .ok m)

/-- Elements that show no fault have distinct corners. -/
theorem nodup_of_elementFault? {nodeCount element : Nat} {nodes : List Nat}
    (sound : elementFault? nodeCount element nodes = none) : nodes.Nodup := by
  rw [List.Nodup, List.pairwise_iff_getElem]
  intro i j below below' before same
  have fine := List.findSome?_eq_none_iff.mp sound (nodes[j], j)
    (List.mem_zipIdx_iff_getElem?.mpr (List.getElem?_eq_getElem below'))
  have earlier : nodes[j] ∈ nodes.take j := List.mem_take_iff_getElem.mpr ⟨i, by omega, same⟩
  have inside := lt_of_elementFault? sound (List.getElem_mem below')
  simp [earlier, Nat.not_le_of_lt inside] at fine

theorem cornered_ofElements {shape : Shape} {points : Array (Point β)} {elements : List (List Nat)}
    (corners : ∀ nodes ∈ elements, nodes.length = shape.corners)
    (built : ofElements shape points elements = .ok m) : m.Cornered := by
  refine ⟨wellFormed_ofElements built, ?_⟩
  rw [ofElements_eq] at built
  split at built
  · cases built
  · split at built
    · cases built
    next sound =>
      cases built
      intro i x found
      simp only [List.getElem?_toArray, List.getElem?_map, Option.map_eq_some_iff] at found
      obtain ⟨nodes, found, rfl⟩ := found
      have fine := List.findSome?_eq_none_iff.mp sound (nodes, i)
        (List.mem_zipIdx_iff_getElem?.mpr found)
      exact ⟨corners nodes (List.mem_of_getElem? found), nodup_of_elementFault? fine,
        fun n => lt_of_elementFault? fine⟩

theorem cornered_line [Zero β] {xs : List β} (built : line xs = .ok m) : m.Cornered := by
  refine ⟨wellFormed_line built, ?_⟩
  rw [line_eq] at built
  split at built
  · cases built
  · cases built
    intro i x found
    simp at found

theorem Built.cornered [Zero β] (built : m.Built) : m.Cornered := by
  cases built with
  | line xs made => exact cornered_line made
  | triangles points elements corners made => exact cornered_ofElements corners made
  | tetrahedra points elements corners made => exact cornered_ofElements corners made

/-- An element edge reaches the ends of its edge and every corner of its element. -/
theorem length_le_reach (e : Edge) {nodes : List Nat} (distinct : nodes.Nodup) :
    nodes.length ≤ (reach e nodes).length := by
  refine (distinct.subperm fun n member => ?_).length_le
  by_cases first : n = e.n0
  · simp [reach, first]
  · by_cases second : n = e.n1
    · simp [reach, second]
    · simp [reach, first, second, member]

theorem corners_of_elementDomain (elements : m.elementDomain = some d) : d.corners = m.shape.corners := by
  unfold elementDomain at elements
  cases shape : m.shape <;> rw [shape] at elements <;> cases elements <;> rfl

namespace Cornered

variable (cornered : m.Cornered)

include cornered

/-- The corners of an element edge are nodes, as many as its domain says. -/
theorem of_elementEdge {i : Nat} {x : ElementEdge} (found : m.elementEdge? d i = some x) :
    d.corners ≤ x.corners.length ∧ ∀ n ∈ x.corners, n < m.nodeCount := by
  unfold elementEdge? at found
  split at found
  next elements =>
    obtain ⟨element, inMesh, found⟩ := Option.bind_eq_some_iff.mp found
    obtain ⟨edge, -, found⟩ := Option.bind_eq_some_iff.mp found
    obtain ⟨ends, joined, same⟩ := Option.bind_eq_some_iff.mp found
    cases same
    obtain ⟨count, distinct, inside⟩ := cornered.corners inMesh
    refine ⟨?_, fun n member => ?_⟩
    · rw [corners_of_elementDomain elements, ← count]
      exact length_le_reach ends distinct
    · rcases List.mem_cons.mp member with rfl | member
      · exact cornered.ends joined .first
      · rcases List.mem_cons.mp member with rfl | member
        · exact cornered.ends joined .second
        · exact inside n (List.mem_filter.mp member).1
  · cases found

/-- The corners of an entity are nodes, as many as its domain says. -/
theorem of_mem_stencil {corners : List Nat} (member : corners ∈ m.stencil d) :
    d.corners ≤ corners.length ∧ ∀ n ∈ corners, n < m.nodeCount := by
  have onElements : ∀ {corners}, corners ∈ ((List.range (m.size d)).filterMap fun i =>
      (m.elementEdge? d i).map (·.corners)).toArray →
        d.corners ≤ corners.length ∧ ∀ n ∈ corners, n < m.nodeCount := by
    intro corners member
    obtain ⟨i, -, found⟩ := List.mem_filterMap.mp (List.mem_toArray.mp member)
    obtain ⟨x, here, rfl⟩ := Option.map_eq_some_iff.mp found
    exact cornered.of_elementEdge here
  cases d with
  | node => cases List.mem_toArray.mp member
  | edge =>
    obtain ⟨e, isEdge, rfl⟩ := Array.mem_map.mp member
    obtain ⟨i, found⟩ := Array.mem_iff_getElem?.mp isEdge
    refine ⟨Nat.le_refl 2, fun n member => ?_⟩
    rcases List.mem_pair.mp member with rfl | rfl
    · exact cornered.ends found .first
    · exact cornered.ends found .second
  | triangleEdge => exact onElements member
  | tetrahedronEdge => exact onElements member

/-- Every entity has a list of corners. -/
theorem size_stencil (other : d ≠ .node) : (m.stencil d).size = m.size d := by
  have onElements (isElementEdge : d.isElementEdge = true) :
      ((List.range (m.size d)).filterMap fun i => (m.elementEdge? d i).map (·.corners)).length =
        m.size d := by
    have all := congrArg List.length
      (map_some_filterMap_range (cornered.isSome_corners isElementEdge))
    rwa [List.length_map, List.length_map, List.length_range] at all
  cases d with
  | node => exact absurd rfl other
  | edge => exact Array.size_map ..
  | triangleEdge => exact onElements rfl
  | tetrahedronEdge => exact onElements rfl

/-- Every element edge is an edge. -/
theorem of_elementEdgeMap (elements : m.elementDomain = some d) :
    (m.elementEdgeMap d).size = m.size d ∧ ∀ edge ∈ m.elementEdgeMap d, edge < m.size .edge := by
  rw [elementEdgeMap, if_pos elements, size_of_elementDomain elements]
  refine ⟨?_, fun edge member => ?_⟩
  · have each : ∀ x ∈ m.elements, x.edges.toArray.size = m.shape.localEdges.length := fun x member => by
      obtain ⟨i, found⟩ := Array.mem_iff_getElem?.mp member
      exact (cornered.elements found).1
    rw [Array.size_flatMap, Array.map_congr_left each, Array.map_const', Array.sum_replicate_nat,
      Nat.mul_comm]
  · obtain ⟨x, inMesh, isEdge⟩ := Array.mem_flatMap.mp member
    obtain ⟨i, found⟩ := Array.mem_iff_getElem?.mp inMesh
    exact (cornered.elements found).2 edge (List.mem_toArray.mp isEdge)

end Cornered

end FiniteVolume.Mesh
