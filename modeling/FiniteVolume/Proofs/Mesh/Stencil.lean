import FiniteVolume.Proofs.Mesh.Numbering
import FiniteVolume.Side

/-!
Corners of edges and element edges.

In a well-formed mesh every element edge exists, and the first two corners of an edge or element edge
are the ends of the global edge that it is (`Mesh.getElem?_corner`). All constructors give well-formed
meshes.
-/
namespace FiniteVolume

variable {β : Type}

def Edge.node (e : Edge) : Side → Nat
  | .first => e.n0
  | .second => e.n1

theorem Edge.node_between_lt {a b k : Nat} (first : a < k) (second : b < k) (side : Side) :
    (between a b).node side < k := by
  unfold between
  split <;> cases side <;> assumption

namespace Mesh

/-- Edges join nodes of the mesh, and elements have as many local edges as their shape, all of them
edges of the mesh. -/
structure WellFormed (m : Mesh β) : Prop where
  ends : ∀ {i : Nat} {e : Edge}, m.edges[i]? = some e → ∀ side, e.node side < m.nodeCount
  elements : ∀ {i : Nat} {x : Element}, m.elements[i]? = some x →
    x.edges.length = m.shape.localEdges.length ∧ ∀ j ∈ x.edges, j < m.edges.size

def edgeOf? (m : Mesh β) (d : Domain) (i : Nat) : Option Nat :=
  match d with
  | .node => none
  | .edge => some i
  | d => (m.elementEdge? d i).map (·.edge)

def endOf? (m : Mesh β) (d : Domain) (i : Nat) (side : Side) : Option Nat := do
  let edge ← m.edges[← m.edgeOf? d i]?
  return edge.node side

/-! ## Constructors -/

theorem wellFormed_line [Zero β] {xs : List β} {m : Mesh β} (built : line xs = .ok m) :
    m.WellFormed := by
  rw [line_eq] at built
  split at built
  · cases built
  next enough =>
    cases built
    refine ⟨?_, fun found => by simp at found⟩
    intro i e found side
    have member : e ∈ (List.range (xs.length - 1)).map fun i => Edge.between i (i + 1) :=
      OrderedSet.mem_elems_ofList.mp (List.mem_of_getElem? (by simpa using found))
    obtain ⟨k, below, rfl⟩ := List.mem_map.mp member
    rw [List.mem_range] at below
    refine Edge.node_between_lt ?_ ?_ side <;>
      simp only [nodeCount, List.size_toArray, List.length_map] <;> omega

/-- Elements that show no fault have nodes of the mesh for corners. -/
theorem lt_of_elementFault? {nodeCount element : Nat} {nodes : List Nat}
    (sound : elementFault? nodeCount element nodes = none) {n : Nat} (member : n ∈ nodes) :
    n < nodeCount := by
  obtain ⟨i, below, rfl⟩ := List.mem_iff_getElem.mp member
  have fine := List.findSome?_eq_none_iff.mp sound (nodes[i], i)
    (List.mem_zipIdx_iff_getElem?.mpr (List.getElem?_eq_getElem below))
  refine Nat.lt_of_not_le fun outside => ?_
  simp [outside] at fine

theorem wellFormed_ofElements {shape : Shape} {points : Array (Point β)}
    {elements : List (List Nat)} {m : Mesh β} (built : ofElements shape points elements = .ok m) :
    m.WellFormed := by
  rw [ofElements_eq] at built
  split at built
  · cases built
  next enough =>
    split at built
    · cases built
    next sound =>
      cases built
      have positive : 0 < points.size := by
        simp only [Shape.corners] at enough
        omega
      -- A corner that is not given counts as node zero, which exists.
      have corner : ∀ nodes ∈ elements, ∀ a : Nat, (nodes[a]?).getD 0 < points.size := by
        intro nodes member a
        obtain ⟨i, below, rfl⟩ := List.mem_iff_getElem.mp member
        have fine := List.findSome?_eq_none_iff.mp sound (elements[i], i)
          (List.mem_zipIdx_iff_getElem?.mpr (List.getElem?_eq_getElem below))
        cases found : elements[i][a]? with
        | none => exact positive
        | some n => exact lt_of_elementFault? fine (List.mem_of_getElem? found)
      refine ⟨fun {i e} found side => ?_, fun {i x} found => ?_⟩
      · have member : e ∈ elements.flatMap (edgesOf shape) :=
          OrderedSet.mem_elems_ofList.mp (List.mem_of_getElem? (by simpa using found))
        obtain ⟨nodes, inElements, inEdges⟩ := List.mem_flatMap.mp member
        obtain ⟨⟨a, b⟩, -, rfl⟩ := List.mem_map.mp inEdges
        exact Edge.node_between_lt (corner nodes inElements a) (corner nodes inElements b) side
      · simp only [List.getElem?_toArray, List.getElem?_map, Option.map_eq_some_iff] at found
        obtain ⟨nodes, found, rfl⟩ := found
        refine ⟨by simp [edgesOf], fun j member => ?_⟩
        obtain ⟨e, inEdges, rfl⟩ := List.mem_map.mp member
        have present : e ∈ (OrderedSet.ofList (elements.flatMap (edgesOf shape))).elems :=
          OrderedSet.mem_elems_ofList.mpr
            (List.mem_flatMap.mpr ⟨nodes, List.mem_of_getElem? found, inEdges⟩)
        simpa [OrderedSet.position] using List.idxOf_lt_length_of_mem present

/-! ## Element edges -/

/-- The corners of an entity are its two ends and then others. -/
theorem exists_ends_of_mem_stencil {m : Mesh β} {d : Domain} {corners : List Nat}
    (member : corners ∈ m.stencil d) : ∃ n0 n1 rest, corners = n0 :: n1 :: rest := by
  have onElements : corners ∈ ((List.range (m.size d)).filterMap fun i =>
      (m.elementEdge? d i).map (·.corners)) → ∃ n0 n1 rest, corners = n0 :: n1 :: rest := by
    intro listed
    obtain ⟨i, -, reached⟩ := List.mem_filterMap.mp listed
    obtain ⟨x, found, rfl⟩ := Option.map_eq_some_iff.mp reached
    unfold elementEdge? at found
    split at found
    · obtain ⟨element, -, found⟩ := Option.bind_eq_some_iff.mp found
      obtain ⟨edge, -, found⟩ := Option.bind_eq_some_iff.mp found
      obtain ⟨ends, -, same⟩ := Option.bind_eq_some_iff.mp found
      cases same
      exact ⟨_, _, _, rfl⟩
    · cases found
  cases d with
  | node => simp [stencil] at member
  | edge =>
    obtain ⟨e, -, rfl⟩ := Array.mem_map.mp member
    exact ⟨e.n0, e.n1, [], rfl⟩
  | triangleEdge => exact onElements (by simpa [stencil] using member)
  | tetrahedronEdge => exact onElements (by simpa [stencil] using member)

theorem isElementEdge_of_elementDomain {m : Mesh β} {d : Domain}
    (elements : m.elementDomain = some d) : d.isElementEdge = true := by
  unfold elementDomain at elements
  cases shape : m.shape <;> rw [shape] at elements <;> cases elements <;> rfl

theorem size_of_elementDomain {m : Mesh β} {d : Domain} (elements : m.elementDomain = some d) :
    m.size d = m.shape.localEdges.length * m.elements.size := by
  have isElementEdge := isElementEdge_of_elementDomain elements
  cases d <;> simp [size, elements, Domain.isElementEdge] at isElementEdge ⊢

theorem elementDomain_of_lt_size {m : Mesh β} {d : Domain} {i : Nat} (inside : i < m.size d)
    (isElementEdge : d.isElementEdge = true) : m.elementDomain = some d := by
  refine Decidable.byContradiction fun other => ?_
  cases d <;> simp [size, other, Domain.isElementEdge] at inside isElementEdge

/-- Where every index has an entry, nothing is left out. -/
theorem map_some_filterMap_range {γ : Type} {f : Nat → Option γ} {count : Nat}
    (total : ∀ i < count, (f i).isSome) :
    ((List.range count).filterMap f).map some = (List.range count).map f := by
  rw [List.map_filterMap_some_eq_filter_map_isSome, List.filter_eq_self]
  intro x member
  obtain ⟨j, below, rfl⟩ := List.mem_map.mp member
  exact total j (List.mem_range.mp below)

theorem getElem?_filterMap_range {γ : Type} {f : Nat → Option γ} {count : Nat}
    (total : ∀ i < count, (f i).isSome) {i : Nat} (inside : i < count) :
    ((List.range count).filterMap f)[i]? = f i := by
  have entry := congrArg (·[i]?) (map_some_filterMap_range total)
  simp only [List.getElem?_map, List.getElem?_range inside, Option.map_some] at entry
  obtain ⟨x, found, same⟩ := Option.map_eq_some_iff.mp entry
  rw [found, same]

namespace WellFormed

variable {m : Mesh β} (wellFormed : m.WellFormed) {d : Domain}

include wellFormed

/-- Every element edge exists, as an edge of the mesh with its ends first among the corners. -/
theorem exists_elementEdge (elements : m.elementDomain = some d) {i : Nat} (inside : i < m.size d) :
    ∃ x e rest, m.elementEdge? d i = some x ∧ m.edges[x.edge]? = some e ∧
      x.corners = e.n0 :: e.n1 :: rest := by
  rw [size_of_elementDomain elements] at inside
  have positive : 0 < m.shape.localEdges.length := Nat.pos_of_lt_mul_right inside
  have element : i / m.shape.localEdges.length < m.elements.size :=
    Nat.div_lt_of_lt_mul inside
  obtain ⟨x, found⟩ : ∃ x, m.elements[i / m.shape.localEdges.length]? = some x :=
    ⟨_, Array.getElem?_eq_getElem element⟩
  obtain ⟨count, edges⟩ := wellFormed.elements found
  have inElement : i % m.shape.localEdges.length < x.edges.length := by
    rw [count]
    exact Nat.mod_lt i positive
  have edge := edges _ (List.getElem_mem inElement)
  refine ⟨⟨i / m.shape.localEdges.length, _,
    reach m.edges[x.edges[i % m.shape.localEdges.length]] x.nodes⟩, _, _, ?_,
    Array.getElem?_eq_getElem edge, rfl⟩
  simp [elementEdge?, elements, found, inElement, edge]

theorem isSome_corners (isElementEdge : d.isElementEdge = true) :
    ∀ i < m.size d, ((m.elementEdge? d i).map (·.corners)).isSome := by
  intro i inside
  obtain ⟨x, -, -, found, -⟩ :=
    wellFormed.exists_elementEdge (elementDomain_of_lt_size inside isElementEdge) inside
  rw [found]
  rfl

/-- The corners of an entity begin with the ends of its edge. -/
theorem getElem?_corner {i : Nat} (inside : i < m.size d) (side : Side) :
    ((m.stencil d)[i]?.getD [])[side.index]? = m.endOf? d i side := by
  have onElements : d.isElementEdge = true →
      (((List.range (m.size d)).filterMap fun i => (m.elementEdge? d i).map (·.corners))[i]?.getD
        [])[side.index]? = m.endOf? d i side := by
    intro isElementEdge
    obtain ⟨x, e, rest, found, edge, corners⟩ :=
      wellFormed.exists_elementEdge (elementDomain_of_lt_size inside isElementEdge) inside
    have number : m.edgeOf? d i = some x.edge := by
      cases d <;> simp [edgeOf?, found, Domain.isElementEdge] at isElementEdge ⊢
    rw [getElem?_filterMap_range (wellFormed.isSome_corners isElementEdge) inside, found,
      Option.map_some, Option.getD_some, corners]
    simp only [endOf?, number, bind, Option.bind_some, edge]
    cases side <;> rfl
  cases d with
  | node => simp [stencil, endOf?, edgeOf?]
  | edge =>
    have edge := Array.getElem?_eq_getElem (show i < m.edges.size from inside)
    simp only [stencil, Array.getElem?_map, edge, endOf?, edgeOf?, bind, Option.bind_some,
      Option.map_some, Option.getD_some]
    cases side <;> rfl
  | triangleEdge => simpa [stencil] using onElements rfl
  | tetrahedronEdge => simpa [stencil] using onElements rfl

theorem endOf?_lt {i n : Nat} {side : Side} (found : m.endOf? d i side = some n) :
    n < m.nodeCount := by
  unfold endOf? at found
  obtain ⟨j, -, found⟩ := Option.bind_eq_some_iff.mp found
  obtain ⟨e, edge, same⟩ := Option.bind_eq_some_iff.mp found
  cases same
  exact wellFormed.ends edge side

end WellFormed

end Mesh

end FiniteVolume
