import FiniteVolume.Proofs.Mesh.Construction

/-!
The numbering of element edges and the corners that they reach.

In a mesh that a constructor gives, the element edges of a domain are numbered through without gaps,
each is the edge that the map of element edges has at its number, and its corners are those of its
element, the ends of that edge first (`Mesh.ElementEdges`). So the corners of all element edges at an
end are the ends of the edges that they are (`Mesh.Built.corners_eq_mapped_ends`).
-/
namespace FiniteVolume.Mesh

variable {β : Type} {m : Mesh β} {d : Domain} {i : Nat}

/-! ## Edges of an element -/

/-- Every number that an element carries is that of an edge between two of its corners. -/
theorem MadeOf.exists_ends {shape : Shape} {points : Array (Point β)} {elements : List (List Nat)}
    (made : m.MadeOf shape points elements) {x : Element} (member : x ∈ m.elements) {number : Nat}
    (carried : number ∈ x.edges) :
    ∃ e, m.edges[number]? = some e ∧ e.n0 < e.n1 ∧ e.n0 ∈ x.nodes ∧ e.n1 ∈ x.nodes := by
  obtain ⟨j, below, rfl⟩ := List.mem_iff_getElem.mp carried
  have isLocal : j < shape.localEdges.length := made.count x member ▸ below
  obtain ⟨p, q, first, second, joins⟩ := made.edges x member (List.getElem?_eq_getElem isLocal)
  obtain ⟨e, found, ends⟩ := (joins _).mp (List.getElem?_eq_getElem below)
  have oriented := (made.numbers.oriented (Array.mem_of_getElem? found)).1
  have first := List.mem_of_getElem? first
  have second := List.mem_of_getElem? second
  rcases Sym2.eq_iff.mp ends with ⟨rfl, rfl⟩ | ⟨rfl, rfl⟩
  · exact ⟨e, found, oriented, first, second⟩
  · exact ⟨e, found, oriented, second, first⟩

theorem Built.exists_ends [Zero β] (built : m.Built) {x : Element} (member : x ∈ m.elements)
    {number : Nat} (carried : number ∈ x.edges) :
    ∃ e, m.edges[number]? = some e ∧ e.n0 < e.n1 ∧ e.n0 ∈ x.nodes ∧ e.n1 ∈ x.nodes := by
  cases built with
  | line xs made =>
    rw [((line_answers xs).2.2 m made).2.2.1] at member
    exact absurd member (Array.not_mem_empty x)
  | triangles points elements corners made =>
    exact ((answers_ofElements .triangle points corners).made m made).exists_ends member carried
  | tetrahedra points elements corners made =>
    exact ((answers_ofElements .tetrahedron points corners).made m made).exists_ends member carried

theorem perm_reach {e : Edge} {nodes : List Nat} (distinct : nodes.Nodup) (oriented : e.n0 < e.n1)
    (first : e.n0 ∈ nodes) (second : e.n1 ∈ nodes) : (reach e nodes).Perm nodes := by
  have nodup : (reach e nodes).Nodup := by
    refine List.nodup_cons.mpr ⟨?_, List.nodup_cons.mpr ⟨?_, distinct.filter _⟩⟩
    · simp [Nat.ne_of_lt oriented]
    · simp
  refine (List.perm_ext_iff_of_nodup nodup distinct).mpr fun n => ?_
  simp only [reach, List.mem_cons, List.mem_filter, decide_eq_true_eq]
  constructor
  · rintro (rfl | rfl | ⟨member, -⟩)
    · exact first
    · exact second
    · exact member
  · intro member
    by_cases same : n = e.n0
    · exact .inl same
    · by_cases same' : n = e.n1
      · exact .inr (.inl same')
      · exact .inr (.inr ⟨member, same, same'⟩)

/-! ## Numbers of element edges -/

theorem elementEdge?_eq_some_iff {x : ElementEdge} :
    m.elementEdge? d i = some x ↔ m.elementDomain = some d ∧
      x.element = i / m.shape.localEdges.length ∧ ∃ element e, m.elements[x.element]? = some element ∧
        element.edges[i % m.shape.localEdges.length]? = some x.edge ∧
          m.edges[x.edge]? = some e ∧ x.corners = reach e element.nodes := by
  unfold elementEdge?
  split
  next elements =>
    simp only [Option.bind_eq_bind, Option.bind_eq_some_iff, Option.pure_def, Option.some.injEq,
      elements, true_and]
    constructor
    · rintro ⟨element, inMesh, edge, carried, e, found, rfl⟩
      exact ⟨rfl, element, e, inMesh, carried, found, rfl⟩
    · obtain ⟨number, edge, corners⟩ := x
      rintro ⟨rfl, element, e, inMesh, carried, found, rfl⟩
      exact ⟨element, inMesh, edge, carried, e, found, rfl⟩
  next other => simp [other]

/-- Parts of equal length one after another: an entry stands in the part and at the place that its
number gives. -/
theorem getElem?_flatMap_of_length {γ δ : Type} {f : γ → List δ} {per : Nat} (positive : 0 < per)
    {xs : List γ} (each : ∀ x ∈ xs, (f x).length = per) (i : Nat) :
    (xs.flatMap f)[i]? = xs[i / per]?.bind fun x => (f x)[i % per]? := by
  induction xs generalizing i with
  | nil => simp
  | cons x rest ih =>
    have here := each x List.mem_cons_self
    rw [List.flatMap_cons]
    by_cases inside : i < per
    · rw [List.getElem?_append_left (by omega), Nat.div_eq_of_lt inside, Nat.mod_eq_of_lt inside]
      rfl
    · have later : per ≤ i := Nat.le_of_not_lt inside
      rw [List.getElem?_append_right (by omega), here,
        ih (fun y member => each y (List.mem_cons_of_mem _ member)),
        Nat.div_eq_sub_div positive later, Nat.mod_eq_sub_mod later, List.getElem?_cons_succ]

theorem getElem?_elementEdgeMap (wellFormed : m.WellFormed) (elements : m.elementDomain = some d)
    (i : Nat) :
    (m.elementEdgeMap d)[i]? = m.elements[i / m.shape.localEdges.length]?.bind fun x =>
      x.edges[i % m.shape.localEdges.length]? := by
  have positive : 0 < m.shape.localEdges.length := by
    unfold elementDomain at elements
    cases shape : m.shape <;> rw [shape] at elements <;> first | decide | cases elements
  have each : ∀ x ∈ m.elements.toList, x.edges.length = m.shape.localEdges.length := by
    intro x member
    obtain ⟨k, found⟩ := Array.mem_iff_getElem?.mp (Array.mem_toList_iff.mp member)
    exact (wellFormed.elements found).1
  rw [elementEdgeMap, if_pos elements, ← Array.getElem?_toList, Array.toList_flatMap]
  simpa using getElem?_flatMap_of_length positive each i

/-- The element edges of a domain, `per` of them in each element, agree with the map of element edges
and reach the corners of their elements. -/
structure ElementEdges (m : Mesh β) (d : Domain) (per : Nat) : Prop where
  exists_iff : ∀ i, (m.elementEdge? d i).isSome ↔ i < m.size d
  element : ∀ {i x}, m.elementEdge? d i = some x → x.element = i / per
  edge : ∀ {i x}, m.elementEdge? d i = some x → (m.elementEdgeMap d)[i]? = some x.edge
  /-- The edge exists, and the corners are those of the element, its ends first and then the others in
  local order. -/
  corners : ∀ {i x}, m.elementEdge? d i = some x → ∃ e element rest,
    m.edges[x.edge]? = some e ∧ m.elements[x.element]? = some element ∧
      x.corners = e.n0 :: e.n1 :: rest ∧ rest.Sublist element.nodes ∧
        x.corners.Perm element.nodes ∧ x.corners.length = d.corners

theorem edgesPerElement_of_elementDomain (elements : m.elementDomain = some d) :
    d.edgesPerElement = some m.shape.localEdges.length := by
  unfold elementDomain at elements
  cases shape : m.shape <;> rw [shape] at elements <;> cases elements <;> rfl

theorem Built.elementEdges [Zero β] (built : m.Built) {per : Nat}
    (perElement : d.edgesPerElement = some per) : m.ElementEdges d per := by
  have isElementEdge : d.isElementEdge = true := by cases d <;> cases perElement <;> rfl
  have cornered := built.cornered
  have wellFormed := cornered.toWellFormed
  have sameCount : m.elementDomain = some d → m.shape.localEdges.length = per := fun elements =>
    Option.some.inj ((edgesPerElement_of_elementDomain elements).symm.trans perElement)
  refine ⟨fun i => ⟨fun isSome => ?_, fun inside => ?_⟩, fun found => ?_, fun found => ?_,
    fun {i x} found => ?_⟩
  · obtain ⟨x, found⟩ := Option.isSome_iff_exists.mp isSome
    obtain ⟨elements, same, element, -, inMesh, -⟩ := elementEdge?_eq_some_iff.mp found
    have below := (Array.getElem?_eq_some_iff.mp inMesh).1
    rw [same, Nat.div_lt_iff_lt_mul (by
      have := sameCount elements
      cases d <;> cases perElement <;> omega)] at below
    rw [size_of_elementDomain elements, Nat.mul_comm]
    exact below
  · obtain ⟨x, -, -, found, -⟩ :=
      wellFormed.exists_elementEdge (elementDomain_of_lt_size inside isElementEdge) inside
    rw [found, Option.isSome_some]
  · obtain ⟨elements, same, -⟩ := elementEdge?_eq_some_iff.mp found
    rw [same, sameCount elements]
  · obtain ⟨elements, same, element, e, inMesh, carried, -⟩ := elementEdge?_eq_some_iff.mp found
    rw [getElem?_elementEdgeMap wellFormed elements, ← same, inMesh]
    exact carried
  · obtain ⟨elements, same, element, e, inMesh, carried, joined, corners⟩ :=
      elementEdge?_eq_some_iff.mp found
    obtain ⟨e', found', oriented, first, second⟩ := built.exists_ends
      (Array.mem_of_getElem? inMesh) (List.mem_of_getElem? carried)
    obtain rfl : e = e' := Option.some.inj (joined.symm.trans found')
    obtain ⟨count, distinct, -⟩ := cornered.corners inMesh
    have perm := perm_reach distinct oriented first second
    refine ⟨e, element, _, joined, inMesh, corners, List.filter_sublist, corners ▸ perm, ?_⟩
    rw [corners, perm.length_eq, count, corners_of_elementDomain elements]

/-! ## Corners at an end -/

theorem getElem?_filterMap_of_isSome {γ δ : Type} {f : γ → Option δ} {xs : Array γ}
    (total : ∀ x ∈ xs, (f x).isSome) (i : Nat) : (xs.filterMap f)[i]? = xs[i]?.bind f := by
  obtain ⟨xs⟩ := xs
  simp only [List.filterMap_toArray, List.getElem?_toArray]
  simp only [List.mem_toArray] at total
  induction xs generalizing i with
  | nil => rfl
  | cons x rest ih =>
    obtain ⟨y, image⟩ := Option.isSome_iff_exists.mp (total x List.mem_cons_self)
    rw [List.filterMap_cons_some image]
    cases i with
    | zero => exact image.symm
    | succ i => exact ih i fun z member => total z (List.mem_cons_of_mem _ member)

theorem Built.getElem?_ends [Zero β] (built : m.Built) (other : d ≠ .node) (side : Side) (i : Nat) :
    ((m.stencil d).filterMap (·[side.index]?))[i]? = m.endOf? d i side := by
  have cornered := built.cornered
  have total : ∀ corners ∈ m.stencil d, (corners[side.index]?).isSome := by
    intro corners member
    obtain ⟨n0, n1, rest, rfl⟩ := exists_ends_of_mem_stencil member
    cases side <;> rfl
  rw [getElem?_filterMap_of_isSome total]
  by_cases inside : i < m.size d
  · rw [← cornered.getElem?_corner inside side]
    rw [← cornered.size_stencil other] at inside
    rw [Array.getElem?_eq_getElem inside]
    rfl
  · have beyond : (m.stencil d)[i]? = none := by
      rw [Array.getElem?_eq_none_iff, cornered.size_stencil other]
      exact Nat.le_of_not_lt inside
    have unnumbered : ∀ {per}, d.edgesPerElement = some per → m.elementEdge? d i = none :=
      fun perElement => Option.not_isSome_iff_eq_none.mp
        fun isSome => inside (((built.elementEdges perElement).exists_iff i).mp isSome)
    rw [beyond, Option.bind_none, endOf?]
    cases d with
    | node => exact absurd rfl other
    | edge => exact (Option.bind_eq_none_iff.mpr fun _ found =>
        absurd (Array.getElem?_eq_some_iff.mp found).1 inside).symm
    | triangleEdge => simp [edgeOf?, unnumbered rfl]
    | tetrahedronEdge => simp [edgeOf?, unnumbered rfl]

/-- The corners of the element edges at an end are the ends of the edges in the map of element
edges. -/
theorem Built.corners_eq_mapped_ends [Zero β] (built : m.Built) (elements : m.elementDomain = some d)
    (side : Side) :
    (m.stencil d).filterMap (·[side.index]?) = (m.elementEdgeMap d).map fun j =>
      ((m.stencil .edge).filterMap (·[side.index]?))[j]?.getD 0 := by
  have isElementEdge := isElementEdge_of_elementDomain elements
  have other : d ≠ .node := fun same => by cases same; cases isElementEdge
  have perElement := edgesPerElement_of_elementDomain elements
  refine Array.ext_getElem? fun i => ?_
  have numbered : m.edgeOf? d i = (m.elementEdge? d i).map (·.edge) := by
    cases d <;> first | rfl | cases isElementEdge
  rw [built.getElem?_ends other, Array.getElem?_map]
  simp only [built.getElem?_ends (show Domain.edge ≠ .node by decide)]
  cases found : m.elementEdge? d i with
  | none =>
    have beyond : (m.elementEdgeMap d)[i]? = none := by
      rw [Array.getElem?_eq_none_iff, (built.cornered.of_elementEdgeMap elements).1]
      refine Nat.le_of_not_lt fun inside => ?_
      simpa [found] using ((built.elementEdges perElement).exists_iff i).mpr inside
    simp [endOf?, numbered, found, beyond]
  | some x =>
    obtain ⟨e, -, -, joined, -⟩ := (built.elementEdges perElement).corners found
    rw [(built.elementEdges perElement).edge found, endOf?, numbered, found]
    simp [endOf?, edgeOf?, joined]

end FiniteVolume.Mesh
