import Mathlib.Data.Sym.Sym2
import FiniteVolume.Proofs.Mesh.Corners

/-!
Mesh construction is exact.

The constructors refuse a mesh for too few nodes, or else for the first corner of the first element
that is no node or repeats an earlier corner, and for nothing else (`Mesh.Answers`). The mesh they give
numbers the unordered pairs that its elements join, in order of first appearance (`Mesh.Numbers`), each
element carries the numbers of its own pairs (`Mesh.MadeOf`), and each node those of the edges at it
(`Mesh.Incident`).
-/
namespace FiniteVolume

def Edge.ends (e : Edge) : Sym2 Nat := s(e.n0, e.n1)

theorem Edge.ends_between (a b : Nat) : (between a b).ends = s(a, b) := by
  unfold between
  split
  · rfl
  · exact Sym2.eq_swap

theorem Edge.between_oriented {a b k : Nat} (first : a < k) (second : b < k) (apart : a ≠ b) :
    (between a b).n0 < (between a b).n1 ∧ (between a b).n1 < k := by
  unfold between
  split
  next below => exact ⟨below, second⟩
  next above => exact ⟨by dsimp only; omega, first⟩

/-- Edges from the lower to the higher node are known by what they join. -/
theorem Edge.eq_of_ends {e e' : Edge} (oriented : e.n0 < e.n1) (oriented' : e'.n0 < e'.n1)
    (same : e.ends = e'.ends) : e = e' := by
  obtain ⟨a, b⟩ := e
  obtain ⟨a', b'⟩ := e'
  rcases Sym2.eq_iff.mp same with ⟨rfl, rfl⟩ | ⟨rfl, rfl⟩
  · rfl
  · exact absurd oriented (Nat.lt_asymm oriented')

theorem OrderedSet.pairwise_ofList {κ : Type} [DecidableEq κ] (xs : List κ) :
    (ofList xs).elems.Pairwise fun x y => xs.idxOf x < xs.idxOf y := by
  induction xs using List.reverseRecOn with
  | nil => exact .nil
  | append_singleton xs x ih =>
    have kept : (ofList xs).elems.Pairwise fun y z => (xs ++ [x]).idxOf y < (xs ++ [x]).idxOf z := by
      refine ih.imp_of_mem fun first second before => ?_
      rwa [List.idxOf_append_of_mem (mem_elems_ofList.mp first),
        List.idxOf_append_of_mem (mem_elems_ofList.mp second)]
    rw [ofList, insertAll_append, ← ofList]
    change ((ofList xs).insert x).elems.Pairwise _
    rw [elems_insert]
    split
    · exact kept
    next new =>
      refine List.pairwise_append.mpr ⟨kept, List.pairwise_singleton .., fun y old z last => ?_⟩
      rw [mem_elems_ofList] at new old
      rw [List.mem_singleton.mp last, List.idxOf_append_of_mem old,
        List.idxOf_append_of_notMem new]
      have := List.idxOf_lt_length_of_mem old
      omega

namespace Mesh

variable {β : Type} {m : Mesh β} {shape : Shape} {nodeCount element node i j : Nat}
  {nodes : List Nat} {elements : List (List Nat)} {points : Array (Point β)} {fault : MeshError}

/-! ## Faults -/

def SoundCorners (nodeCount : Nat) (nodes : List Nat) : Prop :=
  (∀ n ∈ nodes, n < nodeCount) ∧ nodes.Nodup

instance : Decidable (SoundCorners nodeCount nodes) := inferInstanceAs (Decidable (_ ∧ _))

/-- The fault of the first corner, of the first element, that is no node or repeats an earlier
corner. -/
def FirstFault (nodeCount : Nat) (elements : List (List Nat)) (fault : MeshError) : Prop :=
  ∃ before front n back after, elements = before ++ (front ++ n :: back) :: after ∧
    (∀ nodes ∈ before, SoundCorners nodeCount nodes) ∧ SoundCorners nodeCount front ∧
    (nodeCount ≤ n ∧ fault = .nodeOutOfRange before.length n nodeCount ∨
      n < nodeCount ∧ n ∈ front ∧ fault = .degenerateElement before.length)

theorem findSome?_zipIdx_eq_some_iff {α γ : Type} {f : α × Nat → Option γ} {xs : List α} {k : Nat}
    {c : γ} :
    (xs.zipIdx k).findSome? f = some c ↔
      ∃ front x back, xs = front ++ x :: back ∧ f (x, k + front.length) = some c ∧
        (front.zipIdx k).findSome? f = none := by
  rw [List.findSome?_eq_some_iff]
  constructor
  · rintro ⟨_, _, _, split, stops, passed⟩
    obtain ⟨front, rest, rfl, rfl, tail⟩ := List.zipIdx_eq_append_iff.mp split
    obtain ⟨x, back, rfl, rfl, -⟩ := List.zipIdx_eq_cons_iff.mp tail.symm
    exact ⟨front, x, back, rfl, stops, List.findSome?_eq_none_iff.mpr passed⟩
  · rintro ⟨front, x, back, rfl, stops, passed⟩
    refine ⟨front.zipIdx k, _, back.zipIdx (k + front.length + 1), ?_, stops,
      List.findSome?_eq_none_iff.mp passed⟩
    rw [List.zipIdx_append, List.zipIdx_cons]

theorem elementFault?_eq_none_iff (element : Nat) :
    elementFault? nodeCount element nodes = none ↔ SoundCorners nodeCount nodes := by
  refine ⟨fun sound => ⟨fun n => lt_of_elementFault? sound, nodup_of_elementFault? sound⟩, ?_⟩
  rintro ⟨inside, distinct⟩
  refine List.findSome?_eq_none_iff.mpr ?_
  rintro ⟨n, i⟩ member
  obtain ⟨below, rfl⟩ : ∃ below : i < nodes.length, nodes[i] = n :=
    List.getElem?_eq_some_iff.mp (List.mem_zipIdx_iff_getElem?.mp member)
  have new : nodes[i] ∉ nodes.take i := fun again => by
    obtain ⟨k, before, same⟩ := List.mem_take_iff_getElem.mp again
    have := (List.Nodup.getElem_inj_iff distinct).mp same
    omega
  simp only [Nat.not_le_of_lt (inside _ (List.getElem_mem below)), new, if_false]

theorem elementFault?_eq_some_iff :
    elementFault? nodeCount element nodes = some fault ↔
      ∃ front n back, nodes = front ++ n :: back ∧ SoundCorners nodeCount front ∧
        (nodeCount ≤ n ∧ fault = .nodeOutOfRange element n nodeCount ∨
          n < nodeCount ∧ n ∈ front ∧ fault = .degenerateElement element) := by
  rw [elementFault?, findSome?_zipIdx_eq_some_iff]
  refine exists_congr fun front => exists_congr fun n => exists_congr fun back =>
    and_congr_right fun split => ?_
  subst split
  rw [and_comm]
  refine and_congr ?_ ?_
  · -- Only earlier corners are compared with, so those in front are sound by themselves.
    rw [← elementFault?_eq_none_iff element, elementFault?,
      List.findSome?_eq_none_iff, List.findSome?_eq_none_iff]
    refine forall_congr' fun (k, i) => forall_congr' fun member => ?_
    have before : i < front.length :=
      (List.getElem?_eq_some_iff.mp (List.mem_zipIdx_iff_getElem?.mp member)).1
    dsimp only
    rw [List.take_append_of_le_length (Nat.le_of_lt before)]
  · dsimp only
    rw [Nat.zero_add, List.take_left' rfl]
    split
    next outside => simp [outside, Nat.not_lt_of_le outside, eq_comm]
    next inside =>
      have inside := Nat.lt_of_not_le inside
      split
      next again => simp [again, inside, Nat.not_le_of_lt inside, eq_comm]
      next new => simp [new, Nat.not_le_of_lt inside]

theorem firstFault?_eq_none_iff :
    firstFault? nodeCount 0 elements = none ↔ ∀ nodes ∈ elements, SoundCorners nodeCount nodes := by
  rw [firstFault?, List.findSome?_eq_none_iff]
  constructor
  · intro fine nodes member
    obtain ⟨i, below, rfl⟩ := List.mem_iff_getElem.mp member
    exact (elementFault?_eq_none_iff i).mp (fine (elements[i], i)
      (List.mem_zipIdx_iff_getElem?.mpr (List.getElem?_eq_getElem below)))
  · rintro sound ⟨nodes, i⟩ member
    exact (elementFault?_eq_none_iff i).mpr
      (sound nodes (List.mem_of_getElem? (List.mem_zipIdx_iff_getElem?.mp member)))

theorem firstFault?_eq_some_iff :
    firstFault? nodeCount 0 elements = some fault ↔ FirstFault nodeCount elements fault := by
  rw [firstFault?, findSome?_zipIdx_eq_some_iff]
  simp only [Nat.zero_add]
  constructor
  · rintro ⟨before, nodes, after, rfl, faulty, passed⟩
    obtain ⟨front, n, back, rfl, sound, why⟩ := elementFault?_eq_some_iff.mp faulty
    exact ⟨before, front, n, back, after, rfl, firstFault?_eq_none_iff.mp passed, sound, why⟩
  · rintro ⟨before, front, n, back, after, rfl, passed, sound, why⟩
    exact ⟨before, _, after, rfl, elementFault?_eq_some_iff.mpr ⟨front, n, back, rfl, sound, why⟩,
      firstFault?_eq_none_iff.mpr passed⟩

/-! ## Edges -/

/-- The edges of a mesh number a list of unordered node pairs in order of first appearance. -/
structure Numbers (m : Mesh β) (pairs : List (Sym2 Nat)) : Prop where
  distinct : m.edges.toList.Nodup
  oriented : ∀ {e : Edge}, e ∈ m.edges → e.n0 < e.n1 ∧ e.n1 < m.nodeCount
  joined : ∀ {a b : Nat}, (∃ e ∈ m.edges, e.ends = s(a, b)) ↔ s(a, b) ∈ pairs
  ordered : m.edges.toList.Pairwise fun e e' => pairs.idxOf e.ends < pairs.idxOf e'.ends

/-- First appearances in a list are those in its image under what tells its elements apart. -/
theorem idxOf_map {α γ : Type} [DecidableEq α] [DecidableEq γ] {f : α → γ} {xs : List α} {x : α}
    (apart : ∀ y ∈ xs, f y = f x → y = x) : (xs.map f).idxOf (f x) = xs.idxOf x := by
  induction xs with
  | nil => rfl
  | cons y rest ih =>
    rw [List.map_cons, List.idxOf_cons, List.idxOf_cons,
      ih fun z member => apart z (List.mem_cons_of_mem _ member)]
    have image : f y = f x ↔ y = x := ⟨apart y List.mem_cons_self, congrArg f⟩
    simp only [cond_eq_ite, beq_iff_eq, image]

theorem Numbers.unique {pairs : List (Sym2 Nat)} (numbers : m.Numbers pairs) {e e' : Edge}
    (first : m.edges[i]? = some e) (second : m.edges[j]? = some e') (same : e.ends = e'.ends) :
    i = j := by
  obtain rfl := Edge.eq_of_ends (numbers.oriented (Array.mem_of_getElem? first)).1
    (numbers.oriented (Array.mem_of_getElem? second)).1 same
  rw [← Array.getElem?_toList] at first second
  obtain ⟨below, here⟩ := List.getElem?_eq_some_iff.mp first
  obtain ⟨below', here'⟩ := List.getElem?_eq_some_iff.mp second
  exact (List.Nodup.getElem_inj_iff numbers.distinct).mp (here.trans here'.symm)

/-! ## Edges at nodes -/

/-- The edges listed at a node are those it is an end of, in ascending order, and `edgeEnd?` says
which end. -/
structure Incident (m : Mesh β) : Prop where
  listed : ∀ {node i : Nat}, i ∈ m.edgesAt node ↔
    ∃ e, m.edges[i]? = some e ∧ (e.n0 = node ∨ e.n1 = node)
  ascending : ∀ node, (m.edgesAt node).Pairwise (· < ·)
  beyond : ∀ {node : Nat}, m.nodeCount ≤ node → m.edgesAt node = []
  atEnd : ∀ {node i k : Nat}, m.edgeEnd? i node = some k ↔
    ∃ e, m.edges[i]? = some e ∧ ∃ side : Side, k = side.index ∧ e.node side = node
  agrees : ∀ {node i : Nat}, i ∈ m.edgesAt node ↔ (m.edgeEnd? i node).isSome

theorem getElem?_foldl_incidences {es : List Edge} (apart : ∀ e ∈ es, e.n0 ≠ e.n1) (k : Nat)
    (table : Array (List Nat)) (node : Nat) :
    ((es.zipIdx k).foldl
      (fun table (e, i) => (table.modify e.n0 (· ++ [i])).modify e.n1 (· ++ [i])) table)[node]? =
      table[node]?.map (· ++ ((es.zipIdx k).filter fun (e, _) => e.n0 = node ∨ e.n1 = node).map
        (·.2)) := by
  induction es generalizing k table with
  | nil => simp
  | cons e rest ih =>
    have different := apart e List.mem_cons_self
    rw [List.zipIdx_cons, List.foldl_cons, ih fun e' member => apart e' (List.mem_cons_of_mem _ member)]
    rw [Array.getElem?_modify, Array.getElem?_modify, List.filter_cons]
    by_cases second : e.n1 = node
    · have first : e.n0 ≠ node := fun same => different (same.trans second.symm)
      cases table[node]? <;> simp [first, second]
    · by_cases first : e.n0 = node
      · cases table[node]? <;> simp [first, second]
      · simp [first, second]

/-- The list of a node is what is left of all numbers when those of other edges are dropped. -/
theorem edgesAt_eq (apart : ∀ e ∈ m.edges, e.n0 ≠ e.n1) (node : Nat) :
    m.edgesAt node =
      if node < m.nodeCount then
        (m.edges.toList.zipIdx.filter fun (e, _) => e.n0 = node ∨ e.n1 = node).map (·.2)
      else [] := by
  rw [edgesAt, incidences, getElem?_foldl_incidences fun e member => apart e (by simpa using member),
    Array.getElem?_replicate]
  split <;> rfl

theorem idxOf?_pair (a b n : Nat) :
    [a, b].idxOf? n = if a = n then some 0 else if b = n then some 1 else none := by
  simp only [List.idxOf?_cons, List.idxOf?_nil, beq_iff_eq, Option.map_none]
  split
  · rfl
  · split <;> rfl

theorem edgeEnd?_eq_some_iff (apart : ∀ e ∈ m.edges, e.n0 ≠ e.n1) {k : Nat} :
    m.edgeEnd? i node = some k ↔
      ∃ e, m.edges[i]? = some e ∧ ∃ side : Side, k = side.index ∧ e.node side = node := by
  rw [edgeEnd?, Option.bind_eq_some_iff]
  refine exists_congr fun e => and_congr_right fun found => ?_
  have different := apart e (Array.mem_of_getElem? found)
  rw [idxOf?_pair]
  constructor
  · intro here
    split at here
    next first => exact ⟨.first, (Option.some.inj here).symm, first⟩
    next =>
      split at here
      next second => exact ⟨.second, (Option.some.inj here).symm, second⟩
      next => cases here
  · rintro ⟨side, rfl, same⟩
    cases side with
    | first => exact if_pos same
    | second =>
      have first : e.n0 ≠ node := fun same' => different (same'.trans same.symm)
      rw [if_neg first]
      exact if_pos same

theorem incident (oriented : ∀ e ∈ m.edges, e.n0 < e.n1 ∧ e.n1 < m.nodeCount) : m.Incident := by
  -- As the ends of an edge differ, no node lists an edge twice.
  have apart : ∀ e ∈ m.edges, e.n0 ≠ e.n1 := fun e member => Nat.ne_of_lt (oriented e member).1
  have listed : ∀ {node i : Nat}, i ∈ m.edgesAt node ↔
      ∃ e, m.edges[i]? = some e ∧ (e.n0 = node ∨ e.n1 = node) := by
    intro node i
    rw [edgesAt_eq apart]
    split
    next inside =>
      simp only [List.mem_map, List.mem_filter, decide_eq_true_eq, Prod.exists, exists_eq_right,
        List.mem_zipIdx_iff_getElem?, Array.getElem?_toList]
    next outside =>
      refine iff_of_false List.not_mem_nil ?_
      rintro ⟨e, found, touches⟩
      have := oriented e (Array.mem_of_getElem? found)
      omega
  refine ⟨listed, fun node => ?_, fun beyond => ?_, edgeEnd?_eq_some_iff apart, fun {node i} => ?_⟩
  · rw [edgesAt_eq apart]
    split
    · refine List.Pairwise.sublist (List.filter_sublist.map _) ?_
      rw [List.zipIdx_map_snd]
      exact List.pairwise_lt_range'
    · exact .nil
  · rw [edgesAt_eq apart, if_neg (Nat.not_lt_of_le beyond)]
  · simp only [listed, Option.isSome_iff_exists, edgeEnd?_eq_some_iff apart]
    constructor
    · rintro ⟨e, found, first | second⟩
      · exact ⟨_, e, found, .first, rfl, first⟩
      · exact ⟨_, e, found, .second, rfl, second⟩
    · rintro ⟨-, e, found, side, -, same⟩
      refine ⟨e, found, ?_⟩
      cases side with
      | first => exact .inl same
      | second => exact .inr same

/-- Edges collected from a list number what the list joins, and the nodes list them. -/
theorem numbers_of_edges {es : List Edge} (edges : m.edges = (OrderedSet.ofList es).elems.toArray)
    (oriented : ∀ e ∈ es, e.n0 < e.n1 ∧ e.n1 < m.nodeCount) :
    m.Numbers (es.map Edge.ends) ∧ m.Incident := by
  have inEdges : ∀ {e}, e ∈ m.edges ↔ e ∈ es := fun {e} => by
    rw [edges, List.mem_toArray, OrderedSet.mem_elems_ofList]
  have first : ∀ e ∈ es, (es.map Edge.ends).idxOf e.ends = es.idxOf e := fun e member =>
    idxOf_map fun e' member' => Edge.eq_of_ends (oriented e' member').1 (oriented e member).1
  refine ⟨⟨edges ▸ (OrderedSet.ofList es).nodup, fun member => oriented _ (inEdges.mp member),
    ?_, ?_⟩, incident fun e member => oriented e (inEdges.mp member)⟩
  · intro a b
    simp only [inEdges, List.mem_map]
  · rw [edges]
    refine (OrderedSet.pairwise_ofList es).imp_of_mem fun one other before => ?_
    rwa [first _ (OrderedSet.mem_elems_ofList.mp one),
      first _ (OrderedSet.mem_elems_ofList.mp other)]

/-! ## The mesh that is made -/

/-- The unordered pairs of corners that the edges of an element join, in local order. -/
def pairsOf (shape : Shape) (nodes : List Nat) : List (Sym2 Nat) :=
  shape.localEdges.map fun (a, b) => s(nodes[a]?.getD 0, nodes[b]?.getD 0)

/-- A mesh holds the points and elements it is made of, the edges that the elements join, under each
element the numbers of its own edges, and at each node the numbers of its edges. -/
structure MadeOf (m : Mesh β) (shape : Shape) (points : Array (Point β))
    (elements : List (List Nat)) : Prop where
  sameShape : m.shape = shape
  samePoints : m.points = points
  nodes : m.elements.toList.map (·.nodes) = elements
  numbers : m.Numbers (elements.flatMap (pairsOf shape))
  count : ∀ x ∈ m.elements, x.edges.length = shape.localEdges.length
  edges : ∀ x ∈ m.elements, ∀ {j a b : Nat}, shape.localEdges[j]? = some (a, b) →
    ∃ p q, x.nodes[a]? = some p ∧ x.nodes[b]? = some q ∧
      ∀ number, x.edges[j]? = some number ↔ ∃ e, m.edges[number]? = some e ∧ e.ends = s(p, q)
  incident : m.Incident

theorem map_ends_flatMap_edgesOf :
    (elements.flatMap (edgesOf shape)).map Edge.ends = elements.flatMap (pairsOf shape) := by
  simp only [List.map_flatMap, edgesOf, List.map_map, Function.comp_def, Edge.ends_between]
  rfl

theorem lt_corners_of_localEdges {pair : Nat × Nat} (member : pair ∈ shape.localEdges) :
    pair.1 < shape.corners ∧ pair.2 < shape.corners ∧ pair.1 ≠ pair.2 := by
  revert pair
  cases shape <;> decide

/-- The corners that a local edge joins are two different nodes. -/
theorem exists_corners_of_localEdges (sound : SoundCorners nodeCount nodes)
    (full : nodes.length = shape.corners) {a b : Nat} (member : (a, b) ∈ shape.localEdges) :
    ∃ p q, nodes[a]? = some p ∧ nodes[b]? = some q ∧ p < nodeCount ∧ q < nodeCount ∧ p ≠ q := by
  obtain ⟨first, second, apart⟩ := lt_corners_of_localEdges member
  rw [← full] at first second
  exact ⟨nodes[a], nodes[b], List.getElem?_eq_getElem first, List.getElem?_eq_getElem second,
    sound.1 _ (List.getElem_mem first), sound.1 _ (List.getElem_mem second),
    fun same => apart ((List.Nodup.getElem_inj_iff sound.2).mp same)⟩

theorem oriented_edgesOf (sound : SoundCorners nodeCount nodes)
    (full : nodes.length = shape.corners) :
    ∀ e ∈ edgesOf shape nodes, e.n0 < e.n1 ∧ e.n1 < nodeCount := by
  intro e member
  obtain ⟨⟨a, b⟩, isLocal, rfl⟩ := List.mem_map.mp member
  obtain ⟨p, q, first, second, inside, inside', apart⟩ :=
    exists_corners_of_localEdges sound full isLocal
  simpa only [first, second, Option.getD_some] using Edge.between_oriented inside inside' apart

/-- Sound elements with their edges at the positions among all edges are a mesh made of them. -/
theorem madeOf (full : ∀ nodes ∈ elements, nodes.length = shape.corners)
    (sound : ∀ nodes ∈ elements, SoundCorners points.size nodes) {all : OrderedSet Edge}
    (known : all = OrderedSet.ofList (elements.flatMap (edgesOf shape)))
    (sameShape : m.shape = shape) (samePoints : m.points = points)
    (sameEdges : m.edges = all.elems.toArray)
    (numbered : m.elements = (elements.map fun nodes =>
      ⟨nodes, (edgesOf shape nodes).map all.position⟩).toArray) :
    m.MadeOf shape points elements := by
  have oriented : ∀ e ∈ elements.flatMap (edgesOf shape), e.n0 < e.n1 ∧ e.n1 < m.nodeCount := by
    intro e member
    obtain ⟨nodes, inElements, isEdge⟩ := List.mem_flatMap.mp member
    rw [nodeCount, samePoints]
    exact oriented_edgesOf (sound nodes inElements) (full nodes inElements) e isEdge
  obtain ⟨numbers, incident⟩ := numbers_of_edges (known ▸ sameEdges) oriented
  refine ⟨sameShape, samePoints, ?_, map_ends_flatMap_edgesOf ▸ numbers, fun x member => ?_,
    fun x member j a b isLocal => ?_, incident⟩
  · simp [numbered, Function.comp_def]
  · rw [numbered] at member
    obtain ⟨nodes, -, rfl⟩ := List.mem_map.mp (List.mem_toArray.mp member)
    simp [edgesOf]
  · rw [numbered] at member
    obtain ⟨nodes, inElements, rfl⟩ := List.mem_map.mp (List.mem_toArray.mp member)
    obtain ⟨p, q, first, second, -⟩ := exists_corners_of_localEdges (sound nodes inElements)
      (full nodes inElements) (List.mem_of_getElem? isLocal)
    have atPlace : (edgesOf shape nodes)[j]? = some (.between p q) := by
      simp [edgesOf, isLocal, first, second]
    have present : Edge.between p q ∈ all.elems := known ▸ OrderedSet.mem_elems_ofList.mpr
      (List.mem_flatMap.mpr ⟨nodes, inElements, List.mem_of_getElem? atPlace⟩)
    -- The edge of the two corners is in the set, at the position that the element carries for it.
    have here : m.edges[all.position (.between p q)]? = some (.between p q) := by
      rw [sameEdges, List.getElem?_toArray]
      exact List.getElem?_idxOf present
    refine ⟨p, q, first, second, fun number => ?_⟩
    rw [List.getElem?_map, atPlace, Option.map_some, Option.some_inj]
    constructor
    · rintro rfl
      exact ⟨_, here, Edge.ends_between p q⟩
    · rintro ⟨e, found, same⟩
      exact numbers.unique here found ((Edge.ends_between p q).trans same.symm)

/-! ## Constructors -/

/-- The answer to a request for a mesh of elements is the mesh made of them, or why there is none:
too few nodes, or else the first fault. -/
structure Answers (result : Except MeshError (Mesh β)) (shape : Shape) (points : Array (Point β))
    (elements : List (List Nat)) : Prop where
  ok_iff : (∃ m, result = .ok m) ↔
    shape.corners ≤ points.size ∧ ∀ nodes ∈ elements, SoundCorners points.size nodes
  error_iff : ∀ fault, result = .error fault ↔
    points.size < shape.corners ∧ fault = .tooFewNodes points.size shape.corners ∨
      shape.corners ≤ points.size ∧ FirstFault points.size elements fault
  made : ∀ m, result = .ok m → m.MadeOf shape points elements

theorem answers_ofElements (shape : Shape) (points : Array (Point β))
    (full : ∀ nodes ∈ elements, nodes.length = shape.corners) :
    Answers (ofElements shape points elements) shape points elements := by
  rw [ofElements_eq]
  by_cases few : points.size < shape.corners
  · have lacking := Nat.not_le_of_lt few
    rw [if_pos few]
    exact ⟨by simp [lacking], fun fault => by simp [few, lacking, eq_comm],
      fun m made => by cases made⟩
  · have enough := Nat.le_of_not_lt few
    rw [if_neg few]
    cases faulty : firstFault? points.size 0 elements with
    | some fault =>
      have faults : FirstFault points.size elements fault := firstFault?_eq_some_iff.mp faulty
      refine ⟨iff_of_false (by simp) fun sound => ?_, fun other => ?_, fun m made => by cases made⟩
      · rw [firstFault?_eq_none_iff.mpr sound.2] at faulty
        cases faulty
      · simp only [few, false_and, false_or, enough, true_and, ← firstFault?_eq_some_iff, faulty,
          Except.error.injEq, Option.some_inj]
    | none =>
      have sound := firstFault?_eq_none_iff.mp faulty
      refine ⟨iff_of_true ⟨_, rfl⟩ ⟨enough, sound⟩, fun other => ?_, fun m made => ?_⟩
      · simp [few, ← firstFault?_eq_some_iff, faulty]
      · cases made
        exact madeOf full sound rfl rfl rfl rfl rfl

theorem line_answers [Zero β] (xs : List β) :
    ((∃ m, line xs = .ok m) ↔ 2 ≤ xs.length) ∧
      (∀ fault, line xs = .error fault ↔ xs.length < 2 ∧ fault = .tooFewNodes xs.length 2) ∧
      ∀ m, line xs = .ok m → m.shape = .segment ∧
        m.points = (xs.map fun x => ⟨x, 0, 0⟩).toArray ∧ m.elements = #[] ∧
        m.Numbers ((List.range (xs.length - 1)).map fun i => s(i, i + 1)) ∧ m.Incident := by
  rw [line_eq]
  by_cases few : xs.length < 2
  · rw [if_pos few]
    exact ⟨iff_of_false (by simp) (Nat.not_le_of_lt few), fun fault => by simp [few, eq_comm],
      fun m made => by cases made⟩
  · rw [if_neg few]
    refine ⟨iff_of_true ⟨_, rfl⟩ (Nat.le_of_not_lt few), fun fault => by simp [few],
      fun m made => ?_⟩
    cases made
    have oriented : ∀ e ∈ (List.range (xs.length - 1)).map fun i => Edge.between i (i + 1),
        e.n0 < e.n1 ∧ e.n1 < xs.length := by
      intro e member
      obtain ⟨i, below, rfl⟩ := List.mem_map.mp member
      rw [List.mem_range] at below
      exact Edge.between_oriented (by omega) (by omega) (by omega)
    have pairs : ((List.range (xs.length - 1)).map fun i => Edge.between i (i + 1)).map Edge.ends =
        (List.range (xs.length - 1)).map fun i => s(i, i + 1) := by
      simp only [List.map_map, Function.comp_def, Edge.ends_between]
    refine ⟨rfl, rfl, rfl, ?_⟩
    rw [← pairs]
    exact numbers_of_edges rfl (by simpa [nodeCount] using oriented)

/-- Every constructor answers exactly: a line of at least two nodes is made with edges between
neighbours, and elements of three or four corners are made into a mesh unless the nodes are too few
or a corner is at fault, of which the first is reported. -/
theorem constructors_exact [Zero β] :
    (∀ xs : List β, ((∃ m, line xs = .ok m) ↔ 2 ≤ xs.length) ∧
      (∀ fault, line xs = .error fault ↔ xs.length < 2 ∧ fault = .tooFewNodes xs.length 2) ∧
      ∀ m, line xs = .ok m → m.shape = .segment ∧
        m.points = (xs.map fun x => ⟨x, 0, 0⟩).toArray ∧ m.elements = #[] ∧
        m.Numbers ((List.range (xs.length - 1)).map fun i => s(i, i + 1)) ∧ m.Incident) ∧
      (∀ (points : Array (Point β)) (elements : List (List Nat)),
        (∀ nodes ∈ elements, nodes.length = 3) →
          Answers (triangles points elements) .triangle points elements) ∧
      ∀ (points : Array (Point β)) (elements : List (List Nat)),
        (∀ nodes ∈ elements, nodes.length = 4) →
          Answers (tetrahedra points elements) .tetrahedron points elements :=
  ⟨line_answers, fun points _ => answers_ofElements .triangle points,
    fun points _ => answers_ofElements .tetrahedron points⟩

/-- Four points make two triangles with a common edge, and a tetrahedron; of two tetrahedra the
second of which repeats a corner, that one is reported. -/
theorem constructors_exact_square :
    let points : Array (Point Nat) := #[⟨0, 0, 0⟩, ⟨1, 0, 0⟩, ⟨1, 1, 0⟩, ⟨0, 1, 1⟩]
    (∃ m, triangles points [[0, 1, 2], [3, 2, 0]] = .ok m ∧
        m.MadeOf .triangle points [[0, 1, 2], [3, 2, 0]]) ∧
      (∃ m, tetrahedra points [[0, 1, 2, 3]] = .ok m ∧
        m.MadeOf .tetrahedron points [[0, 1, 2, 3]]) ∧
      tetrahedra points [[0, 1, 2, 3], [3, 1, 1, 9]] = .error (.degenerateElement 1) := by
  obtain ⟨-, onTriangles, onTetrahedra⟩ := @constructors_exact Nat ⟨0⟩
  refine ⟨?_, ?_, ?_⟩
  · have answers := onTriangles #[⟨0, 0, 0⟩, ⟨1, 0, 0⟩, ⟨1, 1, 0⟩, ⟨0, 1, 1⟩]
      [[0, 1, 2], [3, 2, 0]] (by decide)
    obtain ⟨m, made⟩ := answers.ok_iff.mpr ⟨by decide, by decide⟩
    exact ⟨m, made, answers.made m made⟩
  · have answers := onTetrahedra #[⟨0, 0, 0⟩, ⟨1, 0, 0⟩, ⟨1, 1, 0⟩, ⟨0, 1, 1⟩]
      [[0, 1, 2, 3]] (by decide)
    obtain ⟨m, made⟩ := answers.ok_iff.mpr ⟨by decide, by decide⟩
    exact ⟨m, made, answers.made m made⟩
  · refine ((onTetrahedra _ _ (by decide)).error_iff _).mpr (.inr ⟨by decide, ?_⟩)
    exact ⟨[[0, 1, 2, 3]], [3, 1], 1, [9], [], rfl, by decide,
      by decide, .inr ⟨by decide, by decide, rfl⟩⟩

end Mesh

end FiniteVolume
