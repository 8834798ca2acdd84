import FiniteVolume.Proofs.Expression.Sizes
import FiniteVolume.Proofs.Mesh.ElementEdges
import FiniteVolume.Proofs.Model.Arising
import FiniteVolume.Proofs.Model.Written

/-!
Corners of element edges and ends of edges.

A corner `m@en0` or `m@en1` taken from the corner nodes is the end `m@n0` or `m@n1` of the edges, read
on element edges, so an edge model with the values of the end changes no value of the corner
(`Region.CornersAgree`). What lookups and evaluations gather exists at every position that they ask for
(`Region.GathersInRange`). Both hold of every region that arises from calls, also while it is read.
-/
namespace FiniteVolume

variable {β α : Type}

/-- The selector of the corner of element edges that stands for an end of their edges. -/
def Side.atElement : Side → Suffix
  | first => .elementCorner 0
  | second => .elementCorner 1

theorem Side.atElement_eq (side : Side) :
    ∃ corner : Fin 4, side.atElement = .elementCorner corner ∧ corner.val = side.index := by
  cases side with
  | first => exact ⟨0, rfl, rfl⟩
  | second => exact ⟨1, rfl, rfl⟩

namespace Region

variable {r r' : Region β α} {d : Domain} {base name : String} {side : Side}

theorem domainOf?_eq_none_iff {s : ModelStore β α} :
    s.domainOf? name = none ↔ ∀ d, s.contains d name = false := by
  rw [ModelStore.domainOf?, List.find?_eq_none]
  constructor
  · exact fun absent d => by simpa using absent d (by cases d <;> simp [Domain.all])
  · exact fun absent d _ => by simp [absent d]

theorem domainOf?_of_introduced {s s' : ModelStore β α} {other : String}
    (free : s.domainOf? name = none) (apart : name ≠ other)
    (introduced : ∀ d', s'.contains d' name = true →
      (d', name) = (d, other) ∨ s.contains d' name = true) : s'.domainOf? name = none := by
  rw [domainOf?_eq_none_iff] at free ⊢
  refine fun d' => Bool.eq_false_iff.mpr fun present => ?_
  rcases introduced d' present with same | before
  · exact apart (Prod.mk.inj same).2
  · exact Bool.eq_false_iff.mp (free d') before

variable [Scalar α]

/-! ## Lookups of corners and ends -/

/-- The corner at an end is taken from the nodes: a node model of the base exists, nothing has the
name of the corner, and no edge model has that of the end. -/
structure TakesCorner (r : Region β α) (d : Domain) (side : Side) (base : String) : Prop where
  elements : r.mesh.elementDomain = some d
  named : base ≠ ""
  node : r.models.contains .node base = true
  corner : r.models.domainOf? (side.atElement.apply base) = none
  edge : r.models.contains .edge ((Suffix.edgeEnd side).apply base) = false

def widened (r : Region β α) (d : Domain) (ends : Field α) : Field α :=
  ends.gather r.chunking (r.mesh.elementEdgeMap d)

theorem resolve?_atElement (elements : r.mesh.elementDomain = some d) (named : base ≠ "")
    (free : r.models.domainOf? (side.atElement.apply base) = none) :
    r.resolve? (side.atElement.apply base) =
      if r.models.contains .edge ((Suffix.edgeEnd side).apply base) then
        some ⟨(.edge, (Suffix.edgeEnd side).apply base), d, r.widened d⟩
      else if r.models.contains .node base then
        some ⟨(.node, base), d, r.atCorner d side.index⟩
      else none := by
  obtain ⟨corner, isCorner, index⟩ := side.atElement_eq
  have few : ¬d.corners ≤ corner := by
    have := Mesh.isElementEdge_of_elementDomain elements
    have : corner.val ≤ 1 := index ▸ (by cases side <;> decide)
    cases d <;> simp_all [Domain.isElementEdge, Domain.corners] <;> omega
  have ofCorner : Side.ofIndex? corner = some side := Side.ofIndex?_eq_some_iff.mpr index.symm
  have split : Suffix.split? (side.atElement.apply base) = some (base, .elementCorner corner) :=
    isCorner ▸ Suffix.split?_apply _ named
  unfold resolve?
  rw [free, split]
  simp only [elements, if_neg few, ofCorner, Option.map_some, Option.filter]
  cases r.models.contains .edge ((Suffix.edgeEnd side).apply base) with
  | true => rfl
  | false => rw [← index]; rfl

theorem resolve?_edgeEnd (named : base ≠ "")
    (free : r.models.domainOf? ((Suffix.edgeEnd side).apply base) = none) :
    r.resolve? ((Suffix.edgeEnd side).apply base) =
      if r.models.contains .node base then
        some ⟨(.node, base), .edge, r.atCorner .edge side.index⟩
      else none := by
  unfold resolve?
  rw [free, Suffix.split?_apply _ named]

/-- Nodes at the corners of element edges are nodes at the ends of edges, read on element edges. -/
theorem atCorner_eq_widened [Zero β] (built : r.mesh.Built) (elements : r.mesh.elementDomain = some d)
    (side : Side) (nodes : Field α) :
    r.atCorner d side.index nodes = r.widened d (r.atCorner .edge side.index nodes) := by
  have cornered := built.cornered
  have inside : ∀ j ∈ r.mesh.elementEdgeMap d,
      j < ((r.mesh.stencil .edge).filterMap (·[side.index]?)).size := by
    intro j member
    have covers := size_atCorner cornered (show Domain.edge ≠ .node by decide)
      (show side.index < Domain.edge.corners by cases side <;> decide) nodes
    rw [atCorner, Field.size_gather] at covers
    rw [covers]
    exact (cornered.of_elementEdgeMap elements).2 j member
  rw [widened, atCorner, atCorner, Field.gather_gather _ _ inside,
    built.corners_eq_mapped_ends elements side]

/-! ## Corners agree with ends -/

def SameElements (answer answer' : LookupResult α) : Prop :=
  ∃ d data data', answer = .ok (some ⟨d, data⟩) ∧ answer' = .ok (some ⟨d, data'⟩) ∧
    data'.toArray = data.toArray

/-- Corners taken from the nodes are ends of edges read on element edges, and an edge model with the
values of the end gives the corner the same elements. -/
structure CornersAgree (r : Region β α) : Prop where
  /-- The corner is the end taken from the nodes, read on element edges. -/
  corner : ∀ {d side base}, r.TakesCorner d side base →
    r.find (side.atElement.apply base) = ((r.read .node base).1.map fun nodes =>
      some ⟨d, r.widened d (r.atCorner .edge side.index nodes)⟩, (r.read .node base).2)
  /-- So it is the end that is looked up, unless other models have its name. -/
  looked : ∀ {d side base}, r.TakesCorner d side base →
    r.models.domainOf? ((Suffix.edgeEnd side).apply base) = none →
      r.find (side.atElement.apply base) =
        ((r.find ((Suffix.edgeEnd side).apply base)).1.map
            (·.map fun ends => ⟨d, r.widened d ends.data⟩),
          (r.find ((Suffix.edgeEnd side).apply base)).2)
  /-- Writing the values of the end to an edge model of its name is accepted, and keeps the elements of
  the corner. -/
  written : ∀ {d side base nodes}, r.TakesCorner d side base → (r.read .node base).1 = .ok nodes →
    ∀ ends : Field α, ends.toArray = (r.atCorner .edge side.index nodes).toArray →
      ∃ r', r.setData .edge ((Suffix.edgeEnd side).apply base) ends = .ok r' ∧
        SameElements (r.find (side.atElement.apply base)).1 (r'.find (side.atElement.apply base)).1
  /-- So does an edge model of its name that is declared, if the values of the end are what it reads. -/
  declared : ∀ {d side base nodes}, r.TakesCorner d side base → (r.read .node base).1 = .ok nodes →
    ∀ (calculator : Calculator β α) (ends : Field α),
      let r' := r.declare .edge ((Suffix.edgeEnd side).apply base) calculator
      (r'.read .edge ((Suffix.edgeEnd side).apply base)).1 = .ok ends →
        ends.toArray = (r.atCorner .edge side.index nodes).toArray →
          SameElements (r.find (side.atElement.apply base)).1 (r'.find (side.atElement.apply base)).1

theorem find_corner [Zero β] (built : r.mesh.Built) (takes : r.TakesCorner d side base) :
    r.find (side.atElement.apply base) = ((r.read .node base).1.map fun nodes =>
      some ⟨d, r.widened d (r.atCorner .edge side.index nodes)⟩, (r.read .node base).2) := by
  have resolved := resolve?_atElement takes.elements takes.named takes.corner
  rw [takes.edge, takes.node] at resolved
  rw [find_of_resolved resolved]
  simp only [Resolution.answer, atCorner_eq_widened built takes.elements]

theorem find_end (takes : r.TakesCorner d side base)
    (free : r.models.domainOf? ((Suffix.edgeEnd side).apply base) = none) :
    r.find ((Suffix.edgeEnd side).apply base) = ((r.read .node base).1.map fun nodes =>
      some ⟨.edge, r.atCorner .edge side.index nodes⟩, (r.read .node base).2) := by
  have resolved := resolve?_edgeEnd takes.named free
  rw [takes.node] at resolved
  rw [find_of_resolved resolved]
  rfl

theorem find_corner_of_edge (elements : r.mesh.elementDomain = some d) (named : base ≠ "")
    (free : r.models.domainOf? (side.atElement.apply base) = none)
    (edge : r.models.contains .edge ((Suffix.edgeEnd side).apply base) = true) :
    r.find (side.atElement.apply base) =
      ((r.read .edge ((Suffix.edgeEnd side).apply base)).1.map fun ends =>
        some ⟨d, r.widened d ends⟩, (r.read .edge ((Suffix.edgeEnd side).apply base)).2) := by
  have resolved := resolve?_atElement elements named free
  rw [edge] at resolved
  rw [find_of_resolved resolved]
  rfl

theorem atElement_apply_ne_edgeEnd_apply (named : base ≠ "") :
    side.atElement.apply base ≠ (Suffix.edgeEnd side).apply base := by
  intro same
  have split := Suffix.split?_apply side.atElement named
  rw [same, Suffix.split?_apply _ named] at split
  obtain ⟨corner, isCorner, -⟩ := side.atElement_eq
  rw [isCorner] at split
  cases split

theorem toArray_widened [Zero β] (built : r.mesh.Built) (elements : r.mesh.elementDomain = some d)
    {ends ends' : Field α} (covers : ends.size = r.size .edge) (same : ends'.toArray = ends.toArray) :
    (r.widened d ends').toArray = (r.widened d ends).toArray := by
  have inside := (built.cornered.of_elementEdgeMap elements).2
  have covers' : ends'.size = r.size .edge := by
    rw [← Field.size_toArray, same, Field.size_toArray, covers]
  rw [widened, widened, Field.toArray_gather _ _ fun j member => covers' ▸ inside j member,
    Field.toArray_gather _ _ fun j member => covers ▸ inside j member, same]

/-- In a region on the same mesh that reads the values of the end from an edge model, the corner has
the elements that it has from the nodes. -/
theorem sameElements_of_edge [Zero β] (built : r.mesh.Built) (takes : r.TakesCorner d side base)
    {nodes ends : Field α} (read : (r.read .node base).1 = .ok nodes) (mesh : r'.mesh = r.mesh)
    (chunking : r'.chunking = r.chunking)
    (free : r'.models.domainOf? (side.atElement.apply base) = none)
    (edge : r'.models.contains .edge ((Suffix.edgeEnd side).apply base) = true)
    (read' : (r'.read .edge ((Suffix.edgeEnd side).apply base)).1 = .ok ends)
    (same : ends.toArray = (r.atCorner .edge side.index nodes).toArray) :
    SameElements (r.find (side.atElement.apply base)).1 (r'.find (side.atElement.apply base)).1 := by
  have covers : (r.atCorner .edge side.index nodes).size = r.size .edge :=
    size_atCorner built.cornered (by decide) (by cases side <;> decide) nodes
  rw [find_corner built takes, find_corner_of_edge (mesh ▸ takes.elements) takes.named free edge,
    read, read']
  refine ⟨d, _, _, rfl, rfl, ?_⟩
  rw [widened, mesh, chunking]
  exact toArray_widened built takes.elements covers same

theorem cornersAgree [Zero β] (built : r.mesh.Built) : r.CornersAgree where
  corner takes := find_corner built takes
  looked {d side base} takes free := by
    rw [find_corner built takes, find_end takes free]
    cases (r.read .node base).1 <;> rfl
  written {d side base nodes} takes read ends same := by
    have covers : ends.size = r.size .edge := by
      rw [← Field.size_toArray, same, Field.size_toArray]
      exact size_atCorner built.cornered (by decide) (by cases side <;> decide) nodes
    have wrote : r.setData .edge ((Suffix.edgeEnd side).apply base) ends =
        .ok (touch { r with models := r.models.write .edge ((Suffix.edgeEnd side).apply base) ends }) :=
      if_neg (not_not_intro covers)
    refine ⟨_, wrote, sameElements_of_edge built takes read rfl rfl ?_ ?_
      (by rw [read_of_atHand (stored_of_setData wrote).atHand]) same⟩
    · exact domainOf?_of_introduced takes.corner (atElement_apply_ne_edgeEnd_apply takes.named)
        fun _ => ModelStore.contains_write.mp
    · exact ModelStore.contains_write.mpr (.inl rfl)
  declared {d side base nodes} takes read calculator ends read' same := by
    refine sameElements_of_edge built takes read rfl rfl ?_ ?_ read' same
    · exact domainOf?_of_introduced takes.corner (atElement_apply_ne_edgeEnd_apply takes.named)
        fun _ => ModelStore.contains_declare.mp
    · exact ModelStore.contains_declare.mpr (.inl rfl)

/-! ## Positions that are gathered -/

/-- A name has the values of the model that is read, or gathers for each entity of its domain one at
a position that exists. -/
def Resolution.GathersInRange (r : Region β α) (found : Resolution α) : Prop :=
  found.source.1 = found.domain ∧ found.view = id ∨
    ∃ index : Array Nat, found.view = (·.gather r.chunking index) ∧
      index.size = r.size found.domain ∧ ∀ i ∈ index, i < r.size found.source.1

variable [BaseScalar β] [Precision β α]

/-- What an evaluation does at a time: evaluate an expression, or add up or multiply what is left of a
sum or product. What it knows so far has one element for every entity of its domain. -/
inductive Evaluates (r : Region β α) (functions : Registry α) (session : Session α) :
    Query β α (Value α × Session α) → Prop
  | value (e : Expr β) :
    Evaluates r functions session ((e.eval r.surroundings functions).run session)
  | sum {total : Value α} (fits : total.Fits r.size) (xs : List (Expr β)) :
    Evaluates r functions session ((Expr.evalSum r.surroundings functions total xs).run session)
  | product {total : Value α} (fits : total.Fits r.size) (xs : List (Expr β)) :
    Evaluates r functions session ((Expr.evalProduct r.surroundings functions total xs).run session)

/-- Whatever is looked up or evaluated, and however deep in the computation of other models, positions
that are gathered exist. -/
structure GathersInRange (r : Region β α) : Prop where
  /-- A name is gathered from the entities of the domain that is read, one for each of its own. -/
  lookups : ∀ {name found}, r.resolve? name = some found → found.GathersInRange r
  /-- What is read has one value for every entity. -/
  read : ∀ {depth d name data}, (readWithin reportCycle depth d name r).1 = .ok data →
    data.size = r.size d
  /-- So has what is looked up. -/
  found : ∀ {depth name found}, (lookupWithin reportCycle depth name r).1 = .ok (some found) →
    found.data.size = r.size found.domain
  /-- Every value that an evaluation may read on element edges has the edges that they are. -/
  widening : ∀ {depth functions session q data session'}, session.Fits r.size →
    r.Evaluates functions session q →
      (q.runState (lookupWithin reportCycle depth) parameter? r).1 = (.field .edge data, session') →
        ∀ d, ∀ edge ∈ r.mesh.elementEdgeMap d, edge < data.size

omit [BaseScalar β] [Precision β α]

theorem atCorner_inRange {corner : Nat} (cornered : r.mesh.Cornered) (other : d ≠ .node)
    (inside : corner < d.corners) :
    ((r.mesh.stencil d).filterMap (·[corner]?)).size = r.size d ∧
      ∀ i ∈ (r.mesh.stencil d).filterMap (·[corner]?), i < r.size .node := by
  refine ⟨?_, fun i member => ?_⟩
  · have covers := size_atCorner cornered other inside (Field.uniform (0 : α) 0)
    rwa [atCorner, Field.size_gather] at covers
  · obtain ⟨corners, listed, here⟩ := Array.mem_filterMap.mp member
    exact (cornered.of_mem_stencil listed).2 i (List.mem_of_getElem? here)

theorem gathersInRange_of_resolve? {found : Resolution α} (cornered : r.mesh.Cornered)
    (resolved : r.resolve? name = some found) : found.GathersInRange r := by
  unfold resolve? at resolved
  split at resolved
  · cases resolved
    exact .inl ⟨rfl, rfl⟩
  · split at resolved
    next base side _ =>
      split at resolved
      · cases resolved
        exact .inr ⟨_, rfl, atCorner_inRange cornered (by decide) (by cases side <;> decide)⟩
      · cases resolved
    next base i _ =>
      split at resolved
      · cases resolved
      next d elements =>
        split at resolved
        · cases resolved
        next inside =>
          dsimp only at resolved
          split at resolved
          · cases resolved
            exact .inr ⟨_, rfl, cornered.of_elementEdgeMap elements⟩
          · split at resolved
            · cases resolved
              refine .inr ⟨_, rfl, atCorner_inRange cornered ?_ (Nat.lt_of_not_le inside)⟩
              rintro rfl
              cases Mesh.isElementEdge_of_elementDomain elements
            · cases resolved
    all_goals cases resolved

/-- A lookup within any computation finds one value for every entity. -/
theorem Regular.size_of_lookupWithin {depth : Nat} {found : Resolved α} (regular : r.Regular)
    (ran : (lookupWithin reportCycle depth name r).1 = .ok (some found)) :
    found.data.size = r.size found.domain := by
  cases depth with
  | zero => cases ran
  | succ depth =>
    rw [lookupWithin] at ran
    cases resolved : r.resolve? name with
    | none =>
      rw [lookupWith_of_unresolved resolved] at ran
      cases ran
    | some resolution =>
      rw [lookupWith_of_resolved resolved] at ran
      cases read : (readWithin reportCycle depth resolution.source.1 resolution.source.2 r).1 with
      | error e =>
        rw [read] at ran
        cases ran
      | ok data =>
        rw [read] at ran
        cases ran
        exact Resolution.size_view regular.mesh resolved (regular.sized.size_of_readWithin read)

theorem fits_lookupWithin (depth : Nat) (name : String) (r : Region β α) :
    Fits r (lookupWithin reportCycle depth name r).2 := by
  cases depth with
  | zero => exact .refl r
  | succ depth =>
    exact lookupWith_rel (.refl r) fun d name => fits_readWithin (fun _ r => .refl r) depth d name r

variable [BaseScalar β] [Precision β α]

theorem Evaluates.fits (depth : Nat) {functions : Registry α} {session : Session α}
    {q : Query β α (Value α × Session α)} (regular : r.Regular) (remembered : session.Fits r.size)
    (evaluates : r.Evaluates functions session q) :
    (q.runState (lookupWithin reportCycle depth) parameter? r).1.1.Fits r.size := by
  have given : q.Given (LookupResult.Fits r.size) fun result =>
      result.2.Fits r.size ∧ result.1.Fits r.size := by
    cases evaluates with
    | value e => exact Expr.fitting_eval _ functions e session remembered
    | sum fits xs => exact Expr.fitting_evalSum _ functions fits xs session remembered
    | product fits xs => exact Expr.fitting_evalProduct _ functions fits xs session remembered
  have answers : ∀ name s, Fits r s → LookupResult.Fits r.size (lookupWithin reportCycle depth name s).1 ∧
      Fits r (lookupWithin reportCycle depth name s).2 := by
    intro name s fits
    refine ⟨fun found ran => ?_, fits.trans (fits_lookupWithin depth name s)⟩
    rw [← show s.size = r.size from congrArg Mesh.size fits.mesh]
    exact (regular.fits fits).size_of_lookupWithin ran
  exact (given.runState (I := Fits r) (.refl r) answers).2

theorem Regular.gathersInRange (regular : r.Regular) : r.GathersInRange where
  lookups resolved := gathersInRange_of_resolve? regular.mesh resolved
  read ran := regular.sized.size_of_readWithin ran
  found ran := regular.size_of_lookupWithin ran
  widening {depth _ _ _ data _} remembered evaluates ran d edge member := by
    have covers : data.size = r.size .edge :=
      evaluates.fits depth regular remembered .edge data (congrArg Prod.fst ran)
    have elements : r.mesh.elementDomain = some d := by
      refine Decidable.byContradiction fun other => ?_
      rw [Mesh.elementEdgeMap, if_neg other] at member
      exact Array.not_mem_empty edge member
    rw [covers]
    exact (regular.mesh.of_elementEdgeMap elements).2 edge member

/-- On every mesh that a constructor gives, element edges are numbered through and reach the corners of
their elements, the ends of their edges first. In every region that arises on one, corners taken from
the nodes agree with ends of edges, and everything that is gathered exists. -/
theorem element_edges_agree_with_projections :
    (∀ (m : Mesh β) (d : Domain) (per : Nat), m.Built → d.edgesPerElement = some per →
      m.ElementEdges d per) ∧
      ∀ r : Region β α, r.Arises → r.CornersAgree ∧ r.GathersInRange := by
  refine ⟨fun m d per built => built.elementEdges, fun r arises => ?_⟩
  obtain ⟨built, regular⟩ := arises.regular
  exact ⟨cornersAgree built, regular.gathersInRange⟩

/-- A new region on two triangles with a common edge, whose coordinates are taken at corners. -/
theorem element_edges_agree_with_projections_on_two_triangles :
    let mesh : Mesh ℚ := {
      shape := .triangle
      points := #[⟨0, 0, 0⟩, ⟨1, 0, 0⟩, ⟨1, 1, 0⟩, ⟨0, 1, 0⟩]
      edges := #[⟨1, 2⟩, ⟨0, 2⟩, ⟨0, 1⟩, ⟨0, 3⟩, ⟨2, 3⟩]
      elements := #[⟨[0, 1, 2], [0, 1, 2]⟩, ⟨[2, 0, 3], [3, 4, 1]⟩] }
    let r : Region ℚ ℚ := create 1 "device" "bulk" mesh {}
    mesh.ElementEdges .triangleEdge 3 ∧ (r.CornersAgree ∧ r.GathersInRange) ∧
      r.TakesCorner .triangleEdge .second "x" ∧
      (r.find "x@en1").1.toOption.join.map (fun found => (found.domain, found.data.toArray)) =
        some (.triangleEdge, #[1, 1, 1, 0, 0, 1]) := by
  intro mesh r
  have built : mesh.Built := .triangles mesh.points [[0, 1, 2], [2, 0, 3]] (by decide) rfl
  obtain ⟨numbering, regions⟩ := @element_edges_agree_with_projections ℚ ℚ _ _ _
  refine ⟨numbering mesh _ 3 built rfl, regions r (.created 1 "device" "bulk" {} built),
    ⟨rfl, by decide, by decide +kernel, by decide +kernel, by decide +kernel⟩, by decide +kernel⟩

end Region

end FiniteVolume
