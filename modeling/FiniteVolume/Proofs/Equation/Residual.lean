import FiniteVolume.Proofs.Assembly.Sums
import FiniteVolume.Proofs.Assembly.Rows
import FiniteVolume.Proofs.Equation.Success

/-!
The residual of a bulk equation.

When the models of a bulk equation can be read, its steady residual pass succeeds, and in exact
arithmetic the records on the row of a node sum to the discretised balance at the node
(`BulkModels.balance`).
-/
namespace FiniteVolume

open Finset

variable {β α : Type}

/-! ## The balance at a node -/

namespace Region

variable [Scalar α] [ExactScalar α] (r : Region β α) (d : Domain)

/-- One at the entities that have the node at the given end, zero elsewhere. -/
def isEnd (side : Side) (node entity : Nat) : α :=
  if r.mesh.endOf? d entity side = some node then 1 else 0

/-- What a model on edges or element edges carries from their first ends to their second, out of a
node. -/
def outflow (measure model : String) (node : Nat) : α :=
  ∑ i ∈ range (r.size d), (r.isEnd d .first node i - r.isEnd d .second node i)
    * (r.valueAt d measure i * r.valueAt d model i)

def shares (side : Side) (measure model : String) (node : Nat) : α :=
  ∑ i ∈ range (r.size d), r.isEnd d side node i * (r.valueAt d measure i * r.valueAt d model i)

end Region

/-- The discretised balance at a node: fluxes over edges, volume terms over the shares of the ends of
edges, the node term, and fluxes and shares of element edges. What is not set contributes nothing. -/
def BulkModels.balance [Scalar α] [ExactScalar α] (m : BulkModels) (measures : MeasureNames)
    (r : Region β α) (node : Nat) : α :=
  m.edge.elim 0 (fun f => r.outflow .edge measures.edgeCouple f node)
    + m.edgeVolume.elim 0 (fun f => r.shares .edge .first measures.edgeNode0Volume f node
        + r.shares .edge .second measures.edgeNode1Volume f node)
    + m.node.elim 0 (fun f => r.valueAt .node measures.nodeVolume node * r.valueAt .node f node)
    + r.mesh.elementDomain.elim 0 fun d =>
      m.element.elim 0 (fun f => r.outflow d measures.elementEdgeCouple f node)
        + m.volumeNode0.elim 0 (fun f => r.shares d .first measures.elementNode0Volume f node)
        + m.volumeNode1.elim 0 (fun f => r.shares d .second measures.elementNode1Volume f node)

/-- The models that the steady terms read in a region: those of its slots and their measures. -/
def BulkModels.reads (m : BulkModels) (measures : MeasureNames) (elements : Option Domain) :
    List (Domain × String) :=
  m.edge.toList.flatMap (fun f => [(.edge, f), (.edge, measures.edgeCouple)])
    ++ m.edgeVolume.toList.flatMap (fun f =>
      [(.edge, f), (.edge, measures.edgeNode0Volume), (.edge, measures.edgeNode1Volume)])
    ++ m.node.toList.flatMap (fun f => [(.node, f), (.node, measures.nodeVolume)])
    ++ elements.toList.flatMap fun d =>
      m.element.toList.flatMap (fun f => [(d, f), (d, measures.elementEdgeCouple)])
        ++ m.volumeNode0.toList.flatMap (fun f => [(d, f), (d, measures.elementNode0Volume)])
        ++ m.volumeNode1.toList.flatMap (fun f => [(d, f), (d, measures.elementNode1Volume)])

/-! ## What is read -/

theorem Flux.mem_overShares {d : Domain} {model0 model1 : Option String} {measure0 measure1 : String}
    {f : Flux} (member : f ∈ overShares d model0 model1 measure0 measure1) :
    f.domain = d ∧ (model0 = some f.model ∧ f.measure = measure0 ∨
      model1 = some f.model ∧ f.measure = measure1) := by
  unfold overShares at member
  split at member
  · simp only [List.mem_map, Option.mem_toList] at member
    obtain ⟨model, set, rfl⟩ := member
    exact ⟨rfl, .inl ⟨set, rfl⟩⟩
  · simp only [List.mem_append, List.mem_map, Option.mem_toList] at member
    rcases member with ⟨model, set, rfl⟩ | ⟨model, set, rfl⟩
    · exact ⟨rfl, .inl ⟨set, rfl⟩⟩
    · exact ⟨rfl, .inr ⟨set, rfl⟩⟩

namespace BulkModels

variable (m : BulkModels) {measures : MeasureNames} {elements : Option Domain}

theorem mem_reads_of_edge {f : Flux} (member : f ∈ m.edgeFluxes measures) :
    (f.domain, f.model) ∈ m.reads measures elements ∧
      (f.domain, f.measure) ∈ m.reads measures elements := by
  rcases List.mem_append.mp member with flux | share
  · obtain ⟨model, set, rfl⟩ := List.mem_map.mp flux
    simp [reads, MeasureNames.edgeFlux, Option.mem_toList.mp set]
  · obtain ⟨model, set, share⟩ := List.mem_flatMap.mp share
    obtain ⟨domain, ⟨named, measure⟩ | ⟨named, measure⟩⟩ := Flux.mem_overShares share <;>
      simp [reads, Option.mem_toList.mp set, domain, measure, Option.some.inj named]

theorem mem_reads_of_element {d : Domain} (here : elements = some d) {f : Flux}
    (member : f ∈ m.elementFluxes measures d) :
    (f.domain, f.model) ∈ m.reads measures elements ∧
      (f.domain, f.measure) ∈ m.reads measures elements := by
  subst here
  rcases List.mem_append.mp member with flux | share
  · obtain ⟨model, set, rfl⟩ := List.mem_map.mp flux
    simp [reads, MeasureNames.elementFlux, Option.mem_toList.mp set]
  · obtain ⟨domain, ⟨named, measure⟩ | ⟨named, measure⟩⟩ := Flux.mem_overShares share <;>
      simp [reads, domain, measure, named]

theorem mem_reads_of_node {model : String} (member : model ∈ m.node.toList) :
    (.node, model) ∈ m.reads measures elements ∧
      (.node, measures.nodeVolume) ∈ m.reads measures elements := by
  simp [reads, Option.mem_toList.mp member]

/-- The model and the measure of every steady term are read. -/
theorem mem_reads {i : Integrand} (member : i ∈ m.integrands measures elements .steady) :
    (i.domain, i.model) ∈ m.reads measures elements ∧
      (i.domain, i.measure measures) ∈ m.reads measures elements := by
  simp only [integrands, List.mem_append, List.mem_map, List.mem_flatMap, Option.mem_toList] at member
  rcases member with (⟨f, flux, rfl⟩ | ⟨model, node, rfl⟩) | ⟨f, ⟨d, here, flux⟩, rfl⟩
  · exact m.mem_reads_of_edge flux
  · exact m.mem_reads_of_node (Option.mem_toList.mpr node)
  · exact m.mem_reads_of_element here flux

end BulkModels

/-! ## Success -/

namespace BulkEquation

variable [BaseScalar β] [Scalar α] {r₀ : Region β α}

theorem succeeds_assemble (e : BulkEquation β) {settings : Settings β} {start : Nat}
    (ready : r₀.Ready) (slot : r₀.firstRow? e.name = some start)
    (readable : ∀ key ∈ e.models.reads settings.measures r₀.mesh.elementDomain,
      ∃ data, (r₀.read key.1 key.2).1 = .ok data) :
    Pass.Succeeds r₀.Reading (e.assemble settings .residual .steady : RegionPass β α Unit)
      fun _ => True := by
  refine e.succeeds_numeric ready slot fun key inReads => ?_
  obtain ⟨i, member, inReads⟩ := List.mem_flatMap.mp inReads
  obtain ⟨model, measure⟩ := e.models.mem_reads member
  have either : key = (i.domain, i.measure settings.measures) ∨ key = (i.domain, i.model) := by
    simpa [Integrand.reads, Selector.wantsResidual, Selector.wantsMatrix] using inReads
  rcases either with rfl | rfl
  · exact .of_read (readable _ measure).choose_spec
  · exact .of_read (readable _ model).choose_spec

end BulkEquation

/-! ## Sums of the records -/

section

variable [Scalar α] [ExactScalar α] {r : Region β α} {measures : MeasureNames} {start node : Nat}

namespace Region

def fluxAt (r : Region β α) (f : Flux) (node : Nat) : α :=
  ∑ i ∈ range (r.size f.domain), (f.ends.weight .first * r.isEnd f.domain .first node i
    + f.ends.weight .second * r.isEnd f.domain .second node i)
      * (r.valueAt f.domain f.measure i * r.valueAt f.domain f.model i)

theorem fluxAt_opposed (d : Domain) (measure model : String) :
    r.fluxAt ⟨model, d, measure, .opposed⟩ node = r.outflow d measure model node := by
  refine Finset.sum_congr rfl fun i _ => ?_
  simp only [EndWeights.weight, EndWeights.factor?, Option.getD_some]
  ring

theorem fluxAt_firstOnly (d : Domain) (measure model : String) :
    r.fluxAt ⟨model, d, measure, .firstOnly⟩ node = r.shares d .first measure model node := by
  refine Finset.sum_congr rfl fun i _ => ?_
  simp only [EndWeights.weight, EndWeights.factor?, Option.getD_some, Option.getD_none]
  ring

theorem fluxAt_secondOnly (d : Domain) (measure model : String) :
    r.fluxAt ⟨model, d, measure, .secondOnly⟩ node = r.shares d .second measure model node := by
  refine Finset.sum_congr rfl fun i _ => ?_
  simp only [EndWeights.weight, EndWeights.factor?, Option.getD_some, Option.getD_none]
  ring

theorem fluxAt_shared (d : Domain) (measure model : String) :
    r.fluxAt ⟨model, d, measure, .shared⟩ node =
      r.shares d .first measure model node + r.shares d .second measure model node := by
  rw [shares, shares, ← Finset.sum_add_distrib]
  refine Finset.sum_congr rfl fun i _ => ?_
  simp only [EndWeights.weight, EndWeights.factor?, Option.getD_some]
  ring

theorem sum_overShares (d : Domain) (model0 model1 : Option String) (measure0 measure1 : String) :
    ((Flux.overShares d model0 model1 measure0 measure1).map (r.fluxAt · node)).sum =
      model0.elim 0 (fun f => r.shares d .first measure0 f node)
        + model1.elim 0 (fun f => r.shares d .second measure1 f node) := by
  unfold Flux.overShares
  split
  next same =>
    obtain ⟨set, rfl, rfl⟩ := same
    obtain ⟨model, rfl⟩ := Option.isSome_iff_exists.mp set
    simp [fluxAt_shared]
  · cases model0 <;> cases model1 <;> simp [fluxAt_firstOnly, fluxAt_secondOnly]

end Region

omit [ExactScalar α] in
theorem Integrand.share_block (wellFormed : r.mesh.WellFormed) (f : Flux) {i : Nat}
    (inside : i < r.size f.domain) :
    (flux f).share r.mesh (.block start) (start + node) i =
      f.ends.weight .first * r.isEnd f.domain .first node i
        + f.ends.weight .second * r.isEnd f.domain .second node i := by
  have lands : ∀ corner : Option Nat,
      (Rows.block start).lands (start + node) corner = (if corner = some node then 1 else 0 : α) := by
    intro corner
    cases corner <;> simp [Rows.lands, Rows.row?]
  have first := wellFormed.getElem?_corner inside .first
  have second := wellFormed.getElem?_corner inside .second
  simp only [Side.index] at first second
  simp only [share, cornersOf, lands, first, second, Region.isEnd]

/-- The value of a term on the row of a node. -/
def Integrand.balance (measures : MeasureNames) (r : Region β α) (node : Nat) : Integrand → α
  | .node model => r.valueAt .node measures.nodeVolume node * r.valueAt .node model node
  | .flux f => r.fluxAt f node

theorem Integrand.residualAt_block (wellFormed : r.mesh.WellFormed)
    (sized : ∀ d name, (r.values d name).size ≤ r.size d) (inside : node < r.nodeCount)
    (i : Integrand) :
    Records.residualAt (i.records (.block start) r (r.values i.domain (i.measure measures)) none
      .residual) (start + node) = i.balance measures r node := by
  change Records.residualAt ⟨[], i.residual (.block start) r _⟩ (start + node) = _
  rw [i.residualAt_eq (sized i.domain (i.measure measures))]
  cases i with
  | node model =>
    refine Eq.trans (Finset.sum_eq_single_of_mem node (Finset.mem_range.mpr inside) ?_) ?_
    rotate_left
    · simp [share, Rows.lands, Rows.row?, balance, Region.valueAt, domain, measure, Integrand.model]
    · intro k _ other
      simp [share, Rows.lands, Rows.row?, other]
  | flux f =>
    refine Finset.sum_congr rfl fun k below => ?_
    rw [share_block wellFormed f (Finset.mem_range.mp below)]
    rfl

/-- Term by term, the steady terms make up the balance. -/
theorem BulkModels.sum_balance (m : BulkModels) :
    ((m.integrands measures r.mesh.elementDomain .steady).map (·.balance measures r node)).sum =
      m.balance measures r node := by
  -- Each group of terms is one summand of the balance.
  have fluxes : ∀ (d : Domain) (couple : String) (model : Option String),
      (model.toList.map fun f => r.fluxAt ⟨f, d, couple, .opposed⟩ node).sum =
        model.elim 0 fun f => r.outflow d couple f node := by
    intro d couple model
    cases model <;> simp [Region.fluxAt_opposed]
  have edgeShares : ((m.edgeVolume.toList.flatMap measures.edgeShares).map
      (r.fluxAt · node)).sum = m.edgeVolume.elim 0 fun f =>
        r.shares .edge .first measures.edgeNode0Volume f node
          + r.shares .edge .second measures.edgeNode1Volume f node := by
    cases m.edgeVolume with
    | none => rfl
    | some f =>
      simpa [MeasureNames.edgeShares] using Region.sum_overShares .edge (some f) (some f) _ _
  have onNode : (m.node.toList.map fun f =>
      r.valueAt .node measures.nodeVolume node * r.valueAt .node f node).sum =
        m.node.elim 0 fun f => r.valueAt .node measures.nodeVolume node * r.valueAt .node f node := by
    cases m.node <;> simp
  have onElements : ((r.mesh.elementDomain.toList.flatMap (m.elementFluxes measures)).map
      (r.fluxAt · node)).sum = r.mesh.elementDomain.elim 0 fun d =>
        m.element.elim 0 (fun f => r.outflow d measures.elementEdgeCouple f node)
          + m.volumeNode0.elim 0 (fun f => r.shares d .first measures.elementNode0Volume f node)
          + m.volumeNode1.elim 0 (fun f => r.shares d .second measures.elementNode1Volume f node) := by
    cases r.mesh.elementDomain with
    | none => rfl
    | some d =>
      simp [elementFluxes, MeasureNames.elementFlux, MeasureNames.elementShares, Function.comp_def,
        fluxes, Region.sum_overShares, add_assoc]
  simp only [integrands, edgeFluxes, List.map_append, List.sum_append, List.map_map,
    Function.comp_def, Integrand.balance, MeasureNames.edgeFlux, fluxes, edgeShares, onNode,
    onElements, balance]

theorem Integrand.balance_congr {r' : Region β α} (mesh : r'.mesh = r.mesh) {i : Integrand}
    (measure : r'.values i.domain (i.measure measures) = r.values i.domain (i.measure measures))
    (model : r'.values i.domain i.model = r.values i.domain i.model) :
    i.balance measures r' node = i.balance measures r node := by
  cases i with
  | node m =>
    simp only [domain, Integrand.measure, Integrand.model] at measure model
    simp only [balance, Region.valueAt, measure, model]
  | flux f =>
    simp only [domain, Integrand.measure, Integrand.model] at measure model
    simp only [balance, Region.fluxAt, Region.isEnd, Region.size, mesh, Region.valueAt, measure, model]

end

/-! ## The pass -/

variable [BaseScalar β] [Scalar α] [ExactScalar α]

/-- If the models of a bulk equation and their measures can be read, its steady residual pass succeeds.
Its records lie on the rows of the equation, and those on the row of a node sum to the discretised
balance at the node. -/
theorem BulkEquation.residual_eq_balance (e : BulkEquation β) (settings : Settings β)
    {s : PassState (Region β α) α} {start : Nat} (ready : s.owner.Ready)
    (wellFormed : s.owner.mesh.WellFormed) (slot : s.owner.firstRow? e.name = some start)
    (readable : ∀ key ∈ e.models.reads settings.measures s.owner.mesh.elementDomain,
      ∃ data, (s.owner.read key.1 key.2).1 = .ok data) :
    ∃ s' records, e.assemble settings .residual .steady s = (.ok (), s') ∧
      s'.out = s.out.append records ∧ records.matrix = [] ∧
      (∀ m ∈ records.residual, ∃ n < s.owner.nodeCount, m.row = start + n) ∧
      ∀ n < s.owner.nodeCount,
        records.residualAt (start + n) = e.models.balance settings.measures s.owner n := by
  obtain ⟨⟨⟩, s', ran, reading, -⟩ :=
    (e.succeeds_assemble ready slot readable).ran s ready.reading
  obtain ⟨-, _, out, start', slot', rfl⟩ := (e.writes_assemble (by simp)).appended ran
  have mesh : s'.owner.mesh = s.owner.mesh :=
    Region.eq_of_uncached_eq (f := Region.mesh) (fun _ => rfl) reading.balanced.declared
  have size : s'.owner.size = s.owner.size :=
    Region.size_of_uncached_eq reading.balanced.declared
  -- The pass only reads: mesh, rows and the values that were read are those of the start.
  have sized : ∀ d name, (s'.owner.values d name).size ≤ s'.owner.size d := by
    intro d name
    rw [size, reading.values_eq ready]
    exact ready.size_values_le d name
  obtain rfl : start' = start := by
    rw [Region.eq_of_uncached_eq (f := Region.firstRow?) (fun _ => rfl) reading.balanced.declared,
      slot] at slot'
    exact (Option.some.inj slot').symm
  have nodes : s'.owner.nodeCount = s.owner.nodeCount := congrArg Mesh.nodeCount mesh
  refine ⟨s', _, ran, out, ?_, fun m member => ?_, fun n inside => ?_⟩
  · refine List.flatMap_eq_nil_iff.mpr fun part member => ?_
    obtain ⟨term, -, rfl⟩ := List.mem_map.mp member
    rfl
  · have inRows : m.row ∈ (Integrand.assembled settings.measures none .residual (e.terms
        settings.measures s'.owner.mesh.elementDomain .steady start') s'.owner).rows :=
      List.mem_append_right _ (List.mem_map.mpr ⟨m, member, rfl⟩)
    obtain ⟨term, inTerms, n, inside, row⟩ :=
      Integrand.exists_node_of_mem_assembled inRows (mesh ▸ wellFormed) sized
    obtain ⟨i, -, rfl⟩ := List.mem_map.mp inTerms
    exact ⟨n, nodes ▸ inside, (Option.some.inj row).symm⟩
  · rw [Integrand.assembled, Records.residualAt_join, BulkEquation.terms, List.map_map, List.map_map,
      mesh, ← e.models.sum_balance]
    refine congrArg List.sum (List.map_congr_left fun i _ => ?_)
    refine (Integrand.residualAt_block (mesh ▸ wellFormed) sized (nodes ▸ inside) i).trans ?_
    exact Integrand.balance_congr mesh (reading.values_eq ready ..) (reading.values_eq ready ..)

/-- All kinds of terms on one triangle, with a computed flux and different shares of the two ends. -/
theorem BulkEquation.residual_eq_balance_on_triangle :
    let mesh : Mesh ℚ := ⟨.triangle, #[⟨0, 0, 0⟩, ⟨1, 0, 0⟩, ⟨0, 1, 0⟩], #[⟨1, 2⟩, ⟨0, 2⟩, ⟨0, 1⟩],
      #[⟨[0, 1, 2], [0, 1, 2]⟩]⟩
    let r : Region ℚ ℚ := (Region.create 0 "device" "region" mesh {}).run
      [.addEquation "other" "w", .addEquation "flow" "v", .setUniform .node "NodeVolume" 2,
        .setUniform .edge "EdgeCouple" 3, .setData .edge "EdgeNodeVolume" (.vector #[1, 2, 3]),
        .setUniform .triangleEdge "ElementEdgeCouple" 5,
        .setUniform .triangleEdge "ElementNodeVolume" 7, .setData .node "v" (.vector #[1, 4, 9]),
        .declare .edge "F" ∅ (.model "v@n1"), .setUniform .triangleEdge "G" 1,
        .setData .triangleEdge "H" (.vector #[1, 10, 100])]
    let e : BulkEquation ℚ := { name := "flow", variableName := "v", models :=
      { node := "v", edge := "F", edgeVolume := "F", element := "G", volumeNode0 := "G",
        volumeNode1 := "H" } }
    ∃ s' records, e.assemble {} .residual .steady { owner := r } = (.ok (), s') ∧
      s'.out = records ∧ records.residualAt 4 = 751 := by
  intro mesh r e
  have built : Mesh.triangles mesh.points [[0, 1, 2]] = .ok mesh := rfl
  have ready : r.Ready := ((Region.Settled.create ..).run _).ready
  have wellFormed : r.mesh.WellFormed := by
    rw [(Region.follows_run ..).mesh]
    exact Mesh.wellFormed_ofElements built
  have slot : r.firstRow? e.name = some 3 := by decide +kernel
  have readable : ∀ key ∈ e.models.reads {} r.mesh.elementDomain,
      (r.read key.1 key.2).1.toOption.isSome := by decide +kernel
  have inside : 1 < r.nodeCount := by decide +kernel
  have sum : e.models.balance {} r 1 = 751 := by decide +kernel
  clear_value r
  obtain ⟨s', records, ran, out, -, -, balance⟩ :=
    e.residual_eq_balance {} (s := { owner := r }) ready wellFormed slot fun key member => by
      have found := readable key member
      cases read : (r.read key.1 key.2).1 with
      | ok data => exact ⟨data, rfl⟩
      | error e => rw [read] at found; cases found
  exact ⟨s', records, ran, by simpa using out, by rw [← sum, ← balance 1 inside]⟩

end FiniteVolume
