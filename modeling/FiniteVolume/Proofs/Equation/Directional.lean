import FiniteVolume.Proofs.Assembly.Sums
import FiniteVolume.Proofs.Equation.Terms

/-!
The matrix of an equation of one region, as the derivative of its residual.

A matrix pass reads the derivatives of the models of an equation. Put those together in a direction,
and the models become directional models (`Region.Directed`); the matrix applied to the direction is,
row by row, the residual of the same equation over the directional models.
-/
namespace FiniteVolume

open Finset

variable {β α : Type}

/-! ## Models under other names -/

/-- The term with its model under another name. -/
def Integrand.rename (f : String → String) : Integrand → Integrand
  | node model => node (f model)
  | flux g => flux { g with model := f g.model }

def BulkModels.rename (f : String → String) (m : BulkModels) : BulkModels where
  node := m.node.map f
  edge := m.edge.map f
  edgeVolume := m.edgeVolume.map f
  element := m.element.map f
  volumeNode0 := m.volumeNode0.map f
  volumeNode1 := m.volumeNode1.map f
  timeNode := m.timeNode.map f

def CircuitModels.rename (f : String → String) (m : CircuitModels) : CircuitModels where
  node := m.node.map f
  edge := m.edge.map f
  element := m.element.map f

def ContactModels.rename (f : String → String) (m : ContactModels) : ContactModels where
  node := m.node.map f
  edge := m.edge.map f
  edgeVolume := m.edgeVolume.map f
  element := m.element.map f
  volumeNode0 := m.volumeNode0.map f
  volumeNode1 := m.volumeNode1.map f
  current := m.current.rename f
  charge := m.charge.rename f

section

variable [BaseScalar β]

def BulkEquation.rename (f : String → String) (e : BulkEquation β) : BulkEquation β :=
  { e with models := e.models.rename f }

def ContactEquation.rename (f : String → String) (e : ContactEquation β) : ContactEquation β :=
  { e with models := e.models.rename f }

end

namespace Integrand

variable {f : String → String} (i : Integrand)

@[simp] theorem domain_rename : (i.rename f).domain = i.domain := by cases i <;> rfl

@[simp] theorem model_rename : (i.rename f).model = f i.model := by cases i <;> rfl

@[simp] theorem measure_rename (measures : MeasureNames) :
    (i.rename f).measure measures = i.measure measures := by cases i <;> rfl

variable [Scalar α] [ExactScalar α]

omit [ExactScalar α] in
@[simp] theorem share_rename (mesh : Mesh β) (rows : Rows) (row k : Nat) :
    ((i.rename f).share mesh rows row k : α) = i.share mesh rows row k := by cases i <;> rfl

end Integrand

/-! ## Directional models -/

/-- The second region has the directional models of terms under new names, on the same mesh and with
the same rows and measures. -/
structure Region.Directed [Scalar α] [ExactScalar α] (r r' : Region β α) (measures : MeasureNames)
    (x : Nat → α) (circuit : Option CircuitColumn) (f : String → String) (terms : List Integrand) :
    Prop where
  mesh : r'.mesh = r.mesh
  firstRow? : r'.firstRow? = r.firstRow?
  measured : ∀ i ∈ terms, r'.values i.domain (i.measure measures) = r.values i.domain (i.measure measures)
  directed : ∀ i ∈ terms, ∀ k < r.size i.domain,
    r'.valueAt i.domain (f i.model) k = i.direction r x circuit k

/-! ## Shares -/

section

variable [Scalar α] [ExactScalar α]

/-- Values that are added up end by end. -/
def Integrand.Additive (h : Integrand → α) : Prop := ∀ model domain measure,
  h (.flux ⟨model, domain, measure, .shared⟩) =
    h (.flux ⟨model, domain, measure, .firstOnly⟩) + h (.flux ⟨model, domain, measure, .secondOnly⟩)

variable {h : Integrand → α} (additive : Integrand.Additive h)

include additive

theorem Flux.sum_overShares (d : Domain) (model0 model1 : Option String) (measure0 measure1 : String) :
    ((overShares d model0 model1 measure0 measure1).map (h <| .flux ·)).sum =
      model0.elim 0 (fun m => h (.flux ⟨m, d, measure0, .firstOnly⟩))
        + model1.elim 0 (fun m => h (.flux ⟨m, d, measure1, .secondOnly⟩)) := by
  unfold overShares
  split
  next same =>
    obtain ⟨set, rfl, rfl⟩ := same
    obtain ⟨model, rfl⟩ := Option.isSome_iff_exists.mp set
    simpa using additive model d measure0
  · cases model0 <;> cases model1 <;> simp

variable (f : String → String)

theorem Flux.sum_overShares_rename (d : Domain) (model0 model1 : Option String)
    (measure0 measure1 : String) :
    ((overShares d (model0.map f) (model1.map f) measure0 measure1).map (h <| .flux ·)).sum =
      ((overShares d model0 model1 measure0 measure1).map
        fun g => h (Integrand.rename f (.flux g))).sum := by
  have renamed : Integrand.Additive fun i => h (i.rename f) :=
    fun model domain measure => additive (f model) domain measure
  rw [sum_overShares additive, sum_overShares renamed]
  cases model0 <;> cases model1 <;> rfl

variable {measures : MeasureNames} {elements : Option Domain} {time : TimeMode}

theorem sum_edge_rename (edge edgeVolume : Option String) :
    (((edge.map f).toList.map measures.edgeFlux
        ++ (edgeVolume.map f).toList.flatMap measures.edgeShares).map (h <| .flux ·)).sum =
      ((edge.toList.map measures.edgeFlux ++ edgeVolume.toList.flatMap measures.edgeShares).map
        fun g => h (Integrand.rename f (.flux g))).sum := by
  have shares : (((edgeVolume.map f).toList.flatMap measures.edgeShares).map (h <| .flux ·)).sum =
      ((edgeVolume.toList.flatMap measures.edgeShares).map
        fun g => h (Integrand.rename f (.flux g))).sum := by
    cases edgeVolume with
    | none => rfl
    | some model =>
      simpa [MeasureNames.edgeShares] using Flux.sum_overShares_rename additive f .edge (some model)
        (some model) measures.edgeNode0Volume measures.edgeNode1Volume
  rw [List.map_append, List.sum_append, List.map_append, List.sum_append, shares]
  cases edge <;> rfl

theorem sum_element_rename (element volumeNode0 volumeNode1 : Option String) :
    ((elements.toList.flatMap fun d => (element.map f).toList.map (measures.elementFlux d)
        ++ measures.elementShares d (volumeNode0.map f) (volumeNode1.map f)).map
          (h <| .flux ·)).sum =
      ((elements.toList.flatMap fun d => element.toList.map (measures.elementFlux d)
        ++ measures.elementShares d volumeNode0 volumeNode1).map
          fun g => h (Integrand.rename f (.flux g))).sum := by
  cases elements with
  | none => rfl
  | some d =>
    simp only [Option.toList_some, List.flatMap_singleton, List.map_append, List.sum_append,
      MeasureNames.elementShares, Flux.sum_overShares_rename additive]
    cases element <;> rfl

omit [ExactScalar α] additive in
theorem sum_node_rename (model : Option String) :
    ((model.map f).toList.map fun m => h (.node m)).sum =
      (model.toList.map fun m => h (Integrand.rename f (.node m))).sum := by
  cases model <;> rfl

theorem BulkModels.sum_rename (m : BulkModels) :
    (((m.rename f).integrands measures elements time).map h).sum =
      ((m.integrands measures elements time).map fun i => h (i.rename f)).sum := by
  cases time with
  | transient => simpa [integrands, rename, Function.comp_def] using sum_node_rename f m.timeNode
  | steady =>
    simp only [integrands, List.map_append, List.map_map, Function.comp_def, List.sum_append]
    exact congrArg₂ (· + ·) (congrArg₂ (· + ·) (sum_edge_rename additive f m.edge m.edgeVolume)
      (sum_node_rename f m.node))
      (sum_element_rename additive f m.element m.volumeNode0 m.volumeNode1)

theorem ContactModels.sum_rename (m : ContactModels) :
    (((m.rename f).integrands measures elements time).map h).sum =
      ((m.integrands measures elements time).map fun i => h (i.rename f)).sum := by
  cases time with
  | transient => rfl
  | steady =>
    simp only [integrands, List.map_append, List.map_map, Function.comp_def, List.sum_append]
    exact congrArg₂ (· + ·) (congrArg₂ (· + ·) (sum_node_rename f m.node)
      (sum_edge_rename additive f m.edge m.edgeVolume))
      (sum_element_rename additive f m.element m.volumeNode0 m.volumeNode1)

omit additive in
theorem CircuitModels.integrands_rename (m : CircuitModels) :
    (m.rename f).integrands measures elements =
      (m.integrands measures elements).map (Integrand.rename f) := by
  simp [integrands, fluxes, rename, Option.toList_map, List.map_flatMap, Function.comp_def,
    Integrand.rename, MeasureNames.edgeFlux, MeasureNames.elementFlux]

end

/-! ## Terms -/

section

variable [Scalar α] [ExactScalar α] {r r' r₀ r₀' : Region β α} {measures : MeasureNames}
  {x : Nat → α} {circuit : Option CircuitColumn} {f : String → String} {terms : List Integrand}

namespace Integrand

variable (rows : Rows) (row : Nat)

/-- The matrix of a term on a row, applied to numbers for the columns. -/
def linear (measures : MeasureNames) (x : Nat → α) (circuit : Option CircuitColumn) (r : Region β α)
    (i : Integrand) : α :=
  (i.records rows r (r.values i.domain (i.measure measures)) circuit .matrix).matrixAt x row

def residualOn (measures : MeasureNames) (circuit : Option CircuitColumn) (r : Region β α)
    (i : Integrand) : α :=
  (i.records rows r (r.values i.domain (i.measure measures)) circuit .residual).residualAt row

variable {rows row} {count : Nat} (i : Integrand)

theorem linear_eq_sum (covers : (r.values i.domain (i.measure measures)).size ≤ count) :
    i.linear rows row measures x circuit r = ∑ k ∈ range count, i.share r.mesh rows row k *
      (r.valueAt i.domain (i.measure measures) k * i.direction r x circuit k) :=
  i.matrixAt_eq (r := r) covers

theorem residualOn_eq_sum (covers : (r.values i.domain (i.measure measures)).size ≤ count) :
    i.residualOn rows row measures circuit r = ∑ k ∈ range count, i.share r.mesh rows row k *
      (r.valueAt i.domain (i.measure measures) k * r.valueAt i.domain i.model k) :=
  i.residualAt_eq (r := r) covers

theorem additive_residualOn : Additive (residualOn rows row measures circuit r) := by
  intro model domain measure
  rw [residualOn_eq_sum _ (Nat.le_refl _), residualOn_eq_sum _ (Nat.le_refl _),
    residualOn_eq_sum _ (Nat.le_refl _)]
  refine Eq.trans ?_ Finset.sum_add_distrib
  refine Finset.sum_congr rfl fun k _ => ?_
  simp only [share, EndWeights.weight, EndWeights.factor?, Option.getD_some, Option.getD_none, cornersOf,
    Integrand.domain, Integrand.model, Integrand.measure]
  ring

omit [ExactScalar α] in
theorem direction_of_reading (reading : Region.Reading r₀ r) (ready : r₀.Ready) (k : Nat) :
    i.direction r x circuit k = i.direction r₀ x circuit k := by
  have same := reading.balanced.declared
  have values := reading.values_eq ready
  have mesh : r.mesh = r₀.mesh := Region.eq_of_uncached_eq (f := Region.mesh) (fun _ => rfl) same
  have names : r.variableNames = r₀.variableNames :=
    Region.eq_of_uncached_eq (f := Region.variableNames) (fun _ => rfl) same
  have columns : r.firstColumn = r₀.firstColumn :=
    Region.eq_of_uncached_eq (f := Region.firstColumn) (fun _ => rfl) same
  simp only [direction, Region.valueAt, values, mesh, names, columns]

end Integrand

namespace Region.Directed

variable (directed : Directed r r' measures x circuit f terms)

include directed

/-- Term by term, the matrix applied to the direction is the residual with the directional model. -/
theorem linear_eq (sized : ∀ d name, (r.values d name).size ≤ r.size d) {i : Integrand}
    (member : i ∈ terms) (rows : Rows) (row : Nat) :
    i.linear rows row measures x circuit r = (i.rename f).residualOn rows row measures circuit r' := by
  have measured := directed.measured i member
  have covers := sized i.domain (i.measure measures)
  have covers' : (r'.values (i.rename f).domain ((i.rename f).measure measures)).size ≤
      r.size i.domain := by simpa [measured] using covers
  rw [i.linear_eq_sum covers, (i.rename f).residualOn_eq_sum covers']
  refine Finset.sum_congr rfl fun k below => ?_
  rw [Integrand.share_rename, Integrand.domain_rename, Integrand.measure_rename,
    Integrand.model_rename, directed.mesh, directed.directed i member k (Finset.mem_range.mp below)]
  simp only [valueAt, measured]

/-- Passes that only read keep the directional models. -/
theorem of_later (ready : r.Ready) (ready' : r'.Ready) (later : Owner.Later r r₀)
    (later' : Owner.Later r' r₀') : Directed r₀ r₀' measures x circuit f terms where
  mesh := by rw [← Term.mesh_of_later later', directed.mesh, Term.mesh_of_later later]
  firstRow? := by
    rw [← Term.firstRow?_of_later later', directed.firstRow?, Term.firstRow?_of_later later]
  measured i member := by
    rw [(later'.reading r' ready' ready'.reading).values_eq ready',
      (later.reading r ready ready.reading).values_eq ready, directed.measured i member]
  directed i member k below := by
    have reading := later.reading r ready ready.reading
    rw [size_of_uncached_eq reading.balanced.declared] at below
    rw [valueAt, (later'.reading r' ready' ready'.reading).values_eq ready',
      i.direction_of_reading reading ready, ← directed.directed i member k below, valueAt]

end Region.Directed

theorem Integrand.matrixAt_assembled (terms : List (Rows × Integrand)) (row : Nat) :
    (assembled measures circuit .matrix terms r).matrixAt x row =
      (terms.map fun (rows, i) => i.linear rows row measures x circuit r).sum := by
  rw [assembled, Records.matrixAt_join, List.map_map]
  rfl

theorem Integrand.residualAt_assembled (terms : List (Rows × Integrand)) (row : Nat) :
    (assembled measures circuit .residual terms r).residualAt row =
      (terms.map fun (rows, i) => i.residualOn rows row measures circuit r).sum := by
  rw [assembled, Records.residualAt_join, List.map_map]
  rfl

end

/-! ## Passes -/

section

variable [BaseScalar β] [Scalar α] [ExactScalar α] {f : String → String} {x : Nat → α}
  {settings : Settings β} {time : TimeMode} {s s' t t' : PassState (Region β α) α}

/-- What two passes append: on every row, the matrix of the first applied to numbers for the columns is
the residual of the second. -/
def Linearises {σ τ : Type} (x : Nat → α) (s s' : PassState σ α) (t t' : PassState τ α) : Prop :=
  ∃ m r : Records α, s'.out = s.out.append m ∧ t'.out = t.out.append r ∧
    ∀ row, m.matrixAt x row = r.residualAt row

omit [BaseScalar β] [ExactScalar α] in
/-- Values that a pass leaves cover the domain. -/
theorem Region.Ready.sized_of_later {r r' : Region β α} (ready : r.Ready)
    (later : Owner.Later r r') (d : Domain) (name : String) :
    (r'.values d name).size ≤ r'.size d := by
  have reading := later.reading r ready ready.reading
  rw [Region.size_of_uncached_eq reading.balanced.declared, reading.values_eq ready]
  exact ready.size_values_le d name

theorem BulkEquation.linearises (e : BulkEquation β) (ready : s.owner.Ready) (ready' : t.owner.Ready)
    (directed : s.owner.Directed t.owner settings.measures x none f
      (e.models.integrands settings.measures s.owner.mesh.elementDomain time))
    (matrix : e.assemble settings .matrix time s = (.ok (), s'))
    (residual : (e.rename f).assemble settings .residual time t = (.ok (), t')) :
    Linearises x s s' t t' := by
  obtain ⟨later, _, out, start, slot, rfl⟩ := (e.writes_assemble (by simp)).appended matrix
  obtain ⟨later', _, out', start', slot', rfl⟩ :=
    ((e.rename f).writes_assemble (by simp)).appended residual
  have directed := directed.of_later ready ready' later later'
  obtain rfl : start' = start := by
    rw [directed.firstRow?] at slot'
    exact Option.some.inj (slot'.symm.trans slot)
  refine ⟨_, _, out, out', fun row => ?_⟩
  rw [Integrand.matrixAt_assembled, Integrand.residualAt_assembled, terms, terms, List.map_map,
    List.map_map, directed.mesh, ← Term.mesh_of_later later]
  have additive : Integrand.Additive
      (Integrand.residualOn (.block start') row settings.measures none t'.owner) :=
    Integrand.additive_residualOn
  refine Eq.trans ?_ (e.models.sum_rename additive f).symm
  exact congrArg List.sum (List.map_congr_left fun i member =>
    directed.linear_eq (ready.sized_of_later later) member _ _)

namespace ContactEquation

omit [ExactScalar α] [Scalar α] in
theorem circuit_rename (m : ContactModels) :
    (m.rename f).circuit time = (m.circuit time).rename f := by cases time <;> rfl

theorem linearises (e : ContactEquation β) {mask : Array Bool} {circuit : Circuit β}
    (ready : s.owner.Ready) (ready' : t.owner.Ready)
    (directed : s.owner.Directed t.owner settings.measures x (e.column? circuit) f
      (e.integrands settings.measures s.owner.mesh.elementDomain time (e.column? circuit)))
    (matrix : e.assemble mask circuit settings .matrix time s = (.ok (), s'))
    (residual : (e.rename f).assemble mask circuit settings .residual time t = (.ok (), t')) :
    Linearises x s s' t t' := by
  obtain ⟨later, _, out, start, slot, rfl⟩ := (e.writes_assemble (by simp)).appended matrix
  obtain ⟨later', _, out', start', slot', rfl⟩ :=
    ((e.rename f).writes_assemble (by simp)).appended residual
  have directed := directed.of_later ready ready' later later'
  have sized := ready.sized_of_later later
  obtain rfl : start' = start := by
    rw [directed.firstRow?] at slot'
    exact Option.some.inj (slot'.symm.trans slot)
  refine ⟨_, _, out, out', fun row => ?_⟩
  have additive : Integrand.Additive (Integrand.residualOn (.nodes start' mask) row settings.measures
      (e.column? circuit) t'.owner) := Integrand.additive_residualOn
  rw [Integrand.matrixAt_assembled, Integrand.residualAt_assembled, terms, terms, directed.mesh,
    ← Term.mesh_of_later later]
  simp only [List.map_append, List.sum_append, List.map_map, Function.comp_def, List.map_flatMap]
  refine congrArg₂ (· + ·) (Eq.trans ?_ (e.models.sum_rename additive f).symm) ?_
  · refine congrArg List.sum (List.map_congr_left fun i member => ?_)
    exact directed.linear_eq sized (List.mem_append_left _ member) _ _
  · change _ = (((e.column? circuit).toList.flatMap fun c => List.map _
      (((e.models.rename f).circuit time).integrands _ _)).sum : α)
    rw [circuit_rename, CircuitModels.integrands_rename]
    simp only [List.map_map, Function.comp_def]
    refine congrArg List.sum (List.flatMap_congr fun c column => List.map_congr_left fun i member => ?_)
    refine directed.linear_eq sized (List.mem_append_right _ ?_) _ _
    exact List.mem_flatMap.mpr ⟨c, column, member⟩

end ContactEquation

end

end FiniteVolume
