import FiniteVolume.Proofs.Device.Numbering
import FiniteVolume.Proofs.Equation.Terms

/-!
Passes over a region that succeed.

A term reads its measure, its model and, for the matrix, the derivatives of the model
(`Integrand.reads`). If all of these that are declared can be read, and a model that is missing does not
end a pass (`Region.Serves`), then every numeric pass of an equation with a slot succeeds.
-/
namespace FiniteVolume

variable {β α : Type}

/-! ## What is read -/

/-- The models that a term reads in a pass: its measure, for the residual its model, and for the matrix
the derivatives with respect to the solution variables and the circuit node. -/
def Integrand.reads (measures : MeasureNames) (select : Selector) (unknowns : List String)
    (circuit : Option CircuitColumn) (i : Integrand) : List (Domain × String) :=
  ([i.measure measures] ++ (if select.wantsResidual then [i.model] else [])
    ++ if select.wantsMatrix then unknowns.flatMap i.derivativeNames
        ++ circuit.toList.map (derivativeName i.model ·.name) else []).map (i.domain, ·)

namespace Integrand

variable (i : Integrand) {measures : MeasureNames} {select : Selector} {unknowns : List String}
  {circuit : Option CircuitColumn}

theorem measure_mem_reads :
    (i.domain, i.measure measures) ∈ i.reads measures select unknowns circuit := by simp [reads]

theorem model_mem_reads (wanted : select.wantsResidual = true) :
    (i.domain, i.model) ∈ i.reads measures select unknowns circuit := by simp [reads, wanted]

theorem derivative_mem_reads (wanted : select.wantsMatrix = true) {v name : String}
    (solved : v ∈ unknowns) (derivative : name ∈ i.derivativeNames v) :
    (i.domain, name) ∈ i.reads measures select unknowns circuit := by
  simp only [reads, wanted, if_true, List.map_append, List.mem_append, List.mem_map]
  exact .inr (.inl ⟨name, List.mem_flatMap.mpr ⟨v, solved, derivative⟩, rfl⟩)

theorem circuitDerivative_mem_reads (wanted : select.wantsMatrix = true) {c : CircuitColumn}
    (here : c ∈ circuit.toList) :
    (i.domain, derivativeName i.model c.name) ∈ i.reads measures select unknowns circuit := by
  simp only [reads, wanted, if_true, List.map_append, List.mem_append, List.mem_map]
  exact .inr (.inr ⟨_, ⟨c, here, rfl⟩, rfl⟩)

end Integrand

/-- Declared models can be read, and a missing one does not end a pass. -/
structure Region.Serves [BaseScalar β] [Scalar α] (r : Region β α) (settings : Settings β)
    (key : Domain × String) : Prop where
  readable : r.models.contains key.1 key.2 = true → ∃ data, (r.read key.1 key.2).1 = .ok data
  tolerated : r.models.contains key.1 key.2 = false → ¬Severity.fatal ≤ settings.missingModel

variable [BaseScalar β] [Scalar α] {r₀ : Region β α}

theorem Region.Serves.of_read {settings : Settings β} {key : Domain × String} {data : Field α}
    (ran : (r₀.read key.1 key.2).1 = .ok data) : r₀.Serves settings key where
  readable _ := ⟨data, ran⟩
  tolerated missing := by
    rw [contains_of_read ran] at missing
    cases missing

/-! ## Steps of terms -/

namespace Term

open Pass

/-- What a search for a model may come to: values for the whole domain, or none where this does not end
a pass. -/
structure Found (r₀ : Region β α) (settings : Settings β) (d : Domain) (found : Option (Field α)) :
    Prop where
  covers : ∀ data, found = some data → data.size = r₀.size d
  tolerated : found = none → ¬Severity.fatal ≤ settings.missingModel

variable {site : Site β} {d : Domain} {name : String}

theorem succeeds_missing {severity : Severity} (tolerated : ¬Severity.fatal ≤ severity) :
    Succeeds r₀.Reading (missing site d name severity : RegionPass β α Unit) fun _ => True := by
  unfold missing
  refine (Succeeds.report ..).bind fun _ _ => ?_
  rw [if_neg tolerated]
  exact .pure trivial

theorem succeeds_weighted {measure values : Field α} (fits : measure.size = values.size) :
    Succeeds r₀.Reading (weighted site measure values name : RegionPass β α (Array α))
      fun _ => True := by
  obtain ⟨product, multiplied⟩ := Field.zipWith_of_size_eq site.settings.chunking (· * ·) fits
  unfold weighted
  rw [Field.mul, multiplied]
  exact .pure trivial

omit [BaseScalar β] in
theorem succeeds_spread {f : Flux} {rows : Rows} {values : Array α} :
    Succeeds r₀.Reading (spread f rows values : RegionPass β α (List (Contribution α)))
      fun _ => True :=
  Succeeds.get.bind fun _ _ => .pure trivial

theorem succeeds_firstColumn {v : String} (solved : v ∈ r₀.variableNames) :
    Succeeds r₀.Reading (firstColumn site v : RegionPass β α Nat) fun _ => True := by
  obtain ⟨equation, start, solves, slot⟩ := Region.exists_firstRow?_of_mem_variableNames solved
  refine Succeeds.get.bind fun s reading => ?_
  have equations : s.owner.equationFor? = r₀.equationFor? :=
    Region.eq_of_uncached_eq (f := Region.equationFor?) (fun _ => rfl) reading.balanced.declared
  have rows : s.owner.firstRow? = r₀.firstRow? :=
    Region.eq_of_uncached_eq (f := Region.firstRow?) (fun _ => rfl) reading.balanced.declared
  dsimp only
  rw [equations, solves, Option.bind_some, rows, slot]
  exact .pure trivial

variable (ready : r₀.Ready)

include ready

theorem succeeds_fetch {data : Field α} (readable : (r₀.read d name).1 = .ok data) :
    Succeeds r₀.Reading (fetch site d name : RegionPass β α (Field α)) (· = data) := by
  refine ⟨fun s reading => ⟨data, (fetch site d name s).2, ?_, (reading.read ready d name).takeNotes,
    rfl⟩⟩
  have returned : (fetch site d name s).1 = .ok data := by
    change (s.owner.read d name).1.mapError _ = _
    rw [(reading.read_eq_ok_iff ready).mpr readable]
    rfl
  exact Prod.ext returned rfl

theorem succeeds_optional (serves : r₀.Serves site.settings (d, name)) :
    Succeeds r₀.Reading (Term.optional site d name : RegionPass β α (Option (Field α)))
      (Found r₀ site.settings d) := by
  refine Succeeds.get.bind fun s reading => ?_
  rw [Region.contains_of_uncached_eq reading.balanced.declared]
  split
  next present =>
    obtain ⟨data, readable⟩ := serves.readable present
    refine (succeeds_fetch ready readable).bind fun found same => .pure ⟨fun data' here => ?_, nofun⟩
    obtain rfl : data = data' := same.symm.trans (Option.some.inj here)
    exact ready.reading.size_of_read ready readable
  next absent => exact .pure ⟨nofun, fun _ => serves.tolerated (Bool.eq_false_iff.mpr absent)⟩

theorem succeeds_required (serves : r₀.Serves site.settings (d, name)) :
    Succeeds r₀.Reading (required site d name : RegionPass β α (Option (Field α)))
      (Found r₀ site.settings d) := by
  refine (succeeds_optional ready serves).bind fun found here => ?_
  cases found with
  | some data => exact .pure here
  | none => exact (succeeds_missing (here.tolerated rfl)).bind fun _ _ => .pure here

/-! ## Matrix entries -/

section

variable {rows : Rows} {v : String} {c : CircuitColumn}

theorem succeeds_nodeDerivative {volume : Field α} (sized : volume.size = r₀.size .node)
    {model : String} (solved : v ∈ r₀.variableNames)
    (serves : r₀.Serves site.settings (.node, derivativeName model v)) :
    Succeeds r₀.Reading (nodeDerivative site rows volume model v : RegionPass β α Unit)
      fun _ => True := by
  refine (succeeds_optional ready serves).bind fun found here => ?_
  cases found with
  | none => exact succeeds_missing (by decide)
  | some d =>
    refine (succeeds_firstColumn solved).bind fun start _ => ?_
    refine (succeeds_weighted (sized.trans (here.covers d rfl).symm)).bind fun w _ => ?_
    exact .addMatrix _

theorem succeeds_nodeCircuit {volume : Field α} (sized : volume.size = r₀.size .node)
    {model : String} (serves : r₀.Serves site.settings (.node, derivativeName model c.name)) :
    Succeeds r₀.Reading (nodeCircuit site rows volume model c : RegionPass β α Unit)
      fun _ => True := by
  refine (succeeds_optional ready serves).bind fun found here => ?_
  cases found with
  | none => exact .pure trivial
  | some d =>
    refine (succeeds_weighted (sized.trans (here.covers d rfl).symm)).bind fun w _ => ?_
    exact .addMatrix _

variable {f : Flux} {measure : Field α} (sized : measure.size = r₀.size f.domain)

include sized

theorem succeeds_fluxDerivative (solved : v ∈ r₀.variableNames)
    (serves : ∀ name ∈ (Integrand.flux f).derivativeNames v,
      r₀.Serves site.settings (f.domain, name)) :
    Succeeds r₀.Reading (fluxDerivative site rows measure f v : RegionPass β α Unit)
      fun _ => True := by
  refine (Succeeds.mapM fun name member => succeeds_optional ready (serves name member)).bind
    fun derivatives all => ?_
  split
  · exact succeeds_missing (by decide)
  · refine (Succeeds.forM fun x member => ?_).bind fun _ _ =>
      (succeeds_firstColumn solved).bind fun start _ => Succeeds.forM fun x member => ?_
    · obtain ⟨name, d⟩ := x
      have here := all d (List.of_mem_zip member).2
      cases d with
      | none => exact succeeds_missing (here.tolerated rfl)
      | some d => exact .pure trivial
    · have here := all x.1.2 (List.of_mem_zip (List.fst_mem_of_mem_zipIdx member)).2
      obtain ⟨⟨name, d⟩, corner⟩ := x
      cases d with
      | none => exact .pure trivial
      | some d =>
        refine (succeeds_weighted (sized.trans (here.covers d rfl).symm)).bind fun w _ => ?_
        exact succeeds_spread.bind fun c _ => .addMatrix _

theorem succeeds_fluxCircuit
    (serves : r₀.Serves site.settings (f.domain, derivativeName f.model c.name)) :
    Succeeds r₀.Reading (fluxCircuit site rows measure f c : RegionPass β α Unit) fun _ => True := by
  refine (succeeds_optional ready serves).bind fun found here => ?_
  cases found with
  | none => exact succeeds_missing (by decide)
  | some d =>
    refine (succeeds_weighted (sized.trans (here.covers d rfl).symm)).bind fun w _ => ?_
    exact succeeds_spread.bind fun c _ => .addMatrix _

end

/-! ## Terms -/

section

variable {rows : Rows} {circuit : Option CircuitColumn} {select : Selector}

omit [BaseScalar β] ready in
/-- The matrix of a term, from its entries for one solution variable and one circuit node. -/
theorem succeeds_matrix (circuit : Option CircuitColumn) (select : Selector)
    {variableEntries : String → RegionPass β α Unit}
    {circuitEntries : CircuitColumn → RegionPass β α Unit}
    (byVariable : select.wantsMatrix = true → ∀ v ∈ r₀.variableNames,
      Succeeds r₀.Reading (variableEntries v) fun _ => True)
    (byCircuit : select.wantsMatrix = true → ∀ c ∈ circuit.toList,
      Succeeds r₀.Reading (circuitEntries c) fun _ => True) :
    Succeeds r₀.Reading (if select.wantsMatrix then do
        (← get).owner.variableNames.forM variableEntries
        circuit.toList.forM circuitEntries
      else return : RegionPass β α Unit) fun _ => True := by
  split
  next wanted =>
    refine Succeeds.get.bind fun s reading => ?_
    have names : s.owner.variableNames = r₀.variableNames :=
      Region.eq_of_uncached_eq (f := Region.variableNames) (fun _ => rfl) reading.balanced.declared
    rw [names]
    exact (Succeeds.forM (byVariable wanted)).bind fun _ _ => .forM (byCircuit wanted)
  · exact .pure trivial

theorem succeeds_node {model : String}
    (serves : ∀ key ∈ (Integrand.node model).reads site.settings.measures select r₀.variableNames
      circuit, r₀.Serves site.settings key) :
    Succeeds r₀.Reading (node site rows circuit select model : RegionPass β α Unit)
      fun _ => True := by
  refine (succeeds_required ready (serves _ (Integrand.measure_mem_reads _))).bind
    fun found here => ?_
  cases found with
  | none => exact .pure trivial
  | some volume =>
    have sized := here.covers volume rfl
    have byVariable : select.wantsMatrix = true → ∀ v ∈ r₀.variableNames, Succeeds r₀.Reading
        (nodeDerivative site rows volume model v : RegionPass β α Unit) fun _ => True := by
      intro wanted v solved
      refine succeeds_nodeDerivative ready sized solved (serves _ ?_)
      exact Integrand.derivative_mem_reads _ wanted solved (by simp [Integrand.derivativeNames])
    have byCircuit : select.wantsMatrix = true → ∀ c ∈ circuit.toList, Succeeds r₀.Reading
        (nodeCircuit site rows volume model c : RegionPass β α Unit) fun _ => True :=
      fun wanted c here => succeeds_nodeCircuit ready sized
        (serves _ (Integrand.circuitDerivative_mem_reads _ wanted here))
    have matrix := succeeds_matrix circuit select byVariable byCircuit
    dsimp only
    split
    next wanted =>
      refine (succeeds_required ready (serves _ (Integrand.model_mem_reads _ wanted))).bind
        fun found here => ?_
      cases found with
      | none => exact matrix
      | some values =>
        refine (succeeds_weighted (sized.trans (here.covers values rfl).symm)).bind fun w _ => ?_
        exact (Succeeds.addResidual _).bind fun _ _ => matrix
    · exact matrix

theorem succeeds_flux {f : Flux}
    (serves : ∀ key ∈ (Integrand.flux f).reads site.settings.measures select r₀.variableNames
      circuit, r₀.Serves site.settings key) :
    Succeeds r₀.Reading (flux site rows circuit select f : RegionPass β α Unit) fun _ => True := by
  refine (succeeds_required ready (serves _ (Integrand.measure_mem_reads _))).bind
    fun found here => ?_
  cases found with
  | none => exact .pure trivial
  | some measure =>
    have sized := here.covers measure rfl
    have byVariable : select.wantsMatrix = true → ∀ v ∈ r₀.variableNames, Succeeds r₀.Reading
        (fluxDerivative site rows measure f v : RegionPass β α Unit) fun _ => True :=
      fun wanted v solved => succeeds_fluxDerivative ready sized solved
        fun name derivative => serves _ (Integrand.derivative_mem_reads _ wanted solved derivative)
    have byCircuit : select.wantsMatrix = true → ∀ c ∈ circuit.toList, Succeeds r₀.Reading
        (fluxCircuit site rows measure f c : RegionPass β α Unit) fun _ => True :=
      fun wanted c here => succeeds_fluxCircuit ready sized
        (serves _ (Integrand.circuitDerivative_mem_reads _ wanted here))
    have matrix := succeeds_matrix circuit select byVariable byCircuit
    dsimp only
    split
    next wanted =>
      refine (succeeds_required ready (serves _ (Integrand.model_mem_reads _ wanted))).bind
        fun found here => ?_
      cases found with
      | none => exact matrix
      | some values =>
        refine (succeeds_weighted (sized.trans (here.covers values rfl).symm)).bind fun w _ => ?_
        exact succeeds_spread.bind fun c _ => (Succeeds.addResidual _).bind fun _ _ => matrix
    · exact matrix

end

end Term

/-! ## Equations -/

section

variable {measures : MeasureNames} {site : Site β} {settings : Settings β} {rows : Rows}
  {circuit : Option CircuitColumn} {select : Selector} {time : TimeMode}

/-- The models that terms read in a pass over the region. -/
def Region.readsOf (r : Region β α) (measures : MeasureNames) (select : Selector)
    (circuit : Option CircuitColumn) (terms : List Integrand) : List (Domain × String) :=
  terms.flatMap (·.reads measures select r.variableNames circuit)

/-- What terms read does not end a pass. -/
def Region.ServesAll (r : Region β α) (settings : Settings β) (select : Selector)
    (circuit : Option CircuitColumn) (terms : List Integrand) : Prop :=
  ∀ key ∈ r.readsOf settings.measures select circuit terms, r.Serves settings key

omit [BaseScalar β] [Scalar α] in
theorem Region.mem_readsOf {terms : List Integrand} {i : Integrand} (member : i ∈ terms)
    {key : Domain × String} (inReads : key ∈ i.reads measures select r₀.variableNames circuit) :
    key ∈ r₀.readsOf measures select circuit terms := List.mem_flatMap.mpr ⟨i, member, inReads⟩

theorem Region.ServesAll.of_append {terms rest : List Integrand}
    (serves : r₀.ServesAll settings select circuit (terms ++ rest)) :
    r₀.ServesAll settings select circuit terms ∧ r₀.ServesAll settings select circuit rest := by
  rw [ServesAll, readsOf, List.flatMap_append] at serves
  exact List.forall_mem_append.mp serves

variable (ready : r₀.Ready)

include ready

theorem Term.succeeds_nodes {models : List String}
    (serves : r₀.ServesAll site.settings select circuit (models.map .node)) :
    Pass.Succeeds r₀.Reading (models.forM (Term.node site rows circuit select) : RegionPass β α Unit)
      fun _ => True :=
  .forM fun _ member => succeeds_node ready fun key inReads =>
    serves key (Region.mem_readsOf (List.mem_map_of_mem member) inReads)

theorem Term.succeeds_fluxes {fluxes : List Flux}
    (serves : r₀.ServesAll site.settings select circuit (fluxes.map .flux)) :
    Pass.Succeeds r₀.Reading (fluxes.forM (Term.flux site rows circuit select) : RegionPass β α Unit)
      fun _ => True :=
  .forM fun _ member => succeeds_flux ready fun key inReads =>
    serves key (Region.mem_readsOf (List.mem_map_of_mem member) inReads)

omit [BaseScalar β] ready in
theorem Region.Reading.mesh_eq {r : Region β α} (reading : Region.Reading r₀ r) : r.mesh = r₀.mesh :=
  Region.eq_of_uncached_eq (f := Region.mesh) (fun _ => rfl) reading.balanced.declared

omit [BaseScalar β] ready in
theorem Region.Reading.firstRow?_eq {r : Region β α} (reading : Region.Reading r₀ r) :
    r.firstRow? = r₀.firstRow? :=
  Region.eq_of_uncached_eq (f := Region.firstRow?) (fun _ => rfl) reading.balanced.declared

namespace BulkEquation

variable (e : BulkEquation β)

theorem succeeds_steady (serves : r₀.ServesAll site.settings select none
      (e.models.integrands site.settings.measures r₀.mesh.elementDomain .steady)) :
    Pass.Succeeds r₀.Reading (e.steady site rows select : RegionPass β α Unit) fun _ => True := by
  obtain ⟨⟨edges, nodes⟩, elements⟩ := And.imp_left Region.ServesAll.of_append serves.of_append
  refine (Term.succeeds_fluxes ready edges).bind fun _ _ => (Term.succeeds_nodes ready nodes).bind
    fun _ _ => Pass.Succeeds.get.bind fun s reading => ?_
  rw [reading.mesh_eq]
  cases here : r₀.mesh.elementDomain with
  | some d =>
    refine Term.succeeds_fluxes ready ?_
    simpa [here] using elements
  | none =>
    dsimp only
    split
    · exact Pass.Succeeds.report ..
    · exact .pure trivial

/-- A numeric pass succeeds if the equation has a slot and what its terms read does not end a pass. -/
theorem succeeds_numeric {start : Nat} (slot : r₀.firstRow? e.name = some start)
    (serves : r₀.ServesAll settings select none
      (e.models.integrands settings.measures r₀.mesh.elementDomain time)) :
    Pass.Succeeds r₀.Reading (e.assemble settings select time : RegionPass β α Unit)
      fun _ => True := by
  unfold assemble
  split
  · refine Pass.Succeeds.get.bind fun s reading => ?_
    dsimp only
    rw [reading.firstRow?_eq, slot]
    cases time with
    | steady => exact e.succeeds_steady ready serves
    | transient => exact Term.succeeds_nodes ready serves
  · exact .pure trivial

end BulkEquation

namespace CircuitModels

theorem succeeds_intoCircuit (m : CircuitModels) {mask : Array Bool} {c : CircuitColumn}
    (serves : r₀.ServesAll site.settings select (some c)
      (m.integrands site.settings.measures r₀.mesh.elementDomain)) :
    Pass.Succeeds r₀.Reading (m.intoCircuit site mask c select : RegionPass β α Unit)
      fun _ => True := by
  obtain ⟨nodes, fluxes⟩ := serves.of_append
  refine Pass.Succeeds.get.bind fun s reading => ?_
  dsimp only
  rw [reading.mesh_eq]
  exact (Term.succeeds_nodes ready nodes).bind fun _ _ => Term.succeeds_fluxes ready fluxes

theorem succeeds_intoCircuits (m : CircuitModels) {mask : Array Bool}
    (serves : r₀.ServesAll site.settings select circuit (circuit.toList.flatMap fun _ =>
      m.integrands site.settings.measures r₀.mesh.elementDomain)) :
    Pass.Succeeds r₀.Reading
      (circuit.toList.forM fun c => m.intoCircuit site mask c select : RegionPass β α Unit)
      fun _ => True := by
  cases circuit with
  | none => exact .pure trivial
  | some c =>
    refine Pass.Succeeds.forM fun c' here => m.succeeds_intoCircuit ready ?_
    obtain rfl := List.mem_singleton.mp here
    simpa using serves

end CircuitModels

namespace ContactEquation

variable (e : ContactEquation β) {mask : Array Bool}

omit ready in
theorem succeeds_circuitColumn {scope : Scope} {circuits : Circuit β}
    (registered : ∀ node, e.circuitNode = some node → (circuits.row? node).isSome = true) :
    Pass.Succeeds r₀.Reading (e.circuitColumn circuits scope : RegionPass β α (Option CircuitColumn))
      (· = e.column? circuits) := by
  unfold circuitColumn column?
  cases node : e.circuitNode with
  | none => exact .pure rfl
  | some node' =>
    obtain ⟨row, found⟩ := Option.isSome_iff_exists.mp (registered node' node)
    simp only [found, Option.bind_some, Option.map_some]
    exact .pure rfl

theorem succeeds_steady {start : Nat} (serves : r₀.ServesAll site.settings select circuit
      (e.integrands site.settings.measures r₀.mesh.elementDomain .steady circuit)) :
    Pass.Succeeds r₀.Reading (e.steady site start mask circuit select : RegionPass β α Unit)
      fun _ => True := by
  obtain ⟨⟨⟨nodes, edges⟩, elements⟩, current⟩ :=
    And.imp_left (And.imp_left Region.ServesAll.of_append ∘ Region.ServesAll.of_append)
      serves.of_append
  refine Pass.Succeeds.get.bind fun s reading => ?_
  dsimp only
  rw [reading.mesh_eq]
  refine (Term.succeeds_nodes ready nodes).bind fun _ _ => ?_
  refine (Term.succeeds_fluxes ready edges).bind fun _ _ => ?_
  refine (Term.succeeds_fluxes ready elements).bind fun _ _ => ?_
  exact e.models.current.succeeds_intoCircuits ready current

/-- A numeric pass succeeds if the equation has a slot, its circuit node exists, and what its terms read
does not end a pass. -/
theorem succeeds_numeric {start : Nat} {circuits : Circuit β} (numeric : select ≠ .rows)
    (slot : r₀.firstRow? e.name = some start)
    (registered : ∀ node, e.circuitNode = some node → (circuits.row? node).isSome = true)
    (serves : r₀.ServesAll settings select (e.column? circuits)
      (e.integrands settings.measures r₀.mesh.elementDomain time (e.column? circuits))) :
    Pass.Succeeds r₀.Reading (e.assemble mask circuits settings select time : RegionPass β α Unit)
      fun _ => True := by
  refine Pass.Succeeds.get.bind fun s reading => ?_
  dsimp only
  rw [reading.firstRow?_eq, slot]
  dsimp only
  rw [if_neg numeric]
  refine (e.succeeds_circuitColumn registered).bind fun column same => ?_
  subst same
  cases time with
  | steady => exact e.succeeds_steady ready serves
  | transient => exact e.models.charge.succeeds_intoCircuits ready serves.of_append.2

end ContactEquation

end

end FiniteVolume
