import FiniteVolume.Equation.Contact
import FiniteVolume.Proofs.Assembly.Integrand

/-!
The terms of the equations of a region.

A numeric pass of a bulk or contact equation appends the records of its terms, and of nothing else
(`BulkEquation.writes_assemble`, `ContactEquation.writes_assemble`).
-/
namespace FiniteVolume

variable {β α : Type}

namespace BulkModels

/-- What the models stand for, in the order of assembly. -/
def integrands (m : BulkModels) (measures : MeasureNames) (elements : Option Domain) :
    TimeMode → List Integrand
  | .steady => (m.edgeFluxes measures).map .flux ++ m.node.toList.map .node
      ++ (elements.toList.flatMap (m.elementFluxes measures)).map .flux
  | .transient => m.timeNode.toList.map .node

end BulkModels

namespace CircuitModels

def integrands (m : CircuitModels) (measures : MeasureNames) (elements : Option Domain) :
    List Integrand :=
  m.node.toList.map .node ++ (m.fluxes measures elements).map .flux

end CircuitModels

namespace ContactModels

/-- What the models on the rows of the contact stand for. -/
def integrands (m : ContactModels) (measures : MeasureNames) (elements : Option Domain) :
    TimeMode → List Integrand
  | .steady => m.node.toList.map .node ++ (m.edgeFluxes measures).map .flux
      ++ (elements.toList.flatMap (m.elementFluxes measures)).map .flux
  | .transient => []

def circuit (m : ContactModels) : TimeMode → CircuitModels
  | .steady => m.current
  | .transient => m.charge

end ContactModels

variable [BaseScalar β]

def BulkEquation.terms (e : BulkEquation β) (measures : MeasureNames) (elements : Option Domain)
    (time : TimeMode) (start : Nat) : List (Rows × Integrand) :=
  (e.models.integrands measures elements time).map (Rows.block start, ·)

namespace ContactEquation

def column? (e : ContactEquation β) (circuit : Circuit β) : Option CircuitColumn :=
  e.circuitNode.bind fun node => (circuit.row? node).map (⟨node, ·⟩)

/-- What the models of the equation stand for, those on the row of the circuit node included. -/
def integrands (e : ContactEquation β) (measures : MeasureNames) (elements : Option Domain)
    (time : TimeMode) (column : Option CircuitColumn) : List Integrand :=
  e.models.integrands measures elements time
    ++ column.toList.flatMap fun _ => (e.models.circuit time).integrands measures elements

def terms (e : ContactEquation β) (measures : MeasureNames) (elements : Option Domain)
    (time : TimeMode) (start : Nat) (mask : Array Bool) (column : Option CircuitColumn) :
    List (Rows × Integrand) :=
  (e.models.integrands measures elements time).map (Rows.nodes start mask, ·)
    ++ column.toList.flatMap fun c =>
      ((e.models.circuit time).integrands measures elements).map (Rows.single c.column mask, ·)

end ContactEquation

variable [Scalar α]

omit [BaseScalar β] in
theorem writes_elements_then {next : Option Domain → RegionPass β α Unit}
    {g : Option Domain → Region β α → Records α}
    (writes : ∀ elements, (next elements).Writes fun _ o records => records = g elements o) :
    (do next (← get).owner.mesh.elementDomain : RegionPass β α Unit).Writes fun _ o records =>
      records = g o.mesh.elementDomain o := by
  refine Pass.Writes.bind_get (fun s => writes s.owner.mesh.elementDomain) ?_
  rintro s _ o _ later rfl
  rw [Term.mesh_of_later later]

def BulkEquation.elementRecords (e : BulkEquation β) (measures : MeasureNames) (rows : Rows)
    (select : Selector) (elements : Option Domain) (o : Region β α) : Records α :=
  Integrand.assembled measures none select
    ((elements.toList.flatMap (e.models.elementFluxes measures)).map fun f => (rows, .flux f)) o

theorem BulkEquation.writes_steady (e : BulkEquation β) {site : Site β} {rows : Rows}
    {select : Selector} :
    (e.steady site rows select : RegionPass β α Unit).Writes fun _ o records =>
      records = Integrand.assembled site.settings.measures none select
        ((e.models.integrands site.settings.measures o.mesh.elementDomain .steady).map (rows, ·))
        o := by
  unfold steady
  refine ((Integrand.writes_fluxes _).append ((Integrand.writes_nodes _).append
    (Pass.Writes.bind_get (q := fun s _ o records =>
      records = e.elementRecords site.settings.measures rows select s.owner.mesh.elementDomain o)
      (fun s => ?_) ?_ : Pass.Writes _ fun _ o records => records =
        e.elementRecords site.settings.measures rows select o.mesh.elementDomain o))).mono
    fun _ o _ same => ?_
  · split
    next d elements =>
      simpa [elementRecords, elements] using
        Integrand.writes_fluxes (e.models.elementFluxes site.settings.measures d)
    next elements =>
      rw [elements]
      split
      · exact Pass.Writes.report ..
      · exact Pass.Writes.skip
  · rintro s _ o _ later rfl
    rw [Term.mesh_of_later later]
  · rw [same, elementRecords, ← Integrand.assembled_append, ← Integrand.assembled_append]
    simp [BulkModels.integrands, Function.comp_def]

/-- A numeric pass of a bulk equation with a slot appends the records of its terms. -/
theorem BulkEquation.writes_assemble (e : BulkEquation β) {settings : Settings β}
    {select : Selector} {time : TimeMode} (numeric : select ≠ .rows) :
    (e.assemble settings select time : RegionPass β α Unit).Writes fun _ o records =>
      ∃ start, o.firstRow? e.name = some start ∧ records = Integrand.assembled settings.measures none
        select (e.terms settings.measures o.mesh.elementDomain time start) o := by
  unfold assemble
  rw [if_pos numeric]
  refine Pass.Writes.bind_get (q := fun s _ o records => ∃ start,
    s.owner.firstRow? e.name = some start ∧ records = Integrand.assembled settings.measures none
      select (e.terms settings.measures o.mesh.elementDomain time start) o) (fun s => ?_) ?_
  · dsimp only
    split
    next start slot =>
      have terms : ∀ time, (match time with
          | .steady => e.steady ⟨settings, e.scope s.owner⟩ (.block start) select
          | .transient => e.models.timeNode.toList.forM
              (Term.node ⟨settings, e.scope s.owner⟩ (.block start) none select) :
            RegionPass β α Unit).Writes fun _ o records => records =
              Integrand.assembled settings.measures none select
                (e.terms settings.measures o.mesh.elementDomain time start) o := by
        intro time
        cases time with
        | steady => exact e.writes_steady
        | transient =>
          refine (Integrand.writes_nodes _).mono fun _ o _ same => ?_
          rw [same]
          simp [BulkEquation.terms, BulkModels.integrands, Function.comp_def]
      exact (terms time).mono fun _ _ _ same => ⟨start, slot, same⟩
    · unfold noSlot
      exact (Pass.Writes.report ..).bind_nothing fun _ =>
        (Pass.Writes.throw _).mono fun _ _ _ => False.elim
  · rintro s _ o _ later ⟨start, slot, same⟩
    exact ⟨start, Term.firstRow?_of_later later ▸ slot, same⟩

namespace CircuitModels

theorem writes_intoCircuit (m : CircuitModels) {site : Site β} {mask : Array Bool}
    {column : CircuitColumn} {select : Selector} :
    (m.intoCircuit site mask column select : RegionPass β α Unit).Writes fun _ o records =>
      records = Integrand.assembled site.settings.measures (some column) select
        ((m.integrands site.settings.measures o.mesh.elementDomain).map
          (Rows.single column.column mask, ·)) o := by
  refine (writes_elements_then fun elements => (Integrand.writes_nodes _).append
    (Integrand.writes_fluxes (m.fluxes site.settings.measures elements))).mono fun _ o _ same => ?_
  rw [same, ← Integrand.assembled_append]
  simp [integrands, Function.comp_def]

end CircuitModels

namespace ContactEquation

theorem writes_circuitColumn (e : ContactEquation β) (circuit : Circuit β) (scope : Scope) :
    (e.circuitColumn circuit scope : RegionPass β α (Option CircuitColumn)).Writes
      fun column _ records => records = {} ∧ column = e.column? circuit := by
  unfold circuitColumn column?
  cases e.circuitNode with
  | none => exact (Pass.Writes.pure none).mono fun _ _ _ => And.symm
  | some node =>
    dsimp only [Option.bind_some]
    split
    next row found => exact (Pass.Writes.pure _).mono fun _ _ _ => by simpa [found] using And.symm
    · exact (Pass.Writes.report ..).bind_nothing fun _ =>
        (Pass.Writes.throw _).mono fun _ _ _ => False.elim

theorem writes_circuits (m : CircuitModels) {site : Site β} {mask : Array Bool}
    {column : Option CircuitColumn} {select : Selector} :
    (column.toList.forM fun c => m.intoCircuit site mask c select : RegionPass β α Unit).Writes
      fun _ o records => records = Integrand.assembled site.settings.measures column select
        (column.toList.flatMap fun c => (m.integrands site.settings.measures
          o.mesh.elementDomain).map (Rows.single c.column mask, ·)) o := by
  cases column with
  | none => exact Pass.Writes.skip
  | some c =>
    refine (m.writes_intoCircuit.append Pass.Writes.skip).mono fun _ o _ same => ?_
    simpa using same

theorem writes_steady (e : ContactEquation β) {site : Site β} {start : Nat} {mask : Array Bool}
    {column : Option CircuitColumn} {select : Selector} :
    (e.steady site start mask column select : RegionPass β α Unit).Writes fun _ o records =>
      records = Integrand.assembled site.settings.measures column select
        (e.terms site.settings.measures o.mesh.elementDomain .steady start mask column) o := by
  unfold steady
  refine (writes_elements_then fun elements => (Integrand.writes_nodes _).append
    ((Integrand.writes_fluxes _).append ((Integrand.writes_fluxes (elements.toList.flatMap
      (e.models.elementFluxes site.settings.measures))).append
        (writes_circuits e.models.current)))).mono fun _ o _ same => ?_
  rw [same, ← Integrand.assembled_append, ← Integrand.assembled_append,
    ← Integrand.assembled_append]
  simp [terms, ContactModels.integrands, ContactModels.circuit, Function.comp_def]

/-- A numeric pass of a contact equation with a slot appends the records of its terms. -/
theorem writes_assemble (e : ContactEquation β) {mask : Array Bool} {circuit : Circuit β}
    {settings : Settings β} {select : Selector} {time : TimeMode} (numeric : select ≠ .rows) :
    (e.assemble mask circuit settings select time : RegionPass β α Unit).Writes fun _ o records =>
      ∃ start, o.firstRow? e.name = some start ∧ records = Integrand.assembled settings.measures
        (e.column? circuit) select (e.terms settings.measures o.mesh.elementDomain time start mask
          (e.column? circuit)) o := by
  unfold assemble
  refine Pass.Writes.bind_get (q := fun s _ o records => ∃ start,
    s.owner.firstRow? e.name = some start ∧ records = Integrand.assembled settings.measures
      (e.column? circuit) select (e.terms settings.measures o.mesh.elementDomain time start mask
        (e.column? circuit)) o) (fun s => ?_) ?_
  · dsimp only
    split
    next start slot =>
      rw [if_neg numeric]
      refine (e.writes_circuitColumn circuit _).bind_lookup (q := fun column _ o records =>
        records = Integrand.assembled settings.measures column select
          (e.terms settings.measures o.mesh.elementDomain time start mask column) o)
        (fun column => ?_) ?_
      · cases time with
        | steady => exact e.writes_steady
        | transient =>
          refine (writes_circuits e.models.charge).mono fun _ o _ same => ?_
          rw [same]
          simp [terms, ContactModels.integrands, ContactModels.circuit]
      · rintro _ _ o _ rfl rfl
        exact ⟨start, slot, rfl⟩
    · unfold BulkEquation.noSlot
      exact (Pass.Writes.report ..).bind_nothing fun _ =>
        (Pass.Writes.throw _).mono fun _ _ _ => False.elim
  · rintro s _ o _ later ⟨start, slot, same⟩
    exact ⟨start, Term.firstRow?_of_later later ▸ slot, same⟩

end ContactEquation

end FiniteVolume
