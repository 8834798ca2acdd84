import FiniteVolume.Circuit
import FiniteVolume.Equation.Bulk

/-!
Contact equations: they take over the rows of the bulk equation of their name at the nodes of a
contact.

The pass over rows drops the bulk rows; the steady pass fills them with the terms of the contact.
With a circuit node, the current through the contact also lands on the row of that node, and the
charge does so in the transient pass.
-/
namespace FiniteVolume

/-- The models whose integrals enter a circuit. -/
structure CircuitModels where
  node : Option String := none
  edge : Option String := none
  element : Option String := none
  deriving Repr, DecidableEq

/-- The models of a contact equation. One that is not set contributes nothing. -/
structure ContactModels where
  node : Option String := none
  edge : Option String := none
  edgeVolume : Option String := none
  element : Option String := none
  volumeNode0 : Option String := none
  volumeNode1 : Option String := none
  current : CircuitModels := {}
  charge : CircuitModels := {}
  deriving Repr, DecidableEq

structure ContactEquation (β : Type) [Zero β] where
  name : String
  contact : String
  models : ContactModels := {}
  circuitNode : Option String := none
  /-- The current at the last integration. -/
  current : β := 0
  /-- The charge at the last integration. -/
  charge : β := 0

namespace ContactModels

def edgeFluxes (m : ContactModels) (measures : MeasureNames) : List Flux :=
  m.edge.toList.map measures.edgeFlux ++ m.edgeVolume.toList.flatMap measures.edgeShares

def elementFluxes (m : ContactModels) (measures : MeasureNames) (d : Domain) : List Flux :=
  m.element.toList.map (measures.elementFlux d)
    ++ measures.elementShares d m.volumeNode0 m.volumeNode1

end ContactModels

namespace CircuitModels

variable {β α : Type} [BaseScalar β] [Scalar α]

/-- Fluxes over edges, then over element edges where there are any. -/
def fluxes (m : CircuitModels) (measures : MeasureNames) (elements : Option Domain) : List Flux :=
  m.edge.toList.map measures.edgeFlux
    ++ elements.toList.flatMap fun d => m.element.toList.map (measures.elementFlux d)

/-- Collect the models at the nodes of a mask on the row of a circuit node. -/
def intoCircuit (m : CircuitModels) (site : Site β) (mask : Array Bool) (circuit : CircuitColumn)
    (select : Selector) : RegionPass β α Unit := do
  let rows := Rows.single circuit.column mask
  let elements := (← get).owner.mesh.elementDomain
  m.node.toList.forM (Term.node site rows (some circuit) select)
  (m.fluxes site.settings.measures elements).forM (Term.flux site rows (some circuit) select)

def integral (m : CircuitModels) (site : Site β) (mask : Array Bool) : RegionPass β α α := do
  let elements := (← get).owner.mesh.elementDomain
  let nodes ← m.node.toList.mapM (Term.nodeIntegral site mask)
  let fluxes ← (m.fluxes site.settings.measures elements).mapM (Term.fluxIntegral site mask)
  return total (nodes ++ fluxes)

end CircuitModels

namespace ContactEquation

variable {β α : Type} [BaseScalar β] [Scalar α]

def scope (e : ContactEquation β) (r : Region β α) : Scope :=
  { r.scope with contact := some e.contact, equation := some e.name }

/-- The column of the circuit node, which must exist if one is named. -/
def circuitColumn (e : ContactEquation β) (circuit : Circuit β) (scope : Scope) :
    RegionPass β α (Option CircuitColumn) := do
  match e.circuitNode with
  | none => return none
  | some node =>
    match circuit.row? node with
    | some row => return some ⟨node, row⟩
    | none =>
      Pass.report .fatal scope ("circuit node \"" ++ node ++ "\" does not exist")
      throw (.missingCircuitNode scope node)

/-- Drop what the bulk equation assembles at the nodes of a mask. -/
def claimRows (start : Nat) (mask : Array Bool) : RegionPass β α Unit :=
  ((List.range mask.size).filter (isActive mask)).forM fun node =>
    Pass.claimRow (start + node) .dropped

def steady (e : ContactEquation β) (site : Site β) (start : Nat) (mask : Array Bool)
    (circuit : Option CircuitColumn) (select : Selector) : RegionPass β α Unit := do
  let measures := site.settings.measures
  let rows := Rows.nodes start mask
  let elements := (← get).owner.mesh.elementDomain
  e.models.node.toList.forM (Term.node site rows circuit select)
  (e.models.edgeFluxes measures).forM (Term.flux site rows circuit select)
  (elements.toList.flatMap (e.models.elementFluxes measures)).forM
    (Term.flux site rows circuit select)
  circuit.toList.forM fun c => e.models.current.intoCircuit site mask c select

def assemble (e : ContactEquation β) (mask : Array Bool) (circuit : Circuit β)
    (settings : Settings β) (select : Selector) (time : TimeMode) : RegionPass β α Unit := do
  let r := (← get).owner
  let scope := e.scope r
  let some start := r.firstRow? e.name | BulkEquation.noSlot scope e.name
  if select = .rows then claimRows start mask
  else
    let column ← e.circuitColumn circuit scope
    let site : Site β := ⟨settings, scope⟩
    match time with
    | .steady => e.steady site start mask column select
    | .transient => column.toList.forM fun c => e.models.charge.intoCircuit site mask c select

def integrate [Precision β α] (e : ContactEquation β) (mask : Array Bool) (settings : Settings β) :
    RegionPass β α (ContactEquation β) := do
  let site : Site β := ⟨settings, e.scope (← get).owner⟩
  let current ← e.models.current.integral site mask
  let charge ← e.models.charge.integral site mask
  return { e with current := Precision.widen current, charge := Precision.widen charge }

def command (e : ContactEquation β) (device : String) : Command :=
  .ofList "contact_equation"
    [("device", some device), ("contact", some e.contact), ("name", some e.name),
      ("edge_charge_model", e.models.charge.edge), ("edge_current_model", e.models.current.edge),
      ("edge_model", e.models.edge), ("edge_volume_model", e.models.edgeVolume),
      ("element_charge_model", e.models.charge.element),
      ("element_current_model", e.models.current.element), ("element_model", e.models.element),
      ("volume_node0_model", e.models.volumeNode0), ("volume_node1_model", e.models.volumeNode1),
      ("node_charge_model", e.models.charge.node), ("node_current_model", e.models.current.node),
      ("node_model", e.models.node), ("circuit_node", e.circuitNode)]

def blockText (e : ContactEquation β) (device : String) : String :=
  block "contact_equation" e.name (e.command device).text

end ContactEquation

end FiniteVolume
