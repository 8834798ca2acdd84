import FiniteVolume.Assembly.Term
import FiniteVolume.Command
import FiniteVolume.Equation.Update

/-!
Bulk equations: one row for every node of a region.

The steady terms are fluxes over edges, volume terms over the shares of edge ends, a node term, and
the same fluxes and shares over element edges; the transient term is a node term.
-/
namespace FiniteVolume

/-- The models of a bulk equation. One that is not set contributes nothing. -/
structure BulkModels where
  /-- Integrated over node volumes. -/
  node : Option String := none
  /-- Integrated over edge couples, from the first end to the second. -/
  edge : Option String := none
  /-- Edge model integrated over the shares of both ends. -/
  edgeVolume : Option String := none
  /-- Integrated over element-edge couples, from the first end to the second. -/
  element : Option String := none
  /-- Element-edge model integrated over the share of the first end. -/
  volumeNode0 : Option String := none
  /-- Element-edge model integrated over the share of the second end. -/
  volumeNode1 : Option String := none
  /-- Node model under the time derivative. -/
  timeNode : Option String := none
  deriving Repr, DecidableEq

structure BulkEquation (β : Type) [Zero β] where
  name : String
  variableName : String
  models : BulkModels := {}
  policy : UpdatePolicy := .plain
  /-- Sizes of the last update. -/
  last : UpdateStats β := {}

def MeasureNames.edgeFlux (m : MeasureNames) (model : String) : Flux :=
  ⟨model, .edge, m.edgeCouple, .opposed⟩

def MeasureNames.edgeShares (m : MeasureNames) (model : String) : List Flux :=
  Flux.overShares .edge (some model) (some model) m.edgeNode0Volume m.edgeNode1Volume

def MeasureNames.elementFlux (m : MeasureNames) (d : Domain) (model : String) : Flux :=
  ⟨model, d, m.elementEdgeCouple, .opposed⟩

/-- Element-edge models over the shares of the two ends. -/
def MeasureNames.elementShares (m : MeasureNames) (d : Domain) (model0 model1 : Option String) :
    List Flux :=
  Flux.overShares d model0 model1 m.elementNode0Volume m.elementNode1Volume

namespace BulkModels

def hasElementTerms (m : BulkModels) : Bool :=
  m.element.isSome || m.volumeNode0.isSome || m.volumeNode1.isSome

def edgeFluxes (m : BulkModels) (measures : MeasureNames) : List Flux :=
  m.edge.toList.map measures.edgeFlux ++ m.edgeVolume.toList.flatMap measures.edgeShares

def elementFluxes (m : BulkModels) (measures : MeasureNames) (d : Domain) : List Flux :=
  m.element.toList.map (measures.elementFlux d)
    ++ measures.elementShares d m.volumeNode0 m.volumeNode1

end BulkModels

namespace BulkEquation

variable {β α : Type} [BaseScalar β] [Scalar α]

def scope (e : BulkEquation β) (r : Region β α) : Scope :=
  { r.scope with equation := some e.name }

def noSlot {ρ : Type} (scope : Scope) (name : String) : RegionPass β α ρ := do
  Pass.report .fatal scope ("equation \"" ++ name ++ "\" has no index in the region")
  throw (.missingEquation scope name)

def steady (e : BulkEquation β) (site : Site β) (rows : Rows) (select : Selector) :
    RegionPass β α Unit := do
  let measures := site.settings.measures
  (e.models.edgeFluxes measures).forM (Term.flux site rows none select)
  e.models.node.toList.forM (Term.node site rows none select)
  match (← get).owner.mesh.elementDomain with
  | some d => (e.models.elementFluxes measures d).forM (Term.flux site rows none select)
  | none =>
    if e.models.hasElementTerms then
      Pass.report .warning site.scope "element models ignored in a region without elements"

def assemble (e : BulkEquation β) (settings : Settings β) (select : Selector) (time : TimeMode) :
    RegionPass β α Unit := do
  if select ≠ .rows then
    let r := (← get).owner
    let scope := e.scope r
    let some start := r.firstRow? e.name | noSlot scope e.name
    let site : Site β := ⟨settings, scope⟩
    match time with
    | .steady => e.steady site (.block start) select
    | .transient => e.models.timeNode.toList.forM (Term.node site (.block start) none select)

/-- Take a raw step per node. The region and the log change as far as the update came. -/
def update [Precision β α] (e : BulkEquation β) (settings : UpdateSettings β) (raw : Array α)
    (r : Region β α) (log : Log) :
    Except (UpdateError β) (BulkEquation β) × Region β α × Log :=
  let site : UpdateSite β := ⟨e.policy, settings, e.variableName, e.scope r⟩
  match Region.read .node e.variableName r with
  | (.error cause, r) => (.error (.model cause), r, log)
  | (.ok old, r) =>
    match site.apply old.toArray raw log with
    | (.error fault, _, log) => (.error fault, r, log)
    | (.ok stats, values, log) =>
      match r.setValues .node e.variableName values with
      | .error cause => (.error (.model cause), r, log)
      | .ok r => (.ok { e with last := stats }, r, log)

def command (e : BulkEquation β) (device region : String) : Command :=
  .ofList "equation"
    [("device", some device), ("region", some region), ("name", some e.name),
      ("variable_name", some e.variableName), ("node_model", e.models.node),
      ("edge_model", e.models.edge), ("edge_volume_model", e.models.edgeVolume),
      ("element_model", e.models.element), ("volume_node0_model", e.models.volumeNode0),
      ("volume_node1_model", e.models.volumeNode1), ("time_node_model", e.models.timeNode),
      ("variable_update", some e.policy.text)]

def blockText (e : BulkEquation β) (device region : String) : String :=
  block "equation" e.name (e.command device region).text

end BulkEquation

end FiniteVolume
