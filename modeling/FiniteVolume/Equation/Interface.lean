import FiniteVolume.Assembly.Term
import FiniteVolume.Command
import FiniteVolume.Model.Junction

/-!
Interface equations: they couple the equations of two regions at coincident nodes.

A continuous coupling moves the rows of region 1 onto those of region 0 and puts the interface model
in their place. A flux coupling adds the interface model, times the surface area, to region 0 and
subtracts it from region 1. A hybrid one copies the rows of region 1 onto those of region 0 and
subtracts the model, times the surface area, from region 1.
-/
namespace FiniteVolume

inductive Coupling where
  | continuous
  | flux
  | hybrid
  deriving Repr, DecidableEq

namespace Coupling

def all : List Coupling := [continuous, flux, hybrid]

def text : Coupling → String
  | continuous => "continuous"
  | flux => "fluxterm"
  | hybrid => "hybrid"

def ofText? (keyword : String) : Option Coupling := all.find? (·.text = keyword)

/-- Whether rows of region 1 move, and if so, whether they keep a copy. -/
def keepsCopy? : Coupling → Option Bool
  | continuous => some false
  | flux => none
  | hybrid => some true

def usesArea : Coupling → Side → Bool
  | continuous, _ | hybrid, .first => false
  | flux, _ | hybrid, .second => true

/-- The factor of the interface model on the row of a node of a side, given the surface areas; none
where nothing is added. -/
def factor? {α : Type} [Scalar α] (c : Coupling) (area0 area1 : Array α) (side : Side)
    (node : Nat) : Option α :=
  match c, side with
  | continuous, .first | hybrid, .first => none
  | continuous, .second => some 1
  | flux, .first => area0[node]?
  | flux, .second | hybrid, .second => area1[node]?.map (- ·)

end Coupling

structure InterfaceEquation where
  name : String
  /-- Name of the coupled equation in region 0. -/
  name0 : String
  /-- Name of the coupled equation in region 1. -/
  name1 : String
  model : String
  coupling : Coupling := .continuous
  deriving Repr, DecidableEq

/-- A step of a pass over an interface and its two regions. -/
abbrev CoupledPass (β α ρ : Type) := Pass (Coupled β α) α ρ

/-- A node pair with its number, first rows of the equations on both sides given. -/
structure PairRows where
  index : Nat
  node0 : Nat
  node1 : Nat
  start0 : Nat
  start1 : Nat
  deriving Repr, DecidableEq

namespace PairRows

def node (p : PairRows) : Side → Nat
  | .first => p.node0
  | .second => p.node1

def row (p : PairRows) : Side → Nat
  | .first => p.start0 + p.node0
  | .second => p.start1 + p.node1

end PairRows

def Interface.pairRows (i : Interface) (mask : Array Bool) (start0 start1 : Nat) : List PairRows :=
  (i.pairs.zipIdx.filter fun (_, index) => isActive mask index).map fun (pair, index) =>
    ⟨index, pair.1, pair.2, start0, start1⟩

def PairRows.weigh {α : Type} [Scalar α] (p : PairRows) (coupling : Coupling)
    (area0 area1 values : Array α) : List (Nat × α) :=
  Side.both.filterMap fun side => do
    let factor ← coupling.factor? area0 area1 side (p.node side)
    let v ← values[p.index]?
    return (p.row side, factor * v)

/-- A derivative of the interface model with respect to a variable of one side. -/
structure SideDerivative where
  side : Side
  /-- First column of the variable. -/
  start : Nat
  name : String
  deriving Repr, DecidableEq

namespace InterfaceEquation

def sideName (e : InterfaceEquation) : Side → String
  | .first => e.name0
  | .second => e.name1

variable {β α : Type} [BaseScalar β] [Scalar α]

def scope (e : InterfaceEquation) (j : Junction β α) : Scope :=
  { j.scope with equation := some e.name }

def firstRow (e : InterfaceEquation) (scope : Scope) (side : Side) : CoupledPass β α Nat := do
  let r := (← get).owner.region side
  let name := e.sideName side
  match r.firstRow? name with
  | some start => return start
  | none =>
    Pass.report .fatal scope
      ("equation \"" ++ name ++ "\" has no index in region \"" ++ r.name ++ "\"")
    throw (.missingEquation scope name)

/-- Move the rows of region 1 onto those of region 0. -/
def claimRows (e : InterfaceEquation) (pairs : List PairRows) : CoupledPass β α Unit :=
  match e.coupling.keepsCopy? with
  | none => return
  | some keepCopy => pairs.forM fun p => Pass.claimRow (p.row .second) (.moved (p.row .first) keepCopy)

/-- The surface area of a side, none if it is missing, and empty where it is not needed. -/
def area (e : InterfaceEquation) (site : Site β) (side : Side) :
    CoupledPass β α (Option (Array α)) :=
  if e.coupling.usesArea side then
    Pass.onPart (·.region side) (·.setRegion side ·) do
      let r := (← get).owner
      let site := { site with scope := { site.scope with region := some r.name } }
      return (← Term.required site .node site.settings.measures.surfaceArea).map (·.toArray)
  else return some #[]

/-- Read a model of the interface. Remarks on models of the interface and of both regions move to the
log. -/
def read (site : Site β) (name : String) : CoupledPass β α (Array α) := fun s =>
  let (result, c) := Coupled.read name s.owner
  let (notes, junction) := c.junction.takeNotes
  let (notes0, region0) := c.region0.takeNotes
  let (notes1, region1) := c.region1.takeNotes
  (match result with
    | .ok data => .ok data.toArray
    | .error cause => .error (.model site.scope cause),
    { s with
      owner := { junction, region0, region1 }
      log := Term.reportNotes site.scope (notes ++ notes0 ++ notes1) s.log })

def sideDerivatives (e : InterfaceEquation) (site : Site β) (side : Side) :
    CoupledPass β α (List SideDerivative) := do
  let c := (← get).owner
  let r := c.region side
  let found ← r.variableNames.mapM fun variableName => do
    let name := (Suffix.interfaceSide side).apply (derivativeName e.model variableName)
    match (r.equationFor? variableName).bind r.firstRow? with
    | none => return none
    | some start =>
      if c.junction.models.contains .node name then return some ⟨side, start, name⟩
      else
        Pass.report .verbose site.scope ("missing interface model \"" ++ name ++ "\"")
        return none
  return found.filterMap id

def residual (e : InterfaceEquation) (site : Site β) (pairs : List PairRows)
    (area0 area1 : Array α) : CoupledPass β α Unit := do
  let values ← read site e.model
  Pass.addResidual (pairs.flatMap fun p =>
    (p.weigh e.coupling area0 area1 values).map fun (row, v) => ⟨row, v⟩)

def matrix (e : InterfaceEquation) (site : Site β) (pairs : List PairRows)
    (area0 area1 : Array α) : CoupledPass β α Unit := do
  let derivatives0 ← e.sideDerivatives site .first
  let derivatives1 ← e.sideDerivatives site .second
  let columns ← (derivatives0 ++ derivatives1).mapM fun d => return (d, ← read site d.name)
  columns.forM fun (d, values) =>
    Pass.addMatrix (pairs.flatMap fun p =>
      (p.weigh e.coupling area0 area1 values).map fun (row, v) => ⟨row, d.start + p.node d.side, v⟩)

/-- Whether the interface model exists; its absence is reported with the severity that the settings
give, and fatal severity ends the pass. -/
def hasModel (e : InterfaceEquation) (site : Site β) : CoupledPass β α Bool := do
  if (← get).owner.junction.models.contains .node e.model then return true
  let severity := site.settings.missingModel
  Pass.report severity site.scope ("missing interface model \"" ++ e.model ++ "\"")
  if Severity.fatal ≤ severity then throw (.missingModel site.scope e.model .node)
  return false

/-- Assemble the equation at the pairs of a mask. There are no transient terms. -/
def assemble (e : InterfaceEquation) (mask : Array Bool) (settings : Settings β)
    (select : Selector) (time : TimeMode) : CoupledPass β α Unit := do
  if time = .steady then
    let j := (← get).owner.junction
    let site : Site β := ⟨settings, e.scope j⟩
    let start0 ← e.firstRow site.scope .first
    let start1 ← e.firstRow site.scope .second
    let pairs := j.geometry.pairRows mask start0 start1
    if select = .rows then e.claimRows pairs
    else
      let area0 ← e.area site .first
      let area1 ← e.area site .second
      match area0, area1 with
      | some area0, some area1 =>
        if ← e.hasModel site then
          if select.wantsResidual then e.residual site pairs area0 area1
          if select.wantsMatrix then e.matrix site pairs area0 area1
      | _, _ => return

def command (e : InterfaceEquation) (device interface : String) : Command :=
  .ofList "interface_equation"
    [("device", some device), ("interface", some interface), ("name", some e.name),
      ("name0", some e.name0), ("name1", some e.name1), ("interface_model", some e.model),
      ("type", some e.coupling.text)]

def blockText (e : InterfaceEquation) (device interface : String) : String :=
  block "interface_equation" e.name (e.command device interface).text

end InterfaceEquation

end FiniteVolume
