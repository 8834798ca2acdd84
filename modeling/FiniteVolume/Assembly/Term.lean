import FiniteVolume.Assembly.Pass
import FiniteVolume.Assembly.Scatter
import FiniteVolume.Model.Reading

/-!
Terms of equations over one region: a model times a measure, scattered to rows.

Matrix entries come from derivative models `m:v` for every solution variable `v`, on edges and
element edges one for every corner, told apart by suffix. A model that is missing is reported with
the severity that the settings give; below fatal it contributes nothing. A derivative that was never
declared is zero and only reported in detail.
-/
namespace FiniteVolume

/-- A circuit node whose value is a further column. -/
structure CircuitColumn where
  name : String
  column : Nat
  deriving Repr, DecidableEq

abbrev RegionPass (β α ρ : Type) := Pass (Region β α) α ρ

namespace Term

variable {β α : Type} [BaseScalar β] [Scalar α]

/-- Report that a model is missing; fatal severity ends the pass. -/
def missing (site : Site β) (d : Domain) (name : String) (severity : Severity) :
    RegionPass β α Unit := do
  Pass.report severity site.scope ("missing " ++ d.text ++ " model \"" ++ name ++ "\"")
  if Severity.fatal ≤ severity then throw (.missingModel site.scope name d)

def reportNotes (scope : Scope) (notes : List Note) (log : Log) : Log :=
  notes.foldl (fun log note => log.write .error scope note.text) log

/-- Read a model. Remarks on models move to the log. -/
def fetch (site : Site β) (d : Domain) (name : String) : RegionPass β α (Field α) := fun s =>
  let (result, owner) := Region.read d name s.owner
  let (notes, owner) := owner.takeNotes
  (result.mapError (.model site.scope), { s with owner, log := reportNotes site.scope notes s.log })

def optional (site : Site β) (d : Domain) (name : String) :
    RegionPass β α (Option (Field α)) := do
  if (← get).owner.models.contains d name then return some (← fetch site d name) else return none

def required (site : Site β) (d : Domain) (name : String) :
    RegionPass β α (Option (Field α)) := do
  match ← optional site d name with
  | some data => return some data
  | none =>
    missing site d name site.settings.missingModel
    return none

/-- First row of the equation that solves for a variable. -/
def firstColumn (site : Site β) (variableName : String) : RegionPass β α Nat := do
  let r := (← get).owner
  match (r.equationFor? variableName).bind r.firstRow? with
  | some start => return start
  | none =>
    Pass.report .fatal site.scope ("no equation solves for variable \"" ++ variableName ++ "\"")
    throw (.missingEquation site.scope variableName)

def weighted (site : Site β) (measure values : Field α) (name : String) :
    RegionPass β α (Array α) :=
  match measure.mul site.settings.chunking values with
  | .ok data => return data.toArray
  | .error e => throw (.model site.scope (.lengthMismatch name e.left e.right))

def intoResidual (contributions : List (Contribution α)) : RegionPass β α Unit :=
  Pass.addResidual (contributions.map fun c => ⟨c.row, c.value⟩)

/-- Put contributions into the columns of the corners of a given number, which begin at `start`. -/
def intoCorner (start corner : Nat) (contributions : List (Contribution α)) : RegionPass β α Unit :=
  Pass.addMatrix (contributions.filterMap fun c =>
    c.corners[corner]?.map fun node => ⟨c.row, start + node, c.value⟩)

def intoColumn (column : Nat) (contributions : List (Contribution α)) : RegionPass β α Unit :=
  Pass.addMatrix (contributions.map fun c => ⟨c.row, column, c.value⟩)

/-! ## Node models -/

/-- The matrix entries of a node model for one solution variable. -/
def nodeDerivative (site : Site β) (rows : Rows) (volume : Field α) (model variableName : String) :
    RegionPass β α Unit := do
  let name := derivativeName model variableName
  match ← optional site .node name with
  | none => missing site .node name .verbose
  | some d =>
    let start ← firstColumn site variableName
    intoCorner start 0 (atNodes rows (← weighted site volume d name))

def nodeCircuit (site : Site β) (rows : Rows) (volume : Field α) (model : String)
    (circuit : CircuitColumn) : RegionPass β α Unit := do
  let name := derivativeName model circuit.name
  if let some d ← optional site .node name then
    intoColumn circuit.column (atNodes rows (← weighted site volume d name))

def node (site : Site β) (rows : Rows) (circuit : Option CircuitColumn) (select : Selector)
    (model : String) : RegionPass β α Unit := do
  if let some volume ← required site .node site.settings.measures.nodeVolume then
    if select.wantsResidual then
      if let some values ← required site .node model then
        intoResidual (atNodes rows (← weighted site volume values model))
    if select.wantsMatrix then
      (← get).owner.variableNames.forM (nodeDerivative site rows volume model)
      circuit.toList.forM (nodeCircuit site rows volume model)

/-! ## Edge and element-edge models -/

def spread (f : Flux) (rows : Rows) (values : Array α) : RegionPass β α (List (Contribution α)) := do
  return scatter ((← get).owner.mesh.stencil f.domain) f.ends rows values

/-- The matrix entries of a flux for one solution variable. Derivatives may all be missing; if only
some are, each missing one is reported like a missing model. -/
def fluxDerivative (site : Site β) (rows : Rows) (measure : Field α) (f : Flux)
    (variableName : String) : RegionPass β α Unit := do
  let base := derivativeName f.model variableName
  let names := f.domain.cornerSuffixes.map (·.apply base)
  let derivatives ← names.mapM (optional site f.domain)
  if derivatives.all (·.isNone) then missing site f.domain base .verbose
  else
    let byCorner := names.zip derivatives
    byCorner.forM fun (name, d) =>
      if d.isNone then missing site f.domain name site.settings.missingModel else return
    let start ← firstColumn site variableName
    byCorner.zipIdx.forM fun ((name, d), corner) =>
      match d with
      | none => return
      | some d => do intoCorner start corner (← spread f rows (← weighted site measure d name))

def fluxCircuit (site : Site β) (rows : Rows) (measure : Field α) (f : Flux)
    (circuit : CircuitColumn) : RegionPass β α Unit := do
  let name := derivativeName f.model circuit.name
  match ← optional site f.domain name with
  | none => missing site f.domain name .verbose
  | some d => intoColumn circuit.column (← spread f rows (← weighted site measure d name))

def flux (site : Site β) (rows : Rows) (circuit : Option CircuitColumn) (select : Selector)
    (f : Flux) : RegionPass β α Unit := do
  if let some measure ← required site f.domain f.measure then
    if select.wantsResidual then
      if let some values ← required site f.domain f.model then
        intoResidual (← spread f rows (← weighted site measure values f.model))
    if select.wantsMatrix then
      (← get).owner.variableNames.forM (fluxDerivative site rows measure f)
      circuit.toList.forM (fluxCircuit site rows measure f)

/-! ## Integrals -/

def nodeIntegral (site : Site β) (mask : Array Bool) (model : String) : RegionPass β α α := do
  let some volume ← required site .node site.settings.measures.nodeVolume | return 0
  let some values ← required site .node model | return 0
  return sumOverNodes mask (← weighted site volume values model)

def fluxIntegral (site : Site β) (mask : Array Bool) (f : Flux) : RegionPass β α α := do
  let some measure ← required site f.domain f.measure | return 0
  let some values ← required site f.domain f.model | return 0
  let w ← weighted site measure values f.model
  return sumThroughMask ((← get).owner.mesh.stencil f.domain) f.ends mask w

end Term

end FiniteVolume
