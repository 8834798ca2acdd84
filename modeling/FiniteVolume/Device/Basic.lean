import FiniteVolume.Command.Models
import FiniteVolume.Device.Parts
import FiniteVolume.Equation.Contact
import FiniteVolume.Equation.Interface

/-!
A device: regions, interfaces and circuit nodes with the equations on them, driven as one system.

The rows of the regions follow one another, and the circuit nodes come last. An assembly has two
stages: the boundary equations claim rows, and then any number of passes may run. Adding to the device
ends the second stage, and so does a change of the equation slots or contacts of a region.
-/
namespace FiniteVolume

inductive DeviceError (β : Type) where
  | settings (cause : SettingsError β)
  | duplicateRegion (name : String)
  | unknownRegion (name : String)
  | duplicateContact (name : String)
  /-- An interface joins a region to itself. -/
  | selfInterface (name : String)
  | unknownContact (name : String)
  | unknownInterface (name : String)
  | duplicateEquation (name : String)
  | mesh (cause : MeshError)
  | assembly (cause : AssemblyError)
  | update (cause : UpdateError β)
  /-- The rows of an equation end behind the solution. -/
  | rowsOutOfRange (equation : String) (last size : Nat)
  deriving Repr

namespace DeviceError

variable {β : Type} [Scalar β]

def causeMessage? : DeviceError β → Option String
  | settings cause => some cause.message
  | mesh cause => some cause.message
  | assembly cause => some cause.message
  | update cause => some cause.message
  | _ => none

def message : DeviceError β → String
  | settings cause => "config: " ++ cause.message
  | duplicateRegion name => "region \"" ++ name ++ "\" already exists"
  | unknownRegion name => "unknown region \"" ++ name ++ "\""
  | duplicateContact name => "contact \"" ++ name ++ "\" already exists"
  | selfInterface name => "interface \"" ++ name ++ "\" joins a region to itself"
  | unknownContact name => "unknown contact \"" ++ name ++ "\""
  | unknownInterface name => "unknown interface \"" ++ name ++ "\""
  | duplicateEquation name => "equation \"" ++ name ++ "\" already exists"
  | mesh cause => "mesh: " ++ cause.message
  | assembly cause => "assembly: " ++ cause.message
  | update cause => "update: " ++ cause.message
  | rowsOutOfRange equation last size =>
    "equation \"" ++ equation ++ s!"\" needs row {last}, but the solution has {size} rows"

end DeviceError

inductive Stage where
  | idle
  /-- Rows are claimed, for regions in the given states: instance and layout revision. -/
  | claimed (layout : List (Nat × Nat))
  deriving Repr, DecidableEq

structure Device (β α : Type) [BaseScalar β] where
  name : String
  settings : Settings β
  parts : Parts β α := {}
  /-- Bulk equations with their regions. -/
  bulkEquations : List (String × BulkEquation β) := []
  /-- Contact equations with the regions of their contacts. -/
  contactEquations : List (String × ContactEquation β) := []
  /-- Interface equations with their interfaces. -/
  interfaceEquations : List (String × InterfaceEquation) := []
  circuit : Circuit β := {}
  rows : RowMap := ∅
  stage : Stage := .idle
  log : Log := {}
  lastUpdate : UpdateStats β := {}

namespace Device

variable {β α : Type} [BaseScalar β]

def create (name : String) (settings : Settings β) : Except (DeviceError β) (Device β α) :=
  match settings.validate with
  | .ok () => .ok { name, settings }
  | .error cause => .error (.settings cause)

def rowCount (d : Device β α) : Nat := d.circuit.base + d.circuit.size

def layout (d : Device β α) : List (Nat × Nat) :=
  d.parts.regions.values.map fun r => (r.instanceId, r.layoutRevision)

def idle (d : Device β α) : Device β α := { d with stage := .idle }

/-- Number the rows through: the regions, then the circuit nodes. -/
def renumber (d : Device β α) : Device β α :=
  { d with
    parts := d.parts.renumber
    circuit := { d.circuit with base := d.parts.rowCount } }.idle

def takeLog (d : Device β α) : Log × Device β α := (d.log, { d with log := {} })

/-! ## Building -/

/-- Add a region. Circuit nodes are parameters of every region. -/
def addRegion [Precision β α] (d : Device β α) (name : String) (mesh : Mesh β) :
    Except (DeviceError β) (Device β α) :=
  if d.parts.regions.contains name then .error (.duplicateRegion name)
  else
    let region := Region.create d.parts.regions.size d.name name mesh d.settings.chunking
    let region := d.circuit.nodes.toList.foldl (fun r node => r.setParameter node.1 node.2) region
    let parts := { d.parts with regions := d.parts.regions.insert name region }
    .ok { d with parts }.renumber

def getRegion (d : Device β α) (name : String) : Except (DeviceError β) (Region β α) :=
  match d.parts.regions.get? name with
  | some r => .ok r
  | none => .error (.unknownRegion name)

/-- Add a contact to a region. Contacts of a device have distinct names. -/
def addContact (d : Device β α) (name region : String) (nodes : List Nat) :
    Except (DeviceError β) (Device β α) :=
  if (d.parts.contactRegion? name).isSome then .error (.duplicateContact name)
  else do
    let r ← d.getRegion region
    match Contact.of name region nodes r.nodeCount with
    | .error cause => .error (.mesh cause)
    | .ok contact => .ok { d with parts := d.parts.setRegion region (r.addContact contact) }.idle

/-- Join two regions, replacing an interface of the same name. -/
def addInterface (d : Device β α) (name region0 region1 : String) (pairs : List (Nat × Nat)) :
    Except (DeviceError β) (Device β α) := do
  let r0 ← d.getRegion region0
  let r1 ← d.getRegion region1
  if region0 = region1 then .error (.selfInterface name)
  else
    match Interface.of name (region0, r0.nodeCount) (region1, r1.nodeCount) pairs with
    | .error cause => .error (.mesh cause)
    | .ok geometry =>
      let junction : Junction β α := { device := d.name, geometry, chunking := d.settings.chunking }
      let parts := { d.parts with junctions := d.parts.junctions.insert name junction }
      .ok { d with parts }.idle

def addEquation [Scalar α] (d : Device β α) (region : String) (e : BulkEquation β) :
    Except (DeviceError β) (Device β α) := do
  let r ← d.getRegion region
  if d.bulkEquations.any fun (region', e') => region' = region ∧ e'.name = e.name then
    .error (.duplicateEquation e.name)
  else
    .ok { d with
      parts := d.parts.setRegion region (r.addEquation e.name e.variableName)
      bulkEquations := d.bulkEquations ++ [(region, e)] }.renumber

def addContactEquation (d : Device β α) (e : ContactEquation β) :
    Except (DeviceError β) (Device β α) :=
  match d.parts.contactRegion? e.contact with
  | none => .error (.unknownContact e.contact)
  | some region =>
    if d.contactEquations.any fun (_, e') => e'.contact = e.contact ∧ e'.name = e.name then
      .error (.duplicateEquation e.name)
    else .ok { d with contactEquations := d.contactEquations ++ [(region, e)] }.idle

def addInterfaceEquation (d : Device β α) (interface : String) (e : InterfaceEquation) :
    Except (DeviceError β) (Device β α) :=
  if !d.parts.junctions.contains interface then .error (.unknownInterface interface)
  else if d.interfaceEquations.any fun (i, e') => i = interface ∧ e'.name = e.name then
    .error (.duplicateEquation e.name)
  else .ok { d with interfaceEquations := d.interfaceEquations ++ [(interface, e)] }.idle

def setParameter (d : Device β α) (name : String) (value : β) : Device β α :=
  { d with parts := d.parts.mapRegions (·.setParameter name value) }

def addCircuitNode (d : Device β α) (name : String) (value : β) : Device β α :=
  ({ d with circuit := d.circuit.add name value }.setParameter name value).renumber

def setCircuitValue (d : Device β α) (name : String) (value : β) : Device β α :=
  if d.circuit.contains name then
    { d with circuit := d.circuit.setValue name value }.setParameter name value
  else d

def equation? (d : Device β α) (region name : String) : Option (BulkEquation β) :=
  (d.bulkEquations.find? fun (region', e) => region' = region ∧ e.name = name).map (·.2)

/-! ## Text -/

/-- The blocks that recreate the models and equations of the device. -/
def blockText [Scalar α] (d : Device β α) : String :=
  let regions := d.parts.regions.toList.map fun (name, r) =>
    r.modelBlocks ++ String.join ((d.bulkEquations.filter (·.1 = name)).map fun (_, e) =>
      e.blockText d.name name)
  let junctions := d.parts.junctions.values.map (·.modelBlocks d.name)
  let contacts := d.contactEquations.map fun (_, e) => e.blockText d.name
  let interfaces := d.interfaceEquations.map fun (name, e) => e.blockText d.name name
  String.join (regions ++ junctions ++ contacts ++ interfaces)

end Device

end FiniteVolume
