import FiniteVolume.Log
import FiniteVolume.Name
import FiniteVolume.Mesh.Boundary
import FiniteVolume.Model.Store

/-!
A region: a mesh with its models, parameters, contacts and equation slots.

Every change of a model, parameter or contact raises the revision; every change of an equation slot
or contact raises the layout revision, since rows or their owners may move. The row of an equation
at a node is `base + position of the equation * number of nodes + node`.
-/
namespace FiniteVolume

/-- A remark on a model whose value is usable all the same. -/
structure Note where
  model : String
  message : String
  deriving Repr, DecidableEq

def Note.text (n : Note) : String := "model \"" ++ n.model ++ "\": " ++ n.message

inductive Axis where
  | x
  | y
  | z
  deriving Repr, DecidableEq

namespace Axis

def all : List Axis := [x, y, z]

def text : Axis → String
  | x => "x"
  | y => "y"
  | z => "z"

def coordinate {β : Type} (a : Axis) (p : Point β) : β :=
  match a with
  | x => p.x
  | y => p.y
  | z => p.z

end Axis

structure Region (β α : Type) where
  /-- Tells regions apart that carry one name at different times. -/
  instanceId : Nat
  revision : Nat := 0
  layoutRevision : Nat := 0
  device : String
  name : String
  mesh : Mesh β
  models : ModelStore β α := {}
  parameters : Table String β := ∅
  contacts : Table String Contact := ∅
  /-- Equations with the variables they solve for. -/
  slots : Table String String := ∅
  /-- First row of the region. -/
  base : Nat := 0
  chunking : Chunking := {}
  /-- Remarks not yet taken, oldest first. -/
  notes : List Note := []

namespace Region

variable {β α : Type}

/-- A region over a mesh, with its coordinate models. -/
def create [Precision β α] (instanceId : Nat) (device name : String) (mesh : Mesh β)
    (chunking : Chunking) : Region β α where
  instanceId
  device
  name
  mesh
  chunking
  models :=
    let values (a : Axis) : Array α := mesh.points.map fun p => Precision.narrow (a.coordinate p)
    Axis.all.foldl (fun models a => models.write .node a.text (.vector (values a))) {}

def nodeCount (r : Region β α) : Nat := r.mesh.nodeCount

def size (r : Region β α) (d : Domain) : Nat := r.mesh.size d

def scope (r : Region β α) : Scope := { device := r.device, region := some r.name }

/-- What evaluations may know of the region without asking. -/
def surroundings (r : Region β α) : Surroundings := ⟨r.mesh.elementEdgeMap, r.chunking⟩

/-! ## Models and parameters -/

def touch (r : Region β α) : Region β α := { r with revision := r.revision + 1 }

def setUniform (r : Region β α) (d : Domain) (name : String) (value : α) : Region β α :=
  { r with models := r.models.write d name (.uniform value (r.size d)) }.touch

/-- Write a model, whose values must cover the domain. -/
def setData (r : Region β α) (d : Domain) (name : String) (data : Field α) :
    Except ModelError (Region β α) :=
  if data.size ≠ r.size d then .error (.lengthMismatch name (r.size d) data.size)
  else .ok { r with models := r.models.write d name data }.touch

def setValues (r : Region β α) (d : Domain) (name : String) (values : Array α) :
    Except ModelError (Region β α) :=
  r.setData d name (.vector values)

def declare (r : Region β α) (d : Domain) (name : String) (calculator : Calculator β α) :
    Region β α :=
  { r with models := r.models.declare d name calculator none }.touch

/-- Declare a node model that is computed at the nodes of a contact and zero elsewhere. -/
def declareOnContact (r : Region β α) (contact name : String) (calculator : Calculator β α) :
    Except ModelError (Region β α) :=
  if r.contacts.contains contact then
    .ok { r with models := r.models.declare .node name calculator (some contact) }.touch
  else .error (.unknownContact contact)

def removeModel (r : Region β α) (d : Domain) (name : String) : Region β α :=
  if r.models.contains d name then { r with models := r.models.remove d name }.touch else r

def setDisplay (r : Region β α) (d : Domain) (name : String) (display : DisplayType) :
    Region β α :=
  { r with models := r.models.setDisplay d name display }

def markOld (r : Region β α) (name : String) : Region β α :=
  { r with models := r.models.markOld name }.touch

def setParameter (r : Region β α) (name : String) (value : β) : Region β α :=
  { r with
    parameters := r.parameters.insert name value
    models := r.models.markOld name }.touch

def parameter? (r : Region β α) (name : String) : Option β := r.parameters.get? name

def addContact (r : Region β α) (contact : Contact) : Region β α :=
  { r with
    contacts := r.contacts.insert contact.name contact
    layoutRevision := r.layoutRevision + 1 }.touch

/-- The remarks so far, and the region without them. -/
def takeNotes (r : Region β α) : List Note × Region β α := (r.notes, { r with notes := [] })

/-! ## Equation slots -/

/-- Give an equation a slot and make sure that its variable exists. A present equation keeps its
position. -/
def addEquation [Scalar α] (r : Region β α) (equation variableName : String) : Region β α :=
  let r := if r.models.contains .node variableName then r else r.setUniform .node variableName 0
  { r with
    slots := r.slots.insert equation variableName
    layoutRevision := r.layoutRevision + 1 }

/-- Take the slot of an equation away; later equations move up. -/
def removeEquation (r : Region β α) (equation : String) : Region β α :=
  if r.slots.contains equation then
    { r with slots := r.slots.erase equation, layoutRevision := r.layoutRevision + 1 }
  else r

def equationIndex? (r : Region β α) (equation : String) : Option Nat := r.slots.position? equation

def variableOf? (r : Region β α) (equation : String) : Option String := r.slots.get? equation

def equationFor? (r : Region β α) (variableName : String) : Option String :=
  (r.slots.toList.find? (·.2 = variableName)).map (·.1)

def variableNames (r : Region β α) : List String := r.slots.values

def rowCount (r : Region β α) : Nat := r.slots.size * r.nodeCount

def row? (r : Region β α) (equation : String) (node : Nat) : Option Nat :=
  (r.equationIndex? equation).map fun i => r.base + i * r.nodeCount + node

def firstRow? (r : Region β α) (equation : String) : Option Nat := r.row? equation 0

def rows? (r : Region β α) (equation : String) : Option (List Nat) :=
  (r.firstRow? equation).map fun start => (List.range r.nodeCount).map (start + ·)

end Region

end FiniteVolume
