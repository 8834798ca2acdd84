import FiniteVolume.Model.Reading

/-!
Models on the node pairs of an interface.

A junction holds node models with one value per pair. `m@r0` and `m@r1` are the node model `m` of
region 0 and region 1 at the nodes of the pairs, and a parameter is that of region 0 or else that of
region 1. The regions are handed to every read; when either is another one than last time, or has
changed since, every name that is read through the regions is marked old first.
-/
namespace FiniteVolume

/-- Which region, in which state, a read was made against. -/
structure Fingerprint where
  instanceId : Nat
  revision : Nat
  deriving Repr, DecidableEq

def Region.fingerprint {β α : Type} (r : Region β α) : Fingerprint := ⟨r.instanceId, r.revision⟩

structure Junction (β α : Type) where
  device : String
  geometry : Interface
  models : ModelStore β α := {}
  /-- The two regions at the last read. -/
  seen : Option (Fingerprint × Fingerprint) := none
  chunking : Chunking := {}
  /-- Remarks not yet taken, oldest first. -/
  notes : List Note := []

namespace Junction

variable {β α : Type}

def name (j : Junction β α) : String := j.geometry.name

def size (j : Junction β α) : Nat := j.geometry.size

def scope (j : Junction β α) : Scope := { device := j.device, interface := some j.name }

def surroundings (j : Junction β α) : Surroundings := ⟨fun _ => #[], j.chunking⟩

def domainSize (j : Junction β α) : Domain → Nat
  | .node => j.size
  | .edge | .triangleEdge | .tetrahedronEdge => 0

/-! ## Changes -/

def declare (j : Junction β α) (name : String) (calculator : Calculator β α) : Junction β α :=
  { j with models := j.models.declare .node name calculator none }

def setValues (j : Junction β α) (name : String) (values : Array α) :
    Except ModelError (Junction β α) :=
  if values.size ≠ j.size then .error (.lengthMismatch name j.size values.size)
  else .ok { j with models := j.models.write .node name (.vector values) }

def setUniform (j : Junction β α) (name : String) (value : α) : Junction β α :=
  { j with models := j.models.write .node name (.uniform value j.size) }

def removeModel (j : Junction β α) (name : String) : Junction β α :=
  { j with models := j.models.remove .node name }

/-- Make a name and everything downstream of it stale. -/
def markOld (j : Junction β α) (name : String) : Junction β α :=
  { j with models := j.models.markOld name }

/-- The remarks so far, and the junction without them. -/
def takeNotes (j : Junction β α) : List Note × Junction β α := (j.notes, { j with notes := [] })

/-- Names that are read but not modelled here, hence read through the regions. -/
def externalNames (j : Junction β α) : List String :=
  j.models.dependencies.referenced.filter fun name => (j.models.domainOf? name).isNone

/-- Mark what is read through the regions as old, unless they are as they were last time. -/
def refresh (j : Junction β α) (now : Fingerprint × Fingerprint) : Junction β α :=
  if j.seen = some now then j
  else
    { j with
      models := j.externalNames.foldl (·.markOld ·) j.models
      seen := some now }

end Junction

/-- A junction with the two regions it is read against. -/
structure Coupled (β α : Type) where
  junction : Junction β α
  region0 : Region β α
  region1 : Region β α

/-- A step that reads a junction and may fail; what it did before failing stays done. -/
abbrev CoupledRead (β α ρ : Type) := ExceptT ModelError (StateM (Coupled β α)) ρ

namespace Coupled

variable {β α : Type}

def region (c : Coupled β α) : Side → Region β α
  | .first => c.region0
  | .second => c.region1

def setRegion (c : Coupled β α) (side : Side) (r : Region β α) : Coupled β α :=
  match side with
  | .first => { c with region0 := r }
  | .second => { c with region1 := r }

/-- The parameter of region 0, or else of region 1. -/
def parameter? (c : Coupled β α) (name : String) : Option β :=
  (c.region0.parameter? name).or (c.region1.parameter? name)

def refresh (c : Coupled β α) : Coupled β α :=
  { c with junction := c.junction.refresh (c.region0.fingerprint, c.region1.fingerprint) }

variable [Scalar α]

def onRegion {ρ : Type} (side : Side) (step : RegionRead β α ρ) : CoupledRead β α ρ :=
  fun c =>
    let (result, r) := step (c.region side)
    (result, c.setRegion side r)

/-- Resolve a name, reading models of the interface with `read`. -/
def lookupWith (read : String → CoupledRead β α (Field α)) (name : String) :
    CoupledRead β α (Option (Resolved α)) := do
  let c ← get
  if c.junction.models.contains .node name then return some ⟨.node, ← read name⟩
  else
    match Suffix.split? name with
    | some (base, .interfaceSide side) =>
      if (c.region side).models.contains .node base then
        let values ← onRegion side (Region.read .node base)
        let nodes := (c.junction.geometry.nodes side).toArray
        return some ⟨.node, values.gather c.junction.chunking nodes⟩
      else return none
    | _ => return none

/-- Run a calculator, answering lookups with `lookup`, and cache what it returns. -/
def compute (lookup : String → CoupledRead β α (Option (Resolved α))) (calculator : Calculator β α)
    (target : Target) : CoupledRead β α (Field α) := do
  let c ← get
  let outcome ← ((calculator.calculate c.junction.surroundings target).run
    (fun name => (lookup name).run) (fun name => return (← get).parameter? name) :
      StateM (Coupled β α) (Outcome α))
  let finished : CoupledRead β α (Field α) := fun c =>
    let j := c.junction
    let (result, models) := j.models.finish target none outcome.result
    let notes := j.notes ++ outcome.remarks.map (⟨target.name, ·⟩)
    (result, { c with junction := { j with models, notes } })
  finished

/-- Read a model, nesting at most `depth` further computations. -/
def readWithin : (depth : Nat) → String → CoupledRead β α (Field α)
  | depth, name => do
    let begun : CoupledRead β α (Access β α) := fun c =>
      let j := c.junction
      let (access, models) := j.models.begin .node name j.size
      (access, { c with junction := { j with models } })
    match ← begun with
    | .ready data => return data
    | .compute calculator target =>
      match depth with
      | 0 => compute (fun inner => throw (.cyclicDependency inner)) calculator target
      | depth + 1 => compute (lookupWith (readWithin depth)) calculator target

def read (name : String) : CoupledRead β α (Field α) := fun c =>
  readWithin c.junction.models.models.size name c.refresh

/-- Values of a name, at the interface or at the nodes of a region, changes of the regions having
been noticed. -/
def lookup (name : String) : CoupledRead β α (Option (Resolved α)) := fun c =>
  lookupWith (readWithin c.junction.models.models.size) name c

def find (name : String) : CoupledRead β α (Option (Resolved α)) := fun c => lookup name c.refresh

def runQuery {ρ : Type} (q : Query β α ρ) : StateM (Coupled β α) ρ := do
  modify refresh
  q.run (fun name => (lookup name).run) (fun name => return (← get).parameter? name)

end Coupled

end FiniteVolume
