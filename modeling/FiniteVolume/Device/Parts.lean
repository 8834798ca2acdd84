import FiniteVolume.Assembly.Pass
import FiniteVolume.Model.Junction

/-!
The regions of a device and the interfaces between them. Both have distinct names, and an interface
names the regions it joins.
-/
namespace FiniteVolume

/-- The regions and interfaces of a device, in order of creation. -/
structure Parts (β α : Type) where
  regions : Table String (Region β α) := ∅
  junctions : Table String (Junction β α) := ∅

namespace Parts

variable {β α ρ : Type}

def setRegion (p : Parts β α) (name : String) (r : Region β α) : Parts β α :=
  { p with regions := p.regions.modify name fun _ => r }

def mapRegions (p : Parts β α) (f : Region β α → Region β α) : Parts β α :=
  { p with regions := p.regions.mapEntries fun _ => f }

def setJunction (p : Parts β α) (name : String) (j : Junction β α) : Parts β α :=
  { p with junctions := p.junctions.modify name fun _ => j }

def contactRegion? (p : Parts β α) (contact : String) : Option String :=
  (p.regions.toList.find? fun (_, r) => r.contacts.contains contact).map (·.1)

def coupled? (p : Parts β α) (name : String) : Option (Coupled β α) := do
  let j ← p.junctions.get? name
  let r0 ← p.regions.get? j.geometry.region0
  let r1 ← p.regions.get? j.geometry.region1
  return ⟨j, r0, r1⟩

def setCoupled (p : Parts β α) (name : String) (c : Coupled β α) : Parts β α :=
  ((p.setRegion c.junction.geometry.region0 c.region0).setRegion c.junction.geometry.region1
    c.region1).setJunction name c.junction

def rowCount (p : Parts β α) : Nat := p.regions.values.foldl (fun rows r => rows + r.rowCount) 0

def rowsBefore (p : Parts β α) (name : String) : Nat :=
  (p.regions.toList.takeWhile (·.1 ≠ name)).foldl (fun rows entry => rows + entry.2.rowCount) 0

def renumber (p : Parts β α) : Parts β α :=
  { p with regions := p.regions.mapEntries fun name r => { r with base := p.rowsBefore name } }

/-- Run a pass over one region; no result without that region. -/
def onRegion (name : String) (step : Pass (Region β α) α ρ) : Pass (Parts β α) α (Option ρ) := do
  match (← get).owner.regions.get? name with
  | none => return none
  | some r => some <$> Pass.onPart (fun _ => r) (·.setRegion name ·) step

/-- Run a pass over an interface and its regions; no result without that interface. -/
def onCoupled (name : String) (step : Pass (Coupled β α) α ρ) : Pass (Parts β α) α (Option ρ) := do
  match (← get).owner.coupled? name with
  | none => return none
  | some c => some <$> Pass.onPart (fun _ => c) (·.setCoupled name ·) step

end Parts

end FiniteVolume
