import FiniteVolume.Proofs.Device.History
import FiniteVolume.Proofs.Device.Revisions
import FiniteVolume.Proofs.Device.Steps
import FiniteVolume.Proofs.Junction.Lookup
import FiniteVolume.Proofs.Junction.Resting

/-!
What calls on regions and interfaces keep, devices keep.

A property of regions that every call on a region keeps, and one of interfaces that every call on an
interface keeps, hold of all regions and interfaces of a device after every call on it
(`Device.Change.all_apply`). If calls that set parameters need not keep it, claims, passes and integration
do all the same (`Device.all_claimRows`, `Device.all_assemble`, `Device.all_integrateContacts`).
-/
namespace FiniteVolume

variable {β α : Type}

/-! ## Parts -/

namespace Parts

/-- One property holds of all regions, the other of all interfaces. -/
structure All (P : Region β α → Prop) (Q : Junction β α → Prop) (p : Parts β α) : Prop where
  regions : ∀ name r, p.regions.get? name = some r → P r
  interfaces : ∀ name j, p.junctions.get? name = some j → Q j

namespace All

variable {P : Region β α → Prop} {Q : Junction β α → Prop} {p p' : Parts β α} {name : String}
  {r : Region β α} {j : Junction β α} {c : Coupled β α} (all : p.All P Q)

include all

theorem setRegion (holds : P r) : (p.setRegion name r).All P Q := by
  refine ⟨fun name' r' found => ?_, all.interfaces⟩
  rw [Parts.setRegion, Table.get?_modify] at found
  split at found
  · obtain ⟨-, -, rfl⟩ := Option.map_eq_some_iff.mp found
    exact holds
  · exact all.regions name' r' found

theorem setJunction (holds : Q j) : (p.setJunction name j).All P Q := by
  refine ⟨all.regions, fun name' j' found => ?_⟩
  rw [Parts.setJunction, Table.get?_modify] at found
  split at found
  · obtain ⟨-, -, rfl⟩ := Option.map_eq_some_iff.mp found
    exact holds
  · exact all.interfaces name' j' found

theorem setCoupled (regions : ∀ side, P (c.region side)) (interface : Q c.junction) :
    (p.setCoupled name c).All P Q :=
  ((all.setRegion (regions .first)).setRegion (regions .second)).setJunction interface

theorem insertRegion (holds : P r) : { p with regions := p.regions.insert name r : Parts β α }.All P Q := by
  refine ⟨fun name' r' found => ?_, all.interfaces⟩
  rw [Table.get?_insert] at found
  split at found
  · cases found
    exact holds
  · exact all.regions name' r' found

theorem insertJunction (holds : Q j) :
    { p with junctions := p.junctions.insert name j : Parts β α }.All P Q := by
  refine ⟨all.regions, fun name' j' found => ?_⟩
  rw [Table.get?_insert] at found
  split at found
  · cases found
    exact holds
  · exact all.interfaces name' j' found

theorem mapRegions {P' : Region β α → Prop} {f : Region β α → Region β α} (kept : ∀ r, P r → P' (f r)) :
    (p.mapRegions f).All P' Q := by
  refine ⟨fun name r found => ?_, all.interfaces⟩
  rw [Parts.mapRegions, Table.get?_mapEntries] at found
  obtain ⟨r₀, found₀, rfl⟩ := Option.map_eq_some_iff.mp found
  exact kept r₀ (all.regions name r₀ found₀)

theorem renumber (base : ∀ r base, P r → P { r with base }) : p.renumber.All P Q := by
  refine ⟨fun name r found => ?_, all.interfaces⟩
  rw [Parts.renumber, Table.get?_mapEntries] at found
  obtain ⟨r₀, found₀, rfl⟩ := Option.map_eq_some_iff.mp found
  exact base r₀ _ (all.regions name r₀ found₀)

theorem coupled (found : p.coupled? name = some c) : (∀ side, P (c.region side)) ∧ Q c.junction := by
  obtain ⟨junction, regions⟩ := coupled?_eq_some_iff.mp found
  exact ⟨fun side => all.regions _ _ (regions side), all.interfaces _ _ junction⟩

end All

end Parts

/-! ## Calls -/

variable [BaseScalar β] [Scalar α] [Precision β α]

/-- Declared are only calculators that are usable, if the call is a declaration. -/
def Junction.Change.Allowed (usable : Calculator β α → Prop) : Change β α → Prop
  | declare _ calculator => usable calculator
  | _ => True

/-- Every call on a region that sets no parameter keeps the one property, and every call on an interface the
other, as long as they declare what is usable. The other one holds of new interfaces. -/
structure Parametric (usable : Calculator β α → Prop) (P : Region β α → Prop)
    (Q : Junction β α → Prop) : Prop where
  region : ∀ (change : Region.Change β α) r, change.parameter? = none → P r → P (change.apply r)
  declare : ∀ r d name calculator, usable calculator → P r → P (r.declare d name calculator)
  declareOnContact : ∀ r contact name calculator, usable calculator → P r →
    P (r.orElse (r.declareOnContact contact name calculator))
  base : ∀ r base, P r → P { r with base }
  joined : ∀ device geometry chunking, Q { device, geometry, chunking }
  interface : ∀ (change : Junction.Change β α) j, change.Allowed usable → Q j → Q (change.apply j)

/-- Calls that set parameters keep the property of regions too, and it holds of new regions on the meshes
that are allowed. -/
structure Lasting (allowed : Mesh β → Prop) (usable : Calculator β α → Prop) (P : Region β α → Prop)
    (Q : Junction β α → Prop) : Prop extends Parametric usable P Q where
  created : ∀ instanceId device name mesh chunking, allowed mesh →
    P (Region.create instanceId device name mesh chunking)
  parameter : ∀ (r : Region β α) name value, P r → P (r.setParameter name value)

namespace Lasting

variable {allowed : Mesh β → Prop} {usable : Calculator β α → Prop} {P : Region β α → Prop}
  {Q : Junction β α → Prop} (lasting : Lasting allowed usable P Q)

include lasting

theorem call {r : Region β α} (change : Region.Change β α) (holds : P r) : P (change.apply r) := by
  cases set : change.parameter? with
  | none => exact lasting.region change r set holds
  | some x =>
    cases change <;> cases set
    exact lasting.parameter r _ _ holds

theorem run {r : Region β α} (changes : List (Region.Change β α)) (holds : P r) : P (r.run changes) := by
  induction changes generalizing r with
  | nil => exact holds
  | cons change rest ih => exact ih (lasting.call change holds)

theorem runs {p p' : Parts β α} (all : p.All P Q) (runs : p.Runs p') : p'.All P Q where
  regions name r' found' := by
    obtain ⟨changes, left⟩ := runs.regions name
    obtain ⟨r, found, rfl⟩ := Option.map_eq_some_iff.mp (left.symm.trans found')
    exact lasting.run changes (all.regions name r found)
  interfaces name j found' := all.interfaces name j (runs.junctions ▸ found')

end Lasting

/-! ### Calculators -/

section

variable {kind : Calculator β α → Prop}

omit [BaseScalar β] [Precision β α] in
theorem Junction.Change.uses_apply {j : Junction β α} {change : Change β α} (fits : change.Allowed kind)
    (uses : j.models.Uses kind) : (change.apply j).models.Uses kind := by
  cases change with
  | declare name calculator => exact uses.declare fits none
  | setValues name values =>
    rw [apply, Junction.setValues]
    split
    · exact uses
    · exact uses.write _
  | setUniform name value => exact uses.write _
  | removeModel name => exact uses.remove _ name
  | markOld name => exact uses.of_uncached_eq ModelStore.uncached_markOld
  | takeNotes => exact uses
  | read name region0 region1 =>
    exact uses.of_uncached_eq (Coupled.Restores.read ⟨j, region0, region1⟩ name).models.declared
  | find name region0 region1 =>
    exact uses.of_uncached_eq (Coupled.Restores.find ⟨j, region0, region1⟩ name).models.declared

/-- Calls that declare by expressions and by calculators of a kind to which expressions belong leave only
models of the kind. -/
theorem lasting_uses (expressions : ∀ functions e, kind (.ofExpr functions e)) :
    Lasting (fun _ => True) kind (fun r : Region β α => r.models.Uses kind)
      fun j : Junction β α => j.models.Uses kind where
  created instanceId device name mesh chunking _ :=
    Region.uses_create kind instanceId device name mesh chunking
  region change r _ uses := Region.uses_apply expressions uses change
  parameter r name value uses := Region.uses_apply expressions uses (.setParameter name value)
  declare _ d name _ used uses := uses.declare used none
  declareOnContact r contact name calculator used uses := by
    unfold Region.declareOnContact
    split
    · exact uses.declare used (some contact)
    · exact uses
  base _ _ uses := uses
  joined _ _ _ _ _ _ _ found := by cases found
  interface _ _ fits uses := Junction.Change.uses_apply fits uses

end

/-! ### Passes -/

namespace Parametric

variable {usable : Calculator β α → Prop} {P : Region β α → Prop} {Q : Junction β α → Prop}
  (parametric : Parametric usable P Q)

include parametric

theorem composed_region {ρ : Type} {settings : Settings β} {may : Pass.Effect → Prop}
    {a : RegionPass β α ρ} (composed : Pass.Composed (Region.rules settings) may a)
    {s : PassState (Region β α) α} (holds : P s.owner) : P (a s).2.owner := by
  refine composed.keeps (I := P) (fun ρ a reads s holds => ?_) holds
  cases reads with
  | fetch site d name =>
    exact parametric.region .takeNotes _ rfl (parametric.region (.read d name) _ rfl holds)

theorem regions_read {c : Coupled β α} (name : String) (regions : ∀ side, P (c.region side)) :
    ∀ side, P ((c.read name).2.region side) := by
  have kept := Coupled.readWithin_rel (R := fun c c' : Coupled β α =>
    (∀ side, P (c.region side)) → ∀ side, P (c'.region side)) (fun _ => id)
    (fun _ _ _ first second => second ∘ first) (fun c side name regions other => ?_)
    (fun _ _ _ _ _ _ _ _ _ ran => ran) c.junction.models.models.size name c.refresh
  · refine kept fun side => ?_
    rw [Coupled.region_refresh]
    exact regions side
  · by_cases same : other = side
    · rw [same, Coupled.region_setRegion]
      exact parametric.region (.read .node name) _ rfl (regions side)
    · rw [Coupled.region_setRegion_of_ne same]
      exact regions other

theorem composed_coupled {ρ : Type} {settings : Settings β} {may : Pass.Effect → Prop}
    {a : CoupledPass β α ρ} (composed : Pass.Composed (Coupled.rules settings) may a)
    {s : PassState (Coupled β α) α} (holds : (∀ side, P (s.owner.region side)) ∧ Q s.owner.junction) :
    (∀ side, P ((a s).2.owner.region side)) ∧ Q (a s).2.owner.junction := by
  refine composed.keeps (I := fun c => (∀ side, P (c.region side)) ∧ Q c.junction)
    (fun ρ a reads s => ?_) holds
  rintro ⟨regions, interface⟩
  cases reads with
  | read site name =>
    have regions' := parametric.regions_read name regions
    have interface' := parametric.interface (.read name s.owner.region0 s.owner.region1) _ trivial interface
    refine ⟨fun side => ?_, parametric.interface .takeNotes _ trivial interface'⟩
    cases side
    · exact parametric.region .takeNotes _ rfl (regions' .first)
    · exact parametric.region .takeNotes _ rfl (regions' .second)
  | onRegion side composed =>
    rw [Pass.onPart_eq]
    refine ⟨fun other => ?_, by rwa [Coupled.junction_setRegion]⟩
    by_cases same : other = side
    · rw [same, Coupled.region_setRegion]
      exact parametric.composed_region composed (regions side)
    · rw [Coupled.region_setRegion_of_ne same]
      exact regions other

theorem composed {ρ : Type} {settings : Settings β} {may : Pass.Effect → Prop}
    {a : Pass (Parts β α) α ρ} (composed : Pass.Composed (Parts.rules settings may) may a)
    {s : PassState (Parts β α) α} (all : s.owner.All P Q) : (a s).2.owner.All P Q := by
  refine Pass.Composed.keeps (I := fun p => p.All P Q) (fun ρ a runs s all => ?_) composed all
  cases runs with
  | region name composed =>
    rw [Parts.onRegion_eq]
    cases found : s.owner.regions.get? name with
    | none => rwa [Pass.run_onPart?_of_missing found]
    | some r =>
      rw [Pass.run_onPart? found]
      exact all.setRegion (parametric.composed_region composed (s := { s with owner := r })
        (all.regions name r found))
  | coupled name composed =>
    rw [Parts.onCoupled_eq]
    cases found : s.owner.coupled? name with
    | none => rwa [Pass.run_onPart?_of_missing found]
    | some c =>
      rw [Pass.run_onPart? found]
      have after := parametric.composed_coupled composed (s := { s with owner := c }) (all.coupled found)
      exact all.setCoupled after.1 after.2

end Parametric

/-! ### Devices -/

namespace Device

/-- A region that is added has a mesh that is allowed, and calculators that are declared are usable. -/
def Change.Allowed (allowed : Mesh β → Prop) (usable : Calculator β α → Prop) : Change β α → Prop
  | addRegion _ mesh => allowed mesh
  | declare _ _ _ calculator | declareOnContact _ _ _ calculator => usable calculator
  | interface _ change => change.Allowed usable
  | _ => True

variable {allowed : Mesh β → Prop} {usable : Calculator β α → Prop} {P : Region β α → Prop}
  {Q : Junction β α → Prop} {d d' : Device β α}

section

omit [Scalar α] [Precision β α]

theorem Change.allowed_of_forall (meshes : ∀ mesh, allowed mesh)
    (calculators : ∀ calculator, usable calculator) (change : Change β α) :
    change.Allowed allowed usable := by
  cases change with
  | addRegion name mesh => exact meshes mesh
  | declare region kind name calculator => exact calculators calculator
  | declareOnContact region contact name calculator => exact calculators calculator
  | interface name change =>
    cases change with
    | declare name calculator => exact calculators calculator
    | _ => trivial
  | _ => trivial

theorem all_create {name : String} {settings : Settings β} (made : create name settings = .ok d) :
    d.parts.All P Q := by
  unfold create at made
  split at made
  · cases made
    refine ⟨fun _ _ found => ?_, fun _ _ found => ?_⟩
    all_goals cases found
  · cases made

variable (all : d.parts.All P Q)

include all

theorem all_orElse {result : Except (DeviceError β) (Device β α)}
    (kept : ∀ d', result = .ok d' → d'.parts.All P Q) : (d.orElse result).parts.All P Q := by
  cases result with
  | ok d' => exact kept d' rfl
  | error e => exact all

theorem all_changeRegion {change : Region β α → Region β α} (kept : ∀ r, P r → P (change r))
    (name : String) : (d.changeRegion name change).parts.All P Q := by
  unfold changeRegion
  split
  next r found => exact all.setRegion (kept r (all.regions name r found))
  · exact all

theorem all_addContactEquation {e : ContactEquation β} (added : d.addContactEquation e = .ok d') :
    d'.parts.All P Q := by
  unfold addContactEquation at added
  split at added
  · cases added
  · split at added
    · cases added
    · cases added
      exact all

theorem all_addInterfaceEquation {name : String} {e : InterfaceEquation}
    (added : d.addInterfaceEquation name e = .ok d') : d'.parts.All P Q := by
  unfold addInterfaceEquation at added
  split at added
  · cases added
  · split at added
    · cases added
    · cases added
      exact all

end

section

variable (parametric : Parametric usable P Q) (all : d.parts.All P Q)

include parametric all

theorem all_renumber : d.renumber.parts.All P Q := Parts.All.renumber all parametric.base

theorem all_claimRows : d.claimRows.2.parts.All P Q := by
  have prepared : d.prepared.parts.All P Q := all_renumber parametric all
  rcases ran : d.claimPass with ⟨e | ⟨⟩, s⟩
  · obtain ⟨log, failed⟩ := claimRows_of_error ran
    rw [failed]
    exact prepared
  · rw [claimRows_of_ok ran]
    exact prepared

theorem all_checkLayout : d.checkLayout.parts.All P Q := by
  unfold checkLayout
  split
  · split
    · exact all
    · exact all_renumber parametric all
  · exact all

theorem all_run {ρ : Type} {settings : Settings β} {may : Pass.Effect → Prop} {step : Pass (Parts β α) α ρ}
    (composed : Pass.Composed (Parts.rules settings may) may step) (out : Records α) :
    (d.run out step).2.1.parts.All P Q := parametric.composed composed (s := d.passState out) all

theorem all_numericPass {select : Selector} (numeric : select ≠ .rows) (time : TimeMode) (out : Records α) :
    (d.numericPass select time out).2.1.parts.All P Q := by
  have boundary := all_run parametric all (d.composed_boundaryPass time numeric) out
  unfold numericPass
  split
  next ran =>
    rw [ran] at boundary
    exact boundary
  next d₁ out₁ ran =>
    rw [ran] at boundary
    have bulk := all_run parametric boundary (d₁.composed_bulkPass time numeric) {}
    split
    all_goals
      next ran' =>
        rw [ran'] at bulk
        exact bulk

theorem all_assemble (select : Selector) (time : TimeMode) (out : Records α) :
    (d.assemble select time out).2.1.parts.All P Q := by
  unfold assemble
  split
  · exact all_claimRows parametric all
  next numeric =>
    dsimp only
    split
    · exact all_numericPass parametric (all_checkLayout parametric all) numeric time out
    · exact all_checkLayout parametric all

theorem all_assembleCycle (select : Selector) (time : TimeMode) (out : Records α) :
    (d.assembleCycle select time out).2.1.parts.All P Q := by
  have claimed := all_claimRows parametric all
  unfold assembleCycle
  split
  next ran =>
    rw [ran] at claimed
    exact claimed
  next ran =>
    rw [ran] at claimed
    exact all_assemble parametric claimed select time out

theorem all_addContact {name region : String} {nodes : List Nat}
    (added : d.addContact name region nodes = .ok d') : d'.parts.All P Q := by
  unfold addContact at added
  split at added
  · cases added
  · obtain ⟨r, found, added⟩ := getRegion_bind_eq_ok added
    split at added
    · cases added
    next contact _ =>
      cases added
      exact all.setRegion (parametric.region (.addContact contact) r rfl (all.regions _ r found))

theorem all_addInterface {name region0 region1 : String} {pairs : List (Nat × Nat)}
    (added : d.addInterface name region0 region1 pairs = .ok d') : d'.parts.All P Q := by
  unfold addInterface at added
  obtain ⟨r0, -, added⟩ := getRegion_bind_eq_ok added
  obtain ⟨r1, -, added⟩ := getRegion_bind_eq_ok added
  split at added
  · cases added
  · split at added
    · cases added
    next geometry _ =>
      cases added
      exact all.insertJunction (parametric.joined d.name geometry d.settings.chunking)

theorem all_addEquation {region : String} {e : BulkEquation β}
    (added : d.addEquation region e = .ok d') : d'.parts.All P Q := by
  unfold addEquation at added
  obtain ⟨r, found, added⟩ := getRegion_bind_eq_ok added
  split at added
  · cases added
  · cases added
    have here := parametric.region (.addEquation e.name e.variableName) r rfl (all.regions _ r found)
    exact (all.setRegion here).renumber parametric.base

theorem all_changeInterface {change : Junction.Change β α} (fits : change.Allowed usable) (name : String) :
    (d.changeInterface name (Junction.Change.apply · change)).parts.All P Q := by
  unfold changeInterface
  split
  next j found => exact all.setJunction (parametric.interface change j fits (all.interfaces name j found))
  · exact all

theorem all_integrateContacts : d.integrateContacts.2.parts.All P Q := by
  have start : ({ owner := d.parts, log := d.log } : PassState (Parts β α) α).owner.All P Q := all
  exact integrateFrom_induction (fun region e mask _ all =>
    parametric.composed (Parts.composed_integrate d.settings region e mask) all) d.ownedNodes start

/-- The call adds no region, moves no circuit node and sets no parameter of a region. -/
def Change.KeepsParameters : Change β α → Prop
  | addRegion .. | addCircuitNode .. | setCircuitValue .. | update .. => False
  | region _ change => change.parameter? = none
  | _ => True

/-- What calls on regions keep that set no parameter, calls on the device keep that set none. -/
theorem Change.all_apply_of_keepsParameters {change : Change β α} (fits : change.Allowed allowed usable)
    (keeps : change.KeepsParameters) : (change.apply d).parts.All P Q := by
  cases change with
  | addContact name region nodes => exact all_orElse all fun _ => all_addContact parametric all
  | addInterface name region0 region1 pairs => exact all_orElse all fun _ => all_addInterface parametric all
  | addEquation region e => exact all_orElse all fun _ => all_addEquation parametric all
  | addContactEquation e => exact all_orElse all fun _ => all_addContactEquation all
  | addInterfaceEquation name e => exact all_orElse all fun _ => all_addInterfaceEquation all
  | region name change => exact all_changeRegion all (fun r => parametric.region change r keeps) name
  | declare region kind name calculator =>
    exact all_changeRegion all (fun r => parametric.declare r kind name calculator fits) region
  | declareOnContact region contact name calculator =>
    exact all_changeRegion all (fun r => parametric.declareOnContact r contact name calculator fits) region
  | interface name change => exact all_changeInterface parametric all fits name
  | takeLog => exact all
  | claimRows => exact all_claimRows parametric all
  | assemble select time out => exact all_assemble parametric all select time out
  | assembleCycle select time out => exact all_assembleCycle parametric all select time out
  | integrateContacts => exact all_integrateContacts parametric all
  | addRegion | addCircuitNode | setCircuitValue | update => exact keeps.elim

end

variable (lasting : Lasting allowed usable P Q) (all : d.parts.All P Q)

include lasting all

theorem all_addRegion {name : String} {mesh : Mesh β} (fits : allowed mesh)
    (added : d.addRegion name mesh = .ok d') : d'.parts.All P Q := by
  unfold addRegion at added
  split at added
  · cases added
  · cases added
    refine (all.insertRegion ?_).renumber lasting.base
    have holds := lasting.run (d.circuit.nodes.toList.map fun node => .setParameter node.1 node.2)
      (lasting.created d.parts.regions.size d.name name mesh d.settings.chunking fits)
    rwa [Region.run, List.foldl_map] at holds

/-- What calls on regions and interfaces keep, every call on the device keeps. -/
theorem Change.all_apply (change : Change β α) (fits : change.Allowed allowed usable) :
    (change.apply d).parts.All P Q := by
  cases change with
  | addRegion name mesh => exact all_orElse all fun _ => all_addRegion lasting all fits
  | addCircuitNode name value =>
    exact (lasting.runs all (.mapRegions d.parts (.setParameter name value))).renumber lasting.base
  | setCircuitValue name value => exact lasting.runs all (d.runs_setCircuitValue name value)
  | region name change => exact all_changeRegion all (fun r => lasting.call change) name
  | update solution => exact lasting.runs all (d.runs_update solution)
  | _ => exact Change.all_apply_of_keepsParameters lasting.toParametric all fits trivial

theorem all_after {changes : List (Change β α)}
    (fit : ∀ change ∈ changes, change.Allowed allowed usable) : (d.after changes).parts.All P Q := by
  induction changes generalizing d with
  | nil => exact all
  | cons change rest ih =>
    exact ih (change.all_apply lasting all (fit change (.head _))) fun later member =>
      fit later (.tail _ member)

end Device

end FiniteVolume
