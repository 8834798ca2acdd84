import FiniteVolume.Proofs.Circuit
import FiniteVolume.Proofs.Device.Invariant
import FiniteVolume.Proofs.Model.InRange

/-!
What building a device keeps.

Whatever the calls, values fit, as long as regions are added on meshes that constructors give
(`Device.regular_after`), and circuit nodes stand in the order in which they were first added
(`Device.names_after`).
-/
namespace FiniteVolume

variable {β α : Type}

/-! ## Values that fit -/

namespace Parts

/-- The regions lie on meshes as constructors give them, and values fit. -/
structure Regular (p : Parts β α) : Prop where
  regions : ∀ name r, p.regions.get? name = some r → r.Regular
  junctions : ∀ name j, p.junctions.get? name = some j → j.Sized

namespace Regular

variable {p p' : Parts β α}

theorem iff_all : p.Regular ↔ p.All Region.Regular Junction.Sized :=
  ⟨fun regular => ⟨regular.regions, regular.junctions⟩, fun all => ⟨all.regions, all.interfaces⟩⟩

variable (regular : p.Regular)

include regular

theorem sized : p.Sized := ⟨fun name r found => (regular.regions name r found).sized, regular.junctions⟩

theorem later (later : Owner.Later p p') : p'.Regular where
  regions name r' found' := by
    obtain ⟨r, found, bare⟩ := get?_regions_of_bare_eq later.bare.symm found'
    have mesh : r.mesh = r'.mesh := Region.eq_of_bare_eq (f := Region.mesh) (fun _ => rfl) bare
    exact ⟨mesh ▸ (regular.regions name r found).mesh,
      (later.sized regular.sized).regions name r' found'⟩
  junctions := (later.sized regular.sized).junctions

end Regular

end Parts

variable [BaseScalar β]

/-- A new region has the coordinates of its nodes for values. -/
theorem Region.regular_create [Precision β α] {instanceId : Nat} {device name : String} {mesh : Mesh β}
    (built : mesh.Built) {chunking : Chunking} :
    (create instanceId device name mesh chunking : Region β α).Regular := by
  refine create_induction ⟨built.cornered, ModelStore.sized_empty _⟩ fun r axis data regular _ fits => ?_
  exact ⟨regular.mesh, regular.sized.write fits⟩

theorem lasting_regular [Scalar α] [Precision β α] : Lasting Mesh.Built (fun _ => True)
    (Region.Regular : Region β α → Prop) (Junction.Sized : Junction β α → Prop) where
  created _ _ _ _ _ built := Region.regular_create built
  region change r _ regular := regular.fits (change.fits r)
  parameter r name value regular := regular.fits ((Region.Change.setParameter name value).fits r)
  declare _ _ _ calculator _ regular := ⟨regular.mesh, regular.sized.declare calculator none⟩
  declareOnContact r contact name calculator _ regular := by
    unfold Region.declareOnContact
    split
    · exact ⟨regular.mesh, regular.sized.declare calculator (some contact)⟩
    · exact regular
  base _ _ regular := ⟨regular.mesh, regular.sized⟩
  joined _ _ _ := ModelStore.sized_empty _
  interface change j _ sized := change.sized_apply j sized

namespace Device

variable {d d' : Device β α}

theorem regular_create {name : String} {settings : Settings β} (made : create name settings = .ok d) :
    d.parts.Regular ∧ d.circuit.names = ∅ := by
  refine ⟨Parts.Regular.iff_all.mpr (all_create made), ?_⟩
  unfold create at made
  split at made
  · cases made
    rfl
  · cases made

def Change.Meshed : Change β α → Prop
  | addRegion _ mesh => mesh.Built
  | _ => True

theorem Change.Meshed.allowed {change : Change β α} (meshed : change.Meshed) :
    change.Allowed Mesh.Built fun _ => True := by
  cases change with
  | addRegion name mesh => exact meshed
  | interface name change => cases change <;> trivial
  | _ => trivial

variable [Scalar α] [Precision β α]

/-- On meshes that constructors give, every history keeps values that fit. -/
theorem regular_after (regular : d.parts.Regular) (changes : List (Change β α))
    (meshed : ∀ change ∈ changes, change.Meshed) : (d.after changes).parts.Regular := by
  rw [Parts.Regular.iff_all] at regular ⊢
  exact all_after lasting_regular regular fun change member => (meshed change member).allowed

/-! ## Circuit nodes -/

def Change.node? : Change β α → Option String
  | addCircuitNode name _ => some name
  | _ => none

section

omit [Scalar α] [Precision β α]

theorem nodes_orElse {result : Except (DeviceError β) (Device β α)}
    (kept : ∀ d', result = .ok d' → d'.circuit.nodes = d.circuit.nodes) :
    (d.orElse result).circuit.nodes = d.circuit.nodes := by
  cases result with
  | ok d' => exact kept d' rfl
  | error e => rfl

theorem circuit_changeRegion (d : Device β α) (name : String) (change : Region β α → Region β α) :
    (d.changeRegion name change).circuit = d.circuit := by
  unfold changeRegion
  split <;> rfl

theorem circuit_changeInterface (d : Device β α) (name : String) (change : Junction β α → Junction β α) :
    (d.changeInterface name change).circuit = d.circuit := by
  unfold changeInterface
  split <;> rfl

theorem nodes_checkLayout (d : Device β α) : d.checkLayout.circuit.nodes = d.circuit.nodes := by
  unfold checkLayout
  split
  · split <;> rfl
  · rfl

theorem nodes_addInterface {name region0 region1 : String} {pairs : List (Nat × Nat)}
    (added : d.addInterface name region0 region1 pairs = .ok d') :
    d'.circuit.nodes = d.circuit.nodes := by
  unfold addInterface at added
  obtain ⟨r0, -, added⟩ := getRegion_bind_eq_ok added
  obtain ⟨r1, -, added⟩ := getRegion_bind_eq_ok added
  split at added
  · cases added
  · split at added <;> cases added
    rfl

theorem nodes_addContact {name region : String} {nodes : List Nat}
    (added : d.addContact name region nodes = .ok d') : d'.circuit.nodes = d.circuit.nodes := by
  unfold addContact at added
  split at added
  · cases added
  · obtain ⟨r, -, added⟩ := getRegion_bind_eq_ok added
    split at added <;> cases added
    rfl

theorem nodes_addContactEquation {e : ContactEquation β} (added : d.addContactEquation e = .ok d') :
    d'.circuit.nodes = d.circuit.nodes := by
  unfold addContactEquation at added
  split at added
  · cases added
  · split at added <;> cases added
    rfl

theorem nodes_addInterfaceEquation {name : String} {e : InterfaceEquation}
    (added : d.addInterfaceEquation name e = .ok d') : d'.circuit.nodes = d.circuit.nodes := by
  unfold addInterfaceEquation at added
  split at added
  · cases added
  · split at added <;> cases added
    rfl

end

section

omit [Precision β α]

theorem nodes_addEquation {region : String} {e : BulkEquation β}
    (added : d.addEquation region e = .ok d') : d'.circuit.nodes = d.circuit.nodes := by
  unfold addEquation at added
  obtain ⟨r, -, added⟩ := getRegion_bind_eq_ok added
  split at added <;> cases added
  rfl

theorem nodes_claimRows (d : Device β α) : d.claimRows.2.circuit.nodes = d.circuit.nodes := by
  rcases ran : d.claimPass with ⟨e | ⟨⟩, s⟩
  · obtain ⟨log, failed⟩ := claimRows_of_error ran
    rw [failed]
    rfl
  · rw [claimRows_of_ok ran]
    rfl

theorem circuit_numericPass (d : Device β α) (select : Selector) (time : TimeMode) (out : Records α) :
    (d.numericPass select time out).2.1.circuit = d.circuit := by
  have boundary : (d.run out (d.boundaryPass select time)).2.1.circuit = d.circuit := rfl
  unfold numericPass
  split
  next ran =>
    rw [ran] at boundary
    exact boundary
  next d₁ out₁ ran =>
    rw [ran] at boundary
    have bulk : (d₁.run {} (d₁.bulkPass select time)).2.1.circuit = d₁.circuit := rfl
    split
    all_goals
      next ran' =>
        rw [ran'] at bulk
        exact bulk.trans boundary

theorem nodes_assemble (d : Device β α) (select : Selector) (time : TimeMode) (out : Records α) :
    (d.assemble select time out).2.1.circuit.nodes = d.circuit.nodes := by
  unfold Device.assemble
  split
  · exact d.nodes_claimRows
  · dsimp only
    split
    · exact (congrArg Circuit.nodes (circuit_numericPass ..)).trans d.nodes_checkLayout
    · exact d.nodes_checkLayout

theorem nodes_assembleCycle (d : Device β α) (select : Selector) (time : TimeMode) (out : Records α) :
    (d.assembleCycle select time out).2.1.circuit.nodes = d.circuit.nodes := by
  have claimed := d.nodes_claimRows
  unfold Device.assembleCycle
  split
  next ran =>
    rw [ran] at claimed
    exact claimed
  next ran =>
    rw [ran] at claimed
    exact (nodes_assemble _ select time out).trans claimed

end

omit [Scalar α] in
theorem nodes_addRegion {name : String} {mesh : Mesh β} (added : d.addRegion name mesh = .ok d') :
    d'.circuit.nodes = d.circuit.nodes := by
  unfold addRegion at added
  split at added <;> cases added
  rfl

def Change.MovesCircuit : Change β α → Prop
  | addCircuitNode .. | setCircuitValue .. | update .. => True
  | _ => False

/-- Every other call leaves circuit nodes with their values. -/
theorem Change.nodes_apply {change : Change β α} (rests : ¬change.MovesCircuit) (d : Device β α) :
    (change.apply d).circuit.nodes = d.circuit.nodes := by
  cases change with
  | addRegion name mesh => exact nodes_orElse fun _ => nodes_addRegion
  | addContact name region nodes => exact nodes_orElse fun _ => nodes_addContact
  | addInterface name region0 region1 pairs => exact nodes_orElse fun _ => nodes_addInterface
  | addEquation region e => exact nodes_orElse fun _ => nodes_addEquation
  | addContactEquation e => exact nodes_orElse fun _ => nodes_addContactEquation
  | addInterfaceEquation name e => exact nodes_orElse fun _ => nodes_addInterfaceEquation
  | region name change => exact congrArg Circuit.nodes (d.circuit_changeRegion name _)
  | declare region kind name calculator => exact congrArg Circuit.nodes (d.circuit_changeRegion region _)
  | declareOnContact region contact name calculator =>
    exact congrArg Circuit.nodes (d.circuit_changeRegion region _)
  | interface name change => exact congrArg Circuit.nodes (d.circuit_changeInterface name _)
  | takeLog => rfl
  | claimRows => exact d.nodes_claimRows
  | assemble select time out => exact d.nodes_assemble select time out
  | assembleCycle select time out => exact d.nodes_assembleCycle select time out
  | integrateContacts => rfl
  | addCircuitNode | setCircuitValue | update => exact absurd trivial rests

/-- A call adds one circuit node or keeps them. -/
theorem Change.names_apply (change : Change β α) (d : Device β α) :
    (change.apply d).circuit.names = d.circuit.names.insertAll change.node?.toList := by
  refine Circuit.names_eq_iff.mpr ?_
  cases change with
  | addCircuitNode name value => exact (Table.keys_insert ..).trans (d.circuit.names.elems_insert name).symm
  | setCircuitValue name value => exact (d.alike_setCircuitValue name value).nodes
  | update solution => exact (d.alike_update solution).nodes
  | _ => exact congrArg Table.keys (Change.nodes_apply id d)

/-- Circuit nodes stand in the order in which they were first added. -/
theorem names_after (d : Device β α) (changes : List (Change β α)) : (d.after changes).circuit.names =
    d.circuit.names.insertAll (changes.filterMap Change.node?) := by
  induction changes generalizing d with
  | nil => rfl
  | cons change rest ih =>
    have rest := ih (change.apply d)
    rw [change.names_apply] at rest
    refine rest.trans ?_
    cases node : change.node? <;> simp [node, OrderedSet.insertAll]

end Device

end FiniteVolume
