import FiniteVolume.Proofs.Device.Values
import FiniteVolume.Proofs.Model.Layout

/-!
Calls on a device.

Whatever the calls, contacts stand under their names, interfaces join nodes of two regions and every
contact carries one equation of a name (`Device.WellBuilt`). Calls that build leave a device that is
well-built again, and the rows to be claimed anew (`Device.Rebuilt`).
-/
namespace FiniteVolume

variable {β α : Type}

/-! ## Calls -/

theorem exists_eq_ok_of_toBool {ε ρ σ : Type} {ran : Except ε ρ × σ} (succeeds : ran.1.toBool = true) :
    ∃ result state, ran = (.ok result, state) := by
  obtain ⟨fault | result, state⟩ := ran
  · cases succeeds
  · exact ⟨result, state, rfl⟩

/-- A call on the models of an interface. Reads are made against two regions. -/
inductive Junction.Change (β α : Type) where
  | declare (name : String) (calculator : Calculator β α)
  | setValues (name : String) (values : Array α)
  | setUniform (name : String) (value : α)
  | removeModel (name : String)
  | markOld (name : String)
  | takeNotes
  | read (name : String) (region0 region1 : Region β α)
  | find (name : String) (region0 region1 : Region β α)

/-- A call on a device, or on one of its regions or interfaces. -/
inductive Device.Change (β α : Type) [BaseScalar β] where
  | addRegion (name : String) (mesh : Mesh β)
  | addContact (name region : String) (nodes : List Nat)
  | addInterface (name region0 region1 : String) (pairs : List (Nat × Nat))
  | addEquation (region : String) (e : BulkEquation β)
  | addContactEquation (e : ContactEquation β)
  | addInterfaceEquation (interface : String) (e : InterfaceEquation)
  | addCircuitNode (name : String) (value : β)
  | setCircuitValue (name : String) (value : β)
  | region (name : String) (change : Region.Change β α)
  /-- Declare a model of a region by an arbitrary calculator. -/
  | declare (region : String) (d : Domain) (name : String) (calculator : Calculator β α)
  | declareOnContact (region contact name : String) (calculator : Calculator β α)
  | interface (name : String) (change : Junction.Change β α)
  | takeLog
  | claimRows
  | assemble (select : Selector) (time : TimeMode) (out : Records α)
  | assembleCycle (select : Selector) (time : TimeMode) (out : Records α)
  | update (solution : Array α)
  | integrateContacts

variable [BaseScalar β] [Scalar α]

omit [BaseScalar β] in
def Junction.Change.apply (j : Junction β α) : Change β α → Junction β α
  | declare name calculator => j.declare name calculator
  | setValues name values => (j.setValues name values).toOption.getD j
  | setUniform name value => j.setUniform name value
  | removeModel name => j.removeModel name
  | markOld name => j.markOld name
  | takeNotes => j.takeNotes.2
  | read name region0 region1 => (Coupled.read name ⟨j, region0, region1⟩).2.junction
  | find name region0 region1 => (Coupled.find name ⟨j, region0, region1⟩).2.junction

namespace Device

def changeRegion (d : Device β α) (name : String) (change : Region β α → Region β α) : Device β α :=
  match d.parts.regions.get? name with
  | some r => { d with parts := d.parts.setRegion name (change r) }
  | none => d

def changeInterface (d : Device β α) (name : String) (change : Junction β α → Junction β α) :
    Device β α :=
  match d.parts.junctions.get? name with
  | some j => { d with parts := d.parts.setJunction name (change j) }
  | none => d

/-- The device that a call leaves when it may refuse. -/
def orElse (d : Device β α) : Except (DeviceError β) (Device β α) → Device β α
  | .ok d' => d'
  | .error _ => d

variable [Precision β α]

def Change.apply (d : Device β α) : Change β α → Device β α
  | addRegion name mesh => d.orElse (d.addRegion name mesh)
  | addContact name regionName nodes => d.orElse (d.addContact name regionName nodes)
  | addInterface name region0 region1 pairs => d.orElse (d.addInterface name region0 region1 pairs)
  | addEquation regionName e => d.orElse (d.addEquation regionName e)
  | addContactEquation e => d.orElse (d.addContactEquation e)
  | addInterfaceEquation name e => d.orElse (d.addInterfaceEquation name e)
  | addCircuitNode name value => d.addCircuitNode name value
  | setCircuitValue name value => d.setCircuitValue name value
  | region name change => d.changeRegion name (Region.Change.apply · change)
  | declare regionName kind name calculator =>
    d.changeRegion regionName (·.declare kind name calculator)
  | declareOnContact regionName contact name calculator =>
    d.changeRegion regionName fun r => r.orElse (r.declareOnContact contact name calculator)
  | interface name change => d.changeInterface name (Junction.Change.apply · change)
  | takeLog => d.takeLog.2
  | claimRows => d.claimRows.2
  | assemble select time out => (d.assemble select time out).2.1
  | assembleCycle select time out => (d.assembleCycle select time out).2.1
  | update solution => (d.update solution).2
  | integrateContacts => d.integrateContacts.2

def after (d : Device β α) (changes : List (Change β α)) : Device β α := changes.foldl Change.apply d

/-- The device results from an empty one by calls. -/
def Reached (d : Device β α) : Prop :=
  ∃ name settings d₀ changes, create name settings = .ok d₀ ∧ d = d₀.after changes

omit [Scalar α] [Precision β α] in
theorem create_of_valid {name : String} {settings : Settings β} (valid : settings.validate.toBool = true) :
    (create name settings : Except (DeviceError β) (Device β α)) = .ok { name, settings } := by
  unfold create
  split
  · rfl
  next failed =>
    rw [failed] at valid
    cases valid

theorem reached_after {name : String} {settings : Settings β} (valid : settings.validate.toBool = true)
    (changes : List (Change β α)) : Reached (after { name, settings } changes) :=
  ⟨name, settings, _, changes, create_of_valid valid, rfl⟩

end Device

/-! ## What a call keeps -/

omit [BaseScalar β] [Scalar α] in
theorem Interface.of_eq_ok {name : String} {side0 side1 : String × Nat} {pairs : List (Nat × Nat)}
    {i : Interface} (made : Interface.of name side0 side1 pairs = .ok i) :
    i = ⟨name, side0.1, side1.1, pairs⟩ ∧ ∀ pair ∈ pairs, pair.1 < side0.2 ∧ pair.2 < side1.2 := by
  unfold Interface.of at made
  split at made
  · cases made
  · dsimp only at made
    split at made
    · cases made
    next inside =>
      cases made
      refine ⟨rfl, fun pair member => ?_⟩
      have free := List.findSome?_eq_none_iff.mp inside pair member
      split at free
      · cases free
      · split at free
        · cases free
        · omega

omit [BaseScalar β] in
theorem Junction.Change.geometry_apply (change : Change β α) (j : Junction β α) :
    (change.apply j).geometry = j.geometry := by
  cases change with
  | declare | setUniform | removeModel | markOld | takeNotes => rfl
  | setValues name values =>
    rw [apply, Junction.setValues]
    split <;> rfl
  | read name region0 region1 => exact (Coupled.leads_read ⟨j, region0, region1⟩ name).geometry
  | find name region0 region1 => exact (Coupled.leads_find ⟨j, region0, region1⟩ name).geometry

omit [BaseScalar β] in
theorem Junction.Change.sized_apply (change : Change β α) (j : Junction β α) (sized : j.Sized) :
    (change.apply j).Sized := by
  cases change with
  | declare name calculator => exact ModelStore.Sized.declare sized calculator none
  | setValues name values =>
    rw [apply, Junction.setValues]
    split
    · exact sized
    next fits => exact ModelStore.Sized.write sized (not_not.mp fits)
  | setUniform name value => exact ModelStore.Sized.write sized rfl
  | removeModel name => exact ModelStore.Sized.remove sized .node name
  | markOld name => exact ModelStore.Sized.markOld sized name
  | takeNotes => exact sized
  | read name region0 region1 => exact (Coupled.leads_read ⟨j, region0, region1⟩ name).sized sized
  | find name region0 region1 => exact (Coupled.leads_find ⟨j, region0, region1⟩ name).sized sized

section

variable {r r' : Region β α}

omit [BaseScalar β] [Scalar α]

theorem Region.Keyed.of_contacts_eq (keyed : r.Keyed) (same : r'.contacts = r.contacts) : r'.Keyed := by
  rwa [Region.Keyed, same]

theorem Region.Keyed.addContact (keyed : r.Keyed) (contact : Contact) :
    (r.addContact contact).Keyed := by
  intro key c found
  rw [Region.addContact, Region.touch, Table.get?_insert] at found
  split at found
  next here =>
    cases found
    exact here.symm
  · exact keyed key c found

omit [Scalar α] in
theorem Region.Keyed.addEquation [Scalar α] (keyed : r.Keyed) (equation variableName : String) :
    (r.addEquation equation variableName).Keyed := by
  refine keyed.of_contacts_eq ?_
  unfold Region.addEquation
  dsimp only
  split <;> rfl

end

theorem Region.Keyed.apply [Precision β α] {r : Region β α} (keyed : r.Keyed)
    (change : Region.Change β α) : (change.apply r).Keyed := by
  obtain ⟨r₀, r₁, consulted, effect, alike⟩ := change.apply_cases r
  refine Region.Keyed.of_contacts_eq ?_ alike.contacts
  have keyed₀ : r₀.Keyed :=
    keyed.of_contacts_eq (Region.eq_of_uncached_eq (f := Region.contacts) (fun _ => rfl) consulted.declared)
  cases effect with
  | contact contact => exact keyed₀.addContact contact
  | _ => exact keyed₀

namespace Device

variable {d d' d'' : Device β α}

/-! ### Well-built devices -/

omit [Scalar α]

/-- The same interfaces between regions that are there still. -/
theorem WellBuilt.of_parts (built : d.WellBuilt) (equations : d'.outline.contactEquations =
      d.outline.contactEquations)
    (keyed : ∀ name r', d'.parts.regions.get? name = some r' → r'.Keyed)
    (regions : ∀ name r, d.parts.regions.get? name = some r →
      ∃ r', d'.parts.regions.get? name = some r' ∧ r'.nodeCount = r.nodeCount)
    (junctions : ∀ name j', d'.parts.junctions.get? name = some j' →
      ∃ j, d.parts.junctions.get? name = some j ∧ j'.geometry = j.geometry) : d'.WellBuilt where
  keyed := keyed
  joined name j' found' := by
    obtain ⟨j, found, geometry⟩ := junctions name j' found'
    rw [geometry]
    obtain ⟨apart, sides⟩ := built.joined name j found
    refine ⟨apart, fun side => ?_⟩
    obtain ⟨r, here, inside⟩ := sides side
    obtain ⟨r', here', count⟩ := regions _ r here
    exact ⟨r', here', count ▸ inside⟩
  distinct := by
    have named : ∀ d : Device β α, (d.outline.contactEquations.Pairwise fun x y =>
        ¬(x.2.contact = y.2.contact ∧ x.2.name = y.2.name)) ↔ d.contactEquations.Pairwise fun x y =>
          ¬(x.2.contact = y.2.contact ∧ x.2.name = y.2.name) := fun d => List.pairwise_map
    exact (named d').mp (equations ▸ (named d).mpr built.distinct)

theorem WellBuilt.of_outline_eq (built : d.WellBuilt) (same : d'.outline = d.outline) :
    d'.WellBuilt := by
  have regions : ∀ {d d' : Device β α} {name r}, d'.outline = d.outline →
      d.parts.regions.get? name = some r → ∃ r', d'.parts.regions.get? name = some r' ∧
        r'.contacts = r.contacts ∧ r'.nodeCount = r.nodeCount := by
    intro d d' name r same found
    have there : d'.outline.parts.regions.get? name = some { r.bare with base := 0 } := by
      rw [same, get?_regions_outline, found, Option.map_some]
    obtain ⟨r', found', bare⟩ := Option.map_eq_some_iff.mp ((get?_regions_outline ..).symm.trans there)
    exact ⟨r', found', (congrArg Region.contacts bare :), (congrArg Region.nodeCount bare :)⟩
  refine built.of_parts (congrArg contactEquations same) ?_ ?_ ?_
  · intro name r' found'
    obtain ⟨r, found, contacts, -⟩ := regions same.symm found'
    exact (built.keyed name r found).of_contacts_eq contacts.symm
  · intro name r found
    obtain ⟨r', found', -, count⟩ := regions same found
    exact ⟨r', found', count⟩
  · intro name j' found'
    have there : d.outline.parts.junctions.get? name = some j'.bare := by
      rw [← same, get?_junctions_outline, found', Option.map_some]
    obtain ⟨j, found, bare⟩ := Option.map_eq_some_iff.mp ((get?_junctions_outline ..).symm.trans there)
    exact ⟨j, found, (congrArg Junction.geometry bare :).symm⟩

theorem outline_renumber (d : Device β α) : d.renumber.outline = d.outline := by
  have parts : d.parts.renumber.outline = d.parts.outline := by
    unfold Parts.outline Parts.renumber
    dsimp only
    rw [Table.mapEntries_mapEntries]
    rfl
  unfold outline renumber idle
  dsimp only
  rw [parts]

theorem WellBuilt.setRegion (built : d.WellBuilt) {name : String} {r r' : Region β α}
    (found : d.parts.regions.get? name = some r) (mesh : r'.mesh = r.mesh) (keyed : r'.Keyed) :
    { d with parts := d.parts.setRegion name r' }.WellBuilt := by
  have regions : ∀ name', (d.parts.setRegion name r').regions.get? name' =
      if name' = name then some r' else d.parts.regions.get? name' := by
    intro name'
    rw [Parts.setRegion, Table.get?_modify]
    split
    next here => rw [here, found, Option.map_some]
    · rfl
  refine built.of_parts rfl ?_ ?_ fun _ j found => ⟨j, found, rfl⟩
  · intro name' r₁ found₁
    rw [regions] at found₁
    split at found₁
    · cases found₁
      exact keyed
    · exact built.keyed _ _ found₁
  · intro name' r₁ found₁
    rw [regions]
    split
    next here =>
      cases found.symm.trans (here ▸ found₁)
      exact ⟨r', rfl, congrArg Mesh.nodeCount mesh⟩
    · exact ⟨r₁, found₁, rfl⟩

theorem WellBuilt.changeRegion (built : d.WellBuilt) {change : Region β α → Region β α}
    (mesh : ∀ r, (change r).mesh = r.mesh) (keyed : ∀ r, r.Keyed → (change r).Keyed) (name : String) :
    (d.changeRegion name change).WellBuilt := by
  unfold Device.changeRegion
  split
  next r found => exact built.setRegion found (mesh r) (keyed r (built.keyed name r found))
  · exact built

/-! ### Building -/

/-- What a call of the building kind leaves: well-built, and to be claimed anew. -/
structure Rebuilt (d d' : Device β α) : Prop where
  built : d.WellBuilt → d'.WellBuilt
  idle : d'.stage = .idle

theorem Rebuilt.renumber (built : d.WellBuilt → d'.WellBuilt) : Rebuilt d d'.renumber :=
  ⟨fun here => (built here).of_outline_eq (outline_renumber d'), rfl⟩

theorem rebuilt_addRegion [Precision β α] {name : String} {mesh : Mesh β}
    (added : d.addRegion name mesh = .ok d') : Rebuilt d d' := by
  unfold addRegion at added
  split at added
  · cases added
  next absent =>
    cases added
    refine .renumber fun built => built.of_parts rfl ?_ ?_ fun _ j found => ⟨j, found, rfl⟩
    · intro name' r found
      rw [Table.get?_insert] at found
      split at found
      · have parameters : ∀ (nodes : List (String × β)) (r : Region β α),
            (nodes.foldl (fun r node => r.setParameter node.1 node.2) r).contacts = r.contacts := by
          intro nodes
          induction nodes with
          | nil => exact fun _ => rfl
          | cons node rest ih => exact fun r => ih _
        cases found
        intro key c contact
        rw [parameters] at contact
        cases contact
      · exact built.keyed name' r found
    · intro name' r found
      refine ⟨r, ?_, rfl⟩
      have other : name' ≠ name := by
        rintro rfl
        exact absent (by rw [Table.contains, found]; rfl)
      rw [Table.get?_insert, if_neg other, found]

theorem getRegion_bind_eq_ok {name : String}
    {next : Region β α → Except (DeviceError β) (Device β α)} (ran : d.getRegion name >>= next = .ok d') :
    ∃ r, d.parts.regions.get? name = some r ∧ next r = .ok d' := by
  unfold getRegion at ran
  split at ran
  next r found => exact ⟨r, found, ran⟩
  · cases ran

theorem rebuilt_addContact {name region : String} {nodes : List Nat}
    (added : d.addContact name region nodes = .ok d') : Rebuilt d d' := by
  unfold addContact at added
  split at added
  · cases added
  · obtain ⟨r, found, added⟩ := getRegion_bind_eq_ok added
    split at added
    · cases added
    next contact _ =>
      cases added
      refine ⟨fun built => ?_, rfl⟩
      have parts := built.setRegion found (show (r.addContact contact).mesh = r.mesh from rfl)
        ((built.keyed _ _ found).addContact contact)
      exact ⟨parts.keyed, parts.joined, parts.distinct⟩

theorem rebuilt_addInterface {name region0 region1 : String} {pairs : List (Nat × Nat)}
    (added : d.addInterface name region0 region1 pairs = .ok d') : Rebuilt d d' := by
  unfold addInterface at added
  obtain ⟨r0, first, added⟩ := getRegion_bind_eq_ok added
  obtain ⟨r1, second, added⟩ := getRegion_bind_eq_ok added
  split at added
  · cases added
  next apart =>
    split at added
    · cases added
    next geometry made =>
      cases added
      obtain ⟨rfl, inside⟩ := Interface.of_eq_ok made
      refine ⟨fun built => ⟨built.keyed, ?_, built.distinct⟩, rfl⟩
      intro name' j found
      rw [show (idle _).parts.junctions.get? name' = (Table.insert _ name _).get? name' from rfl,
        Table.get?_insert] at found
      split at found
      · cases found
        refine ⟨apart, fun side => ?_⟩
        cases side
        · exact ⟨r0, first, fun pair member => (inside pair member).1⟩
        · exact ⟨r1, second, fun pair member => (inside pair member).2⟩
      · exact built.joined name' j found

theorem rebuilt_addEquation [Scalar α] {region : String} {e : BulkEquation β}
    (added : d.addEquation region e = .ok d') : Rebuilt d d' := by
  unfold addEquation at added
  obtain ⟨r, found, added⟩ := getRegion_bind_eq_ok added
  split at added
  · cases added
  · cases added
    refine .renumber fun built => ?_
    have parts := built.setRegion found
      (r.follows_addEquation e.name e.variableName).mesh ((built.keyed _ _ found).addEquation _ _)
    exact ⟨parts.keyed, parts.joined, parts.distinct⟩

theorem rebuilt_addContactEquation {e : ContactEquation β} (added : d.addContactEquation e = .ok d') :
    Rebuilt d d' := by
  unfold addContactEquation at added
  split at added
  · cases added
  next region _ =>
    split at added
    · cases added
    next new =>
      cases added
      refine ⟨fun built => ⟨built.keyed, built.joined, ?_⟩, rfl⟩
      refine List.pairwise_append.mpr ⟨built.distinct, List.pairwise_singleton .., ?_⟩
      intro x member y last same
      cases List.mem_singleton.mp last
      exact new (List.any_eq_true.mpr ⟨x, member, by simpa using same⟩)

theorem rebuilt_addInterfaceEquation {name : String} {e : InterfaceEquation}
    (added : d.addInterfaceEquation name e = .ok d') : Rebuilt d d' := by
  unfold addInterfaceEquation at added
  split at added
  · cases added
  · split at added
    · cases added
    · cases added
      exact ⟨fun built => ⟨built.keyed, built.joined, built.distinct⟩, rfl⟩

theorem rebuilt_addCircuitNode (d : Device β α) (name : String) (value : β) :
    Rebuilt d (d.addCircuitNode name value) := by
  refine .renumber fun built => ?_
  have alike := alike_setParameter { d with circuit := d.circuit.add name value } name value
  have built' : WellBuilt { d with circuit := d.circuit.add name value } :=
    ⟨built.keyed, built.joined, built.distinct⟩
  exact built'.of_outline_eq (by rw [← outline_bare, alike.bare, outline_bare])

end Device

end FiniteVolume
