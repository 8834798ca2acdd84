import FiniteVolume.Device.Ownership
import FiniteVolume.Proofs.Device.Parts
import FiniteVolume.Proofs.Mesh.Boundary

/-!
Places of boundary equations.

A contact equation owns places of one region, an interface equation pairs of places of two regions. No
place has two owners (`Device.boundaries_apart`): of contact equations the one on the earlier contact
owns a shared node, interface equations leave out what a contact equation or an earlier interface
equation is on. Ownership does not depend on models or on the numbering of rows
(`Device.ownedPairs_outline`).
-/
namespace FiniteVolume

variable {β α : Type}

def Interface.activePairs (i : Interface) (mask : Array Bool) : List (Nat × Nat) :=
  (i.pairs.zipIdx.filter fun x => isActive mask x.2).map (·.1)

theorem Interface.mem_activePairs {i : Interface} {mask : Array Bool} {pair : Nat × Nat} :
    pair ∈ i.activePairs mask ↔ ∃ k, i.pairs[k]? = some pair ∧ isActive mask k = true := by
  simp only [activePairs, List.mem_map, List.mem_filter, List.mem_zipIdx_iff_getElem?]
  constructor
  · rintro ⟨⟨pair, k⟩, ⟨here, active⟩, rfl⟩
    exact ⟨k, here, active⟩
  · rintro ⟨k, here, active⟩
    exact ⟨(pair, k), ⟨here, active⟩, rfl⟩

def InterfaceEquation.placeAt (e : InterfaceEquation) (i : Interface) (side : Side)
    (pair : Nat × Nat) : Place := ⟨i.region side, e.sideName side, Interface.nodeOf side pair⟩

/-- A boundary equation with the nodes or pairs that it owns. -/
inductive Boundary (β : Type) [Zero β] where
  | contact (region : String) (e : ContactEquation β) (mask : Array Bool)
  | interface (name : String) (e : InterfaceEquation) (mask : Array Bool)

def Boundary.Owns [Zero β] (p : Parts β α) (x : Place) : Boundary β → Prop
  | contact region e mask => x.region = region ∧ x.equation = e.name ∧ isActive mask x.node = true
  | interface name e mask => ∃ j, p.junctions.get? name = some j ∧
      ∃ pair ∈ j.geometry.activePairs mask, ∃ side, x = e.placeAt j.geometry side pair

/-- Contacts stand under their names. -/
def Region.Keyed (r : Region β α) : Prop := ∀ key c, r.contacts.get? key = some c → c.name = key

theorem Region.Keyed.distinct {r : Region β α} (keyed : r.Keyed) :
    (r.contacts.values.map Contact.name).Nodup := by
  have names : r.contacts.values.map Contact.name = r.contacts.keys := by
    rw [Table.values, Table.keys, List.map_map]
    exact List.map_congr_left fun x member => keyed _ _ (Table.get?_eq_some_iff.mpr member)
  exact names ▸ r.contacts.nodup

/-- Of two elements of a list without repeated values, one comes before the other. -/
theorem mem_takeWhile_or {ι κ : Type} [DecidableEq κ] {f : ι → κ} {items : List ι} {x y : ι}
    (distinct : (items.map f).Nodup) (first : x ∈ items) (second : y ∈ items) (apart : f x ≠ f y) :
    x ∈ items.takeWhile (f · ≠ f y) ∨ y ∈ items.takeWhile (f · ≠ f x) := by
  induction items with
  | nil => cases first
  | cons z rest ih =>
    obtain ⟨absent, distinct⟩ := List.nodup_cons.mp distinct
    have other : ∀ {w}, w ∈ rest → f z ≠ f w := fun inside same =>
      absent (same ▸ List.mem_map_of_mem inside)
    rcases List.mem_cons.mp first with rfl | first
    · exact .inl (by simp [apart])
    · rcases List.mem_cons.mp second with rfl | second
      · exact .inr (by simp [apart.symm])
      · have apart' : f z ≠ f x ∧ f z ≠ f y := ⟨other first, other second⟩
        rw [List.takeWhile_cons_of_pos (by simpa using apart'.2),
          List.takeWhile_cons_of_pos (by simpa using apart'.1)]
        exact (ih distinct first second).imp (List.mem_cons_of_mem _) (List.mem_cons_of_mem _)

namespace Device

variable [BaseScalar β] (d : Device β α)

/-- The boundary equations with what they own, in the order in which they are assembled. -/
def boundaries : List (Boundary β) :=
  (d.ownedNodes.map fun x => .contact x.1 x.2.1 x.2.2) ++
    d.ownedPairs.map fun x => .interface x.1 x.2.1 x.2.2

variable {d} {region name : String} {n : Nat}

theorem isActive_contactMask {e : ContactEquation β} :
    isActive (d.contactMask region e) n = true ↔ ∃ r c, d.parts.regions.get? region = some r ∧
      r.contacts.get? e.contact = some c ∧ n < r.nodeCount ∧ c.contains n = true ∧
      ∀ c' ∈ r.contacts.values.takeWhile (·.name ≠ e.contact),
        d.carries region c'.name e.name = true → c'.contains n = false := by
  unfold contactMask
  cases here : d.parts.regions.get? region with
  | none => simp [isActive]
  | some r =>
    simp only [Option.some.injEq, exists_and_left, exists_eq_left']
    cases contact : r.contacts.get? e.contact with
    | none =>
      by_cases inside : n < r.nodeCount <;> simp [isActive, inside]
    | some c => simp [isActive_activeNodes, Contact.contains_iff, Contact.contains_eq_false_iff]

theorem mem_activePairs_interfaceMask {before : List (String × InterfaceEquation)}
    {e : InterfaceEquation} {j : Junction β α} (found : d.parts.junctions.get? name = some j)
    {pair : Nat × Nat} : pair ∈ j.geometry.activePairs (d.interfaceMask before name e) ↔
      pair ∈ j.geometry.pairs ∧ ∀ side : Side,
        d.claimedByContact (j.geometry.region side) (Interface.nodeOf side pair) (e.sideName side)
          = false ∧
        d.claimedByInterface before (j.geometry.region side) (Interface.nodeOf side pair)
          (e.sideName side) = false := by
  unfold interfaceMask
  rw [found, Interface.mem_activePairs, List.mem_iff_getElem?]
  simp only [isActive, List.getElem?_toArray, List.getElem?_map]
  constructor
  · rintro ⟨k, here, active⟩
    rw [here] at active
    refine ⟨⟨k, here⟩, fun side => ?_⟩
    simpa using List.all_eq_true.mp active side side.mem_both
  · rintro ⟨⟨k, here⟩, free⟩
    refine ⟨k, here, ?_⟩
    rw [here]
    exact List.all_eq_true.mpr fun side _ => by simpa using free side

theorem carries_of_mem {e : ContactEquation β} (member : (region, e) ∈ d.contactEquations) :
    d.carries region e.contact e.name = true :=
  List.any_eq_true.mpr ⟨_, member, by simp⟩

theorem claimedByContact_of_mem {e : ContactEquation β} {r : Region β α} {c : Contact}
    (member : (region, e) ∈ d.contactEquations) (found : d.parts.regions.get? region = some r)
    (contact : r.contacts.get? e.contact = some c) (contains : c.contains n = true) :
    d.claimedByContact region n e.name = true :=
  List.any_eq_true.mpr ⟨_, member, by simp [found, contact, contains]⟩

theorem claimedByInterface_of_mem {before : List (String × InterfaceEquation)}
    {x : String × InterfaceEquation} {j : Junction β α} (member : x ∈ before)
    (found : d.parts.junctions.get? x.1 = some j) {pair : Nat × Nat}
    (inside : pair ∈ j.geometry.pairs) (side : Side) :
    d.claimedByInterface before (j.geometry.region side) (Interface.nodeOf side pair)
      (x.2.sideName side) = true := by
  refine List.any_eq_true.mpr ⟨_, member, ?_⟩
  dsimp only
  rw [found, Option.any_some]
  refine List.any_eq_true.mpr ⟨side, side.mem_both, ?_⟩
  have listed : Interface.nodeOf side pair ∈ j.geometry.nodes side := List.mem_map_of_mem inside
  simpa using listed

/-! ## One owner -/

/-- A device as building operations leave it. -/
structure WellBuilt (d : Device β α) : Prop where
  keyed : ∀ name r, d.parts.regions.get? name = some r → r.Keyed
  /-- An interface joins two regions at nodes of theirs. -/
  joined : ∀ name j, d.parts.junctions.get? name = some j →
    j.geometry.region0 ≠ j.geometry.region1 ∧ ∀ side, ∃ r,
      d.parts.regions.get? (j.geometry.region side) = some r ∧
        ∀ pair ∈ j.geometry.pairs, Interface.nodeOf side pair < r.nodeCount
  /-- A contact carries one equation of a name. -/
  distinct : d.contactEquations.Pairwise
    fun x y => ¬(x.2.contact = y.2.contact ∧ x.2.name = y.2.name)

namespace WellBuilt

variable (built : d.WellBuilt)

include built

theorem contacts_apart {e e' : ContactEquation β} (member : (region, e) ∈ d.contactEquations)
    (member' : (region, e') ∈ d.contactEquations) (names : e.name = e'.name)
    (contacts : e.contact ≠ e'.contact) (active : isActive (d.contactMask region e) n = true) :
    ¬isActive (d.contactMask region e') n = true := by
  intro active'
  obtain ⟨r, c, found, contact, -, contains, earlier⟩ := isActive_contactMask.mp active
  obtain ⟨r', c', found', contact', -, contains', earlier'⟩ := isActive_contactMask.mp active'
  cases found.symm.trans found'
  have keyed := built.keyed _ _ found
  have name := keyed _ _ contact
  have name' := keyed _ _ contact'
  have listed : ∀ {key c}, r.contacts.get? key = some c → c ∈ r.contacts.values := fun here =>
    List.mem_map_of_mem (f := Prod.snd) (Table.get?_eq_some_iff.mp here)
  rcases mem_takeWhile_or keyed.distinct (listed contact) (listed contact')
    (by rwa [name, name']) with before | before
  · rw [name'] at before
    have free := earlier' c before (by rw [name, ← names]; exact carries_of_mem member)
    rw [contains] at free
    cases free
  · rw [name] at before
    have free := earlier c' before (by rw [name', names]; exact carries_of_mem member')
    rw [contains'] at free
    cases free

theorem boundaries_apart : d.boundaries.Pairwise fun b b' =>
    ∀ x, b.Owns d.parts x → ¬b'.Owns d.parts x := by
  -- Two contacts, two interfaces, and a contact before an interface: the later one leaves out what is taken.
  refine List.pairwise_append.mpr ⟨?_, ?_, ?_⟩
  · rw [ownedNodes, List.map_map, List.pairwise_map]
    refine built.distinct.imp_of_mem ?_
    rintro ⟨region, e⟩ ⟨region', e'⟩ member member' apart x ⟨rfl, equation, active⟩
      ⟨rfl, equation', active'⟩
    have names : e.name = e'.name := equation.symm.trans equation'
    exact built.contacts_apart member member' names (fun same => apart ⟨same, names⟩) active active'
  · rw [ownedPairs, List.map_map, List.pairwise_map, List.pairwise_iff_getElem]
    intro i k bound bound' before x owns owns'
    simp only [List.getElem_zipIdx, Nat.zero_add, Function.comp_apply] at owns owns'
    obtain ⟨j, found, pair, active, side, rfl⟩ := owns
    obtain ⟨j', found', pair', active', side', same⟩ := owns'
    obtain ⟨inside, -⟩ := (mem_activePairs_interfaceMask found).mp active
    obtain ⟨-, free⟩ := (mem_activePairs_interfaceMask found').mp active'
    rw [List.length_zipIdx] at bound bound'
    have earlier : d.interfaceEquations[i] ∈ d.interfaceEquations.take k :=
      List.mem_take_iff_getElem.mpr ⟨i, by omega, rfl⟩
    have claimed := claimedByInterface_of_mem earlier found inside side
    obtain ⟨region, equation, node⟩ := Place.mk.inj same
    rw [region, equation, node, (free side').2] at claimed
    cases claimed
  · simp only [ownedNodes, ownedPairs, List.map_map, List.mem_map, Function.comp_apply]
    rintro _ ⟨⟨region, e⟩, member, rfl⟩ _ ⟨⟨⟨name, e'⟩, i⟩, -, rfl⟩ x ⟨rfl, equation, active⟩
      ⟨j, found, pair, active', side, rfl⟩
    obtain ⟨r, c, region, contact, -, contains, -⟩ := isActive_contactMask.mp active
    obtain ⟨-, free⟩ := (mem_activePairs_interfaceMask found).mp active'
    have claimed := claimedByContact_of_mem member region contact contains
    rw [← equation] at claimed
    cases (free side).1.symm.trans claimed

end WellBuilt

/-! ## What ownership depends on -/

end Device

def ContactEquation.bare [Zero β] (e : ContactEquation β) : ContactEquation β :=
  { e with current := 0, charge := 0 }

/-- The parts without models and without the numbering of rows. -/
def Parts.outline (p : Parts β α) : Parts β α where
  regions := p.regions.mapEntries fun _ r => { r.bare with base := 0 }
  junctions := p.junctions.mapEntries fun _ => Junction.bare

namespace Device

variable [BaseScalar β] (d : Device β α) (region : String)

/-- The device without models, results and the numbering of rows. -/
def outline : Device β α where
  name := d.name
  settings := d.settings
  parts := d.parts.outline
  contactEquations := d.contactEquations.map fun x => (x.1, x.2.bare)
  interfaceEquations := d.interfaceEquations

theorem contactEquations_outline :
    d.outline.contactEquations = d.contactEquations.map fun x => (x.1, x.2.bare) := rfl

theorem get?_regions_outline : d.outline.parts.regions.get? region =
    (d.parts.regions.get? region).map fun r => { r.bare with base := 0 } := Table.get?_mapEntries ..

theorem get?_junctions_outline (name : String) : d.outline.parts.junctions.get? name =
    (d.parts.junctions.get? name).map Junction.bare := Table.get?_mapEntries ..

theorem carries_outline (contact equation : String) :
    d.outline.carries region contact equation = d.carries region contact equation := by
  rw [carries, contactEquations_outline, List.any_map]
  rfl

theorem contactMask_outline (e : ContactEquation β) :
    d.outline.contactMask region e.bare = d.contactMask region e := by
  unfold contactMask
  rw [get?_regions_outline]
  cases d.parts.regions.get? region with
  | none => rfl
  | some r =>
    simp only [Option.map_some, carries_outline]
    rfl

theorem claimedByContact_outline (node : Nat) (equation : String) :
    d.outline.claimedByContact region node equation = d.claimedByContact region node equation := by
  unfold claimedByContact
  rw [get?_regions_outline, contactEquations_outline, List.any_map]
  cases d.parts.regions.get? region <;> rfl

theorem claimedByInterface_outline (before : List (String × InterfaceEquation)) (node : Nat)
    (equation : String) : d.outline.claimedByInterface before region node equation =
      d.claimedByInterface before region node equation := by
  unfold claimedByInterface
  simp only [get?_junctions_outline, Option.any_map]
  rfl

theorem interfaceMask_outline (before : List (String × InterfaceEquation)) (name : String)
    (e : InterfaceEquation) : d.outline.interfaceMask before name e = d.interfaceMask before name e := by
  unfold interfaceMask
  rw [get?_junctions_outline]
  cases d.parts.junctions.get? name with
  | none => rfl
  | some j =>
    simp only [Option.map_some, claimedByContact_outline, claimedByInterface_outline]
    rfl

theorem ownedNodes_outline :
    d.outline.ownedNodes = d.ownedNodes.map fun x => (x.1, x.2.1.bare, x.2.2) := by
  rw [ownedNodes, ownedNodes, contactEquations_outline, List.map_map, List.map_map]
  exact List.map_congr_left fun x _ =>
    congrArg (fun mask => (x.1, x.2.bare, mask)) (d.contactMask_outline x.1 x.2)

theorem ownedPairs_outline : d.outline.ownedPairs = d.ownedPairs := by
  exact List.map_congr_left fun x _ =>
    congrArg (fun mask => (x.1.1, x.1.2, mask)) (d.interfaceMask_outline _ x.1.1 x.1.2)

end Device

end FiniteVolume
