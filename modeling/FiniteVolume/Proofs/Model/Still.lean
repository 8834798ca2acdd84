import FiniteVolume.Proofs.Model.Freshness
import FiniteVolume.Proofs.Model.Resolution
import FiniteVolume.Proofs.Model.Values

/-!
Regions that stand still.

The revision of a region never falls, and a call that leaves it as it is changes neither what reads
return nor parameters (`Change.precedes`). Who has seen a region in some revision has therefore seen
all that reads return in this revision.
-/
namespace FiniteVolume.Region

variable {β α : Type} [Scalar α] {r r' r'' : Region β α} {d : Domain} {name : String}

/-! ## The same reads -/

/-- The second region reads as the first does; at which model a cycle is reported may differ. -/
structure Still (r r' : Region β α) : Prop where
  reads : ∀ d name result, cycleOf result = none →
    ((r'.read d name).1 = result ↔ (r.read d name).1 = result)
  contains : r'.models.contains = r.models.contains
  parameters : r'.parameter? = r.parameter?

namespace Still

theorem refl (r : Region β α) : Still r r := ⟨fun _ _ _ _ => Iff.rfl, rfl, rfl⟩

theorem trans (first : Still r r') (second : Still r' r'') : Still r r'' where
  reads d name result acyclic :=
    (second.reads d name result acyclic).trans (first.reads d name result acyclic)
  contains := second.contains.trans first.contains
  parameters := second.parameters.trans first.parameters

end Still

/-- The same models, parameters and contacts on the same mesh, however the models are presented. -/
structure Represents (r r' : Region β α) : Prop where
  mesh : r'.mesh = r.mesh
  chunking : r'.chunking = r.chunking
  parameters : r'.parameters = r.parameters
  contacts : r'.contacts = r.contacts
  models : ∀ d name, (r'.models.get? d name).map (fun m => { m with display := .scalar }) =
    (r.models.get? d name).map fun m => { m with display := .scalar }

namespace Represents

variable (represents : Represents r r')

include represents

omit [Scalar α] in
theorem contains : r'.models.contains = r.models.contains := by
  funext d name
  have same := congrArg Option.isSome (represents.models d name)
  rwa [Option.isSome_map, Option.isSome_map] at same

theorem valueWithin (i : Nat) (d : Domain) (name : String) :
    r'.valueWithin i d name = r.valueWithin i d name := by
  have contains := represents.contains
  -- By the depth: calculations ask for values one level down, and know the same of the region.
  induction i using Nat.strongRecOn generalizing d name with
  | _ i ih =>
    have same := represents.models d name
    cases found : r.models.get? d name with
    | none =>
      rw [found] at same
      rw [valueWithin_of_missing found, valueWithin_of_missing (Option.map_eq_none_iff.mp same)]
    | some m =>
      rw [found] at same
      obtain ⟨m', found', same⟩ := Option.map_eq_some_iff.mp same
      have pending' : m'.pending? = m.pending? := (congrArg Model.pending? same :)
      cases pending : m.pending? with
      | none =>
        rw [valueWithin_of_settled found pending, valueWithin_of_settled found' (pending'.trans pending),
          show m'.value = m.value from (congrArg Model.value same :)]
      | some calculator =>
        cases i with
        | zero => rw [valueWithin_zero found pending, valueWithin_zero found' (pending'.trans pending)]
        | succ i =>
          have answers : r'.answerWith (r'.valueWithin i) = r.answerWith (r.valueWithin i) := by
            funext y
            rw [answerWith, answerWith, resolve?_congr represents.mesh represents.chunking
              (fun _ => by rw [contains]) (fun _ _ _ => by rw [contains]) fun _ _ => by rw [contains]]
            split
            · rfl
            · rw [ih i (by omega)]
          have target : r'.targetOf d name m' = r.targetOf d name m := by
            rw [targetOf, targetOf, Region.size, Region.size, represents.mesh,
              show m'.contact = m.contact from (congrArg Model.contact same :)]
          have settle : r'.settle = r.settle := by
            funext target outcome
            simp only [Region.settle, restriction, represents.contacts]
          have surroundings : r'.surroundings = r.surroundings := by
            rw [Region.surroundings, Region.surroundings, represents.mesh, represents.chunking]
          have parameters : r'.parameter? = r.parameter? := by
            funext p
            rw [parameter?, parameter?, represents.parameters]
          rw [valueWithin_succ found pending, valueWithin_succ found' (pending'.trans pending), answers,
            target, settle, surroundings, parameters]

end Represents

omit [Scalar α] in
theorem Alike.represents (alike : Alike r r') : Represents r r' :=
  ⟨alike.mesh, alike.chunking, alike.parameters, alike.contacts, fun _ _ => by rw [alike.models]⟩

omit [Scalar α] in
theorem represents_setDisplay (r : Region β α) (d : Domain) (name : String) (display : DisplayType) :
    Represents r (r.setDisplay d name display) where
  mesh := rfl
  chunking := rfl
  parameters := rfl
  contacts := rfl
  models d' name' := by
    rw [setDisplay, ModelStore.get?_setDisplay]
    split
    · rw [Option.map_map]
      rfl
    · rfl

variable [BaseScalar β] [Precision β α]

theorem Settled.still_of_leads (settled : r.Settled) (leads : Leads r r') : Still r r' where
  reads d name result acyclic := by
    have reading : Reading r r' := leads.reading r settled.ready settled.ready.reading
    rw [settled.read_eq_iff acyclic]
    refine ⟨?_, reading.read_eq_of_yields settled.ready⟩
    rintro rfl
    exact reading.yields_of_read settled.ready acyclic
  contains := contains_of_uncached_eq leads.progress.declared
  parameters := parameter?_of_uncached_eq leads.progress.declared

theorem Settled.still_read (settled : r.Settled) (d : Domain) (name : String) :
    Still r (r.read d name).2 :=
  settled.still_of_leads (r.leads_read d name)

theorem Represents.still (represents : Represents r r') (settled : r.Settled) (settled' : r'.Settled) :
    Still r r' where
  reads d name result acyclic := by
    rw [settled.read_eq_iff acyclic, settled'.read_eq_iff acyclic, Yields, Yields]
    simp only [represents.valueWithin]
  contains := represents.contains
  parameters := by
    funext p
    rw [parameter?, parameter?, represents.parameters]

/-! ## Revisions -/

/-- The second region is a later state of the first, and reads as the first does unless the revision
has risen. -/
structure Precedes (r r' : Region β α) : Prop where
  instanceId : r'.instanceId = r.instanceId
  revision : r.revision ≤ r'.revision
  still : r'.revision = r.revision → Still r r'

namespace Precedes

omit [BaseScalar β] [Precision β α] in
theorem refl (r : Region β α) : Precedes r r := ⟨rfl, Nat.le_refl _, fun _ => .refl r⟩

omit [BaseScalar β] [Precision β α] in
theorem trans (first : Precedes r r') (second : Precedes r' r'') : Precedes r r'' where
  instanceId := second.instanceId.trans first.instanceId
  revision := Nat.le_trans first.revision second.revision
  still same := by
    have between : r'.revision = r.revision :=
      Nat.le_antisymm (same ▸ second.revision) first.revision
    exact (first.still between).trans (second.still (same.trans between.symm))

omit [BaseScalar β] [Precision β α] in
theorem of_still (instanceId : r'.instanceId = r.instanceId) (revision : r'.revision = r.revision)
    (still : Still r r') : Precedes r r' := ⟨instanceId, Nat.le_of_eq revision.symm, fun _ => still⟩

omit [BaseScalar β] [Precision β α] in
theorem of_touched (instanceId : r'.instanceId = r.instanceId)
    (revision : r'.revision = r.revision + 1) : Precedes r r' :=
  ⟨instanceId, by omega, fun same => by omega⟩

end Precedes

theorem Settled.precedes_of_leads (settled : r.Settled) (leads : Leads r r') : Precedes r r' :=
  .of_still (eq_of_uncached_eq (f := Region.instanceId) (fun _ => rfl) leads.progress.declared)
    (eq_of_uncached_eq (f := Region.revision) (fun _ => rfl) leads.progress.declared)
    (settled.still_of_leads leads)

theorem Settled.precedes_read (settled : r.Settled) (d : Domain) (name : String) :
    Precedes r (r.read d name).2 :=
  settled.precedes_of_leads (r.leads_read d name)

/-- Every call leaves a later state, which reads the same unless it has a new revision. -/
theorem Change.precedes (settled : r.Settled) (change : Change β α) : Precedes r (change.apply r) := by
  have written : ∀ {r₀ r₁ : Region β α} {d name data}, Precedes r r₀ →
      r₀.setData d name data = .ok r₁ → Precedes r r₁ := by
    intro r₀ r₁ d name data before wrote
    refine before.trans ?_
    unfold Region.setData at wrote
    split at wrote
    · cases wrote
    · cases wrote
      exact .of_touched rfl rfl
  have alike : ∀ {r₁ : Region β α}, r₁.instanceId = r.instanceId → r₁.revision = r.revision →
      Alike r r₁ → Precedes r r₁ := fun instanceId revision alike =>
    .of_still instanceId revision (alike.represents.still settled (settled.of_alike alike))
  -- Calls that touch what models read raise the revision; all others leave a region that reads alike.
  cases change with
  | setUniform | declare | markOld | setParameter | addContact => exact .of_touched rfl rfl
  | setData d name data =>
    rw [apply]
    cases wrote : r.setData d name data with
    | error e => exact .refl r
    | ok r' => exact written (.refl r) wrote
  | setCoordinate node axis value =>
    rw [apply]
    rcases r.setCoordinate_cases node axis value with same | read | ⟨data, wrote⟩
    · rw [same]
      exact .refl r
    · rw [read]
      exact settled.precedes_read .node axis.text
    · exact written (settled.precedes_read .node axis.text) wrote
  | declareOnContact contact name functions e =>
    rw [apply, Region.declareOnContact]
    split
    · exact .of_touched rfl rfl
    · exact .refl r
  | removeModel d name =>
    rw [apply, Region.removeModel]
    split
    · exact .of_touched rfl rfl
    · exact .refl r
  | setDisplay d name display =>
    exact .of_still rfl rfl ((r.represents_setDisplay d name display).still settled settled.setDisplay)
  | addEquation equation variableName =>
    rw [apply, Region.addEquation]
    split
    · exact alike rfl rfl ⟨rfl, rfl, rfl, rfl, rfl⟩
    · exact .of_touched rfl rfl
  | removeEquation equation =>
    rw [apply, Region.removeEquation]
    split
    · exact alike rfl rfl ⟨rfl, rfl, rfl, rfl, rfl⟩
    · exact .refl r
  | takeNotes => exact alike rfl rfl ⟨rfl, rfl, rfl, rfl, rfl⟩
  | read d name => exact settled.precedes_read d name
  | find name =>
    rw [apply]
    rcases r.consulted_find name with same | ⟨d, name', same⟩
    · rw [same]
      exact .refl r
    · rw [same]
      exact settled.precedes_read d name'

/-! ## Later states -/

def Continues (r r' : Region β α) : Prop := r.Settled → Precedes r r' ∧ r'.Settled

namespace Continues

theorem refl (r : Region β α) : Continues r r := fun settled => ⟨.refl r, settled⟩

theorem trans (first : Continues r r') (second : Continues r' r'') : Continues r r'' := fun settled =>
  have ⟨precedes, between⟩ := first settled
  have ⟨precedes', settled'⟩ := second between
  ⟨precedes.trans precedes', settled'⟩

theorem change (r : Region β α) (change : Change β α) : Continues r (change.apply r) :=
  fun settled => ⟨change.precedes settled, settled.apply change⟩

theorem rows (r : Region β α) (base : Nat) : Continues r { r with base } := fun settled =>
  have settled' : Region.Settled { r with base } := ⟨settled.models, settled.mirrored⟩
  ⟨.of_still rfl rfl (Represents.still ⟨rfl, rfl, rfl, rfl, fun _ _ => rfl⟩ settled settled'),
    settled'⟩

theorem of_leads (leads : Leads r r') : Continues r r' := fun settled =>
  have reading := leads.reading r settled.ready settled.ready.reading
  ⟨settled.precedes_of_leads leads, settled.of_underway reading.underway reading.balanced⟩

end Continues

end FiniteVolume.Region
