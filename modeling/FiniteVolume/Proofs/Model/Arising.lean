import FiniteVolume.Proofs.Device.Regular

/-!
Regions that arise.

`Region.Arises` follows a region from its creation on a mesh that a constructor gives through any calls
and through the steps of reads, so that it holds within a read as well. Such a region lies on a mesh
that a constructor gives, and its values fit (`Region.Arises.regular`). The regions of devices are of
this kind (`Region.arises_after`).
-/
namespace FiniteVolume.Region

variable {β α : Type}

theorem fits_declare (r : Region β α) (d : Domain) (name : String) (calculator : Calculator β α) :
    Fits r (r.declare d name calculator) :=
  .of_models rfl fun sized => sized.declare calculator none

theorem fits_beginRead (r : Region β α) (d : Domain) (name : String) :
    Fits r (beginRead d name r).2 := by
  refine .of_models rfl fun sized => ?_
  rcases r.models.begin_cases d name with ⟨m, calculator, found, stale, computed⟩ | ⟨result, began⟩
  · have marks : (r.models.begin d name (r.size d)).2 =
        r.models.replace d name { m with state := .computing } := by
      simp [ModelStore.begin, found, stale, computed]
    rw [beginRead_eq, marks]
    exact sized.marked found
  · rw [beginRead_eq, began]
    exact sized

theorem fits_declareOnContact (r : Region β α) (contact name : String)
    (calculator : Calculator β α) : Fits r (r.orElse (r.declareOnContact contact name calculator)) := by
  unfold declareOnContact
  split
  next =>
    have declared : Fits r (touch { r with
        models := r.models.declare .node name calculator (some contact) }) :=
      .of_models rfl fun sized => sized.declare calculator (some contact)
    exact declared
  next => exact .refl r

variable [Scalar α] [BaseScalar β] [Precision β α]

/-- A region arises on a mesh that a constructor gives, by calls and by the steps of reads. -/
inductive Arises : Region β α → Prop
  | created (instanceId : Nat) (device name : String) {mesh : Mesh β} (chunking : Chunking)
    (built : mesh.Built) : Arises (create instanceId device name mesh chunking)
  | call {r : Region β α} (change : Change β α) (before : Arises r) : Arises (change.apply r)
  | declare {r : Region β α} (d : Domain) (name : String) (calculator : Calculator β α)
    (before : Arises r) : Arises (r.declare d name calculator)
  | declareOnContact {r : Region β α} (contact name : String) (calculator : Calculator β α)
    (before : Arises r) : Arises (r.orElse (r.declareOnContact contact name calculator))
  | rebased {r : Region β α} (base : Nat) (before : Arises r) : Arises { r with base }
  | begun {r : Region β α} (d : Domain) (name : String) (before : Arises r) :
    Arises (beginRead d name r).2
  | ended {r : Region β α} {target : Target} (outcome : Outcome α)
    (covers : target.size = r.size target.domain) (before : Arises r) :
    Arises (endRead target outcome r).2

theorem Arises.regular {r : Region β α} (arises : r.Arises) : r.mesh.Built ∧ r.Regular := by
  have keep : ∀ {r r' : Region β α}, Fits r r' → r.mesh.Built ∧ r.Regular →
      r'.mesh.Built ∧ r'.Regular := fun fits holds => ⟨fits.mesh ▸ holds.1, holds.2.fits fits⟩
  induction arises with
  | created _ _ _ _ built => exact ⟨built, regular_create built⟩
  | call change _ ih => exact keep (change.fits _) ih
  | declare d name calculator _ ih => exact keep (fits_declare _ d name calculator) ih
  | declareOnContact contact name calculator _ ih =>
    exact keep (fits_declareOnContact _ contact name calculator) ih
  | rebased base _ ih => exact ⟨ih.1, ih.2.mesh, ih.2.sized⟩
  | begun d name _ ih => exact keep (fits_beginRead _ d name) ih
  | ended outcome covers _ ih => exact keep (fits_endRead outcome covers) ih

theorem lasting_arises : Lasting Mesh.Built (fun _ => True) (Arises : Region β α → Prop)
    (fun _ : Junction β α => True) where
  created instanceId device name _ chunking built := .created instanceId device name chunking built
  region change _ _ arises := .call change arises
  parameter _ name value arises := .call (.setParameter name value) arises
  declare _ d name calculator _ arises := .declare d name calculator arises
  declareOnContact _ contact name calculator _ arises := .declareOnContact contact name calculator arises
  base _ base arises := .rebased base arises
  joined _ _ _ := trivial
  interface _ _ _ _ := trivial

/-- On meshes that constructors give, the regions of a device arise. -/
theorem arises_after {name : String} {settings : Settings β} {d₀ : Device β α}
    (made : Device.create name settings = .ok d₀) {changes : List (Device.Change β α)}
    (meshed : ∀ change ∈ changes, change.Meshed) {region : String} {r : Region β α}
    (found : (d₀.after changes).parts.regions.get? region = some r) : r.Arises :=
  (Device.all_after lasting_arises (Device.all_create made) fun change member =>
    (meshed change member).allowed).regions region r found

end FiniteVolume.Region
