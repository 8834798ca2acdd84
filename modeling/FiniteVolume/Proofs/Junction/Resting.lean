import FiniteVolume.Proofs.Junction.Lookup
import FiniteVolume.Proofs.Model.Resting

/-!
Interfaces between two calls.

A read of an interface ends all calculations that it begins, in the interface and in its regions
(`Coupled.Restores`). Whatever is declared, an interface at rest is so again after every call on it
(`Junction.Resting`).
-/
namespace FiniteVolume

variable {β α : Type}

/-- An interface between two calls. It has no contacts. -/
def Junction.Resting (j : Junction β α) : Prop := j.models.Resting j.domainSize ∅

namespace Coupled

variable {c c' c'' : Coupled β α}

/-- The second pair of interface and regions is that after reads begun in the first, all of which have
ended. -/
structure Restores (c c' : Coupled β α) : Prop where
  geometry : c'.junction.geometry = c.junction.geometry
  models : c.junction.models.Restores c.junction.domainSize c'.junction.models
  regions : ∀ side, Region.Restores (c.region side) (c'.region side)

namespace Restores

theorem refl (c : Coupled β α) : Restores c c := ⟨rfl, .refl _, fun _ => .refl _⟩

theorem domainSize_eq (restores : Restores c c') : c'.junction.domainSize = c.junction.domainSize := by
  funext d
  cases d
  case node => exact congrArg Interface.size restores.geometry
  all_goals rfl

theorem trans (first : Restores c c') (second : Restores c' c'') : Restores c c'' where
  geometry := second.geometry.trans first.geometry
  models := first.models.trans (first.domainSize_eq ▸ second.models)
  regions side := (first.regions side).trans (second.regions side)

theorem resting (restores : Restores c c') (resting : c.junction.Resting) : c'.junction.Resting := by
  rw [Junction.Resting, restores.domainSize_eq]
  exact restores.models.resting resting

theorem refresh (c : Coupled β α) : Restores c c.refresh := by
  have marks : ∀ (names : List String) (s : ModelStore β α),
      s.Restores c.junction.domainSize (names.foldl (·.markOld ·) s) := by
    intro names
    induction names with
    | nil => exact fun s => .refl s
    | cons name rest ih => exact fun s => (ModelStore.Restores.markOld s name).trans (ih _)
  refine ⟨?_, ?_, fun side => by cases side <;> exact .refl _⟩
  all_goals
    unfold Coupled.refresh Junction.refresh
    split
  · rfl
  · rfl
  · exact .refl _
  · exact marks _ _

variable [Scalar α]

theorem setRegion (c : Coupled β α) (side : Side) (name : String) :
    Restores c (c.setRegion side ((c.region side).read .node name).2) where
  geometry := by rw [junction_setRegion]
  models := by
    rw [junction_setRegion]
    exact .refl _
  regions other := by
    by_cases same : other = side
    · rw [same, region_setRegion]
      exact Region.restores_read _ _ _
    · rw [region_setRegion_of_ne same]
      exact .refl _

theorem readWithin (k : Nat) (name : String) (c : Coupled β α) :
    Restores c (readWithin k name c).2 := by
  refine readWithin_rel .refl (fun _ _ _ => .trans) setRegion ?_ k name c
  intro c c' name m calculator outcome found _ computed ran
  refine ⟨ran.geometry, ?_, ran.regions⟩
  exact ran.models.calculation (c.targetOf name m) found computed rfl fun _ =>
    ModelStore.size_of_checked

theorem read (c : Coupled β α) (name : String) : Restores c (c.read name).2 :=
  (refresh c).trans (readWithin _ name _)

theorem find (c : Coupled β α) (name : String) : Restores c (c.find name).2 :=
  (refresh c).trans (lookupWith_rel (.refl _) (fun name => readWithin _ name _) (setRegion _) name)

end Restores

end Coupled

namespace Junction.Resting

variable {j : Junction β α} (resting : j.Resting)

include resting

theorem declare (name : String) (calculator : Calculator β α) : (j.declare name calculator).Resting :=
  ModelStore.Resting.declare resting calculator (by simp)

theorem setUniform (name : String) (value : α) : (j.setUniform name value).Resting :=
  ModelStore.Resting.write resting rfl

theorem setValues {j' : Junction β α} {name : String} {values : Array α}
    (wrote : j.setValues name values = .ok j') : j'.Resting := by
  unfold Junction.setValues at wrote
  split at wrote
  · cases wrote
  next fits =>
    cases wrote
    exact ModelStore.Resting.write resting (not_not.mp fits)

theorem removeModel (name : String) : (j.removeModel name).Resting :=
  ModelStore.Resting.remove resting .node name

theorem markOld (name : String) : (j.markOld name).Resting := ModelStore.Resting.markOld resting name

end Junction.Resting

end FiniteVolume
