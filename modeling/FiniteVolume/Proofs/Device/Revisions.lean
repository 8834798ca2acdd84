import FiniteVolume.Proofs.Device.Values
import FiniteVolume.Proofs.Equation.Steps
import FiniteVolume.Proofs.Model.Still

/-!
The regions of a device while its values change.

Circuit values, updates and integration reach the regions by calls on them only (`Device.runs_update`), so
every region is left in a later state, with a new revision if anything reads differently
(`Device.continues_setCircuitValue`, `Device.continues_update`).
-/
namespace FiniteVolume

variable {β α : Type} [BaseScalar β] [Scalar α] [Precision β α]

/-! ## Calls on regions -/

namespace Region

variable {r r' : Region β α}

theorem run_append (r : Region β α) (changes changes' : List (Change β α)) :
    r.run (changes ++ changes') = (r.run changes).run changes' := List.foldl_append

theorem continues_run (r : Region β α) (changes : List (Change β α)) : r.Continues (r.run changes) := by
  induction changes generalizing r with
  | nil => exact .refl r
  | cons change rest ih => exact (Continues.change r change).trans (ih _)

theorem exists_run_of_composed {ρ : Type} {settings : Settings β} {may : Pass.Effect → Prop}
    {a : RegionPass β α ρ} (composed : Pass.Composed (rules settings) may a)
    (s : PassState (Region β α) α) :
    ∃ changes : List (Change β α), (a s).2.owner = s.owner.run changes := by
  refine composed.keeps (I := fun r => ∃ changes : List (Change β α), r = s.owner.run changes)
    (fun ρ a reads s' => ?_) ⟨[], rfl⟩
  rintro ⟨changes, same⟩
  cases reads with
  | fetch site d name =>
    refine ⟨changes ++ [.read d name, .takeNotes], ?_⟩
    rw [run_append, ← same]
    rfl

end Region

theorem BulkEquation.exists_run_update (e : BulkEquation β) (settings : UpdateSettings β)
    (raw : Array α) (r : Region β α) (log : Log) :
    ∃ changes : List (Region.Change β α), (e.update settings raw r log).2.1 = r.run changes := by
  have read : (Region.read .node e.variableName r).2 = r.run [.read .node e.variableName] := rfl
  unfold update
  dsimp only
  split
  next ran =>
    rw [ran] at read
    exact ⟨_, read⟩
  next r₁ ran =>
    rw [ran] at read
    split
    · exact ⟨_, read⟩
    next values _ _ =>
      split
      · exact ⟨_, read⟩
      next r' wrote =>
        refine ⟨[.read .node e.variableName] ++ [.setData .node e.variableName (.vector values)], ?_⟩
        rw [Region.run_append, ← read]
        change r' = r₁.orElse (r₁.setData .node e.variableName (.vector values))
        rw [show r₁.setData _ _ _ = .ok r' from wrote]
        rfl

namespace Parts

variable {p p' p'' : Parts β α} {name : String} {r r' : Region β α}

/-- The second parts are the first after calls on the regions. -/
structure Runs (p p' : Parts β α) : Prop where
  junctions : p'.junctions = p.junctions
  regions : ∀ name, ∃ changes : List (Region.Change β α),
    p'.regions.get? name = (p.regions.get? name).map (·.run changes)

namespace Runs

theorem refl (p : Parts β α) : Runs p p :=
  ⟨rfl, fun name => ⟨[], (congrFun Option.map_id (p.regions.get? name)).symm⟩⟩

theorem trans (first : Runs p p') (second : Runs p' p'') : Runs p p'' where
  junctions := second.junctions.trans first.junctions
  regions name := by
    obtain ⟨changes, found⟩ := first.regions name
    obtain ⟨changes', found'⟩ := second.regions name
    refine ⟨changes ++ changes', ?_⟩
    rw [found', found, Option.map_map]
    simp only [Region.run_append]
    rfl

theorem setRegion (found : p.regions.get? name = some r)
    (ran : ∃ changes : List (Region.Change β α), r' = r.run changes) : Runs p (p.setRegion name r') where
  junctions := rfl
  regions other := by
    obtain ⟨changes, rfl⟩ := ran
    rw [Parts.setRegion, Table.get?_modify]
    split
    next same =>
      rw [same, found]
      exact ⟨changes, rfl⟩
    · exact (refl p).regions other

theorem mapRegions (p : Parts β α) (change : Region.Change β α) :
    Runs p (p.mapRegions (Region.Change.apply · change)) :=
  ⟨rfl, fun _ => ⟨[change], Table.get?_mapEntries ..⟩⟩

end Runs

/-- The second parts have all regions of the first, in a later state. -/
def Continues (p p' : Parts β α) : Prop :=
  ∀ name r, p.regions.get? name = some r →
    ∃ r', p'.regions.get? name = some r' ∧ r.Continues r'

theorem Runs.continues (runs : Runs p p') : Continues p p' := by
  intro name r found
  obtain ⟨changes, left⟩ := runs.regions name
  rw [found] at left
  exact ⟨_, left, r.continues_run changes⟩

end Parts

/-! ## Calls on the device -/

namespace Device

theorem runs_setCircuitValue (d : Device β α) (name : String) (value : β) :
    Parts.Runs d.parts (d.setCircuitValue name value).parts := by
  unfold setCircuitValue
  split
  · exact .mapRegions d.parts (.setParameter name value)
  · exact .refl d.parts

theorem runs_updateCircuit (d : Device β α) (solution : Array α) :
    Parts.Runs d.parts (d.updateCircuit solution).parts :=
  updateCircuit_induction (motive := fun d' => Parts.Runs d.parts d'.parts) (.refl d.parts)
    (fun d' name value runs => runs.trans (d'.runs_setCircuitValue name value)) solution

theorem runs_updateFrom (settings : UpdateSettings β) (solution : Array α)
    (stats : UpdateStats β) (items : List (String × BulkEquation β)) (parts : Parts β α) (log : Log) :
    Parts.Runs parts (updateFrom settings solution stats items parts log).2.2.1 :=
  updateFrom_induction (fun _ _ r e raw log here runs =>
    runs.trans (.setRegion here (e.exists_run_update settings raw r log)))
    solution stats items log (.refl parts)

theorem runs_integrate (region : String) (e : ContactEquation β)
    (mask : Array Bool) (settings : Settings β) (s : PassState (Parts β α) α) :
    Parts.Runs s.owner (Parts.onRegion region (e.integrate mask settings) s).2.owner := by
  rw [Parts.onRegion_eq]
  cases found : s.owner.regions.get? region with
  | none =>
    rw [Pass.run_onPart?_of_missing found]
    exact .refl s.owner
  | some r =>
    rw [Pass.run_onPart? found]
    have composed : Pass.Composed (Region.rules settings) Pass.nothing
        (e.integrate mask settings : RegionPass β α (ContactEquation β)) := e.composed_integrate
    exact .setRegion found (Region.exists_run_of_composed composed { s with owner := r })

theorem runs_integrateFrom (settings : Settings β)
    (items : List (String × ContactEquation β × Array Bool)) (s : PassState (Parts β α) α) :
    Parts.Runs s.owner (integrateFrom settings items s).2.2.owner :=
  integrateFrom_induction (fun region e mask s runs => runs.trans (runs_integrate region e mask settings s))
    items (.refl s.owner)

theorem runs_integrateContacts (d : Device β α) : Parts.Runs d.parts d.integrateContacts.2.parts :=
  runs_integrateFrom d.settings d.ownedNodes { owner := d.parts, log := d.log }

theorem runs_update (d : Device β α) (solution : Array α) :
    Parts.Runs d.parts (d.update solution).2.parts := by
  unfold update
  split
  · exact .refl d.parts
  · have bulk := runs_updateFrom d.settings.update solution {} d.bulkEquations d.parts d.log
    split
    next ran =>
      rw [ran] at bulk
      exact bulk
    next bulkEquations parts log ran =>
      rw [ran] at bulk
      have contacts := (bulk.trans (runs_updateCircuit { d with bulkEquations, parts, log }
        solution)).trans (runs_integrateContacts _)
      dsimp only
      split
      all_goals
        next ran =>
          rw [ran] at contacts
          exact contacts

theorem continues_setCircuitValue (d : Device β α) (name : String) (value : β) :
    Parts.Continues d.parts (d.setCircuitValue name value).parts :=
  (d.runs_setCircuitValue name value).continues

/-- However far an update comes, every region is left in a later state. -/
theorem continues_update (d : Device β α) (solution : Array α) :
    Parts.Continues d.parts (d.update solution).2.parts :=
  (d.runs_update solution).continues

end Device

end FiniteVolume
