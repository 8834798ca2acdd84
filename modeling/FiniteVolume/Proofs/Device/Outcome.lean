import FiniteVolume.Proofs.Device.Revisions
import FiniteVolume.Proofs.Device.Turns
import FiniteVolume.Proofs.Device.Update

/-!
Outcomes of an update.

An update of a device stops before the first turn, in the turns of its equations, while contacts are
integrated, or not at all (`Device.update_outcome`). After the turns no model is written: circuit nodes
become parameters of the regions, and contacts read what they integrate.
-/
namespace FiniteVolume

variable {β α : Type} [BaseScalar β] [Scalar α] [Precision β α]

/-! ## Steps that write no model -/

abbrev Parts.Unwritten (p p' : Parts β α) : Prop := p.WritesOnly (fun _ _ _ => False) p'

namespace Device

omit [Scalar α] [Precision β α] in
theorem unwritten_setCircuitValue (d : Device β α) (name : String) (value : β) :
    d.parts.Unwritten (d.setCircuitValue name value).parts := by
  unfold setCircuitValue
  split
  · refine ⟨rfl, fun region r found => ⟨r.setParameter name value, ?_, .setParameter r name value⟩⟩
    exact (Table.get?_mapEntries ..).trans (congrArg (Option.map _) found)
  · exact .refl _

theorem unwritten_updateCircuit (d : Device β α) (solution : Array α) :
    d.parts.Unwritten (d.updateCircuit solution).parts :=
  updateCircuit_induction (motive := fun d' => d.parts.Unwritten d'.parts) (.refl d.parts)
    (fun d' name value unwritten => unwritten.trans (d'.unwritten_setCircuitValue name value)) solution

omit [Scalar α] [Precision β α] in
theorem setCircuitValue_eq (d : Device β α) (name : String) (value : β) :
    ∃ circuit parts, d.setCircuitValue name value = { d with circuit, parts } := by
  unfold setCircuitValue
  split
  · exact ⟨_, _, rfl⟩
  · exact ⟨d.circuit, d.parts, rfl⟩

theorem updateCircuit_eq (d : Device β α) (solution : Array α) :
    ∃ circuit parts, d.updateCircuit solution = { d with circuit, parts } := by
  refine updateCircuit_induction (motive := fun d' => ∃ circuit parts, d' = { d with circuit, parts })
    ⟨d.circuit, d.parts, rfl⟩ (fun d' name value moved => ?_) solution
  obtain ⟨circuit, parts, rfl⟩ := moved
  exact setCircuitValue_eq _ name value

theorem unwritten_integrate (region : String) (e : ContactEquation β) (mask : Array Bool)
    (settings : Settings β) (s : PassState (Parts β α) α) :
    s.owner.Unwritten (Parts.onRegion region (e.integrate mask settings) s).2.owner := by
  rw [Parts.onRegion_eq]
  cases found : s.owner.regions.get? region with
  | none =>
    rw [Pass.run_onPart?_of_missing found]
    exact .refl _
  | some r =>
    rw [Pass.run_onPart? found]
    have composed : Pass.Composed (Region.rules settings) Pass.nothing
        (e.integrate mask settings : RegionPass β α (ContactEquation β)) := e.composed_integrate
    refine .setRegion found (.of_uncached_eq ?_)
    have start : ({ s with owner := r } : PassState (Region β α) α).owner.uncached = r.uncached := rfl
    refine composed.keeps (I := fun r' => r'.uncached = r.uncached) (fun ρ a reads s' same => ?_) start
    cases reads with
    | fetch site d name => exact (s'.owner.progress_read d name).declared.trans same

theorem unwritten_integrateContacts (d : Device β α) :
    d.parts.Unwritten d.integrateContacts.2.parts := by
  have start : d.parts.Unwritten ({ owner := d.parts, log := d.log } : PassState (Parts β α) α).owner :=
    .refl _
  exact integrateFrom_induction (fun region e mask s unwritten =>
    unwritten.trans (unwritten_integrate region e mask d.settings s)) d.ownedNodes start

theorem updateCircuit_integrateContacts (d : Device β α) (solution : Array α) :
    let d' := (d.updateCircuit solution).integrateContacts.2
    d.parts.Unwritten d'.parts ∧ d'.bulkEquations = d.bulkEquations ∧ d'.lastUpdate = d.lastUpdate := by
  refine ⟨(d.unwritten_updateCircuit solution).trans (unwritten_integrateContacts _), ?_⟩
  obtain ⟨circuit, parts, moved⟩ := d.updateCircuit_eq solution
  rw [moved]
  exact ⟨rfl, rfl⟩

theorem Refused.unwritten {settings : UpdateSettings β} {solution : Array α} {s : UpdateState β α}
    {x : String × BulkEquation β} {fault : UpdateError β} {r' : Region β α} {log : Log}
    (refused : Refused settings solution s x fault r' log) :
    s.parts.Unwritten (s.parts.setRegion x.1 r') := by
  obtain ⟨r, start, slot, -, ran⟩ := refused
  rw [BulkEquation.region_of_update_error ran]
  exact .setRegion (Parts.slot?_eq_some_iff.mp slot).1
    (.of_uncached_eq (r.progress_read .node x.2.variableName).declared)

/-! ## How updates end -/

def updateStart (d : Device β α) : UpdateState β α := ⟨{}, d.parts, d.log⟩

/-- All turns have been taken, circuit nodes have taken the entries on their rows, and contacts have been
integrated, if not all of them. -/
structure Carried (d : Device β α) (solution : Array α) (s : UpdateState β α) (d' : Device β α) : Prop where
  turns : Turns d.settings.update solution d.updateStart d.bulkEquations s d'.bulkEquations
  unwritten : s.parts.Unwritten d'.parts
  circuit : ∀ name row value, d.circuit.row? name = some row → d.circuit.value? name = some value →
    d'.circuit.value? name = some (value + Precision.widen (solution[row]?.getD 0))

/-- How an update comes out. -/
inductive Outcome (d : Device β α) (solution : Array α) :
    Except (DeviceError β) (UpdateStats β) × Device β α → Prop
  | wrongSize (wrong : solution.size ≠ d.rowCount) :
    Outcome d solution (.error (.update (.lengthMismatch d.rowCount solution.size)), d)
  | stopped {e : DeviceError β} {items : List (String × BulkEquation β)} {p : Parts β α} {log : Log}
    (sized : solution.size = d.rowCount)
    (ending : Ending d.settings.update solution d.updateStart d.bulkEquations (.error e, items, p, log)) :
    Outcome d solution (.error e, { d with bulkEquations := items, parts := p, log := log })
  | interrupted {s : UpdateState β α} {fault : AssemblyError} {d' : Device β α}
    (carried : Carried d solution s d') (kept : d'.lastUpdate = d.lastUpdate) :
    Outcome d solution (.error (.assembly fault), d')
  | done {s : UpdateState β α} {d' : Device β α} (carried : Carried d solution s d')
    (stored : d'.lastUpdate = s.stats) : Outcome d solution (.ok s.stats, d')

theorem error_of_integrateContacts {d d' : Device β α} {e : DeviceError β}
    (failed : d.integrateContacts = (.error e, d')) : ∃ fault, e = .assembly fault := by
  have result := congrArg Prod.fst failed
  unfold integrateContacts at result
  dsimp only at result
  cases ran : (integrateFrom d.settings d.ownedNodes { owner := d.parts, log := d.log }).1 with
  | ok x =>
    rw [ran] at result
    cases result
  | error fault =>
    rw [ran] at result
    cases result
    exact ⟨fault, rfl⟩

theorem Turns.carried {d : Device β α} {solution : Array α} {s : UpdateState β α}
    {items : List (String × BulkEquation β)}
    (turns : Turns d.settings.update solution d.updateStart d.bulkEquations s items) :
    let moved := { d with bulkEquations := items, parts := s.parts, log := s.log }.updateCircuit solution
    Carried d solution s moved.integrateContacts.2 := by
  obtain ⟨unwritten, equations, -⟩ := updateCircuit_integrateContacts
    { d with bulkEquations := items, parts := s.parts, log := s.log } solution
  exact ⟨equations ▸ turns, unwritten, fun _ _ _ there held => value?_updateCircuit _ solution there held⟩

theorem update_outcome (d : Device β α) (solution : Array α) : Outcome d solution (d.update solution) := by
  unfold update
  split
  next wrong => exact .wrongSize wrong
  next sized =>
    have ending := updateFrom_ending d.settings.update solution d.updateStart d.bulkEquations
    dsimp only [updateStart] at ending
    split
    next e bulkEquations parts log stopped =>
      rw [stopped] at ending
      exact .stopped (not_not.mp sized) ending
    next stats bulkEquations parts log done =>
      rw [done] at ending
      cases ending with
      | @all s _ turns =>
        have carried := Turns.carried turns
        obtain ⟨-, -, kept⟩ := updateCircuit_integrateContacts
          { d with bulkEquations, parts := s.parts, log := s.log } solution
        dsimp only at carried kept ⊢
        split
        next e d' failed =>
          obtain ⟨fault, rfl⟩ := error_of_integrateContacts failed
          rw [failed] at carried kept
          exact .interrupted carried kept
        next d' integrated =>
          rw [integrated] at carried
          exact .done ⟨carried.turns, carried.unwritten, carried.circuit⟩ rfl

/-! ## What all turns leave -/

/-- All the equations have taken their turns, as the parts still show. -/
def AllTaken (settings : UpdateSettings β) (solution : Array α) (s : UpdateState β α)
    (items items' : List (String × BulkEquation β)) (p' : Parts β α) : Prop :=
  items'.length = items.length ∧ ∀ before x after, items = before ++ x :: after →
    ∃ updated e' rest, items' = updated ++ (x.1, e') :: rest ∧ updated.length = before.length ∧
      Taken settings solution s before x e' p'

theorem Turns.allTaken {settings : UpdateSettings β} {solution : Array α} {s s' : UpdateState β α}
    {items items' : List (String × BulkEquation β)} {p' : Parts β α}
    (turns : Turns settings solution s items s' items') (distinct : DistinctVariables items)
    (later : s'.parts.Unwritten p') : AllTaken settings solution s items items' p' := by
  refine ⟨turns.length_eq, ?_⟩
  rintro before x after rfl
  exact turns.taken distinct later

theorem taken_of_update {d d' : Device β α} {solution : Array α} {stats : UpdateStats β}
    (distinct : DistinctVariables d.bulkEquations) (ran : d.update solution = (.ok stats, d')) :
    AllTaken d.settings.update solution d.updateStart d.bulkEquations d'.bulkEquations d'.parts := by
  have outcome := d.update_outcome solution
  rw [ran] at outcome
  cases outcome with
  | done carried => exact carried.turns.allTaken distinct carried.unwritten

end Device

end FiniteVolume
