import FiniteVolume.Proofs.Device.Conservation
import FiniteVolume.Proofs.Device.Regular
import FiniteVolume.Proofs.Device.Turns
import FiniteVolume.Proofs.Device.Update

/-!
Circuit nodes as parameters of regions.

The value of a circuit node stands in the circuit and, as a parameter of that name, in every region. All of
these agree after every history in which no region is given a parameter under the name of a circuit node
(`Device.Steered.inStep`), whichever of regions and nodes came first and however an update ended. An update
that succeeds moves every node by the entry on its row (`Device.circuit_moves_in_step`).
-/
namespace FiniteVolume

variable {β α : Type}

/-! ## Regions -/

namespace Region

variable {r r' : Region β α} {nodes nodes' : Table String β} {name : String} {value : β}

def Shows (r : Region β α) (nodes : Table String β) : Prop :=
  ∀ node value, nodes.get? node = some value → r.parameter? node = some value

theorem parameter?_setParameter (r : Region β α) (name node : String) (value : β) :
    (r.setParameter name value).parameter? node =
      if node = name then some value else r.parameter? node :=
  Table.get?_insert ..

theorem Shows.of_parameters_eq (agrees : r.Shows nodes) (same : r'.parameters = r.parameters) :
    r'.Shows nodes := fun node value held =>
  (congrArg (Table.get? · node) same).trans (agrees node value held)

theorem Shows.setParameter (agrees : r.Shows nodes)
    (others : ∀ node ≠ name, nodes'.get? node = nodes.get? node)
    (here : ∀ held, nodes'.get? name = some held → held = value) :
    (r.setParameter name value).Shows nodes' := by
  intro node held found
  rw [parameter?_setParameter]
  split
  next same =>
    subst same
    rw [here held found]
  next other => exact agrees node held (others node other ▸ found)

theorem parameter?_foldl {entries : List (String × β)} (distinct : (entries.map (·.1)).Nodup)
    (r : Region β α) (node : String) :
    (entries.foldl (fun r x => r.setParameter x.1 x.2) r).parameter? node =
      (entries.lookup node).or (r.parameter? node) := by
  induction entries generalizing r with
  | nil => rfl
  | cons x rest ih =>
    obtain ⟨key, value⟩ := x
    rw [List.map_cons, List.nodup_cons] at distinct
    rw [List.foldl_cons, ih distinct.2, parameter?_setParameter]
    by_cases here : node = key
    · subst here
      have later : rest.lookup node = none := List.lookup_eq_none_iff.mpr fun y member => by
        have other : y.1 ≠ node := fun same => distinct.1 (List.mem_map.mpr ⟨y, member, same⟩)
        simpa using other.symm
      simp [later]
    · simp [List.lookup_cons, beq_eq_false_iff_ne.mpr here, here]

theorem shows_foldl (nodes : Table String β) (r : Region β α) :
    (nodes.toList.foldl (fun r x => r.setParameter x.1 x.2) r).Shows nodes := by
  intro node value held
  refine (parameter?_foldl nodes.nodup r node).trans ?_
  rw [show nodes.entries.lookup node = some value from held, Option.some_or]

end Region

variable [BaseScalar β] [Scalar α] [Precision β α]

/-- Only calls that set parameters can make a region show other values. -/
theorem Region.parametric_shows (nodes : Table String β) : Parametric (fun _ => True)
    (fun r : Region β α => r.Shows nodes) fun _ : Junction β α => True where
  region change r unset agrees := agrees.of_parameters_eq (by rw [change.parameters_apply, unset]; rfl)
  declare _ _ _ _ _ agrees := agrees.of_parameters_eq rfl
  declareOnContact r contact name calculator _ agrees := by
    unfold Region.declareOnContact
    split
    · exact agrees.of_parameters_eq rfl
    · exact agrees
  base _ _ agrees := agrees.of_parameters_eq rfl
  joined _ _ _ := trivial
  interface _ _ _ _ := trivial

/-- An update reads its variable, and writes it unless it is refused. -/
theorem Parametric.update {usable : Calculator β α → Prop} {P : Region β α → Prop}
    {Q : Junction β α → Prop} (parametric : Parametric usable P Q) (e : BulkEquation β)
    (settings : UpdateSettings β) (raw : Array α) {r : Region β α} (log : Log) (holds : P r) :
    P (e.update settings raw r log).2.1 := by
  have read := parametric.region (.read .node e.variableName) r rfl holds
  rcases ran : e.update settings raw r log with ⟨fault | e', r', log'⟩
  · rw [BulkEquation.region_of_update_error ran]
    exact read
  · obtain ⟨old, stats, new, -, -, wrote, -⟩ := BulkEquation.update_eq_ok_iff.mp ran
    have written := parametric.region (.setData .node e.variableName (.vector new)) _ rfl read
    rwa [Region.Change.apply, Region.Change.apply,
      show Region.setData _ _ _ _ = .ok r' from wrote] at written

namespace Device

/-! ## Devices -/

variable {d d' : Device β α}

/-- In every region, the parameter with the name of a circuit node is the value of the node. -/
def InStep (d : Device β α) : Prop :=
  ∀ name r, d.parts.regions.get? name = some r →
    ∀ node value, d.circuit.value? node = some value → r.parameter? node = some value

namespace InStep

omit [Scalar α] [Precision β α] in
theorem iff_all : d.InStep ↔ d.parts.All (fun r => r.Shows d.circuit.nodes) fun _ => True :=
  ⟨fun inStep => ⟨inStep, fun _ _ _ => trivial⟩, fun all => all.regions⟩

omit [Scalar α] [Precision β α] in
theorem of_all (all : d'.parts.All (fun r => r.Shows d.circuit.nodes) fun _ => True)
    (same : d'.circuit.nodes = d.circuit.nodes) : d'.InStep := iff_all.mpr (same ▸ all)

variable (inStep : d.InStep)

include inStep

omit [Scalar α] [Precision β α] in
theorem setCircuitValue (name : String) (value : β) : (d.setCircuitValue name value).InStep := by
  unfold Device.setCircuitValue
  split
  · refine iff_all.mpr ((iff_all.mp inStep).mapRegions fun r agrees => ?_)
    refine agrees.setParameter (fun node other => ?_) fun held found => ?_
    · exact (Table.get?_modify ..).trans (if_neg other)
    · obtain ⟨_, -, same⟩ := Option.map_eq_some_iff.mp
        (((Table.get?_modify ..).trans (if_pos rfl)).symm.trans found)
      exact same.symm
  · exact inStep

theorem updateCircuit (solution : Array α) : (d.updateCircuit solution).InStep :=
  updateCircuit_induction inStep (fun _ name value inStep => inStep.setCircuitValue name value) solution

theorem integrateContacts : d.integrateContacts.2.InStep :=
  of_all (all_integrateContacts (Region.parametric_shows _) (iff_all.mp inStep)) rfl

/-- An update that stops in the turns of its equations has moved no node, and one that comes further has
moved the nodes in all regions. -/
theorem update (solution : Array α) : (d.update solution).2.InStep := by
  unfold Device.update
  split
  · exact inStep
  · have parametric := Region.parametric_shows (α := α) d.circuit.nodes
    have left := updateFrom_induction (fun parts region r e raw log here (all : parts.All _ _) =>
      all.setRegion (parametric.update e d.settings.update raw log (all.regions region r here)))
      solution {} d.bulkEquations d.log (iff_all.mp inStep)
    split
    next stopped =>
      rw [stopped] at left
      exact of_all left rfl
    next bulkEquations parts log done =>
      rw [done] at left
      have turned : { d with bulkEquations, parts, log }.InStep := of_all left rfl
      have integrated := (turned.updateCircuit solution).integrateContacts
      dsimp only
      split
      all_goals
        next ran =>
          rw [ran] at integrated
          exact integrated

theorem addRegion {name : String} {mesh : Mesh β} (added : d.addRegion name mesh = .ok d') : d'.InStep := by
  unfold Device.addRegion at added
  split at added
  · cases added
  · cases added
    refine of_all (Parts.All.renumber ?_ (Region.parametric_shows _).base) rfl
    exact (iff_all.mp inStep).insertRegion (Region.shows_foldl d.circuit.nodes _)

theorem addCircuitNode (name : String) (value : β) : (d.addCircuitNode name value).InStep := by
  have all : (d.parts.mapRegions (·.setParameter name value)).All
      (fun r => r.Shows (d.circuit.nodes.insert name value)) fun _ => True := by
    refine (iff_all.mp inStep).mapRegions fun r agrees => ?_
    refine agrees.setParameter (fun node other => ?_) fun held found => ?_
    · rw [Table.get?_insert, if_neg other]
    · rw [Table.get?_insert, if_pos rfl] at found
      exact (Option.some.inj found).symm
  exact iff_all.mpr (all.renumber (Region.parametric_shows _).base)

end InStep

/-! ## Histories -/

/-- The call sets no parameter of a region under the name of a circuit node. -/
def Change.Respects (d : Device β α) : Change β α → Prop
  | region _ change => ∀ name value, change.parameter? = some (name, value) → d.circuit.value? name = none
  | _ => True

theorem InStep.apply {change : Change β α} (inStep : d.InStep) (respects : change.Respects d) :
    (change.apply d).InStep := by
  have all := InStep.iff_all.mp inStep
  cases change with
  | addRegion name mesh =>
    rw [Change.apply]
    cases added : d.addRegion name mesh with
    | error e => exact inStep
    | ok d' => exact inStep.addRegion added
  | addCircuitNode name value => exact inStep.addCircuitNode name value
  | setCircuitValue name value => exact inStep.setCircuitValue name value
  | update solution => exact inStep.update solution
  | region name change =>
    have nodes := congrArg Circuit.nodes (d.circuit_changeRegion name (Region.Change.apply · change))
    refine .of_all (all_changeRegion all (fun r agrees => ?_) name) nodes
    cases set : change.parameter? with
    | none => exact (Region.parametric_shows _).region change r set agrees
    | some x =>
      have missing := respects x.1 x.2 set
      cases change <;> cases set
      refine agrees.setParameter (fun _ _ => rfl) fun held found => ?_
      cases missing.symm.trans found
  | _ =>
    have fits : ∀ change : Change β α, change.Allowed (fun _ => True) fun _ => True :=
      Change.allowed_of_forall (fun _ => trivial) fun _ => trivial
    exact .of_all (Change.all_apply_of_keepsParameters (Region.parametric_shows _) all (fits _) trivial)
      (Change.nodes_apply id d)

/-- The device results from an empty one by calls, none of which sets a parameter of a region under the
name of a circuit node, and by other first rows for its regions. -/
inductive Steered : Device β α → Prop
  | created {d : Device β α} {name : String} {settings : Settings β}
    (made : create name settings = .ok d) : Steered d
  | call {d : Device β α} (steered : Steered d) (change : Change β α) (respects : change.Respects d) :
    Steered (change.apply d)
  | setBase {d : Device β α} (steered : Steered d) (region : String) (base : Nat) :
    Steered (d.setBase region base)

/-- Each call of a history respects the circuit nodes that are there when it is made. -/
def Respect (d : Device β α) : List (Change β α) → Prop
  | [] => True
  | change :: rest => change.Respects d ∧ Respect (change.apply d) rest

theorem Steered.after {changes : List (Change β α)} (steered : d.Steered) (respect : Respect d changes) :
    (d.after changes).Steered := by
  induction changes generalizing d with
  | nil => exact steered
  | cons change rest ih => exact ih (steered.call change respect.1) respect.2

theorem Steered.inStep (steered : d.Steered) : d.InStep := by
  induction steered with
  | created made => exact InStep.iff_all.mpr (all_create made)
  | call _ change respects ih => exact ih.apply respects
  | setBase _ region base ih =>
    have all := InStep.iff_all.mp ih
    exact .of_all (all_changeRegion all (fun r => (Region.parametric_shows _).base r base) region)
      (congrArg Circuit.nodes (circuit_changeRegion ..))

omit [Scalar α] [Precision β α] in
/-- Every circuit node has a row, and a solution that fits has an entry on it. -/
theorem exists_entry {solution : Array α} (sized : solution.size = d.rowCount) {node : String} {value : β}
    (held : d.circuit.value? node = some value) :
    ∃ row step, d.circuit.row? node = some row ∧ solution[row]? = some step := by
  obtain ⟨row, there⟩ := Circuit.exists_row?_eq held
  have inside : row < solution.size := by
    rw [sized, rowCount]
    exact (Circuit.row?_bounds there).2
  exact ⟨row, solution[row], there, Array.getElem?_eq_getElem inside⟩

/-- Circuit nodes and the parameters of their names have the same values after every history that sets no
such parameter of a region directly. An update that succeeds keeps the nodes and adds to each the entry of
the solution on its row, in the circuit and in every region. -/
theorem circuit_moves_in_step (steered : d.Steered) : d.InStep ∧
    ∀ solution stats d', d.update solution = (.ok stats, d') →
      d'.circuit.names = d.circuit.names ∧
      ∀ node value, d.circuit.value? node = some value →
        ∃ row step, d.circuit.row? node = some row ∧ solution[row]? = some step ∧
          d'.circuit.value? node = some (value + Precision.widen step) ∧
          ∀ name r, d'.parts.regions.get? name = some r →
            r.parameter? node = some (value + Precision.widen step) := by
  refine ⟨steered.inStep, fun solution stats d' ran => ?_⟩
  have reached : d' = Change.apply d (.update solution) := (congrArg Prod.snd ran).symm
  have inStep : d'.InStep := reached ▸ (steered.call (.update solution) trivial).inStep
  have sized : solution.size = d.rowCount := by
    by_contra wrong
    rw [update, if_pos wrong] at ran
    cases ran
  refine ⟨reached ▸ Change.names_apply (.update solution) d, fun node value held => ?_⟩
  obtain ⟨row, step, there, entry⟩ := exists_entry sized held
  have moved := value?_update ran there held
  rw [entry, Option.getD_some] at moved
  exact ⟨row, step, there, entry, moved, fun name r found => inStep name r found node _ moved⟩

/-- One region is there before the node, the other is added after it, and the node is added again and set
before it is moved. -/
theorem circuit_moves_in_step_of_two_regions :
    let mesh : Mesh ℚ := ⟨.segment, #[⟨0, 0, 0⟩, ⟨1, 0, 0⟩], #[⟨0, 1⟩], #[]⟩
    let d₀ : Device ℚ ℚ := { name := "device", settings := {} }
    let calls : List (Change ℚ ℚ) :=
      [.addRegion "left" mesh, .addCircuitNode "anode" 1, .addRegion "right" mesh,
        .addEquation "left" { name := "e", variableName := "u" }, .addCircuitNode "cathode" 5,
        .addCircuitNode "anode" 3, .setCircuitValue "anode" 2, .region "left" (.setParameter "width" 7)]
    ∃ stats d', (d₀.after calls).update #[0, 0, 1/2, 4] = (.ok stats, d') ∧
      d'.circuit.value? "anode" = some (5/2) ∧ (d'.parts.regions.get? "left").isSome ∧
      ∀ name r, d'.parts.regions.get? name = some r → r.parameter? "anode" = some (5/2) := by
  intro mesh d₀ calls
  have made : create "device" {} = .ok d₀ := create_of_valid (by decide +kernel)
  have steered : (d₀.after calls).Steered := (Steered.created made).after
    ⟨trivial, trivial, trivial, trivial, trivial, trivial, trivial,
      fun name value set => by cases set; decide +kernel, trivial⟩
  have runs : ((d₀.after calls).update #[0, 0, 1/2, 4]).1.toBool = true := by decide +kernel
  have left : (((d₀.after calls).update #[0, 0, 1/2, 4]).2.parts.regions.get? "left").isSome = true := by
    decide +kernel
  have held : (d₀.after calls).circuit.value? "anode" = some 2 := by decide +kernel
  have there : (d₀.after calls).circuit.row? "anode" = some 2 := by decide +kernel
  clear_value calls
  obtain ⟨stats, d', ran⟩ := exists_eq_ok_of_toBool runs
  rw [ran] at left
  obtain ⟨row, step, there', entry, moved, shown⟩ :=
    ((circuit_moves_in_step steered).2 _ stats d' ran).2 "anode" 2 held
  cases there.symm.trans there'
  obtain rfl : step = 1/2 := Option.some.inj (entry.symm.trans rfl)
  have sum : (2 : ℚ) + Precision.widen (1/2 : ℚ) = 5/2 := by decide +kernel
  rw [sum] at moved shown
  exact ⟨stats, d', ran, moved, left, shown⟩

end Device

end FiniteVolume
