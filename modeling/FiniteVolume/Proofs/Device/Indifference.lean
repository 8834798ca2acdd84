import FiniteVolume.Proofs.Device.Chunking
import FiniteVolume.Proofs.Numeric.Exact

/-!
Devices that divide vectors differently.

Every call on a device is the same call under another division of vectors (`Device.Change.apply_rechunk`), so
one history leads devices under settings that differ in this only to the same state
(`Device.after_rechunk`). They answer alike whatever they are asked (`Device.AnswersAlike`).
-/
namespace FiniteVolume

open Pass

variable {β α : Type} [BaseScalar β]

namespace Device

variable {d : Device β α} (c : Chunking)

/-! ## Building -/

section

variable (d : Device β α)

theorem getRegion_rechunk (name : String) :
    (d.rechunk c).getRegion name = (d.getRegion name).map (Region.rechunk c) := by
  unfold getRegion
  rw [rechunk, Parts.get?_regions_rechunk]
  cases d.parts.regions.get? name <;> rfl

theorem orElse_rechunk (result : Except (DeviceError β) (Device β α)) :
    (d.rechunk c).orElse (result.map (rechunk c)) = (d.orElse result).rechunk c := by
  cases result <;> rfl

theorem setParameter_rechunk (name : String) (value : β) :
    (d.rechunk c).setParameter name value = (d.setParameter name value).rechunk c :=
  congrArg (fun parts => { d.rechunk c with parts })
    (d.parts.mapRegions_rechunk c (f := (·.setParameter name value)) fun _ => rfl)

theorem setCircuitValue_rechunk (name : String) (value : β) :
    (d.rechunk c).setCircuitValue name value = (d.setCircuitValue name value).rechunk c := by
  unfold setCircuitValue
  rw [show (d.rechunk c).circuit = d.circuit from rfl]
  split
  · exact setParameter_rechunk c { d with circuit := d.circuit.setValue name value } name value
  · rfl

theorem addCircuitNode_rechunk (name : String) (value : β) :
    (d.rechunk c).addCircuitNode name value = (d.addCircuitNode name value).rechunk c := by
  unfold addCircuitNode
  rw [← renumber_rechunk, ← setParameter_rechunk]
  rfl

theorem addContact_rechunk (name region : String) (nodes : List Nat) :
    (d.rechunk c).addContact name region nodes = (d.addContact name region nodes).map (rechunk c) := by
  unfold addContact
  rw [getRegion_rechunk, show (d.rechunk c).parts.contactRegion? = _ from d.parts.contactRegion?_rechunk c]
  split
  · rfl
  · cases d.getRegion region with
    | error e => rfl
    | ok r =>
      dsimp only [Except.map, bind, Except.bind]
      rw [show (r.rechunk c).nodeCount = r.nodeCount from rfl]
      cases Contact.of name region nodes r.nodeCount with
      | error e => rfl
      | ok contact =>
        exact congrArg (fun parts => Except.ok { d.rechunk c with parts, stage := .idle })
          (d.parts.setRegion_rechunk c region (r.addContact contact))

theorem addInterface_rechunk (name region0 region1 : String) (pairs : List (Nat × Nat)) :
    (d.rechunk c).addInterface name region0 region1 pairs =
      (d.addInterface name region0 region1 pairs).map (rechunk c) := by
  unfold addInterface
  rw [getRegion_rechunk, getRegion_rechunk]
  rcases d.getRegion region0 with e | r0
  · rfl
  rcases d.getRegion region1 with e | r1
  · rfl
  dsimp only [Except.map, bind, Except.bind]
  rw [show (r0.rechunk c).nodeCount = r0.nodeCount from rfl,
    show (r1.rechunk c).nodeCount = r1.nodeCount from rfl]
  split
  · rfl
  cases Interface.of name (region0, r0.nodeCount) (region1, r1.nodeCount) pairs with
  | error e => rfl
  | ok geometry =>
    let junction : Junction β α := { device := d.name, geometry, chunking := d.settings.chunking }
    exact congrArg (fun junctions => Except.ok
        { d.rechunk c with parts := { (d.parts.rechunk c) with junctions }, stage := .idle })
      (d.parts.junctions.insert_mapEntries name junction (Junction.rechunk c))

theorem addRegion_rechunk [Precision β α] (name : String) (mesh : Mesh β) :
    (d.rechunk c).addRegion name mesh = (d.addRegion name mesh).map (rechunk c) := by
  unfold addRegion
  rw [show (d.rechunk c).parts.regions.contains name = _ from d.parts.contains_regions_rechunk c name]
  split
  · rfl
  · let withNodes (r : Region β α) : Region β α :=
      d.circuit.nodes.toList.foldl (fun r node => r.setParameter node.1 node.2) r
    let created : Region β α :=
      Region.create d.parts.regions.size d.name name mesh d.settings.chunking
    have size : (d.rechunk c).parts.regions.size = d.parts.regions.size := List.length_map ..
    have added : withNodes (created.rechunk c) = (withNodes created).rechunk c :=
      List.foldl_hom (Region.rechunk c) fun _ _ => rfl
    have regions : (d.parts.rechunk c).regions.insert name (withNodes (created.rechunk c)) =
        (d.parts.regions.insert name (withNodes created)).mapEntries fun _ => Region.rechunk c := by
      rw [added]
      exact Table.insert_mapEntries ..
    let after : Device β α := { d with
      parts := { d.parts with regions := d.parts.regions.insert name (withNodes created) } }
    rw [size]
    exact congrArg Except.ok ((congrArg (fun regions =>
      renumber { d.rechunk c with parts := { (d.parts.rechunk c) with regions } }) regions).trans
        (renumber_rechunk c after))

theorem addEquation_rechunk [Scalar α] (region : String) (e : BulkEquation β) :
    (d.rechunk c).addEquation region e = (d.addEquation region e).map (rechunk c) := by
  unfold addEquation
  rw [getRegion_rechunk]
  rcases d.getRegion region with e | r
  · rfl
  dsimp only [Except.map, bind, Except.bind]
  rw [show (d.rechunk c).bulkEquations = d.bulkEquations from rfl]
  split
  · rfl
  · have parts : (d.parts.rechunk c).setRegion region ((r.rechunk c).addEquation e.name e.variableName) =
        (d.parts.setRegion region (r.addEquation e.name e.variableName)).rechunk c := by
      rw [Region.addEquation_rechunk, Parts.setRegion_rechunk]
    let after : Device β α := { d with
      parts := d.parts.setRegion region (r.addEquation e.name e.variableName)
      bulkEquations := d.bulkEquations ++ [(region, e)] }
    exact congrArg Except.ok ((congrArg (fun parts => renumber { d.rechunk c with
      parts, bulkEquations := d.bulkEquations ++ [(region, e)] }) parts).trans
        (renumber_rechunk c after))

theorem addContactEquation_rechunk (e : ContactEquation β) :
    (d.rechunk c).addContactEquation e = (d.addContactEquation e).map (rechunk c) := by
  unfold addContactEquation
  rw [show (d.rechunk c).parts.contactRegion? = _ from d.parts.contactRegion?_rechunk c,
    show (d.rechunk c).contactEquations = d.contactEquations from rfl]
  split
  · rfl
  · split <;> rfl

theorem addInterfaceEquation_rechunk (interface : String) (e : InterfaceEquation) :
    (d.rechunk c).addInterfaceEquation interface e =
      (d.addInterfaceEquation interface e).map (rechunk c) := by
  unfold addInterfaceEquation
  rw [show (d.rechunk c).parts.junctions.contains _ = _ from d.parts.contains_junctions_rechunk c interface,
    show (d.rechunk c).interfaceEquations = d.interfaceEquations from rfl]
  split
  · rfl
  · split <;> rfl

end

variable [Scalar α] [Precision β α]

/-! ## Updates -/

theorem neutral_update (e : BulkEquation β) (settings : UpdateSettings β) (raw : Array α)
    {r : Region β α} (neutral : r.Neutral) (log : Log) :
    (e.update settings raw r log).2.1.Neutral := by
  obtain ⟨changes, ran⟩ := e.exists_run_update settings raw r log
  rw [ran]
  exact lasting_neutral.run changes neutral

theorem updateFrom_rechunk (settings : UpdateSettings β) (solution : Array α)
    (stats : UpdateStats β) (items : List (String × BulkEquation β)) {p : Parts β α} (neutral : p.Neutral)
    (log : Log) : updateFrom settings solution stats items (p.rechunk c) log =
      Prod.map id (Prod.map id (Prod.map (Parts.rechunk c) id))
        (updateFrom settings solution stats items p log) := by
  induction items generalizing stats p log with
  | nil => rfl
  | cons x rest ih =>
    obtain ⟨region, e⟩ := x
    have there := p.get?_regions_rechunk c region
    cases found : p.regions.get? region with
    | none =>
      rw [found] at there
      simp only [updateFrom, found, there, ih stats neutral log]
      rfl
    | some r =>
      rw [found] at there
      have first : (r.rechunk c).firstRow? = r.firstRow? := rfl
      cases slot : r.firstRow? e.name with
      | none =>
        simp only [updateFrom, found, there, Option.map_some, Option.bind_eq_bind, Option.bind_some,
          first, slot, ih stats neutral log]
        rfl
      | some start =>
        simp only [updateFrom, found, there, Option.map_some, Option.bind_eq_bind, Option.bind_some,
          first, slot, Option.pure_def]
        rw [show (r.rechunk c).nodeCount = r.nodeCount from rfl]
        split
        · rfl
        · have inside := neutral.regions region r found
          have kept := neutral_update e settings (solution.extract start (start + r.nodeCount)) inside log
          rw [BulkEquation.update_rechunk c e settings _ inside]
          rcases ran : e.update settings (solution.extract start (start + r.nodeCount)) r log
            with ⟨fault | e', r', log'⟩
          · dsimp only [Prod.map, id]
            rw [Parts.setRegion_rechunk]
          · rw [ran] at kept
            dsimp only [Prod.map, id]
            rw [Parts.setRegion_rechunk, ih _ (neutral.setRegion kept)]
            rfl

theorem updateCircuit_rechunk (d : Device β α) (solution : Array α) :
    (d.rechunk c).updateCircuit solution = (d.updateCircuit solution).rechunk c :=
  List.foldl_hom (rechunk c) fun d _ => setCircuitValue_rechunk c d _ _

theorem integrateFrom_rechunk (settings : Settings β) (items : List (String × ContactEquation β × Array Bool))
    {s : PassState (Parts β α) α} (neutral : s.owner.Neutral) :
    integrateFrom (settings.rechunk c) items (image (Parts.rechunk c) s) =
      Prod.map id (Prod.map id (image (Parts.rechunk c))) (integrateFrom settings items s) := by
  induction items generalizing s with
  | nil => rfl
  | cons x rest ih =>
    obtain ⟨region, e, mask⟩ := x
    obtain ⟨same, kept⟩ := Parts.mirrors c (Parts.composed_integrate settings region e mask) s neutral
    unfold integrateFrom
    rw [ContactEquation.integrate_rechunk, same]
    rcases ran : Parts.onRegion region (e.integrate mask settings) s with ⟨fault | integrated, s'⟩
    · rfl
    · rw [ran] at kept
      dsimp only
      rw [ih kept]
      rfl

theorem integrateContacts_rechunk (neutral : d.Neutral) :
    (d.rechunk c).integrateContacts = Prod.map id (rechunk c) d.integrateContacts := by
  have ran := integrateFrom_rechunk c d.settings d.ownedNodes
    (s := { owner := d.parts, log := d.log }) neutral
  unfold integrateContacts
  rw [ownedNodes_rechunk, show integrateFrom (d.rechunk c).settings d.ownedNodes
    { owner := (d.rechunk c).parts, log := (d.rechunk c).log } = _ from ran]
  rfl

theorem update_rechunk (neutral : d.Neutral) (solution : Array α) :
    (d.rechunk c).update solution = Prod.map id (rechunk c) (d.update solution) := by
  have bulk := updateFrom_rechunk c d.settings.update solution {} d.bulkEquations neutral d.log
  have kept := lasting_neutral.runs neutral
    (runs_updateFrom d.settings.update solution {} d.bulkEquations d.parts d.log)
  unfold update
  rw [show (d.rechunk c).rowCount = d.rowCount from rfl, show updateFrom (d.rechunk c).settings.update
    solution {} (d.rechunk c).bulkEquations (d.rechunk c).parts (d.rechunk c).log = _ from bulk]
  split
  · rfl
  rcases ran : updateFrom d.settings.update solution {} d.bulkEquations d.parts d.log
    with ⟨e | stats, bulkEquations, parts, log⟩
  · rfl
  rw [ran] at kept
  dsimp only [Prod.map, id]
  let updated : Device β α := { d with bulkEquations, parts, log }
  have moved := lasting_neutral.runs kept (updated.runs_updateCircuit solution)
  rw [show { d.rechunk c with bulkEquations, parts := parts.rechunk c, log } = updated.rechunk c from rfl,
    updateCircuit_rechunk, integrateContacts_rechunk c moved]
  obtain ⟨ending, d', contacts⟩ : ∃ ending d',
      (updated.updateCircuit solution).integrateContacts = (ending, d') := ⟨_, _, rfl⟩
  rw [contacts]
  rcases ending with e | ⟨⟩ <;> rfl

/-! ## Calls -/

omit [Scalar α] [Precision β α] in
theorem changeRegion_rechunk (neutral : d.Neutral) {change : Region β α → Region β α}
    (commutes : ∀ r, r.Neutral → change (r.rechunk c) = (change r).rechunk c) (name : String) :
    (d.rechunk c).changeRegion name change = (d.changeRegion name change).rechunk c := by
  unfold changeRegion
  rw [show (d.rechunk c).parts.regions.get? name = _ from d.parts.get?_regions_rechunk c name]
  cases found : d.parts.regions.get? name with
  | none => rfl
  | some r =>
    dsimp only [Option.map_some]
    rw [commutes r (neutral.regions name r found)]
    exact congrArg (fun parts => { d.rechunk c with parts }) (d.parts.setRegion_rechunk c name (change r))

omit [Scalar α] [Precision β α] in
theorem changeInterface_rechunk (neutral : d.Neutral) {change : Junction β α → Junction β α}
    (commutes : ∀ j, j.Neutral → change (j.rechunk c) = (change j).rechunk c) (name : String) :
    (d.rechunk c).changeInterface name change = (d.changeInterface name change).rechunk c := by
  unfold changeInterface
  rw [show (d.rechunk c).parts.junctions.get? name = _ from d.parts.get?_junctions_rechunk c name]
  cases found : d.parts.junctions.get? name with
  | none => rfl
  | some j =>
    dsimp only [Option.map_some]
    rw [commutes j (neutral.interfaces name j found)]
    exact congrArg (fun parts => { d.rechunk c with parts }) (d.parts.setJunction_rechunk c name (change j))

/-- A call on a device is the same under another division of vectors. -/
theorem Change.apply_rechunk (neutral : d.Neutral) (change : Change β α) :
    change.apply (d.rechunk c) = (change.apply d).rechunk c := by
  cases change with
  | addRegion name mesh => rw [apply, apply, addRegion_rechunk, orElse_rechunk]
  | addContact name region nodes => rw [apply, apply, addContact_rechunk, orElse_rechunk]
  | addInterface name region0 region1 pairs => rw [apply, apply, addInterface_rechunk, orElse_rechunk]
  | addEquation region e => rw [apply, apply, addEquation_rechunk, orElse_rechunk]
  | addContactEquation e => rw [apply, apply, addContactEquation_rechunk, orElse_rechunk]
  | addInterfaceEquation name e => rw [apply, apply, addInterfaceEquation_rechunk, orElse_rechunk]
  | addCircuitNode name value => exact addCircuitNode_rechunk c d name value
  | setCircuitValue name value => exact setCircuitValue_rechunk c d name value
  | region name change =>
    exact changeRegion_rechunk c neutral (fun _ neutral => change.apply_rechunk neutral c) name
  | declare region kind name calculator =>
    refine changeRegion_rechunk c neutral (fun r _ => ?_) region
    rfl
  | declareOnContact region contact name calculator =>
    refine changeRegion_rechunk c neutral (fun r _ => ?_) region
    rw [Region.declareOnContact_rechunk, Region.orElse_rechunk]
  | interface name change =>
    exact changeInterface_rechunk c neutral (fun _ neutral => change.apply_rechunk neutral c) name
  | takeLog => rfl
  | claimRows => exact congrArg Prod.snd (claimRows_rechunk c neutral)
  | assemble select time out => exact congrArg (·.2.1) (assemble_rechunk c neutral select time out)
  | assembleCycle select time out => exact congrArg (·.2.1) (assembleCycle_rechunk c neutral select time out)
  | update solution => exact congrArg Prod.snd (update_rechunk c neutral solution)
  | integrateContacts => exact congrArg Prod.snd (integrateContacts_rechunk c neutral)

/-- A history is the same under another division of vectors. -/
theorem after_rechunk (neutral : d.Neutral) {changes : List (Change β α)}
    (fit : ∀ change ∈ changes, change.Allowed (fun _ => True) Calculator.Neutral) :
    (d.rechunk c).after changes = (d.after changes).rechunk c := by
  induction changes generalizing d with
  | nil => rfl
  | cons change rest ih =>
    have kept := change.all_apply lasting_neutral neutral (fit change (.head _))
    have rest := ih kept fun later member => fit later (.tail _ member)
    rw [← change.apply_rechunk c neutral] at rest
    exact rest

/-! ## Answers -/

/-- The second device is the first under another division of vectors, and answers alike: models are read,
passes end and updates take steps as on the first, and passes give the same records. -/
structure AnswersAlike (d d' : Device β α) : Prop where
  same : d' = d.rechunk d'.settings.chunking
  reads : ∀ region r, d.parts.regions.get? region = some r →
    ∃ r', d'.parts.regions.get? region = some r' ∧ ∀ kind name, (r'.read kind name).1 = (r.read kind name).1
  interfaces : ∀ interface k, d.parts.coupled? interface = some k →
    ∃ k', d'.parts.coupled? interface = some k' ∧ ∀ name, (k'.read name).1 = (k.read name).1
  passes : ∀ select time out, (d'.assemble select time out).1 = (d.assemble select time out).1 ∧
    (d'.assemble select time out).2.2 = (d.assemble select time out).2.2
  cycles : ∀ select time out, (d'.assembleCycle select time out).1 = (d.assembleCycle select time out).1 ∧
    (d'.assembleCycle select time out).2.2 = (d.assembleCycle select time out).2.2
  updates : ∀ solution, (d'.update solution).1 = (d.update solution).1

theorem answersAlike_rechunk (neutral : d.Neutral) : AnswersAlike d (d.rechunk c) where
  same := rfl
  reads region r found := by
    refine ⟨r.rechunk c, (d.parts.get?_regions_rechunk c region).trans (congrArg _ found),
      fun kind name => ?_⟩
    rw [(Region.respects_read c kind name r (neutral.regions region r found)).1]
  interfaces interface k found := by
    refine ⟨k.recast c (Region.rechunk c),
      (d.parts.coupled?_rechunk c interface).trans (congrArg _ found), fun name => ?_⟩
    have inside := neutral.coupled found
    rw [(Coupled.respects_read (Region.answersAlike_rechunk c) name k ⟨inside.1, inside.2⟩).1]
  passes select time out := by
    rw [assemble_rechunk c neutral]
    exact ⟨rfl, rfl⟩
  cycles select time out := by
    rw [assembleCycle_rechunk c neutral]
    exact ⟨rfl, rfl⟩
  updates solution := by
    rw [update_rechunk c neutral]
    rfl

omit [Scalar α] [Precision β α] in
/-- Settings stay valid as long as chunks have elements. -/
theorem create_rechunk (positive : 1 ≤ c.chunk) {name : String} {settings : Settings β}
    (made : create name settings = .ok d) : create name (settings.rechunk c) = .ok (d.rechunk c) := by
  unfold create at made ⊢
  split at made
  next valid =>
    cases made
    rw [Settings.validate_rechunk positive valid]
    rfl
  · cases made

/-- However vectors are divided, elementwise operations give what one loop over the whole vector gives, and
expressions and sums are calculated alike. So one history leads devices under settings that differ in this
only to states that answer alike. -/
theorem chunking_invisible (c : Chunking) (positive : 1 ≤ c.chunk) :
    (∀ {ρ τ : Type} (f : ρ → τ) (xs : Array ρ), c.map f xs = xs.map f) ∧
    (∀ {ρ τ : Type} (f : ρ → τ → ρ) (xs : Array ρ) (ys : Array τ),
      c.zipWith f xs ys = Chunking.zipInto f xs ys) ∧
    (∀ {ρ : Type} (fallback : ρ) (xs : Array ρ) (index : Array Nat),
      c.gather fallback xs index = index.map fun i => xs[i]?.getD fallback) ∧
    (∀ (functions : Registry α) (e : Expr β) (s : Surroundings) (expected : Option Domain),
      (e.evaluate (s.rechunk c) functions expected : Query β α (Evaluation α)) =
        e.evaluate s functions expected) ∧
    (∀ (functions : Registry α) (e : Expr β), (.ofExpr functions e : Calculator β α).Neutral) ∧
    (∀ names base offset remarks, (.sumOf names base offset remarks : Calculator β α).Neutral) ∧
    ∀ (name : String) (settings : Settings β) (d : Device β α), create name settings = .ok d →
      ∃ d', create name (settings.rechunk c) = .ok d' ∧
        ∀ changes, (∀ change ∈ changes, change.Allowed (fun _ => True) Calculator.Neutral) →
          AnswersAlike (d.after changes) (d'.after changes) := by
  refine ⟨c.map_eq, c.zipWith_eq, fun fallback xs index => c.map_eq _ index, fun functions e s expected =>
    Expr.evaluate_rechunk s c functions e expected, Calculator.neutral_ofExpr, Calculator.neutral_sumOf, ?_⟩
  intro name settings d made
  refine ⟨d.rechunk c, create_rechunk c positive made, fun changes fit => ?_⟩
  have neutral : d.Neutral := all_create made
  rw [after_rechunk c neutral fit]
  exact answersAlike_rechunk c (all_after lasting_neutral neutral fit)

/-- Three nodes in chunks of two: a sum, a choice, and the records of a pass are those of whole vectors. -/
theorem chunking_invisible_in_halves :
    let halves : Chunking := ⟨0, 2⟩
    let mesh : Mesh ℚ := ⟨.segment, #[⟨0, 0, 0⟩, ⟨1, 0, 0⟩, ⟨2, 0, 0⟩], #[⟨0, 1⟩, ⟨1, 2⟩], #[]⟩
    let changes : List (Change ℚ ℚ) :=
      [.addRegion "rod" mesh,
        .addEquation "rod" { name := "e", variableName := "u", models := { node := "f" } },
        .region "rod" (.setUniform .node "NodeVolume" 2),
        .region "rod" (.setData .node "u" (.vector #[1, 2, 3])),
        .region "rod" (.declare .node "f" ∅ (.product [.model "u", .model "u"])),
        .region "rod" (.declare .node "f:u" ∅ (.product [.constant 2, .model "u"])), .claimRows]
    halves.zipWith (· + ·) #[1, 2, 3] #[10, 20, 30] = #[11, 22, 33] ∧
    halves.gather 0 #[5, 6, 7] #[2, 0, 2] = #[7, 5, 7] ∧
    ∃ d : Device ℚ ℚ, create "device" (Settings.rechunk halves {}) = .ok d ∧
      ((d.after changes).assemble .both .steady {}).1 = .ok () ∧
      ((d.after changes).assemble .both .steady {}).2.2.residual.map (fun x => (x.row, x.value)) =
        [(0, 2), (1, 8), (2, 18)] ∧
      ((d.after changes).assemble .both .steady {}).2.2.matrix.map (fun x => (x.row, x.column, x.value)) =
        [(0, 0, 4), (1, 1, 8), (2, 2, 12)] := by
  intro halves mesh changes
  let whole : Device ℚ ℚ := { name := "device", settings := {} }
  obtain ⟨-, zips, gathers, -, -, -, devices⟩ := chunking_invisible (β := ℚ) (α := ℚ) halves (by decide)
  obtain ⟨d, made, alike⟩ := devices "device" {} whole (create_of_valid (by decide +kernel))
  have fit : ∀ change ∈ changes, change.Allowed (fun _ => True) Calculator.Neutral := by
    simp [changes, Change.Allowed]
  obtain ⟨ending, records⟩ := (alike changes fit).passes .both .steady {}
  have succeeds : ((whole.after changes).assemble .both .steady {}).1.toBool = true := by decide +kernel
  have residual : ((whole.after changes).assemble .both .steady {}).2.2.residual.map
      (fun x => (x.row, x.value)) = [(0, 2), (1, 8), (2, 18)] := by decide +kernel
  have matrix : ((whole.after changes).assemble .both .steady {}).2.2.matrix.map
      (fun x => (x.row, x.column, x.value)) = [(0, 0, 4), (1, 1, 8), (2, 2, 12)] := by decide +kernel
  refine ⟨(zips ..).trans (by decide +kernel), (gathers ..).trans (by decide +kernel), d, made, ?_, ?_, ?_⟩
  · obtain ⟨⟨⟩, _, ran⟩ := exists_eq_ok_of_toBool succeeds
    rw [ending, ran]
  · rw [records]
    exact residual
  · rw [records]
    exact matrix

end Device

end FiniteVolume
