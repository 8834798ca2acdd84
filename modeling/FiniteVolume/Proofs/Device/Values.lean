import FiniteVolume.Device.Update
import FiniteVolume.Proofs.Device.Writing
import FiniteVolume.Proofs.Equation.Integration

/-!
What does not depend on values.

`Device.bare` forgets models, results of integrations and everything else that changes from one pass to
the next. Numeric passes, integrations and updates leave it alone, and claimed rows with it
(`Device.alike_numericPass`, `Device.alike_update`); who owns a place and which rows are claimed
depend on nothing else (`Device.entries_of_bare_eq`).
-/
namespace FiniteVolume

variable {β α : Type} [BaseScalar β]

/-! ## Updates -/

section

variable [Scalar α]

/-- An update keeps the sizes of values, however far it comes. -/
theorem BulkEquation.fits_update [Precision β α] (e : BulkEquation β) (settings : UpdateSettings β)
    (raw : Array α) (r : Region β α) (log : Log) :
    Region.Fits r (e.update settings raw r log).2.1 := by
  have read := r.fits_read .node e.variableName
  unfold update
  dsimp only
  split
  next ran =>
    rw [ran] at read
    exact read
  next ran =>
    rw [ran] at read
    split
    · exact read
    · split
      · exact read
      next wrote => exact read.trans (Region.fits_of_setData wrote)

/-- An update leaves everything but values alone, however far it comes. -/
theorem BulkEquation.bare_update [Precision β α] (e : BulkEquation β) (settings : UpdateSettings β)
    (raw : Array α) (r : Region β α) (log : Log) : (e.update settings raw r log).2.1.bare = r.bare := by
  have read : (Region.read .node e.variableName r).2.bare = r.bare :=
    Region.bare_of_uncached_eq (Region.readWithin_balanced r.waiting_le_size).declared
  unfold update
  dsimp only
  split
  next ran =>
    rw [ran] at read
    exact read
  next ran =>
    rw [ran] at read
    split
    · exact read
    · split
      · exact read
      next wrote => exact (Region.bare_of_setData wrote).trans read

end

namespace Device

/-- The device without what changes from one pass to the next. -/
def bare (d : Device β α) : Device β α where
  name := d.name
  settings := d.settings
  parts := d.parts.bare
  contactEquations := d.contactEquations.map fun x => (x.1, x.2.bare)
  interfaceEquations := d.interfaceEquations
  circuit := { base := d.circuit.base }

/-- The second device differs from the first in values only: rows are claimed as before. -/
structure Alike (d d' : Device β α) : Prop where
  bare : d'.bare = d.bare
  parts : Owner.Later d.parts d'.parts
  nodes : d'.circuit.nodes.keys = d.circuit.nodes.keys
  stage : d'.stage = d.stage
  rows : d'.rows = d.rows

variable {d d' d'' : Device β α}

theorem Alike.refl (d : Device β α) : Alike d d := ⟨rfl, Owner.refl _, rfl, rfl, rfl⟩

theorem Alike.trans (first : Alike d d') (second : Alike d' d'') : Alike d d'' where
  bare := second.bare.trans first.bare
  parts := Owner.trans first.parts second.parts
  nodes := second.nodes.trans first.nodes
  stage := second.stage.trans first.stage
  rows := second.rows.trans first.rows

theorem bare_of_parts {p : Parts β α} (same : p.bare = d.parts.bare) :
    { d with parts := p }.bare = d.bare := by
  unfold bare
  dsimp only
  rw [same]

theorem Alike.of_later {p : Parts β α} (later : Owner.Later d.parts p) :
    Alike d { d with parts := p } :=
  ⟨bare_of_parts later.bare, later, rfl, rfl, rfl⟩

theorem parts_bare_of_bare_eq (same : d'.bare = d.bare) : d'.parts.bare = d.parts.bare :=
  congrArg Device.parts same

theorem outline_bare (d : Device β α) : d.bare.outline = d.outline := by
  have parts : d.parts.bare.outline = d.parts.outline := by
    simp only [Parts.outline, Parts.bare, Table.mapEntries_mapEntries]
    rfl
  unfold outline bare
  dsimp only
  rw [parts, List.map_map]
  rfl

theorem layout_bare (d : Device β α) : d.bare.layout = d.layout := by
  unfold layout bare Parts.bare Table.values Table.mapEntries
  dsimp only
  rw [List.map_map, List.map_map, List.map_map]
  rfl

/-! ## Calls that change values only -/

theorem alike_setParameter (d : Device β α) (name : String) (value : β) :
    Alike d (d.setParameter name value) := by
  refine .of_later ⟨?_, fun sized => ⟨fun key r found => ?_, sized.junctions⟩⟩
  · unfold Parts.bare Parts.mapRegions
    dsimp only
    rw [Table.mapEntries_mapEntries]
    rfl
  · rw [Parts.mapRegions, Table.get?_mapEntries] at found
    obtain ⟨r₀, found₀, rfl⟩ := Option.map_eq_some_iff.mp found
    exact (sized.regions key r₀ found₀).markOld name

theorem alike_setCircuitValue (d : Device β α) (name : String) (value : β) :
    Alike d (d.setCircuitValue name value) := by
  unfold setCircuitValue
  split
  · have node : Alike d { d with circuit := d.circuit.setValue name value } :=
      ⟨rfl, Owner.refl _, Table.keys_modify .., rfl, rfl⟩
    exact node.trans (alike_setParameter _ name value)
  · exact .refl d

def passState (d : Device β α) (out : Records α) : PassState (Parts β α) α :=
  { owner := d.parts, rows := d.rows, log := d.log, out }

theorem run_eq (d : Device β α) {ρ : Type} (out : Records α) {step : Pass (Parts β α) α ρ}
    {result : Except AssemblyError ρ} {s : PassState (Parts β α) α} (ran : step (d.passState out) = (result, s)) :
    d.run out step = (result, { d with parts := s.owner, rows := s.rows, log := s.log }, s.out) := by
  unfold run
  rw [show step { owner := d.parts, rows := d.rows, log := d.log, out } = _ from ran]

theorem alike_run (d : Device β α) {ρ : Type} (out : Records α) {step : Pass (Parts β α) α ρ}
    {post : ρ → Parts β α → Records α → Prop} (writes : step.Writes post) :
    Alike d (d.run out step).2.1 := by
  obtain ⟨rows, later, -⟩ := writes.ran (d.passState out)
  exact ⟨bare_of_parts later.bare, later, rfl, rfl, rows⟩

variable [Scalar α]

section

variable {select : Selector} {time : TimeMode} (numeric : select ≠ .rows) {out : Records α}

include numeric

theorem writes_boundaryPass (d : Device β α) (time : TimeMode) :
    (d.boundaryPass select time).Writes fun _ _ _ => True := by
  rw [boundaryPass_eq]
  generalize d.boundaries = bs
  induction bs with
  | nil => exact Pass.Writes.skip.mono fun _ _ _ _ => trivial
  | cons b rest ih =>
    exact ((b.writes_step d numeric).mono fun _ _ _ _ => trivial).bind (fun _ => ih)
      fun _ _ _ _ _ _ _ => trivial

theorem writes_bulkPass (d : Device β α) (time : TimeMode) :
    (d.bulkPass select time).Writes fun _ _ _ => True := by
  unfold bulkPass
  induction d.bulkEquations with
  | nil => exact Pass.Writes.skip.mono fun _ _ _ _ => trivial
  | cons x rest ih =>
    refine ((Parts.writes_onRegion ((x.2.writes_assemble numeric).mono fun _ _ _ _ => trivial)
      fun _ _ => trivial).mono fun _ _ _ _ => trivial).bind (fun _ => ih) fun _ _ _ _ _ _ _ => trivial

/-- A numeric pass leaves claimed rows alone, however far it comes. -/
theorem alike_numericPass (d : Device β α) : Alike d (d.numericPass select time out).2.1 := by
  have boundary := d.alike_run out (d.writes_boundaryPass numeric time)
  unfold numericPass
  split
  next ran =>
    rw [ran] at boundary
    exact boundary
  next d₁ out₁ ran =>
    rw [ran] at boundary
    have bulk := d₁.alike_run {} (d₁.writes_bulkPass numeric time)
    split
    all_goals
      next ran' =>
        rw [ran'] at bulk
        exact boundary.trans bulk

end

variable [Precision β α]

/-! ### Updates step by step -/

/-- What every node that is set keeps, an update of the circuit keeps. -/
theorem updateCircuit_induction {motive : Device β α → Prop} (start : motive d)
    (set : ∀ d name value, motive d → motive (d.setCircuitValue name value)) (solution : Array α) :
    motive (d.updateCircuit solution) := by
  unfold updateCircuit
  generalize d.circuit.toList = nodes
  induction nodes generalizing d with
  | nil => exact start
  | cons x rest ih => exact ih (set d _ _ start)

/-- What the integration of every contact keeps of the parts, integration keeps however far it comes. -/
theorem integrateFrom_induction {motive : Parts β α → Prop} {settings : Settings β}
    (integrate : ∀ region (e : ContactEquation β) mask (s : PassState (Parts β α) α), motive s.owner →
      motive (Parts.onRegion region (e.integrate mask settings) s).2.owner)
    (items : List (String × ContactEquation β × Array Bool)) {s : PassState (Parts β α) α}
    (start : motive s.owner) : motive (integrateFrom settings items s).2.2.owner := by
  induction items generalizing s with
  | nil => exact start
  | cons x rest ih =>
    obtain ⟨region, e, mask⟩ := x
    have integrated := integrate region e mask s start
    unfold integrateFrom
    split
    all_goals
      next ran =>
        rw [ran] at integrated
        first | exact integrated | exact ih integrated

/-- What the update of every variable keeps of the parts, their updates keep however far they come. -/
theorem updateFrom_induction {motive : Parts β α → Prop} {settings : UpdateSettings β}
    (update : ∀ parts region r (e : BulkEquation β) raw log, parts.regions.get? region = some r →
      motive parts → motive (parts.setRegion region (e.update settings raw r log).2.1))
    (solution : Array α) (stats : UpdateStats β) (items : List (String × BulkEquation β))
    {parts : Parts β α} (log : Log) (start : motive parts) :
    motive (updateFrom settings solution stats items parts log).2.2.1 := by
  induction items generalizing stats parts log with
  | nil => exact start
  | cons x rest ih =>
    obtain ⟨region, e⟩ := x
    unfold updateFrom
    split
    next => exact ih stats log start
    next r first found =>
      obtain ⟨r', here, slot⟩ := Option.bind_eq_some_iff.mp found
      obtain ⟨first', -, same⟩ := Option.bind_eq_some_iff.mp slot
      cases same
      dsimp only
      split
      · exact start
      · have updated :=
          update parts region r e (solution.extract first (first + r.nodeCount)) log here start
        split
        all_goals
          next ran =>
            rw [ran] at updated
            first | exact updated | exact ih _ _ updated

/-! ### What updates leave -/

theorem later_integrate (region : String) (e : ContactEquation β) (mask : Array Bool)
    (settings : Settings β) (s : PassState (Parts β α) α) :
    Owner.Later s.owner (Parts.onRegion region (e.integrate mask settings) s).2.owner ∧
      ∀ integrated, (Parts.onRegion region (e.integrate mask settings) s).1 = .ok integrated →
        (integrated.getD e).bare = e.bare := by
  rw [Parts.onRegion_eq]
  cases found : s.owner.regions.get? region with
  | none =>
    rw [Pass.run_onPart?_of_missing found]
    refine ⟨Owner.refl _, fun integrated ran => ?_⟩
    cases ran
    rfl
  | some r =>
    rw [Pass.run_onPart? found]
    obtain ⟨-, later, succeeded⟩ := (e.writes_integrate mask settings).ran { s with owner := r }
    refine ⟨Parts.later_setRegion found later, fun integrated ran => ?_⟩
    cases result : (e.integrate mask settings { s with owner := r }).1 with
    | error fault =>
      rw [result] at ran
      cases ran
    | ok e' =>
      rw [result] at ran
      cases ran
      obtain ⟨records, -, holds⟩ := succeeded e' result
      obtain ⟨-, rfl⟩ := holds _ (Owner.refl _)
      rfl

theorem later_integrateFrom (settings : Settings β)
    (items : List (String × ContactEquation β × Array Bool)) (s : PassState (Parts β α) α) :
    Owner.Later s.owner (integrateFrom settings items s).2.2.owner ∧
      (integrateFrom settings items s).2.1.map (fun x => (x.1, x.2.bare)) =
        items.map fun x => (x.1, x.2.1.bare) := by
  induction items generalizing s with
  | nil => exact ⟨Owner.refl _, rfl⟩
  | cons x rest ih =>
    obtain ⟨region, e, mask⟩ := x
    obtain ⟨later, same⟩ := later_integrate region e mask settings s
    unfold integrateFrom
    split
    next ran =>
      rw [ran] at later
      refine ⟨later, ?_⟩
      rw [List.map_cons, List.map_map]
      rfl
    next integrated s' ran =>
      rw [ran] at later same
      obtain ⟨owner, equations⟩ := ih s'
      refine ⟨Owner.trans later owner, ?_⟩
      dsimp only
      rw [List.map_cons, equations, same integrated rfl]
      rfl

theorem alike_integrateContacts (d : Device β α) : Alike d d.integrateContacts.2 := by
  obtain ⟨parts, equations⟩ :=
    later_integrateFrom d.settings d.ownedNodes { owner := d.parts, log := d.log }
  refine ⟨?_, parts, rfl, rfl, rfl⟩
  unfold integrateContacts bare
  dsimp only
  rw [parts.bare, equations, ownedNodes, List.map_map]
  rfl

/-- However far the update of variables comes, only values change. -/
theorem later_updateFrom (settings : UpdateSettings β) (solution : Array α) (stats : UpdateStats β)
    (items : List (String × BulkEquation β)) (parts : Parts β α) (log : Log) :
    Owner.Later parts (updateFrom settings solution stats items parts log).2.2.1 := by
  refine updateFrom_induction (fun parts' region r e raw log here later => ?_) solution stats items log
    (Owner.refl parts)
  have bare := Parts.bare_setRegion (r := (e.update settings raw r log).2.1)
    (by rw [here, Option.map_some, e.bare_update])
  have fits := e.fits_update settings raw r log
  exact Owner.trans later ⟨bare, fun sized => sized.setRegion (fits.sized (sized.regions _ _ here))⟩

theorem alike_updateCircuit (d : Device β α) (solution : Array α) : Alike d (d.updateCircuit solution) :=
  updateCircuit_induction (.refl d)
    (fun d' name value alike => alike.trans (d'.alike_setCircuitValue name value)) solution

/-- An update leaves claimed rows alone, however far it comes. -/
theorem alike_update (d : Device β α) (solution : Array α) : Alike d (d.update solution).2 := by
  unfold update
  split
  · exact .refl d
  · have later := later_updateFrom d.settings.update solution {} d.bulkEquations d.parts d.log
    split
    next ran =>
      rw [ran] at later
      exact ⟨bare_of_parts later.bare, later, rfl, rfl, rfl⟩
    next bulkEquations parts log ran =>
      rw [ran] at later
      have stepped : Alike d { d with bulkEquations, parts, log } :=
        ⟨bare_of_parts later.bare, later, rfl, rfl, rfl⟩
      have contacts :=
        (stepped.trans (alike_updateCircuit _ solution)).trans (alike_integrateContacts _)
      dsimp only
      split
      all_goals
        next ran =>
          rw [ran] at contacts
          exact ⟨contacts.bare, contacts.parts, contacts.nodes, contacts.stage, contacts.rows⟩

end Device

/-! ## What claims depend on -/

namespace Parts

omit [BaseScalar β]

variable {p p' : Parts β α}

theorem row?_bare (p : Parts β α) : p.bare.row? = p.row? := by
  funext x
  rw [row?, row?, get?_regions_bare]
  cases p.regions.get? x.region <;> rfl

theorem rowAt_bare (p : Parts β α) : p.bare.rowAt = p.rowAt := by
  funext x
  rw [rowAt, rowAt, row?_bare]

theorem blocks_bare (p : Parts β α) : p.bare.blocks = p.blocks := by
  unfold blocks bare Table.mapEntries
  rw [List.map_map]
  rfl

theorem numbered_bare (p : Parts β α) : p.bare.Numbered ↔ p.Numbered := by
  unfold Numbered
  simp only [get?_regions_bare, rowsBefore_eq, blocks_bare]
  constructor
  · intro numbered name r found
    exact numbered name r.bare (by rw [found]; rfl)
  · intro numbered name r' found'
    obtain ⟨r, found, rfl⟩ := Option.map_eq_some_iff.mp found'
    exact numbered name r found

theorem coupled?_bare (p : Parts β α) (name : String) : p.bare.coupled? name =
    (p.coupled? name).map fun c => ⟨c.junction.bare, c.region0.bare, c.region1.bare⟩ := by
  unfold coupled?
  rw [get?_junctions_bare]
  cases p.junctions.get? name with
  | none => rfl
  | some j =>
    simp only [Option.map_some, Option.bind_eq_bind, Option.bind_some, get?_regions_bare, Junction.bare]
    cases p.regions.get? j.geometry.region0 <;> cases p.regions.get? j.geometry.region1 <;> rfl

end Parts

namespace Boundary

def bare : Boundary β → Boundary β
  | contact region e mask => contact region e.bare mask
  | interface name e mask => interface name e mask

variable (p : Parts β α) (b : Boundary β)

theorem claims_bare : b.bare.claims p = b.claims p := by cases b <;> rfl

theorem claims_parts_bare : b.claims p.bare = b.claims p := by
  cases b with
  | contact region e mask =>
    rw [claims, claims, Parts.get?_regions_bare]
    cases p.regions.get? region <;> rfl
  | interface name e mask =>
    rw [claims, claims, Parts.coupled?_bare]
    cases p.coupled? name <;> rfl

theorem slotted_bare : b.bare.Slotted p ↔ b.Slotted p := by cases b <;> rfl

theorem slotted_parts_bare : b.Slotted p.bare ↔ b.Slotted p := by
  cases b with
  | contact region e mask =>
    dsimp only [Slotted]
    rw [Parts.get?_regions_bare]
    cases p.regions.get? region <;> simp [Region.firstRow?, Region.row?, Region.equationIndex?,
      Region.bare]
  | interface name e mask =>
    dsimp only [Slotted]
    rw [Parts.coupled?_bare]
    cases p.coupled? name with
    | none => simp
    | some c =>
      have slots : ∀ side, ((⟨c.junction.bare, c.region0.bare, c.region1.bare⟩ :
          Coupled β α).region side).firstRow? = (c.region side).firstRow? := fun side => by
        cases side <;> rfl
      simp [slots]

theorem owns_parts_bare (x : Place) : b.Owns p.bare x ↔ b.Owns p x := by
  cases b with
  | contact => rfl
  | interface name e mask =>
    dsimp only [Owns]
    rw [Parts.get?_junctions_bare]
    cases p.junctions.get? name <;> simp [Junction.bare]

end Boundary

namespace Device

def entries (d : Device β α) : List (Nat × RowMove) :=
  d.boundaries.flatMap fun b => (b.claims d.parts).map (Claim.entry d.parts)

theorem boundaries_outline (d : Device β α) :
    d.outline.boundaries = d.boundaries.map Boundary.bare := by
  rw [boundaries, boundaries, ownedNodes_outline, ownedPairs_outline, List.map_append, List.map_map,
    List.map_map, List.map_map]
  rfl

theorem entries_of_bare_eq {d d' : Device β α} (same : d'.bare = d.bare) : d'.entries = d.entries := by
  have byOutline : ∀ d : Device β α, d.entries = d.outline.boundaries.flatMap fun b =>
      (b.claims d.parts.bare).map (Claim.entry d.parts.bare) := by
    intro d
    have entry : (Claim.entry d.parts.bare) = Claim.entry d.parts := by
      funext c
      rw [Claim.entry, Claim.entry, Parts.rowAt_bare]
    rw [entries, boundaries_outline, List.flatMap_map, entry]
    simp only [Boundary.claims_parts_bare, Boundary.claims_bare]
  rw [byOutline, byOutline, ← outline_bare, same, outline_bare, parts_bare_of_bare_eq same]

/-- Whether the equations have slots does not depend on values. -/
theorem slotted_of_bare_eq {d d' : Device β α} (same : d'.bare = d.bare) :
    (∀ b ∈ d'.boundaries, b.Slotted d'.parts) ↔ ∀ b ∈ d.boundaries, b.Slotted d.parts := by
  have byOutline : ∀ d : Device β α, (∀ b ∈ d.boundaries, b.Slotted d.parts) ↔
      ∀ b ∈ d.outline.boundaries, b.Slotted d.parts.bare := by
    intro d
    rw [boundaries_outline, List.forall_mem_map]
    simp only [Boundary.slotted_parts_bare, Boundary.slotted_bare]
  rw [byOutline, byOutline, ← outline_bare, same, outline_bare, parts_bare_of_bare_eq same]

end Device

end FiniteVolume
