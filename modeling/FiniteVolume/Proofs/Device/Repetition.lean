import FiniteVolume.Proofs.Device.Conservation
import FiniteVolume.Proofs.Device.Invariant
import FiniteVolume.Proofs.Device.Output
import FiniteVolume.Proofs.Assembly.Repetition
import FiniteVolume.Proofs.Junction.Repetition

/-!
Passes that repeat, commute and split.

Regions and interfaces at rest, whose models come from expressions, read the same whatever was read before
(`Region.Reading`, `Coupled.Reading`). So do the steps on them (`Region.repeats`, `Coupled.repeats`), and a
device that is what another becomes by reads (`Device.Reading`) gives the same in every pass for numbers
(`Device.exists_endings`). Calls leave all regions and interfaces of a device at rest
(`Device.Placed.resting`).
-/
namespace FiniteVolume

open Pass

variable {β α : Type} [BaseScalar β] [Scalar α]

/-! ## Equations -/

section

variable {r₀ : Region β α} {settings : Settings β} {ρ : Type}

theorem Region.ReadsModel.gives (ready : r₀.Ready) {a : RegionPass β α ρ} (reads : ReadsModel ρ a) :
    ∃ result, Gives (Reading r₀) a (result, {}) := by
  cases reads with
  | fetch site d name =>
    refine ⟨(r₀.read d name).1.mapError (.model site.scope), ⟨fun s reading => ?_⟩⟩
    refine ⟨?_, (Records.append_empty _).symm, rfl, (reading.read ready d name).takeNotes⟩
    exact congrArg (Except.mapError _) (reading.read_eq ready d name)

omit [BaseScalar β] in
theorem Region.resembles_of_reading {r r' : Region β α} (reading : Reading r₀ r)
    (reading' : Reading r₀ r') : Resembles r r' :=
  .of_uncached_eq (reading'.underway.declared.trans reading.underway.declared.symm)

variable (ready : r₀.Ready)

include ready

theorem Region.gives {a : RegionPass β α ρ} (composed : Composed (Region.rules settings) nothing a) :
    ∃ result, Gives (Reading r₀) a (result, {}) := by
  obtain ⟨⟨result, added⟩, gives, matrix, residual⟩ :=
    composed.gives (fun _ _ => resembles_of_reading) (fun _ _ => ReadsModel.gives ready) ready.reading id
  obtain rfl : added = {} := congrArg₂ Records.mk (matrix id) (residual id)
  exact ⟨result, gives⟩

theorem Region.repeats {f : Selector → RegionPass β α Unit} (splits : Splits (Region.rules settings) f) :
    Repeats (Reading r₀) f :=
  splits.repeats (fun _ _ => resembles_of_reading) (fun _ _ => ReadsModel.gives ready) ready.reading

end

section

variable [Precision β α] {c₀ : Coupled β α} {settings : Settings β} {ρ : Type} (ready : c₀.Ready)

include ready

theorem Coupled.ReadsModel.gives {a : CoupledPass β α ρ} (reads : ReadsModel settings ρ a) :
    ∃ result, Gives (Reading c₀) a (result, {}) := by
  cases reads with
  | read site name =>
    refine ⟨((c₀.read name).1.map Field.toArray).mapError (.model site.scope), ⟨fun s reading => ?_⟩⟩
    have read := reading.read ready name
    refine ⟨?_, (Records.append_empty _).symm, rfl, read.of_regions ready rfl fun side => ?_⟩
    · rw [← reading.read_eq ready name]
      unfold InterfaceEquation.read
      rcases Coupled.read name s.owner with ⟨e | data, c⟩ <;> rfl
    · cases side
      · exact (read.regions .first).takeNotes
      · exact (read.regions .second).takeNotes
  | onRegion side composed =>
    obtain ⟨result, gives⟩ := Region.gives (ready.regions side).ready composed
    refine ⟨result, ⟨fun s reading => ?_⟩⟩
    obtain ⟨ended, out, rows, kept⟩ :=
      gives.ran { s with owner := s.owner.region side } (reading.regions side)
    rw [onPart_eq]
    refine ⟨ended, out, rows, reading.of_regions ready (by rw [junction_setRegion]) fun other => ?_⟩
    by_cases same : other = side
    · rw [same, region_setRegion]
      exact kept
    · rw [region_setRegion_of_ne same]
      exact reading.regions other

theorem Coupled.repeats {f : Selector → CoupledPass β α Unit} (splits : Splits (Coupled.rules settings) f) :
    Repeats (Reading c₀) f := by
  refine splits.repeats (fun c c' reading reading' => ?_) (fun _ _ => ReadsModel.gives ready) ready.reading
  have same : c'.junction.uncached = c.junction.uncached :=
    reading'.declared.trans reading.declared.symm
  exact ⟨(congrArg Junction.scope same :), (congrArg Junction.geometry same :),
    ModelStore.contains_of_uncached_eq (congrArg Junction.models same), fun side =>
      Region.resembles_of_reading (reading.regions side) (reading'.regions side)⟩

end

/-! ## Parts -/

namespace Parts

/-- Regions are settled, and interfaces at rest with models from expressions. -/
structure Ready [Precision β α] (p : Parts β α) : Prop where
  regions : ∀ name r, p.regions.get? name = some r → r.Settled
  interfaces : ∀ name j, p.junctions.get? name = some j → j.Resting ∧ j.models.Symbolic

/-- The second parts are what the first become by reads. Of the interfaces, regions apart. -/
structure Reading [Precision β α] (p₀ p : Parts β α) : Prop where
  bare : p.bare = p₀.bare
  regions : ∀ name r₀, p₀.regions.get? name = some r₀ →
    ∃ r, p.regions.get? name = some r ∧ Region.Reading r₀ r
  interfaces : ∀ name c₀, p₀.coupled? name = some c₀ →
    ∃ c, p.junctions.get? name = some c.junction ∧ Coupled.Reading c₀ c

variable [Precision β α] {p₀ p : Parts β α} {name : String} {r₀ r : Region β α} {c₀ c : Coupled β α}

theorem Ready.coupled (ready : p₀.Ready) (found : p₀.coupled? name = some c₀) : c₀.Ready := by
  obtain ⟨junction, regions⟩ := coupled?_eq_some_iff.mp found
  obtain ⟨resting, symbolic⟩ := ready.interfaces name _ junction
  exact ⟨fun side => ready.regions _ _ (regions side), resting, symbolic⟩

theorem Ready.reading (ready : p₀.Ready) : Reading p₀ p₀ where
  bare := rfl
  regions name r found := ⟨r, found, (ready.regions name r found).ready.reading⟩
  interfaces _ c found :=
    ⟨c, (coupled?_eq_some_iff.mp found).1, (ready.coupled found).reading⟩

namespace Reading

variable (reading : Reading p₀ p)

include reading

theorem coupled (ready : p₀.Ready) (found : p₀.coupled? name = some c₀) :
    ∃ c, p.coupled? name = some c ∧ Coupled.Reading c₀ c := by
  obtain ⟨c, junction, here⟩ := reading.interfaces name c₀ found
  obtain ⟨-, regions⟩ := coupled?_eq_some_iff.mp found
  have geometry : c.junction.geometry = c₀.junction.geometry := (congrArg Junction.geometry here.declared :)
  obtain ⟨r0, first, reading0⟩ := reading.regions _ _ (regions .first)
  obtain ⟨r1, second, reading1⟩ := reading.regions _ _ (regions .second)
  refine ⟨⟨c.junction, r0, r1⟩, coupled?_eq_some_iff.mpr ⟨junction, fun side => ?_⟩,
    here.of_regions (ready.coupled found) rfl fun side => ?_⟩
  · rw [geometry]
    cases side <;> assumption
  · cases side <;> assumption

theorem setRegion (found : p₀.regions.get? name = some r₀) (here : Region.Reading r₀ r) :
    Reading p₀ (p.setRegion name r) where
  bare := by
    obtain ⟨r', found', before⟩ := reading.regions name r₀ found
    refine (bare_setRegion ?_).trans reading.bare
    rw [found', Option.map_some, before.underway.bare_eq, here.underway.bare_eq]
  regions name' r₀' found' := by
    obtain ⟨r', here', before⟩ := reading.regions name' r₀' found'
    rw [Parts.setRegion, Table.get?_modify]
    split
    next same =>
      cases same
      cases found.symm.trans found'
      exact ⟨r, by rw [here', Option.map_some], here⟩
    · exact ⟨r', here', before⟩
  interfaces := reading.interfaces

theorem setJunction (found : p₀.coupled? name = some c₀) (here : Coupled.Reading c₀ c) :
    Reading p₀ (p.setJunction name c.junction) where
  bare := by
    obtain ⟨c', found', before⟩ := reading.interfaces name c₀ found
    refine (bare_setJunction ?_).trans reading.bare
    rw [found', Option.map_some, Junction.bare, Junction.bare,
      show c'.junction.geometry = _ from (congrArg Junction.geometry before.declared :),
      show c.junction.geometry = _ from (congrArg Junction.geometry here.declared :)]
  regions := reading.regions
  interfaces name' c₀' found' := by
    obtain ⟨c', here', before⟩ := reading.interfaces name' c₀' found'
    rw [Parts.setJunction, Table.get?_modify]
    split
    next same =>
      cases same
      cases found.symm.trans found'
      exact ⟨c, by rw [here', Option.map_some], here⟩
    · exact ⟨c', here', before⟩

theorem setCoupled (found : p₀.coupled? name = some c₀) (here : Coupled.Reading c₀ c) :
    Reading p₀ (p.setCoupled name c) := by
  obtain ⟨-, regions⟩ := coupled?_eq_some_iff.mp found
  have geometry : c.junction.geometry = c₀.junction.geometry := (congrArg Junction.geometry here.declared :)
  have first := reading.setRegion (regions .first) (here.regions .first)
  have second := first.setRegion (regions .second) (here.regions .second)
  rw [Parts.setCoupled, geometry]
  exact second.setJunction found here

end Reading

end Parts

/-! ### Steps on parts -/

namespace Pass

variable {σ τ : Type} {part? : σ → Option τ} {put : σ → τ → σ} {kind : σ → Prop} {inner : τ → Prop}

omit [BaseScalar β] [Scalar α] in
theorem Repeats.onPart? {f : Selector → Pass τ α Unit} (repeats : Repeats inner f)
    (found : ∀ o, kind o → ∃ t, part? o = some t ∧ inner t)
    (kept : ∀ o t, kind o → inner t → kind (put o t)) :
    Repeats kind fun select => (discard (Pass.onPart? part? put (f select)) : Pass σ α Unit) := by
  obtain ⟨ending, gives, divides⟩ := repeats
  refine ⟨ending, fun select numeric => ⟨fun s holds => ?_⟩, divides⟩
  obtain ⟨t, part, here⟩ := found s.owner holds
  obtain ⟨result, out, rows, after⟩ := (gives select numeric).ran { s with owner := t } here
  dsimp only
  rw [run_discard_onPart? part]
  exact ⟨result, out, rows, kept s.owner _ holds after⟩

omit [BaseScalar β] [Scalar α] in
theorem Repeats.onPart?_of_missing {f : Selector → Pass τ α Unit}
    (missing : ∀ o, kind o → part? o = none) :
    Repeats kind fun select => (discard (Pass.onPart? part? put (f select)) : Pass σ α Unit) := by
  have gives : ∀ select, Gives kind (discard (Pass.onPart? part? put (f select)) : Pass σ α Unit)
      (.ok (), {}) := by
    refine fun select => ⟨fun s holds => ?_⟩
    rw [run_discard_onPart?_of_missing (missing s.owner holds)]
    exact ⟨rfl, (Records.append_empty _).symm, rfl, holds⟩
  exact .quiet gives

end Pass

namespace Parts

variable [Precision β α] {p₀ : Parts β α} (ready : p₀.Ready) (name : String) (settings : Settings β)

include ready

theorem Ready.repeats_onRegion {f : Selector → RegionPass β α Unit}
    (splits : Splits (Region.rules settings) f) :
    Repeats (Reading p₀) fun select => (discard (onRegion name (f select)) : Pass (Parts β α) α Unit) := by
  simp only [onRegion_eq]
  cases found : p₀.regions.get? name with
  | none =>
    refine .onPart?_of_missing fun p reading => ?_
    by_contra present
    obtain ⟨r, here⟩ := Option.ne_none_iff_exists'.mp present
    obtain ⟨r₀, found', -⟩ := get?_regions_of_bare_eq reading.bare.symm here
    cases found.symm.trans found'
  | some r₀ =>
    exact (Region.repeats (ready.regions name r₀ found).ready splits).onPart?
      (fun p reading => reading.regions name r₀ found) fun p r reading => reading.setRegion found

theorem Ready.repeats_onCoupled {f : Selector → CoupledPass β α Unit}
    (splits : Splits (Coupled.rules settings) f) :
    Repeats (Reading p₀) fun select => (discard (onCoupled name (f select)) : Pass (Parts β α) α Unit) := by
  simp only [onCoupled_eq]
  cases found : p₀.coupled? name with
  | none =>
    refine .onPart?_of_missing fun p reading => ?_
    by_contra present
    obtain ⟨c, here⟩ := Option.ne_none_iff_exists'.mp present
    obtain ⟨c₀, found', -⟩ := coupled?_of_bare_eq reading.bare.symm here
    cases found.symm.trans found'
  | some c₀ =>
    exact (Coupled.repeats (ready.coupled found) splits).onPart?
      (fun p reading => reading.coupled ready found) fun p c reading => reading.setCoupled found

end Parts

/-! ## Devices -/

namespace Device

variable [Precision β α] {d₀ d : Device β α}

/-- The second device is what the first becomes by reads. -/
structure Reading (d₀ d : Device β α) : Prop where
  same : d = { d₀ with parts := d.parts, log := d.log }
  parts : d₀.parts.Reading d.parts

theorem Reading.refl (ready : d₀.parts.Ready) : Reading d₀ d₀ := ⟨rfl, ready.reading⟩

namespace Reading

variable (reading : Reading d₀ d)

include reading

theorem bare_eq : d.bare = d₀.bare := by
  rw [reading.same]
  exact bare_of_parts reading.parts.bare

theorem outline_eq : d.outline = d₀.outline := by
  rw [← outline_bare, reading.bare_eq, outline_bare]

theorem ownedNodes_eq : d.ownedNodes = d₀.ownedNodes := by
  have equations : d.contactEquations = d₀.contactEquations := by rw [reading.same]
  have mask : ∀ region e, d.contactMask region e = d₀.contactMask region e := fun region e => by
    rw [← contactMask_outline, reading.outline_eq, contactMask_outline]
  simp only [ownedNodes, equations, mask]

theorem ownedPairs_eq : d.ownedPairs = d₀.ownedPairs := by
  rw [← ownedPairs_outline, reading.outline_eq, ownedPairs_outline]

theorem boundaryPass_eq (select : Selector) (time : TimeMode) :
    d.boundaryPass select time = d₀.boundaryPass select time := by
  have settings : d.settings = d₀.settings := by rw [reading.same]
  have circuit : d.circuit = d₀.circuit := by rw [reading.same]
  unfold boundaryPass
  rw [reading.ownedNodes_eq, reading.ownedPairs_eq, settings, circuit]

theorem bulkPass_eq (select : Selector) (time : TimeMode) :
    d.bulkPass select time = d₀.bulkPass select time := by
  have settings : d.settings = d₀.settings := by rw [reading.same]
  have equations : d.bulkEquations = d₀.bulkEquations := by rw [reading.same]
  unfold bulkPass
  rw [equations, settings]

/-- A pass over the parts whose ending is known. -/
theorem run_eq {ρ : Type} {step : Pass (Parts β α) α ρ} {ending : Ending α ρ}
    (gives : Gives d₀.parts.Reading step ending) (out : Records α) :
    ∃ d', Reading d₀ d' ∧ d.run out step = (ending.1, d', out.append ending.2) := by
  obtain ⟨result, appended, rows, kept⟩ := gives.ran (d.passState out) reading.parts
  rcases ran : step (d.passState out) with ⟨ended, s⟩
  rw [ran] at result appended rows kept
  refine ⟨{ d with parts := s.owner, rows := s.rows, log := s.log }, ⟨?_, kept⟩, ?_⟩
  · rw [show s.rows = d₀.rows from rows.trans (by rw [passState, reading.same]), reading.same]
  · rw [Device.run_eq d out ran]
    exact congrArg₂ (fun result out => (result, _, out)) result appended

end Reading

end Device

/-! ## Passes of a device -/

namespace Device

variable [Precision β α] {d₀ d : Device β α}

theorem repeats_boundaryPass (ready : d₀.parts.Ready) (time : TimeMode) :
    Repeats d₀.parts.Reading fun select => d₀.boundaryPass select time :=
  .seq (.forM fun x _ => ready.repeats_onRegion x.1 d₀.settings x.2.1.splits_assemble)
    (.forM fun x _ => ready.repeats_onCoupled x.1 d₀.settings x.2.1.splits_assemble)

theorem repeats_bulkPass (ready : d₀.parts.Ready) (time : TimeMode) :
    Repeats d₀.parts.Reading fun select => d₀.bulkPass select time :=
  .forM fun x _ => ready.repeats_onRegion x.1 d₀.settings x.2.splits_assemble

theorem Reading.numericPass_eq (reading : Reading d₀ d) {select : Selector} {time : TimeMode}
    {boundary bulk : Ending α Unit} (first : Gives d₀.parts.Reading (d₀.boundaryPass select time) boundary)
    (second : Gives d₀.parts.Reading (d₀.bulkPass select time) bulk) (out : Records α) :
    ∃ d', Reading d₀ d' ∧ d.numericPass select time out =
      ((boundary.followedBy (bulk.moved d₀.rows)).1.mapError .assembly, d',
        out.append (boundary.followedBy (bulk.moved d₀.rows)).2) := by
  obtain ⟨d₁, reading₁, ran⟩ := reading.run_eq first out
  obtain ⟨d₂, reading₂, ran'⟩ := reading₁.run_eq second {}
  unfold numericPass
  rw [reading.boundaryPass_eq, ran]
  obtain ⟨e | ⟨⟩, added⟩ := boundary
  · exact ⟨d₁, reading₁, rfl⟩
  dsimp only
  rw [reading₁.bulkPass_eq, ran']
  have rows : d₂.rows = d₀.rows := by rw [reading₂.same]
  obtain ⟨e | ⟨⟩, added'⟩ := bulk
  · exact ⟨d₂, reading₂, by simp [Ending.followedBy, Ending.moved, Except.mapError]⟩
  · exact ⟨d₂, reading₂, by
      simp [Ending.followedBy, Ending.moved, Except.mapError, Records.append_assoc, rows]⟩

/-- The endings of passes for numbers, whatever passes ran before. -/
theorem exists_endings (claimed : d₀.Ready) (ready : d₀.parts.Ready) (time : TimeMode) :
    ∃ ending : Selector → Ending α Unit, Divides ending ∧ ∀ d, Reading d₀ d → ∀ select, select ≠ .rows →
      ∀ out, ∃ d', Reading d₀ d' ∧ d.assemble select time out =
        ((ending select).1.mapError .assembly, d', out.append (ending select).2) := by
  obtain ⟨boundary, gives, divides⟩ := repeats_boundaryPass ready time
  obtain ⟨bulk, gives', divides'⟩ := repeats_bulkPass ready time
  refine ⟨_, divides.seq (divides'.moved d₀.rows), fun d reading select numeric out => ?_⟩
  have claimed' : d.Ready := by
    have stage : d.stage = d₀.stage := by rw [reading.same]
    rw [Ready, stage, claimed, ← d.layout_bare, reading.bare_eq, layout_bare]
  rw [assemble_of_ready numeric time out claimed']
  exact reading.numericPass_eq (gives select numeric) (gives' select numeric) out

/-! ## Devices at rest -/

theorem lasting_resting : Lasting (fun _ => True) (fun _ => True) (Region.Resting : Region β α → Prop)
    (Junction.Resting : Junction β α → Prop) where
  created instanceId device name mesh chunking _ :=
    Region.resting_create instanceId device name mesh chunking
  region change _ _ resting := resting.apply change
  parameter _ name value resting := resting.apply (.setParameter name value)
  declare _ _ _ calculator _ resting := resting.declare calculator
  declareOnContact r contact name calculator _ resting := by
    rcases declared : r.declareOnContact contact name calculator with e | r'
    · exact resting
    · exact resting.declareOnContact declared
  base _ _ resting := resting
  joined _ _ _ := ModelStore.resting_empty
  interface change j _ resting := by
    cases change with
    | declare name calculator => exact resting.declare name calculator
    | setValues name values =>
      rw [Junction.Change.apply]
      rcases wrote : j.setValues name values with e | j'
      · exact resting
      · exact resting.setValues wrote
    | setUniform name value => exact resting.setUniform name value
    | removeModel name => exact resting.removeModel name
    | markOld name => exact resting.markOld name
    | takeNotes => exact resting
    | read name region0 region1 => exact (Coupled.Restores.read ⟨j, region0, region1⟩ name).resting resting
    | find name region0 region1 => exact (Coupled.Restores.find ⟨j, region0, region1⟩ name).resting resting

theorem Placed.resting (placed : d.Placed) : d.parts.All Region.Resting Junction.Resting := by
  induction placed with
  | created made => exact all_create made
  | call _ change ih =>
    exact change.all_apply lasting_resting ih (change.allowed_of_forall (fun _ => trivial) fun _ => trivial)
  | setBase _ region base ih => exact all_changeRegion ih (fun r => lasting_resting.base r base) region

/-- All computed models of regions and interfaces come from expressions. -/
structure Symbolic (d : Device β α) : Prop where
  regions : ∀ name r, d.parts.regions.get? name = some r → r.models.Symbolic
  interfaces : ∀ name j, d.parts.junctions.get? name = some j → j.models.Symbolic

theorem Placed.ready_parts (placed : d.Placed) (symbolic : d.Symbolic) : d.parts.Ready where
  regions name r found := (placed.resting.regions name r found).settled (symbolic.regions name r found)
  interfaces name j found :=
    ⟨placed.resting.interfaces name j found, symbolic.interfaces name j found⟩

/-- Calls that declare by expressions leave only models from expressions. -/
theorem lasting_symbolic : Lasting (fun _ => True) Calculator.Symbolic (Region.Settled : Region β α → Prop)
    fun j : Junction β α => j.Resting ∧ j.models.Symbolic where
  created instanceId device name mesh chunking _ :=
    Region.Settled.create instanceId device name mesh chunking
  region change _ _ settled := settled.apply change
  parameter _ name value settled := settled.apply (.setParameter name value)
  declare r d name calculator expressed settled := by
    obtain ⟨functions, e, rfl⟩ := expressed
    exact settled.apply (.declare d name functions e)
  declareOnContact r contact name calculator expressed settled := by
    obtain ⟨functions, e, rfl⟩ := expressed
    exact settled.apply (.declareOnContact contact name functions e)
  base _ _ settled := ⟨settled.models, settled.mirrored⟩
  joined _ _ _ := ⟨ModelStore.resting_empty, fun _ _ _ _ found => by cases found⟩
  interface change j expressed := by
    rintro ⟨resting, symbolic⟩
    exact ⟨lasting_resting.interface change j (by cases change <;> trivial) resting,
      Junction.Change.uses_apply expressed symbolic⟩

/-- A device that is built by calls that declare by expressions has only such models. -/
theorem symbolic_after {name : String} {settings : Settings β} (valid : settings.validate.toBool = true)
    {changes : List (Change β α)}
    (expressed : ∀ change ∈ changes, change.Allowed (fun _ => True) Calculator.Symbolic) :
    Symbolic (Device.after { name, settings } changes) := by
  have made : create name settings = .ok ({ name, settings } : Device β α) := create_of_valid valid
  have all := all_after lasting_symbolic (all_create made) expressed
  exact ⟨fun name r found => (all.regions name r found).symbolic, fun name j found =>
    (all.interfaces name j found).2⟩

/-! ## Sequences of passes -/

def Change.IsNumeric : Change β α → Prop
  | assemble select _ _ => select ≠ .rows
  | _ => False

theorem Reading.after (claimed : d₀.Ready) (ready : d₀.parts.Ready) {changes : List (Change β α)}
    (numeric : ∀ change ∈ changes, change.IsNumeric) (reading : Reading d₀ d) :
    Reading d₀ (d.after changes) := by
  induction changes generalizing d with
  | nil => exact reading
  | cons change rest ih =>
    refine ih (fun change' member => numeric change' (.tail _ member)) ?_
    have here := numeric change (.head _)
    cases change with
    | assemble select time out =>
      obtain ⟨ending, -, ran⟩ := exists_endings claimed ready time
      obtain ⟨d', reading', same⟩ := ran d reading select here out
      rwa [Change.apply, same]
    | _ => exact here.elim

/-- While rows are claimed and models come from expressions, a pass for numbers ends as it would at once and
appends the same records, whatever passes for numbers ran before. A pass for matrix and residual succeeds
if and only if the passes for either do, and then appends the matrix of the one and the residual of the
other. -/
theorem passes_repeat_commute_and_split (placed : d.Placed) (claimed : d.Ready) (symbolic : d.Symbolic)
    (time : TimeMode) :
    let pass := fun select => d.assemble select time {}
    (∀ changes : List (Change β α), (∀ change ∈ changes, change.IsNumeric) →
      ∀ select, select ≠ .rows → ∀ out, ∃ d',
        (d.after changes).assemble select time out = ((pass select).1, d', out.append (pass select).2.2)) ∧
    ((pass .both).1 = .ok () ↔ (pass .matrix).1 = .ok () ∧ (pass .residual).1 = .ok ()) ∧
    ((pass .both).1 = .ok () →
      (pass .both).2.2 = ⟨(pass .matrix).2.2.matrix, (pass .residual).2.2.residual⟩) := by
  intro pass
  have ready := placed.ready_parts symbolic
  obtain ⟨ending, divides, ran⟩ := exists_endings claimed ready time
  have alone : ∀ select, select ≠ .rows →
      (pass select).1 = (ending select).1.mapError .assembly ∧ (pass select).2.2 = (ending select).2 := by
    intro select numeric
    obtain ⟨d', -, same⟩ := ran d (.refl ready) select numeric {}
    simp only [pass, same, Records.empty_append, and_self]
  have both := alone .both (by decide)
  have matrix := alone .matrix (by decide)
  have residual := alone .residual (by decide)
  have ok : ∀ {result : Except AssemblyError Unit},
      (result.mapError .assembly : Except (DeviceError β) Unit) = .ok () ↔ result = .ok () := by
    rintro (e | ⟨⟩) <;> simp [Except.mapError]
  refine ⟨fun changes numeric select wanted out => ?_, ?_, fun succeeds => ?_⟩
  · have reading := Reading.after claimed ready numeric (.refl ready)
    obtain ⟨d', -, same⟩ := ran _ reading select wanted out
    rw [same, (alone select wanted).1, (alone select wanted).2]
    exact ⟨d', rfl⟩
  · rw [both.1, matrix.1, residual.1, ok, ok, ok]
    exact divides.ok
  · rw [both.2, matrix.2, residual.2]
    exact divides.records (ok.mp (both.1 ▸ succeeds))

/-- Two regions that meet at an interface, with models that read each other under the time derivative.
Transient passes fail at the cycle where they read it, and steady passes that follow give what they would
have given before. -/
theorem passes_repeat_after_cyclic_models :
    let mesh : Mesh ℚ := ⟨.segment, #[⟨0, 0, 0⟩, ⟨1, 0, 0⟩], #[⟨0, 1⟩], #[]⟩
    let left : BulkEquation ℚ :=
      { name := "e", variableName := "u", models := { node := "f", timeNode := "g" } }
    let right : BulkEquation ℚ := { name := "e", variableName := "u", models := { node := "u" } }
    let jump : Expr ℚ := .sum [.model "u@r0", .product [.constant (-1), .model "u@r1"]]
    let d : Device ℚ ℚ := after { name := "device", settings := {} }
      [.addRegion "left" mesh, .addRegion "right" mesh, .addEquation "left" left, .addEquation "right" right,
        .region "left" (.setUniform .node "NodeVolume" 1),
        .region "right" (.setUniform .node "NodeVolume" 1),
        .region "left" (.setUniform .node "u" 3), .region "right" (.setUniform .node "u" 5),
        .region "left" (.declare .node "f" ∅ (.product [.constant 2, .model "u"])),
        .region "left" (.declare .node "f:u" ∅ (.constant 2)),
        .region "left" (.declare .node "g" ∅ (.model "h")),
        .region "left" (.declare .node "h" ∅ (.model "g")),
        .addInterface "joint" "left" "right" [(1, 0)],
        .interface "joint" (.declare "m" (.ofExpr ∅ jump)),
        .addInterfaceEquation "joint" { name := "c", name0 := "e", name1 := "e", model := "m" }, .claimRows]
    let earlier : List (Change ℚ ℚ) := [.assemble .both .transient {}, .assemble .matrix .steady {},
      .assemble .residual .transient {}]
    (∃ d', (d.after earlier).assemble .both .steady {} = (.ok (), d',
      ⟨(d.assemble .matrix .steady {}).2.2.matrix, (d.assemble .residual .steady {}).2.2.residual⟩)) ∧
    (d.assemble .residual .steady {}).2.2.residual.map (fun x => (x.row, x.value)) =
      [(2, -2), (0, 6), (1, 6), (1, 5), (3, 5)] ∧
    (d.assemble .matrix .transient {}).1 = .ok () ∧ (d.assemble .residual .transient {}).1 ≠ .ok () ∧
    ((d.after earlier).assemble .both .transient {}).1 ≠ .ok () := by
  intro mesh left right jump d earlier
  have placed : d.Placed := placed_after (by decide +kernel) _
  have claimed : d.Ready := by decide +kernel
  have symbolic : d.Symbolic := by
    refine symbolic_after (by decide +kernel) ?_
    simp only [List.forall_mem_cons]
    and_intros
    all_goals
      first | exact trivial | exact ⟨_, _, rfl⟩ | exact fun _ member => absurd member List.not_mem_nil
  have numeric : ∀ change ∈ earlier, change.IsNumeric := by
    simp [earlier, Change.IsNumeric]
  have values : (d.assemble .residual .steady {}).2.2.residual.map (fun x => (x.row, x.value)) =
      [(2, -2), (0, 6), (1, 6), (1, 5), (3, 5)] := by decide +kernel
  have succeeds : (d.assemble .both .steady {}).1.toBool = true := by decide +kernel
  have quiet : (d.assemble .matrix .transient {}).1.toBool = true := by decide +kernel
  have fails : (d.assemble .residual .transient {}).1.toBool = false := by decide +kernel
  clear_value d
  have ok : ∀ {result : Except (DeviceError ℚ) Unit}, result.toBool = true ↔ result = .ok () := by
    rintro (e | ⟨⟩) <;> simp [Except.toBool]
  obtain ⟨repeated, -, records⟩ := passes_repeat_commute_and_split placed claimed symbolic .steady
  obtain ⟨repeated', divides, -⟩ := passes_repeat_commute_and_split placed claimed symbolic .transient
  have fails' : (d.assemble .residual .transient {}).1 ≠ .ok () := by simp [← ok, fails]
  refine ⟨?_, values, ok.mp quiet, fails', ?_⟩
  · obtain ⟨d', same⟩ := repeated earlier numeric .both (by decide) {}
    refine ⟨d', ?_⟩
    rw [same, ok.mp succeeds, Records.empty_append, records (ok.mp succeeds)]
  · obtain ⟨d', same⟩ := repeated' earlier numeric .both (by decide) {}
    rw [same]
    exact fun both => fails' (divides.mp both).2

end Device

end FiniteVolume
