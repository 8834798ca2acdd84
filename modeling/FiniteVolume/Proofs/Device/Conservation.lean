import FiniteVolume.Proofs.Assembly.Balance
import FiniteVolume.Proofs.Device.Reads

/-!
Conservation on closed devices.

On a device without contact equations, whose bulk equations have edge and element models only and whose
interface equations are continuous or fluxes between equal areas, what a steady pass appends sums to
zero over all rows, in the residual and in every column of the matrix; only the records of continuous
interface equations, which stand in place of the rows they move, are left out
(`Device.fluxes_are_conserved`). Entity by entity, what leaves the row of one end enters that of the
other, and the rows that interfaces move lose and gain nothing.
-/
namespace FiniteVolume

variable {β α : Type}

/-! ## Bulk equations -/

namespace BulkModels

variable {m : BulkModels} {measures : MeasureNames} {elements : Option Domain}

/-- In a steady pass there are models on edges and element edges only. -/
structure FluxOnly (m : BulkModels) : Prop where
  node : m.node = none
  edgeVolume : m.edgeVolume = none
  volumeNode0 : m.volumeNode0 = none
  volumeNode1 : m.volumeNode1 = none

def fluxes (m : BulkModels) (measures : MeasureNames) (elements : Option Domain) : List Flux :=
  m.edge.toList.map measures.edgeFlux
    ++ elements.toList.flatMap fun d => m.element.toList.map (measures.elementFlux d)

theorem FluxOnly.integrands_eq (fluxOnly : m.FluxOnly) :
    m.integrands measures elements .steady = (m.fluxes measures elements).map .flux := by
  obtain ⟨node, edgeVolume, volumeNode0, volumeNode1⟩ := fluxOnly
  cases elements <;> simp [integrands, fluxes, edgeFluxes, elementFluxes, node, edgeVolume, volumeNode0,
    volumeNode1, MeasureNames.elementShares, Flux.overShares]

theorem ends_of_mem_fluxes {f : Flux} (member : f ∈ m.fluxes measures elements) : f.ends = .opposed := by
  rcases List.mem_append.mp member with onEdges | onElements
  · obtain ⟨model, -, rfl⟩ := List.mem_map.mp onEdges
    rfl
  · obtain ⟨d, -, inDomain⟩ := List.mem_flatMap.mp onElements
    obtain ⟨model, -, rfl⟩ := List.mem_map.mp inDomain
    rfl

end BulkModels

namespace BulkEquation

variable [BaseScalar β] [Scalar α] (e : BulkEquation β) {measures : MeasureNames} {select : Selector}
  {settings : Settings β}

def crossed (measures : MeasureNames) (select : Selector) (r : Region β α) : Records α :=
  .join ((e.models.fluxes measures r.mesh.elementDomain).map fun f =>
    f.crossed ((r.firstRow? e.name).getD 0) r (r.values f.domain f.measure) select)

variable [ExactScalar α]

theorem balanced_crossed {r : Region β α} : (e.crossed measures select r).Balanced := by
  refine .join fun part member => ?_
  obtain ⟨f, -, rfl⟩ := List.mem_map.mp member
  exact f.balanced_crossed _

/-- With fluxes only, a steady pass appends what crosses the entities. -/
theorem writes_crossed (fluxOnly : e.models.FluxOnly) (numeric : select ≠ .rows) :
    (e.assemble settings select .steady : RegionPass β α Unit).Writes fun _ r records =>
      records = e.crossed settings.measures select r := by
  refine (e.writes_assemble numeric).mono ?_
  rintro _ r _ ⟨start, slot, rfl⟩
  rw [Integrand.assembled, terms, fluxOnly.integrands_eq, List.map_map, List.map_map, crossed, slot]
  refine congrArg Records.join (List.map_congr_left fun f member => ?_)
  exact f.records_eq_crossed start (BulkModels.ends_of_mem_fluxes member)

end BulkEquation

/-! ## Interface equations -/

def Parts.area? [Scalar α] (p : Parts β α) (measures : MeasureNames) (region : String) (node : Nat) :
    Option α :=
  (p.regions.get? region).bind fun r => (r.values .node measures.surfaceArea)[node]?

/-- Both regions have the same surface area at the active pairs of an interface. -/
def Parts.EqualAreas [Scalar α] (p : Parts β α) (measures : MeasureNames) (interface : String)
    (mask : Array Bool) : Prop :=
  ∀ j, p.junctions.get? interface = some j → ∀ pair ∈ j.geometry.activePairs mask,
    p.area? measures j.geometry.region0 pair.1 = p.area? measures j.geometry.region1 pair.2

/-- Every interface joins two regions. -/
def Parts.Apart (p : Parts β α) : Prop :=
  ∀ name j, p.junctions.get? name = some j → j.geometry.region0 ≠ j.geometry.region1

theorem Parts.Apart.of_reads [Scalar α] {p p' : Parts β α} (apart : p.Apart) (reads : Reads p p') :
    p'.Apart := by
  intro name j' found'
  have same := reads.geometry name
  rw [found', Option.map_some] at same
  obtain ⟨j, found, geometry⟩ := Option.map_eq_some_iff.mp same.symm
  exact geometry ▸ apart name j found

namespace InterfaceEquation

variable [Scalar α] [ExactScalar α] {e : InterfaceEquation} {c : Coupled β α}
  {area0 area1 : Array α} {pairs : List PairRows} {select : Selector}

/-- Between equal areas, a flux takes from one row of a pair what it gives to the other. -/
theorem weigh_flux {p : PairRows} (equal : area0[p.node0]? = area1[p.node1]?) (values : Array α) :
    p.weigh .flux area0 area1 values = [] ∨
      ∃ v, p.weigh .flux area0 area1 values = [(p.row .first, v), (p.row .second, -v)] := by
  cases area : area1[p.node1]? with
  | none => exact .inl (by simp [PairRows.weigh, Side.both, PairRows.node, Coupling.factor?, equal, area])
  | some a =>
    cases value : values[p.index]? with
    | none => exact .inl (by simp [PairRows.weigh, value])
    | some v =>
      refine .inr ⟨a * v, ?_⟩
      simp [PairRows.weigh, Side.both, PairRows.node, Coupling.factor?, equal, area, value]

theorem balanced_recordsWith (flux : e.coupling = .flux)
    (equal : ∀ p ∈ pairs, area0[p.node0]? = area1[p.node1]?) :
    (e.recordsWith c area0 area1 pairs select).Balanced := by
  have matrix : Records.Balanced ⟨(e.recordsWith c area0 area1 pairs select).matrix, []⟩ := by
    unfold recordsWith
    dsimp only
    split
    · refine .flatMap_matrix fun d _ => .flatMap_matrix fun p member => ?_
      rw [flux]
      rcases weigh_flux (equal p member) (c.values d.name) with none | ⟨v, both⟩
      · rw [none]
        exact .empty
      · rw [both]
        exact Records.balanced_matrix_pair (p.row .first) (p.row .second) _ v
    · exact .empty
  have residual : Records.Balanced ⟨[], (e.recordsWith c area0 area1 pairs select).residual⟩ := by
    unfold recordsWith
    dsimp only
    split
    · refine .flatMap_residual fun p member => ?_
      rw [flux]
      rcases weigh_flux (equal p member) (c.values e.model) with none | ⟨v, both⟩
      · rw [none]
        exact .empty
      · rw [both]
        exact Records.balanced_residual_pair (p.row .first) (p.row .second) v
    · exact .empty
  simpa [Records.append] using matrix.append residual

/-- Between equal areas, a steady pass of a flux equation appends balanced records. -/
theorem balanced_records {measures : MeasureNames} {mask : Array Bool} {start0 start1 : Nat}
    (flux : e.coupling = .flux) (equal : ∀ pair ∈ c.junction.geometry.activePairs mask,
      (c.region0.values .node measures.surfaceArea)[pair.1]? =
        (c.region1.values .node measures.surfaceArea)[pair.2]?) :
    (e.records measures c (c.junction.geometry.pairRows mask start0 start1) select).Balanced := by
  have area : ∀ side, e.areaOf measures c side = (c.region side).values .node measures.surfaceArea := by
    intro side
    rw [areaOf, flux]
    exact if_pos rfl
  refine balanced_recordsWith flux fun p member => ?_
  obtain ⟨⟨pair, index⟩, active, rfl⟩ := List.mem_map.mp member
  rw [area, area]
  exact equal pair (List.mem_map.mpr ⟨_, active, rfl⟩)

end InterfaceEquation

/-- The equation is continuous at an interface: its records stand in place of the rows that it moves. -/
def Boundary.isContinuous [Zero β] : Boundary β → Bool
  | contact .. => false
  | interface _ e _ => e.coupling = .continuous

namespace Device

variable [BaseScalar β]

/-- There are no contact equations, the bulk equations have fluxes only, and interface equations are
continuous or fluxes. -/
structure Closed (d : Device β α) : Prop where
  contacts : d.contactEquations = []
  fluxes : ∀ x ∈ d.bulkEquations, x.2.models.FluxOnly
  couplings : ∀ x ∈ d.interfaceEquations, x.2.coupling ≠ .hybrid

/-! ## Claims that move rows -/

variable {d d' : Device β α}

/-- Boundary equations move rows, and neither drop nor copy them. -/
structure MovesOnly (d : Device β α) : Prop where
  contacts : d.contactEquations = []
  couplings : ∀ x ∈ d.interfaceEquations, x.2.coupling ≠ .hybrid

theorem Closed.movesOnly (closed : d.Closed) : d.MovesOnly := ⟨closed.contacts, closed.couplings⟩

namespace MovesOnly

theorem of_outline_eq (moves : d.MovesOnly) (same : d'.outline = d.outline) : d'.MovesOnly where
  contacts := by
    have none := congrArg contactEquations same
    rw [contactEquations_outline, contactEquations_outline, moves.contacts] at none
    exact List.map_eq_nil_iff.mp none
  couplings := (congrArg interfaceEquations same :) ▸ moves.couplings

theorem of_mem_boundaries (moves : d.MovesOnly) {b : Boundary β} (member : b ∈ d.boundaries) :
    ∃ x ∈ d.ownedPairs, b = .interface x.1 x.2.1 x.2.2 ∧ x.2.1.coupling ≠ .hybrid := by
  rcases mem_boundaries.mp member with ⟨x, onContact, -⟩ | ⟨x, inside, same⟩
  · rw [moves.contacts] at onContact
    cases onContact
  · exact ⟨x, inside, same, moves.couplings _ (mem_ownedPairs inside).1⟩

theorem transfers (moves : d.MovesOnly) {rows : RowMap}
    (claimed : RowMap.claimAll d.entries ∅ = .ok rows) : rows.Transfers := by
  intro row
  unfold RowMap.destinations
  cases found : rows.get? row with
  | none => exact ⟨row, rfl⟩
  | some move =>
    obtain ⟨b, member, c, isClaim, entry⟩ :=
      mem_entries.mp ((RowMap.get?_eq_some_iff_of_claimAll claimed).mp found)
    obtain ⟨x, -, rfl, coupling⟩ := moves.of_mem_boundaries member
    obtain ⟨coupled, -, pair, keepCopy, keeps, -, rfl⟩ := Boundary.mem_claims_interface.mp isClaim
    have leaves : keepCopy = false := by
      revert coupling keeps
      cases x.2.1.coupling <;> simp [Coupling.keepsCopy?]
    obtain rfl : _ = move := congrArg Prod.snd entry
    exact ⟨_, by rw [leaves]; rfl⟩

end MovesOnly

def setBase (d : Device β α) (region : String) (base : Nat) : Device β α :=
  d.changeRegion region fun r => { r with base }

/-- Interfaces join two regions, and unless an equation drops or copies rows, every row that is claimed
goes to one row. -/
structure Transfers (d : Device β α) : Prop where
  built : d.WellBuilt
  transfers : ∀ l, d.stage = .claimed l → d.MovesOnly → d.rows.Transfers

namespace Transfers

theorem of_idle (built : d.WellBuilt) (idle : d.stage = .idle) : d.Transfers where
  built := built
  transfers _ claimed := by cases idle.symm.trans claimed

theorem changeRegion (transfers : d.Transfers) {change : Region β α → Region β α}
    (mesh : ∀ r, (change r).mesh = r.mesh) (keyed : ∀ r, r.Keyed → (change r).Keyed) (name : String) :
    (d.changeRegion name change).Transfers where
  built := transfers.built.changeRegion mesh keyed name
  transfers := by
    unfold Device.changeRegion
    split
    · exact fun l claimed moves => transfers.transfers l claimed ⟨moves.contacts, moves.couplings⟩
    · exact transfers.transfers

theorem apart (transfers : d.Transfers) : d.parts.Apart := fun name j found =>
  (transfers.built.joined name j found).1

variable [Scalar α]

theorem claimRows (transfers : d.Transfers) : d.claimRows.2.Transfers := by
  have built : d.prepared.WellBuilt := transfers.built.of_outline_eq d.outline_prepared
  rcases ran : d.claimPass with ⟨e | ⟨⟩, s⟩
  · obtain ⟨log, failed⟩ := claimRows_of_error ran
    rw [failed]
    exact .of_idle ⟨built.keyed, built.joined, built.distinct⟩ rfl
  · rw [claimRows_of_ok ran]
    refine ⟨⟨built.keyed, built.joined, built.distinct⟩, fun l claimed moves => ?_⟩
    have prepared : d.prepared.MovesOnly := ⟨moves.contacts, moves.couplings⟩
    exact prepared.transfers (d.prepared.claims_boundaryPass.of_ok ran).2

theorem effect (effect : Effect d d') (transfers : d.Transfers) : d'.Transfers := by
  cases effect with
  | rebuilt rebuilt => exact .of_idle (rebuilt.built transfers.built) rebuilt.idle
  | alike alike =>
    have outline : d'.outline = d.outline := by rw [← outline_bare, alike.bare, outline_bare]
    refine ⟨transfers.built.of_outline_eq outline, fun l claimed moves => ?_⟩
    rw [alike.rows]
    exact transfers.transfers l (alike.stage ▸ claimed) (moves.of_outline_eq outline.symm)
  | region name change follows keyed =>
    exact transfers.changeRegion (fun r => (follows r).mesh) keyed name
  | claimed => exact transfers.claimRows

end Transfers

/-- The device results from an empty one by calls and by other first rows for its regions. -/
inductive Placed [Scalar α] [Precision β α] : Device β α → Prop
  | created {d : Device β α} {name : String} {settings : Settings β}
    (made : create name settings = .ok d) : Placed d
  | call {d : Device β α} (placed : Placed d) (change : Change β α) : Placed (change.apply d)
  | setBase {d : Device β α} (placed : Placed d) (region : String) (base : Nat) :
    Placed (d.setBase region base)

theorem Placed.after [Scalar α] [Precision β α] (placed : d.Placed) (changes : List (Change β α)) :
    (d.after changes).Placed := by
  induction changes generalizing d with
  | nil => exact placed
  | cons change rest ih => exact ih (placed.call change)

theorem placed_after [Scalar α] [Precision β α] {name : String} {settings : Settings β}
    (valid : settings.validate.toBool = true) (changes : List (Change β α)) :
    Placed (Device.after { name, settings } changes) :=
  (Placed.created (create_of_valid valid)).after changes

theorem Placed.transfers [Scalar α] [Precision β α] (placed : d.Placed) : d.Transfers := by
  induction placed with
  | created made =>
    have coherent := coherent_create made
    unfold create at made
    split at made
    · cases made
      exact .of_idle coherent.built rfl
    · cases made
  | call _ change ih => exact (change.effects _).invariant Transfers.effect ih
  | setBase _ region base ih =>
    have mesh : ∀ r : Region β α, { r with base }.mesh = r.mesh := fun _ => rfl
    exact ih.changeRegion mesh (fun _ keyed => keyed) region

/-! ## Steady passes -/

section

variable [Scalar α] {select : Selector} {out out' : Records α}

/-- What a steady pass appends for the flow: the shares of the boundary equations, continuous ones left
out, and the moved records of the bulk equations. -/
def flowRecords (d : Device β α) (select : Selector) (out : Records α) : Records α :=
  (Records.join (((d.boundaries.zip (d.boundaryShares select .steady out)).filter
    fun x => !x.1.isContinuous).map (·.2))).append (d.bulkShare select .steady out)

def crossed (d : Device β α) (select : Selector) (p : Parts β α) : Records α :=
  .join (d.bulkEquations.map fun x =>
    (p.regions.get? x.1).elim {} fun r => x.2.crossed d.settings.measures select r)

variable [ExactScalar α] (numeric : select ≠ .rows)

include numeric

/-- What a boundary equation appends is balanced, if it is a flux between equal areas. -/
theorem assembles_step (d : Device β α) (b : Boundary β) :
    Parts.Assembles (b.step d select .steady) fun p records => match b with
      | .contact .. => True
      | .interface name e mask => e.coupling = .flux → p.Apart →
          p.EqualAreas d.settings.measures name mask → records.Balanced := by
  cases b with
  | contact region e mask =>
    exact (Parts.assembles_onRegion (e.writes_assemble numeric)).mono fun _ _ _ => trivial
  | interface name e mask =>
    refine (Parts.assembles_onCoupled (e.writes_assemble numeric)).mono ?_
    rintro p records (rfl | ⟨j, found, joined⟩) flux apart equal
    · exact .empty
    obtain ⟨c, geometry, regions, start0, start1, -, -, complete, incomplete⟩ := joined (apart name j found)
    by_cases here : e.Complete d.settings.measures c
    · rw [complete here]
      refine InterfaceEquation.balanced_records flux fun pair active => ?_
      have areas := equal j found pair (geometry ▸ active)
      rwa [Parts.area?, Parts.area?, show p.regions.get? j.geometry.region0 = _ from regions .first,
        show p.regions.get? j.geometry.region1 = _ from regions .second] at areas
    · rw [incomplete here]
      exact .empty

/-- In a steady pass that succeeds, what the boundary equations append, share by share. -/
theorem balanced_shares {s : PassState (Parts β α) α} (moves : d.MovesOnly)
    (ran : d.boundaryPass select .steady (d.passState out) = (.ok (), s)) {p : Parts β α}
    (reads : Parts.Reads s.owner p) (apart : d.parts.Apart)
    (equal : ∀ x ∈ d.ownedPairs, x.2.1.coupling = .flux →
      p.EqualAreas d.settings.measures x.1 x.2.2) :
    s.out = out.append (.join (d.boundaryShares select .steady out)) ∧
      List.Forall₂ (fun b share => b.isContinuous = false → share.Balanced) d.boundaries
        (d.boundaryShares select .steady out) := by
  rw [boundaryPass_eq] at ran
  obtain ⟨before, appended, all⟩ := Parts.Assembles.shares (fun b _ => assembles_step numeric d b) ran
  refine ⟨appended, ((List.forall₂_and_left _ _).mpr ⟨fun _ => id, all⟩).imp ?_⟩
  rintro b share ⟨member, holds⟩ flow
  obtain ⟨x, inside, rfl, coupling⟩ := moves.of_mem_boundaries member
  have flux : x.2.1.coupling = .flux := by
    revert coupling flow
    cases h : x.2.1.coupling <;> simp [Boundary.isContinuous, h]
  exact holds p reads flux (apart.of_reads (before.trans reads)) (equal x inside flux)

theorem bulk_eq_crossed {s s' : PassState (Parts β α) α}
    (fluxes : ∀ x ∈ d.bulkEquations, x.2.models.FluxOnly)
    (ran : d.bulkPass select .steady s = (.ok (), s')) :
    Parts.Reads s.owner s'.owner ∧ s'.out = s.out.append (d.crossed select s'.owner) := by
  have step : ∀ x ∈ d.bulkEquations, Parts.Assembles
      (discard (Parts.onRegion x.1 (x.2.assemble d.settings select .steady)))
      fun (p : Parts β α) records => records =
        (p.regions.get? x.1).elim {} fun r => x.2.crossed d.settings.measures select r := by
    intro x member
    refine (Parts.assembles_onRegion (x.2.writes_crossed (fluxes x member) numeric)).mono ?_
    rintro p records (⟨missing, rfl⟩ | ⟨r, found, rfl⟩)
    · rw [missing, Option.elim_none]
    · rw [found, Option.elim_some]
  obtain ⟨before, appended, all⟩ := Parts.Assembles.shares step ran
  have held := all.imp fun x share holds => (holds s'.owner (.refl _)).symm
  have shares : d.bulkEquations.map (fun x => (s'.owner.regions.get? x.1).elim {} fun r =>
      x.2.crossed d.settings.measures select r) = _ :=
    List.forall₂_eq_eq_eq ▸ List.forall₂_map_left_iff.mpr held
  exact ⟨before, by rw [appended, crossed, shares]⟩

omit numeric in
theorem balanced_crossed (p : Parts β α) : (d.crossed select p).Balanced := by
  refine .join fun part member => ?_
  obtain ⟨x, -, rfl⟩ := List.mem_map.mp member
  cases p.regions.get? x.1 with
  | none => exact .empty
  | some r => exact x.2.balanced_crossed

/-- On a closed device, a steady pass that succeeds appends the shares of the boundary equations and
what crosses the entities of the regions, on the rows where it lands. With continuous interface
equations left out, and between equal areas, every quantity sums to zero over all rows. -/
theorem fluxes_are_conserved [Precision β α] (placed : d.Placed) (closed : d.Closed)
    (ran : d.assemble select .steady out = (.ok (), d', out'))
    (equal : ∀ x ∈ d.ownedPairs, x.2.1.coupling = .flux →
      d'.parts.EqualAreas d.settings.measures x.1 x.2.2) :
    out' = out.append ((Records.join (d.boundaryShares select .steady out)).append
      (d.bulkShare select .steady out)) ∧
    (d.boundaryShares select .steady out).length = d.boundaries.length ∧
    d.bulkShare select .steady out = (d.crossed select d'.parts).permute d.rows ∧
    ∀ q, (d.flowRecords select out).total q = 0 := by
  obtain ⟨stage, ran⟩ := assemble_eq_ok numeric ran
  obtain ⟨s, boundary, appended⟩ := numericPass_eq_ok ran
  obtain ⟨s', bulk, bulkOut, parts⟩ := bulkPass_eq_ok ran boundary
  obtain ⟨reads, crossing⟩ := bulk_eq_crossed numeric closed.fluxes bulk
  obtain ⟨boundaryOut, balanced⟩ :=
    balanced_shares numeric closed.movesOnly boundary (parts ▸ reads) placed.transfers.apart equal
  have share : d.bulkShare select .steady out = (d.crossed select d'.parts).permute d.rows := by
    rw [bulkShare_eq numeric, ← bulkOut, crossing, parts, Records.empty_append]
  refine ⟨?_, balanced.length_eq.symm, share, Records.Balanced.append (.join fun part member => ?_) ?_⟩
  · rw [appended, boundaryOut, Records.append_assoc]
  · obtain ⟨⟨b, part⟩, inside, rfl⟩ := List.mem_map.mp member
    obtain ⟨paired, flow⟩ := List.mem_filter.mp inside
    exact List.forall₂_zip balanced paired (by simpa using flow)
  · rw [share]
    exact (balanced_crossed d'.parts).permute (placed.transfers.transfers _ stage closed.movesOnly)

end

/-- Two regions that meet at both ends, by a flux and by a continuous equation: what the edges and the
flux append sums to zero, and what the continuous equation appends does not. -/
theorem fluxes_are_conserved_around_ring :
    let mesh : Mesh ℚ := ⟨.segment, #[⟨0, 0, 0⟩, ⟨1, 0, 0⟩], #[⟨0, 1⟩], #[]⟩
    let e : BulkEquation ℚ := { name := "e", variableName := "u", models := { edge := "f" } }
    let near : InterfaceEquation :=
      { name := "near", name0 := "e", name1 := "e", model := "m", coupling := .flux }
    let far : InterfaceEquation := { name := "far", name0 := "e", name1 := "e", model := "m" }
    let d : Device ℚ ℚ := after { name := "device", settings := {} }
      [.addRegion "left" mesh, .addRegion "right" mesh, .addEquation "left" e, .addEquation "right" e,
        .region "left" (.setUniform .edge "EdgeCouple" 1),
        .region "right" (.setUniform .edge "EdgeCouple" 1),
        .region "left" (.setUniform .edge "f" 2), .region "right" (.setUniform .edge "f" 7),
        .region "left" (.setUniform .edge "f:u@n0" (-3)), .region "left" (.setUniform .edge "f:u@n1" 3),
        .region "left" (.setUniform .node "SurfaceArea" 5),
        .region "right" (.setUniform .node "SurfaceArea" 5),
        .addInterface "near" "left" "right" [(1, 0)], .addInterface "far" "left" "right" [(0, 1)],
        .interface "near" (.setUniform "m" 11), .interface "far" (.setUniform "m" 13),
        .addInterfaceEquation "near" near, .addInterfaceEquation "far" far, .claimRows]
    (∃ d' out', d.assemble .both .steady {} = (.ok (), d', out') ∧ out'.total .residual = 13) ∧
    (d.flowRecords .both {}).rows = [0, 1, 0, 1, 1, 2, 0, 1, 2, 0] ∧
    ∀ q, (d.flowRecords .both {}).total q = 0 := by
  intro mesh e near far d
  have placed : d.Placed := placed_after (by decide +kernel) _
  have closed : d.Closed := by
    refine ⟨by decide +kernel, fun x member => ?_, by decide +kernel⟩
    have models : x.2.models = { edge := "f" } := by
      revert x
      decide +kernel
    rw [models]
    exact ⟨rfl, rfl, rfl, rfl⟩
  have succeeds : (d.assemble .both .steady {}).1.toBool = true := by decide +kernel
  have total : (d.assemble .both .steady {}).2.2.total .residual = 13 := by decide +kernel
  have rows : (d.flowRecords .both {}).rows = [0, 1, 0, 1, 1, 2, 0, 1, 2, 0] := by decide +kernel
  have equal : ∀ x ∈ d.ownedPairs, ∀ j ∈ (d.assemble .both .steady {}).2.1.parts.junctions.get? x.1,
      ∀ pair ∈ j.geometry.activePairs x.2.2,
        (d.assemble .both .steady {}).2.1.parts.area? d.settings.measures j.geometry.region0 pair.1 =
          (d.assemble .both .steady {}).2.1.parts.area? d.settings.measures j.geometry.region1 pair.2 := by
    decide +kernel
  clear_value d
  obtain ⟨⟨⟩, ⟨d', out'⟩, ran⟩ := exists_eq_ok_of_toBool succeeds
  rw [ran] at total equal
  obtain ⟨-, -, -, conserved⟩ := fluxes_are_conserved (by decide) placed closed ran
    fun x member _ j found pair active => equal x member j found pair active
  exact ⟨⟨d', out', ran, total⟩, rows, conserved⟩

end Device

end FiniteVolume
