import FiniteVolume.Equation.Contact
import FiniteVolume.Equation.Interface
import FiniteVolume.Proofs.Assembly.Selection
import FiniteVolume.Proofs.Model.Reading

/-!
What the equations consist of.

The terms of an equation over a region, and with them bulk and contact equations, read models of the
region only (`Region.ReadsModel`); an interface equation reads models of the interface, and its surface
areas are steps over the two regions (`Coupled.ReadsModel`). Each is one family of steps for all kinds of
numeric passes (`BulkEquation.splits_assemble`, `ContactEquation.splits_assemble`,
`InterfaceEquation.splits_assemble`).
-/
namespace FiniteVolume

open Pass

variable {β α : Type} [BaseScalar β] [Scalar α]

/-! ## Rules -/

def Settings.Refuses (settings : Settings β) : AssemblyError → Prop
  | .missingModel .. => settings.missingModel = .fatal
  | .missingEquation .. | .missingCircuitNode .. => True
  | _ => False

omit [Scalar α] in
theorem Settings.isComplaint_of_refuses {settings : Settings β} {e : AssemblyError}
    (refuses : settings.Refuses e) : e.IsComplaint := by
  cases e <;> trivial

inductive Region.ReadsModel : ∀ ρ : Type, RegionPass β α ρ → Prop
  | fetch (site : Site β) (d : Domain) (name : String) : ReadsModel _ (Term.fetch site d name)

/-- The same declarations, however vectors are divided. -/
def Region.Resembles (r r' : Region β α) : Prop := ∃ c, r'.uncached = { r.uncached with chunking := c }

def Region.rules (settings : Settings β) : Rules (Region β α) α where
  Alike := Resembles
  refl r := ⟨r.chunking, rfl⟩
  Reads := ReadsModel
  Refuses := settings.Refuses
  complaint _ := Settings.isComplaint_of_refuses

inductive Coupled.ReadsModel (settings : Settings β) : ∀ ρ : Type, CoupledPass β α ρ → Prop
  | read (site : Site β) (name : String) : ReadsModel settings _ (InterfaceEquation.read site name)
  | onRegion {ρ : Type} (side : Side) {step : RegionPass β α ρ}
    (composed : Composed (Region.rules settings) nothing step) :
    ReadsModel settings ρ (Pass.onPart (·.region side) (·.setRegion side ·) step)

/-- The same declarations at an interface, as far as equations look at them. -/
structure Coupled.Alike (c c' : Coupled β α) : Prop where
  scope : c'.junction.scope = c.junction.scope
  geometry : c'.junction.geometry = c.junction.geometry
  models : c'.junction.models.contains = c.junction.models.contains
  regions : ∀ side, (c.region side).Resembles (c'.region side)

def Coupled.rules (settings : Settings β) : Rules (Coupled β α) α where
  Alike := Alike
  refl c := ⟨rfl, rfl, rfl, fun side => ⟨(c.region side).chunking, rfl⟩⟩
  Reads := ReadsModel settings
  Refuses := settings.Refuses
  complaint _ := Settings.isComplaint_of_refuses

/-! ## Terms -/

namespace Region.Resembles

variable {r r' : Region β α}

omit [BaseScalar β] [Scalar α] in
theorem of_uncached_eq (same : r'.uncached = r.uncached) : Resembles r r' := ⟨r.chunking, same⟩

variable (same : Resembles r r')

include same

omit [BaseScalar β] [Scalar α]

/-- What depends neither on cached values nor on how vectors are divided. -/
theorem eq {τ : Type} {f : Region β α → τ} (uncached : ∀ r, f r.uncached = f r)
    (divided : ∀ r c, f { r with chunking := c } = f r) : f r' = f r := by
  obtain ⟨c, same⟩ := same
  rw [← uncached r', same, divided, uncached]

theorem mesh : r'.mesh = r.mesh := same.eq (fun _ => rfl) fun _ _ => rfl

theorem scope : r'.scope = r.scope := same.eq (f := Region.scope) (fun _ => rfl) fun _ _ => rfl

theorem name : r'.name = r.name := same.eq (fun _ => rfl) fun _ _ => rfl

theorem contains : r'.models.contains = r.models.contains :=
  same.eq (f := fun r => r.models.contains) (fun r => contains_of_uncached_eq r.uncached_uncached)
    fun _ _ => rfl

theorem firstRow? : r'.firstRow? = r.firstRow? :=
  same.eq (f := Region.firstRow?) (fun _ => rfl) fun _ _ => rfl

theorem equationFor? : r'.equationFor? = r.equationFor? :=
  same.eq (f := Region.equationFor?) (fun _ => rfl) fun _ _ => rfl

theorem variableNames : r'.variableNames = r.variableNames :=
  same.eq (f := Region.variableNames) (fun _ => rfl) fun _ _ => rfl

end Region.Resembles

namespace Term

variable {site : Site β} {may : Effect → Prop} {d : Domain} {name model : String} {f : Flux} {rows : Rows}
  {circuit : Option CircuitColumn}

theorem composed_missing {severity : Severity}
    (chosen : severity = .fatal → site.settings.missingModel = .fatal) :
    Composed (Region.rules site.settings) may (missing site d name severity : RegionPass β α Unit) :=
  .reportOr chosen (.pure ()) _ _

theorem composed_fetch :
    Composed (Region.rules site.settings) may (fetch site d name : RegionPass β α (Field α)) :=
  .read (.fetch site d name)

theorem composed_optional : Composed (Region.rules site.settings) may
    (optional site d name : RegionPass β α (Option (Field α))) := by
  refine .look (fun s s' alike => ?_) fun s => ?_
  · rw [Region.Resembles.contains alike]
  · split
    · exact composed_fetch.bind fun _ => .pure _
    · exact .pure none

theorem composed_required (site : Site β) : Composed (Region.rules site.settings) may
    (required site d name : RegionPass β α (Option (Field α))) := by
  refine composed_optional.bind fun found => ?_
  cases found with
  | some data => exact .pure _
  | none => exact (composed_missing id).bind fun _ => .pure none

theorem composed_firstColumn : Composed (Region.rules site.settings) may
    (firstColumn site name : RegionPass β α Nat) := by
  refine .look (fun s s' alike => ?_) fun s => ?_
  · dsimp only
    rw [Region.Resembles.equationFor? alike, Region.Resembles.firstRow? alike]
  · dsimp only
    split
    · exact .pure _
    · exact .refuse (e := .missingEquation ..) trivial _ _

theorem composed_weighted {measure values : Field α} : Composed (Region.rules site.settings) may
    (weighted site measure values name : RegionPass β α (Array α)) := by
  unfold weighted
  split
  · exact .pure _
  · exact .fault _ _

theorem composed_spread {settings : Settings β} {values : Array α} :
    Composed (Region.rules settings) may
      (spread f rows values : RegionPass β α (List (Contribution α))) :=
  .look (fun s s' alike => by rw [Region.Resembles.mesh alike]) fun _ => .pure _

theorem composed_intoResidual {contributions : List (Contribution α)} {settings : Settings β} :
    Composed (Region.rules settings) (· = .residual)
      (intoResidual contributions : RegionPass β α Unit) :=
  .residual (by rfl) _

theorem composed_intoCorner {start corner : Nat} {contributions : List (Contribution α)}
    {settings : Settings β} : Composed (Region.rules settings) (· = .matrix)
      (intoCorner start corner contributions : RegionPass β α Unit) :=
  .matrix (by rfl) _

theorem composed_intoColumn {column : Nat} {contributions : List (Contribution α)}
    {settings : Settings β} : Composed (Region.rules settings) (· = .matrix)
      (intoColumn column contributions : RegionPass β α Unit) :=
  .matrix (by rfl) _

theorem composed_nodeDerivative {volume : Field α} : Composed (Region.rules site.settings) (· = .matrix)
    (nodeDerivative site rows volume model name : RegionPass β α Unit) := by
  refine composed_optional.bind fun found => ?_
  cases found with
  | none => exact composed_missing nofun
  | some d =>
    exact composed_firstColumn.bind fun _ => composed_weighted.bind fun _ => composed_intoCorner

theorem composed_nodeCircuit {volume : Field α} {column : CircuitColumn} :
    Composed (Region.rules site.settings) (· = .matrix)
      (nodeCircuit site rows volume model column : RegionPass β α Unit) := by
  refine composed_optional.bind fun found => ?_
  cases found with
  | none => exact .pure ()
  | some d => exact composed_weighted.bind fun _ => composed_intoColumn

def nodeResidual (site : Site β) (rows : Rows) (volume : Field α) (model : String) :
    RegionPass β α Unit := do
  if let some values ← required site .node model then
    intoResidual (atNodes rows (← weighted site volume values model))

def nodeMatrix (site : Site β) (rows : Rows) (circuit : Option CircuitColumn) (volume : Field α)
    (model : String) : RegionPass β α Unit := do
  (← get).owner.variableNames.forM (nodeDerivative site rows volume model)
  circuit.toList.forM (nodeCircuit site rows volume model)

theorem node_eq (select : Selector) :
    (node site rows circuit select model : RegionPass β α Unit) =
      required site .node site.settings.measures.nodeVolume >>= fun
        | none => pure ()
        | some volume =>
          (if select.wantsResidual then nodeResidual site rows volume model else pure ()) >>= fun _ =>
            if select.wantsMatrix then nodeMatrix site rows circuit volume model else pure () := by
  refine bind_congr fun found => ?_
  cases found with
  | none => rfl
  | some volume =>
    dsimp only
    split
    · rw [nodeResidual, bind_assoc]
      refine bind_congr fun found => ?_
      cases found with
      | none => exact (pure_bind ..).symm
      | some values => simp only [bind_assoc]; rfl
    · exact (pure_bind ..).symm

theorem splits_node (site : Site β) : Splits (Region.rules site.settings) fun select =>
    (node site rows circuit select model : RegionPass β α Unit) := by
  simp only [node_eq]
  refine .read (composed_required _) fun found => ?_
  cases found with
  | none => exact .skip
  | some volume =>
    refine .seq (.residual ?_) (.matrix ?_)
    · refine (composed_required _).bind fun found => ?_
      cases found with
      | none => exact .pure ()
      | some values => exact composed_weighted.bind fun _ => composed_intoResidual
    · refine .look (fun s s' alike => ?_) fun s =>
        (Composed.forM fun _ => composed_nodeDerivative).bind fun _ => .forM fun _ => composed_nodeCircuit
      rw [Region.Resembles.variableNames alike]

theorem composed_fluxDerivative {measure : Field α} :
    Composed (Region.rules site.settings) (· = .matrix)
      (fluxDerivative site rows measure f name : RegionPass β α Unit) := by
  unfold fluxDerivative
  refine (Composed.mapM fun _ => composed_optional).bind fun derivatives => ?_
  split
  · exact composed_missing nofun
  · refine (Composed.forM fun x => ?_).bind fun _ => composed_firstColumn.bind fun start =>
      .forM fun x => ?_
    · dsimp only
      split
      · exact composed_missing id
      · exact .pure ()
    · obtain ⟨⟨name, _ | d⟩, corner⟩ := x
      · exact .pure ()
      · exact composed_weighted.bind fun _ => composed_spread.bind fun _ => composed_intoCorner

theorem composed_fluxCircuit {measure : Field α} {column : CircuitColumn} :
    Composed (Region.rules site.settings) (· = .matrix)
      (fluxCircuit site rows measure f column : RegionPass β α Unit) := by
  refine composed_optional.bind fun found => ?_
  cases found with
  | none => exact composed_missing nofun
  | some d => exact composed_weighted.bind fun _ => composed_spread.bind fun _ => composed_intoColumn

def fluxResidual (site : Site β) (rows : Rows) (measure : Field α) (f : Flux) :
    RegionPass β α Unit := do
  if let some values ← required site f.domain f.model then
    intoResidual (← spread f rows (← weighted site measure values f.model))

def fluxMatrix (site : Site β) (rows : Rows) (circuit : Option CircuitColumn) (measure : Field α)
    (f : Flux) : RegionPass β α Unit := do
  (← get).owner.variableNames.forM (fluxDerivative site rows measure f)
  circuit.toList.forM (fluxCircuit site rows measure f)

theorem flux_eq (select : Selector) :
    (flux site rows circuit select f : RegionPass β α Unit) =
      required site f.domain f.measure >>= fun
        | none => pure ()
        | some measure =>
          (if select.wantsResidual then fluxResidual site rows measure f else pure ()) >>= fun _ =>
            if select.wantsMatrix then fluxMatrix site rows circuit measure f else pure () := by
  refine bind_congr fun found => ?_
  cases found with
  | none => rfl
  | some measure =>
    dsimp only
    split
    · rw [fluxResidual, bind_assoc]
      refine bind_congr fun found => ?_
      cases found with
      | none => exact (pure_bind ..).symm
      | some values => simp only [bind_assoc]; rfl
    · exact (pure_bind ..).symm

theorem splits_flux : Splits (Region.rules site.settings) fun select =>
    (flux site rows circuit select f : RegionPass β α Unit) := by
  simp only [flux_eq]
  refine .read (composed_required _) fun found => ?_
  cases found with
  | none => exact .skip
  | some measure =>
    refine .seq (.residual ?_) (.matrix ?_)
    · refine (composed_required _).bind fun found => ?_
      cases found with
      | none => exact .pure ()
      | some values =>
        exact composed_weighted.bind fun _ => composed_spread.bind fun _ => composed_intoResidual
    · refine .look (fun s s' alike => ?_) fun s =>
        (Composed.forM fun _ => composed_fluxDerivative).bind fun _ => .forM fun _ => composed_fluxCircuit
      rw [Region.Resembles.variableNames alike]

theorem composed_nodeIntegral {mask : Array Bool} : Composed (Region.rules site.settings) may
    (nodeIntegral site mask model : RegionPass β α α) := by
  refine (composed_required _).bind fun found => ?_
  cases found with
  | none => exact .pure 0
  | some volume =>
    refine (composed_required _).bind fun found => ?_
    cases found with
    | none => exact .pure 0
    | some values => exact composed_weighted.bind fun _ => .pure _

theorem composed_fluxIntegral {mask : Array Bool} : Composed (Region.rules site.settings) may
    (fluxIntegral site mask f : RegionPass β α α) := by
  refine (composed_required _).bind fun found => ?_
  cases found with
  | none => exact .pure 0
  | some measure =>
    refine (composed_required _).bind fun found => ?_
    cases found with
    | none => exact .pure 0
    | some values =>
      refine composed_weighted.bind fun w => .look (fun s s' alike => ?_) fun _ => .pure _
      rw [Region.Resembles.mesh alike]

end Term

/-! ## Equations over a region -/

section

variable {settings : Settings β} {site : Site β} {mask : Array Bool} {time : TimeMode}
  {may : Effect → Prop}

theorem BulkEquation.composed_noSlot {ρ : Type} {scope : Scope} {name : String} :
    Composed (Region.rules settings) may (noSlot scope name : RegionPass β α ρ) :=
  .refuse (e := .missingEquation ..) trivial _ _

theorem BulkEquation.splits_steady (e : BulkEquation β) (site : Site β) {rows : Rows} :
    Splits (Region.rules site.settings) fun select =>
      (e.steady site rows select : RegionPass β α Unit) := by
  refine .seq (.forM fun _ => Term.splits_flux) (.seq (.forM fun _ => Term.splits_node _)
    (.look (fun s s' alike => ?_) fun s => ?_))
  · rw [Region.Resembles.mesh alike]
  · split
    · exact .forM fun _ => Term.splits_flux
    · split
      · exact .quiet (.report (by decide) _ _)
      · exact .skip

/-- A pass for numbers, given the region that the equation looks for its slot in. -/
def BulkEquation.numbers (e : BulkEquation β) (settings : Settings β) (time : TimeMode)
    (r : Region β α) (select : Selector) : RegionPass β α Unit := do
  let scope := e.scope r
  let some start := r.firstRow? e.name | noSlot scope e.name
  let site : Site β := ⟨settings, scope⟩
  match time with
  | .steady => e.steady site (.block start) select
  | .transient => e.models.timeNode.toList.forM (Term.node site (.block start) none select)

theorem BulkEquation.numbers_of_resembles {e : BulkEquation β} {r r' : Region β α}
    (same : r.Resembles r') : e.numbers settings time r' = e.numbers settings time r := by
  unfold numbers scope
  rw [same.firstRow?, same.scope]

theorem BulkEquation.splits_numbers (e : BulkEquation β) (r : Region β α) :
    Splits (Region.rules settings) (e.numbers settings time r) := by
  unfold numbers
  dsimp only
  split
  · cases time with
    | steady => exact e.splits_steady ⟨settings, _⟩
    | transient => exact .forM fun _ => Term.splits_node ⟨settings, _⟩
  · exact .quiet composed_noSlot

/-- The numeric passes of a bulk equation are one family. -/
theorem BulkEquation.splits_assemble (e : BulkEquation β) :
    Splits (Region.rules settings) fun select =>
      (e.assemble settings select time : RegionPass β α Unit) := by
  refine .numeric (.look (f := fun s => e.numbers settings time s.owner)
    (fun s s' alike => numbers_of_resembles alike) fun s => e.splits_numbers _) fun select numeric => ?_
  unfold assemble
  rw [if_pos numeric]
  rfl

theorem CircuitModels.splits_intoCircuit (m : CircuitModels) (site : Site β) {column : CircuitColumn} :
    Splits (Region.rules site.settings) fun select =>
      (m.intoCircuit site mask column select : RegionPass β α Unit) := by
  refine .look (fun s s' alike => ?_) fun s =>
    .seq (.forM fun _ => Term.splits_node _) (.forM fun _ => Term.splits_flux)
  rw [Region.Resembles.mesh alike]

theorem CircuitModels.composed_integral (m : CircuitModels) (site : Site β) :
    Composed (Region.rules site.settings) may (m.integral site mask : RegionPass β α α) := by
  refine .look (fun s s' alike => ?_) fun s => (Composed.mapM fun _ => Term.composed_nodeIntegral).bind
    fun nodes => (Composed.mapM fun _ => Term.composed_fluxIntegral).bind fun fluxes => .pure _
  rw [Region.Resembles.mesh alike]

namespace ContactEquation

variable (e : ContactEquation β) {circuit : Circuit β}

omit [Scalar α] in
theorem scope_of_resembles {e : ContactEquation β} {r r' : Region β α}
    (same : r.Resembles r') : e.scope r' = e.scope r := by
  rw [scope, scope, same.scope]

theorem composed_circuitColumn {scope : Scope} : Composed (Region.rules settings) may
    (e.circuitColumn circuit scope : RegionPass β α (Option CircuitColumn)) := by
  unfold circuitColumn
  split
  · exact .pure none
  · split
    · exact .pure _
    · exact .refuse (e := .missingCircuitNode ..) trivial _ _

theorem splits_steady (site : Site β) {start : Nat} {column : Option CircuitColumn} :
    Splits (Region.rules site.settings) fun select =>
      (e.steady site start mask column select : RegionPass β α Unit) := by
  refine .look (fun s s' alike => ?_) fun s => .seq (.forM fun _ => Term.splits_node _)
    (.seq (.forM fun _ => Term.splits_flux) (.seq (.forM fun _ => Term.splits_flux)
      (.forM fun _ => e.models.current.splits_intoCircuit _)))
  rw [Region.Resembles.mesh alike]

/-- A pass for numbers, given the region that the equation looks for its slot in. -/
def numbers (mask : Array Bool) (circuit : Circuit β) (settings : Settings β) (time : TimeMode)
    (r : Region β α) (select : Selector) : RegionPass β α Unit := do
  let scope := e.scope r
  let some start := r.firstRow? e.name | BulkEquation.noSlot scope e.name
  let column ← e.circuitColumn circuit scope
  let site : Site β := ⟨settings, scope⟩
  match time with
  | .steady => e.steady site start mask column select
  | .transient => column.toList.forM fun c => e.models.charge.intoCircuit site mask c select

theorem numbers_of_resembles {e : ContactEquation β} {r r' : Region β α}
    (same : r.Resembles r') :
    e.numbers mask circuit settings time r' = e.numbers mask circuit settings time r := by
  unfold numbers
  rw [scope_of_resembles same, same.firstRow?]

theorem splits_numbers (r : Region β α) :
    Splits (Region.rules settings) (e.numbers mask circuit settings time r) := by
  unfold numbers
  dsimp only
  split
  · refine .read e.composed_circuitColumn fun column => ?_
    cases time with
    | steady => exact e.splits_steady ⟨settings, _⟩
    | transient => exact .forM fun _ => e.models.charge.splits_intoCircuit ⟨settings, _⟩
  · exact .quiet BulkEquation.composed_noSlot

/-- The numeric passes of a contact equation are one family. -/
theorem splits_assemble : Splits (Region.rules settings) fun select =>
    (e.assemble mask circuit settings select time : RegionPass β α Unit) := by
  refine .numeric (.look (f := fun s => e.numbers mask circuit settings time s.owner)
    (fun s s' alike => numbers_of_resembles alike) fun s => e.splits_numbers _) fun select numeric => ?_
  unfold assemble
  simp only [if_neg numeric]
  rfl

theorem composed_claimRows {start : Nat} : Composed (Region.rules settings) (· = .rows)
    (claimRows start mask : RegionPass β α Unit) :=
  .forM fun _ => .rows (by rfl) _ _

/-- A pass over rows only looks for the slot. -/
theorem composed_assemble_rows : Composed (Region.rules settings) (· = .rows)
    (e.assemble mask circuit settings .rows time : RegionPass β α Unit) := by
  refine .look (fun s s' alike => ?_) fun s => ?_
  · dsimp only
    rw [scope_of_resembles alike, Region.Resembles.firstRow? alike]
  · dsimp only
    split
    · exact composed_claimRows
    · exact BulkEquation.composed_noSlot

theorem composed_integrate [Precision β α] : Composed (Region.rules settings) may
    (e.integrate mask settings : RegionPass β α (ContactEquation β)) := by
  refine .look (fun s s' alike => ?_) fun s =>
    (e.models.current.composed_integral ⟨settings, _⟩).bind fun current =>
      (e.models.charge.composed_integral ⟨settings, _⟩).bind fun charge => .pure _
  rw [scope_of_resembles alike]

end ContactEquation

end

/-! ## Equations over an interface -/

namespace InterfaceEquation

variable (e : InterfaceEquation) {settings : Settings β} {site : Site β} {mask : Array Bool}
  {time : TimeMode} {may : Effect → Prop} {pairs : List PairRows} {area0 area1 : Array α}

omit [BaseScalar β] [Scalar α] in
theorem scope_of_alike {e : InterfaceEquation} {c c' : Coupled β α} (alike : Coupled.Alike c c') :
    e.scope c'.junction = e.scope c.junction := by
  rw [scope, scope, alike.scope]

theorem composed_firstRow {scope : Scope} {side : Side} : Composed (Coupled.rules settings) may
    (e.firstRow scope side : CoupledPass β α Nat) := by
  refine .look (fun s s' (alike : Coupled.Alike s.owner s'.owner) => ?_) fun s => ?_
  · dsimp only
    rw [(alike.regions side).firstRow?,
      (alike.regions side).name]
  · dsimp only
    split
    · exact .pure _
    · exact .refuse (e := .missingEquation ..) trivial _ _

theorem composed_claimRows : Composed (Coupled.rules settings) (· = .rows)
    (e.claimRows pairs : CoupledPass β α Unit) := by
  unfold claimRows
  split
  · exact .pure ()
  · exact .forM fun _ => .rows (by rfl) _ _

theorem composed_area {side : Side} : Composed (Coupled.rules site.settings) may
    (e.area site side : CoupledPass β α (Option (Array α))) := by
  unfold area
  split
  · refine .read (.onRegion side (.look (fun s s' alike => ?_) fun s => ?_))
    · dsimp only
      rw [Region.Resembles.name alike]
    · exact (Term.composed_required
        { site with scope := { site.scope with region := some s.owner.name } }).bind fun _ => .pure _
  · exact .pure _

theorem composed_read {name : String} : Composed (Coupled.rules settings) may
    (read site name : CoupledPass β α (Array α)) := .read (.read site name)

theorem composed_sideDerivatives {side : Side} : Composed (Coupled.rules settings) may
    (e.sideDerivatives site side : CoupledPass β α (List SideDerivative)) := by
  refine .look (fun s s' (alike : Coupled.Alike s.owner s'.owner) => ?_) fun s =>
    (Composed.mapM fun name => ?_).bind fun _ => .pure _
  · dsimp only
    rw [(alike.regions side).variableNames,
      (alike.regions side).equationFor?,
      (alike.regions side).firstRow?, alike.models]
  · dsimp only
    split
    · exact .pure none
    · split
      · exact .pure _
      · exact (Composed.report (by decide) _ _).bind fun _ => .pure none

theorem composed_residual : Composed (Coupled.rules settings) (· = .residual)
    (e.residual site pairs area0 area1 : CoupledPass β α Unit) :=
  composed_read.bind fun _ => .residual (by rfl) _

theorem composed_matrix : Composed (Coupled.rules settings) (· = .matrix)
    (e.matrix site pairs area0 area1 : CoupledPass β α Unit) :=
  e.composed_sideDerivatives.bind fun _ => e.composed_sideDerivatives.bind fun _ =>
    (Composed.mapM fun _ : SideDerivative => composed_read.bind fun _ => .pure _).bind fun _ =>
      .forM fun _ => .matrix (by rfl) _

theorem composed_hasModel : Composed (Coupled.rules site.settings) may
    (e.hasModel site : CoupledPass β α Bool) := by
  refine .look (fun s s' (alike : Coupled.Alike s.owner s'.owner) => ?_) fun s => ?_
  · rw [alike.models]
  · split
    · exact .pure true
    · exact .reportOr (e := .missingModel ..) id (.pure false) _ _

/-- A steady pass for numbers, given where it reports from and the node pairs. -/
def numbers (mask : Array Bool) (site : Site β) (geometry : Interface) (select : Selector) :
    CoupledPass β α Unit := do
  let start0 ← e.firstRow site.scope .first
  let start1 ← e.firstRow site.scope .second
  let pairs := geometry.pairRows mask start0 start1
  match ← e.area site .first, ← e.area site .second with
  | some area0, some area1 =>
    if ← e.hasModel site then
      if select.wantsResidual then e.residual site pairs area0 area1
      if select.wantsMatrix then e.matrix site pairs area0 area1
  | _, _ => return

theorem splits_numbers (site : Site β) {geometry : Interface} : Splits (Coupled.rules site.settings) fun select =>
    (e.numbers mask site geometry select : CoupledPass β α Unit) := by
  refine .read e.composed_firstRow fun start0 => .read e.composed_firstRow fun start1 =>
    .read e.composed_area fun area0 => .read e.composed_area fun area1 => ?_
  cases area0 with
  | none => exact .skip
  | some area0 =>
    cases area1 with
    | none => exact .skip
    | some area1 =>
      refine .read e.composed_hasModel fun present => ?_
      cases present with
      | false => exact .skip
      | true =>
        refine .numeric (.seq
          (.residual (a := e.residual site (geometry.pairRows mask start0 start1) area0 area1)
            e.composed_residual)
          (.matrix (a := e.matrix site (geometry.pairRows mask start0 start1) area0 area1)
            e.composed_matrix)) fun select _ => ?_
        cases select <;> rfl

/-- The numeric passes of an interface equation are one family. -/
theorem splits_assemble : Splits (Coupled.rules settings) fun select =>
    (e.assemble mask settings select time : CoupledPass β α Unit) := by
  refine .numeric (g := fun select => if time = .steady then MonadState.get >>= fun s =>
    e.numbers mask ⟨settings, e.scope s.owner.junction⟩ s.owner.junction.geometry select else pure ())
    ?_ fun select numeric => ?_
  · split
    · refine .look (fun s s' (alike : Coupled.Alike s.owner s'.owner) => ?_) fun s =>
        e.splits_numbers ⟨settings, _⟩
      rw [scope_of_alike alike, alike.geometry]
    · exact .skip
  · unfold assemble
    split
    · refine bind_congr fun s => bind_congr fun start0 => bind_congr fun start1 => ?_
      rfl
    · rfl

/-- A pass over rows only looks for the slots. -/
theorem composed_assemble_rows : Composed (Coupled.rules settings) (· = .rows)
    (e.assemble mask settings .rows time : CoupledPass β α Unit) := by
  unfold assemble
  split
  · refine .look (fun s s' (alike : Coupled.Alike s.owner s'.owner) => ?_) fun s =>
      e.composed_firstRow.bind fun start0 => e.composed_firstRow.bind fun start1 => e.composed_claimRows
    dsimp only
    rw [scope_of_alike alike, alike.geometry]
  · exact .pure ()

end InterfaceEquation

end FiniteVolume
