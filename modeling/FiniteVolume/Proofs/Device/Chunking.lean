import FiniteVolume.Proofs.Device.Invariant
import FiniteVolume.Proofs.Equation.Chunking

/-!
How vectors are divided is no matter for passes.

A pass over parts does the same to the parts under another division of vectors (`Parts.mirrors`). So claims
and passes of a device under another division (`Device.rechunk`) end alike and give the same records
(`Device.assemble_rechunk`), as long as models are calculated alike (`Device.Neutral`).
-/
namespace FiniteVolume

open Pass

variable {β α : Type}

/-! ## Parts -/

namespace Parts

/-- The same parts under another division of vectors. -/
def rechunk (c : Chunking) (p : Parts β α) : Parts β α where
  regions := p.regions.mapEntries fun _ => Region.rechunk c
  junctions := p.junctions.mapEntries fun _ => Junction.rechunk c

/-- Models of regions and interfaces are calculated alike however vectors are divided. -/
abbrev Neutral (p : Parts β α) : Prop := p.All Region.Neutral Junction.Neutral

section

variable (c : Chunking) (p : Parts β α) (name : String) (r : Region β α) (j : Junction β α)

theorem get?_regions_rechunk :
    (p.rechunk c).regions.get? name = (p.regions.get? name).map (Region.rechunk c) :=
  Table.get?_mapEntries ..

theorem get?_junctions_rechunk :
    (p.rechunk c).junctions.get? name = (p.junctions.get? name).map (Junction.rechunk c) :=
  Table.get?_mapEntries ..

theorem contains_regions_rechunk : (p.rechunk c).regions.contains name = p.regions.contains name := by
  rw [Table.contains, get?_regions_rechunk, Option.isSome_map, Table.contains]

theorem contains_junctions_rechunk :
    (p.rechunk c).junctions.contains name = p.junctions.contains name := by
  rw [Table.contains, get?_junctions_rechunk, Option.isSome_map, Table.contains]

theorem setRegion_rechunk :
    (p.rechunk c).setRegion name (r.rechunk c) = (p.setRegion name r).rechunk c :=
  congrArg (Parts.mk · (p.rechunk c).junctions) (Table.modify_mapEntries p.regions name r _)

theorem setJunction_rechunk :
    (p.rechunk c).setJunction name (j.rechunk c) = (p.setJunction name j).rechunk c :=
  congrArg (Parts.mk (p.rechunk c).regions) (Table.modify_mapEntries p.junctions name j _)

theorem coupled?_rechunk : (p.rechunk c).coupled? name =
    (p.coupled? name).map (·.recast c (Region.rechunk c)) := by
  simp only [coupled?, get?_junctions_rechunk, get?_regions_rechunk]
  cases p.junctions.get? name with
  | none => rfl
  | some j =>
    have geometry : (j.rechunk c).geometry = j.geometry := rfl
    simp only [Option.map_some, Option.bind_eq_bind, Option.bind_some, geometry]
    cases p.regions.get? j.geometry.region0 with
    | none => rfl
    | some r0 => cases p.regions.get? j.geometry.region1 <;> rfl

theorem setCoupled_rechunk (k : Coupled β α) :
    (p.rechunk c).setCoupled name (k.recast c (Region.rechunk c)) = (p.setCoupled name k).rechunk c := by
  change (((p.rechunk c).setRegion _ (k.region0.rechunk c)).setRegion _ (k.region1.rechunk c)).setJunction
    name (k.junction.rechunk c) = _
  rw [setRegion_rechunk, setRegion_rechunk, setJunction_rechunk]
  rfl

theorem mapRegions_rechunk {f : Region β α → Region β α}
    (commutes : ∀ r, f (r.rechunk c) = (f r).rechunk c) :
    (p.rechunk c).mapRegions f = (p.mapRegions f).rechunk c := by
  refine congrArg (Parts.mk · (p.rechunk c).junctions) ?_
  simp only [rechunk, mapRegions, Table.mapEntries_mapEntries, commutes]

theorem blocks_rechunk : (p.rechunk c).blocks = p.blocks := List.map_map ..

theorem rowCount_rechunk : (p.rechunk c).rowCount = p.rowCount := by
  rw [rowCount_eq, blocks_rechunk, rowCount_eq]

theorem renumber_rechunk : (p.rechunk c).renumber = p.renumber.rechunk c := by
  refine congrArg (Parts.mk · (p.rechunk c).junctions) ?_
  simp only [rechunk, renumber, Table.mapEntries_mapEntries]
  have same : (p.rechunk c).rowsBefore = p.rowsBefore := funext fun name => by
    rw [rowsBefore_eq, blocks_rechunk, rowsBefore_eq]
  exact congrArg p.regions.mapEntries (funext fun name => funext fun r => by
    exact congrArg (fun base => { r.rechunk c with base }) (congrFun same name))

theorem contactRegion?_rechunk : (p.rechunk c).contactRegion? = p.contactRegion? := by
  funext contact
  unfold contactRegion?
  rw [show (p.rechunk c).regions.toList = p.regions.toList.map fun x => (x.1, x.2.rechunk c) from rfl,
    List.find?_map, Option.map_map]
  rfl

end

end Parts

/-! ## Passes -/

variable [BaseScalar β]

section

variable [Scalar α] {settings : Settings β} {may : Effect → Prop} {ρ : Type} {a : Pass (Parts β α) α ρ}
  (c : Chunking)

theorem Parts.RunsOn.mirrors (runs : RunsOn settings may ρ a) : Mirrors (rechunk c) Neutral a := by
  cases runs with
  | region name composed =>
    rw [onRegion_eq]
    exact (Region.mirrors c composed).onPart? (get?_regions_rechunk c · name)
      (setRegion_rechunk c · name) (fun _ _ neutral => neutral.regions name _) fun _ _ neutral =>
        neutral.setRegion
  | coupled name composed =>
    rw [onCoupled_eq]
    refine (Coupled.mirrors c composed).onPart? (coupled?_rechunk c · name) (setCoupled_rechunk c · name)
      (fun _ _ neutral found => ?_) fun _ _ neutral kept => neutral.setCoupled kept.regions kept.interface
    exact ⟨(neutral.coupled found).1, (neutral.coupled found).2⟩

/-- What a pass does to parts, it does to the parts under another division of vectors. -/
theorem Parts.mirrors (composed : Composed (Parts.rules settings may) may a) :
    Mirrors (rechunk c) Neutral a :=
  composed.mirrors (fun _ => trivial) fun _ _ => RunsOn.mirrors c

end

/-! ## Devices -/

namespace Device

variable {d : Device β α} (c : Chunking)

/-- The same device under another division of vectors. -/
def rechunk (d : Device β α) : Device β α :=
  { d with settings := d.settings.rechunk c, parts := d.parts.rechunk c }

/-- Models of regions and interfaces are calculated alike however vectors are divided. -/
abbrev Neutral (d : Device β α) : Prop := d.parts.Neutral

/-! ### Ownership -/

section

variable (d : Device β α)

theorem contactMask_rechunk : (d.rechunk c).contactMask = d.contactMask := by
  funext region e
  unfold contactMask
  rw [rechunk, Parts.get?_regions_rechunk]
  cases d.parts.regions.get? region <;> rfl

theorem claimedByContact_rechunk : (d.rechunk c).claimedByContact = d.claimedByContact := by
  funext region node equation
  unfold claimedByContact
  rw [rechunk, Parts.get?_regions_rechunk]
  cases d.parts.regions.get? region <;> rfl

theorem claimedByInterface_rechunk : (d.rechunk c).claimedByInterface = d.claimedByInterface := by
  funext before region node equation
  unfold claimedByInterface
  simp only [rechunk, Parts.get?_junctions_rechunk, Option.any_map]
  rfl

theorem interfaceMask_rechunk : (d.rechunk c).interfaceMask = d.interfaceMask := by
  funext before name e
  unfold interfaceMask
  rw [claimedByContact_rechunk, claimedByInterface_rechunk, rechunk, Parts.get?_junctions_rechunk]
  cases d.parts.junctions.get? name <;> rfl

theorem ownedNodes_rechunk : (d.rechunk c).ownedNodes = d.ownedNodes := by
  unfold ownedNodes
  rw [contactMask_rechunk]
  rfl

theorem ownedPairs_rechunk : (d.rechunk c).ownedPairs = d.ownedPairs := by
  unfold ownedPairs
  rw [interfaceMask_rechunk]
  rfl

theorem layout_rechunk : (d.rechunk c).layout = d.layout := by
  simp only [layout, rechunk, Parts.rechunk, Table.values, Table.mapEntries, List.map_map]
  rfl

theorem renumber_rechunk : (d.rechunk c).renumber = d.renumber.rechunk c := by
  simp only [renumber, rechunk, Parts.renumber_rechunk, Parts.rowCount_rechunk]
  rfl

theorem checkLayout_rechunk : (d.rechunk c).checkLayout = d.checkLayout.rechunk c := by
  unfold checkLayout
  rw [layout_rechunk, renumber_rechunk]
  cases stage : d.stage with
  | idle => simp only [rechunk, stage]
  | claimed layout =>
    simp only [show (d.rechunk c).stage = .claimed layout from stage]
    split <;> rfl

end

variable [Scalar α]

/-! ### Assembly -/

section

variable (d : Device β α) (select : Selector) (time : TimeMode)

theorem boundaryPass_rechunk : (d.rechunk c).boundaryPass select time = d.boundaryPass select time := by
  unfold boundaryPass
  rw [ownedNodes_rechunk, ownedPairs_rechunk]
  simp only [rechunk, ContactEquation.assemble_rechunk, InterfaceEquation.assemble_rechunk]

theorem bulkPass_rechunk : (d.rechunk c).bulkPass select time = d.bulkPass select time := by
  unfold bulkPass
  simp only [rechunk, BulkEquation.assemble_rechunk]

end

omit [Scalar α] in
theorem run_rechunk {ρ : Type} {step : Pass (Parts β α) α ρ}
    (mirrors : Mirrors (Parts.rechunk c) Parts.Neutral step) (neutral : d.Neutral) (out : Records α) :
    (d.rechunk c).run out step = Prod.map id (Prod.map (rechunk c) id) (d.run out step) := by
  rw [(d.rechunk c).run_eq out (mirrors (d.passState out) neutral).1, d.run_eq out Prod.mk.eta.symm]
  rfl

variable [Precision β α]

theorem lasting_neutral : Lasting (fun _ => True) Calculator.Neutral (Region.Neutral : Region β α → Prop)
    Junction.Neutral := lasting_uses Calculator.neutral_ofExpr

theorem parametric_neutral : Parametric Calculator.Neutral (Region.Neutral : Region β α → Prop)
    Junction.Neutral := lasting_neutral.toParametric

section

variable (neutral : d.Neutral)

include neutral

theorem claimRows_rechunk : (d.rechunk c).claimRows = Prod.map id (rechunk c) d.claimRows := by
  have kept : d.prepared.Neutral := all_renumber parametric_neutral neutral
  have ran := run_rechunk c (Parts.mirrors c (d.prepared.composed_claims .steady)) kept {}
  unfold claimRows
  rw [renumber_rechunk, show { d.renumber.rechunk c with rows := ∅ } = d.prepared.rechunk c from rfl,
    show { d.renumber with rows := ∅ } = d.prepared from rfl]
  dsimp only
  rw [boundaryPass_rechunk, ran]
  rcases d.prepared.run {} (d.prepared.boundaryPass .rows .steady) with ⟨e | ⟨⟩, d', out⟩
  · cases e <;> rfl
  · dsimp only [Prod.map, id]
    rw [layout_rechunk]
    rfl

theorem numericPass_rechunk {select : Selector} (numeric : select ≠ .rows) (time : TimeMode)
    (out : Records α) : (d.rechunk c).numericPass select time out =
      Prod.map id (Prod.map (rechunk c) id) (d.numericPass select time out) := by
  have boundary := run_rechunk c (Parts.mirrors c (d.composed_boundaryPass time numeric)) neutral out
  have kept := all_run parametric_neutral neutral (d.composed_boundaryPass time numeric) out
  unfold numericPass
  rw [boundaryPass_rechunk, boundary]
  rcases ran : d.run out (d.boundaryPass select time) with ⟨e | ⟨⟩, d₁, out₁⟩
  · rfl
  · rw [ran] at kept
    dsimp only [Prod.map, id]
    rw [bulkPass_rechunk, run_rechunk c (Parts.mirrors c (d₁.composed_bulkPass time numeric)) kept]
    rcases d₁.run {} (d₁.bulkPass select time) with ⟨e | ⟨⟩, d₂, bulk⟩ <;> rfl

/-- A pass gives the same records. -/
theorem assemble_rechunk (select : Selector) (time : TimeMode) (out : Records α) :
    (d.rechunk c).assemble select time out =
      Prod.map id (Prod.map (rechunk c) id) (d.assemble select time out) := by
  unfold assemble
  rw [claimRows_rechunk c neutral, checkLayout_rechunk]
  split
  · rfl
  next numeric =>
    dsimp only
    rw [show (d.checkLayout.rechunk c).stage = d.checkLayout.stage from rfl]
    cases d.checkLayout.stage with
    | idle => rfl
    | claimed =>
      exact numericPass_rechunk c (all_checkLayout parametric_neutral neutral) numeric time out

theorem assembleCycle_rechunk (select : Selector) (time : TimeMode) (out : Records α) :
    (d.rechunk c).assembleCycle select time out =
      Prod.map id (Prod.map (rechunk c) id) (d.assembleCycle select time out) := by
  have kept := all_claimRows parametric_neutral neutral
  unfold assembleCycle
  rw [claimRows_rechunk c neutral]
  rcases ran : d.claimRows with ⟨e | ⟨⟩, d'⟩
  · rfl
  · rw [ran] at kept
    exact assemble_rechunk c kept select time out

end

end Device

end FiniteVolume
