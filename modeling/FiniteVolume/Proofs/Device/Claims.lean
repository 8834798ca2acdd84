import FiniteVolume.Device.Assembly
import FiniteVolume.Proofs.Device.Ownership

/-!
Rows that boundary equations claim.
-/
namespace FiniteVolume

variable {β α : Type}

/-! ## One equation -/

section

variable [BaseScalar β] [Scalar α] {mask : Array Bool} {settings : Settings β}

def activeIndices (mask : Array Bool) : List Nat := (List.range mask.size).filter (isActive mask)

theorem ContactEquation.claims_assemble (e : ContactEquation β) {circuit : Circuit β} {time : TimeMode} :
    Pass.Claims (e.assemble mask circuit settings .rows time : RegionPass β α Unit)
      (fun r => (r.firstRow? e.name).isSome)
      fun r => (r.firstRow? e.name).toList.flatMap fun start =>
        (activeIndices mask).map fun n => (start + n, .dropped) := by
  unfold assemble
  refine Pass.Claims.bind_get (p := fun (r _ : Region β α) => (r.firstRow? e.name).isSome)
    (c := fun (r _ : Region β α) => (r.firstRow? e.name).toList.flatMap fun start =>
      (activeIndices mask).map fun n => (start + n, .dropped)) fun s => ?_
  dsimp only
  cases slot : s.owner.firstRow? e.name with
  | none =>
    exact .refuse (by simp) (fun _ => rfl) fun _ => ⟨_, rfl⟩
  | some start =>
    change Pass.Claims (claimRows start mask) (fun _ => true = true) _
    unfold claimRows
    refine (Pass.Claims.forM fun n _ => Pass.Claims.claimRow _ _).congr (by simp) fun _ _ => ?_
    simp [activeIndices, List.map_eq_flatMap]

namespace InterfaceEquation

omit [BaseScalar β] [Scalar α] in
theorem finds_firstRow (e : InterfaceEquation) (scope : Scope) (side : Side) :
    Pass.Finds (e.firstRow scope side : CoupledPass β α Nat)
      fun c => (c.region side).firstRow? (e.sideName side) := by
  intro s
  unfold firstRow
  rw [Pass.bind_get]
  dsimp only
  cases slot : (s.owner.region side).firstRow? (e.sideName side) with
  | none => exact .inr ⟨rfl, _, _, rfl, rfl⟩
  | some start => exact .inl ⟨start, rfl, rfl⟩

/-- The rows of region 1 at the pairs, moved onto those of region 0. -/
def rowMoves (e : InterfaceEquation) (i : Interface) (mask : Array Bool) (start0 start1 : Nat) :
    List (Nat × RowMove) :=
  e.coupling.keepsCopy?.toList.flatMap fun keepCopy =>
    (i.activePairs mask).map fun pair => (start1 + pair.2, .moved (start0 + pair.1) keepCopy)

omit [BaseScalar β] [Scalar α] in
theorem claims_claimRows (e : InterfaceEquation) (i : Interface) (start0 start1 : Nat) :
    Pass.Claims (e.claimRows (i.pairRows mask start0 start1) : CoupledPass β α Unit)
      (fun _ => True) fun _ => e.rowMoves i mask start0 start1 := by
  simp only [claimRows, rowMoves, Interface.pairRows, Interface.activePairs]
  cases e.coupling.keepsCopy? with
  | none => exact .skip
  | some keepCopy =>
    refine (Pass.Claims.forM fun p _ => Pass.Claims.claimRow _ _).congr (by simp) fun _ _ => ?_
    simp [List.map_eq_flatMap, PairRows.row, List.flatMap_assoc]

/-- An interface equation moves the rows of region 1 at its pairs onto those of region 0. -/
theorem claims_assemble (e : InterfaceEquation) :
    Pass.Claims (e.assemble mask settings .rows .steady : CoupledPass β α Unit)
      (fun c => ∀ side, ((c.region side).firstRow? (e.sideName side)).isSome)
      fun c => (c.region0.firstRow? e.name0).toList.flatMap fun start0 =>
        (c.region1.firstRow? e.name1).toList.flatMap fun start1 =>
          e.rowMoves c.junction.geometry mask start0 start1 := by
  unfold assemble
  rw [if_pos rfl]
  refine (Pass.Claims.bind_get (p := fun (c o : Coupled β α) =>
    ∃ start0, o.region0.firstRow? e.name0 = some start0 ∧
      ∃ start1, o.region1.firstRow? e.name1 = some start1 ∧ True)
    (c := fun (c o : Coupled β α) => (o.region0.firstRow? e.name0).toList.flatMap fun start0 =>
      (o.region1.firstRow? e.name1).toList.flatMap fun start1 =>
        e.rowMoves c.junction.geometry mask start0 start1)
    fun s => ?_).congr (fun c => ?_) fun _ _ => rfl
  · refine Pass.Claims.bind_find (e.finds_firstRow _ .first) fun start0 => ?_
    refine Pass.Claims.bind_find (e.finds_firstRow _ .second) fun start1 => ?_
    exact e.claims_claimRows s.owner.junction.geometry start0 start1
  · constructor
    · exact fun all => ⟨_, (Option.some_get (all .first)).symm, _, (Option.some_get (all .second)).symm,
        trivial⟩
    · rintro ⟨start0, first, start1, second, -⟩ side
      cases side
      · exact Option.isSome_iff_exists.mpr ⟨start0, first⟩
      · exact Option.isSome_iff_exists.mpr ⟨start1, second⟩

end InterfaceEquation

end

/-! ## All equations -/

/-- A claim on the row of a place: the place that takes over, if any, and whether a copy stays. -/
structure Claim where
  place : Place
  heir : Option (Place × Bool) := none

def Parts.rowAt (p : Parts β α) (x : Place) : Nat := (p.row? x).getD 0

def Claim.entry (p : Parts β α) (c : Claim) : Nat × RowMove :=
  (p.rowAt c.place, c.heir.elim .dropped fun heir => .moved (p.rowAt heir.1) heir.2)

namespace Boundary

def claims [Zero β] (p : Parts β α) : Boundary β → List Claim
  | contact region e mask => (p.regions.get? region).toList.flatMap fun _ =>
      (activeIndices mask).map fun n => ⟨⟨region, e.name, n⟩, none⟩
  | interface name e mask => (p.coupled? name).toList.flatMap fun c =>
      e.coupling.keepsCopy?.toList.flatMap fun keepCopy =>
        (c.junction.geometry.activePairs mask).map fun pair =>
          ⟨e.placeAt c.junction.geometry .second pair,
            some (e.placeAt c.junction.geometry .first pair, keepCopy)⟩

/-- The equation names have slots. -/
def Slotted [Zero β] (p : Parts β α) : Boundary β → Prop
  | contact region e _ => ∀ r ∈ p.regions.get? region, (r.firstRow? e.name).isSome
  | interface name e _ => ∀ c ∈ p.coupled? name, ∀ side,
      ((c.region side).firstRow? (e.sideName side)).isSome

variable [BaseScalar β] [Scalar α]

/-- What a boundary equation does in a pass over a device. -/
def step (d : Device β α) (select : Selector) (time : TimeMode) :
    Boundary β → Pass (Parts β α) α Unit
  | contact region e mask =>
    discard (Parts.onRegion region (e.assemble mask d.circuit d.settings select time))
  | interface name e mask =>
    discard (Parts.onCoupled name (e.assemble mask d.settings select time))

theorem claims_step (d : Device β α) (b : Boundary β) :
    Pass.Claims (b.step d .rows .steady) b.Slotted fun p => (b.claims p).map (Claim.entry p) := by
  cases b with
  | contact region e mask =>
    refine (Parts.claims_onRegion e.claims_assemble).congr (fun _ => Iff.rfl) fun p slots => ?_
    cases found : p.regions.get? region with
    | none => simp [claims, found]
    | some r =>
      obtain ⟨start, slot⟩ := Option.isSome_iff_exists.mp (slots r found)
      simp [claims, found, slot, Claim.entry, Parts.rowAt, Parts.row?, Region.row?_eq]
  | interface name e mask =>
    refine (Parts.claims_onCoupled e.claims_assemble).congr (fun _ => Iff.rfl) fun p slots => ?_
    cases found : p.coupled? name with
    | none => simp [claims, found]
    | some c =>
      obtain ⟨start0, first⟩ := Option.isSome_iff_exists.mp (slots c found .first)
      obtain ⟨start1, second⟩ := Option.isSome_iff_exists.mp (slots c found .second)
      have regions := (Parts.coupled?_eq_some_iff.mp found).2
      have row : ∀ side start, (c.region side).firstRow? (e.sideName side) = some start → ∀ pair,
          p.rowAt (e.placeAt c.junction.geometry side pair) =
            start + Interface.nodeOf side pair := by
        intro side start slot pair
        simp [Parts.rowAt, Parts.row?, InterfaceEquation.placeAt, regions side, Region.row?_eq, slot]
      simp only [claims, InterfaceEquation.rowMoves, found, Option.toList_some,
        List.flatMap_singleton, List.map_flatMap, List.map_map]
      rw [show c.region0.firstRow? e.name0 = _ from first,
        show c.region1.firstRow? e.name1 = _ from second]
      simp only [Option.toList_some, List.flatMap_singleton, Function.comp_def, Claim.entry,
        Option.elim_some, row .first start0 first, row .second start1 second]
      rfl

end Boundary

namespace Device

variable [BaseScalar β] [Scalar α] (d : Device β α)

theorem boundaryPass_eq (select : Selector) (time : TimeMode) :
    d.boundaryPass select time = d.boundaries.forM (Boundary.step d select time) := by
  change _ = forM (d.ownedNodes.map _ ++ d.ownedPairs.map _) (Boundary.step d select time)
  rw [List.forM_append, List.forM_map, List.forM_map]
  rfl

end Device

end FiniteVolume
