import FiniteVolume.Proofs.Device.Building

/-!
Devices between two calls.

While rows are claimed for the present layout, the claims in force are those of the boundary equations
as they are now (`Device.Coherent`). Every call keeps this (`Device.Coherent.apply`), so it holds of
every device that is reached (`Device.Reached.coherent`).
-/
namespace FiniteVolume

variable {β α : Type} [BaseScalar β]

namespace Device

variable {d d' d'' : Device β α}

/-! ## Claims in force -/

/-- The rows are numbered through as numbering them anew would do it. -/
structure Current (d : Device β α) : Prop where
  numbered : d.parts.Numbered
  circuit : d.circuit.base = d.parts.rowCount

theorem Current.of_bare_eq (current : d.Current) (same : d'.bare = d.bare) : d'.Current where
  numbered := by
    rw [← Parts.numbered_bare, parts_bare_of_bare_eq same, Parts.numbered_bare]
    exact current.numbered
  circuit := by
    rw [Parts.rowCount_eq, ← Parts.blocks_bare, parts_bare_of_bare_eq same, Parts.blocks_bare,
      ← Parts.rowCount_eq, ← current.circuit]
    exact congrArg (·.circuit.base) same

theorem current_renumber (d : Device β α) : d.renumber.Current :=
  ⟨d.parts.numbered_renumber, d.parts.rowCount_renumber.symm⟩

/-- The rows are numbered through, and claimed are those that the boundary equations claim as they
are now. -/
structure InForce (d : Device β α) : Prop where
  numbered : d.parts.Numbered
  circuit : d.circuit.base = d.parts.rowCount
  slotted : ∀ b ∈ d.boundaries, b.Slotted d.parts
  claimed : RowMap.claimAll d.entries ∅ = .ok d.rows

theorem InForce.current (inForce : d.InForce) : d.Current := ⟨inForce.numbered, inForce.circuit⟩

theorem InForce.of_bare_eq (inForce : d.InForce) (same : d'.bare = d.bare) (rows : d'.rows = d.rows) :
    d'.InForce where
  numbered := (inForce.current.of_bare_eq same).numbered
  circuit := (inForce.current.of_bare_eq same).circuit
  slotted := (slotted_of_bare_eq same).mpr inForce.slotted
  claimed := by
    rw [entries_of_bare_eq same, rows]
    exact inForce.claimed

/-- The same regions, no layout revision of which is lower. -/
def Raised (l l' : List (Nat × Nat)) : Prop := List.Forall₂ (fun x y => x.1 = y.1 ∧ x.2 ≤ y.2) l l'

theorem Raised.refl (l : List (Nat × Nat)) : Raised l l :=
  List.forall₂_same.mpr fun _ _ => ⟨rfl, Nat.le_refl _⟩

theorem Raised.trans {l l' l'' : List (Nat × Nat)} (first : Raised l l') (second : Raised l' l'') :
    Raised l l'' := by
  induction first generalizing l'' with
  | nil => exact second
  | cons here _ ih =>
    cases second with
    | cons here' rest => exact .cons ⟨here.1.trans here'.1, Nat.le_trans here.2 here'.2⟩ (ih rest)

theorem Raised.antisymm {l l' : List (Nat × Nat)} (first : Raised l l') (second : Raised l' l) :
    l = l' := by
  induction first with
  | nil => rfl
  | cons here _ ih =>
    cases second with
    | cons here' rest => rw [ih rest, Prod.ext here.1 (Nat.le_antisymm here.2 here'.2)]

/-- The second device results from the first by a call that claims no rows: rows that are claimed stay
so, and as long as the layout does not change, nothing but values does. -/
structure Stays (d d' : Device β α) : Prop where
  stage : d'.stage = d.stage
  rows : d'.rows = d.rows
  raised : Raised d.layout d'.layout
  unchanged : d'.layout = d.layout → d'.bare = d.bare

theorem Alike.stays (alike : Alike d d') : Stays d d' where
  stage := alike.stage
  rows := alike.rows
  raised := by
    rw [← d'.layout_bare, alike.bare, layout_bare]
    exact .refl _
  unchanged _ := alike.bare

/-- Rows are claimed for the present or an earlier layout, and for the present one the claims are in
force. -/
structure Coherent (d : Device β α) : Prop where
  built : d.WellBuilt
  raised : ∀ l, d.stage = .claimed l → Raised l d.layout
  inForce : d.stage = .claimed d.layout → d.InForce

namespace Coherent

theorem of_idle (built : d.WellBuilt) (idle : d.stage = .idle) : d.Coherent where
  built := built
  raised _ claimed := by cases idle.symm.trans claimed
  inForce claimed := by cases idle.symm.trans claimed

variable (coherent : d.Coherent)

include coherent

theorem stays (built : d'.WellBuilt) (stays : Stays d d') : d'.Coherent where
  built := built
  raised l claimed := (coherent.raised l (stays.stage ▸ claimed)).trans stays.raised
  inForce claimed := by
    rw [stays.stage] at claimed
    have same : d'.layout = d.layout := Raised.antisymm (coherent.raised _ claimed) stays.raised
    exact (coherent.inForce (same ▸ claimed)).of_bare_eq (stays.unchanged same) stays.rows

theorem alike (alike : Alike d d') : d'.Coherent :=
  coherent.stays (coherent.built.of_outline_eq (by
    rw [← outline_bare, alike.bare, outline_bare])) alike.stays

end Coherent

theorem Rebuilt.coherent (rebuilt : Rebuilt d d') (coherent : d.Coherent) : d'.Coherent :=
  .of_idle (rebuilt.built coherent.built) rebuilt.idle

theorem coherent_create {name : String} {settings : Settings β} (made : create name settings = .ok d) :
    d.Coherent := by
  unfold create at made
  split at made
  · cases made
    refine .of_idle ⟨fun _ _ found => ?_, fun _ _ found => ?_, .nil⟩ rfl
    all_goals cases found
  · cases made

/-! ## Regions and interfaces -/

theorem layout_eq (d : Device β α) :
    d.layout = d.parts.regions.entries.map fun x => (x.2.instanceId, x.2.layoutRevision) :=
  List.map_map ..

theorem layout_setRegion (d : Device β α) (name : String) (r : Region β α) :
    { d with parts := d.parts.setRegion name r }.layout = d.parts.regions.entries.map fun x =>
      if x.1 = name then (r.instanceId, r.layoutRevision) else (x.2.instanceId, x.2.layoutRevision) := by
  rw [layout_eq, Parts.setRegion, Table.modify, List.map_map]
  refine List.map_congr_left fun x _ => ?_
  rw [Function.comp_apply]
  split <;> rfl

theorem stays_changeRegion {change : Region β α → Region β α} (follows : ∀ r, Region.Follows r (change r))
    (d : Device β α) (name : String) : Stays d (d.changeRegion name change) := by
  unfold changeRegion
  split
  next r found =>
    have same := follows r
    have only : ∀ x ∈ d.parts.regions.entries, x.1 = name → x.2 = r := fun x member here =>
      Option.some.inj ((Table.get?_eq_some_iff.mpr (here ▸ member)).symm.trans found)
    refine ⟨rfl, rfl, ?_, fun unchanged => bare_of_parts (Parts.bare_setRegion ?_)⟩
    · rw [layout_setRegion, layout_eq, Raised, List.forall₂_map_left_iff, List.forall₂_map_right_iff,
        List.forall₂_same]
      intro x member
      split
      next here =>
        rw [only x member here]
        exact ⟨same.instanceId.symm, same.raised⟩
      · exact ⟨rfl, Nat.le_refl _⟩
    · rw [layout_setRegion, layout_eq, List.map_inj_left] at unchanged
      have here := unchanged _ (Table.get?_eq_some_iff.mp found)
      rw [if_pos rfl] at here
      rw [found, Option.map_some, same.unchanged (Prod.mk.inj here).2]
  · exact (Alike.refl d).stays

theorem Coherent.changeRegion (coherent : d.Coherent) {change : Region β α → Region β α}
    (follows : ∀ r, Region.Follows r (change r)) (keyed : ∀ r, r.Keyed → (change r).Keyed)
    (name : String) : (d.changeRegion name change).Coherent :=
  coherent.stays (coherent.built.changeRegion (fun r => (follows r).mesh) keyed name)
    (stays_changeRegion follows d name)

theorem alike_changeRegion {change : Region β α → Region β α} (same : ∀ r, (change r).bare = r.bare)
    (sized : ∀ r, r.Sized → (change r).Sized) (d : Device β α) (name : String) :
    Alike d (d.changeRegion name change) := by
  unfold changeRegion
  split
  next r found =>
    refine .of_later ⟨Parts.bare_setRegion (by rw [found, Option.map_some, same r]), fun fits => ?_⟩
    exact fits.setRegion (sized r (fits.regions _ _ found))
  · exact .refl d

theorem alike_declare (d : Device β α) (region : String) (kind : Domain) (name : String)
    (calculator : Calculator β α) : Alike d (d.changeRegion region (·.declare kind name calculator)) :=
  have same : ∀ r : Region β α, (r.declare kind name calculator).bare = r.bare := fun _ => rfl
  alike_changeRegion same (fun _ sized => sized.declare calculator none) d region

theorem alike_declareOnContact (d : Device β α) (region contact name : String)
    (calculator : Calculator β α) : Alike d (d.changeRegion region fun r =>
      r.orElse (r.declareOnContact contact name calculator)) := by
  refine alike_changeRegion (fun r => ?_) (fun r sized => ?_) d region
  all_goals
    unfold Region.declareOnContact
    split
  · rfl
  · rfl
  · exact sized.declare calculator (some contact)
  · exact sized

theorem alike_changeInterface {change : Junction β α → Junction β α}
    (keeps : ∀ j, (change j).geometry = j.geometry) (sized : ∀ j, j.Sized → (change j).Sized)
    (d : Device β α) (name : String) : Alike d (d.changeInterface name change) := by
  unfold changeInterface
  split
  next j found =>
    refine .of_later ⟨Parts.bare_setJunction ?_, fun fits => ?_⟩
    · rw [found, Option.map_some, Junction.bare_eq_iff.mpr (keeps j)]
    · exact fits.setJunction (sized j (fits.junctions _ _ found))
  · exact .refl d

/-! ## Claiming -/

def prepared (d : Device β α) : Device β α := { d.renumber with rows := ∅ }

theorem outline_prepared (d : Device β α) : d.prepared.outline = d.outline := d.outline_renumber

variable [Scalar α]

/-- The boundary equations claim their rows one after the other. -/
theorem claims_boundaryPass (d : Device β α) :
    Pass.Claims (d.boundaryPass .rows .steady) (fun p => ∀ b ∈ d.boundaries, b.Slotted p)
      fun p => d.boundaries.flatMap fun b => (b.claims p).map (Claim.entry p) := by
  rw [boundaryPass_eq]
  exact .forM fun b _ => b.claims_step d

def claimPass (d : Device β α) : Except AssemblyError Unit × PassState (Parts β α) α :=
  d.prepared.boundaryPass .rows .steady (d.prepared.passState {})

section

variable {d : Device β α} {s : PassState (Parts β α) α}

theorem claimed_claimPass (slotted : ∀ b ∈ d.prepared.boundaries, b.Slotted d.prepared.parts) :
    RowMap.Claimed d.prepared.entries ∅ d.claimPass.1 d.claimPass.2.rows :=
  d.prepared.claims_boundaryPass.claimed (d.prepared.passState {}) slotted

/-- Claiming leaves the parts as they were numbered. -/
theorem run_prepared {result : Except AssemblyError Unit}
    (ran : d.claimPass = (result, s)) :
    d.prepared.run {} (d.prepared.boundaryPass .rows .steady) =
      (result, { d.prepared with rows := s.rows, log := s.log }, s.out) := by
  have owner : d.claimPass.2.owner = d.prepared.parts := d.prepared.claims_boundaryPass.owner _
  rw [ran] at owner
  rw [run_eq _ _ ran, owner]

theorem claimRows_of_ok
    (ran : d.claimPass = (.ok (), s)) : d.claimRows = (.ok (), { d.prepared with
      rows := s.rows, log := s.log, stage := .claimed d.prepared.layout }) := by
  unfold claimRows
  dsimp only
  split
  next ended =>
    cases (run_prepared ran).symm.trans ended
    rfl
  next ended => cases (run_prepared ran).symm.trans ended

theorem claimRows_of_error {e : AssemblyError}
    (ran : d.claimPass = (.error e, s)) : ∃ log, d.claimRows =
      (.error (.assembly e), { d.prepared with rows := s.rows, log }) := by
  unfold claimRows
  dsimp only
  split
  next ended => cases (run_prepared ran).symm.trans ended
  next ended =>
    cases (run_prepared ran).symm.trans ended
    cases e <;> exact ⟨_, rfl⟩

/-- Rows that are claimed with success are in force. -/
theorem inForce_prepared
    (ran : d.claimPass = (.ok (), s)) : { d.prepared with rows := s.rows }.InForce := by
  obtain ⟨slotted, claimed⟩ := d.prepared.claims_boundaryPass.of_ok ran
  exact ⟨d.parts.numbered_renumber, d.parts.rowCount_renumber.symm, slotted, claimed⟩

end

/-! ## Every call -/

inductive Effect (d : Device β α) : Device β α → Prop
  | rebuilt {d' : Device β α} (rebuilt : Rebuilt d d') : Effect d d'
  | alike {d' : Device β α} (alike : Alike d d') : Effect d d'
  | region (name : String) (change : Region β α → Region β α)
    (follows : ∀ r, Region.Follows r (change r)) (keyed : ∀ r, r.Keyed → (change r).Keyed) :
    Effect d (d.changeRegion name change)
  | claimed : Effect d d.claimRows.2

/-- The second device results from the first by effects. -/
inductive Effects : Device β α → Device β α → Prop
  | refl (d : Device β α) : Effects d d
  | tail {d d' d'' : Device β α} (first : Effects d d') (last : Effect d' d'') : Effects d d''

namespace Effects

theorem single (effect : Effect d d') : Effects d d' := .tail (.refl d) effect

theorem trans (first : Effects d d') (second : Effects d' d'') : Effects d d'' := by
  induction second with
  | refl => exact first
  | tail _ last ih => exact .tail ih last

theorem invariant {property : Device β α → Prop} (effects : Effects d d')
    (kept : ∀ {d d' : Device β α}, Effect d d' → property d → property d') (initial : property d) :
    property d' := by
  induction effects with
  | refl => exact initial
  | tail _ last ih => exact kept last ih

theorem orElse {result : Except (DeviceError β) (Device β α)}
    (rebuilt : ∀ d', result = .ok d' → Rebuilt d d') : Effects d (d.orElse result) := by
  cases result with
  | ok d' => exact single (.rebuilt (rebuilt d' rfl))
  | error e => exact .refl d

theorem checkLayout (d : Device β α) : Effects d d.checkLayout := by
  unfold Device.checkLayout
  split
  · split
    · exact .refl d
    · exact single (.rebuilt (.renumber id))
  · exact .refl d

theorem assemble (d : Device β α) (select : Selector) (time : TimeMode) (out : Records α) :
    Effects d (d.assemble select time out).2.1 := by
  unfold Device.assemble
  split
  · exact single .claimed
  next numeric =>
    dsimp only
    split
    · exact (checkLayout d).tail (.alike (alike_numericPass numeric _))
    · exact (checkLayout d).tail (.alike ⟨rfl, Owner.refl _, rfl, rfl, rfl⟩)

theorem assembleCycle (d : Device β α) (select : Selector) (time : TimeMode) (out : Records α) :
    Effects d (d.assembleCycle select time out).2.1 := by
  have claimed : Effects d d.claimRows.2 := single .claimed
  unfold Device.assembleCycle
  split
  next ran =>
    rw [ran] at claimed
    exact claimed
  next ran =>
    rw [ran] at claimed
    exact claimed.trans (assemble _ select time out)

end Effects

/-- What a call can do. -/
theorem Change.effects [Precision β α] (change : Change β α) (d : Device β α) :
    Effects d (change.apply d) := by
  cases change with
  | addRegion name mesh => exact .orElse fun _ => rebuilt_addRegion
  | addContact name region nodes => exact .orElse fun _ => rebuilt_addContact
  | addInterface name region0 region1 pairs => exact .orElse fun _ => rebuilt_addInterface
  | addEquation region e => exact .orElse fun _ => rebuilt_addEquation
  | addContactEquation e => exact .orElse fun _ => rebuilt_addContactEquation
  | addInterfaceEquation name e => exact .orElse fun _ => rebuilt_addInterfaceEquation
  | addCircuitNode name value => exact .single (.rebuilt (d.rebuilt_addCircuitNode name value))
  | setCircuitValue name value => exact .single (.alike (d.alike_setCircuitValue name value))
  | region name change =>
    exact .single (.region name _ change.follows fun _ keyed => keyed.apply change)
  | declare region kind name calculator =>
    exact .single (.alike (alike_declare d region kind name calculator))
  | declareOnContact region contact name calculator =>
    exact .single (.alike (alike_declareOnContact d region contact name calculator))
  | interface name change =>
    exact .single (.alike (alike_changeInterface change.geometry_apply change.sized_apply d name))
  | takeLog => exact .single (.alike ⟨rfl, Owner.refl _, rfl, rfl, rfl⟩)
  | claimRows => exact .single .claimed
  | assemble select time out => exact .assemble d select time out
  | assembleCycle select time out => exact .assembleCycle d select time out
  | update solution => exact .single (.alike (d.alike_update solution))
  | integrateContacts => exact .single (.alike d.alike_integrateContacts)

namespace Coherent

variable (coherent : d.Coherent)

include coherent

theorem claimRows : d.claimRows.2.Coherent := by
  have built : d.prepared.WellBuilt := coherent.built.of_outline_eq d.outline_prepared
  rcases ran : d.claimPass with ⟨e | ⟨⟩, s⟩
  · obtain ⟨log, failed⟩ := claimRows_of_error ran
    rw [failed]
    exact .of_idle ⟨built.keyed, built.joined, built.distinct⟩ rfl
  · rw [claimRows_of_ok ran]
    refine ⟨⟨built.keyed, built.joined, built.distinct⟩, fun l claimed => ?_, fun _ => ?_⟩
    · cases claimed
      exact .refl _
    · exact (inForce_prepared ran).of_bare_eq rfl rfl

theorem effect (effect : Effect d d') : d'.Coherent := by
  cases effect with
  | rebuilt rebuilt => exact rebuilt.coherent coherent
  | alike alike => exact coherent.alike alike
  | region name change follows keyed => exact coherent.changeRegion follows keyed name
  | claimed => exact coherent.claimRows

theorem assemble (select : Selector) (time : TimeMode) (out : Records α) :
    (d.assemble select time out).2.1.Coherent :=
  (Effects.assemble d select time out).invariant (fun step coherent => coherent.effect step) coherent

variable [Precision β α]

/-- Every call keeps a device coherent. -/
theorem apply (change : Change β α) : (change.apply d).Coherent :=
  (change.effects d).invariant (fun step coherent => coherent.effect step) coherent

theorem after (changes : List (Change β α)) : (d.after changes).Coherent := by
  induction changes generalizing d with
  | nil => exact coherent
  | cons change rest ih => exact ih (coherent.apply change)

end Coherent

theorem Reached.coherent [Precision β α] (reached : d.Reached) : d.Coherent := by
  obtain ⟨name, settings, d₀, changes, made, rfl⟩ := reached
  exact (coherent_create made).after changes

end Device

end FiniteVolume
