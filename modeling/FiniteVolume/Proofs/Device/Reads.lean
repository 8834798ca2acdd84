import FiniteVolume.Proofs.Device.Shares

/-!
Values that a pass over a device has read.

Steps of a numeric pass leave every region as what it becomes by reads (`Parts.Reads`). What an equation
has read, the device that the pass leaves therefore still holds, and the records of the equation can
be given in terms of it (`Parts.assembles_onRegion`, `Parts.assembles_onCoupled`).
-/
namespace FiniteVolume

variable {β α : Type} [Scalar α]

namespace Parts

/-- The second parts are what the first become by reads: regions that are later, and interfaces with the
same node pairs. -/
structure Reads (p p' : Parts β α) : Prop where
  regions : ∀ name, Option.Rel Owner.Later (p.regions.get? name) (p'.regions.get? name)
  geometry : ∀ name, (p'.junctions.get? name).map (·.geometry) = (p.junctions.get? name).map (·.geometry)

namespace Reads

variable {p p' p'' : Parts β α} {name : String} {r r' : Region β α} {c c' : Coupled β α}

theorem refl (p : Parts β α) : Reads p p where
  regions name := by
    cases p.regions.get? name with
    | none => exact .none
    | some r => exact .some (Owner.refl r)
  geometry _ := rfl

theorem trans (first : Reads p p') (second : Reads p' p'') : Reads p p'' where
  regions name := by
    have before := first.regions name
    have after := second.regions name
    generalize p.regions.get? name = r at before
    generalize p'.regions.get? name = r' at before after
    generalize p''.regions.get? name = r'' at after
    cases before with
    | none => cases after; exact .none
    | some later => cases after with | some later' => exact .some (Owner.trans later later')
  geometry name := (second.geometry name).trans (first.geometry name)

theorem region (reads : Reads p p') (found : p.regions.get? name = some r) :
    ∃ r', p'.regions.get? name = some r' ∧ Owner.Later r r' := by
  have here := reads.regions name
  rw [found] at here
  generalize p'.regions.get? name = after at here
  cases here with
  | some later => exact ⟨_, rfl, later⟩

theorem region_none (reads : Reads p p') (missing : p.regions.get? name = none) :
    p'.regions.get? name = none := by
  have here := reads.regions name
  rw [missing] at here
  generalize p'.regions.get? name = after at here
  cases here with
  | none => rfl

theorem of_setRegion (found : p.regions.get? name = some r) (later : Owner.Later r r') :
    Reads p (p.setRegion name r') where
  regions name' := by
    rw [setRegion, Table.get?_modify]
    split
    next here =>
      rw [here, found, Option.map_some]
      exact .some later
    · exact (refl p).regions name'
  geometry _ := rfl

theorem of_setCoupled (found : p.coupled? name = some c) (later : Owner.Later c c') :
    Reads p (p.setCoupled name c') := by
  obtain ⟨junction, regions⟩ := coupled?_eq_some_iff.mp found
  refine ⟨fun name' => ?_, fun name' => ?_⟩
  · rw [setCoupled, setJunction, setRegion, setRegion, Table.get?_modify, Table.get?_modify, later.geometry]
    split
    next second =>
      have here := regions .second
      rw [show c.junction.geometry.region .second = name' from second.symm] at here
      rw [here]
      split <;> exact .some (later.regions .second)
    · split
      next first =>
        have here := regions .first
        rw [show c.junction.geometry.region .first = name' from first.symm] at here
        rw [here]
        exact .some (later.regions .first)
      · exact (refl p).regions name'
  · rw [setCoupled, setJunction, Table.get?_modify]
    split
    next here =>
      rw [here, setRegion, setRegion, junction, Option.map_some, Option.map_some, later.geometry]
      rfl
    · rfl

end Reads

/-- Parts that are read, with what they become. -/
@[reducible] def reading : Owner (Parts β α) where
  Later := Reads
  refl := Reads.refl
  trans := Reads.trans

/-- The step leaves parts that it has read. If it succeeds, `post` holds of the records that it appends,
in view of the parts from then on. -/
def Assembles (step : Pass (Parts β α) α Unit) (post : Parts β α → Records α → Prop) : Prop :=
  @Pass.Writes _ _ _ reading step fun _ => post

theorem Assembles.mono {step : Pass (Parts β α) α Unit} {post post' : Parts β α → Records α → Prop}
    (assembles : Assembles step post) (weaker : ∀ p records, post p records → post' p records) :
    Assembles step post' :=
  @Pass.Writes.mono _ _ _ _ reading _ _ assembles fun _ => weaker

/-- What steps that succeed one after the other have appended, share by share. -/
theorem Assembles.shares {ι : Type} {body : ι → Pass (Parts β α) α Unit}
    {post : ι → Parts β α → Records α → Prop} {items : List ι}
    (assembles : ∀ x ∈ items, Assembles (body x) (post x)) {s s' : PassState (Parts β α) α}
    (ran : items.forM body s = (.ok (), s')) :
    Reads s.owner s'.owner ∧ s'.out = s.out.append (.join (Pass.shares body items s)) ∧
      List.Forall₂ (fun x share => ∀ p, Reads s'.owner p → post x p share) items
        (Pass.shares body items s) := by
  refine @Pass.shares_of_ok _ _ _ body reading
    (fun x p records => ∀ p', Reads p p' → post x p' records) items
    (fun x member => @Pass.Writes.mk _ _ _ reading _ _ fun s => ?_) s s' ran
  obtain ⟨rows, later, succeeded⟩ := @Pass.Writes.ran _ _ _ reading _ _ (assembles x member) s
  refine ⟨rows, later, fun y ended => ?_⟩
  obtain ⟨records, out, holds⟩ := succeeded y ended
  exact ⟨records, out, fun p reads p' reads' => holds p' (reads.trans reads')⟩

variable {name : String}

theorem assembles_onRegion {step : Pass (Region β α) α Unit} {post : Region β α → Records α → Prop}
    (writes : step.Writes fun _ => post) :
    Assembles (discard (onRegion name step)) fun p records =>
      (p.regions.get? name = none ∧ records = {}) ∨
        ∃ r, p.regions.get? name = some r ∧ post r records := by
  rw [onRegion_eq]
  refine @Pass.Writes.mk _ _ _ reading _ _ fun s => ?_
  cases found : s.owner.regions.get? name with
  | none =>
    rw [Pass.run_discard_onPart?_of_missing found]
    exact ⟨rfl, .refl _, fun _ _ => ⟨{}, (Records.append_empty _).symm, fun p reads =>
      .inl ⟨reads.region_none found, rfl⟩⟩⟩
  | some r =>
    rw [Pass.run_discard_onPart? found]
    obtain ⟨rows, later, succeeded⟩ := writes.ran { s with owner := r }
    refine ⟨rows, .of_setRegion found later, fun x ran => ?_⟩
    obtain ⟨records, out, holds⟩ := succeeded x ran
    refine ⟨records, out, fun p reads => .inr ?_⟩
    have here : (s.owner.setRegion name (step { s with owner := r }).2.owner).regions.get? name =
        some (step { s with owner := r }).2.owner := by
      rw [setRegion, Table.get?_modify, if_pos rfl, found, Option.map_some]
    obtain ⟨r', found', later'⟩ := reads.region here
    exact ⟨r', found', holds r' later'⟩

/-- The records of a step on an interface, in view of its regions as they were read. -/
theorem assembles_onCoupled {step : Pass (Coupled β α) α Unit} {post : Coupled β α → Records α → Prop}
    (writes : step.Writes fun _ => post) :
    Assembles (discard (onCoupled name step)) fun p records => records = {} ∨
      ∃ j, p.junctions.get? name = some j ∧ (j.geometry.region0 ≠ j.geometry.region1 →
        ∃ c : Coupled β α, c.junction.geometry = j.geometry ∧
          (∀ side, p.regions.get? (j.geometry.region side) = some (c.region side)) ∧ post c records) := by
  rw [onCoupled_eq]
  refine @Pass.Writes.mk _ _ _ reading _ _ fun s => ?_
  cases found : s.owner.coupled? name with
  | none =>
    rw [Pass.run_discard_onPart?_of_missing found]
    exact ⟨rfl, .refl _, fun _ _ => ⟨{}, (Records.append_empty _).symm, fun _ _ => .inl rfl⟩⟩
  | some c =>
    rw [Pass.run_discard_onPart? found]
    obtain ⟨rows, later, succeeded⟩ := writes.ran { s with owner := c }
    refine ⟨rows, .of_setCoupled found later, fun x ran => ?_⟩
    obtain ⟨records, out, holds⟩ := succeeded x ran
    refine ⟨records, out, fun p reads => .inr ?_⟩
    generalize (step { s with owner := c }).2.owner = c' at later holds reads
    obtain ⟨junction, regions⟩ := coupled?_eq_some_iff.mp found
    obtain ⟨j, here, geometry⟩ : ∃ j, p.junctions.get? name = some j ∧
        j.geometry = c'.junction.geometry := by
      have same := reads.geometry name
      rw [setCoupled, setJunction, Table.get?_modify, if_pos rfl, setRegion, setRegion, junction] at same
      exact Option.map_eq_some_iff.mp same
    refine ⟨j, here, fun apart => ?_⟩
    -- both regions stand where they were put, since they have different names
    have put : ∀ side, (s.owner.setCoupled name c').regions.get? (j.geometry.region side) =
        some (c'.region side) := by
      intro side
      have there := regions side
      rw [← later.geometry, ← geometry] at there
      rw [setCoupled, setJunction, setRegion, setRegion, Table.get?_modify, Table.get?_modify, ← geometry, there]
      cases side with
      | first => exact (if_neg apart).trans (if_pos rfl)
      | second => exact (if_pos rfl).trans (by split <;> rfl)
    obtain ⟨r0, found0, later0⟩ := reads.region (put .first)
    obtain ⟨r1, found1, later1⟩ := reads.region (put .second)
    refine ⟨(c'.setRegion .first r0).setRegion .second r1, ?_, fun side => ?_, holds _ ?_⟩
    · exact geometry.symm
    · cases side with
      | first => exact found0
      | second => exact found1
    · exact Owner.trans (Coupled.leads_setRegion later0) (Coupled.leads_setRegion later1)

end Parts

end FiniteVolume
