import FiniteVolume.Proofs.Device.Building
import FiniteVolume.Proofs.Junction.Resting
import FiniteVolume.Proofs.Model.Chunking

/-!
How vectors are divided is no matter for an interface.

An interface under another division of vectors, between regions that answer it alike
(`Region.AnswersAlike`), reads and answers alike (`Coupled.respects_read`). These may be the regions
themselves or the regions under the other division, and every call on the one interface is a call on the
other (`Junction.Change.apply_rechunk`).
-/
namespace FiniteVolume

variable {β α : Type}

/-- The same interface under another division of vectors. -/
def Junction.rechunk (c : Chunking) (j : Junction β α) : Junction β α := { j with chunking := c }

/-- Models are calculated alike however vectors are divided. -/
def Junction.Neutral (j : Junction β α) : Prop := j.models.Uses Calculator.Neutral

/-- Regions with the property and their images answer an interface alike. -/
structure Region.AnswersAlike [Scalar α] (φ : Region β α → Region β α) (I : Region β α → Prop) : Prop where
  reads : ∀ name, Respects φ I (read .node name)
  contains : ∀ r, (φ r).models.contains = r.models.contains
  parameters : ∀ r, (φ r).parameter? = r.parameter?
  fingerprint : ∀ r, (φ r).fingerprint = r.fingerprint

theorem Region.answersAlike_id [Scalar α] :
    AnswersAlike id fun _ : Region β α => True :=
  ⟨fun _ _ _ => ⟨rfl, trivial⟩, fun _ => rfl, fun _ => rfl, fun _ => rfl⟩

theorem Region.answersAlike_rechunk [Scalar α] (c : Chunking) :
    AnswersAlike (rechunk c) (Neutral : Region β α → Prop) :=
  ⟨fun name => respects_read c .node name, fun _ => rfl, fun _ => rfl, fun _ => rfl⟩

/-! ## Reads -/

namespace Coupled

/-- The interface under another division of vectors, between images of its regions. -/
def recast (c : Chunking) (φ : Region β α → Region β α) (p : Coupled β α) : Coupled β α where
  junction := p.junction.rechunk c
  region0 := φ p.region0
  region1 := φ p.region1

/-- The interface is neutral, and its regions have the property. -/
structure NeutralWith (I : Region β α → Prop) (p : Coupled β α) : Prop where
  regions : ∀ side, I (p.region side)
  interface : p.junction.Neutral

variable {c : Chunking} {φ : Region β α → Region β α} {I : Region β α → Prop} {p : Coupled β α}

theorem region_recast (side : Side) : (p.recast c φ).region side = φ (p.region side) := by
  cases side <;> rfl

theorem setRegion_recast (side : Side) (r : Region β α) :
    (p.recast c φ).setRegion side (φ r) = (p.setRegion side r).recast c φ := by
  cases side <;> rfl

theorem NeutralWith.setRegion (neutral : p.NeutralWith I) {side : Side} {r : Region β α} (holds : I r) :
    (p.setRegion side r).NeutralWith I where
  regions other := by
    by_cases same : other = side
    · rwa [same, region_setRegion]
    · rw [region_setRegion_of_ne same]
      exact neutral.regions other
  interface := by
    rw [junction_setRegion]
    exact neutral.interface

variable [Scalar α] (alike : Region.AnswersAlike φ I)

include alike

theorem parameter?_recast : (p.recast c φ).parameter? = p.parameter? := by
  funext name
  change ((φ p.region0).parameter? name).or ((φ p.region1).parameter? name) = _
  rw [alike.parameters, alike.parameters]
  rfl

theorem refresh_recast : (p.recast c φ).refresh = p.refresh.recast c φ := by
  unfold refresh Junction.refresh
  by_cases seen : p.junction.seen = some (p.region0.fingerprint, p.region1.fingerprint)
  all_goals simp [recast, Junction.rechunk, alike.fingerprint, seen, Junction.externalNames]

theorem respects_lookupWith {read : String → CoupledRead β α (Field α)}
    (reads : ∀ name, Respects (recast c φ) (NeutralWith I) (read name)) (name : String) :
    Respects (recast c φ) (NeutralWith I) (lookupWith read name) := by
  intro p neutral
  cases present : p.junction.models.contains .node name with
  | true =>
    obtain ⟨same, kept⟩ := reads name p neutral
    rw [lookupWith_of_contains present, lookupWith_of_contains (c := p.recast c φ) present, same]
    exact ⟨rfl, kept⟩
  | false =>
    rw [lookupWith_of_not_contains present, lookupWith_of_not_contains (c := p.recast c φ) present]
    rcases Suffix.split? name with _ | ⟨base, end_ | corner | side⟩
    case some.interfaceSide =>
      obtain ⟨same, kept⟩ := alike.reads base (p.region side) (neutral.regions side)
      simp only [region_recast, alike.contains, same, setRegion_recast]
      split
      · refine ⟨?_, neutral.setRegion kept⟩
        simp only [Field.gather_chunking (p.recast c φ).junction.chunking p.junction.chunking]
        rfl
      · exact ⟨rfl, neutral⟩
    all_goals exact ⟨rfl, neutral⟩

/-- A stale model asks alike while it is marked, and its values are cached alike. -/
theorem respects_readWithin (k : Nat) (name : String) :
    Respects (recast c φ) (NeutralWith I) (readWithin k name) := by
  induction k using Nat.strongRecOn generalizing name with
  | _ k ih =>
    intro p neutral
    rcases p.junction.models.begin_cases .node name with
      ⟨m, calculator, found, stale, computed⟩ | ⟨result, began⟩
    · have answers : ∀ y, Respects (recast c φ) (NeutralWith I) (lookupWithin k y) := by
        intro y
        cases k with
        | zero => exact fun _ neutral => ⟨rfl, neutral⟩
        | succ k => exact respects_lookupWith alike (ih k (by omega)) y
      let run := (calculator.calculate p.junction.surroundings (p.targetOf name m)).runState
        (lookupWithin k) parameter?
      have again : readWithin k name (p.recast c φ) =
          (run ((p.marked name m).recast c φ)).2.concluded (p.targetOf name m)
            (run ((p.marked name m).recast c φ)).1 := by
        rw [readWithin_of_stale (c := p.recast c φ) found stale computed]
        dsimp only [run]
        rw [← neutral.interface .node name m calculator found computed p.junction.surroundings c]
        rfl
      have respects : Respects (recast c φ) (NeutralWith I) run :=
        Query.respects_runState answers fun _ => parameter?_recast alike
      obtain ⟨same, kept⟩ := respects (p.marked name m)
        ⟨neutral.regions, ModelStore.Uses.replace neutral.interface found rfl⟩
      rw [again, same, readWithin_of_stale found stale computed]
      exact ⟨rfl, kept.regions, ModelStore.Uses.conclude kept.interface _ _⟩
    · rw [readWithin_of_begin (began _), readWithin_of_begin (c := p.recast c φ) (began _)]
      exact ⟨rfl, neutral⟩

omit alike [Scalar α] in
theorem NeutralWith.refresh (neutral : p.NeutralWith I) : p.refresh.NeutralWith I where
  regions side := by
    rw [region_refresh]
    exact neutral.regions side
  interface := neutral.interface.of_uncached_eq (declared_refresh p)

theorem respects_read (name : String) : Respects (recast c φ) (NeutralWith I) (read name) := by
  intro p neutral
  unfold read
  rw [refresh_recast alike]
  exact respects_readWithin alike _ name p.refresh neutral.refresh

theorem respects_find (name : String) : Respects (recast c φ) (NeutralWith I) (find name) := by
  intro p neutral
  unfold find lookup
  rw [refresh_recast alike]
  exact respects_lookupWith alike (respects_readWithin alike _) name p.refresh neutral.refresh

end Coupled

/-! ## Calls -/

theorem Junction.setValues_rechunk (j : Junction β α) (c : Chunking) (name : String) (values : Array α) :
    (j.rechunk c).setValues name values = (j.setValues name values).map (rechunk c) := by
  unfold setValues
  by_cases differs : values.size ≠ j.size
  · rw [if_pos differs, if_pos (show values.size ≠ (j.rechunk c).size from differs)]
    rfl
  · rw [if_neg differs, if_neg (show ¬values.size ≠ (j.rechunk c).size from differs)]
    rfl

/-- A call on an interface is the same under another division of vectors. -/
theorem Junction.Change.apply_rechunk [Scalar α] {j : Junction β α} (neutral : j.Neutral) (c : Chunking)
    (change : Change β α) : change.apply (j.rechunk c) = (change.apply j).rechunk c := by
  have between : ∀ r0 r1 : Region β α, Coupled.NeutralWith (fun _ => True) ⟨j, r0, r1⟩ :=
    fun _ _ => ⟨fun _ => trivial, neutral⟩
  cases change with
  | setValues name values =>
    rw [apply, apply, setValues_rechunk]
    cases j.setValues name values <;> rfl
  | read name r0 r1 =>
    exact congrArg (·.2.junction)
      (Coupled.respects_read (c := c) Region.answersAlike_id name _ (between r0 r1)).1
  | find name r0 r1 =>
    exact congrArg (·.2.junction)
      (Coupled.respects_find (c := c) Region.answersAlike_id name _ (between r0 r1)).1
  | declare | setUniform | removeModel | markOld | takeNotes => rfl

end FiniteVolume
