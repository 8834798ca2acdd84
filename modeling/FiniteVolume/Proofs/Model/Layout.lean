import FiniteVolume.Proofs.Model.History

/-!
What the rows of a region depend on.

`Region.bare` forgets models, parameters and remarks; mesh, contacts, equation slots and the first row
stay. A call leaves this part alone or raises the layout revision (`Region.Change.follows`).
-/
namespace FiniteVolume.Region

variable {β α : Type}

/-- The region without models, parameters, remarks and the number of changes to them. -/
def bare (r : Region β α) : Region β α :=
  { r with models := {}, parameters := ∅, notes := [], revision := 0 }

/-- The second region results from the first by calls: the same region on the same mesh, and with the
same slots and contacts unless the layout revision was raised. -/
structure Follows (r r' : Region β α) : Prop where
  instanceId : r'.instanceId = r.instanceId
  mesh : r'.mesh = r.mesh
  base : r'.base = r.base
  raised : r.layoutRevision ≤ r'.layoutRevision
  unchanged : r'.layoutRevision = r.layoutRevision → r'.bare = r.bare

variable {r r' r'' : Region β α}

/-- What does not depend on models and parameters is the same for regions that differ in them only. -/
theorem eq_of_bare_eq {τ : Type} {f : Region β α → τ} (insensitive : ∀ r, f r.bare = f r)
    (same : r'.bare = r.bare) : f r' = f r := by
  rw [← insensitive r', same, insensitive]

theorem Follows.of_bare_eq (same : r'.bare = r.bare) : Follows r r' where
  instanceId := eq_of_bare_eq (f := Region.instanceId) (fun _ => rfl) same
  mesh := eq_of_bare_eq (f := Region.mesh) (fun _ => rfl) same
  base := eq_of_bare_eq (f := Region.base) (fun _ => rfl) same
  raised := Nat.le_of_eq (eq_of_bare_eq (f := Region.layoutRevision) (fun _ => rfl) same).symm
  unchanged _ := same

theorem Follows.refl (r : Region β α) : Follows r r := .of_bare_eq rfl

theorem Follows.trans (first : Follows r r') (second : Follows r' r'') : Follows r r'' where
  instanceId := second.instanceId.trans first.instanceId
  mesh := second.mesh.trans first.mesh
  base := second.base.trans first.base
  raised := Nat.le_trans first.raised second.raised
  unchanged same := by
    have lower := first.raised
    have upper := second.raised
    rw [second.unchanged (by omega), first.unchanged (by omega)]

theorem bare_of_uncached_eq (same : r'.uncached = r.uncached) : r'.bare = r.bare :=
  eq_of_uncached_eq (f := bare) (fun _ => rfl) same

theorem Progress.bare_eq (progress : Progress r r') : r'.bare = r.bare :=
  bare_of_uncached_eq progress.declared

theorem bare_of_setData {d : Domain} {name : String} {data : Field α}
    (wrote : r.setData d name data = .ok r') : r'.bare = r.bare := by
  unfold setData at wrote
  split at wrote
  · cases wrote
  · cases wrote
    rfl

theorem follows_addEquation [Scalar α] (r : Region β α) (equation variableName : String) :
    Follows r (r.addEquation equation variableName) := by
  unfold addEquation
  refine ⟨?_, ?_, ?_, ?_, fun same => ?_⟩
  iterate 3
    dsimp only
    split <;> rfl
  · dsimp only
    split <;> exact Nat.le_succ _
  · dsimp only at same
    split at same <;> exact absurd same (Nat.succ_ne_self _)

theorem follows_addContact (r : Region β α) (contact : Contact) :
    Follows r (r.addContact contact) where
  instanceId := rfl
  mesh := rfl
  base := rfl
  raised := Nat.le_succ _
  unchanged same := absurd same (Nat.succ_ne_self _)

variable [BaseScalar β] [Scalar α] [Precision β α]

def Change.MovesRows (r : Region β α) : Change β α → Prop
  | addContact _ | addEquation _ _ => True
  | removeEquation equation => r.slots.contains equation
  | _ => False

/-- Calls on models and parameters leave slots and contacts alone. -/
theorem Change.bare_apply {change : Change β α} {r : Region β α} (still : ¬change.MovesRows r) :
    (change.apply r).bare = r.bare := by
  cases change with
  | setUniform | declare | setDisplay | markOld | setParameter | takeNotes => rfl
  | setData d name data =>
    rw [apply]
    cases wrote : r.setData d name data with
    | ok r' => exact bare_of_setData wrote
    | error e => rfl
  | setCoordinate node axis value =>
    have read : (r.read .node axis.text).2.bare = r.bare :=
      bare_of_uncached_eq (readWithin_balanced r.waiting_le_size).declared
    rw [apply]
    rcases r.setCoordinate_cases node axis value with same | same | ⟨data, wrote⟩
    · rw [same]
    · rw [same]
      exact read
    · exact (bare_of_setData wrote).trans read
  | declareOnContact contact name functions e =>
    rw [apply, Region.declareOnContact]
    split <;> rfl
  | removeModel d name =>
    rw [apply, Region.removeModel]
    split <;> rfl
  | addContact | addEquation => exact absurd trivial still
  | removeEquation equation =>
    have absent : ¬r.slots.contains equation := still
    rw [apply, Region.removeEquation, if_neg absent]
  | read d name => exact bare_of_uncached_eq (readWithin_balanced r.waiting_le_size).declared
  | find name => exact bare_of_uncached_eq (r.consulted_find name).declared

theorem Change.layoutRevision_apply {change : Change β α} {r : Region β α} (moves : change.MovesRows r) :
    (change.apply r).layoutRevision = r.layoutRevision + 1 := by
  cases change with
  | addContact => rfl
  | addEquation equation variableName =>
    rw [apply, Region.addEquation]
    dsimp only
    split <;> rfl
  | removeEquation equation =>
    have present : r.slots.contains equation := moves
    rw [apply, Region.removeEquation, if_pos present]
  | _ => exact moves.elim

/-- The layout revision tells whether slots or contacts changed. -/
theorem Change.layoutRevision_apply_eq_iff (change : Change β α) (r : Region β α) :
    (change.apply r).layoutRevision = r.layoutRevision ↔ ¬change.MovesRows r := by
  constructor
  · intro same moves
    rw [layoutRevision_apply moves] at same
    omega
  · exact fun still =>
      eq_of_bare_eq (f := Region.layoutRevision) (fun _ => rfl) (bare_apply still)

/-- Every call leaves slots and contacts alone or raises the layout revision. -/
theorem Change.follows (change : Change β α) (r : Region β α) : Follows r (change.apply r) := by
  by_cases moves : change.MovesRows r
  · cases change with
    | addContact contact => exact r.follows_addContact contact
    | addEquation equation variableName => exact r.follows_addEquation equation variableName
    | removeEquation equation =>
      have present : r.slots.contains equation := moves
      rw [apply, Region.removeEquation, if_pos present]
      exact ⟨rfl, rfl, rfl, Nat.le_succ _, fun same => absurd same (Nat.succ_ne_self _)⟩
    | _ => exact moves.elim
  · exact .of_bare_eq (bare_apply moves)

theorem follows_run (r : Region β α) (changes : List (Change β α)) : Follows r (r.run changes) := by
  induction changes generalizing r with
  | nil => exact .refl r
  | cons change rest ih => exact (change.follows r).trans (ih (change.apply r))

end FiniteVolume.Region
