import FiniteVolume.Proofs.Assembly.Pass
import FiniteVolume.Proofs.Field.Elementwise
import FiniteVolume.Proofs.Model.History
import FiniteVolume.Proofs.Model.Sized

/-!
The values of models while others are read.

Once a model was read its values are at hand, and they stay so during later reads (`Progress.atHand`):
what a pass reads is what its last region holds. In a region that is `Ready`, reads in whatever order
return what they return at first (`Ready.read_eq`).
-/
namespace FiniteVolume

/-! ## Values at hand -/

namespace ModelStore

variable {β α : Type} {s : ModelStore β α} {d : Domain} {name : String} {size : Nat} {data : Field α}

/-- A read would answer at once with these values. -/
def AtHand (s : ModelStore β α) (d : Domain) (name : String) (data : Field α) : Prop :=
  ∃ m, s.get? d name = some m ∧ m.value = some data ∧
    (m.state = .fresh ∨ m.state = .stale ∧ m.source = .written)

theorem begin_of_atHand (atHand : s.AtHand d name data) :
    s.begin d name size = (.ok (.ready data), s) := by
  obtain ⟨m, found, value, fresh | ⟨stale, written⟩⟩ := atHand
  · exact begin_of_fresh found fresh value
  · simp [begin, found, value, stale, written]

theorem atHand_of_begin (began : (s.begin d name size).1 = .ok (.ready data)) :
    s.AtHand d name data := by
  unfold begin at began
  split at began
  · cases began
  next m found =>
    refine ⟨m, found, ?_⟩
    cases value : m.value <;> cases state : m.state <;> cases source : m.source <;>
      simp [value, state, source] at began ⊢ <;> exact began

end ModelStore

namespace Region

variable {β α : Type} {r r' r₀ : Region β α} {d : Domain} {name : String} {m : Model β α}
  {data : Field α}

/-- A read would answer at once with these values. -/
def AtHand (r : Region β α) (d : Domain) (name : String) (data : Field α) : Prop :=
  r.models.AtHand d name data

theorem Progress.atHand (progress : Progress r r') (atHand : r.AtHand d name data) :
    r'.AtHand d name data := by
  obtain ⟨m, found, value, current⟩ := atHand
  obtain ⟨m', found', same⟩ := get?_of_uncached_eq progress.declared found
  have equal : m' = m := by
    rcases current with fresh | ⟨-, written⟩
    · exact (progress.advances found found').kept fresh
    · have written' := (Model.source_of_uncached same).trans written
      rwa [Model.uncached, Model.uncached, written, written'] at same
  exact ⟨m, equal ▸ found', value, current⟩

theorem progress_takeNotes (r : Region β α) : Progress r r.takeNotes.2 where
  declared := rfl
  advances found found' := by
    cases found.symm.trans found'
    exact .refl _

section

variable [Scalar α]

theorem read_of_atHand (atHand : r.AtHand d name data) : r.read d name = (.ok data, r) :=
  readWithin_of_begin (ModelStore.begin_of_atHand atHand)

theorem progress_read (r : Region β α) (d : Domain) (name : String) : Progress r (r.read d name).2 :=
  (readWithin_balanced r.waiting_le_size).toProgress

theorem atHand_of_read (ran : (r.read d name).1 = .ok data) : (r.read d name).2.AtHand d name data := by
  rcases steps_of_enough r.waiting_le_size d name with
    ⟨m, calculator, k, depth, found, stale, computed, within⟩ | ⟨result, began⟩
  · rw [read, depth, readWithin_of_stale found stale computed] at ran ⊢
    obtain ⟨m', found', -⟩ := (calculate_balanced reportCycle calculator within).get?_marked found computed
    simp only [endRead_of_found (t := r.targetOf d name m) found'] at ran ⊢
    refine ⟨_, (get?_concluded (t := r.targetOf d name m) found').trans (if_pos rfl), ?_⟩
    rw [ran]
    exact ⟨rfl, .inl rfl⟩
  · rw [read, readWithin_of_begin began] at ran ⊢
    subst ran
    exact ModelStore.atHand_of_begin (congrArg Prod.fst began)

/-! ## Values of a model -/

def values (r : Region β α) (d : Domain) (name : String) : Array α :=
  match (r.read d name).1 with
  | .ok data => data.toArray
  | .error _ => #[]

/-- The value of a model at an entity, zero where there is none. -/
def valueAt (r : Region β α) (d : Domain) (name : String) (i : Nat) : α :=
  ((r.values d name)[i]?).getD 0

theorem values_of_read (ran : (r.read d name).1 = .ok data) : r.values d name = data.toArray := by
  rw [values, ran]

theorem values_of_atHand (atHand : r.AtHand d name data) : r.values d name = data.toArray :=
  values_of_read (by rw [read_of_atHand atHand])

theorem read_of_missing (missing : r.models.contains d name = false) :
    r.read d name = (.error (.missingModel d name), r) := by
  have none : r.models.get? d name = none := by
    rwa [ModelStore.contains, Table.contains, Option.isSome_eq_false_iff, Option.isNone_iff_eq_none]
      at missing
  rw [read, readWithin_of_missing none]

theorem values_of_missing (missing : r.models.contains d name = false) : r.values d name = #[] := by
  rw [values, read_of_missing missing]

theorem contains_of_read (ran : (r.read d name).1 = .ok data) : r.models.contains d name = true := by
  refine Bool.not_eq_false _ ▸ fun missing => ?_
  rw [read_of_missing missing] at ran
  cases ran

/-! ## Reads of a region where nothing is being computed -/

/-- Nothing is being computed, what is fresh has a value for every entity, and computed models report
the cycles that they meet. -/
structure Ready (r : Region β α) : Prop where
  underway : Underway r r
  declared : r.WellDeclared
  idle : r.Idle

/-- The second region is reached by complete reads of the first. -/
structure Reading (r₀ r : Region β α) : Prop where
  underway : Underway r₀ r
  balanced : Balanced r₀ r

theorem Ready.reading (ready : r.Ready) : Reading r r := ⟨ready.underway, .refl r⟩

namespace Reading

variable (reading : Reading r₀ r) (ready : r₀.Ready)

include reading

theorem takeNotes : Reading r₀ r.takeNotes.2 where
  underway := {
    declared := reading.underway.declared
    advances := reading.underway.advances
    written := reading.underway.written
    current := reading.underway.current }
  balanced := {
    declared := reading.balanced.declared
    advances := reading.balanced.advances
    stack := reading.balanced.stack }

include ready

theorem idle : r.Idle :=
  fun d name onStack => ready.idle d name ((reading.balanced.stack d name).mp onStack)

theorem read (d : Domain) (name : String) : Reading r₀ (r.read d name).2 where
  underway := (reading.underway.read ready.declared r.waiting_le_size d name).1
  balanced := reading.balanced.trans (readWithin_balanced r.waiting_le_size)

theorem read_eq_of_yields {result : Except ModelError (Field α)} (yields : r₀.Yields d name result) :
    (r.read d name).1 = result :=
  reading.underway.read_eq_of_yields ready.declared r.waiting_le_size (reading.idle ready) yields

theorem yields_of_read (acyclic : cycleOf (r.read d name).1 = none) :
    r₀.Yields d name (r.read d name).1 :=
  (reading.underway.read ready.declared r.waiting_le_size d name).2 acyclic

/-- A model that can be read has the values that it has at first. -/
theorem read_eq_ok_iff : (r.read d name).1 = .ok data ↔ (r₀.read d name).1 = .ok data := by
  constructor <;> intro ran
  · exact ready.reading.read_eq_of_yields ready
      (ran ▸ reading.yields_of_read ready (by rw [ran]; rfl))
  · exact reading.read_eq_of_yields ready
      (ran ▸ ready.reading.yields_of_read ready (by rw [ran]; rfl))

theorem values_eq (d : Domain) (name : String) : r.values d name = r₀.values d name := by
  cases ran : (r₀.read d name).1 with
  | ok data => rw [values_of_read ((reading.read_eq_ok_iff ready).mpr ran), values_of_read ran]
  | error e =>
    cases ran' : (r.read d name).1 with
    | ok data =>
      rw [(reading.read_eq_ok_iff ready).mp ran'] at ran
      cases ran
    | error e' => rw [values, values, ran, ran']

theorem size_of_read (ran : (r.read d name).1 = .ok data) : data.size = r₀.size d := by
  have ended : (r.read d name).2.Leaves d name (r.read d name).1 :=
    reading.underway.ended r.waiting_le_size (reading.idle ready d name)
  rw [ran] at ended
  obtain ⟨-, -, -, -, size⟩ := ended
  have declared : (r.read d name).2.uncached = r.uncached :=
    (readWithin_balanced r.waiting_le_size).declared
  rw [size, size_of_uncached_eq (declared.trans reading.balanced.declared)]

end Reading

/-- Where what can be read covers the domain, there are at most as many values. -/
theorem size_values_le_of_read
    (covers : ∀ data, (r.read d name).1 = .ok data → data.size = r.size d) :
    (r.values d name).size ≤ r.size d := by
  cases ran : (r.read d name).1 with
  | ok data =>
    rw [values_of_read ran, Field.size_toArray]
    exact Nat.le_of_eq (covers data ran)
  | error e => simp [values, ran]

theorem Ready.size_values_le (ready : r.Ready) (d : Domain) (name : String) :
    (r.values d name).size ≤ r.size d :=
  size_values_le_of_read fun _ => ready.reading.size_of_read ready

theorem Sized.size_values_le (sized : r.Sized) (d : Domain) (name : String) :
    (r.values d name).size ≤ r.size d :=
  size_values_le_of_read fun _ => sized.size_of_read

/-- The second region is what the first becomes by reads. -/
structure Leads (r r' : Region β α) : Prop where
  progress : Progress r r'
  sized : r.Sized → r'.Sized
  reading : ∀ r₀, r₀.Ready → Reading r₀ r → Reading r₀ r'

theorem leads_read (r : Region β α) (d : Domain) (name : String) : Leads r (r.read d name).2 :=
  ⟨r.progress_read d name, (r.fits_read d name).sized,
    fun _ ready reading => reading.read ready d name⟩

theorem leads_takeNotes (r : Region β α) : Leads r r.takeNotes.2 :=
  ⟨r.progress_takeNotes, id, fun _ _ reading => reading.takeNotes⟩

instance : Owner (Region β α) where
  Later := Leads
  refl r := ⟨.refl r, id, fun _ _ => id⟩
  trans first second := ⟨first.progress.trans second.progress, second.sized ∘ first.sized,
    fun r₀ ready => second.reading r₀ ready ∘ first.reading r₀ ready⟩

end

theorem Settled.ready [BaseScalar β] [Scalar α] [Precision β α] (settled : r.Settled) : r.Ready :=
  ⟨settled.underway, settled.wellDeclared, settled.idle⟩

end Region

end FiniteVolume
