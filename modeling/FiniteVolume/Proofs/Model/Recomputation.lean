import FiniteVolume.Model.Reading
import FiniteVolume.Proofs.Model.Store
import FiniteVolume.Proofs.Query

/-!
What a read of a region means, apart from the order in which models are computed and cached.

`Region.valueWithin` computes a model from the fresh models and parameters of a region without
storing anything; it gives nothing when the nesting is deeper than allowed, hence nothing at any
depth when the model lies on or above a cycle. On `Region.uncached` no computed model is fresh, so
there it computes everything from the written models.
-/
namespace FiniteVolume

variable {β α : Type}

/-! ## Forgetting cached values -/

/-- The model as it was declared, without what was computed since. -/
def Model.uncached (m : Model β α) : Model β α :=
  match m.source with
  | .written => m
  | .computed _ => { m with state := .stale, value := none }

/-- The same declarations with nothing computed yet. -/
def ModelStore.uncached (s : ModelStore β α) : ModelStore β α :=
  { s with models := s.models.mapEntries fun _ m => m.uncached }

def Region.uncached (r : Region β α) : Region β α :=
  { r with models := r.models.uncached, notes := [] }

namespace Model

variable {m m' : Model β α}

@[simp] theorem source_uncached : m.uncached.source = m.source := by
  unfold uncached
  split <;> rfl

@[simp] theorem contact_uncached : m.uncached.contact = m.contact := by
  unfold uncached
  split <;> rfl

theorem source_of_uncached (same : m'.uncached = m.uncached) : m'.source = m.source := by
  rw [← source_uncached, same, source_uncached]

theorem contact_of_uncached (same : m'.uncached = m.uncached) : m'.contact = m.contact := by
  rw [← contact_uncached, same, contact_uncached]

theorem uncached_of_written (written : m.source = .written) : m.uncached = m := by
  simp [uncached, written]

@[simp] theorem uncached_uncached : m.uncached.uncached = m.uncached := by
  unfold uncached
  cases h : m.source <;> simp [h]

@[simp] theorem uncached_outdate : m.outdate.uncached = m.uncached := by
  unfold outdate
  split
  next h =>
    obtain ⟨calculator, computed⟩ := isComputed_iff.mp h.1
    simp [uncached, computed]
  · rfl

@[simp] theorem uncached_outdateIf {condition : Prop} [Decidable condition] :
    (m.outdateIf condition).uncached = m.uncached := by
  unfold outdateIf
  split
  · exact uncached_outdate
  · rfl

/-- State and value are the cached part of a computed model. -/
theorem uncached_cache {calculator : Calculator β α} (computed : m.source = .computed calculator)
    (state : ModelState) (value : Option (Field α)) :
    { m with state, value }.uncached = m.uncached := by
  simp [uncached, computed]

end Model

theorem ModelStore.get?_uncached {s : ModelStore β α} {d : Domain} {name : String} :
    s.uncached.get? d name = (s.get? d name).map Model.uncached := by
  rw [get?, uncached, Table.get?_mapEntries]
  rfl

theorem ModelStore.uncached_uncached (s : ModelStore β α) : s.uncached.uncached = s.uncached := by
  simp [uncached, Table.mapEntries, List.map_map, Function.comp_def]

theorem ModelStore.contains_uncached {s : ModelStore β α} {d : Domain} {name : String} :
    s.uncached.contains d name = s.contains d name := by
  rw [Bool.eq_iff_iff, contains_iff, contains_iff, get?_uncached]
  cases s.get? d name <;> simp

@[simp] theorem ModelStore.uncached_outdate {s : ModelStore β α} (names : List String) :
    (s.outdate names).uncached = s.uncached := by
  simp [uncached, outdate, Table.mapEntries, Function.comp_def, apply_ite Model.uncached]

@[simp] theorem ModelStore.uncached_markOld {s : ModelStore β α} {name : String} :
    (s.markOld name).uncached = s.uncached := by
  rw [markOld, outdateDependents, uncached_outdate, uncached_outdate]

/-- Models of stores with the same declarations differ in their cached part only. -/
theorem ModelStore.get?_of_uncached_eq {s s' : ModelStore β α} (same : s'.uncached = s.uncached)
    {d : Domain} {name : String} {m : Model β α} (found : s.get? d name = some m) :
    ∃ m', s'.get? d name = some m' ∧ m'.uncached = m.uncached := by
  have equal := congrArg (fun s => s.get? d name) same
  simp only [get?_uncached, found, Option.map_some] at equal
  exact Option.map_eq_some_iff.mp equal

theorem ModelStore.uncached_replace {s : ModelStore β α} {d : Domain} {name : String}
    {m m' : Model β α} (found : s.get? d name = some m) (same : m'.uncached = m.uncached) :
    (s.replace d name m').uncached = s.uncached := by
  suffices h : (s.models.modify (d, name) fun _ => m').mapEntries (fun _ m => m.uncached) =
      s.models.mapEntries fun _ m => m.uncached by simp [uncached, replace, h]
  simp only [Table.mapEntries, Table.modify, Table.mk.injEq, List.map_map]
  apply List.map_congr_left
  rintro ⟨key, m₀⟩ member
  by_cases here : key = (d, name)
  · have entry := Table.get?_eq_some_iff.mpr member
    rw [here] at entry
    obtain rfl : m = m₀ := Option.some.inj (found.symm.trans entry)
    simp [here, same]
  · simp [here]

namespace Region

variable {r r' : Region β α} {d : Domain} {name : String}

theorem uncached_uncached (r : Region β α) : r.uncached.uncached = r.uncached := by
  simp [uncached, ModelStore.uncached_uncached]

/-- Models of regions with the same declarations differ in their cached part only. -/
theorem get?_of_uncached_eq (same : r'.uncached = r.uncached) {m : Model β α}
    (found : r.models.get? d name = some m) :
    ∃ m', r'.models.get? d name = some m' ∧ m'.uncached = m.uncached :=
  ModelStore.get?_of_uncached_eq (congrArg Region.models same) found

theorem missing_of_uncached_eq (same : r'.uncached = r.uncached)
    (missing : r.models.get? d name = none) : r'.models.get? d name = none := by
  cases found' : r'.models.get? d name with
  | none => rfl
  | some m' =>
    obtain ⟨m, found, -⟩ := get?_of_uncached_eq same.symm found'
    rw [missing] at found
    cases found

theorem contains_of_uncached_eq (same : r'.uncached = r.uncached) :
    r'.models.contains = r.models.contains := by
  funext d name
  have equal := congrArg (fun s => s.models.contains d name) same
  simpa only [uncached, ModelStore.contains_uncached] using equal

theorem keys_of_uncached_eq (same : r'.uncached = r.uncached) :
    r'.models.models.keys = r.models.models.keys := by
  have equal := congrArg (fun s => s.models.models.keys) same
  simpa [uncached, ModelStore.uncached] using equal

end Region

/-! ## Values -/

/-- The calculator of a model whose value is not current. -/
def Model.pending? (m : Model β α) : Option (Calculator β α) :=
  match m.source with
  | .written => none
  | .computed calculator => if m.state = .fresh then none else some calculator

theorem Model.pending?_eq_some_iff {m : Model β α} {calculator : Calculator β α} :
    m.pending? = some calculator ↔ m.source = .computed calculator ∧ m.state ≠ .fresh := by
  unfold pending?
  cases m.source with
  | written => simp
  | computed c => by_cases fresh : m.state = .fresh <;> simp [fresh]

theorem Model.pending?_of_fresh {m : Model β α} (fresh : m.state = .fresh) : m.pending? = none := by
  unfold pending?
  cases m.source <;> simp [fresh]

namespace Region

variable [Scalar α] {r : Region β α} {d : Domain} {name : String} {m : Model β α}
  {calculator : Calculator β α} {i j : Nat}

/-- The answer to a name when models have the given values. -/
def answerWith (r : Region β α) (value : Domain → String → Option (Except ModelError (Field α)))
    (name : String) : Option (LookupResult α) :=
  match r.resolve? name with
  | none => some (.ok none)
  | some found => (value found.source.1 found.source.2).map (·.map fun data => some (found.answer data))

def targetOf (r : Region β α) (d : Domain) (name : String) (m : Model β α) : Target :=
  ⟨name, d, r.size d, m.contact⟩

/-- The values of a model, computed with at most `depth` nested computations. -/
def valueWithin (r : Region β α) :
    (depth : Nat) → Domain → String → Option (Except ModelError (Field α))
  | depth, d, name =>
    match r.models.get? d name with
    | none => some (.error (.missingModel d name))
    | some m =>
      match m.pending? with
      | none => some (m.value.elim (.error (.missingModel d name)) .ok)
      | some calculator =>
        match depth with
        | 0 => none
        | depth + 1 =>
          ((calculator.calculate r.surroundings (r.targetOf d name m)).run
            (r.answerWith (r.valueWithin depth)) (fun p => some (r.parameter? p))).map
              (r.settle (r.targetOf d name m))

/-- The values of a model, however deep its computation nests. -/
def Yields (r : Region β α) (d : Domain) (name : String)
    (result : Except ModelError (Field α)) : Prop :=
  ∃ depth, r.valueWithin depth d name = some result

/-- The model lies on or above a cycle. -/
def Undefined (r : Region β α) (d : Domain) (name : String) : Prop :=
  ∀ depth, r.valueWithin depth d name = none

theorem valueWithin_of_missing (missing : r.models.get? d name = none) :
    r.valueWithin i d name = some (.error (.missingModel d name)) := by
  unfold valueWithin
  rw [missing]

theorem valueWithin_of_settled (found : r.models.get? d name = some m)
    (settled : m.pending? = none) :
    r.valueWithin i d name = some (m.value.elim (.error (.missingModel d name)) .ok) := by
  unfold valueWithin
  simp [found, settled]

theorem valueWithin_of_fresh (found : r.models.get? d name = some m) (fresh : m.state = .fresh)
    {data : Field α} (value : m.value = some data) : r.valueWithin i d name = some (.ok data) := by
  rw [valueWithin_of_settled found (Model.pending?_of_fresh fresh), value]
  rfl

theorem valueWithin_zero (found : r.models.get? d name = some m)
    (pending : m.pending? = some calculator) : r.valueWithin 0 d name = none := by
  unfold valueWithin
  simp [found, pending]

theorem valueWithin_succ (found : r.models.get? d name = some m)
    (pending : m.pending? = some calculator) :
    r.valueWithin (i + 1) d name =
      ((calculator.calculate r.surroundings (r.targetOf d name m)).run
        (r.answerWith (r.valueWithin i)) (fun p => some (r.parameter? p))).map
          (r.settle (r.targetOf d name m)) := by
  rw [valueWithin]
  simp [found, pending]

theorem answerWith_mono {value value' : Domain → String → Option (Except ModelError (Field α))}
    (more : ∀ d name result, value d name = some result → value' d name = some result)
    {answer : LookupResult α} (answered : r.answerWith value name = some answer) :
    r.answerWith value' name = some answer := by
  unfold answerWith at answered ⊢
  split
  next unresolved => simpa [unresolved] using answered
  next found resolved =>
    rw [resolved] at answered
    obtain ⟨result, computed, rfl⟩ := Option.map_eq_some_iff.mp answered
    exact Option.map_eq_some_iff.mpr ⟨result, more _ _ _ computed, rfl⟩

theorem valueWithin_mono {result : Except ModelError (Field α)} (le : i ≤ j)
    (computed : r.valueWithin i d name = some result) : r.valueWithin j d name = some result := by
  induction i generalizing j d name result with
  | zero =>
    unfold valueWithin at computed ⊢
    split
    next missing => simpa [missing] using computed
    next m found =>
      rw [found] at computed
      cases pending : m.pending? with
      | none => simpa [pending] using computed
      | some calculator => simp [pending] at computed
  | succ i ih =>
    obtain ⟨j, rfl⟩ : ∃ k, j = k + 1 := ⟨j - 1, by omega⟩
    cases found : r.models.get? d name with
    | none => rw [valueWithin_of_missing found] at computed ⊢; exact computed
    | some m =>
      cases pending : m.pending? with
      | none =>
        unfold valueWithin at computed ⊢
        simpa [found, pending] using computed
      | some calculator =>
        rw [valueWithin_succ found pending] at computed ⊢
        obtain ⟨outcome, ran, rfl⟩ := Option.map_eq_some_iff.mp computed
        refine Option.map_eq_some_iff.mpr ⟨outcome, ?_, rfl⟩
        rw [Query.run_option_eq_some_iff] at ran ⊢
        exact ran.mono fun name a => answerWith_mono fun d name result => ih (by omega)

theorem Yields.unique {result result' : Except ModelError (Field α)}
    (first : r.Yields d name result) (second : r.Yields d name result') : result = result' := by
  obtain ⟨i, computed⟩ := first
  obtain ⟨j, computed'⟩ := second
  have left := valueWithin_mono (Nat.le_max_left i j) computed
  have right := valueWithin_mono (Nat.le_max_right i j) computed'
  exact Option.some.inj (left.symm.trans right)

def Answers (r : Region β α) (name : String) (answer : LookupResult α) : Prop :=
  ∃ depth, r.answerWith (r.valueWithin depth) name = some answer

theorem answers_of_yields {found : Resolution α} (resolved : r.resolve? name = some found)
    {result : Except ModelError (Field α)} (yields : r.Yields found.source.1 found.source.2 result) :
    r.Answers name (result.map fun data => some (found.answer data)) := by
  obtain ⟨depth, computed⟩ := yields
  exact ⟨depth, by simp [answerWith, resolved, computed]⟩

theorem answers_of_unresolved (unresolved : r.resolve? name = none) : r.Answers name (.ok none) :=
  ⟨0, by simp [answerWith, unresolved]⟩

/-- A calculation all of whose questions have defined answers gives the values of its model. -/
theorem yields_of_returns (found : r.models.get? d name = some m)
    (pending : m.pending? = some calculator) {outcome : Outcome α}
    (returns : (calculator.calculate r.surroundings (r.targetOf d name m)).Returns r.Answers
      r.parameter? outcome) :
    r.Yields d name (r.settle (r.targetOf d name m) outcome) := by
  have grow : ∀ i j name a, i ≤ j → r.answerWith (r.valueWithin i) name = some a →
      r.answerWith (r.valueWithin j) name = some a :=
    fun i j name a le => answerWith_mono fun d name result => valueWithin_mono le
  obtain ⟨depth, bounded⟩ := Query.Returns.bounded grow returns
  refine ⟨depth + 1, ?_⟩
  rw [valueWithin_succ found pending, Query.run_option_eq_some_iff.mpr bounded]
  rfl

end Region

end FiniteVolume
