import FiniteVolume.Model.Sum
import FiniteVolume.Numeric.Instances
import FiniteVolume.Proofs.Model.Store

/-!
Which registrations a store holds after any history of changes.

Models are kept by domain and name, registrations by name alone. After any history the dependents of
a name are exactly the models whose last change, on whatever domain, was a declaration that reads
the name. A computed model is therefore fully registered exactly when the last change of its name
was a declaration with all its dependencies, and a write reaches every registered model but one of
the written name itself.
-/
namespace FiniteVolume.ModelStore

variable {β α : Type} {s : ModelStore β α} {d : Domain} {n name x : String}

/-! ## Dependents after one operation -/

theorem dependencies_begin (size : Nat) :
    (s.begin d name size).2.dependencies = s.dependencies := by
  unfold begin
  repeat' split
  all_goals rfl

theorem dependencies_conclude (target : Target) (result : Except ModelError (Field α)) :
    (s.conclude target result).2.dependencies = s.dependencies := by
  unfold conclude
  repeat' split
  all_goals rfl

theorem mem_dependentsOf_write (mirrored : s.dependencies.Mirrored) (data : Field α) :
    n ∈ (s.write d name data).dependencies.dependentsOf x ↔
      n ∈ s.dependencies.dependentsOf x ∧ n ≠ name :=
  Dependencies.mem_dependentsOf_unregister mirrored

theorem mem_dependentsOf_declare (mirrored : s.dependencies.Mirrored) (calculator : Calculator β α)
    (contact : Option String) :
    n ∈ (s.declare d name calculator contact).dependencies.dependentsOf x ↔
      (n = name ∧ x ∈ calculator.dependencies) ∨ (n ∈ s.dependencies.dependentsOf x ∧ n ≠ name) := by
  rw [dependencies_declare, Dependencies.mem_dependentsOf_registerAll,
    Dependencies.mem_dependentsOf_unregister mirrored]

theorem mirrored_declare (mirrored : s.dependencies.Mirrored) (calculator : Calculator β α)
    (contact : Option String) :
    (s.declare d name calculator contact).dependencies.Mirrored := by
  rw [dependencies_declare]
  exact (mirrored.unregister name).registerAll name _

theorem mirrored_remove (mirrored : s.dependencies.Mirrored) :
    (s.remove d name).dependencies.Mirrored := by
  rw [dependencies_remove]
  split
  · exact mirrored.unregister name
  · exact mirrored

/-- One model is replaced or removed, and what is downstream of its name is outdated. -/
structure Replaced (s s' : ModelStore β α) (d : Domain) (name : String)
    (new : Option (Model β α)) : Prop where
  models : ∀ d' n, s'.get? d' n = if (d', n) = (d, name) then new
    else (s.get? d' n).map (·.outdateIf (n ∈ s'.dependencies.wave name))
  mirrored : s'.dependencies.Mirrored
  kept : ∀ n x, n ≠ name → n ∈ s.dependencies.dependentsOf x → n ∈ s'.dependencies.dependentsOf x
  registered : ∀ m calculator, new = some m → m.source = .computed calculator →
    ∀ x ∈ calculator.dependencies, name ∈ s'.dependencies.dependentsOf x

theorem replaced_write (mirrored : s.dependencies.Mirrored) (data : Field α) :
    Replaced s (s.write d name data) d name
      (some { source := .written, state := .fresh, value := some data,
              display := s.displayOf d name }) where
  models _ _ := get?_write data
  mirrored := mirrored.unregister name
  kept _ _ other member := (mem_dependentsOf_write mirrored data).mpr ⟨member, other⟩
  registered m _ new computed := by
    cases new
    cases computed

theorem replaced_declare (mirrored : s.dependencies.Mirrored) (calculator : Calculator β α)
    (contact : Option String) :
    Replaced s (s.declare d name calculator contact) d name
      (some { source := .computed calculator, state := .stale, value := none,
              display := s.displayOf d name, contact }) where
  models _ _ := get?_declare calculator contact
  mirrored := mirrored_declare mirrored calculator contact
  kept _ _ other member :=
    (mem_dependentsOf_declare mirrored calculator contact).mpr (.inr ⟨member, other⟩)
  registered m _ new computed x member := by
    cases new
    cases computed
    exact (mem_dependentsOf_declare mirrored calculator contact).mpr (.inl ⟨rfl, member⟩)

theorem replaced_remove (mirrored : s.dependencies.Mirrored)
    (present : s.contains d name = true) : Replaced s (s.remove d name) d name none where
  models d' n := by
    rw [get?_remove present, dependencies_remove, if_pos present]
  mirrored := mirrored_remove mirrored
  kept n x other member := by
    rw [dependencies_remove, if_pos present]
    exact (Dependencies.mem_dependentsOf_unregister mirrored).mpr ⟨member, other⟩
  registered m _ new := by cases new

/-! ## Histories -/

inductive Change (β α : Type) where
  | write (d : Domain) (name : String) (data : Field α)
  | declare (d : Domain) (name : String) (calculator : Calculator β α) (contact : Option String)
  | remove (d : Domain) (name : String)
  | setDisplay (d : Domain) (name : String) (display : DisplayType)
  | markOld (name : String)
  | begin (d : Domain) (name : String) (size : Nat)
  | finish (target : Target) (nodes : Option (List Nat)) (result : Except ModelError (Field α))

namespace Change

def apply [Scalar α] (s : ModelStore β α) : Change β α → ModelStore β α
  | write d name data => s.write d name data
  | declare d name calculator contact => s.declare d name calculator contact
  | remove d name => s.remove d name
  | setDisplay d name display => s.setDisplay d name display
  | markOld name => s.markOld name
  | begin d name size => (s.begin d name size).2
  | finish target nodes result => (s.finish target nodes result).2

/-- Whether the change gives a new meaning to a name on some domain. Removing an absent model
changes nothing. -/
def concerns (s : ModelStore β α) (n : String) : Change β α → Bool
  | write _ name _ | declare _ name _ _ => n == name
  | remove d name => n == name && s.contains d name
  | setDisplay .. | markOld _ | begin .. | finish .. => false

def sources : Change β α → List String
  | declare _ _ calculator _ => calculator.dependencies
  | _ => []

variable [Scalar α] {change : Change β α}

theorem mirrored_apply (mirrored : s.dependencies.Mirrored) :
    (change.apply s).dependencies.Mirrored := by
  cases change with
  | write d name data => exact mirrored.unregister name
  | declare d name calculator contact => exact mirrored_declare mirrored calculator contact
  | remove d name => exact mirrored_remove mirrored
  | setDisplay d name display => exact mirrored
  | markOld name => exact mirrored
  | begin d name size => simpa [apply, dependencies_begin] using mirrored
  | finish target nodes result => simpa [apply, ModelStore.finish, dependencies_conclude] using mirrored

/-- A change sets the registrations of the name it concerns and of no other. -/
theorem mem_dependentsOf_apply (mirrored : s.dependencies.Mirrored) :
    n ∈ (change.apply s).dependencies.dependentsOf x ↔
      if change.concerns s n then x ∈ change.sources else n ∈ s.dependencies.dependentsOf x := by
  cases change with
  | write d name data =>
    rw [apply, mem_dependentsOf_write mirrored]
    by_cases same : n = name <;> simp [concerns, sources, same]
  | declare d name calculator contact =>
    rw [apply, mem_dependentsOf_declare mirrored]
    by_cases same : n = name <;> simp [concerns, sources, same]
  | remove d name =>
    rw [apply, dependencies_remove]
    by_cases present : s.contains d name = true
    · rw [if_pos present, Dependencies.mem_dependentsOf_unregister mirrored]
      by_cases same : n = name <;> simp [concerns, sources, same, present]
    · simp [concerns, present]
  | setDisplay d name display => exact Iff.rfl
  | markOld name => exact Iff.rfl
  | begin d name size => simp [apply, concerns, dependencies_begin]
  | finish target nodes result => simp [apply, ModelStore.finish, concerns, dependencies_conclude]

end Change

variable [Scalar α]

def run (s : ModelStore β α) (changes : List (Change β α)) : ModelStore β α :=
  changes.foldl Change.apply s

/-- The names registered for a name by the last change in a history that concerns it, or those
registered before if none does. -/
def lastSources (n : String) (s : ModelStore β α) (before : List String) :
    List (Change β α) → List String
  | [] => before
  | change :: rest =>
    lastSources n (change.apply s) (if change.concerns s n then change.sources else before) rest

theorem mem_dependentsOf_run (changes : List (Change β α)) {before : List String}
    (mirrored : s.dependencies.Mirrored) (start : n ∈ s.dependencies.dependentsOf x ↔ x ∈ before) :
    n ∈ (s.run changes).dependencies.dependentsOf x ↔ x ∈ lastSources n s before changes := by
  induction changes generalizing s before with
  | nil => exact start
  | cons change rest ih =>
    refine ih (Change.mirrored_apply mirrored) ?_
    rw [Change.mem_dependentsOf_apply mirrored]
    split
    · exact Iff.rfl
    · exact start

theorem mirrored_run (changes : List (Change β α)) (mirrored : s.dependencies.Mirrored) :
    (s.run changes).dependencies.Mirrored := by
  induction changes generalizing s with
  | nil => exact mirrored
  | cons change rest ih => exact ih (Change.mirrored_apply mirrored)

omit [Scalar α] in
/-- A write outdates every other model registered under the written name, but for a model of that
name itself, whose registrations it drops. -/
theorem get?_write_of_registered (mirrored : s.dependencies.Mirrored) {d' : Domain}
    {m : Model β α} (found : s.get? d n = some m) (registered : n ∈ s.dependencies.dependentsOf x)
    (other : (d, n) ≠ (d', x)) (data : Field α) :
    (s.write d' x data).get? d n = some (if n = x then m else m.outdate) := by
  rw [get?_write, if_neg other, found, Option.map_some, Model.outdateIf]
  congr 1
  by_cases same : n = x
  · have absent : n ∉ (s.dependencies.unregister x).wave x := by
      intro member
      obtain ⟨y, direct⟩ := Dependencies.dependent_of_mem_wave member
      exact ((Dependencies.mem_dependentsOf_unregister mirrored).mp direct).2 same
    rw [if_neg absent, if_pos same]
  · have member : n ∈ (s.dependencies.unregister x).wave x :=
      Dependencies.mem_wave_of_dependent
        ((Dependencies.mem_dependentsOf_unregister mirrored).mpr ⟨registered, same⟩)
    rw [if_pos member, if_neg same]

/-- After any history a computed model is registered under all its dependencies exactly when the
last change of its name, on any domain, registered all of them. A later write to a name that it is
registered under leaves it fresh only if the name is its own. -/
theorem registered_iff_subset_lastSources (changes : List (Change β α)) (d : Domain) (n : String)
    (m : Model β α) (calculator : Calculator β α)
    (found : (run {} changes).get? d n = some m) (computed : m.source = .computed calculator) :
    ((∀ x ∈ calculator.dependencies, n ∈ (run {} changes).dependencies.dependentsOf x) ↔
      calculator.dependencies ⊆ lastSources n ({} : ModelStore β α) [] changes) ∧
    ∀ x ∈ calculator.dependencies, n ∈ (run {} changes).dependencies.dependentsOf x →
      ∀ (d' : Domain) (data : Field α), (d, n) ≠ (d', x) →
        ∃ m', ((run {} changes).write d' x data).get? d n = some m' ∧
          (m'.state = .fresh ↔ n = x ∧ m.state = .fresh) := by
  have mirrored := mirrored_run changes (s := ({} : ModelStore β α)) Dependencies.mirrored_empty
  constructor
  · refine forall_congr' fun x => forall_congr' fun _ => ?_
    refine mem_dependentsOf_run changes Dependencies.mirrored_empty ?_
    constructor <;> exact fun member => absurd member List.not_mem_nil
  · intro x _ registered d' data other
    refine ⟨_, get?_write_of_registered mirrored found registered other data, ?_⟩
    have outdated : m.outdate.state ≠ .fresh :=
      Model.state_outdate_ne_fresh (Model.isComputed_iff.mpr ⟨calculator, computed⟩)
    by_cases same : n = x <;> simp [same, outdated]

/-- A fresh model that a declaration on another domain has registered again. -/
theorem registered_after_wider_declaration :
    let s : ModelStore Float Float := run {} [
      .declare .node "m" (.sumOf ["x"] none none []) none,
      .declare .edge "m" (.sumOf ["x", "y"] none none []) none,
      .begin .node "m" 1, .finish ⟨"m", .node, 1, none⟩ none (.ok (.uniform 0 1))]
    s.isFresh .node "m" = true ∧ "m" ∈ s.dependencies.dependentsOf "x" ∧
      ∃ m', (s.write .edge "x" (.uniform 1 1)).get? .node "m" = some m' ∧ m'.state ≠ .fresh := by
  intro s
  obtain ⟨complete, reached⟩ := registered_iff_subset_lastSources _ .node "m" _
    (.sumOf ["x"] none none []) (show s.get? .node "m" = some _ from rfl) rfl
  have registered := complete.mpr (by decide) "x" (List.mem_singleton.mpr rfl)
  obtain ⟨m', found, state⟩ :=
    reached "x" (List.mem_singleton.mpr rfl) registered .edge (.uniform 1 1) (by decide)
  refine ⟨by decide, registered, m', found, fun fresh => ?_⟩
  exact absurd (state.mp fresh).1 (by decide)

/-- A write under the same name on another domain drops the registrations of a computed model. -/
theorem registration_lost_across_domains :
    ¬∀ (changes : List (Change Float Float)) (d : Domain) (n : String) (m : Model Float Float)
      (calculator : Calculator Float Float), (run {} changes).get? d n = some m →
      m.source = .computed calculator →
      ∀ x ∈ calculator.dependencies, n ∈ (run {} changes).dependencies.dependentsOf x := by
  intro complete
  have registered := complete
    [.declare .node "m" (.sumOf ["x"] none none []) none, .write .edge "m" (.uniform 0 1)]
    .node "m" _ _ rfl rfl "x" (List.mem_singleton.mpr rfl)
  revert registered
  decide

end FiniteVolume.ModelStore
