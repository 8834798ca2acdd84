import FiniteVolume.Proofs.Expression.Questions
import FiniteVolume.Proofs.Expression.Recomputation
import FiniteVolume.Proofs.Numeric.Exact

/-!
What an evaluation rests on.

An evaluation sees its owner through the names in its expression only (`Expr.evaluate_local`). Owners
that give the same answers for these names are not told apart, whatever they hold under other names
and whatever answering changes in them, so that a change elsewhere never outdates a computed value.
-/
namespace FiniteVolume

variable {β α σ σ' : Type}

/-- Owners with states. While their states are related, they give the same answers for each of the
names, and answering leaves the states related. -/
structure AnswerAlike (names : List String) (R : σ → σ' → Prop)
    (onLookup : String → StateM σ (LookupResult α)) (parameterOf : σ → String → Option β)
    (onLookup' : String → StateM σ' (LookupResult α)) (parameterOf' : σ' → String → Option β) :
    Prop where
  models : ∀ name ∈ names, ∀ s s', R s s' →
    (onLookup' name s').1 = (onLookup name s).1 ∧ R (onLookup name s).2 (onLookup' name s').2
  parameters : ∀ name ∈ names, ∀ s s', R s s' → parameterOf' s' name = parameterOf s name

namespace Expr

theorem name_mem_of_leaf {e : Expr β} {leaf : Question} (member : leaf ∈ e.leaves) :
    leaf.name ∈ e.referencedNames := mem_referencedNames.mpr ⟨leaf, member, rfl⟩

variable [BaseScalar β] [Scalar α] [Precision β α]

/-- An evaluation asks its owner, whichever it is, for leaves of the expression, by their referenced
names. Two owners that answer alike for the referenced names are asked the same questions in the same
order, and the evaluations have the same value and the same faults. -/
theorem evaluate_local (s : Surroundings) (functions : Registry α) (e : Expr β)
    (expected : Option Domain) :
    let q : Query β α (Evaluation α) := e.evaluate s functions expected
    (∀ {σ : Type} (onLookup : String → StateM σ (LookupResult α))
        (parameterOf : σ → String → Option β) (start : σ),
      ∀ asked ∈ q.log onLookup parameterOf start,
        asked.1 ∈ e.leaves ∧ asked.1.name ∈ e.referencedNames) ∧
    ∀ {σ σ' : Type} {R : σ → σ' → Prop} {onLookup : String → StateM σ (LookupResult α)}
        {parameterOf : σ → String → Option β} {onLookup' : String → StateM σ' (LookupResult α)}
        {parameterOf' : σ' → String → Option β} {start : σ} {start' : σ'},
      AnswerAlike e.referencedNames R onLookup parameterOf onLookup' parameterOf' →
      R start start' →
      (q.runState onLookup' parameterOf' start').1 = (q.runState onLookup parameterOf start).1 ∧
        (q.log onLookup' parameterOf' start').map Prod.fst =
          (q.log onLookup parameterOf start).map Prod.fst := by
  intro q
  have meets := e.meets_evaluate s functions expected
  refine ⟨fun onLookup parameterOf start asked member => ?_, fun alike related => ?_⟩
  · have leaf := meets.log asked member
    exact ⟨leaf, name_mem_of_leaf leaf⟩
  · obtain ⟨result, questions, -⟩ := meets.runState_alike related
      (fun name leaf => alike.models name (name_mem_of_leaf leaf))
      (fun name leaf => alike.parameters name (name_mem_of_leaf leaf))
    exact ⟨result, questions⟩

def shelf (others : LookupResult ℚ) (name : String) : LookupResult ℚ :=
  if name = "n" then .ok (some ⟨.node, .vector #[1, 2]⟩)
  else if name = "T" then .ok none
  else others

/-- One owner counts what it is asked and knows no other models. The other fails for them, and only
it has parameters of other names. -/
theorem evaluate_local_of_counting :
    let e : Expr ℚ := sum [model "n", product [parameter "T", model "n"]]
    let counting (name : String) : StateM Nat (LookupResult ℚ) := fun asked =>
      (shelf (.ok none) name, asked + 1)
    let failing (name : String) : StateM Unit (LookupResult ℚ) := fun _ =>
      (shelf (.error (.cyclicDependency name)) name, ())
    let heated (_ : Nat) (name : String) : Option ℚ :=
      if name = "T" then some 300 else if name = "n" then some 0 else none
    let other (_ : Unit) (name : String) : Option ℚ := some (if name = "T" then 300 else 0)
    let q : Query ℚ ℚ (Evaluation ℚ) :=
      e.evaluate { edgeMap := fun _ => #[], chunking := .serial } .builtin none
    AnswerAlike e.referencedNames (fun _ _ => True) counting heated failing other ∧
      (q.runState failing other ()).1 = (q.runState counting heated 0).1 ∧
      (q.runState failing other ()).1.value = .field .node (.vector #[301, 602]) ∧
      (q.log failing other ()).map (·.1) = [.model "n", .parameter "T"] := by
  intro e counting failing heated other q
  have names : e.referencedNames = ["n", "T"] := by decide +kernel
  have alike : AnswerAlike e.referencedNames (fun _ _ => True) counting heated failing other := by
    rw [names]
    refine ⟨fun name member _ _ _ => ⟨?_, trivial⟩, fun name member _ _ _ => ?_⟩ <;>
      simp only [List.mem_cons, List.not_mem_nil, or_false] at member <;>
      rcases member with rfl | rfl <;> rfl
  exact ⟨alike, ((evaluate_local _ _ e none).2 alike trivial).1, by decide +kernel, by decide +kernel⟩

end Expr

end FiniteVolume
