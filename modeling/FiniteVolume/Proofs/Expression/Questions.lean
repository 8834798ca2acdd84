import FiniteVolume.Expression.Calculator
import FiniteVolume.Proofs.Query

/-!
What the evaluation of an expression asks, and when it reports a cycle.

An evaluation asks for the leaves of its expression and nothing else. It keeps every fault it meets,
so the first cyclic answer of a run is the first cycle among its faults, and a calculator made from
an expression fails with exactly that cycle. `Calculator.Faithful` states both facts of a calculator.
-/
namespace FiniteVolume

variable {β α ρ σ : Type}

/-! ## Leaves -/

namespace Expr

mutual

/-- The models and parameters in the tree, as often as they occur. -/
def leaves : Expr β → List Question
  | constant _ | invalid _ => []
  | parameter n => [.parameter n]
  | model n => [.model n]
  | sum xs | product xs | call _ xs => leavesOfList xs
  | ifThen c t => leaves c ++ leaves t
  | ifElse c t e => leaves c ++ leaves t ++ leaves e

def leavesOfList : List (Expr β) → List Question
  | [] => []
  | x :: xs => leaves x ++ leavesOfList xs

end

mutual

theorem names_eq : ∀ e : Expr β, e.names = e.leaves.map Question.name
  | constant _ => rfl
  | invalid _ => rfl
  | parameter _ => rfl
  | model _ => rfl
  | sum xs => namesOfList_eq xs
  | product xs => namesOfList_eq xs
  | call _ xs => namesOfList_eq xs
  | ifThen c t => by simp [names, leaves, names_eq c, names_eq t]
  | ifElse c t e => by simp [names, leaves, names_eq c, names_eq t, names_eq e]

theorem namesOfList_eq : ∀ xs : List (Expr β), namesOfList xs = (leavesOfList xs).map Question.name
  | [] => rfl
  | x :: xs => by simp [namesOfList, leavesOfList, names_eq x, namesOfList_eq xs]

end

theorem mem_referencedNames {e : Expr β} {name : String} :
    name ∈ e.referencedNames ↔ ∃ leaf ∈ e.leaves, leaf.name = name := by
  rw [referencedNames, OrderedSet.mem_elems_ofList, names_eq, List.mem_map]

/-- The dependencies are the names of the leaves and the bases of those with a suffix. -/
theorem mem_dependencies {e : Expr β} {name : String} :
    name ∈ e.dependencies ↔
      ∃ leaf ∈ e.leaves, leaf.name = name ∨ ∃ s, Suffix.split? leaf.name = some (name, s) := by
  simp only [dependencies, OrderedSet.mem_elems_ofList, List.mem_flatMap, mem_referencedNames]
  constructor
  · rintro ⟨_, ⟨leaf, member, rfl⟩, listed⟩
    refine ⟨leaf, member, ?_⟩
    split at listed
    next base s split =>
      rcases List.mem_cons.mp listed with rfl | second
      · exact .inr ⟨s, split⟩
      · exact .inl (List.mem_singleton.mp second).symm
    next => exact .inl (List.mem_singleton.mp listed).symm
  · rintro ⟨leaf, member, rfl | ⟨s, split⟩⟩
    · refine ⟨_, ⟨leaf, member, rfl⟩, ?_⟩
      split <;> simp
    · exact ⟨_, ⟨leaf, member, rfl⟩, by simp [split]⟩

end Expr

/-! ## Faults that no failed read is behind -/

/-- The faults of this result are its own. -/
def Blameless (result : Except EvalError ρ) : Prop := ∀ e, result = .error e → e.cause? = none

theorem Blameless.ok (r : ρ) : Blameless (.ok r) := fun _ equal => by cases equal

theorem Blameless.bind {result : Except EvalError ρ} {f : ρ → Except EvalError σ}
    (first : Blameless result) (next : ∀ r, Blameless (f r)) : Blameless (result >>= f) := by
  cases result with
  | ok r => exact next r
  | error e => intro e' equal; cases equal; exact first e rfl

theorem Blameless.foldlM {f : σ → ρ → Except EvalError σ} (step : ∀ s r, Blameless (f s r))
    (rs : List ρ) (s : σ) : Blameless (rs.foldlM f s) := by
  induction rs generalizing s with
  | nil => exact .ok s
  | cons r rest ih => exact (step s r).bind fun s => ih s

theorem Blameless.mapM {f : ρ → Except EvalError σ} (step : ∀ r, Blameless (f r)) (rs : List ρ) :
    Blameless (rs.mapM f) := by
  induction rs with
  | nil => exact .ok []
  | cons r rest ih =>
    rw [List.mapM_cons]
    exact (step r).bind fun _ => ih.bind fun _ => .ok _

namespace Value

theorem blameless_commonDomain (context : String) (left right : Option Domain) :
    Blameless (commonDomain context left right) := by
  intro e equal
  unfold commonDomain at equal
  split at equal
  · cases equal
  · cases equal
  · split at equal
    · cases equal
    · split at equal <;> cases equal
      rfl

variable [Scalar α]

theorem blameless_operand (s : Surroundings) (context : String) (d : Domain) (size : Nat)
    (arg : Value α) : Blameless (operand s context d size arg) := by
  intro e equal
  unfold operand at equal
  split at equal
  · cases equal; rfl
  · split at equal <;> cases equal
    rfl

theorem blameless_operands (s : Surroundings) (context : String) (args : List (Value α)) :
    Blameless (operands s context args) := by
  refine (Blameless.foldlM (fun d arg => blameless_commonDomain context d arg.domain?) args none).bind ?_
  rintro (_ | d)
  · exact .ok _
  · exact (Blameless.mapM (fun arg => blameless_operand s context d _ arg) args).bind fun _ => .ok _

theorem blameless_applyTo (c : Chunking) (context : String) (f : Function α) (args : Operands α) :
    Blameless (applyTo c context f args) := by
  intro e equal
  unfold applyTo at equal
  repeat' split at equal
  all_goals cases equal <;> rfl

theorem blameless_reduce [BaseScalar β] [Precision β α] (context : String) (r : Reduction)
    (args : List (Value α)) : Blameless (reduce (β := β) context r args) := by
  intro e equal
  unfold reduce at equal
  split at equal <;> cases equal
  rfl

end Value

/-! ## Evaluations -/

def firstCycle (errors : List EvalError) : Option String :=
  errors.findSome? fun e => e.cause?.bind ModelError.cycle?

theorem firstCycle_append (errors : List EvalError) (e : EvalError) :
    firstCycle (errors ++ [e]) = (firstCycle errors).or (e.cause?.bind ModelError.cycle?) := by
  simp [firstCycle, List.findSome?_append, List.findSome?_cons]
  cases e.cause?.bind ModelError.cycle? <;> rfl

namespace Eval

/-- The step asks allowed questions only and has every cycle it meets among its faults, the first
one first. -/
def Tracks (allowed : Question → Prop) (a : Eval β α ρ) : Prop :=
  ∀ session : Session α, (a.run session).Meets allowed
    (fun seen r => seen = firstCycle r.2.errors) (firstCycle session.errors)

variable {allowed : Question → Prop}

theorem tracks_pure (r : ρ) : Tracks allowed (pure r : Eval β α ρ) := fun _ => rfl

theorem Tracks.bind {a : Eval β α ρ} {f : ρ → Eval β α σ} (first : Tracks allowed a)
    (next : ∀ r, Tracks allowed (f r)) : Tracks allowed (a >>= f) := fun session =>
  (first session).bind fun _ r seen => by
    subst seen
    exact next r.1 r.2

theorem tracks_get : Tracks allowed (get : Eval β α (Session α)) := fun _ => rfl

/-- Remembering a value leaves the faults as they are. -/
theorem tracks_modify {f : Session α → Session α} (keeps : ∀ s, (f s).errors = s.errors) :
    Tracks allowed (modify f : Eval β α PUnit) := fun session =>
  congrArg firstCycle (keeps session).symm

theorem tracks_fail {e : EvalError} (blameless : e.cause? = none) :
    Tracks allowed (fail e : Eval β α (Value α)) := fun session => by
  change firstCycle session.errors = firstCycle (session.errors ++ [e])
  rw [firstCycle_append, blameless, Option.bind_none, Option.or_none]

theorem tracks_ofExcept {r : Except EvalError (Value α)} (blameless : Blameless r) :
    Tracks allowed (ofExcept r : Eval β α (Value α)) := by
  cases r with
  | ok v => exact tracks_pure v
  | error e => exact tracks_fail (blameless e rfl)

theorem tracks_model {name : String} (leaf : allowed (.model name)) :
    Tracks allowed (model name : Eval β α (Value α)) := fun session => by
  refine ⟨leaf, ?_⟩
  rintro (cause | _ | found)
  · change _ = firstCycle (session.errors ++ [.model name cause])
    rw [firstCycle_append]
    rfl
  · change _ = firstCycle (session.errors ++ [.missingModel name])
    rw [firstCycle_append]
    rfl
  · exact Option.or_none

variable [BaseScalar β] [Scalar α] [Precision β α]

omit [BaseScalar β] [Scalar α] in
theorem tracks_parameter {name : String} (leaf : allowed (.parameter name)) :
    Tracks allowed (parameter name : Eval β α (Value α)) := fun session => by
  refine ⟨leaf, ?_⟩
  rintro (_ | v)
  · exact tracks_fail (β := β) rfl session
  · rfl

theorem tracks_apply (s : Surroundings) (context : String) (f : Function α) (args : List (Value α))
    (reporting : Bool) : Tracks allowed (apply s context f args reporting : Eval β α (Value α)) := by
  unfold apply
  split
  · exact tracks_ofExcept (Value.blameless_reduce context _ args)
  · split
    · split
      · exact tracks_fail rfl
      · exact tracks_pure _
    · exact tracks_ofExcept ((Value.blameless_operands s context args).bind fun operands =>
        Value.blameless_applyTo s.chunking context f operands)

omit [Precision β α] in
theorem Tracks.remember {e : Expr β} {body : Eval β α (Value α)} (tracks : Tracks allowed body) :
    Tracks allowed (remember e body) := by
  refine tracks_get.bind fun session => ?_
  split
  · exact tracks_pure _
  · refine tracks.bind fun v => ?_
    split
    · exact tracks_fail rfl
    · split
      · refine Tracks.bind (tracks_modify ?_) fun _ => tracks_pure v
        exact fun _ => rfl
      · exact tracks_pure v

end Eval

namespace Expr

open Eval

variable [BaseScalar β] [Scalar α] [Precision β α] {allowed : Question → Prop}

mutual

theorem tracks_eval (s : Surroundings) (functions : Registry α) : ∀ e : Expr β,
    (∀ leaf ∈ e.leaves, allowed leaf) → Tracks allowed (eval s functions e)
  | constant _, _ => tracks_pure _
  | invalid _, _ => tracks_fail rfl
  | parameter _, within => (tracks_parameter (within _ (List.mem_singleton.mpr rfl))).remember
  | model _, within => (tracks_model (within _ (List.mem_singleton.mpr rfl))).remember
  | sum [], _ => (tracks_pure _).remember
  | sum (x :: xs), within => by
    obtain ⟨head, tail⟩ := List.forall_mem_append.mp within
    exact ((tracks_eval s functions x head).bind fun v =>
      tracks_evalSum s functions v xs tail).remember
  | product xs, within => (tracks_evalProduct s functions _ xs within).remember
  | ifThen c t, within => by
    obtain ⟨condition, body⟩ := List.forall_mem_append.mp within
    refine Tracks.remember ((tracks_eval s functions c condition).bind fun v => ?_)
    have selected := tracks_eval s functions t body
    split
    · exact tracks_pure _
    · split
      · exact tracks_pure _
      · exact selected
    · exact selected.bind fun v => tracks_apply s "if" _ _ false
  | ifElse c t e, within => by
    obtain ⟨both, otherwise⟩ := List.forall_mem_append.mp within
    obtain ⟨condition, body⟩ := List.forall_mem_append.mp both
    refine Tracks.remember ((tracks_eval s functions c condition).bind fun v => ?_)
    have whenTrue := tracks_eval s functions t body
    have whenFalse := tracks_eval s functions e otherwise
    split
    · exact tracks_pure _
    · split
      · exact whenFalse
      · exact whenTrue
    · exact whenTrue.bind fun _ => whenFalse.bind fun _ => tracks_apply s "ifelse" _ _ false
  | call name args, within => by
    refine Tracks.remember ?_
    split
    · exact tracks_fail rfl
    · split
      · exact tracks_fail rfl
      · exact (tracks_evalList s functions args within).bind fun vs => tracks_apply s name _ vs true

theorem tracks_evalList (s : Surroundings) (functions : Registry α) : ∀ xs : List (Expr β),
    (∀ leaf ∈ leavesOfList xs, allowed leaf) → Tracks allowed (evalList s functions xs)
  | [], _ => tracks_pure _
  | x :: xs, within => by
    obtain ⟨head, tail⟩ := List.forall_mem_append.mp within
    exact (tracks_eval s functions x head).bind fun v =>
      (tracks_evalList s functions xs tail).bind fun vs => tracks_pure _

theorem tracks_evalSum (s : Surroundings) (functions : Registry α) (total : Value α) :
    ∀ xs : List (Expr β), (∀ leaf ∈ leavesOfList xs, allowed leaf) →
      Tracks allowed (evalSum s functions total xs)
  | [], _ => tracks_pure _
  | x :: xs, within => by
    obtain ⟨head, tail⟩ := List.forall_mem_append.mp within
    exact (tracks_eval s functions x head).bind fun v =>
      (tracks_apply s "+" _ _ false).bind fun total => tracks_evalSum s functions total xs tail

theorem tracks_evalProduct (s : Surroundings) (functions : Registry α) (total : Value α) :
    ∀ xs : List (Expr β), (∀ leaf ∈ leavesOfList xs, allowed leaf) →
      Tracks allowed (evalProduct s functions total xs)
  | [], _ => tracks_pure _
  | x :: xs, within => by
    obtain ⟨head, tail⟩ := List.forall_mem_append.mp within
    refine (tracks_eval s functions x head).bind fun v => ?_
    split
    · exact tracks_pure _
    · exact (tracks_apply s "*" _ _ false).bind fun total =>
        tracks_evalProduct s functions total xs tail

end

/-- An evaluation asks for the leaves of its expression and reports the first cycle it meets. -/
theorem meets_evaluate (s : Surroundings) (functions : Registry α) (e : Expr β)
    (expected : Option Domain) : (e.evaluate s functions expected).Meets (· ∈ e.leaves)
      (fun seen evaluation => seen = firstCycle evaluation.errors) none :=
  (tracks_eval s functions e (fun _ member => member) {}).bind fun _ _ seen => seen

end Expr

/-! ## Calculators -/

/-- A calculator that asks for its dependencies only and fails with the first cycle it meets, and
with a cycle in no other case. -/
def Calculator.Faithful (c : Calculator β α) : Prop :=
  ∀ s target, (c.calculate s target).Meets (·.name ∈ c.dependencies)
    (fun seen outcome => cycleOf outcome.result = seen) none

theorem Evaluation.cycle?_eq (e : Evaluation α) :
    e.cycle? = (firstCycle e.errors).map .cyclicDependency := by
  unfold cycle? firstCycle
  induction e.errors with
  | nil => rfl
  | cons error rest ih =>
    rw [List.findSome?_cons, List.findSome?_cons]
    cases error.cause? with
    | none => exact ih
    | some cause => cases cause <;> first | exact ih | rfl

theorem Evaluation.cycleOf_outcome (e : Evaluation α) (target : Target) :
    cycleOf (e.outcome target).result = firstCycle e.errors := by
  unfold outcome
  rw [e.cycle?_eq]
  cases firstCycle e.errors with
  | some name => rfl
  | none =>
    simp only [Option.map_none]
    split
    · rfl
    · rfl
    · dsimp only
      split <;> rfl

section

variable [BaseScalar β] [Scalar α] [Precision β α] (functions : Registry α) (e : Expr β)

/-- A calculator made from an expression asks for the leaves and fails with the first cycle. -/
theorem Calculator.meets_ofExpr (s : Surroundings) (target : Target) :
    ((Calculator.ofExpr functions e).calculate s target).Meets (· ∈ e.leaves)
      (fun seen outcome => cycleOf outcome.result = seen) none :=
  (e.meets_evaluate s functions (some target.domain)).bind fun seen result equal => by
    subst equal
    exact result.cycleOf_outcome target

theorem Calculator.faithful_ofExpr : (Calculator.ofExpr functions e).Faithful := fun s target =>
  (Calculator.meets_ofExpr functions e s target).mono
    (fun leaf member => Expr.mem_dependencies.mpr ⟨leaf, member, .inl rfl⟩) fun _ _ same => same

end

end FiniteVolume
