import FiniteVolume.Numeric.Instances
import FiniteVolume.Proofs.Expression.Memory
import FiniteVolume.Proofs.Expression.Operands
import FiniteVolume.Proofs.Expression.Questions

/-!
The faults of an evaluation.

An invalid value is never silent: wherever an evaluation gives up without a fault of its own, an
operand has left one before (`Expr.candid_eval`). Nor is a value that is not finite let through, from
memory or not. In a tree without branches no fault hides another, so that every leaf without a value
is on record, as long as no other subtree is written like it (`Expr.evaluate_reports`).
-/
namespace FiniteVolume

variable {β α ρ σ : Type}

namespace Value

def elements : Value α → List α
  | scalar x => [x]
  | field _ data => data.toArray.toList
  | invalid => []

variable [Scalar α] {s : Surroundings} {context : String}

theorem isFinite_of_mem_elements {v : Value α} (finite : v.isFinite = true) :
    ∀ x ∈ v.elements, Scalar.isFinite x = true := by
  cases v with
  | scalar y =>
    intro x member
    exact List.mem_singleton.mp member ▸ finite
  | invalid => simp [elements]
  | field d data =>
    cases data with
    | uniform y n =>
      intro x member
      rw [elements, Field.toArray, Array.mem_toList_iff, Array.mem_replicate] at member
      exact member.2 ▸ finite
    | vector ys =>
      intro x member
      exact Array.all_eq_true'.mp finite x (Array.mem_toList_iff.mp member)

/-- Reading a field through an index leaves it finite, also at positions that do not exist. -/
theorem isFinite_widenTo (zeroFinite : Scalar.isFinite (0 : α) = true) (expected : Option Domain)
    {v : Value α} (finite : v.isFinite = true) : (Expr.widenTo s expected v).isFinite = true := by
  unfold Expr.widenTo
  split
  next d data =>
    split
    · cases data with
      | uniform x n => exact finite
      | vector xs =>
        simp only [Value.isFinite, Field.isFinite, Field.gather, Field.gather_eq, Array.all_map,
          Array.all_eq_true'] at finite ⊢
        intro j _
        cases found : xs[j]? with
        | none => simpa [found] using zeroFinite
        | some x => simpa [found] using finite x (Array.mem_of_getElem? found)
    · exact finite
  · exact finite

omit [Scalar α] in
theorem isInvalid_widenTo [Scalar α] (expected : Option Domain) (v : Value α) :
    (Expr.widenTo s expected v).isInvalid = v.isInvalid := by
  unfold Expr.widenTo
  split
  · split <;> rfl
  · rfl

/-- A function applies to operands on one domain, or the misfit is a fault: operands have one length,
so that they never fail to combine in silence. -/
theorem valid_of_applied {f : Function α} {args : List (Value α)} {v : Value α}
    (applied : (do applyTo s.chunking context f (← operands s context args)) = .ok v) :
    v.isInvalid = false := by
  cases combined : operands s context args with
  | error e => simp [combined, bind, Except.bind] at applied
  | ok on =>
    rw [combined] at applied
    cases on with
    | scalars xs =>
      obtain ⟨x, -, rfl⟩ := applyTo_scalars applied
      rfl
    | fields d xs =>
      obtain ⟨-, lifts⟩ := operands_eq_fields_iff.mp combined
      obtain ⟨z, rfl, -⟩ := applyTo_fields (size_of_lifts lifts) applied
      rfl

theorem valid_of_reduced [BaseScalar β] [Precision β α] {r : Reduction} {args : List (Value α)}
    {v : Value α} (reduced : reduce (β := β) context r args = .ok v) : v.isInvalid = false := by
  unfold reduce at reduced
  split at reduced <;> cases reduced <;> rfl

end Value

/-! ## Silence -/

namespace Eval

variable [Scalar α]

/-- A session that remembers valid and finite values only. -/
def Sound (s : Session α) : Prop :=
  ∀ entry ∈ s.remembered, entry.2.isInvalid = false ∧ entry.2.isFinite = true

/-- A step that keeps faults on record, and sessions sound. Where its result is faulty, a fault is on
record at the end, unless it is excused by something before. -/
def Candid (excuse : Prop) (faulty : ρ → Prop) (a : Eval β α ρ) : Prop :=
  ∀ s, Sound s → (a.run s).Always fun r =>
    Sound r.2 ∧ s.errors <+: r.2.errors ∧ (faulty r.1 → excuse ∨ r.2.errors ≠ [])

section

variable {excuse excuse' : Prop} {faulty : ρ → Prop} {faulty' : σ → Prop}

theorem candid_pure {r : ρ} (excused : faulty r → excuse) :
    Candid excuse faulty (pure r : Eval β α ρ) := fun _ sound =>
  ⟨sound, List.prefix_refl _, fun bad => .inl (excused bad)⟩

theorem Candid.excused {a : Eval β α ρ} (candid : Candid excuse faulty a)
    (weaker : excuse → excuse') : Candid excuse' faulty a := fun s sound =>
  (candid s sound).mono fun _ ⟨sound, kept, told⟩ =>
    ⟨sound, kept, fun bad => (told bad).imp_left weaker⟩

/-- What goes wrong first excuses what comes after. -/
theorem Candid.bind {a : Eval β α ρ} {f : ρ → Eval β α σ} (first : Candid excuse faulty a)
    (next : ∀ r, Candid (excuse ∨ faulty r) faulty' (f r)) : Candid excuse faulty' (a >>= f) := by
  intro s sound
  refine (first s sound).bind fun r ⟨sound₁, kept₁, told₁⟩ => ?_
  refine (next r.1 r.2 sound₁).mono fun r' ⟨sound₂, kept₂, told₂⟩ => ?_
  refine ⟨sound₂, kept₁.trans kept₂, fun bad => ?_⟩
  rcases told₂ bad with (before | bad₁) | recorded
  · exact .inl before
  · exact (told₁ bad₁).imp_right fun recorded none => recorded (List.prefix_nil.mp (none ▸ kept₂))
  · exact .inr recorded

theorem candid_fail (e : EvalError) {faulty : Value α → Prop} :
    Candid excuse faulty (fail e : Eval β α (Value α)) := fun _ sound =>
  ⟨sound, List.prefix_append _ _, fun _ => .inr (by simp)⟩

theorem candid_ofExcept {r : Except EvalError (Value α)}
    (valid : ∀ v, r = .ok v → v.isInvalid = false) :
    Candid excuse (·.isInvalid) (ofExcept r : Eval β α (Value α)) := by
  cases r with
  | ok v => exact candid_pure fun bad => by simp [valid v rfl] at bad
  | error e => exact candid_fail e

theorem Candid.ask {f : LookupResult α → Eval β α ρ} (name : String)
    (candid : ∀ answer, Candid excuse faulty (f answer)) :
    Candid excuse faulty ((Query.ask name : Query β α _) >>= f : Eval β α ρ) :=
  fun s sound answer => candid answer s sound

theorem Candid.askParameter {f : Option β → Eval β α ρ} (name : String)
    (candid : ∀ answer, Candid excuse faulty (f answer)) :
    Candid excuse faulty ((Query.askParameter name : Query β α _) >>= f : Eval β α ρ) :=
  fun s sound answer => candid answer s sound

theorem candid_model (name : String) :
    Candid excuse (·.isInvalid) (model name : Eval β α (Value α)) := by
  refine .ask name ?_
  rintro (cause | _ | found)
  · exact candid_fail _
  · exact candid_fail _
  · exact candid_pure fun bad => by cases bad

variable [BaseScalar β] [Precision β α]

omit [BaseScalar β] in
theorem candid_parameter (name : String) :
    Candid excuse (·.isInvalid) (parameter name : Eval β α (Value α)) := by
  refine .askParameter name ?_
  rintro (_ | v)
  · exact candid_fail _
  · exact candid_pure fun bad => by cases bad

theorem candid_apply (s : Surroundings) (context : String) (f : Function α) (args : List (Value α))
    (reporting : Bool) : Candid (∃ v ∈ args, v.isInvalid) (·.isInvalid)
      (apply s context f args reporting : Eval β α (Value α)) := by
  unfold apply
  split
  · exact candid_ofExcept fun v reduced => Value.valid_of_reduced reduced
  · split
    next invalid =>
      split
      · exact candid_fail _
      · exact candid_pure fun _ => List.any_eq_true.mp invalid
    · exact candid_ofExcept fun v applied => Value.valid_of_applied applied

end

variable [BaseScalar β] (e : Expr β)

theorem Sound.lookup {s : Session α} (sound : Sound s) {key : String} {v : Value α}
    (hit : s.remembered.lookup key = some v) : v.isInvalid = false ∧ v.isFinite = true := by
  obtain ⟨before, after, entries, -⟩ := List.lookup_eq_some_iff.mp hit
  exact sound (key, v) (entries ▸ by simp)

theorem Candid.remember {body : Eval β α (Value α)} {excuse : Prop}
    (candid : Candid excuse (·.isInvalid) body) :
    Candid excuse (·.isInvalid) (Eval.remember e body) := by
  intro s sound
  cases looked : s.remembered.lookup e.key with
  | some v =>
    rw [run_remember_of_hit e body looked]
    exact ⟨sound, List.prefix_refl _, fun bad => by simp [(sound.lookup looked).1] at bad⟩
  | none =>
    rw [run_remember_of_miss e body looked]
    refine (candid s sound).bind fun r ⟨sound', kept, told⟩ => ?_
    change Sound (keep e r.1 r.2).2 ∧ _
    unfold keep
    cases finite : r.1.isFinite with
    | false => exact ⟨sound', kept.trans (List.prefix_append _ _), fun _ => .inr (by simp)⟩
    | true =>
      cases invalid : r.1.isInvalid with
      | true => exact ⟨sound', kept, told⟩
      | false =>
        refine ⟨List.forall_mem_cons.mpr ⟨⟨invalid, finite⟩, sound'⟩, kept, fun bad => ?_⟩
        simp [invalid] at bad

theorem finite_remember (body : Eval β α (Value α)) {s : Session α} (sound : Sound s) :
    ((Eval.remember e body).run s).Always fun r => r.1.isFinite = true := by
  cases looked : s.remembered.lookup e.key with
  | some v =>
    rw [run_remember_of_hit e body looked]
    exact (sound.lookup looked).2
  | none =>
    rw [run_remember_of_miss e body looked]
    refine (Query.always_of_forall fun _ => trivial).bind fun r _ => ?_
    change (keep e r.1 r.2).1.isFinite = true
    unfold keep
    cases finite : r.1.isFinite with
    | false => rfl
    | true => exact finite

end Eval

namespace Expr

open Eval

variable [BaseScalar β] [Scalar α] [Precision β α] (s : Surroundings) (functions : Registry α)

mutual

/-- A faulty value of an expression has its fault on record. -/
theorem candid_eval : ∀ e : Expr β, Candid False (·.isInvalid) (eval s functions e : Eval β α _)
  | constant _ => candid_pure fun bad => by cases bad
  | invalid _ => candid_fail _
  | parameter n => (candid_parameter n).remember _
  | model n => (candid_model n).remember _
  | sum [] => (candid_pure fun bad => by cases bad).remember _
  | sum (x :: xs) => ((candid_eval x).bind fun v =>
      (candid_evalSum v xs).excused .inr).remember _
  | product xs => ((candid_evalProduct (.scalar 1) xs).excused fun bad => by cases bad).remember _
  | ifThen c t => by
    refine ((candid_eval c).bind fun v => ?_).remember _
    -- An invalid condition excuses an invalid result, as its own fault is on record.
    have selected := (candid_eval t).excused (False.elim (C := False ∨ v.isInvalid))
    split
    · exact candid_pure .inr
    · split
      · exact candid_pure fun bad => by cases bad
      · exact selected
    · refine selected.bind fun w => (candid_apply s "if" _ _ false).excused ?_
      simp
  | ifElse c t e => by
    refine ((candid_eval c).bind fun v => ?_).remember _
    have whenTrue := (candid_eval t).excused (False.elim (C := False ∨ v.isInvalid))
    have whenFalse := (candid_eval e).excused (False.elim (C := False ∨ v.isInvalid))
    split
    · exact candid_pure .inr
    · split
      · exact whenFalse
      · exact whenTrue
    · refine whenTrue.bind fun w => (whenFalse.excused .inl).bind fun u =>
        (candid_apply s "ifelse" _ _ false).excused ?_
      simp [or_assoc]
  | call name args => by
    refine Candid.remember _ ?_
    split
    · exact candid_fail _
    · split
      · exact candid_fail _
      · exact (candid_evalList args).bind fun vs => (candid_apply s name _ vs true).excused .inr

theorem candid_evalList : ∀ xs : List (Expr β),
    Candid False (fun vs => ∃ v ∈ vs, v.isInvalid) (evalList s functions xs : Eval β α _)
  | [] => candid_pure fun bad => by simp at bad
  | x :: xs => (candid_eval x).bind fun v =>
    ((candid_evalList xs).excused False.elim).bind fun vs => candid_pure fun bad => by
      simpa using bad

theorem candid_evalSum (total : Value α) : ∀ xs : List (Expr β),
    Candid total.isInvalid (·.isInvalid) (evalSum s functions total xs : Eval β α _)
  | [] => candid_pure id
  | x :: xs => ((candid_eval x).excused False.elim).bind fun v =>
    ((candid_apply s "+" _ _ false).excused (by simp)).bind fun total =>
      (candid_evalSum total xs).excused .inr

theorem candid_evalProduct (total : Value α) : ∀ xs : List (Expr β),
    Candid total.isInvalid (·.isInvalid) (evalProduct s functions total xs : Eval β α _)
  | [] => candid_pure id
  | x :: xs => by
    refine ((candid_eval x).excused False.elim).bind fun v => ?_
    split
    · exact candid_pure fun bad => by cases bad
    · exact ((candid_apply s "*" _ _ false).excused (by simp)).bind fun total =>
        (candid_evalProduct total xs).excused .inr

end

theorem finite_eval (e : Expr β) {session : Session α} (sound : Sound session) :
    ((eval s functions e).run session).Always fun r => e.isConstant = false → r.1.isFinite = true := by
  cases e with
  | constant v => exact fun notLiteral => by cases notLiteral
  | invalid text => exact fun _ => rfl
  | sum xs => cases xs <;> exact (finite_remember _ _ sound).mono fun _ finite _ => finite
  | _ => exact (finite_remember _ _ sound).mono fun _ finite _ => finite

/-- An evaluation that fails says why, and one that does not is finite. -/
theorem always_evaluate (zeroFinite : Scalar.isFinite (0 : α) = true) (e : Expr β)
    (expected : Option Domain) : (e.evaluate s functions expected).Always fun found =>
      (found.isValid = false → found.errors ≠ []) ∧
      (e.isConstant = false → ∀ x ∈ found.value.elements, Scalar.isFinite x = true) := by
  have sound : Sound ({} : Session α) := fun _ member => by cases member
  refine ((candid_eval s functions e {} sound).and (finite_eval s functions e sound)).bind
    fun r ⟨⟨_, _, told⟩, finite⟩ => ⟨fun invalid => ?_, fun notLiteral => ?_⟩
  · refine (told ?_).resolve_left id
    rwa [Evaluation.isValid, Value.isInvalid_widenTo, Bool.not_eq_false'] at invalid
  · exact Value.isFinite_of_mem_elements
      (Value.isFinite_widenTo zeroFinite expected (finite notLiteral))

end Expr

/-! ## Leaves without a value -/

def Context.faultOf? (c : Context β α) : Question → Option EvalError
  | .model name =>
    match c.lookup name with
    | .ok (some _) => none
    | .ok none => some (.missingModel name)
    | .error cause => some (.model name cause)
  | .parameter name => if (c.parameter name).isSome then none else some (.missingParameter name)

namespace Findings

/-- Each of the leaves that has no value is among the faults found. -/
def Reports (c : Context β α) (leaves : List Question) (found : Findings ρ) : Prop :=
  ∀ leaf ∈ leaves, ∀ fault, c.faultOf? leaf = some fault → fault ∈ found.errors

section

variable {c : Context β α} {leaves leaves' : List Question} {found : Findings ρ} {f : ρ → Findings σ}

theorem reports_nil : Reports c [] found := fun _ member => by cases member

theorem Reports.bind (first : Reports c leaves found) (second : Reports c leaves' (f found.result)) :
    Reports c (leaves ++ leaves') (found >>= f) := fun leaf member fault faulty =>
  List.mem_append.mpr ((List.mem_append.mp member).imp
    (fun early => first leaf early fault faulty) fun late => second leaf late fault faulty)

theorem Reports.before (report : Reports c leaves found) : Reports c leaves (found >>= f) :=
  fun leaf member fault faulty => List.mem_append_left _ (report leaf member fault faulty)

theorem Reports.after (report : Reports c leaves (f found.result)) : Reports c leaves (found >>= f) :=
  fun leaf member fault faulty => List.mem_append_right _ (report leaf member fault faulty)

theorem Reports.screen [Scalar α] {e : Expr β} [BaseScalar β] {found : Findings (Value α)}
    (report : Reports c leaves found) : Reports c leaves (Findings.screen e found) := by
  unfold Findings.screen
  split
  · exact report
  · exact fun leaf member fault faulty => List.mem_append_left _ (report leaf member fault faulty)

theorem reports_model (name : String) : Reports c [.model name] (Findings.model c name) := by
  rintro _ (_ | ⟨_, ⟨⟩⟩) fault
  dsimp only [Context.faultOf?, Findings.model]
  rcases c.lookup name with cause | _ | found <;> rintro ⟨⟩ <;> exact List.mem_cons_self

theorem reports_parameter [Precision β α] (name : String) :
    Reports c [.parameter name] (Findings.parameter c name) := by
  rintro _ (_ | ⟨_, ⟨⟩⟩) fault
  dsimp only [Context.faultOf?, Findings.parameter]
  cases c.parameter name <;> rintro ⟨⟩
  exact List.mem_cons_self

end

end Findings

namespace Expr

open Findings

variable [BaseScalar β] [Scalar α] [Precision β α] (c : Context β α) (functions : Registry α)

/-- A tree that evaluates everything below it: no branch, no product with a zero among its factors,
and no call with arguments that its function does not take. -/
def Straight (e : Expr β) : Prop :=
  match e with
  | product xs => ∀ x ∈ xs, (x.recompute c functions).result.isScalarZero = false
  | ifThen .. | ifElse .. => False
  | call name args => ∃ f, functions.get? name = some f ∧ f.arity = args.length
  | _ => True

variable {c functions}

mutual

/-- With every subtree evaluated anew, every leaf is reached. -/
theorem reports_recompute : ∀ e : Expr β, (∀ x ∈ e.subtrees, Straight c functions x) →
    Reports c e.leaves (e.recompute c functions)
  | constant _, _ => reports_nil
  | invalid _, _ => reports_nil
  | parameter n, _ => (reports_parameter n).screen
  | model n, _ => (reports_model n).screen
  | sum [], _ => reports_nil
  | sum (x :: xs), straight => by
    obtain ⟨head, tail⟩ := List.forall_mem_append.mp (List.forall_mem_cons.mp straight).2
    exact ((reports_recompute x head).bind (reports_recomputeSum _ xs tail)).screen
  | product xs, straight => by
    obtain ⟨here, below⟩ := List.forall_mem_cons.mp straight
    exact (reports_recomputeProduct _ xs here below).screen
  | ifThen _ _, straight => (straight _ List.mem_cons_self).elim
  | ifElse _ _ _, straight => (straight _ List.mem_cons_self).elim
  | call name args, straight => by
    obtain ⟨⟨f, known, arity⟩, below⟩ := List.forall_mem_cons.mp straight
    simp only [recompute, known, arity, ne_eq, not_true_eq_false, if_false]
    exact (reports_recomputeList args below).before.screen

theorem reports_recomputeList : ∀ xs : List (Expr β),
    (∀ x ∈ subtreesOfList xs, Straight c functions x) →
    Reports c (leavesOfList xs) (recomputeList c functions xs)
  | [], _ => reports_nil
  | x :: xs, straight => by
    obtain ⟨head, tail⟩ := List.forall_mem_append.mp straight
    exact (reports_recompute x head).bind (reports_recomputeList xs tail).before

theorem reports_recomputeSum (total : Value α) : ∀ xs : List (Expr β),
    (∀ x ∈ subtreesOfList xs, Straight c functions x) →
    Reports c (leavesOfList xs) (recomputeSum c functions total xs)
  | [], _ => reports_nil
  | x :: xs, straight => by
    obtain ⟨head, tail⟩ := List.forall_mem_append.mp straight
    exact (reports_recompute x head).bind (reports_recomputeSum _ xs tail).after

theorem reports_recomputeProduct (total : Value α) : ∀ xs : List (Expr β),
    (∀ x ∈ xs, (x.recompute c functions).result.isScalarZero = false) →
    (∀ x ∈ subtreesOfList xs, Straight c functions x) →
    Reports c (leavesOfList xs) (recomputeProduct c functions total xs)
  | [], _, _ => reports_nil
  | x :: xs, nonzero, straight => by
    obtain ⟨head, tail⟩ := List.forall_mem_append.mp straight
    obtain ⟨here, below⟩ := List.forall_mem_cons.mp nonzero
    refine (reports_recompute x head).bind ?_
    rw [here, if_neg Bool.false_ne_true]
    exact (reports_recomputeProduct _ xs below tail).after

end

/-- No evaluation fails silently, whoever answers it: an invalid value has a fault on record, and any
other value is finite, that of a bare literal excepted. Against a context, a tree that evaluates all of
its subtrees, those of one key alike, has each of its leaves without a value on record, and with them
each referenced name that the context does not resolve (`mem_referencedNames`). -/
theorem evaluate_reports (zeroFinite : Scalar.isFinite (0 : α) = true) (functions : Registry α)
    (e : Expr β) (expected : Option Domain) :
    (∀ {σ : Type} (s : Surroundings) (onLookup : String → StateM σ (LookupResult α))
        (parameterOf : σ → String → Option β) (start : σ),
      let found : Evaluation α :=
        ((e.evaluate s functions expected).runState onLookup parameterOf start).1
      (found.isValid = false → found.errors ≠ []) ∧
        (e.isConstant = false → ∀ x ∈ found.value.elements, Scalar.isFinite x = true)) ∧
    ∀ c : Context β α, (∀ x ∈ e.subtrees, Straight c functions x) → Eval.Alike c functions e.subtrees →
      ∀ leaf ∈ e.leaves, ∀ fault, c.faultOf? leaf = some fault →
        fault ∈ (c.answer (e.evaluate c.surroundings functions expected)).errors := by
  refine ⟨fun s onLookup parameterOf start => ?_, fun c straight alike leaf member fault faulty => ?_⟩
  · exact (always_evaluate s functions zeroFinite e expected).runState
  · obtain ⟨-, -, recorded⟩ := evaluate_of_alike alike expected
    exact recorded (reports_recompute e straight leaf member fault faulty)

/-- A product that overflows, beside a call with an argument that is missing and one that fails. -/
def broken : Expr Float :=
  sum [product [parameter "big", parameter "big"], call "max" [model "y", model "z"], parameter "T"]

def scarce : Context Float Float where
  lookup name := if name = "z" then .error (.missingModel .node "w") else .ok none
  parameter name := if name = "big" then some 1e200 else none
  surroundings := { edgeMap := fun _ => #[], chunking := .serial }

/-- The sum is invalid from its first term on, and the faults of the others are recorded all the same.
A product of its own is not let through as infinite. -/
theorem evaluate_reports_of_broken :
    let found := scarce.answer (broken.evaluate scarce.surroundings .builtin none)
    (∀ leaf ∈ broken.leaves, ∀ fault, scarce.faultOf? leaf = some fault → fault ∈ found.errors) ∧
      found.isValid = false ∧
      found.errors = [.nonFinite "(big * big)", .missingModel "y",
        .model "z" (.missingModel .node "w"), .invalidArgument "max", .missingParameter "T"] := by
  have zeroFinite : Scalar.isFinite (0 : Float) = true := by decide +kernel
  have straight : ∀ x ∈ broken.subtrees, Straight scarce .builtin x := by
    have nonzero : ((parameter "big" : Expr Float).recompute scarce .builtin).result.isScalarZero =
      false := by decide +kernel
    have known : ((Registry.builtin : Registry Float).get? "max").map Function.arity = some 2 := by
      decide +kernel
    simpa [broken, subtrees, subtreesOfList, Straight, nonzero] using known
  have distinct : broken.DistinctKeys := by
    refine distinctKeys_of_nodup [broken, product [parameter "big", parameter "big"],
      parameter "big", call "max" [model "y", model "z"], model "y", model "z", parameter "T"]
      (fun x member => ?_) (by decide +kernel)
    simp only [broken, subtrees, subtreesOfList, List.cons_append, List.nil_append, List.mem_cons,
      List.not_mem_nil, or_false] at member ⊢
    grind
  exact ⟨(evaluate_reports zeroFinite .builtin broken none).2 scarce straight (distinct.alike _ _),
    by decide +kernel, by decide +kernel⟩

def unpopulated : Context ℚ ℚ where
  lookup _ := .ok none
  parameter name := if name = "V" then some 3 else none
  surroundings := { edgeMap := fun _ => #[], chunking := .serial }

/-- A model whose name is the key of a parameter is answered with the parameter's value: that there is
no such model is not recorded. -/
theorem fault_hidden_by_parameter :
    ¬∀ (c : Context ℚ ℚ) (e : Expr ℚ), (∀ x ∈ e.subtrees, Straight c .builtin x) →
      ∀ leaf ∈ e.leaves, ∀ fault, c.faultOf? leaf = some fault →
        fault ∈ (c.answer (e.evaluate c.surroundings .builtin none)).errors := by
  intro reports
  let e : Expr ℚ := sum [parameter "V", model "$V"]
  have straight : ∀ x ∈ e.subtrees, Straight unpopulated .builtin x := by
    simp [e, subtrees, subtreesOfList, Straight]
  have recorded := reports unpopulated e straight (.model "$V") (by decide) (.missingModel "$V") rfl
  have silent : (unpopulated.answer (e.evaluate unpopulated.surroundings .builtin none)).errors = [] :=
    by decide +kernel
  rw [silent] at recorded
  cases recorded

end Expr

end FiniteVolume
