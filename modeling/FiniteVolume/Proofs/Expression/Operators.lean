import Mathlib.Algebra.Ring.Defs
import FiniteVolume.Proofs.Expression.Keys
import FiniteVolume.Proofs.Expression.Recall

/-!
The operators that build trees.

An operator adds to a sum or product that stands on its left, and negates a literal at once. In exact
arithmetic the tree that it builds evaluates like the tree that it abbreviates, where every operation is
a node of its own, whatever the owner is (`Expr.operators_preserve_evaluation`), as long as no value on
the way is screened for being not finite. What the flat tree leaves out is the screening of the partial
value, the memory of it, and the test whether it is zero: a product of numbers is zero only if a factor
is.
-/
namespace FiniteVolume

variable {β α σ : Type}

/-- Combining with a neutral element on the left changes nothing, the form of the field included. -/
theorem Field.zipWith_neutral {f : α → α → α} {a : α} (neutral : ∀ x, f a x = x) (c : Chunking)
    (x : Field α) : zipWith c f (uniform a x.size) x = .ok x := by
  cases x with
  | uniform b n => simp [zipWith, size, neutral]
  | vector xs =>
    have elements : Array.zipWith f (Array.replicate xs.size a) xs = xs := by
      refine Array.ext_getElem? fun i => ?_
      by_cases inside : i < xs.size <;> simp [inside, neutral]
    have fits : (uniform a (vector xs).size).size = (vector xs).size := rfl
    rw [zipWith, if_neg (not_not_intro fits)]
    change Except.ok (vector (c.zipWith f (Array.replicate xs.size a) xs)) = _
    rw [Chunking.zipWith_eq, Chunking.zipInto_of_size_eq f Array.size_replicate, elements]

namespace Value

variable [Scalar α] {s : Surroundings} {context : String} {f : α → α → α} {v w : Value α}

theorem isScalarZero_iff [IntegralScalar α] : v.isScalarZero = true ↔ v = .scalar 0 := by
  cases v <;> simp [isScalarZero, IntegralScalar.eq_iff]

theorem combine_scalar (x y : α) :
    combine s context (.binary f) [.scalar x, .scalar y] = .scalar (f x y) := rfl

theorem combine_neutral {a : α} (neutral : ∀ x, f a x = x) (v : Value α) :
    combine s context (.binary f) [.scalar a, v] = v := by
  cases v with
  | scalar x => rw [combine_scalar, neutral]
  | invalid => rfl
  | field d x =>
    have lifts : List.Forall₂ (Lifts s d x.size) [.scalar a, .field d x] [.uniform a x.size, x] :=
      .cons ⟨rfl, rfl⟩ (.cons ⟨if_pos rfl, rfl⟩ .nil)
    have combined : operands s context [.scalar a, .field d x] =
        .ok (.fields d [.uniform a x.size, x]) :=
      operands_of_lifts (by simp [domain?]) (by simp [domain?, eq_comm]) lifts
    refine combine_of_fields combined ?_
    simp only [applyTo, Field.zipWith_neutral neutral]

theorem operands_of_valid {g : Function α} {args : List (Value α)}
    (valid : (combine s context g args).Valid) : ∃ on, operands s context args = .ok on ∧
      applyTo s.chunking context g on = .ok (combine s context g args) := by
  unfold combine at valid ⊢
  split at valid
  · cases valid
  next none =>
    rw [if_neg none]
    cases combined : operands s context args >>= applyTo s.chunking context g with
    | error e =>
      rw [combined] at valid
      cases valid
    | ok v =>
      cases lifted : operands s context args with
      | error e =>
        rw [lifted] at combined
        cases combined
      | ok on =>
        rw [lifted] at combined
        exact ⟨on, rfl, combined⟩

theorem scalar_of_combine {z : α} (number : combine s context (.binary f) [v, w] = .scalar z) :
    ∃ x y, v = .scalar x ∧ w = .scalar y ∧ z = f x y := by
  have valid : (combine s context (.binary f) [v, w]).Valid := congrArg isInvalid number
  obtain ⟨on, combined, applied⟩ := operands_of_valid valid
  rw [number] at applied
  cases on with
  | scalars xs =>
    have numbers := eq_scalars_of_operands (valid_of_combine valid) combined
    obtain ⟨z', given, same⟩ := applyTo_scalars applied
    match xs, numbers, given with
    | [x, y], numbers, given =>
      simp only [List.map_cons, List.map_nil, List.cons.injEq, and_true] at numbers
      cases same
      exact ⟨x, y, numbers.1, numbers.2, (Option.some.inj given).symm⟩
  | fields d xs =>
    have sizes := size_of_lifts (operands_eq_fields_iff.mp combined).2
    obtain ⟨y, field, -⟩ := applyTo_fields sizes applied
    cases field

end Value

namespace Eval

variable [BaseScalar β] [Scalar α] [Precision β α] {s : Surroundings} {context : String}
  {f : α → α → α}

/-- A neutral number leaves every value as it is, and no fault. -/
theorem apply_neutral {a : α} (neutral : ∀ x, f a x = x) (v : Value α) :
    apply s context (.binary f) [.scalar a, v] false = (pure v : Eval β α (Value α)) := by
  cases invalid : v.isInvalid with
  | true =>
    obtain rfl : v = .invalid := by
      cases v <;> first | rfl | cases invalid
    rfl
  | false =>
    refine StateT.ext fun session => ?_
    have same : Value.combine s context (.binary f) [.scalar a, v] = v :=
      Value.combine_neutral neutral v
    have valid : (Value.combine s context (.binary f) [.scalar a, v]).Valid := by rwa [same]
    rw [run_apply_of_valid s context (Function.binary_ne f) valid, same]
    rfl

theorem apply_bind_congr {ρ : Type} {args : List (Value α)} {next next' : Value α → Eval β α ρ}
    (same : next (Value.combine s context (.binary f) args) =
      next' (Value.combine s context (.binary f) args)) :
    apply s context (.binary f) args false >>= next =
      apply s context (.binary f) args false >>= next' := by
  refine StateT.ext fun session => ?_
  obtain ⟨session', applied⟩ := run_apply (β := β) s context args (Function.binary_ne f) session
  rw [StateT.run_bind, StateT.run_bind, applied]
  exact congrArg (·.run session') same

end Eval

namespace Expr

open Eval

variable [BaseScalar β] [Scalar α] [Precision β α] {s : Surroundings} {functions : Registry α}

/-! ## Sums -/

def evalTerms (s : Surroundings) (functions : Registry α) : List (Expr β) → Eval β α (Value α)
  | [] => return .scalar 0
  | x :: xs => do evalSum s functions (← eval s functions x) xs

theorem eval_sum (xs : List (Expr β)) :
    eval s functions (sum xs) = Eval.remember (sum xs) (evalTerms s functions xs) := by
  cases xs <;> rw [eval] <;> rfl

theorem Stable.evalTerms {trees : List (Expr β)} {R : Session α → Session α → Prop}
    (stable : Stable s functions trees R) {xs : List (Expr β)}
    (within : ∀ x ∈ subtreesOfList xs, x ∈ trees) : Keeps R (Expr.evalTerms s functions xs) := by
  cases xs with
  | nil => exact keeps_pure _
  | cons x xs =>
    obtain ⟨head, tail⟩ := List.forall_mem_append.mp within
    exact (stable.eval x head).bind fun total => stable.evalSum total xs tail

theorem recallable_evalTerms {onLookup : String → StateM σ (LookupResult α)}
    {parameterOf : σ → String → Option β} (xs : List (Expr β)) :
    Recallable onLookup parameterOf Value.Valid (evalTerms s functions xs) := by
  cases xs with
  | nil => exact recallable_pure _
  | cons x xs =>
    exact (recallable_eval x).bind (recallable_evalSum · xs) (grows_evalSum · xs)
      fun _ _ _ valid => valid_of_evalSum valid

theorem evalSum_append (total : Value α) (xs ys : List (Expr β)) :
    evalSum s functions total (xs ++ ys) =
      evalSum s functions total xs >>= fun total => evalSum s functions total ys := by
  induction xs generalizing total with
  | nil => exact (pure_bind total (evalSum s functions · ys)).symm
  | cons x xs ih => simp only [List.cons_append, evalSum, bind_assoc, ih]

theorem evalTerms_concat [ExactScalar α] (xs : List (Expr β)) (b : Expr β) :
    evalTerms s functions (xs ++ [b]) =
      evalTerms s functions xs >>= fun total => evalSum s functions total [b] := by
  cases xs with
  | nil =>
    simp only [List.nil_append, evalTerms, evalSum, pure_bind, bind_pure,
      apply_neutral ExactScalar.zero_add]
  | cons x xs => simp only [List.cons_append, evalTerms, evalSum_append, bind_assoc]

/-! ## Products -/

variable [IntegralScalar α]

theorem evalProduct_append {total : Value α} (start : total ≠ .scalar 0) (xs ys : List (Expr β)) :
    evalProduct s functions total (xs ++ ys) = evalProduct s functions total xs >>= fun total =>
      if total.isScalarZero then return .scalar 0 else evalProduct s functions total ys := by
  induction xs generalizing total with
  | nil =>
    have other : ¬total.isScalarZero = true := fun zero => start (Value.isScalarZero_iff.mp zero)
    rw [List.nil_append, evalProduct, pure_bind, if_neg other]
  | cons x xs ih =>
    rw [List.cons_append, evalProduct, evalProduct, bind_assoc]
    refine congrArg (eval s functions x >>= ·) (funext fun v => ?_)
    split
    next zero => rw [pure_bind, if_pos (Value.isScalarZero_iff.mpr rfl)]
    next other =>
      rw [bind_assoc]
      refine apply_bind_congr (ih fun zero => ?_)
      obtain ⟨y, z, rfl, rfl, product⟩ := Value.scalar_of_combine zero
      rcases IntegralScalar.zero_or_zero_of_mul product.symm with rfl | rfl
      · exact start rfl
      · exact other (Value.isScalarZero_iff.mpr rfl)

/-! ## Flat and nested trees -/

omit [IntegralScalar α]

variable {onLookup : String → StateM σ (LookupResult α)} {parameterOf : σ → String → Option β}
  {start : σ}

/-- Between the trees, too, different subtrees have different keys. -/
def Apart (a b : Expr β) : Prop := ∀ x ∈ a.subtrees, ∀ y ∈ b.subtrees, y.key = x.key → y = x

theorem DistinctKeys.pair {e a b : Expr β} (distinct : e.DistinctKeys)
    (subtrees : e.subtrees = e :: subtreesOfList [a, b]) : a.DistinctKeys ∧ Apart a b := by
  have left {x : Expr β} (member : x ∈ a.subtrees) : x ∈ e.subtrees := by
    rw [subtrees]
    simp [subtreesOfList, member]
  have right {x : Expr β} (member : x ∈ b.subtrees) : x ∈ e.subtrees := by
    rw [subtrees]
    simp [subtreesOfList, member]
  exact ⟨fun x inX y inY => distinct x (left inX) y (left inY),
    fun x inX y inY => distinct y (right inY) x (left inX)⟩

theorem effect_plus [ExactScalar α] {a b : Expr β} (distinct : a.DistinctKeys) (apart : Apart a b)
    (unscreened : Unscreened
      (effect onLookup parameterOf (eval s functions (sum [a, b])) {} start).1.2) :
    effect onLookup parameterOf (eval s functions (a.plus b)) {} start =
      effect onLookup parameterOf (eval s functions (sum [a, b])) {} start := by
  unfold plus
  split
  next xs =>
    have nested : evalTerms s functions [sum xs, b] =
        (Eval.remember (sum xs) (evalTerms s functions xs) >>= fun total =>
          evalSum s functions total [b] : Eval β α _) := by rw [← eval_sum]; rfl
    rw [eval_sum (xs ++ [b]), evalTerms_concat]
    rw [eval_sum [sum xs, b], nested] at unscreened ⊢
    refine effect_remember_congr (fun unscreened => (effect_remember_bind rfl (grows_evalSum · [b])
      (fresh_of_keeps ?_) (fun finite valid => ?_) unscreened).symm) unscreened
    · exact (distinct.stable_below rfl (by simp)).evalTerms fun _ member => member
    · exact (stable_ahead_of_run (apart _ List.mem_cons_self) (eval_sum xs)
        (recallable_evalTerms xs {} start valid) finite valid).evalSum _ [b] fun _ member => member
  next => rfl

theorem eval_product (xs : List (Expr β)) :
    eval s functions (product xs) =
      Eval.remember (product xs) (evalProduct s functions (.scalar 1) xs) := by
  rw [eval]

theorem evalProduct_pair [IntegralScalar α] (a b : Expr β) :
    evalProduct s functions (.scalar 1) [a, b] = eval s functions a >>= fun total =>
      if total.isScalarZero then return .scalar 0 else evalProduct s functions total [b] := by
  rw [evalProduct]
  refine congrArg (eval s functions a >>= ·) (funext fun v => ?_)
  rw [apply_neutral ExactScalar.one_mul, pure_bind]

theorem effect_times [IntegralScalar α] {a b : Expr β} (distinct : a.DistinctKeys) (apart : Apart a b)
    (unscreened : Unscreened
      (effect onLookup parameterOf (eval s functions (product [a, b])) {} start).1.2) :
    effect onLookup parameterOf (eval s functions (a.times b)) {} start =
      effect onLookup parameterOf (eval s functions (product [a, b])) {} start := by
  unfold times
  split
  next xs =>
    have one : (Value.scalar 1 : Value α) ≠ .scalar 0 := fun same =>
      IntegralScalar.one_ne_zero (Value.scalar.inj same)
    rw [eval_product (xs ++ [b]), evalProduct_append one]
    rw [eval_product [product xs, b], evalProduct_pair, eval_product xs] at unscreened ⊢
    refine effect_remember_congr (fun unscreened => (effect_remember_bind rfl (fun v => ?_)
      (fresh_of_keeps ?_) (fun finite valid => ?_) unscreened).symm) unscreened
    · split
      · exact fun base => keeps_pure _
      · exact grows_evalProduct v [b]
    · exact (distinct.stable_below rfl (by simp)).evalProduct _ xs fun _ member => member
    · split
      · exact keeps_pure _
      next other =>
        have regular : Value.Regular _ := ⟨valid, fun zero => other (Value.isScalarZero_iff.mpr zero)⟩
        exact (stable_ahead_of_run (apart _ List.mem_cons_self) (eval_product xs)
          (recallable_evalProduct (.scalar 1) xs {} start regular) finite valid).evalProduct _ [b]
            fun _ member => member
  next => rfl

/-! ## Negation -/

theorem eval_product_constants [IntegralScalar α] (u v : β) :
    eval s functions (product [constant u, constant v]) =
      Eval.remember (product [constant u, constant v])
        (pure (.scalar (Precision.narrow u * Precision.narrow v)) : Eval β α _) := by
  rw [eval_product, evalProduct_pair, eval, pure_bind]
  refine congrArg (Eval.remember _) ?_
  split
  next zero =>
    rw [Value.scalar.inj (Value.isScalarZero_iff.mp zero), zero_mul]
  next other =>
    rw [evalProduct, eval, pure_bind]
    split
    next zero =>
      rw [Value.scalar.inj (Value.isScalarZero_iff.mp zero), mul_zero]
    next other => rfl

theorem eval_negation [IntegralScalar α] [ExactPrecision β α] (v : β) :
    eval s functions (product [constant (-1), constant v]) =
      Eval.remember (product [constant (-1), constant v])
        (eval s functions (constant (-v)) : Eval β α _) := by
  rw [eval_product_constants, ExactPrecision.narrow_neg, ExactPrecision.narrow_one, neg_one_mul,
    ← ExactPrecision.narrow_neg, eval]

theorem effect_negate [IntegralScalar α] [ExactPrecision β α] {a : Expr β} (unscreened : Unscreened
      (effect onLookup parameterOf (eval s functions (product [constant (-1), a])) {} start).1.2) :
    effect onLookup parameterOf (eval s functions a.negate) {} start =
      effect onLookup parameterOf (eval s functions (product [constant (-1), a])) {} start := by
  unfold negate
  split
  next v =>
    rw [eval_negation] at unscreened ⊢
    exact (effect_remember rfl (isFinite_of_remember rfl unscreened)).symm
  next => rfl

/-- Where the product is remembered with its value only, a literal may be added in its place. -/
theorem effect_evalSum_negation [IntegralScalar α] [ExactPrecision β α] {total : Value α} {v : β}
    {session : Session α} {state : σ}
    (known : ∀ u, session.remembered.lookup (product [constant (-1), constant v]).key = some u →
      u = .scalar (Precision.narrow (-v)))
    (unscreened : Unscreened (effect onLookup parameterOf
      (evalSum s functions total [product [constant (-1), constant v]]) session state).1.2) :
    effect onLookup parameterOf (evalSum s functions total [constant (-v)]) session state =
      effect onLookup parameterOf
        (evalSum s functions total [product [constant (-1), constant v]]) session state := by
  have single (x : Expr β) : evalSum s functions total [x] = (eval s functions x >>= fun u =>
      apply s "+" (.binary (· + ·)) [total, u] false >>= pure : Eval β α _) := rfl
  rw [single (constant _), eval]
  rw [single (product _), eval_negation, eval] at unscreened ⊢
  cases looked : session.remembered.lookup (product [constant (-1), constant v]).key with
  | none =>
    refine (effect_remember_bind looked (fun _ => grows_apply_bind fun _ _ => keeps_pure _) ?_
      (fun _ _ => ?_) unscreened).symm
    · exact looked
    · exact (keeps_apply (fun _ _ e ahead => ahead.fault e) _ _ _ _ _).bind fun _ => keeps_pure _
  | some u =>
    obtain rfl := known u looked
    rw [pure_bind, effect_remember_bind_of_hit looked]

theorem effect_sum_negation [IntegralScalar α] [ExactPrecision β α] {a : Expr β} {v : β}
    (apart : Apart a (product [constant (-1), constant v])) (unscreened : Unscreened (effect onLookup
      parameterOf (eval s functions (sum [a, product [constant (-1), constant v]])) {} start).1.2) :
    effect onLookup parameterOf (eval s functions (sum [a, constant (-v)])) {} start =
      effect onLookup parameterOf
        (eval s functions (sum [a, product [constant (-1), constant v]])) {} start := by
  have bodies (b : Expr β) : evalTerms s functions [a, b] = (eval s functions a >>= fun total =>
      evalSum s functions total [b] : Eval β α _) := rfl
  rw [eval_sum [a, constant (-v)], bodies]
  rw [eval_sum [a, product _], bodies] at unscreened ⊢
  refine effect_remember_congr (fun unscreened => ?_) unscreened
  rw [effect_bind] at unscreened ⊢
  rw [effect_bind]
  refine effect_evalSum_negation ?_ unscreened
  have known : Stable s functions a.subtrees (Holds (product [constant (-1), constant v]).key
      (· = (.scalar (Precision.narrow (-v)) : Value α))) := stable_holds fun x member same => by
    obtain rfl := (apart x member _ List.mem_cons_self same.symm).symm
    exact ⟨_, (eval_negation v).trans (by rw [eval]), rfl⟩
  obtain ⟨⟨-, -, remembered⟩, -⟩ :=
    ((known.eval a fun _ member => member) {} {} ⟨rfl, nofun⟩).runState onLookup parameterOf start
  exact remembered

/-! ## The operators -/

/-- What each operator builds, and the tree that it abbreviates. -/
def operators (a b : Expr β) : List (Expr β × Expr β) :=
  [(a.plus b, sum [a, b]),
    (a.minus b, sum [a, product [constant (-1), b]]),
    (a.times b, product [a, b]),
    (a.dividedBy b, product [a, b.power (constant (-1))]),
    (a.negate, product [constant (-1), a])]

theorem effect_minus [IntegralScalar α] [ExactPrecision β α] {a b : Expr β}
    (distinct : (sum [a, product [constant (-1), b]]).DistinctKeys) (unscreened : Unscreened (effect
      onLookup parameterOf (eval s functions (sum [a, product [constant (-1), b]])) {} start).1.2) :
    effect onLookup parameterOf (eval s functions (a.minus b)) {} start =
      effect onLookup parameterOf
        (eval s functions (sum [a, product [constant (-1), b]])) {} start := by
  obtain ⟨own, apart⟩ := distinct.pair rfl
  unfold minus negate
  split
  next v =>
    have negated := effect_sum_negation apart unscreened
    have literal : Apart a (constant (-v)) := fun _ _ _ member => by cases member
    rw [effect_plus own literal (by rwa [negated]), negated]
  next => exact effect_plus own apart unscreened

theorem effect_operators [IntegralScalar α] [ExactPrecision β α] {a b : Expr β}
    {pair : Expr β × Expr β} (listed : pair ∈ operators a b) (distinct : pair.2.DistinctKeys)
    (unscreened : Unscreened (effect onLookup parameterOf (eval s functions pair.2) {} start).1.2) :
    effect onLookup parameterOf (eval s functions pair.1) {} start =
      effect onLookup parameterOf (eval s functions pair.2) {} start := by
  simp only [operators, List.mem_cons, List.not_mem_nil, or_false] at listed
  rcases listed with rfl | rfl | rfl | rfl | rfl
  · obtain ⟨own, apart⟩ := distinct.pair rfl
    exact effect_plus own apart unscreened
  · exact effect_minus distinct unscreened
  · obtain ⟨own, apart⟩ := distinct.pair rfl
    exact effect_times own apart unscreened
  · obtain ⟨own, apart⟩ := distinct.pair rfl
    exact effect_times own apart unscreened
  · exact effect_negate unscreened

theorem runState_evaluate (expected : Option Domain) (e : Expr β) :
    (e.evaluate s functions expected).runState onLookup parameterOf start =
      let seen := effect onLookup parameterOf (eval s functions e) {} start
      (⟨widenTo s expected seen.1.1, seen.1.2⟩, seen.2) := by
  unfold evaluate
  rw [Query.runState_bind]
  rfl

/-- An owner whose models have the number of the question as their value. -/
def numbering (_ : String) : StateM Nat (LookupResult ℚ) := fun n =>
  (.ok (some ⟨.node, .vector #[n + 1, 2 * (n + 1)]⟩), n + 1)

end Expr

end FiniteVolume
