import FiniteVolume.Proofs.Expression.Memory
import FiniteVolume.Proofs.Expression.Operands
import FiniteVolume.Proofs.Query

/-!
Selection by a condition.

A condition that is a number selects a branch. A condition that is a field multiplies the branch by
its values, while a selection of two branches compares them with zero element by element. The two
give the same values where the condition is zero or one, and differ for other conditions
(`Expr.ifThen_eq_ifElse_iff`).
-/
namespace FiniteVolume

variable {β α σ : Type}

/-! ## Fields -/

namespace Field

variable {c : Chunking} {f g : α → α → α} {x y z : Field α}

/-- A relation between the values of two fields, element by element; two shared values count even
over no elements. -/
def Matches (R : α → α → Prop) : Field α → Field α → Prop
  | uniform a _, uniform b _ => R a b
  | x, y => ∀ i a b, x.get? i = some a → y.get? i = some b → R a b

/-- Fields with values of their own are the same if they have the same values. -/
theorem vector_ext {xs ys : Array α} (same : ∀ i, (vector xs).get? i = (vector ys).get? i) :
    vector xs = vector ys := congrArg vector (Array.ext_getElem? same)

theorem get?_uniform_size (a : α) (x : Field α) (i : Nat) :
    (uniform a x.size).get? i = (x.get? i).map fun _ => a := by
  cases x with
  | uniform b n => by_cases inside : i < n <;> simp [get?, size, inside]
  | vector xs =>
    by_cases inside : i < xs.size <;> simp [get?, size, inside]

/-- Two functions combine fields alike if they do so at every element. -/
theorem zipWith_eq_iff (fits : x.size = y.size) :
    zipWith c f x y = zipWith c g x y ↔ Matches (fun a b => f a b = g a b) x y := by
  have agree (same : zipWith c f x y = zipWith c g x y) (i : Nat) (a b : α)
      (left : x.get? i = some a) (right : y.get? i = some b) : f a b = g a b := by
    obtain ⟨z, combined⟩ := zipWith_of_size_eq c f fits
    have elements := (get?_zipWith combined i).symm.trans (get?_zipWith (same ▸ combined) i)
    simpa [left, right] using elements
  have combine {xs ys : Array α} (first : zipWith c f x y = .ok (vector xs))
      (second : zipWith c g x y = .ok (vector ys))
      (same : ∀ i a b, x.get? i = some a → y.get? i = some b → f a b = g a b) :
      zipWith c f x y = zipWith c g x y := by
    rw [first, second]
    refine congrArg Except.ok (vector_ext fun i => ?_)
    rw [get?_zipWith first, get?_zipWith second]
    refine Option.bind_congr fun a left => Option.map_congr fun b right => ?_
    exact same i a b left right
  cases x with
  | uniform a n =>
    cases y with
    | uniform b m => simp [zipWith, Matches, fits]
    | vector ys => exact ⟨agree, combine (if_neg (not_not_intro fits)) (if_neg (not_not_intro fits))⟩
  | vector xs =>
    cases y <;>
      exact ⟨agree, combine (if_neg (not_not_intro fits)) (if_neg (not_not_intro fits))⟩

theorem zipWith3_uniform [Scalar α] (fits : x.size = y.size) (h : α → α → α → α) (a : α) :
    zipWith c (h · · a) x y = .ok (Value.zipWith3 c h x y (uniform a x.size)) := by
  have combine {xs ys : Array α} (first : zipWith c (h · · a) x y = .ok (vector xs))
      (second : Value.zipWith3 c h x y (uniform a x.size) = vector ys) :
      zipWith c (h · · a) x y = .ok (Value.zipWith3 c h x y (uniform a x.size)) := by
    rw [first, second]
    refine congrArg Except.ok (vector_ext fun i => ?_)
    rw [get?_zipWith first, ← second, Value.get?_zipWith3 c h fits (z := uniform a x.size) rfl,
      get?_uniform_size]
    cases x.get? i <;> cases y.get? i <;> rfl
  cases x with
  | uniform b n =>
    cases y with
    | uniform b' m => simp [zipWith, Value.zipWith3, fits]
    | vector ys => exact combine (if_neg (not_not_intro fits)) rfl
  | vector xs => cases y <;> exact combine (if_neg (not_not_intro fits)) rfl

end Field

/-! ## Values -/

namespace Value

variable [Scalar α] {s : Surroundings} {context : String}

/-- What becomes of the value of an expression: one that is not finite is invalid. -/
def screened (v : Value α) : Value α := if v.isFinite then v else invalid

/-- The value of a function that is no reduction, invalid if its operands do not combine. -/
def combine (s : Surroundings) (context : String) (f : Function α) (args : List (Value α)) : Value α :=
  if args.any (·.isInvalid) then invalid
  else match operands s context args >>= applyTo s.chunking context f with
    | .ok v => v
    | .error _ => invalid

theorem operands_number {context' : String} {m v : Value α} {k : Domain} {xs : List (Field α)}
    (a : α) :
    operands s context [m, v, scalar a] = .ok (.fields k xs) ↔
      ∃ x y, operands s context' [m, v] = .ok (.fields k [x, y]) ∧ xs = [x, y, .uniform a x.size] := by
  have extents : extent s k [m, v, scalar a] = extent s k [m, v] := rfl
  have domains : Common k ([m, v, scalar a].map domain?) ↔ Common k ([m, v].map domain?) := by
    simp [Common, domain?]
  simp only [operands_eq_fields_iff, extents, domains, and_assoc, exists_and_left]
  refine and_congr_right fun _ => ⟨fun lifts => ?_, ?_⟩
  · obtain _ | ⟨first, _ | ⟨second, _ | ⟨third, ⟨⟩⟩⟩⟩ := lifts
    refine ⟨_, _, .cons first (.cons second .nil), ?_⟩
    rw [first.2, ← Option.some.inj third.1]
  · rintro ⟨x, y, lifts, rfl⟩
    obtain _ | ⟨first, _ | ⟨second, ⟨⟩⟩⟩ := lifts
    have third := congrArg (some ∘ Field.uniform a) first.2.symm
    exact .cons first (.cons second (.cons ⟨third, first.2⟩ .nil))

section

variable {f : Function α} {args : List (Value α)}

theorem combine_of_fields {k : Domain} {xs : List (Field α)} {v : Value α}
    (combined : operands s context args = .ok (.fields k xs))
    (applied : applyTo s.chunking context f (.fields k xs) = .ok v) :
    combine s context f args = v := by
  have valid : args.any (·.isInvalid) = false := by simpa using valid_of_operands combined
  simp [combine, valid, combined, bind, Except.bind, applied]

theorem combine_eq_invalid {v : Value α} (member : v ∈ args) (field : v.domain? ≠ none)
    (apart : ∀ k xs, operands s context args ≠ .ok (.fields k xs)) :
    combine s context f args = invalid := by
  unfold combine
  split
  · rfl
  next valid =>
    simp only [List.any_eq_true, not_exists, not_and, Bool.not_eq_true] at valid
    cases combined : operands s context args with
    | error e => rfl
    | ok on =>
      cases on with
      | fields k xs => exact absurd combined (apart k xs)
      | scalars xs =>
        rw [eq_scalars_of_operands valid combined] at member
        obtain ⟨x, -, rfl⟩ := List.mem_map.mp member
        exact absurd rfl field

end

theorem screened_field_eq_iff {k : Domain} {z w : Field α} :
    (field k z).screened = (field k w).screened ↔
      z = w ∨ (field k z).screened = invalid ∧ (field k w).screened = invalid := by
  unfold screened
  cases left : (field k z).isFinite <;> cases right : (field k w).isFinite <;> simp
  all_goals
    rintro rfl
    exact absurd (left.symm.trans right) (by simp)

def masked (s : Surroundings) (m v : Value α) : Value α :=
  (combine s "if" (.binary (· * ·)) [m, v]).screened

def selected (s : Surroundings) (m v : Value α) : Value α :=
  (combine s "ifelse" (.ternary Special.select) [m, v, scalar 0]).screened

/-- A branch under a condition: the branch or zero if the condition is a number, and `onField` if it
is a field. -/
def choose (m v onField : Value α) : Value α :=
  match m with
  | invalid => invalid
  | scalar x => if Scalar.eq x 0 then (scalar 0).screened else v.screened
  | field .. => onField

theorem choose_of_field {m v w : Value α} (field : m.domain? ≠ none) : choose m v w = w := by
  cases m with
  | field d data => rfl
  | _ => exact absurd rfl field

theorem choose_eq_iff {m v w w' : Value α} :
    choose m v w = choose m v w' ↔ (m.domain? ≠ none → w = w') := by
  cases m <;> simp [choose, domain?]

section

variable {m v : Value α} {k : Domain} {x y z : Field α}

theorem masked_of_fields (combined : operands s "if" [m, v] = .ok (.fields k [x, y]))
    (multiplied : Field.zipWith s.chunking (· * ·) x y = .ok z) :
    masked s m v = (field k z).screened :=
  congrArg screened (combine_of_fields combined (by simp only [applyTo, multiplied]))

theorem selected_of_fields (combined : operands s "if" [m, v] = .ok (.fields k [x, y])) :
    selected s m v =
      (field k (zipWith3 s.chunking Special.select x y (.uniform 0 x.size))).screened :=
  congrArg screened (combine_of_fields ((operands_number 0).mpr ⟨x, y, combined, rfl⟩) rfl)

/-- A field and a branch that do not combine give nothing, multiplied or selected. -/
theorem masked_selected_of_apart (condition : m.domain? ≠ none)
    (apart : ∀ k x y, operands s "if" [m, v] ≠ .ok (.fields k [x, y])) :
    masked s m v = invalid ∧ selected s m v = invalid := by
  constructor <;>
    refine congrArg screened (combine_eq_invalid List.mem_cons_self condition fun k xs combined => ?_)
  · obtain ⟨-, _ | ⟨_, _ | ⟨_, ⟨⟩⟩⟩⟩ := operands_eq_fields_iff.mp combined
    exact apart k _ _ combined
  · obtain ⟨x, y, combined, -⟩ := (operands_number 0).mp combined
    exact apart k x y combined

/-- Multiplication selects where it gives the same numbers, or where neither gives finite ones. -/
theorem masked_eq_selected_iff (condition : m.domain? ≠ none) :
    masked s m v = selected s m v ↔ ∀ k x y, operands s "if" [m, v] = .ok (.fields k [x, y]) →
      Field.Matches (fun a b => a * b = Special.select a b 0) x y ∨
        masked s m v = invalid ∧ selected s m v = invalid := by
  by_cases together : ∃ k x y, operands s "if" [m, v] = .ok (.fields k [x, y])
  · obtain ⟨k, x, y, combined⟩ := together
    have sizes := size_of_lifts (operands_eq_fields_iff.mp combined).2
    simp only [List.forall_mem_cons] at sizes
    have fits : x.size = y.size := sizes.1.trans sizes.2.1.symm
    obtain ⟨z, multiplied⟩ := Field.zipWith_of_size_eq s.chunking (· * ·) fits
    have chosen := Field.zipWith3_uniform (c := s.chunking) fits Special.select 0
    rw [masked_of_fields combined multiplied, selected_of_fields combined, screened_field_eq_iff,
      ← Except.ok.injEq, ← multiplied, ← chosen, Field.zipWith_eq_iff fits]
    refine ⟨fun same k' x' y' combined' => ?_, fun same => same k x y combined⟩
    simp only [combined, Except.ok.injEq, Operands.fields.injEq, List.cons.injEq, and_true] at combined'
    obtain ⟨-, rfl, rfl⟩ := combined'
    exact same
  · simp only [not_exists] at together
    obtain ⟨product, selection⟩ := masked_selected_of_apart condition together
    rw [product, selection]
    exact ⟨fun _ _ _ _ _ => .inr ⟨rfl, rfl⟩, fun _ => rfl⟩

end

end Value

namespace Eval

variable [BaseScalar β] [Scalar α] [Precision β α]

omit [BaseScalar β] [Scalar α] [Precision β α] in
theorem run_pure_bind {ρ τ : Type} (r : ρ) (f : ρ → Eval β α τ) (session : Session α) :
    ((pure r : Eval β α ρ) >>= f).run session = (f r).run session := rfl

omit [Precision β α] in
theorem fst_keep (e : Expr β) (v : Value α) (session : Session α) :
    (keep e v session).1 = v.screened := by
  unfold keep Value.screened
  cases v.isFinite <;> rfl

theorem run_apply (s : Surroundings) (context : String) {f : Function α} (args : List (Value α))
    (elementwise : ∀ r, f ≠ .reduction r) (session : Session α) : ∃ session',
      (apply s context f args false : Eval β α _).run session =
        .done (Value.combine s context f args, session') := by
  unfold apply Value.combine
  cases f with
  | reduction r => exact absurd rfl (elementwise r)
  | _ =>
    dsimp only
    split
    · exact ⟨session, rfl⟩
    · cases Value.operands s context args >>= Value.applyTo s.chunking context _ with
      | ok v => exact ⟨session, rfl⟩
      | error e => exact ⟨_, rfl⟩

end Eval

namespace Expr

open Eval

variable [BaseScalar β] [Scalar α] [Precision β α] (s : Surroundings) (functions : Registry α)
  (onLookup : String → StateM σ (LookupResult α)) (parameterOf : σ → String → Option β)

/-- The value of an expression, what is remembered after it, and the state of the owner. -/
def evalFrom (e : Expr β) (session : Session α) (start : σ) : (Value α × Session α) × σ :=
  ((eval s functions e).run session).runState onLookup parameterOf start

def valueOf (expected : Option Domain) (e : Expr β) (start : σ) : Value α :=
  ((e.evaluate s functions expected).runState onLookup parameterOf start).1.value

theorem valueOf_eq (expected : Option Domain) (e : Expr β) (start : σ) :
    valueOf s functions onLookup parameterOf expected e start =
      widenTo s expected (evalFrom s functions onLookup parameterOf e {} start).1.1 := by
  unfold valueOf evalFrom evaluate
  rw [Query.runState_bind]
  rfl

section

variable {s functions onLookup parameterOf} {c t : Expr β} {m v : Value α}
  {session session' : Session α} {start state state' : σ}

omit [Precision β α] in
theorem fst_remember (e : Expr β) (body : Eval β α (Value α)) :
    (((remember e body).run {}).runState onLookup parameterOf start).1.1 =
      ((body.run {}).runState onLookup parameterOf start).1.1.screened := by
  rw [run_remember_of_miss _ _ rfl, Query.runState_bind]
  exact fst_keep e _ _

theorem value_ifThen
    (condition : evalFrom s functions onLookup parameterOf c {} start = ((m, session), state))
    (branch : evalFrom s functions onLookup parameterOf t session state = ((v, session'), state')) :
    (evalFrom s functions onLookup parameterOf (ifThen c t) {} start).1.1 =
      m.choose v (Value.masked s m v) := by
  unfold evalFrom at condition branch ⊢
  rw [eval, fst_remember, StateT.run_bind, Query.runState_bind, condition]
  cases m with
  | invalid => rfl
  | scalar x =>
    by_cases zero : Scalar.eq x 0 = true
    · simp only [Value.choose, zero, if_true]
      rfl
    · simp only [Value.choose, zero, Bool.false_eq_true, if_false, branch]
  | field d data =>
    obtain ⟨last, applied⟩ := run_apply (β := β) s "if" [.field d data, v]
      (Function.binary_ne (· * ·)) session'
    dsimp only
    rw [StateT.run_bind, Query.runState_bind, branch]
    dsimp only
    rw [applied]
    rfl

theorem value_ifElse_zero (narrowZero : (Precision.narrow (0 : β) : α) = 0)
    (condition : evalFrom s functions onLookup parameterOf c {} start = ((m, session), state))
    (branch : evalFrom s functions onLookup parameterOf t session state = ((v, session'), state')) :
    (evalFrom s functions onLookup parameterOf (ifElse c t (constant 0)) {} start).1.1 =
      m.choose v (Value.selected s m v) := by
  unfold evalFrom at condition branch ⊢
  rw [eval, fst_remember, StateT.run_bind, Query.runState_bind, condition]
  cases m with
  | invalid => rfl
  | scalar x =>
    by_cases zero : Scalar.eq x 0 = true
    · simp only [Value.choose, zero, if_true, eval, narrowZero]
      rfl
    · simp only [Value.choose, zero, Bool.false_eq_true, if_false, branch]
  | field d data =>
    obtain ⟨last, applied⟩ := run_apply (β := β) s "ifelse" [.field d data, v, .scalar 0]
      (Function.ternary_ne Special.select) session'
    dsimp only
    rw [StateT.run_bind, Query.runState_bind, branch]
    dsimp only
    rw [eval, narrowZero, run_pure_bind, applied]
    rfl

end

/-- A branch under a condition gives what a selection between the branch and zero gives, whatever the
condition is but a field. If it is a field, the two give the same values exactly where, on the common
domain of condition and branch, the product of both numbers at an element is the selected one, or
where neither gives any. -/
theorem ifThen_eq_ifElse_iff (narrowZero : (Precision.narrow (0 : β) : α) = 0) (c t : Expr β)
    (start : σ) :
    let value := valueOf s functions onLookup parameterOf
    let condition := evalFrom s functions onLookup parameterOf c {} start
    let branch := evalFrom s functions onLookup parameterOf t condition.1.2 condition.2
    let m := condition.1.1
    (value none (ifThen c t) start = value none (ifElse c t (constant 0)) start ↔
      (m.domain? ≠ none → ∀ k x y, Value.operands s "if" [m, branch.1.1] = .ok (.fields k [x, y]) →
        Field.Matches (fun a b => a * b = Special.select a b 0) x y ∨
          value none (ifThen c t) start = .invalid ∧
            value none (ifElse c t (constant 0)) start = .invalid)) ∧
    (value none (ifThen c t) start = value none (ifElse c t (constant 0)) start →
      ∀ expected, value expected (ifThen c t) start = value expected (ifElse c t (constant 0)) start) := by
  intro value condition branch m
  have multiplied : value none (ifThen c t) start =
      m.choose branch.1.1 (Value.masked s m branch.1.1) :=
    (valueOf_eq _ _ _ _ none _ start).trans (value_ifThen rfl rfl)
  have chosen : value none (ifElse c t (constant 0)) start =
      m.choose branch.1.1 (Value.selected s m branch.1.1) :=
    (valueOf_eq _ _ _ _ none _ start).trans (value_ifElse_zero narrowZero rfl rfl)
  constructor
  · rw [multiplied, chosen, Value.choose_eq_iff]
    refine imp_congr_right fun field => ?_
    rw [Value.choose_of_field field, Value.choose_of_field field]
    exact Value.masked_eq_selected_iff field
  · intro same expected
    simp only [value, valueOf_eq] at same ⊢
    exact congrArg (widenTo s expected) same

/-- Of rational numbers, multiplication selects by zero and one only, unless there is nothing to
select. -/
theorem mul_eq_select_iff (a b : ℚ) : a * b = Special.select a b 0 ↔ a = 0 ∨ a = 1 ∨ b = 0 := by
  change a * b = (if (!decide (a = 0)) = true then b else 0) ↔ _
  by_cases zero : a = 0
  · simp [zero]
  · rw [if_pos (by simpa using zero)]
    exact mul_left_eq_self₀.trans (or_iff_right zero).symm

/-- A condition of several values, and a branch that is zero where the condition is two. -/
def weights (name : String) : LookupResult ℚ :=
  .ok (if name = "c" then some ⟨.node, .vector #[0, 1, 2]⟩
    else if name = "t" then some ⟨.node, .vector #[5, 6, 0]⟩
    else none)

theorem ifThen_eq_ifElse_of_weights :
    let s : Surroundings := { edgeMap := fun _ => #[], chunking := .serial }
    let onLookup (name : String) : StateM Unit (LookupResult ℚ) := fun _ => (weights name, ())
    let parameterOf (_ : Unit) (_ : String) : Option ℚ := none
    let value := valueOf s .builtin onLookup parameterOf none
    value (ifThen (model "c") (model "t")) () =
        value (ifElse (model "c") (model "t") (constant 0)) () ∧
      value (ifThen (model "c") (model "t")) () = .field .node (.vector #[0, 6, 0]) := by
  intro s onLookup parameterOf value
  let condition := evalFrom s .builtin onLookup parameterOf (model "c") {} ()
  have m : condition.1.1 = .field .node (.vector #[0, 1, 2]) := by decide +kernel
  have v : (evalFrom s .builtin onLookup parameterOf (model "t") condition.1.2 condition.2).1.1 =
      .field .node (.vector #[5, 6, 0]) := by decide +kernel
  refine ⟨(ifThen_eq_ifElse_iff s .builtin onLookup parameterOf rfl _ _ ()).1.mpr ?_, by decide +kernel⟩
  intro _ k x y combined
  change Value.operands s "if" [condition.1.1, _] = _ at combined
  rw [m, v] at combined
  cases combined
  refine .inl fun i a b left right => (mul_eq_select_iff a b).mpr ?_
  rcases i with _ | _ | _ | i <;> cases left <;> cases right <;> decide

/-- A condition of two doubles the branch. -/
theorem ifThen_multiplies_by_condition :
    let onLookup (_ : String) : StateM Unit (LookupResult ℚ) := fun _ =>
      (.ok (some ⟨.node, .vector #[2]⟩), ())
    let parameterOf (_ : Unit) (_ : String) : Option ℚ := none
    let s : Surroundings := { edgeMap := fun _ => #[], chunking := .serial }
    let value := valueOf s .builtin onLookup parameterOf none
    value (ifThen (model "c") (constant 5)) () = .field .node (.vector #[10]) ∧
      value (ifElse (model "c") (constant 5) (constant 0)) () = .field .node (.vector #[5]) := by
  decide +kernel

end Expr

end FiniteVolume
