import FiniteVolume.Expression.Calculator
import FiniteVolume.Model.Sum
import FiniteVolume.Proofs.Field.Elements

/-!
How vectors are divided is no matter for evaluation.

Fields are mapped, combined and gathered as if vectors were never divided, so an evaluation is the same
query in surroundings that differ in this only (`Expr.evaluate_rechunk`). Calculators of which that is true
are neutral (`Calculator.Neutral`), as are those of expressions and sums.
-/
namespace FiniteVolume

variable {β α : Type}

/-! ## Fields and values -/

namespace Field

variable (c c' : Chunking)

theorem map_chunking (f : α → α) (x : Field α) : x.map c f = x.map c' f := by
  cases x with
  | uniform => rfl
  | vector values => exact congrArg vector (by rw [Chunking.map_eq, Chunking.map_eq])

theorem zipWith_chunking (f : α → α → α) (x y : Field α) : zipWith c f x y = zipWith c' f x y := by
  unfold zipWith
  simp only [Chunking.map_eq, Chunking.zipWith_eq]

variable [Scalar α]

theorem add_chunking (x y : Field α) : x.add c y = x.add c' y := zipWith_chunking c c' _ x y

theorem mul_chunking (x y : Field α) : x.mul c y = x.mul c' y := zipWith_chunking c c' _ x y

theorem gather_chunking (x : Field α) (index : Array Nat) : x.gather c index = x.gather c' index := by
  cases x with
  | uniform => rfl
  | vector values => exact congrArg vector (by rw [gather_eq, gather_eq])

end Field

def Surroundings.rechunk (c : Chunking) (s : Surroundings) : Surroundings := { s with chunking := c }

@[simp] theorem Surroundings.chunking_rechunk (s : Surroundings) (c : Chunking) :
    (s.rechunk c).chunking = c := rfl

@[simp] theorem Surroundings.edgeMap_rechunk (s : Surroundings) (c : Chunking) :
    (s.rechunk c).edgeMap = s.edgeMap := rfl

namespace Value

variable [Scalar α] (c : Chunking) (s : Surroundings)

theorem zipWith3_chunking (c c' : Chunking) (f : α → α → α → α) (x y z : Field α) :
    zipWith3 c f x y z = zipWith3 c' f x y z := by
  unfold zipWith3
  simp only [Chunking.map_eq]

theorem lift?_chunking (c c' : Chunking) (edgeMap : Array Nat) (d : Domain) (size : Nat) (v : Value α) :
    v.lift? c edgeMap d size = v.lift? c' edgeMap d size := by
  cases v with
  | scalar | invalid => rfl
  | field source data => simp only [lift?, Field.gather_chunking c c']

theorem operands_rechunk (context : String) (args : List (Value α)) :
    operands (s.rechunk c) context args = operands s context args := by
  have each : ∀ d size, operand (s.rechunk c) context d size = (operand s context d size :
      Value α → Except EvalError (Field α)) := fun d size => funext fun arg => by
    unfold operand
    rw [s.chunking_rechunk, s.edgeMap_rechunk, lift?_chunking c s.chunking]
  unfold operands
  simp only [each, Surroundings.edgeMap_rechunk]

theorem applyTo_chunking (c c' : Chunking) (context : String) (f : Function α) (args : Operands α) :
    applyTo c context f args = applyTo c' context f args := by
  unfold applyTo
  simp only [Field.map_chunking c c', Field.zipWith_chunking c c', zipWith3_chunking c c']

end Value

/-! ## Evaluation -/

variable [BaseScalar β] [Scalar α] [Precision β α]

section

variable (s : Surroundings) (c : Chunking)

theorem Eval.apply_rechunk (context : String) (f : Function α) (args : List (Value α)) (reporting : Bool) :
    (apply (s.rechunk c) context f args reporting : Eval β α (Value α)) =
      apply s context f args reporting := by
  unfold apply
  simp only [Surroundings.chunking_rechunk, Value.operands_rechunk, Value.applyTo_chunking c s.chunking]

namespace Expr

variable (functions : Registry α)

mutual

/-- The same questions, values and faults, however vectors are divided. -/
theorem eval_rechunk : ∀ e : Expr β,
    (eval (s.rechunk c) functions e : Eval β α (Value α)) = eval s functions e
  | constant _ | invalid _ | parameter _ | model _ | sum [] => by simp only [eval]
  | sum (x :: xs) => by simp only [eval, eval_rechunk x, evalSum_rechunk _ xs]
  | product xs => by simp only [eval, evalProduct_rechunk _ xs]
  | ifThen e t => by simp only [eval, eval_rechunk e, eval_rechunk t, Eval.apply_rechunk]
  | ifElse e t f => by
    simp only [eval, eval_rechunk e, eval_rechunk t, eval_rechunk f, Eval.apply_rechunk]
  | call _ args => by simp only [eval, evalList_rechunk args, Eval.apply_rechunk]

theorem evalList_rechunk : ∀ xs : List (Expr β),
    (evalList (s.rechunk c) functions xs : Eval β α _) = evalList s functions xs
  | [] => by simp only [evalList]
  | x :: xs => by simp only [evalList, eval_rechunk x, evalList_rechunk xs]

theorem evalSum_rechunk (total : Value α) : ∀ xs : List (Expr β),
    (evalSum (s.rechunk c) functions total xs : Eval β α (Value α)) = evalSum s functions total xs
  | [] => by simp only [evalSum]
  | x :: xs => by simp only [evalSum, eval_rechunk x, evalSum_rechunk _ xs, Eval.apply_rechunk]

theorem evalProduct_rechunk (total : Value α) : ∀ xs : List (Expr β),
    (evalProduct (s.rechunk c) functions total xs : Eval β α (Value α)) =
      evalProduct s functions total xs
  | [] => by simp only [evalProduct]
  | x :: xs => by
    simp only [evalProduct, eval_rechunk x, evalProduct_rechunk _ xs, Eval.apply_rechunk]

end

omit [BaseScalar β] [Precision β α] in
theorem widenTo_rechunk (expected : Option Domain) (v : Value α) :
    widenTo (s.rechunk c) expected v = widenTo s expected v := by
  unfold widenTo
  simp only [Surroundings.chunking_rechunk, Surroundings.edgeMap_rechunk,
    Field.gather_chunking c s.chunking]

theorem evaluate_rechunk (e : Expr β) (expected : Option Domain) :
    (e.evaluate (s.rechunk c) functions expected : Query β α (Evaluation α)) =
      e.evaluate s functions expected := by
  simp only [evaluate, eval_rechunk, widenTo_rechunk]

end Expr

end

/-! ## Calculators -/

omit [BaseScalar β] [Scalar α] [Precision β α] in
/-- The same calculation, however vectors are divided. -/
def Calculator.Neutral (calculator : Calculator β α) : Prop :=
  ∀ s c target, calculator.calculate (s.rechunk c) target = calculator.calculate s target

theorem Calculator.neutral_ofExpr (functions : Registry α) (e : Expr β) :
    (ofExpr functions e : Calculator β α).Neutral := fun s c target => by
  simp only [ofExpr, Expr.evaluate_rechunk]

omit [BaseScalar β] [Precision β α] in
theorem Query.addAll_rechunk (s : Surroundings) (c : Chunking) (target : Target) :
    ∀ (sum : Option (Field α)) (names : List String),
      (addAll (s.rechunk c) target sum names : Query β α _) = addAll s target sum names
  | _, [] => rfl
  | _, name :: rest => by
    simp only [addAll, addAll_rechunk s c target _ rest, Surroundings.chunking_rechunk,
      Field.add_chunking c s.chunking]

omit [BaseScalar β] [Precision β α] in
theorem Calculator.neutral_sumOf (names : List String) (base : Option (Field α)) (offset : Option α)
    (remarks : List String) : (sumOf names base offset remarks : Calculator β α).Neutral := by
  intro s c target
  simp only [sumOf, Query.addAll_rechunk, Surroundings.chunking_rechunk,
    Field.map_chunking c s.chunking]

end FiniteVolume
