import FiniteVolume.Expression.Context
import FiniteVolume.Proofs.Field.Elementwise

/-!
Evaluation with nothing remembered.

`Expr.recompute` is the recursion of `Expr.eval` without its memory, against a context: every subtree
is evaluated anew wherever it occurs, and its faults are recorded each time.
-/
namespace FiniteVolume

deriving instance DecidableEq for Value

/-- What a computation finds: a result, and the faults met on the way, oldest first. -/
structure Findings (ρ : Type) where
  result : ρ
  errors : List EvalError := []

namespace Findings

variable {β α ρ σ : Type}

instance : Monad Findings where
  pure r := ⟨r, []⟩
  bind m f := ⟨(f m.result).result, m.errors ++ (f m.result).errors⟩

@[simp] theorem result_pure (r : ρ) : (pure r : Findings ρ).result = r := rfl

@[simp] theorem result_bind (m : Findings ρ) (f : ρ → Findings σ) :
    (m >>= f).result = (f m.result).result := rfl

def fail (e : EvalError) : Findings (Value α) := ⟨.invalid, [e]⟩

def ofExcept : Except EvalError (Value α) → Findings (Value α)
  | .ok v => pure v
  | .error e => fail e

def model (c : Context β α) (name : String) : Findings (Value α) :=
  match c.lookup name with
  | .ok (some found) => pure (.field found.domain found.data)
  | .ok none => fail (.missingModel name)
  | .error cause => fail (.model name cause)

variable [BaseScalar β] [Scalar α]

/-- A value that is not finite is a fault of the expression that it belongs to. -/
def screen (e : Expr β) (found : Findings (Value α)) : Findings (Value α) :=
  if found.result.isFinite then found else ⟨.invalid, found.errors ++ [.nonFinite e.text]⟩

variable [Precision β α]

def parameter (c : Context β α) (name : String) : Findings (Value α) :=
  match c.parameter name with
  | some v => pure (.scalar (Precision.narrow v))
  | none => fail (.missingParameter name)

def apply (c : Context β α) (context : String) (f : Function α) (args : List (Value α))
    (reporting : Bool) : Findings (Value α) :=
  match f with
  | .reduction r => ofExcept (Value.reduce (β := β) context r args)
  | f =>
    if args.any (·.isInvalid) then
      if reporting then fail (.invalidArgument context) else return .invalid
    else ofExcept do
      Value.applyTo c.surroundings.chunking context f (← Value.operands c.surroundings context args)

end Findings

namespace Expr

variable {β α : Type} [BaseScalar β] [Scalar α] [Precision β α]

open Findings

mutual

/-- The value of an expression and all faults on the way to it, every subtree evaluated anew. -/
def recompute (c : Context β α) (functions : Registry α) : Expr β → Findings (Value α)
  | constant v => return .scalar (Precision.narrow v)
  | invalid text => fail (.invalidExpression text)
  | parameter name => screen (β := β) (parameter name) (Findings.parameter c name)
  | model name => screen (β := β) (model name) (Findings.model c name)
  | sum [] => screen (β := β) (sum []) (return .scalar 0)
  | sum (x :: xs) => screen (β := β) (sum (x :: xs)) do
    recomputeSum c functions (← recompute c functions x) xs
  | product xs => screen (β := β) (product xs) (recomputeProduct c functions (.scalar 1) xs)
  | ifThen cond t => screen (β := β) (ifThen cond t) do
    match ← recompute c functions cond with
    | .invalid => return .invalid
    | .scalar x => if Scalar.eq x 0 then return .scalar 0 else recompute c functions t
    | mask =>
      apply c "if" (.binary (· * ·)) [mask, ← recompute c functions t] false
  | ifElse cond t e => screen (β := β) (ifElse cond t e) do
    match ← recompute c functions cond with
    | .invalid => return .invalid
    | .scalar x => if Scalar.eq x 0 then recompute c functions e else recompute c functions t
    | mask =>
      let whenTrue ← recompute c functions t
      let whenFalse ← recompute c functions e
      apply c "ifelse" (.ternary Special.select) [mask, whenTrue, whenFalse] false
  | call name args => screen (β := β) (call name args) do
    match functions.get? name with
    | none => fail (.unknownFunction name)
    | some f =>
      if f.arity ≠ args.length then fail (.wrongArity name f.arity args.length)
      else apply c name f (← recomputeList c functions args) true

def recomputeList (c : Context β α) (functions : Registry α) :
    List (Expr β) → Findings (List (Value α))
  | [] => return []
  | x :: xs => do
    let v ← recompute c functions x
    return v :: (← recomputeList c functions xs)

def recomputeSum (c : Context β α) (functions : Registry α) (total : Value α) :
    List (Expr β) → Findings (Value α)
  | [] => return total
  | x :: xs => do
    let v ← recompute c functions x
    recomputeSum c functions (← apply c "+" (.binary (· + ·)) [total, v] false) xs

/-- Multiply `total` by the values of a list of expressions. The number zero ends the product. -/
def recomputeProduct (c : Context β α) (functions : Registry α) (total : Value α) :
    List (Expr β) → Findings (Value α)
  | [] => return total
  | x :: xs => do
    let v ← recompute c functions x
    if v.isScalarZero then return .scalar 0
    else
      recomputeProduct c functions
        (← apply c "*" (.binary (· * ·)) [total, v] false) xs

end

/-- The evaluation of an expression with nothing remembered, widened to the expected domain. -/
def evaluateAnew (c : Context β α) (functions : Registry α) (e : Expr β) (expected : Option Domain) :
    Evaluation α :=
  let found := e.recompute c functions
  ⟨widenTo c.surroundings expected found.result, found.errors⟩

end Expr

end FiniteVolume
