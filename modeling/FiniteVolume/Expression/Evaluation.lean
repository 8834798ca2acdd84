import FiniteVolume.Expression.Text
import FiniteVolume.Expression.Value

/-!
Evaluation of expressions as queries for the models and parameters they mention.

A fault makes the value of the expression around it invalid, while its siblings are still evaluated,
so that one evaluation finds as many faults as it can. A valid value is remembered under the tagged
text of its expression and not computed again; a value that is not finite is a fault of its own.
-/
namespace FiniteVolume

structure Session (α : Type) where
  /-- Values by the tagged text of their expressions. -/
  remembered : List (String × Value α) := []
  /-- Faults, oldest first. -/
  errors : List EvalError := []

abbrev Eval (β α ρ : Type) := StateT (Session α) (Query β α) ρ

structure Evaluation (α : Type) where
  value : Value α
  errors : List EvalError

def Evaluation.isValid {α : Type} (e : Evaluation α) : Bool := !e.value.isInvalid

def Evaluation.messages {α : Type} (e : Evaluation α) : List String := e.errors.map (·.message)

namespace Eval

variable {β α : Type}

/-- Record a fault; the value is invalid. -/
def fail (e : EvalError) : Eval β α (Value α) := do
  modify fun s => { s with errors := s.errors ++ [e] }
  return .invalid

def ofExcept (r : Except EvalError (Value α)) : Eval β α (Value α) :=
  match r with
  | .ok v => return v
  | .error e => fail e

def model (name : String) : Eval β α (Value α) := do
  match ← (Query.ask name : Query β α _) with
  | .ok (some found) => return .field found.domain found.data
  | .ok none => fail (.missingModel name)
  | .error cause => fail (.model name cause)

variable [BaseScalar β] [Scalar α] [Precision β α]

def parameter (name : String) : Eval β α (Value α) := do
  match ← (Query.askParameter name : Query β α _) with
  | some v => return .scalar (Precision.narrow v)
  | none => fail (.missingParameter name)

/-- Apply a function to values. Invalid operands give an invalid value, which is a fault of its own
only if `reporting` is set. -/
def apply (s : Surroundings) (context : String) (f : Function α) (args : List (Value α))
    (reporting : Bool) : Eval β α (Value α) :=
  match f with
  | .reduction r => ofExcept (Value.reduce context r args)
  | f =>
    if args.any (·.isInvalid) then
      if reporting then fail (.invalidArgument context) else return .invalid
    else ofExcept (do Value.applyTo s.chunking context f (← Value.operands s context args))

/-- Evaluate an expression with `body` unless its value is remembered, and remember what is found.
A value that is not finite is a fault. -/
def remember (e : Expr β) (body : Eval β α (Value α)) : Eval β α (Value α) := do
  match (← get).remembered.lookup e.key with
  | some v => return v
  | none =>
    let v ← body
    if !v.isFinite then fail (.nonFinite e.text)
    else
      if !v.isInvalid then
        modify fun s => { s with remembered := (e.key, v) :: s.remembered }
      return v

end Eval

namespace Expr

variable {β α : Type} [BaseScalar β] [Scalar α] [Precision β α]

open Eval

mutual

def eval (s : Surroundings) (functions : Registry α) : Expr β → Eval β α (Value α)
  | constant v => return .scalar (Precision.narrow v)
  | invalid text => fail (.invalidExpression text)
  | parameter name => remember (parameter name) (Eval.parameter name)
  | model name => remember (model name) (Eval.model name)
  | sum [] => remember (sum []) (return .scalar 0)
  | sum (x :: xs) => remember (sum (x :: xs)) do
    evalSum s functions (← eval s functions x) xs
  | product xs => remember (product xs) (evalProduct s functions (.scalar 1) xs)
  | ifThen c t => remember (ifThen c t) do
    match ← eval s functions c with
    | .invalid => return .invalid
    | .scalar x => if Scalar.eq x 0 then return .scalar 0 else eval s functions t
    | mask =>
      apply s "if" (.binary (· * ·)) [mask, ← eval s functions t] false
  | ifElse c t e => remember (ifElse c t e) do
    match ← eval s functions c with
    | .invalid => return .invalid
    | .scalar x => if Scalar.eq x 0 then eval s functions e else eval s functions t
    | mask =>
      let whenTrue ← eval s functions t
      let whenFalse ← eval s functions e
      apply s "ifelse" (.ternary Special.select) [mask, whenTrue, whenFalse] false
  | call name args => remember (call name args) do
    match functions.get? name with
    | none => fail (.unknownFunction name)
    | some f =>
      if f.arity ≠ args.length then fail (.wrongArity name f.arity args.length)
      else apply s name f (← evalList s functions args) true

def evalList (s : Surroundings) (functions : Registry α) : List (Expr β) → Eval β α (List (Value α))
  | [] => return []
  | x :: xs => do
    let v ← eval s functions x
    return v :: (← evalList s functions xs)

def evalSum (s : Surroundings) (functions : Registry α) (total : Value α) :
    List (Expr β) → Eval β α (Value α)
  | [] => return total
  | x :: xs => do
    let v ← eval s functions x
    evalSum s functions (← apply s "+" (.binary (· + ·)) [total, v] false) xs

/-- Multiply `total` by the values of a list of expressions. The number zero ends the product. -/
def evalProduct (s : Surroundings) (functions : Registry α) (total : Value α) :
    List (Expr β) → Eval β α (Value α)
  | [] => return total
  | x :: xs => do
    let v ← eval s functions x
    if v.isScalarZero then return .scalar 0
    else evalProduct s functions (← apply s "*" (.binary (· * ·)) [total, v] false) xs

end

/-- Edge values read on an expected element-edge domain; any other value as it is. -/
def widenTo (s : Surroundings) (expected : Option Domain) (v : Value α) : Value α :=
  match expected, v with
  | some d, .field .edge data =>
    if d.isElementEdge then .field d (data.gather s.chunking (s.edgeMap d)) else v
  | _, _ => v

def evaluate (s : Surroundings) (functions : Registry α) (e : Expr β) (expected : Option Domain) :
    Query β α (Evaluation α) := do
  let (v, session) ← (eval s functions e : Eval β α (Value α)).run {}
  return ⟨widenTo s expected v, session.errors⟩

end Expr

end FiniteVolume
