import FiniteVolume.Expression.Evaluation

/-!
Models computed from expressions. Faults that leave a usable value become remarks; a cycle anywhere
below is passed on, so that it unwinds every model on its way.
-/
namespace FiniteVolume

variable {β α : Type} [BaseScalar β] [Scalar α] [Precision β α]

def Evaluation.cycle? (e : Evaluation α) : Option ModelError :=
  e.errors.findSome? fun error => match error.cause? with
    | some (.cyclicDependency name) => some (.cyclicDependency name)
    | _ => none

def Evaluation.outcome (e : Evaluation α) (target : Target) : Outcome α :=
  match e.cycle? with
  | some cycle => { result := .error cycle }
  | none =>
    match e.value with
    | .invalid => { result := .error (.evaluationFailed target.name e.messages) }
    | .scalar x => { result := .ok (.uniform x target.size), remarks := e.messages }
    | .field d data =>
      { result :=
          if d = target.domain then .ok data
          else .error (.invalidResultType target.name target.domain d.fieldText)
        remarks := e.messages }

def Calculator.ofExpr (functions : Registry α) (e : Expr β) : Calculator β α where
  calculate s target := do
    return (← e.evaluate s functions (some target.domain)).outcome target
  dependencies := e.dependencies
  expression := some e.text

end FiniteVolume
