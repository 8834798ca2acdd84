import FiniteVolume.Model.Query

/-!
Models that are sums of other models. The sum is formed in the order in which the models are named,
and the first model that cannot be read, is unknown or does not fit ends it.
-/
namespace FiniteVolume

variable {β α : Type} [Scalar α]

/-- Add models to a sum; the first model of a sum of none is taken as it is. -/
def Query.addAll (s : Surroundings) (target : Target) (sum : Option (Field α)) :
    List String → Query β α (Except ModelError (Option (Field α)))
  | [] => return .ok sum
  | name :: rest => do
    match ← Query.ask name, sum with
    | .error e, _ => return .error e
    | .ok none, _ => return .error (.missingModel target.domain name)
    | .ok (some found), none => addAll s target (some found.data) rest
    | .ok (some found), some sum =>
      match sum.add s.chunking found.data with
      | .ok sum => addAll s target (some sum) rest
      | .error e => return .error (.lengthMismatch target.name e.left e.right)

/-- Computes a model as the sum of others. The sum of none is `base`, or zero, and `offset` is added
to every value. -/
def Calculator.sumOf (names : List String) (base : Option (Field α)) (offset : Option α)
    (remarks : List String) : Calculator β α where
  calculate s target := do
    match ← Query.addAll s target none names with
    | .error e => return { result := .error e }
    | .ok sum =>
      let start := sum.getD (base.getD (.zeros target.size))
      return { result := .ok (offset.elim start fun x => start.map s.chunking (· + x)), remarks }
  dependencies := names
  expression := none

end FiniteVolume
