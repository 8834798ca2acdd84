import FiniteVolume.Assembly.RowMap
import FiniteVolume.Log
import FiniteVolume.Model.Query

/-!
Why an assembly fails.
-/
namespace FiniteVolume

inductive AssemblyError where
  | missingModel (scope : Scope) (model : String) (domain : Domain)
  | missingEquation (scope : Scope) (equation : String)
  | missingCircuitNode (scope : Scope) (node : String)
  | rowConflict (conflict : RowConflict)
  /-- A numeric pass ran before the rows were claimed. -/
  | rowsNotClaimed
  | model (scope : Scope) (cause : ModelError)
  deriving Repr, DecidableEq

namespace AssemblyError

def message : AssemblyError → String
  | missingModel scope name domain =>
    scope.text ++ ": missing " ++ domain.text ++ " model \"" ++ name ++ "\""
  | missingEquation scope equation =>
    scope.text ++ ": no equation index for \"" ++ equation ++ "\""
  | missingCircuitNode scope node =>
    scope.text ++ ": circuit node \"" ++ node ++ "\" does not exist"
  | rowConflict conflict => conflict.message
  | rowsNotClaimed => "assembly pass ran before the permutation pass"
  | model scope cause => scope.text ++ ": " ++ cause.message

def cause? : AssemblyError → Option ModelError
  | model _ cause => some cause
  | _ => none

end AssemblyError

end FiniteVolume
