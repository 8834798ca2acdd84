import FiniteVolume.Device.Basic
import FiniteVolume.Expression.Value
import FiniteVolume.Report.Basic

/-!
Reports of failures: a code that names the kind of failure, the message, and the message of the cause
if there is one. The code of a failure with a cause ends in the code of the cause.
-/
namespace FiniteVolume

class Fault (ε : Type) where
  code : ε → String
  message : ε → String
  cause? : ε → Option String := fun _ => none

def Fault.report {ε : Type} [Fault ε] (e : ε) : Report :=
  .record <| [("error", .text (code e)), ("message", .text (message e))]
    ++ (cause? e).toList.map fun cause => ("source", .text cause)

instance {ε ρ : Type} [Fault ε] [Reportable ρ] : Reportable (Except ε ρ) :=
  ⟨fun
    | .ok r => report r
    | .error e => Fault.report e⟩

def LengthMismatch.code (_ : LengthMismatch) : String := "LengthMismatch"

instance : Fault LengthMismatch where
  code := LengthMismatch.code
  message := LengthMismatch.message

def ModelError.code : ModelError → String
  | missingModel .. => "MissingModel"
  | cyclicDependency .. => "CyclicDependency"
  | lengthMismatch .. => "LengthMismatch"
  | invalidResultType .. => "InvalidResultType"
  | evaluationFailed .. => "EvaluationFailed"
  | unknownContact .. => "UnknownContact"
  | nodeOutOfRange .. => "NodeOutOfRange"

instance : Fault ModelError where
  code := ModelError.code
  message := ModelError.message

def MeshError.code : MeshError → String
  | tooFewNodes .. => "TooFewNodes"
  | nodeOutOfRange .. => "NodeOutOfRange"
  | degenerateElement .. => "DegenerateElement"
  | emptyBoundary .. => "EmptyBoundary"
  | boundaryNodeOutOfRange .. => "BoundaryNodeOutOfRange"

instance : Fault MeshError where
  code := MeshError.code
  message := MeshError.message

def SettingsError.code {β : Type} : SettingsError β → String
  | zeroChunk => "ZeroChunkLength"
  | missingModelTooLow .. => "MissingModelSeverityTooLow"
  | constantOutOfRange .. => "InvalidConstant"
  | emptyMeasure .. => "EmptyMeasureName"

instance {β : Type} [Scalar β] : Fault (SettingsError β) where
  code := SettingsError.code
  message := SettingsError.message

def EvalError.code : EvalError → String
  | missingModel .. => "MissingModel"
  | missingParameter .. => "MissingVariable"
  | model _ cause => "Model." ++ cause.code
  | incompatibleDomains .. => "IncompatibleDomains"
  | lengthMismatch .. => "LengthMismatch"
  | unknownFunction .. => "UnknownFunction"
  | wrongArity .. => "WrongArity"
  | invalidArgument .. => "InvalidArgument"
  | nonFinite .. => "NonFinite"
  | invalidExpression .. => "InvalidExpression"

instance : Fault EvalError where
  code := EvalError.code
  message := EvalError.message
  cause? e := e.cause?.map (·.message)

def AssemblyError.code : AssemblyError → String
  | missingModel .. => "MissingEquationModel"
  | missingEquation .. => "MissingEquationIndex"
  | missingCircuitNode .. => "MissingCircuitNode"
  | rowConflict .. => "PermutationRowConflict"
  | rowsNotClaimed => "PermutationsNotLoaded"
  | model _ cause => "Model." ++ cause.code

instance : Fault AssemblyError where
  code := AssemblyError.code
  message := AssemblyError.message
  cause? e := e.cause?.map (·.message)

def UpdateError.code {β : Type} : UpdateError β → String
  | lengthMismatch .. => "LengthMismatch"
  | nonPositive .. => "NonPositiveSolutionVariable"
  | model cause => "Model." ++ cause.code

instance {β : Type} [Scalar β] : Fault (UpdateError β) where
  code := UpdateError.code
  message := UpdateError.message
  cause? e := e.cause?.map (·.message)

def DeviceError.code {β : Type} : DeviceError β → String
  | settings cause => "Config." ++ cause.code
  | duplicateRegion .. => "DuplicateRegion"
  | unknownRegion .. => "UnknownRegion"
  | duplicateContact .. => "DuplicateContact"
  | selfInterface .. => "SelfInterface"
  | unknownContact .. => "UnknownContact"
  | unknownInterface .. => "UnknownInterface"
  | duplicateEquation .. => "DuplicateEquation"
  | mesh cause => "Mesh." ++ cause.code
  | assembly cause => "Assembly." ++ cause.code
  | update cause => "Update." ++ cause.code
  | rowsOutOfRange .. => "RowsOutOfRange"

instance {β : Type} [Scalar β] : Fault (DeviceError β) where
  code := DeviceError.code
  message := DeviceError.message
  cause? := DeviceError.causeMessage?

end FiniteVolume
