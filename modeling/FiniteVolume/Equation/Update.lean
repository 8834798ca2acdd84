import FiniteVolume.Model.Query
import FiniteVolume.Settings

/-!
Updates of a solution variable: one raw step per node, turned by a policy into the step that is
taken. The sizes of the steps taken are kept as statistics. A fault at a node leaves the nodes before
it updated and the others as they were.
-/
namespace FiniteVolume

inductive UpdatePolicy where
  | plain
  /-- Large steps grow with the logarithm of the raw step, and a positive value stays positive. -/
  | logDamp
  /-- A value that would not stay positive is set to a fraction of the old one. -/
  | positive
  deriving Repr, DecidableEq

namespace UpdatePolicy

def all : List UpdatePolicy := [plain, logDamp, positive]

def text : UpdatePolicy → String
  | plain => "default"
  | logDamp => "log_damp"
  | positive => "positive"

def ofText? (keyword : String) : Option UpdatePolicy := all.find? (·.text = keyword)

end UpdatePolicy

/-- The largest steps of an update, and the first nodes where they occur. -/
structure UpdateStats (β : Type) [Zero β] where
  /-- Largest step. -/
  absError : β := 0
  absNode : Nat := 0
  /-- Largest step in units of the new value. -/
  relError : β := 0
  relNode : Nat := 0

namespace UpdateStats

variable {β : Type} [Scalar β]

def converged (s : UpdateStats β) (absTolerance relTolerance : β) : Bool :=
  Scalar.le s.absError absTolerance && Scalar.le s.relError relTolerance

def max (s t : UpdateStats β) : UpdateStats β :=
  let abs := if Scalar.lt s.absError t.absError then t else s
  let rel := if Scalar.lt s.relError t.relError then t else s
  ⟨abs.absError, abs.absNode, rel.relError, rel.relNode⟩

end UpdateStats

inductive UpdateError (β : Type) where
  | lengthMismatch (expected actual : Nat)
  | nonPositive (scope : Scope) (variableName : String) (node : Nat) (value : β)
  | model (cause : ModelError)
  deriving Repr

namespace UpdateError

variable {β : Type} [Scalar β]

def message : UpdateError β → String
  | lengthMismatch expected actual => s!"update has {actual} entries, expected {expected}"
  | nonPositive scope name node value =>
    scope.text ++ ": solution variable \"" ++ name ++ "\" is non-positive (" ++ Scalar.text value
      ++ s!") at node {node}"
  | model cause => "model: " ++ cause.message

omit [Scalar β] in
def cause? : UpdateError β → Option ModelError
  | model cause => some cause
  | _ => none

end UpdateError

namespace UpdatePolicy

variable {β α : Type} [BaseScalar β] [Scalar α] [Precision β α]

open Precision

/-- The damped step: steps above the scale are compressed, and a step that would take a positive
value to zero or below becomes a factor. -/
def dampedStep (u : UpdateSettings β) (old raw : α) : α :=
  let scale : α := narrow u.dampScale
  let bound : α := narrow u.maxDamp
  let step :=
    if Scalar.lt scale (Scalar.abs raw) then
      Scalar.signum raw * scale * Scalar.min (Scalar.log (1 + Scalar.abs raw / scale)) bound
    else raw
  if Scalar.lt 0 old && Scalar.le (old + step) 0 then
    old * Scalar.exp (Scalar.max (step / old) (-bound)) - old
  else step

/-- A positive value below a positive old one: a fraction of it, half of it where the fraction is too
small to be positive, or the old value itself. -/
def positiveFloor (u : UpdateSettings β) (old : α) : α :=
  let floor := old * narrow u.floorRatio
  let half := old * narrow 0.5
  if Scalar.lt 0 floor then floor else if Scalar.lt 0 half then half else old

end UpdatePolicy

/-- What happens at one node: the step taken, the new value, and whether it was clamped. -/
structure NodeUpdate (α : Type) where
  step : α
  value : α
  clamped : Bool := false

namespace UpdatePolicy

variable {β α : Type} [BaseScalar β] [Scalar α] [Precision β α]

/-- The update of one node; none where the old value should have been positive. -/
def step? (p : UpdatePolicy) (u : UpdateSettings β) (old raw : α) : Option (NodeUpdate α) :=
  match p with
  | plain => some { step := raw, value := old + raw }
  | logDamp =>
    let step := dampedStep u old raw
    some { step, value := old + step }
  | positive =>
    if Scalar.le old 0 then none
    else if Scalar.le (old + raw) 0 then
      let floor := positiveFloor u old
      some { step := floor - old, value := floor, clamped := true }
    else some { step := raw, value := old + raw }

end UpdatePolicy

def UpdateStats.record {β α : Type} [BaseScalar β] [Scalar α] [Precision β α] (s : UpdateStats β)
    (u : UpdateSettings β) (node : Nat) (n : NodeUpdate α) : UpdateStats β :=
  let size := Scalar.abs n.step
  let abs := Precision.widen size
  let rel := Precision.widen (size / (Scalar.abs n.value + Precision.narrow u.minError))
  s.max ⟨abs, node, rel, node⟩

/-- A variable under update: its name, the place to report from, the policy and its constants. -/
structure UpdateSite (β : Type) [BaseScalar β] where
  policy : UpdatePolicy
  settings : UpdateSettings β
  variableName : String
  scope : Scope

namespace UpdateSite

variable {β α : Type} [BaseScalar β] [Scalar α] [Precision β α]

def warn (site : UpdateSite β) (node : Nat) (clamped : Bool) (log : Log) : Log :=
  if clamped then
    log.write .warning site.scope ("solution variable \"" ++ site.variableName
      ++ s!"\" would become non-positive at node {node}; clamped")
  else log

/-- Update the nodes from `node` on, given with their raw steps: the statistics, the values that
result, and the log. -/
def applyFrom (site : UpdateSite β) (node : Nat) (stats : UpdateStats β) (log : Log) :
    List (α × α) → Except (UpdateError β) (UpdateStats β) × List α × Log
  | [] => (.ok stats, [], log)
  | (old, raw) :: rest =>
    match site.policy.step? site.settings old raw with
    | none =>
      let message := "solution variable \"" ++ site.variableName ++ "\" is non-positive ("
        ++ Scalar.text old ++ s!") at node {node}"
      (.error (.nonPositive site.scope site.variableName node (Precision.widen old)),
        old :: rest.map (·.1), log.write .fatal site.scope message)
    | some n =>
      let (result, values, log) := applyFrom site (node + 1) (stats.record site.settings node n)
        (site.warn node n.clamped log) rest
      (result, n.value :: values, log)

def apply (site : UpdateSite β) (values raw : Array α) (log : Log) :
    Except (UpdateError β) (UpdateStats β) × Array α × Log :=
  if values.size ≠ raw.size then (.error (.lengthMismatch values.size raw.size), values, log)
  else
    let (result, values, log) := applyFrom site 0 {} log (values.toList.zip raw.toList)
    (result, values.toArray, log)

end UpdateSite

end FiniteVolume
