import FiniteVolume.Assembly.Error
import FiniteVolume.Assembly.Records
import FiniteVolume.Settings

/-!
Passes of an assembly: what they produce, the state they work on and the steps they consist of. A
step that fails leaves behind what it did before: records, claimed rows and log.
-/
namespace FiniteVolume

inductive Selector where
  | matrix
  | residual
  | both
  /-- Claims of boundary equations on rows, and no numbers. -/
  | rows
  deriving Repr, DecidableEq

namespace Selector

def wantsMatrix : Selector → Bool
  | matrix | both => true
  | residual | rows => false

def wantsResidual : Selector → Bool
  | residual | both => true
  | matrix | rows => false

end Selector

/-- Steady terms, or terms under a time derivative. -/
inductive TimeMode where
  | steady
  | transient
  deriving Repr, DecidableEq

/-- The state of a pass over an owner of models. -/
structure PassState (σ α : Type) where
  owner : σ
  rows : RowMap := ∅
  log : Log := {}
  out : Records α := {}

abbrev Pass (σ α ρ : Type) := ExceptT AssemblyError (StateM (PassState σ α)) ρ

/-- Where a pass reports from, and under which settings. -/
structure Site (β : Type) [BaseScalar β] where
  settings : Settings β
  scope : Scope

namespace Pass

variable {σ τ α ρ : Type}

def report (severity : Severity) (scope : Scope) (message : String) : Pass σ α Unit :=
  modify fun s => { s with log := s.log.write severity scope message }

def addResidual (records : List (ResidualRecord α)) : Pass σ α Unit :=
  modify fun s => { s with out := s.out.addResidual records }

def addMatrix (records : List (MatrixRecord α)) : Pass σ α Unit :=
  modify fun s => { s with out := s.out.addMatrix records }

def claimRow (row : Nat) (move : RowMove) : Pass σ α Unit := do
  match (← get).rows.claim row move with
  | .ok rows => modify fun s => { s with rows }
  | .error conflict => throw (.rowConflict conflict)

def onPart (part : σ → τ) (update : σ → τ → σ) (step : Pass τ α ρ) : Pass σ α ρ := fun s =>
  let (result, t) := step { s with owner := part s.owner }
  (result, { t with owner := update s.owner t.owner })

end Pass

end FiniteVolume
