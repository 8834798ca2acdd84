import FiniteVolume.Numeric.Scalar
import FiniteVolume.Log

/-!
Settings of an assembly: how long vectors are divided, the constants of solution updates and the
names of the geometric measures. `Settings.validate` accepts exactly the settings that a device can
be built with.
-/
namespace FiniteVolume

/-- How elementwise work on long vectors is divided. -/
structure Chunking where
  /-- Vectors shorter than this are not divided. -/
  threshold : Nat := 8192
  /-- Length of one chunk. -/
  chunk : Nat := 2048
  deriving Repr, DecidableEq

def Chunking.serial : Chunking := { threshold := Nat.pow 2 64 - 1 }

structure UpdateSettings (β : Type) [BaseScalar β] where
  /-- Steps above this are damped. -/
  dampScale : β := 0.0259
  /-- Bound on the damped step in units of `dampScale`, and on relative steps. -/
  maxDamp : β := 20.0
  /-- Fraction of the old value that a positive variable is clamped to. -/
  floorRatio : β := 1.0e-3
  /-- Added to the new value when relative errors are formed. -/
  minError : β := 1.0e-10

structure MeasureNames where
  nodeVolume : String := "NodeVolume"
  edgeCouple : String := "EdgeCouple"
  edgeNode0Volume : String := "EdgeNodeVolume"
  edgeNode1Volume : String := "EdgeNodeVolume"
  elementEdgeCouple : String := "ElementEdgeCouple"
  elementNode0Volume : String := "ElementNodeVolume"
  elementNode1Volume : String := "ElementNodeVolume"
  surfaceArea : String := "SurfaceArea"
  deriving Repr, DecidableEq

def MeasureNames.toList (m : MeasureNames) : List (String × String) :=
  [("node_volume", m.nodeVolume), ("edge_couple", m.edgeCouple),
    ("edge_node0_volume", m.edgeNode0Volume), ("edge_node1_volume", m.edgeNode1Volume),
    ("element_edge_couple", m.elementEdgeCouple),
    ("element_node0_volume", m.elementNode0Volume),
    ("element_node1_volume", m.elementNode1Volume), ("surface_area", m.surfaceArea)]

structure Settings (β : Type) [BaseScalar β] where
  /-- Severity of a missing model: fatal aborts, error assembles a zero contribution. -/
  missingModel : Severity := .fatal
  chunking : Chunking := {}
  update : UpdateSettings β := {}
  measures : MeasureNames := {}

inductive SettingsError (β : Type) where
  | zeroChunk
  | missingModelTooLow (severity : Severity)
  | constantOutOfRange (key : String) (value : β)
  | emptyMeasure (key : String)
  deriving Repr

def SettingsError.message {β : Type} [Scalar β] : SettingsError β → String
  | zeroChunk => "kernel chunk_len must be at least 1"
  | missingModelTooLow severity =>
    "missing_model_severity must be error or fatal, got " ++ severity.text
  | constantOutOfRange key value =>
    "update constant " ++ key ++ " out of range: " ++ Scalar.text value
  | emptyMeasure key => "measure model name " ++ key ++ " must not be empty"

variable {β : Type} [BaseScalar β]

/-- A finite number above zero. -/
def isPositiveConstant (x : β) : Bool := Scalar.isFinite x && Scalar.lt 0 x

/-- Every rule that the settings break: chunk length, severity, names, constants, in that order. -/
def Settings.faults (s : Settings β) : List (SettingsError β) :=
  let constants := [("log_damp_scale", s.update.dampScale), ("max_log_step", s.update.maxDamp),
    ("min_error", s.update.minError)]
  let ratio := s.update.floorRatio
  (if s.chunking.chunk = 0 then [.zeroChunk] else [])
    ++ (if Severity.error ≤ s.missingModel then [] else [.missingModelTooLow s.missingModel])
    ++ (s.measures.toList.filter (·.2.isEmpty)).map (.emptyMeasure ·.1)
    ++ (constants.filter fun c => !isPositiveConstant c.2).map (fun c => .constantOutOfRange c.1 c.2)
    ++ (if Scalar.lt 0 ratio && Scalar.lt ratio 1 then []
        else [.constantOutOfRange "positive_floor_ratio" ratio])

/-- Accept settings that break no rule, and name the first broken one otherwise. -/
def Settings.validate (s : Settings β) : Except (SettingsError β) Unit :=
  match s.faults with
  | [] => .ok ()
  | fault :: _ => .error fault

end FiniteVolume
